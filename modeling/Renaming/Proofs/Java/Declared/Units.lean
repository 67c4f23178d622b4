import Mathlib.Data.List.Nodup
import Renaming.Java.Declared
import Renaming.Proofs.Java.Binding.Survey
import Renaming.Proofs.Java.Declared.Members
import Renaming.Proofs.Java.Grammar
import Renaming.Proofs.SortedMap

/-!
# Indexed units

The types and the methods of a unit are found again by where they start. Since declarations are told
by where they start, what is found at a declaration is what the declaration made.
-/

namespace Renaming.Java

theorem mem_memberNodes {body n : Node} (h : n ∈ memberNodes body) :
    n ∈ body.namedChildren ∨
      ∃ e ∈ body.namedChildren, e.kind = .enumBodyDeclarations ∧ n ∈ e.namedChildren := by
  obtain ⟨c, hc, hn⟩ := List.mem_flatMap.1 h
  split at hn
  · rename_i hkind
    exact .inr ⟨c, hc, by simpa using hkind, hn⟩
  · rw [List.mem_singleton.1 hn]
    exact .inl hc

theorem in_memberNodes {T : Node → Prop} [Descends T] {body n : Node} (hbody : T body)
    (h : n ∈ memberNodes body) : T n := by
  rcases mem_memberNodes h with hn | ⟨e, he, -, hn⟩
  · exact Descends.named hbody n hn
  · exact Descends.named (Descends.named hbody e he) n hn

namespace ParsedUnit

/-- A unit with a whole tree, if it has any. -/
def Whole (unit : ParsedUnit) : Prop := ∀ root ∈ unit.tree, root.Whole unit.source

/-- Units are whole as the grammar reads them. -/
theorem whole_ofText (id text : String) : (ofText id text).Whole := by
  intro root hroot
  exact (Node.ofText?_whole hroot).1

/-! ## Registered types -/

variable (unit : ParsedUnit) {root : Node}

theorem starts_registered (htree : unit.tree = some root)
    (hkind : root.kind = .program ∨ root.kind = .error)
    {types : SortedMap Nat String} (hnamed : ∀ t ∈ unit.registered, types.contains t.start = true) :
    (unit.registered.map RegisteredType.start).Sublist
      ((Sites.nodesAll types root root.children).map fun e => e.2.start) := by
  have hprogram : unit.registered = Registration.visitAll unit.source
      (declaredPackage unit.source root) none root.kind [] root.children := by
    rw [registered, htree]
    change registeredTypes _ root = _
    unfold registeredTypes
    obtain ⟨kind, role, span, text, children⟩ := root
    rw [Registration.visit.eq_def]
    rcases hkind with hkind | hkind
    · cases hkind
      rfl
    · cases hkind
      rfl
  rw [hprogram] at hnamed ⊢
  obtain ⟨added, hadded, hstarts⟩ := Sites.starts_registerAll root hnamed
  rw [hadded]
  exact hstarts

theorem ordered_registered (htree : unit.tree = some root) (hwhole : root.Whole unit.source) :
    (unit.registered.map RegisteredType.start).Pairwise (· < ·) := by
  let types : SortedMap Nat String := .ofList (unit.registered.map fun t => (t.start, t.binary))
  have hstarts : (unit.registered.map RegisteredType.start).Sublist
      ((Sites.nodesAll types root root.children).map fun e => e.2.start) :=
    unit.starts_registered htree hwhole.kind fun t ht =>
      SortedMap.contains_ofList (List.mem_map_of_mem ht)
  refine List.Pairwise.sublist hstarts (List.pairwise_map.2 ?_)
  exact Sites.ordered_nodesAll hwhole.sound .self (List.Sublist.refl root.children)

/-- A type is found again where it starts. -/
theorem get?_registered (htree : unit.tree = some root) (hwhole : root.Whole unit.source)
    {t : RegisteredType} (ht : t ∈ unit.registered) :
    (SortedMap.ofList (unit.registered.map fun t => (t.start, t.binary))).get? t.start =
      some t.binary := by
  obtain ⟨binary, hbinary⟩ := Option.isSome_iff_exists.1
    (SortedMap.contains_ofList (List.mem_map_of_mem (f := fun t => (t.start, t.binary)) ht))
  obtain ⟨s, hs, heq⟩ := List.mem_map.1 (SortedMap.mem_of_get?_ofList hbinary)
  obtain ⟨hstart, hsbinary⟩ := Prod.mk.inj heq
  have hnodup : (unit.registered.map RegisteredType.start).Nodup :=
    (unit.ordered_registered htree hwhole).imp Nat.ne_of_lt
  rw [hbinary, ← hsbinary, List.inj_on_of_nodup_map hnodup hs ht hstart]

end ParsedUnit

namespace DeclaredUnit

/-- A unit with the types that are registered in its tree, and with the methods that its types have
where `index` is known. -/
structure Indexed (index : TypeIndex) (unit : DeclaredUnit) (root : Node) : Prop where
  tree : unit.unit.tree = some root
  whole : root.Whole unit.unit.source
  types : unit.types = .ofList (unit.unit.registered.map fun t => (t.start, t.binary))
  methods : unit.methods = .ofList ((unit.members index).flatMap fun (owner, m) =>
    m.located.map fun (start, method) => (start, (owner, method)))

namespace Indexed

variable {index : TypeIndex} {unit : DeclaredUnit} {root : Node}

/-! ## Types -/

/-- The sites of a unit, less their scopes. -/
theorem outline_sites (h : unit.Indexed index root) :
    (unit.sites index).map DeclarationSite.outline =
      (Sites.nodesAll unit.types root root.children).filterMap (Sites.outline? unit.types) := by
  have hroot : Sites.nodes unit.types root root =
      Sites.nodesAll unit.types root root.children := by
    have hkind := h.whole.kind
    obtain ⟨kind, role, span, text, children⟩ := root
    rw [Sites.nodes]
    rcases hkind with hkind | hkind
    · cases hkind
      rfl
    · cases hkind
      rfl
  rw [sites, h.tree]
  change (declarationSites _ _ _ _ _).map _ = _
  rw [declarationSites, Sites.outline_visit, hroot]
  rfl

/-- A site is at a node that declares a type. -/
theorem exists_declaring (h : unit.Indexed index root) {site : DeclarationSite}
    (hsite : site ∈ unit.sites index) :
    ∃ parent, Sites.Declaring unit.types root root (parent, site.node) ∧
      unit.types.get? site.node.start = some site.binary ∧
      site.isAnonymous = isAnonymousBody parent.kind site.node := by
  have houtline := List.mem_map_of_mem (f := DeclarationSite.outline) hsite
  rw [h.outline_sites] at houtline
  obtain ⟨⟨parent, n⟩, hnode, houtline⟩ := List.mem_filterMap.1 houtline
  obtain ⟨binary, hbinary, heq⟩ := Option.map_eq_some_iff.1 houtline
  simp only [DeclarationSite.outline, Prod.mk.injEq] at heq
  obtain ⟨rfl, rfl, hanonymous⟩ := heq
  obtain ⟨c, hc, hdeclaring⟩ :=
    Sites.declaring_nodesAll .self (List.Subset.refl root.children) _ hnode
  exact ⟨parent, hdeclaring.up hc, hbinary, hanonymous.symm⟩

theorem ordered_nodes (h : unit.Indexed index root) :
    (Sites.nodesAll unit.types root root.children).Pairwise fun a b => a.2.start < b.2.start :=
  Sites.ordered_nodesAll h.whole.sound .self (List.Sublist.refl root.children)

/-- The types of a unit start one after the other, at nodes that declare types. -/
theorem starts_registered (h : unit.Indexed index root) :
    (unit.unit.registered.map RegisteredType.start).Sublist
      ((Sites.nodesAll unit.types root root.children).map fun e => e.2.start) := by
  refine unit.unit.starts_registered h.tree h.whole.kind fun t ht => ?_
  rw [h.types]
  exact SortedMap.contains_ofList (List.mem_map_of_mem ht)

/-- A type is found again where it starts. -/
theorem binary_of_registered (h : unit.Indexed index root) {t : RegisteredType}
    (ht : t ∈ unit.unit.registered) : unit.types.get? t.start = some t.binary := by
  rw [h.types]
  exact unit.unit.get?_registered h.tree h.whole ht

/-- Every type of a unit has its site where it starts. -/
theorem exists_site_of_registered (h : unit.Indexed index root) {t : RegisteredType}
    (ht : t ∈ unit.unit.registered) :
    ∃ site ∈ unit.sites index, site.node.start = t.start ∧ site.binary = t.binary := by
  obtain ⟨e, he, hstart⟩ := List.mem_map.1 (h.starts_registered.subset (List.mem_map_of_mem ht))
  have houtline : (t.binary, e.2, isAnonymousBody e.1.kind e.2) ∈
      (unit.sites index).map DeclarationSite.outline := by
    rw [h.outline_sites]
    refine List.mem_filterMap.2 ⟨e, he, ?_⟩
    rw [Sites.outline?, hstart, h.binary_of_registered ht]
    rfl
  obtain ⟨site, hsite, heq⟩ := List.mem_map.1 houtline
  simp only [DeclarationSite.outline, Prod.mk.injEq] at heq
  exact ⟨site, hsite, by rw [heq.2.1, hstart], heq.1⟩

/-- Every type that starts at a declaration has its site there. -/
theorem exists_site (h : unit.Indexed index root) {n : Node} {binary : String}
    (hn : root.Below n) (hkind : n.kind.isDeclaration = true)
    (hbinary : unit.types.get? n.start = some binary) :
    ∃ site ∈ unit.sites index, site.node = n ∧ site.binary = binary := by
  have hentry := hbinary
  rw [h.types] at hentry
  obtain ⟨t, ht, heq⟩ := List.mem_map.1 (SortedMap.mem_of_get?_ofList hentry)
  obtain ⟨hstart, rfl⟩ := Prod.mk.inj heq
  obtain ⟨site, hsite, hsame, hsbinary⟩ := h.exists_site_of_registered ht
  obtain ⟨parent, hdeclaring, -, -⟩ := h.exists_declaring hsite
  refine ⟨site, hsite, ?_, hsbinary⟩
  exact h.whole.sound.eq_of_start_eq hdeclaring.below hn (hdeclaring.isDeclaration h.whole.sound)
    hkind (hsame.trans hstart)

/-- Sites start one after the other. -/
theorem ordered_sites (h : unit.Indexed index root) :
    (unit.sites index).Pairwise fun a b => a.node.start < b.node.start := by
  have houtline : ((unit.sites index).map DeclarationSite.outline).Pairwise
      fun a b => a.2.1.start < b.2.1.start := by
    rw [h.outline_sites]
    refine List.Pairwise.filterMap (Sites.outline? unit.types) (fun a b hab x hx y hy => ?_)
      h.ordered_nodes
    obtain ⟨_, -, rfl⟩ := Option.map_eq_some_iff.1 hx
    obtain ⟨_, -, rfl⟩ := Option.map_eq_some_iff.1 hy
    exact hab
  rw [List.pairwise_map] at houtline
  exact houtline

/-- The body of a site hangs in the tree. -/
theorem below_body (h : unit.Indexed index root) {site : DeclarationSite}
    (hsite : site ∈ unit.sites index) {body : Node} (hbody : site.body? = some body) :
    root.Below body := by
  obtain ⟨parent, hdeclaring, -, -⟩ := h.exists_declaring hsite
  have hnode : root.Below site.node := hdeclaring.below
  unfold DeclarationSite.body? at hbody
  split at hbody
  · exact Descends.child hnode _ body hbody
  · cases hbody
    exact hnode

/-! ## Methods -/

theorem exists_located (h : unit.Indexed index root) {start : Nat} {owner : String}
    {m : MethodDeclaration} (hm : unit.methods.get? start = some (owner, m)) :
    ∃ site ∈ unit.sites index, site.binary = owner ∧
      (start, m) ∈ (site.members index unit.unit.source).located := by
  rw [h.methods] at hm
  obtain ⟨⟨binary, members⟩, hmembers, hentries⟩ :=
    List.mem_flatMap.1 (SortedMap.mem_of_get?_ofList hm)
  obtain ⟨site, hsite, heq⟩ := List.mem_map.1 hmembers
  cases heq
  obtain ⟨entry, hlocated, heq⟩ := List.mem_map.1 hentries
  cases heq
  exact ⟨site, hsite, rfl, hlocated⟩

/-- What is found at the declaration of a method is the method that it makes. -/
theorem exists_makes (h : unit.Indexed index root) {n : Node} {owner : String}
    {m : MethodDeclaration} (hn : root.Below n) (hkind : n.kind.isDeclaration = true)
    (hm : unit.methods.get? n.start = some (owner, m)) :
    ∃ site ∈ unit.sites index, site.binary = owner ∧ ∃ body, site.body? = some body ∧
      n ∈ memberNodes body ∧ (site.inner index unit.unit.source).Makes
        (site.canonical (site.inner index unit.unit.source)) n m := by
  obtain ⟨site, hsite, howner, hlocated⟩ := h.exists_located hm
  obtain ⟨-, body, hbody, n', hn', hstart, hmakes⟩ :=
    DeclarationSite.exists_of_mem_located hlocated
  have hbelow : root.Below n' := in_memberNodes (h.below_body hsite hbody) hn'
  have hsame : n' = n :=
    h.whole.sound.eq_of_start_eq hbelow hn hmakes.isDeclaration hkind hstart
  subst hsame
  exact ⟨site, hsite, howner, body, hbody, hn', hmakes⟩

theorem name_of_declares (h : unit.Indexed index root) {n name : Node} {owner : String}
    {m : MethodDeclaration} (hn : root.Below n) (hkind : n.kind = .methodDeclaration)
    (hm : unit.methods.get? n.start = some (owner, m)) (hname : n.child? .name = some name) :
    m.name = unit.unit.source.text name := by
  obtain ⟨_, _, _, _, _, _, hmakes⟩ := h.exists_makes hn (by rw [hkind]; rfl) hm
  exact hmakes.name hkind hname

theorem isConstructor_of_declares (h : unit.Indexed index root) {n : Node} {owner : String}
    {m : MethodDeclaration} (hn : root.Below n)
    (hkind : n.kind = .constructorDeclaration ∨ n.kind = .compactConstructor)
    (hm : unit.methods.get? n.start = some (owner, m)) : m.isConstructor = true := by
  have hdeclaration : n.kind.isDeclaration = true := by
    rcases hkind with hkind | hkind <;> rw [hkind] <;> rfl
  obtain ⟨_, _, _, _, _, _, hmakes⟩ := h.exists_makes hn hdeclaration hm
  exact hmakes.isConstructor hkind

theorem length_of_declares (h : unit.Indexed index root) {n list : Node} {owner : String}
    {m : MethodDeclaration} (hn : root.Below n)
    (hkind : n.kind = .methodDeclaration ∨ n.kind = .constructorDeclaration)
    (hm : unit.methods.get? n.start = some (owner, m))
    (hlist : n.child? .parameters = some list) :
    (list.namedChildren.filterMap Binding.parameterParts?).length ≤
      m.descriptor.params.length := by
  have hdeclaration : n.kind.isDeclaration = true := by
    rcases hkind with hkind | hkind <;> rw [hkind] <;> rfl
  obtain ⟨_, _, _, _, _, _, hmakes⟩ := h.exists_makes hn hdeclaration hm
  exact hmakes.length_parameters (h.whole.sound.of_below hn) hkind hlist

/-- The body of a record is the body of one site only, that of the record. -/
theorem node_eq_of_body (h : unit.Indexed index root) {n body : Node} {site : DeclarationSite}
    (hn : root.Below n) (hkind : n.kind = .recordDeclaration) (hbody : n.child? .body = some body)
    (hsite : site ∈ unit.sites index) (hsame : site.body? = some body) :
    site.node = n ∧ site.isAnonymous = false := by
  obtain ⟨parent, hdeclaring, -, hanonymous⟩ := h.exists_declaring hsite
  have hmem := (List.mem_filter.1 ((h.whole.sound.of_below hn).child_spec hbody).1).1
  have hsolid : body.kind.isSolid = true := by
    obtain ⟨hpart, hrole⟩ := (h.whole.sound.of_below hn).child_spec hbody
    have hbodied : body.kind = .classBody :=
      (h.whole.sound.of_below hn).shape.bodied (.inl hkind) body.part (List.mem_map_of_mem hpart)
        hrole
    rw [hbodied]
    rfl
  rw [DeclarationSite.isAnonymous] at hanonymous ⊢
  rw [DeclarationSite.body?] at hsame
  cases hform : site.form with
  | named typeParams =>
    rw [hform] at hsame
    have hmem' := List.mem_of_find?_eq_some hsame
    exact ⟨h.whole.sound.parent_eq hdeclaring.below hn hmem' hmem hsolid, rfl⟩
  | anonymous base =>
    rw [hform] at hsame hanonymous
    cases hsame
    have hparent : parent = n :=
      h.whole.sound.parent_eq hdeclaring.parent hn hdeclaring.child hmem hsolid
    rw [hparent, hkind] at hanonymous
    simp [isAnonymousBody] at hanonymous

/-- The compact constructor of a record takes its components. -/
theorem length_of_compact (h : unit.Indexed index root) {n body c list : Node} {owner : String}
    {m : MethodDeclaration} (hn : root.Below n) (hkind : n.kind = .recordDeclaration)
    (hbody : n.child? .body = some body) (hlist : n.child? .parameters = some list)
    (hc : c ∈ body.namedChildren) (hcompact : c.kind = .compactConstructor)
    (hm : unit.methods.get? c.start = some (owner, m)) :
    (list.namedChildren.filterMap (·.child? .name)).length ≤ m.descriptor.params.length := by
  have hbody' : root.Below body := Descends.child hn _ body hbody
  obtain ⟨site, hsite, -, body', hsame, hc', hmakes⟩ :=
    h.exists_makes (Descends.named hbody' c hc) (by rw [hcompact]; rfl) hm
  have hchild := (List.mem_filter.1 hc).1
  have hsolid : c.kind.isSolid = true := by
    rw [hcompact]
    rfl
  have hbodies : body' = body := by
    rcases mem_memberNodes hc' with hc' | ⟨e, he, hlater, hc'⟩
    · exact h.whole.sound.parent_eq (h.below_body hsite hsame) hbody' (List.mem_filter.1 hc').1
        hchild hsolid
    · -- the second body of an enum is not the body of a record
      have hesame : e = body := h.whole.sound.parent_eq
        (Descends.named (h.below_body hsite hsame) e he) hbody' (List.mem_filter.1 hc').1 hchild
        hsolid
      obtain ⟨hpart, hrole⟩ := (h.whole.sound.of_below hn).child_spec hbody
      have hbodied := (h.whole.sound.of_below hn).shape.bodied (.inl hkind) body.part
        (List.mem_map_of_mem hpart) hrole
      rw [hesame] at hlater
      rw [show body.part.kind = body.kind from rfl, hlater] at hbodied
      cases hbodied
  subst hbodies
  obtain ⟨hnode, hform⟩ := h.node_eq_of_body hn hkind hbody hsite hsame
  cases hmakes with
  | method hkind' =>
    rw [hcompact] at hkind'
    rcases hkind' with h | h <;> cases h
  | compact _ hcanonical hm =>
    rw [hm]
    change _ ≤ (List.map GenericType.erasure _).length
    rw [List.length_map]
    subst hnode
    exact DeclarationSite.length_canonical (h.whole.sound.of_below hn) hform hkind hlist hcanonical

end Indexed

end DeclaredUnit

/-! ## Surveys -/

namespace Survey

/-- The compact constructor of a record takes its components, also where it is walked. -/
theorem length_of_implicit {S : Survey} {index : TypeIndex} {root body n : Node}
    {components : Option Node} {binary owner : String} {m : MethodDeclaration}
    (h : S.ctx.unit.Indexed index root) (hT : ∀ n, S.T n → root.Below n)
    (hbody : S.Body binary components body) (hn : n ∈ body.namedChildren)
    (hkind : n.kind = .compactConstructor) (hm : S.Declares n owner m) :
    (componentNames components).length ≤ m.descriptor.params.length := by
  cases hbody with
  | @named record _ _ hrecord _ _ hbody =>
    unfold Survey.components
    split
    · rename_i hkind'
      cases hlist : record.child? .parameters with
      | none => exact Nat.zero_le _
      | some list =>
        exact h.length_of_compact (hT record hrecord) (by simpa using hkind') hbody hlist hn hkind
          hm
    · exact Nat.zero_le _
  | anonymous => exact Nat.zero_le _
  | later => exact Nat.zero_le _

/-- The survey of a tree that may name everything. The tree need not be sound. -/
def unrestricted (orderly : Prop) (index : TypeIndex) (unit : DeclaredUnit) (root : Node) :
    Survey where
  ctx := ⟨index, unit⟩
  T := root.Below
  orderly
  type _ := True
  field _ _ := True
  method _ _ := True

theorem covers_unrestricted (orderly : Prop) (index : TypeIndex) {unit : DeclaredUnit} {root : Node}
    (h : orderly → ∃ known, unit.Indexed known root) :
    (unrestricted orderly index unit root).Covers where
  descends := inferInstanceAs (Descends root.Below)
  sound ho _ hn := (h ho).choose_spec.whole.sound.of_below hn
  memberType _ := trivial
  topLevel _ := trivial
  imported _ := trivial
  field _ _ := trivial
  method _ _ := trivial
  begins _ _ := trivial
  component _ _ _ _ _ := trivial
  value _ _ _ _ _ := trivial
  constant _ _ _ _ := trivial
  owner _ := trivial
  declared _ := trivial
  named ho _ _ _ _ hn hkind hm hname := (h ho).choose_spec.name_of_declares hn hkind hm hname
  constructed ho _ _ _ hn hkind hm := (h ho).choose_spec.isConstructor_of_declares hn hkind hm
  listed ho _ _ _ _ hn hkind hm hlist := (h ho).choose_spec.length_of_declares hn hkind hm hlist
  implicit ho _ _ _ _ _ _ hbody hn hkind hm :=
    length_of_implicit (h ho).choose_spec (fun _ hn => hn) hbody hn hkind hm

end Survey

/-! ## Programs -/

@[simp] theorem ParsedUnit.unit_declared (index : TypeIndex) (unit : ParsedUnit) :
    (unit.declared index).unit = unit := by
  unfold declared
  split <;> rfl

namespace Program

/-- The index with the types of all units, but without what they inherit or declare. -/
def entered (known : TypeIndex) (parsed : List ParsedUnit) : TypeIndex := known.register parsed

/-- The index with the supertypes of all types of the units. -/
def linked (known : TypeIndex) (parsed : List ParsedUnit) : TypeIndex :=
  let units := parsed.map (·.declared (entered known parsed))
  ((entered known parsed).readSupertypes units).readSupertypes units

variable {known : TypeIndex} {parsed : List ParsedUnit}

theorem units_ofUnits : (ofUnits known parsed).units = parsed.map fun p =>
    (p.declared (entered known parsed)).withMethods
      ((p.declared (entered known parsed)).members (linked known parsed)) := by
  change List.map _ (List.zip (List.map _ _) (List.map _ (List.map _ _))) = _
  rw [List.map_map, List.zip_map', List.map_map]
  rfl

theorem index_ofUnits : (ofUnits known parsed).index = (linked known parsed).enterMembers
    (parsed.flatMap fun p =>
      (p.declared (entered known parsed)).members (linked known parsed)) := by
  change TypeIndex.enterMembers _ (List.flatten _) = _
  rw [List.map_map, ← List.flatMap_def]
  rfl

/-- The units of a program are those that it was made of. -/
theorem map_unit_ofUnits (known : TypeIndex) (parsed : List ParsedUnit) :
    (ofUnits known parsed).units.map DeclaredUnit.unit = parsed := by
  rw [units_ofUnits, List.map_map]
  refine (List.map_congr_left fun p _ => ?_).trans (List.map_id parsed)
  exact ParsedUnit.unit_declared _ p

/-- The units of a program are indexed. -/
theorem indexed_of_mem {unit : DeclaredUnit} {root : Node}
    (hparsed : ∀ p ∈ parsed, p.Whole)
    (hunit : unit ∈ (ofUnits known parsed).units) (htree : unit.unit.tree = some root) :
    unit.Indexed (linked known parsed) root := by
  have hwhole : root.Whole unit.unit.source := by
    have hmem : unit.unit ∈ parsed := by
      rw [← map_unit_ofUnits known parsed]
      exact List.mem_map_of_mem hunit
    exact hparsed _ hmem root htree
  rw [units_ofUnits] at hunit
  obtain ⟨p, -, rfl⟩ := List.mem_map.1 hunit
  have hunit : (p.declared (entered known parsed)).unit = p := p.unit_declared _
  refine ⟨htree, hwhole, ?_, ?_⟩
  · change (p.declared (entered known parsed)).types = _
    have htree' : p.tree = some root := hunit ▸ htree
    rw [show ((p.declared (entered known parsed)).withMethods _).unit = p from hunit]
    unfold ParsedUnit.declared
    rw [htree']
  · rfl

end Program

end Renaming.Java
