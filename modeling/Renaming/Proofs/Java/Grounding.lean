import Renaming.Proofs.Java.Binding.Declarations
import Renaming.Proofs.Java.Declared.Index

/-!
# Grounded occurrences

What is reported of a unit is in the index of its program: the types, the fields and the methods are
those of the index, parameters are those of its methods, and local variables stand in its methods or
in the initializers of its types.
-/

namespace Renaming.Java

namespace TypeIndex

variable (index : TypeIndex)

def DeclaresField (owner name : String) : Prop :=
  ∃ d, index.get? owner = some d ∧ ∃ f ∈ d.fields, f.name = name

def DeclaresMethod (owner : String) (m : MethodDeclaration) : Prop :=
  ∃ d, index.get? owner = some d ∧ m ∈ d.methods

/-- The signature of a method of the index. -/
def IsMethod (s : Signature) : Prop :=
  ∃ owner m, index.DeclaresMethod owner m ∧ s = m.signature owner

/-- What a signature of each kind stands for in an index. -/
def Grounds (s : Signature) : SymbolKind → Prop
  | .type => ∃ binary, index.contains binary = true ∧ s = .ofType binary
  | .field => ∃ owner name, index.DeclaresField owner name ∧ s = .ofField owner name
  | .method => index.IsMethod s
  | .parameter => ∃ owner m i, index.DeclaresMethod owner m ∧ i < m.descriptor.params.length ∧
      s = .ofParameter (m.signature owner) i
  | .localVariable => ∃ host name ordinal, s = .ofLocal host name ordinal ∧
      (index.IsMethod host ∨ ∃ binary, index.contains binary = true ∧
        (host = binary ++ ".<clinit>()V" ∨ host = binary ++ ".<instinit>()V"))

end TypeIndex

namespace DeclaredUnit.Indexed

variable {index : TypeIndex} {unit : DeclaredUnit} {root : Node}

theorem exists_named_site (h : unit.Indexed index root) {n : Node} {binary : String}
    (hn : root.Below n) (hkind : n.kind.isTypeDeclaration = true)
    (hbinary : unit.types.get? n.start = some binary) :
    ∃ site ∈ unit.sites index, site.node = n ∧ site.binary = binary ∧ site.isAnonymous = false := by
  obtain ⟨site, hsite, rfl, hsame⟩ :=
    h.exists_site hn (Sites.isDeclaration_of_isTypeDeclaration hkind) hbinary
  refine ⟨site, hsite, rfl, hsame, ?_⟩
  obtain ⟨parent, hdeclaring, -, hanonymous⟩ := h.exists_declaring hsite
  rw [hanonymous, Bool.eq_false_iff]
  intro hbody
  rw [Sites.kind_of_isAnonymousBody (h.whole.sound.of_below hdeclaring.parent) hdeclaring.child
    hbody] at hkind
  cases hkind

theorem exists_anonymous_site (h : unit.Indexed index root) {body : Node} {binary : String}
    (hbody : root.Below body) (hkind : body.kind = .classBody)
    (hbinary : unit.types.get? body.start = some binary) :
    ∃ site ∈ unit.sites index, site.node = body ∧ site.binary = binary ∧
      site.isAnonymous = true := by
  obtain ⟨site, hsite, rfl, hsame⟩ := h.exists_site hbody (by rw [hkind]; rfl) hbinary
  refine ⟨site, hsite, rfl, hsame, ?_⟩
  obtain ⟨parent, hdeclaring, -, hanonymous⟩ := h.exists_declaring hsite
  have hdeclares : declaresType parent.kind site.node = true := hdeclaring.declares
  rw [declaresType, hkind] at hdeclares
  rw [hanonymous]
  exact (Bool.or_eq_true_iff.1 hdeclares).resolve_right nofun

end DeclaredUnit.Indexed

theorem DeclarationSite.body?_of_named {site : DeclarationSite} (h : site.isAnonymous = false) :
    site.body? = site.node.child? .body := by
  cases hform : site.form with
  | named typeParams => rw [body?, hform]
  | anonymous base =>
    rw [isAnonymous, hform] at h
    cases h

theorem DeclarationSite.body?_of_anonymous {site : DeclarationSite} (h : site.isAnonymous = true) :
    site.body? = some site.node := by
  cases hform : site.form with
  | named typeParams =>
    rw [isAnonymous, hform] at h
    cases h
  | anonymous base => rw [body?, hform]

theorem memberNodes_of_mem {body n : Node} (hn : n ∈ body.namedChildren)
    (hkind : n.kind ≠ .enumBodyDeclarations) : n ∈ memberNodes body := by
  refine List.mem_flatMap.2 ⟨n, hn, ?_⟩
  rw [if_neg (by simpa using hkind)]
  exact List.mem_singleton_self n

theorem memberNodes_of_later {body e n : Node} (he : e ∈ body.namedChildren)
    (hkind : e.kind = .enumBodyDeclarations) (hn : n ∈ e.namedChildren) : n ∈ memberNodes body := by
  refine List.mem_flatMap.2 ⟨e, he, ?_⟩
  rw [if_pos (by simpa using hkind)]
  exact hn

namespace Survey

section Sites

variable {S : Survey} {index : TypeIndex} {root body n name : Node} {binary : String}
  {components : Option Node} (h : S.ctx.unit.Indexed index root) (hT : ∀ n, S.T n → root.Below n)

include h hT

/-- Every body of a type is that of a site, or hangs in it. -/
theorem Body.exists_site (ho : S.orderly) (hbody : S.Body binary components body) :
    ∃ site ∈ S.ctx.unit.sites index, site.binary = binary ∧ ∃ inner, site.body? = some inner ∧
      (body = inner ∨ body ∈ inner.namedChildren ∧ body.kind = .enumBodyDeclarations) := by
  induction hbody with
  | @named n body binary hn hkind hbegins hbody =>
    obtain ⟨site, hsite, rfl, hbinary, hform⟩ := h.exists_named_site (hT n hn) hkind hbegins
    have hbody' : site.body? = some body := by rw [DeclarationSite.body?_of_named hform, hbody]
    exact ⟨site, hsite, hbinary, body, hbody', .inl rfl⟩
  | @anonymous body binary hbody hkind hbegins =>
    obtain ⟨site, hsite, rfl, hbinary, hform⟩ :=
      h.exists_anonymous_site (hT _ hbody) (hkind ho) hbegins
    exact ⟨site, hsite, hbinary, _, DeclarationSite.body?_of_anonymous hform, .inl rfl⟩
  | @later n body binary components _ hn hkind ih =>
    obtain ⟨site, hsite, hbinary, inner, hinner, hplace⟩ := ih
    refine ⟨site, hsite, hbinary, inner, hinner, ?_⟩
    rcases hplace with rfl | ⟨hmem, hlater⟩
    · exact .inr ⟨hn, hkind⟩
    · -- the second body of an enum holds no further one
      have hsound : body.Sound S.source :=
        h.whole.sound.of_below (Descends.named (h.below_body hsite hinner) body hmem)
      have hpart : n ∈ body.formed :=
        Node.Sound.mem_formed (List.mem_filter.1 hn).1 (by rw [hkind]; rfl)
      exact absurd hkind (hsound.shape.flat hlater n.part (List.mem_map_of_mem hpart))

theorem Body.exists_member (ho : S.orderly) (hbody : S.Body binary components body)
    (hn : n ∈ body.namedChildren) (hkind : n.kind ≠ .enumBodyDeclarations) :
    ∃ site ∈ S.ctx.unit.sites index, site.binary = binary ∧ ∃ inner, site.body? = some inner ∧
      n ∈ memberNodes inner := by
  obtain ⟨site, hsite, hbinary, inner, hinner, rfl | ⟨hmem, hlater⟩⟩ := hbody.exists_site h hT ho
  · exact ⟨site, hsite, hbinary, body, hinner, memberNodes_of_mem hn hkind⟩
  · exact ⟨site, hsite, hbinary, inner, hinner, memberNodes_of_later hmem hlater hn⟩

/-- A field that a site declares under a name. -/
def Finds (S : Survey) (index : TypeIndex) (binary name : String) : Prop :=
  ∃ site ∈ S.ctx.unit.sites index, site.binary = binary ∧
    ∃ f ∈ (site.members index S.source).fields, f.name = name

theorem finds_component {p : Node} (hn : S.T n) (hkind : n.kind = .recordDeclaration)
    (hbegins : S.Begins n binary)
    (hp : p ∈ ((n.child? .parameters).map Node.namedChildren).getD [])
    (hname : p.child? .name = some name) : S.Finds index binary (S.text name) := by
  obtain ⟨site, hsite, rfl, hbinary, hform⟩ :=
    h.exists_named_site (hT n hn) (by rw [hkind]; rfl) hbegins
  cases hlist : site.node.child? .parameters with
  | none =>
    rw [hlist] at hp
    cases hp
  | some list =>
    rw [hlist] at hp
    exact ⟨site, hsite, hbinary, DeclarationSite.exists_field_of_component
      (h.whole.sound.of_below (hT _ hn)) hform hkind hlist hp hname⟩

theorem Body.finds_declarator (ho : S.orderly) {d : Node} (hbody : S.Body binary components body)
    (hn : n ∈ body.namedChildren)
    (hkind : n.kind = .fieldDeclaration ∨ n.kind = .constantDeclaration)
    (hd : d ∈ n.childrenIn .declarator) (hname : d.child? .name = some name) :
    S.Finds index binary (S.text name) := by
  have hmember : n.kind ≠ .enumBodyDeclarations := by
    rcases hkind with hkind | hkind <;> rw [hkind] <;> exact nofun
  obtain ⟨site, hsite, hbinary, inner, hinner, hmem⟩ := hbody.exists_member h hT ho hn hmember
  exact ⟨site, hsite, hbinary, DeclarationSite.exists_field_of_declarator hinner hmem
    (h.whole.sound.of_below (in_memberNodes (h.below_body hsite hinner) hmem)) hkind hd hname⟩

theorem Body.finds_constant (ho : S.orderly) (hbody : S.Body binary components body)
    (hn : n ∈ body.namedChildren) (hkind : n.kind = .enumConstant)
    (hname : n.child? .name = some name) : S.Finds index binary (S.text name) := by
  obtain ⟨site, hsite, hbinary, inner, hinner, hmem⟩ :=
    hbody.exists_member h hT ho hn (by rw [hkind]; exact nofun)
  exact ⟨site, hsite, hbinary, DeclarationSite.exists_field_of_constant hinner hmem hkind hname⟩

end Sites

end Survey

namespace Program

variable {known : TypeIndex} {parsed : List ParsedUnit} {unit : DeclaredUnit} {root : Node}

/-- What a unit declares is known when its names are looked up. -/
theorem contains_begun (hparsed : ∀ p ∈ parsed, p.Whole)
    (hunit : unit ∈ (ofUnits known parsed).units) (htree : unit.unit.tree = some root) {start : Nat}
    {binary : String} (hbegins : unit.types.get? start = some binary) :
    (ofUnits known parsed).index.contains binary = true := by
  obtain ⟨t, ht, -, hbinary⟩ := (indexed_of_mem hparsed hunit htree).exists_registered hbegins
  rw [contains_index]
  exact contains_linked.2 (.inr ⟨t, List.mem_flatMap.2 ⟨unit.unit, mem_parsed hunit, ht⟩, hbinary⟩)

section Distinct

variable (hparsed : ∀ p ∈ parsed, p.Whole)
  (hdistinct : ((parsed.flatMap ParsedUnit.registered).map RegisteredType.binary).Nodup)
  (hunit : unit ∈ (ofUnits known parsed).units) (htree : unit.unit.tree = some root)

include hparsed hdistinct hunit htree

theorem declaresField_of_finds {S : Survey} (hS : S.ctx.unit = unit) {binary name : String}
    (hfinds : S.Finds (linked known parsed) binary name) :
    (ofUnits known parsed).index.DeclaresField binary name := by
  subst hS
  obtain ⟨site, hsite, rfl, hname⟩ := hfinds
  obtain ⟨d, hd, hfields, -⟩ := exists_get?_of_site hparsed hdistinct hunit hsite
  refine ⟨d, hd, ?_⟩
  rw [hfields]
  exact hname

theorem declaresMethod_of_start {start : Nat} {owner : String} {m : MethodDeclaration}
    (hm : unit.methods.get? start = some (owner, m)) :
    (ofUnits known parsed).index.DeclaresMethod owner m := by
  obtain ⟨site, hsite, rfl, hlocated⟩ := (indexed_of_mem hparsed hunit htree).exists_located hm
  obtain ⟨d, hd, -, hmethods⟩ := exists_get?_of_site hparsed hdistinct hunit hsite
  refine ⟨d, hd, ?_⟩
  rw [hmethods]
  exact (DeclarationSite.exists_of_mem_located hlocated).1

end Distinct

end Program

namespace Survey

/-- The survey of a unit that may name what is in an index. -/
def grounded (index : TypeIndex) (unit : DeclaredUnit) (root : Node) : Survey where
  ctx := ⟨index, unit⟩
  T := root.Below
  orderly := True
  type binary := index.contains binary = true
  field := index.DeclaresField
  method := index.DeclaresMethod

/-- The index of a program has all that its units declare. -/
theorem covers_grounded {known : TypeIndex} {parsed : List ParsedUnit} (hknown : known.Closed)
    (hparsed : ∀ p ∈ parsed, p.Whole)
    (hdistinct : ((parsed.flatMap ParsedUnit.registered).map RegisteredType.binary).Nodup)
    {unit : DeclaredUnit} (hunit : unit ∈ (Program.ofUnits known parsed).units) {root : Node}
    (htree : unit.unit.tree = some root) :
    (grounded (Program.ofUnits known parsed).index unit root).Covers := by
  have hindexed := Program.indexed_of_mem hparsed hunit htree
  have hclosed : (Program.ofUnits known parsed).index.Closed := Program.closed_index hknown
  -- what is said of the tree holds whatever may be named
  have hall := covers_unrestricted True (Program.ofUnits known parsed).index fun _ => ⟨_, hindexed⟩
  have hbelow (n : Node) (hn : root.Below n) : root.Below n := hn
  have hmethod {start : Nat} {owner : String} {m : MethodDeclaration} :
      unit.methods.get? start = some (owner, m) →
        (Program.ofUnits known parsed).index.DeclaresMethod owner m :=
    Program.declaresMethod_of_start hparsed hdistinct hunit htree
  exact {
    descends := hall.descends
    sound := hall.sound
    memberType := hclosed.memberType?
    topLevel := hclosed.topLevel
    imported := Program.contains_imported hknown hunit
    field := fun hd hf => ⟨_, hd, _, hf, rfl⟩
    method := fun hd hm => ⟨_, hd, hm⟩
    begins := fun _ hbegins => Program.contains_begun hparsed hunit htree hbegins
    component := fun hn hkind hbegins hp hname =>
      Program.declaresField_of_finds hparsed hdistinct hunit htree rfl
        (finds_component hindexed hbelow hn hkind hbegins hp hname)
    value := fun hbody hn hkind hd hname =>
      Program.declaresField_of_finds hparsed hdistinct hunit htree rfl
        (hbody.finds_declarator hindexed hbelow trivial hn hkind hd hname)
    constant := fun hbody hn hkind hname =>
      Program.declaresField_of_finds hparsed hdistinct hunit htree rfl
        (hbody.finds_constant hindexed hbelow trivial hn hkind hname)
    owner := fun hm => (hmethod hm).elim fun _ hd => TypeIndex.contains_of_get? hd.1
    declared := hmethod
    named := hall.named
    constructed := hall.constructed
    listed := hall.listed
    implicit := fun _ => length_of_implicit hindexed hbelow }

theorem Finding.grounds {index : TypeIndex} {unit : DeclaredUnit} {root : Node} {o : Occurrence}
    (h : (grounded index unit root).Finding o) : index.Grounds o.signature o.kind := by
  cases h with
  | type _ htype => exact ⟨_, htype, rfl⟩
  | field _ _ hfield => exact ⟨_, _, hfield, rfl⟩
  | method _ _ hmethods =>
    obtain ⟨owner, m, hm, -, heq⟩ := hmethods trivial _ List.mem_cons_self
    exact ⟨owner, m, hm, heq⟩
  | parameter _ hparameter => exact hparameter trivial
  | localVariable _ _ hhost =>
    refine ⟨_, _, _, rfl, ?_⟩
    rcases hhost with hmethod | ⟨binary, isStatic, htype, rfl⟩
    · exact .inl hmethod
    · refine .inr ⟨binary, htype, ?_⟩
      rw [Binding.initializerSignature, String.append_assoc, String.append_assoc]
      cases isStatic with
      | true => exact .inl rfl
      | false => exact .inr rfl

end Survey

/-- Nothing dangles: if no two declarations of the units have the same binary name, then whatever is
reported of a unit is in the index that its names are looked up in. -/
theorem bindUnit_grounded {tree : FileTree} {classpath : List String} {known : TypeIndex}
    (hknown : TypeIndex.catalogue.addClasspath tree classpath = .ok known)
    {parsed : List ParsedUnit} (hparsed : ∀ p ∈ parsed, p.Whole)
    (hdistinct : ((parsed.flatMap ParsedUnit.registered).map RegisteredType.binary).Nodup)
    {unit : DeclaredUnit} (hunit : unit ∈ (Program.ofUnits known parsed).units) {root : Node}
    (htree : unit.unit.tree = some root) {o : Occurrence}
    (ho : o ∈ (bindUnit (Program.ofUnits known parsed).index unit root).1) :
    (Program.ofUnits known parsed).index.Grounds o.signature o.kind := by
  let S : Survey := .grounded (Program.ofUnits known parsed).index unit root
  have : S.Covers := Survey.covers_grounded (TypeIndex.closed_catalogue.addClasspath hknown)
    hparsed hdistinct hunit htree
  exact (finding_of_mem_bindUnit (S := S) .self o ho).grounds

/-- A unit that declares something of every kind. -/
def variedUnit : ParsedUnit :=
  .ofText "A.java" "class A { int f; { int y; } void g(int x) { } }"

/-- The program of that unit with nothing on the class path. -/
def variedProgram : Program := .ofUnits (TypeIndex.catalogue.install []) [variedUnit]

theorem bindUnit_grounded_variedUnit : ∃ unit ∈ variedProgram.units, ∃ root,
    unit.unit.tree = some root ∧
    (bindUnit variedProgram.index unit root).1.map (fun o => (o.kind, o.signature)) =
      [(.type, "A"), (.field, "A.f"), (.localVariable, "A.<instinit>()V@y:0"),
        (.method, "A.g(I)V"), (.parameter, "A.g(I)V#0")] ∧
    ∀ o ∈ (bindUnit variedProgram.index unit root).1,
      variedProgram.index.Grounds o.signature o.kind := by
  have hfound : variedProgram.units.map (fun unit => unit.unit.tree.map fun root =>
      (bindUnit variedProgram.index unit root).1.map fun o => (o.kind, o.signature)) =
      [some [(.type, "A"), (.field, "A.f"), (.localVariable, "A.<instinit>()V@y:0"),
        (.method, "A.g(I)V"), (.parameter, "A.g(I)V#0")]] := by
    decide +kernel
  obtain ⟨unit, hunits, hunit⟩ := List.map_eq_singleton_iff.1 hfound
  obtain ⟨root, htree, hroot⟩ := Option.map_eq_some_iff.1 hunit
  have hmem : unit ∈ variedProgram.units := by
    rw [hunits]
    exact List.mem_singleton_self unit
  have hknown : TypeIndex.catalogue.addClasspath {} [] = .ok (TypeIndex.catalogue.install []) := rfl
  have hwhole : ∀ p ∈ [variedUnit], p.Whole :=
    List.forall_mem_singleton.2 (ParsedUnit.whole_ofText _ _)
  have hdistinct :
      (([variedUnit].flatMap ParsedUnit.registered).map RegisteredType.binary).Nodup := by
    decide +kernel
  exact ⟨unit, hmem, root, htree, hroot, fun o ho =>
    bindUnit_grounded hknown hwhole hdistinct hmem htree ho⟩

end Renaming.Java
