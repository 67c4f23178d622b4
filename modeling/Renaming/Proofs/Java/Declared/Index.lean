import Renaming.Proofs.Java.Declared.Units
import Renaming.Proofs.Java.TypeIndex

/-!
# The index of a program

The index of a program knows the types of all its units, and it is closed if what it is put on top
of is. If no two declarations of a program have the same binary name, then a type of the index has
exactly the fields and methods that are read at its declaration.
-/

namespace Renaming.Java

/-! ## Registered types -/

namespace Registration

variable {source : SourceText} {package : String} {P : RegisteredType → Prop}

mutual

/-- What holds of every type that may be entered holds of all that are registered. -/
theorem forall_visit (hanonymous : ∀ outer found n, P (anonymous outer found n))
    (hnamed : ∀ outer parent found name n, P (named package outer parent found name n))
    {outer : Option String} {parent : NodeKind} {found : List RegisteredType}
    (hfound : ∀ t ∈ found, P t) :
    ∀ n : Node, ∀ t ∈ visit source package outer parent found n, P t
  | .mk kind role span text children => by
    have hentry {entry : RegisteredType} (hentry : P entry) (outer : Option String) :
        ∀ t ∈ visitAll source package outer kind (found ++ [entry]) children, P t :=
      forall_visitAll hanonymous hnamed
        (List.forall_mem_append.2 ⟨hfound, List.forall_mem_singleton.2 hentry⟩) children
    rw [visit.eq_def]
    dsimp only
    split
    · split
      · exact hfound
      · exact hentry (hanonymous _ _ _) _
    · split
      · split
        · exact hfound
        · exact hentry (hnamed _ _ _ _ _) _
      · exact forall_visitAll hanonymous hnamed hfound children

theorem forall_visitAll (hanonymous : ∀ outer found n, P (anonymous outer found n))
    (hnamed : ∀ outer parent found name n, P (named package outer parent found name n))
    {outer : Option String} {parent : NodeKind} {found : List RegisteredType}
    (hfound : ∀ t ∈ found, P t) :
    ∀ ns : List Node, ∀ t ∈ visitAll source package outer parent found ns, P t
  | [] => hfound
  | c :: rest => by
    rw [visitAll]
    refine forall_visitAll hanonymous hnamed ?_ rest
    split
    · exact forall_visit hanonymous hnamed hfound c
    · exact hfound

end

end Registration

/-- Member types are linked later. -/
theorem ParsedUnit.members_of_mem_registered {p : ParsedUnit} {t : RegisteredType}
    (ht : t ∈ p.registered) : t.declaration.members = {} := by
  unfold registered at ht
  cases htree : p.tree with
  | none =>
    rw [htree] at ht
    cases ht
  | some root =>
    rw [htree] at ht
    refine Registration.forall_visit (P := fun t => t.declaration.members = {}) (fun _ _ _ => rfl)
      (fun outer parent found name n => ?_) (by simp) root t ht
    unfold Registration.named
    split
    · rfl
    · dsimp only
      split <;> rfl

namespace TypeIndex

variable {index : TypeIndex}

/-! ## Entering what is read -/

section Modify

variable {α : Type} (entries : List (String × α)) (f : α → TypeDeclaration → TypeDeclaration)

theorem contains_foldl_modify (index : TypeIndex) (b : String) :
    (entries.foldl (fun index e => index.modify e.1 (f e.2)) index).contains b =
      index.contains b := by
  induction entries generalizing index with
  | nil => rfl
  | cons e rest ih => rw [List.foldl_cons, ih, contains_modify]

/-- What the entries of a type keep holds of it afterwards if it does before. -/
theorem exists_get?_foldl_modify_of_keeps {P : TypeDeclaration → Prop} {binary : String}
    (hf : ∀ a, (binary, a) ∈ entries → ∀ d, P d → P (f a d))
    (h : ∃ d, index.get? binary = some d ∧ P d) :
    ∃ d, (entries.foldl (fun index e => index.modify e.1 (f e.2)) index).get? binary = some d ∧
      P d := by
  induction entries generalizing index with
  | nil => exact h
  | cons e rest ih =>
    obtain ⟨d, hget, hd⟩ := h
    refine ih (fun a ha => hf a (List.mem_cons_of_mem e ha)) ?_
    rw [get?_modify, hget]
    split
    · rename_i hbinary
      rw [beq_iff_eq] at hbinary
      subst hbinary
      exact ⟨f e.2 d, rfl, hf e.2 List.mem_cons_self d hd⟩
    · exact ⟨d, rfl, hd⟩

/-- What the entries of a type bring about holds of it afterwards. -/
theorem exists_get?_foldl_modify {P : TypeDeclaration → Prop} {binary : String} {a : α}
    (hmem : (binary, a) ∈ entries) (hf : ∀ a, (binary, a) ∈ entries → ∀ d, P (f a d))
    (hbinary : index.contains binary = true) :
    ∃ d, (entries.foldl (fun index e => index.modify e.1 (f e.2)) index).get? binary = some d ∧
      P d := by
  obtain ⟨before, after, rfl⟩ := List.append_of_mem hmem
  rw [List.foldl_append, List.foldl_cons]
  refine exists_get?_foldl_modify_of_keeps after f (fun a ha d _ => hf a (by simp [ha]) d) ?_
  rw [← contains_foldl_modify before f index binary, contains_eq_isSome] at hbinary
  obtain ⟨d, hget⟩ := Option.isSome_iff_exists.1 hbinary
  exact ⟨f a d, by rw [get?_modify, hget]; simp, hf a (by simp) d⟩

theorem Closed.foldl_modify (h : index.Closed) (hf : ∀ a d, (f a d).members = d.members) :
    (entries.foldl (fun index e => index.modify e.1 (f e.2)) index).Closed :=
  List.foldlRecOn entries _ h fun _ hindex e _ => hindex.modify_of_members (hf e.2)

end Modify

theorem contains_register {parsed : List ParsedUnit} {b : String} :
    (index.register parsed).contains b = true ↔
      index.contains b = true ∨ ∃ t ∈ parsed.flatMap ParsedUnit.registered, t.binary = b := by
  rw [register, contains_addMembers, contains_insertAll]
  refine or_congr_right ⟨?_, ?_⟩
  · rintro ⟨d, hd, hb⟩
    obtain ⟨t, ht, rfl⟩ := List.mem_map.1 hd
    exact ⟨t, ht, hb⟩
  · rintro ⟨t, ht, hb⟩
    exact ⟨t.declaration, List.mem_map_of_mem ht, hb⟩

@[simp] theorem contains_readSupertypes (index : TypeIndex) (units : List DeclaredUnit)
    (b : String) : (index.readSupertypes units).contains b = index.contains b :=
  contains_foldl_modify _ DeclaredSupertypes.apply index b

@[simp] theorem contains_enterMembers (index : TypeIndex)
    (members : List (String × DeclaredMembers)) (b : String) :
    (index.enterMembers members).contains b = index.contains b :=
  contains_foldl_modify members
    (fun m d => { d with fields := m.fields, methods := m.methods }) index b

/-- A type with one entry has the members of that entry. -/
theorem exists_get?_enterMembers {members : List (String × DeclaredMembers)} {binary : String}
    {m : DeclaredMembers} (hmem : (binary, m) ∈ members)
    (hunique : ∀ m', (binary, m') ∈ members → m' = m) (hbinary : index.contains binary = true) :
    ∃ d, (index.enterMembers members).get? binary = some d ∧
      d.fields = m.fields ∧ d.methods = m.methods := by
  refine exists_get?_foldl_modify members
    (fun m d => { d with fields := m.fields, methods := m.methods }) hmem (fun m' hm' d => ?_)
    hbinary
  rw [hunique m' hm']
  exact ⟨rfl, rfl⟩

namespace Closed

theorem register (h : index.Closed) (parsed : List ParsedUnit) :
    (index.register parsed).Closed := by
  refine h.enter (fun d hd => ?_) fun link hlink => ?_
  · obtain ⟨t, ht, rfl⟩ := List.mem_map.1 hd
    obtain ⟨p, -, ht⟩ := List.mem_flatMap.1 ht
    exact ParsedUnit.members_of_mem_registered ht
  · obtain ⟨t, ht, hlink⟩ := List.mem_filterMap.1 hlink
    refine ⟨t.declaration, List.mem_map_of_mem ht, ?_⟩
    unfold RegisteredType.memberLink? at hlink
    split at hlink
    · cases hlink
      rfl
    · cases hlink

theorem readSupertypes (h : index.Closed) (units : List DeclaredUnit) :
    (index.readSupertypes units).Closed :=
  h.foldl_modify _ DeclaredSupertypes.apply fun _ _ => rfl

theorem enterMembers (h : index.Closed) (members : List (String × DeclaredMembers)) :
    (index.enterMembers members).Closed :=
  h.foldl_modify members (fun m d => { d with fields := m.fields, methods := m.methods })
    fun _ _ => rfl

end Closed

end TypeIndex

/-! ## Declarations with names of their own -/

namespace DeclaredUnit.Indexed

variable {index : TypeIndex} {unit : DeclaredUnit} {root : Node}

theorem exists_registered (h : unit.Indexed index root) {start : Nat} {binary : String}
    (hbinary : unit.types.get? start = some binary) :
    ∃ t ∈ unit.unit.registered, t.start = start ∧ t.binary = binary := by
  rw [h.types] at hbinary
  obtain ⟨t, ht, heq⟩ := List.mem_map.1 (SortedMap.mem_of_get?_ofList hbinary)
  obtain ⟨hstart, hbinary⟩ := Prod.mk.inj heq
  exact ⟨t, ht, hstart, hbinary⟩

theorem exists_registered_of_site (h : unit.Indexed index root) {site : DeclarationSite}
    (hsite : site ∈ unit.sites index) :
    ∃ t ∈ unit.unit.registered, t.start = site.node.start ∧ t.binary = site.binary := by
  obtain ⟨_, -, hbinary, -⟩ := h.exists_declaring hsite
  exact h.exists_registered hbinary

/-- If all types of a unit have names of their own, so have all its sites. -/
theorem site_eq_of_binary_eq (h : unit.Indexed index root)
    (hdistinct : (unit.unit.registered.map RegisteredType.binary).Nodup)
    {a b : DeclarationSite} (ha : a ∈ unit.sites index) (hb : b ∈ unit.sites index)
    (hbinary : a.binary = b.binary) : a = b := by
  obtain ⟨s, hs, hsstart, hsbinary⟩ := h.exists_registered_of_site ha
  obtain ⟨t, ht, htstart, htbinary⟩ := h.exists_registered_of_site hb
  have hst : s = t := List.inj_on_of_nodup_map hdistinct hs ht
    (hsbinary.trans (hbinary.trans htbinary.symm))
  have hstart : a.node.start = b.node.start := by rw [← hsstart, ← htstart, hst]
  have hapart : (unit.sites index).Pairwise fun a b => a.node.start ≠ b.node.start :=
    h.ordered_sites.imp Nat.ne_of_lt
  have : Std.Symm fun a b : DeclarationSite => a.node.start ≠ b.node.start := ⟨fun _ _ => Ne.symm⟩
  exact Classical.byContradiction fun hne => hapart.forall ha hb hne hstart

end DeclaredUnit.Indexed

@[simp] theorem DeclaredUnit.unit_withMethods (unit : DeclaredUnit)
    (members : List (String × DeclaredMembers)) : (unit.withMethods members).unit = unit.unit :=
  rfl

namespace Program

variable {known : TypeIndex} {parsed : List ParsedUnit}

theorem mem_parsed {unit : DeclaredUnit} (hunit : unit ∈ (ofUnits known parsed).units) :
    unit.unit ∈ parsed := by
  rw [← map_unit_ofUnits known parsed]
  exact List.mem_map_of_mem hunit

theorem index_eq_enterMembers : (ofUnits known parsed).index = (linked known parsed).enterMembers
    ((ofUnits known parsed).units.flatMap (·.members (linked known parsed))) := by
  rw [index_ofUnits, units_ofUnits, List.flatMap_map]
  rfl

theorem contains_linked {b : String} : (linked known parsed).contains b = true ↔
    known.contains b = true ∨ ∃ t ∈ parsed.flatMap ParsedUnit.registered, t.binary = b := by
  rw [linked, TypeIndex.contains_readSupertypes, TypeIndex.contains_readSupertypes, entered,
    TypeIndex.contains_register]

theorem contains_index (b : String) :
    (ofUnits known parsed).index.contains b = (linked known parsed).contains b := by
  rw [index_ofUnits, TypeIndex.contains_enterMembers]

theorem closed_index (h : known.Closed) : (ofUnits known parsed).index.Closed := by
  rw [index_ofUnits]
  exact (((h.register parsed).readSupertypes _).readSupertypes _).enterMembers _

/-- What a unit imports is known when its names are looked up. -/
theorem contains_imported (h : known.Closed) {unit : DeclaredUnit}
    (hunit : unit ∈ (ofUnits known parsed).units) {name binary : String}
    (hget : unit.header.imports.single.get? name = some binary) :
    (ofUnits known parsed).index.contains binary = true := by
  rw [units_ofUnits] at hunit
  obtain ⟨p, -, rfl⟩ := List.mem_map.1 hunit
  change (p.declared (entered known parsed)).header.imports.single.get? name = _ at hget
  rw [contains_index, linked, TypeIndex.contains_readSupertypes, TypeIndex.contains_readSupertypes]
  unfold ParsedUnit.declared at hget
  split at hget
  · cases hget
  · exact (h.register parsed).imported _ hget

/-- If declarations have names of their own, a name leads to the unit that declares it. -/
theorem parsed_eq_of_binary_eq
    (hdistinct : ((parsed.flatMap ParsedUnit.registered).map RegisteredType.binary).Nodup)
    {p q : ParsedUnit} (hp : p ∈ parsed) (hq : q ∈ parsed) {s t : RegisteredType}
    (hs : s ∈ p.registered) (ht : t ∈ q.registered) (hbinary : s.binary = t.binary) : p = q := by
  rw [List.map_flatMap, List.nodup_flatMap] at hdistinct
  have : Std.Symm (Function.onFun List.Disjoint
      fun p : ParsedUnit => p.registered.map RegisteredType.binary) :=
    ⟨fun _ _ h _ ha hb => h hb ha⟩
  refine Classical.byContradiction fun hne => hdistinct.2.forall hp hq hne
    (List.mem_map_of_mem hs) ?_
  rw [hbinary]
  exact List.mem_map_of_mem ht

theorem unit_eq_of_binary_eq
    (hdistinct : ((parsed.flatMap ParsedUnit.registered).map RegisteredType.binary).Nodup)
    {u v : DeclaredUnit} (hu : u ∈ (ofUnits known parsed).units)
    (hv : v ∈ (ofUnits known parsed).units) {s t : RegisteredType} (hs : s ∈ u.unit.registered)
    (ht : t ∈ v.unit.registered) (hbinary : s.binary = t.binary) : u = v := by
  rw [units_ofUnits] at hu hv
  obtain ⟨p, hp, rfl⟩ := List.mem_map.1 hu
  obtain ⟨q, hq, rfl⟩ := List.mem_map.1 hv
  rw [DeclaredUnit.unit_withMethods, ParsedUnit.unit_declared] at hs ht
  rw [parsed_eq_of_binary_eq hdistinct hp hq hs ht hbinary]

theorem exists_tree_of_site {index : TypeIndex} {unit : DeclaredUnit} {site : DeclarationSite}
    (hsite : site ∈ unit.sites index) : ∃ root, unit.unit.tree = some root := by
  cases htree : unit.unit.tree with
  | none =>
    rw [DeclaredUnit.sites, htree] at hsite
    cases hsite
  | some root => exact ⟨root, rfl⟩

/-- If declarations have names of their own, a name leads to one site. -/
theorem site_eq_of_binary_eq (hparsed : ∀ p ∈ parsed, p.Whole)
    (hdistinct : ((parsed.flatMap ParsedUnit.registered).map RegisteredType.binary).Nodup)
    {u v : DeclaredUnit} (hu : u ∈ (ofUnits known parsed).units)
    (hv : v ∈ (ofUnits known parsed).units) {a b : DeclarationSite}
    (ha : a ∈ u.sites (linked known parsed)) (hb : b ∈ v.sites (linked known parsed))
    (hbinary : a.binary = b.binary) : u = v ∧ a = b := by
  obtain ⟨root, htree⟩ := exists_tree_of_site ha
  obtain ⟨root', htree'⟩ := exists_tree_of_site hb
  have hindexed := indexed_of_mem hparsed hu htree
  obtain ⟨s, hs, -, hsbinary⟩ := hindexed.exists_registered_of_site ha
  obtain ⟨t, ht, -, htbinary⟩ :=
    (indexed_of_mem hparsed hv htree').exists_registered_of_site hb
  have hsame : u = v := unit_eq_of_binary_eq hdistinct hu hv hs ht
    (hsbinary.trans (hbinary.trans htbinary.symm))
  subst hsame
  rw [List.map_flatMap, List.nodup_flatMap] at hdistinct
  exact ⟨rfl, hindexed.site_eq_of_binary_eq (hdistinct.1 _ (mem_parsed hu)) ha hb hbinary⟩

theorem contains_linked_of_site (hparsed : ∀ p ∈ parsed, p.Whole)
    {unit : DeclaredUnit} (hunit : unit ∈ (ofUnits known parsed).units) {site : DeclarationSite}
    (hsite : site ∈ unit.sites (linked known parsed)) :
    (linked known parsed).contains site.binary = true := by
  obtain ⟨root, htree⟩ := exists_tree_of_site hsite
  obtain ⟨t, ht, -, hbinary⟩ :=
    (indexed_of_mem hparsed hunit htree).exists_registered_of_site hsite
  exact contains_linked.2
    (.inr ⟨t, List.mem_flatMap.2 ⟨unit.unit, mem_parsed hunit, ht⟩, hbinary⟩)

/-- A type that is declared once has what is read at its declaration. -/
theorem exists_get?_of_site (hparsed : ∀ p ∈ parsed, p.Whole)
    (hdistinct : ((parsed.flatMap ParsedUnit.registered).map RegisteredType.binary).Nodup)
    {unit : DeclaredUnit} (hunit : unit ∈ (ofUnits known parsed).units) {site : DeclarationSite}
    (hsite : site ∈ unit.sites (linked known parsed)) :
    ∃ d, (ofUnits known parsed).index.get? site.binary = some d ∧
      d.fields = (site.members (linked known parsed) unit.unit.source).fields ∧
      d.methods = (site.members (linked known parsed) unit.unit.source).methods := by
  rw [index_eq_enterMembers]
  refine TypeIndex.exists_get?_enterMembers
    (List.mem_flatMap.2 ⟨unit, hunit, List.mem_map_of_mem hsite⟩) (fun m' hm' => ?_)
    (contains_linked_of_site hparsed hunit hsite)
  obtain ⟨unit', hunit', hm'⟩ := List.mem_flatMap.1 hm'
  obtain ⟨site', hsite', heq⟩ := List.mem_map.1 hm'
  obtain ⟨hbinary', rfl⟩ := Prod.mk.inj heq
  obtain ⟨rfl, rfl⟩ := site_eq_of_binary_eq hparsed hdistinct hunit' hunit hsite' hsite hbinary'
  rfl

end Program

end Renaming.Java
