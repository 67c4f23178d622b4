import Renaming.Proofs.Java.Declared.Index
import Renaming.Proofs.Java.Hierarchy
import Renaming.Proofs.Java.TypeUse.Agreement

/-!
# Rounds of supertypes

Supertypes are read in two rounds. What a round reads depends on the index only through the member
types that the names in the units lead to. So if the second round brings none of these names a new
meaning, what it has read is what would be read again. If it does, a third round would read more:
this is so where a supertype is found through a member type that is itself inherited only through a
supertype of the second round.
-/

namespace Renaming.Java

/-! ## Names of types -/

namespace Node

mutual

/-- The names that are written as types in a tree. -/
def typeNames (source : SourceText) : Node → List String
  | mk kind _ span _ children =>
    (if kind == .typeIdentifier then [source.slice span] else []) ++ typeNamesAll source children

def typeNamesAll (source : SourceText) : List Node → List String
  | [] => []
  | c :: rest => typeNames source c ++ typeNamesAll source rest

end

variable {source : SourceText}

theorem typeNamesAll_eq_flatMap (ns : List Node) :
    typeNamesAll source ns = ns.flatMap (typeNames source) := by
  induction ns with
  | nil => rfl
  | cons c rest ih => rw [typeNamesAll, ih, List.flatMap_cons]

theorem mem_typeNames {root n : Node} (h : root.Below n) (hkind : n.kind = .typeIdentifier) :
    source.text n ∈ root.typeNames source := by
  induction h with
  | @self n =>
    obtain ⟨kind, role, span, text, children⟩ := n
    cases hkind
    rw [typeNames]
    exact List.mem_cons_self
  | @down n c m hc _ ih =>
    obtain ⟨kind, role, span, text, children⟩ := n
    rw [typeNames, typeNamesAll_eq_flatMap]
    exact List.mem_append_right _ (List.mem_flatMap.2 ⟨c, hc, ih hkind⟩)

end Node

/-- The names that are written as types in a unit. -/
def ParsedUnit.typeNames (unit : ParsedUnit) : List String :=
  (unit.tree.map (Node.typeNames unit.source)).getD []

/-! ## What changes of an index leave -/

namespace TypeIndex

section Congr

variable {a b : TypeIndex}

theorem parents_congr
    (h : ∀ c, (a.get? c).map TypeDeclaration.directSupertypes =
      (b.get? c).map TypeDeclaration.directSupertypes) : a.parents = b.parents := by
  funext c
  rw [parents_eq_filter, parents_eq_filter, declaredSupertypes, declaredSupertypes, h c]

/-- Where member types lead depends on supertypes and members alone. -/
theorem memberType?_congr (hparents : a.parents = b.parents)
    (hmembers : ∀ c, (a.get? c).map TypeDeclaration.members =
      (b.get? c).map TypeDeclaration.members) (owner name : String) :
    a.memberType? owner name = b.memberType? owner name := by
  have hstep (index : TypeIndex) (c : String) : (do
      let d ← index.get? c
      d.members.get? name) = ((index.get? c).map TypeDeclaration.members).bind (·.get? name) := by
    cases index.get? c <;> rfl
  have hchain : a.chain owner = b.chain owner := by
    rw [chain, chain, supertypes, supertypes, properChain_congr hparents]
  simp only [memberType?, hchain, hstep, hmembers]

end Congr

section Modify

variable {α : Type} (entries : List (String × α)) (f : α → TypeDeclaration → TypeDeclaration)

/-- A part that no entry changes stays. -/
theorem map_get?_foldl_modify {β : Type} {part : TypeDeclaration → β}
    (hf : ∀ a d, part (f a d) = part d) (index : TypeIndex) (b : String) :
    ((entries.foldl (fun index e => index.modify e.1 (f e.2)) index).get? b).map part =
      (index.get? b).map part := by
  induction entries generalizing index with
  | nil => rfl
  | cons e rest ih =>
    rw [List.foldl_cons, ih, get?_modify]
    split
    · rw [Option.map_map]
      exact congrArg (fun g => (index.get? b).map g) (funext (hf e.2))
    · rfl

theorem topLevel?_foldl_modify (index : TypeIndex) (package name : String) :
    (entries.foldl (fun index e => index.modify e.1 (f e.2)) index).topLevel? package name =
      index.topLevel? package name := by
  induction entries generalizing index with
  | nil => rfl
  | cons e rest ih => rw [List.foldl_cons, ih, topLevel?_modify]

end Modify

end TypeIndex

/-! ## What a round reads -/

section Reading

variable {W : String → Prop} {a b : TypeIndex} {source : SourceText} {T : Node → Prop}

namespace Sites

variable {types : SortedMap Nat String}

theorem baseOf_eq [Descends T] (h : a.Agree W b)
    (hT : ∀ n, T n → n.kind = .typeIdentifier → W (source.text n)) (w : Walk) {parent : Node}
    (hparent : T parent) :
    baseOf a source w parent = baseOf b source w parent := by
  unfold baseOf
  split
  · rfl
  · cases htype : parent.child? .type with
    | none => rfl
    | some type =>
      exact TypeContext.type?_eq (TypeContext.agreeOn_of_agree h hT)
        (Descends.child hparent _ type htype)

theorem parametersOf_eq [Descends T] (h : a.Agree W b)
    (hT : ∀ n, T n → n.kind = .typeIdentifier → W (source.text n)) (w : Walk) {n : Node}
    (hn : T n) : ((contextOf a source w).parametersOf n).value =
      ((contextOf b source w).parametersOf n).value :=
  (TypeContext.agree_parametersOf (TypeContext.agreeOn_of_agree h hT) hn).value_eq

mutual

/-- The same sites are found where the names in a tree mean the same. -/
theorem visit_eq [Descends T] (h : a.Agree W b)
    (hT : ∀ n, T n → n.kind = .typeIdentifier → W (source.text n)) {parent : Node}
    (hparent : T parent) (w : Walk) :
    ∀ {n : Node}, T n → visit a source types parent w n = visit b source types parent w n
  | .mk kind role span text children, hn => by
    have hall (w : Walk) :=
      visitAll_eq h hT hn w fun c (hc : c ∈ children) => Descends.children hn c hc
    rw [visit, visit, baseOf_eq h hT w hparent]
    simp only [parametersOf_eq h hT _ hn, hall]

theorem visitAll_eq [Descends T] (h : a.Agree W b)
    (hT : ∀ n, T n → n.kind = .typeIdentifier → W (source.text n)) {parent : Node}
    (hparent : T parent) (w : Walk) : ∀ {ns : List Node}, (∀ n ∈ ns, T n) →
      visitAll a source types parent w ns = visitAll b source types parent w ns
  | [], _ => rfl
  | c :: rest, hns => by
    obtain ⟨hc, hrest⟩ := List.forall_mem_cons.1 hns
    rw [visitAll, visitAll, visit_eq h hT hparent w hc, visitAll_eq h hT hparent _ hrest]

end

end Sites

namespace DeclarationSite

variable [Descends T] (h : a.Agree W b)
  (hT : ∀ n, T n → n.kind = .typeIdentifier → W (source.text n))
include h hT

theorem writtenSuperclass?_eq {scope : TypeScope} {n : Node} (hn : T n) :
    writtenSuperclass? ⟨a, source, scope⟩ n = writtenSuperclass? ⟨b, source, scope⟩ n := by
  unfold writtenSuperclass?
  cases hclause : (n.namedChildren.filter (·.kind == .superclass)).getLast? with
  | none => rfl
  | some clause =>
    have hclause' : T clause :=
      Descends.named hn clause (List.mem_filter.1 (List.mem_of_getLast? hclause)).1
    cases htype : clause.namedChildren.find? (·.kind.isType) with
    | none => simp only [Option.bind_some, htype, Option.bind_none]
    | some type =>
      simp only [Option.bind_some, htype]
      have hmem := List.mem_of_find?_eq_some htype
      exact TypeContext.type?_eq (TypeContext.agreeOn_of_agree h hT)
        (Descends.named hclause' type hmem)

theorem writtenInterfaces_eq {scope : TypeScope} {n : Node} (hn : T n) :
    writtenInterfaces ⟨a, source, scope⟩ n = writtenInterfaces ⟨b, source, scope⟩ n := by
  unfold writtenInterfaces
  dsimp only
  refine List.flatMap_congr fun clause hclause => congrArg _ (List.filterMap_congr ?_)
  intro type htype
  have hclause' : T clause := Descends.named hn clause (List.mem_filter.1 hclause).1
  refine TypeContext.type?_eq (TypeContext.agreeOn_of_agree h hT) (Descends.named ?_ type htype)
  cases hlist : clause.childOfKind? .typeList with
  | none => exact hclause'
  | some list => exact Descends.ofKind hclause' _ list hlist

/-- The same supertypes are read at a site where the names in it mean the same. -/
theorem supertypes_eq
    (hkind : ∀ c, (a.get? c).map TypeDeclaration.kind = (b.get? c).map TypeDeclaration.kind)
    {site : DeclarationSite} (hsite : T site.node) :
    site.supertypes a source = site.supertypes b source := by
  have hinterface (c : String) : (a.get? c).any (fun d => d.kind.isInterface) =
      (b.get? c).any fun d => d.kind.isInterface := by
    have hc := hkind c
    cases ha : a.get? c <;> cases hb : b.get? c <;> simp_all
  unfold supertypes
  split
  · simp only [namedSupertypes, writtenInterfaces_eq h hT hsite, writtenSuperclass?_eq h hT hsite]
  · simp only [anonymousSupertypes, hinterface]

end DeclarationSite

end Reading

namespace DeclaredUnit.Indexed

variable {index other : TypeIndex} {unit : DeclaredUnit} {root : Node}

theorem mem_typeNames (h : unit.Indexed index root) : ∀ n, root.Below n →
    n.kind = .typeIdentifier → unit.unit.source.text n ∈ unit.unit.typeNames := by
  intro n hn hkind
  rw [ParsedUnit.typeNames, h.tree]
  exact Node.mem_typeNames hn hkind

theorem sites_eq (h : unit.Indexed index root)
    (hagree : other.Agree (· ∈ unit.unit.typeNames) index) :
    unit.sites other = unit.sites index := by
  rw [sites, sites, h.tree]
  exact congrArg Sites.Walk.sites (Sites.visit_eq hagree h.mem_typeNames .self _ .self)

/-- What is read of a unit depends on what the names that are written in it mean. -/
theorem supertypes_eq (h : unit.Indexed index root)
    (hagree : other.Agree (· ∈ unit.unit.typeNames) index)
    (hkind : ∀ c, (other.get? c).map TypeDeclaration.kind =
      (index.get? c).map TypeDeclaration.kind) :
    unit.supertypes other = unit.supertypes index := by
  rw [supertypes, supertypes, h.sites_eq hagree]
  refine List.map_congr_left fun site hsite => ?_
  obtain ⟨parent, hdeclaring, -, -⟩ := h.exists_declaring hsite
  rw [DeclarationSite.supertypes_eq hagree h.mem_typeNames hkind hdeclaring.below]

end DeclaredUnit.Indexed

/-! ## Two rounds -/

namespace TypeIndex

variable (index : TypeIndex)

section ReadSupertypes

variable (units : List DeclaredUnit)

theorem members_readSupertypes (c : String) :
    ((index.readSupertypes units).get? c).map TypeDeclaration.members =
      (index.get? c).map TypeDeclaration.members :=
  map_get?_foldl_modify _ DeclaredSupertypes.apply (fun _ _ => rfl) index c

theorem kind_readSupertypes (c : String) :
    ((index.readSupertypes units).get? c).map TypeDeclaration.kind =
      (index.get? c).map TypeDeclaration.kind :=
  map_get?_foldl_modify _ DeclaredSupertypes.apply (fun _ _ => rfl) index c

theorem topLevel?_readSupertypes (package name : String) :
    (index.readSupertypes units).topLevel? package name = index.topLevel? package name :=
  topLevel?_foldl_modify _ DeclaredSupertypes.apply index package name

end ReadSupertypes

section EnterMembers

variable (members : List (String × DeclaredMembers))

theorem part_enterMembers {β : Type} {part : TypeDeclaration → β}
    (hpart : ∀ d fields methods, part { d with fields, methods } = part d) (c : String) :
    ((index.enterMembers members).get? c).map part = (index.get? c).map part :=
  map_get?_foldl_modify members (fun m d => { d with fields := m.fields, methods := m.methods })
    (fun m d => hpart d m.fields m.methods) index c

/-- Fields and methods do not change what the names of types mean. -/
theorem agree_enterMembers (W : String → Prop) : (index.enterMembers members).Agree W index where
  memberType owner name _ := by
    refine memberType?_congr (parents_congr ?_) ?_ owner name
    · exact index.part_enterMembers members fun _ _ _ => rfl
    · exact index.part_enterMembers members fun _ _ _ => rfl
  topLevel package name :=
    topLevel?_foldl_modify members
      (fun m d => { d with fields := m.fields, methods := m.methods }) index package name

end EnterMembers

variable {index}

/-- A type that is not known has the member types of the root class. -/
theorem memberType?_of_get?_eq_none {owner : String} (h : index.get? owner = none) (name : String) :
    index.memberType? owner name = if owner = objectName then none else
      ((index.get? objectName).map TypeDeclaration.members).bind (·.get? name) := by
  have hchain : index.properChain owner = [owner] := by
    have hparents : index.parents owner = [] := by rw [parents, h]
    rw [properChain, visitSupertypes, hparents]
    cases index.supertypeMentions <;> rfl
  rw [memberType?, chain, supertypes, hchain]
  split
  · simp [h]
  · cases hroot : index.get? objectName <;> simp [h, hroot]

end TypeIndex

namespace Program

/-- The index with the supertypes that are found in the first round. -/
def linkedOnce (known : TypeIndex) (parsed : List ParsedUnit) : TypeIndex :=
  (entered known parsed).readSupertypes (parsed.map (·.declared (entered known parsed)))

/-- The second round brings no name of a type that is written in the units a new meaning as the
name of a member type. -/
def Settled (known : TypeIndex) (parsed : List ParsedUnit) : Prop :=
  ∀ owner ∈ (linked known parsed).types.keys, ∀ p ∈ parsed, ∀ name ∈ p.typeNames,
    (linkedOnce known parsed).memberType? owner name = (linked known parsed).memberType? owner name

instance (known : TypeIndex) (parsed : List ParsedUnit) : Decidable (Settled known parsed) :=
  inferInstanceAs (Decidable (∀ owner ∈ _, ∀ p ∈ _, ∀ name ∈ _, _ = _))

variable {known : TypeIndex} {parsed : List ParsedUnit}

theorem linked_eq : linked known parsed = (linkedOnce known parsed).readSupertypes
    (parsed.map (·.declared (entered known parsed))) := rfl

/-- What is read at declarations changes no table of a package. -/
theorem topLevel?_index (package name : String) :
    (ofUnits known parsed).index.topLevel? package name =
      (entered known parsed).topLevel? package name := by
  rw [index_ofUnits, (TypeIndex.agree_enterMembers _ _ fun _ => True).topLevel, linked_eq,
    TypeIndex.topLevel?_readSupertypes, linkedOnce, TypeIndex.topLevel?_readSupertypes]

/-- A part that is not read at declarations is what registration made of it. -/
theorem part_index {β : Type} {part : TypeDeclaration → β}
    (hsupertypes : ∀ s d, part (DeclaredSupertypes.apply s d) = part d)
    (hmembers : ∀ d fields methods, part { d with fields, methods } = part d) (c : String) :
    ((ofUnits known parsed).index.get? c).map part = ((entered known parsed).get? c).map part := by
  rw [index_ofUnits, TypeIndex.part_enterMembers _ _ hmembers, linked_eq, TypeIndex.readSupertypes,
    TypeIndex.map_get?_foldl_modify _ DeclaredSupertypes.apply hsupertypes, linkedOnce,
    TypeIndex.readSupertypes,
    TypeIndex.map_get?_foldl_modify _ DeclaredSupertypes.apply hsupertypes]

theorem Settled.agree (h : Settled known parsed) {p : ParsedUnit} (hp : p ∈ parsed) :
    (linkedOnce known parsed).Agree (· ∈ p.typeNames) (linked known parsed) where
  memberType owner name hname := by
    by_cases howner : owner ∈ (linked known parsed).types.keys
    · exact h owner howner p hp name hname
    · have hnone : (linked known parsed).get? owner = none :=
        SortedMap.get?_eq_none_iff.2 howner
      have hnone' : (linkedOnce known parsed).get? owner = none := by
        rw [linked_eq, ← Option.map_eq_none_iff, TypeIndex.members_readSupertypes,
          Option.map_eq_none_iff] at hnone
        exact hnone
      rw [TypeIndex.memberType?_of_get?_eq_none hnone, TypeIndex.memberType?_of_get?_eq_none hnone',
        linked_eq, TypeIndex.members_readSupertypes]
  topLevel package name := by rw [linked_eq, TypeIndex.topLevel?_readSupertypes]

/-- If the second round brings no name a new meaning, the supertypes of the units would be read the
same once more. -/
theorem Settled.supertypes_eq (h : Settled known parsed)
    (hparsed : ∀ p ∈ parsed, p.Whole) {unit : DeclaredUnit}
    (hunit : unit ∈ (ofUnits known parsed).units) :
    unit.supertypes (linkedOnce known parsed) = unit.supertypes (linked known parsed) ∧
      unit.supertypes (ofUnits known parsed).index = unit.supertypes (linked known parsed) := by
  cases htree : unit.unit.tree with
  | none =>
    have hnone (index : TypeIndex) : unit.supertypes index = [] := by
      rw [DeclaredUnit.supertypes, DeclaredUnit.sites, htree]
      rfl
    rw [hnone, hnone, hnone]
    exact ⟨rfl, rfl⟩
  | some root =>
    have hindexed := indexed_of_mem hparsed hunit htree
    constructor
    · refine hindexed.supertypes_eq (h.agree (mem_parsed hunit)) fun c => ?_
      rw [linked_eq, TypeIndex.kind_readSupertypes]
    · rw [index_ofUnits]
      exact hindexed.supertypes_eq (TypeIndex.agree_enterMembers _ _ _)
        (TypeIndex.part_enterMembers _ _ fun _ _ _ => rfl)

theorem linked_eq_foldl : linked known parsed =
    ((ofUnits known parsed).units.flatMap (·.supertypes (linkedOnce known parsed))).foldl
      (fun index e => index.modify e.1 e.2.apply) (linkedOnce known parsed) := by
  rw [units_ofUnits, List.flatMap_map, linked_eq, TypeIndex.readSupertypes, List.flatMap_map]
  rfl

section Distinct

variable (hparsed : ∀ p ∈ parsed, p.Whole)
  (hdistinct : ((parsed.flatMap ParsedUnit.registered).map RegisteredType.binary).Nodup)
include hparsed hdistinct

/-- The supertypes of a type that is declared once are read once. -/
theorem supertypes_eq_of_mem {u v : DeclaredUnit} (hu : u ∈ (ofUnits known parsed).units)
    (hv : v ∈ (ofUnits known parsed).units) {binary : String} {s t : DeclaredSupertypes}
    (hs : (binary, s) ∈ u.supertypes (linked known parsed))
    (ht : (binary, t) ∈ v.supertypes (linked known parsed)) : s = t := by
  obtain ⟨a, ha, heq⟩ := List.mem_map.1 hs
  cases heq
  obtain ⟨b, hb, heq⟩ := List.mem_map.1 ht
  obtain ⟨hbinary, rfl⟩ := Prod.mk.inj heq
  obtain ⟨rfl, rfl⟩ := site_eq_of_binary_eq hparsed hdistinct hv hu hb ha hbinary
  rfl

/-- What the second round reads is recorded. -/
theorem Settled.exists_get? (h : Settled known parsed) {unit : DeclaredUnit}
    (hunit : unit ∈ (ofUnits known parsed).units) {binary : String} {s : DeclaredSupertypes}
    (hs : (binary, s) ∈ unit.supertypes (linked known parsed)) :
    ∃ d, (linked known parsed).get? binary = some d ∧ s.apply d = d := by
  have hread : ∀ u ∈ (ofUnits known parsed).units,
      u.supertypes (linkedOnce known parsed) = u.supertypes (linked known parsed) :=
    fun u hu => (h.supertypes_eq hparsed hu).1
  have hlinked := @linked_eq_foldl known parsed
  rw [List.flatMap_congr hread] at hlinked
  have hcontains : (linkedOnce known parsed).contains binary = true := by
    obtain ⟨site, hsite, heq⟩ := List.mem_map.1 hs
    cases heq
    have hcontains := contains_linked_of_site hparsed hunit hsite
    rwa [linked_eq, TypeIndex.contains_readSupertypes] at hcontains
  have hentry : (binary, s) ∈
      (ofUnits known parsed).units.flatMap (·.supertypes (linked known parsed)) :=
    List.mem_flatMap.2 ⟨unit, hunit, hs⟩
  have hunique (t : DeclaredSupertypes) (ht : (binary, t) ∈
      (ofUnits known parsed).units.flatMap (·.supertypes (linked known parsed)))
      (d : TypeDeclaration) : s.apply (t.apply d) = t.apply d := by
    obtain ⟨unit', hunit', ht⟩ := List.mem_flatMap.1 ht
    rw [supertypes_eq_of_mem hparsed hdistinct hunit hunit' hs ht]
    rfl
  obtain ⟨d, hget, hd⟩ :=
    TypeIndex.exists_get?_foldl_modify (P := fun d => s.apply d = d) _ DeclaredSupertypes.apply
      hentry hunique hcontains
  exact ⟨d, hlinked ▸ hget, hd⟩

/-- If no two declarations have the same binary name, and if the second round brings no name that is
written a new meaning, then the supertypes and the type parameters of every type are those that
would be read at its declaration once more. -/
theorem supertypes_settled (hsettled : Settled known parsed) {unit : DeclaredUnit}
    (hunit : unit ∈ (ofUnits known parsed).units) {t : RegisteredType}
    (ht : t ∈ unit.unit.registered) :
    ∃ d s, (ofUnits known parsed).index.get? t.binary = some d ∧
      (t.binary, s) ∈ unit.supertypes (ofUnits known parsed).index ∧ s.apply d = d := by
  obtain ⟨root, htree⟩ : ∃ root, unit.unit.tree = some root := by
    cases htree : unit.unit.tree with
    | none =>
      rw [ParsedUnit.registered, htree] at ht
      cases ht
    | some root => exact ⟨root, rfl⟩
  obtain ⟨site, hsite, -, hbinary⟩ :=
    (indexed_of_mem hparsed hunit htree).exists_site_of_registered ht
  have hs : (t.binary, site.supertypes (linked known parsed) unit.unit.source) ∈
      unit.supertypes (linked known parsed) := by
    rw [← hbinary]
    exact List.mem_map_of_mem hsite
  have hlinked := hsettled.exists_get? hparsed hdistinct hunit hs
  rw [index_ofUnits]
  -- fields and methods are entered after the supertypes, and leave them
  obtain ⟨d, hget, hd⟩ := TypeIndex.exists_get?_foldl_modify_of_keeps _
    (fun (m : DeclaredMembers) d => { d with fields := m.fields, methods := m.methods })
    (fun m _ d hd => congrArg
      (fun d : TypeDeclaration => { d with fields := m.fields, methods := m.methods }) hd) hlinked
  refine ⟨d, _, hget, ?_, hd⟩
  rw [← index_ofUnits, (hsettled.supertypes_eq hparsed hunit).2]
  exact hs

end Distinct

/-- The superclass that an index has for a type. -/
def superclassOf? (index : TypeIndex) (binary : String) : Option String :=
  (index.get? binary).bind TypeDeclaration.superclass

/-- A class whose superclass is a member type that the class around it inherits. -/
def inheritedMember : List ParsedUnit :=
  [.ofText "A.java" "class X { class M { } } class A extends X { class B extends M { } }"]

/-- The superclass is found in the second round, and would be found in a third. -/
theorem supertypes_settled_inheritedMember :
    Settled {} inheritedMember ∧
    superclassOf? (linkedOnce {} inheritedMember) "A$B" = some objectName ∧
    superclassOf? (ofUnits {} inheritedMember).index "A$B" = some "X$M" ∧
    ∀ unit ∈ (ofUnits {} inheritedMember).units, ∀ t ∈ unit.unit.registered,
      ∃ d s, (ofUnits {} inheritedMember).index.get? t.binary = some d ∧
        (t.binary, s) ∈ unit.supertypes (ofUnits {} inheritedMember).index ∧ s.apply d = d := by
  have hfacts : Settled {} inheritedMember ∧
      superclassOf? (linkedOnce {} inheritedMember) "A$B" = some objectName ∧
      superclassOf? (ofUnits {} inheritedMember).index "A$B" = some "X$M" ∧
      ((inheritedMember.flatMap ParsedUnit.registered).map RegisteredType.binary).Nodup := by
    decide +kernel
  obtain ⟨hsettled, hfirst, hsecond, hdistinct⟩ := hfacts
  refine ⟨hsettled, hfirst, hsecond, fun unit hunit t ht => ?_⟩
  have hwhole : ∀ p ∈ inheritedMember, p.Whole :=
    List.forall_mem_singleton.2 (ParsedUnit.whole_ofText _ _)
  exact supertypes_settled hwhole hdistinct hsettled hunit ht

/-- A class whose superclass is a member type that the class around it inherits from a superclass
that is found in the second round. -/
def twiceInheritedMember : List ParsedUnit :=
  [.ofText "A.java" ("class X { class M { class N { } } } " ++
    "class A extends X { class B extends M { class C extends N { } } }")]

/-- The superclass would only be found in a third round. -/
theorem superclass_missed :
    (∀ p ∈ twiceInheritedMember, p.tree.isSome = true) ∧
    ((twiceInheritedMember.flatMap ParsedUnit.registered).map RegisteredType.binary).Nodup ∧
    (ofUnits {} twiceInheritedMember).index.Acyclic ∧
    superclassOf? (ofUnits {} twiceInheritedMember).index "A$B$C" = some objectName ∧
    superclassOf? ((ofUnits {} twiceInheritedMember).index.readSupertypes
      (ofUnits {} twiceInheritedMember).units) "A$B$C" = some "X$M$N" := by
  let rank (binary : String) : Nat := if binary ∈ ["A", "A$B", "A$B$C"] then 0 else 1
  have hfacts : (∀ p ∈ twiceInheritedMember, p.tree.isSome = true) ∧
      ((twiceInheritedMember.flatMap ParsedUnit.registered).map RegisteredType.binary).Nodup ∧
      (∀ e ∈ (ofUnits {} twiceInheritedMember).index.types.entries,
        ∀ b ∈ e.2.directSupertypes, b ≠ objectName → rank e.1 < rank b) ∧
      (ofUnits {} twiceInheritedMember).index.parents objectName = [] ∧
      superclassOf? (ofUnits {} twiceInheritedMember).index "A$B$C" = some objectName ∧
      superclassOf? ((ofUnits {} twiceInheritedMember).index.readSupertypes
        (ofUnits {} twiceInheritedMember).units) "A$B$C" = some "X$M$N" := by
    decide +kernel
  obtain ⟨htrees, hdistinct, hrank, hroot, hsuperclass⟩ := hfacts
  exact ⟨htrees, hdistinct, TypeIndex.acyclic_of_rank rank hrank hroot, hsuperclass⟩

end Program

end Renaming.Java
