import Renaming.Proofs.Java.Declared.BinaryNames
import Renaming.Proofs.Java.Declared.Rounds
import Renaming.Proofs.Java.UnitOrder
import Renaming.Proofs.Text.Words

/-!
# Qualified names

A dotted name means what the longest package in it leads to: a top-level type of that package, and
from there member types by their simple names. Types that are members of one another, from the top
level of a unit on, are found by the names that they are declared with, whatever else is known of
them from a class path or from the catalogue.
-/

namespace Renaming.Java

namespace TypeIndex

variable {index : TypeIndex}

/-! ## What a dotted name leads to -/

/-- Member types lead from a type to another one by their simple names. -/
inductive Reaches (index : TypeIndex) : String → List String → String → Prop where
  | here {owner : String} : Reaches index owner [] owner
  | member {owner simple inner binary : String} {rest : List String} {d : TypeDeclaration}
      (hd : index.get? owner = some d) (hinner : d.members.get? simple = some inner)
      (hrest : Reaches index inner rest binary) : Reaches index owner (simple :: rest) binary

/-- A package, the name of a top-level type, and the names of member types lead to a type. -/
def Leads (index : TypeIndex) (package : List String) (top : String) (members : List String)
    (binary : String) : Prop :=
  ∃ owner, index.topLevel? (Text.join "." package) top = some owner ∧
    index.Reaches owner members binary

/-- One way to take a dotted name leads to a type, and none with a longer package does. -/
def Means (index : TypeIndex) (segments : List String) (binary : String) : Prop :=
  ∃ package top members, segments = package ++ top :: members ∧
    index.Leads package top members binary ∧
    ∀ longer top' members', segments = longer ++ top' :: members' →
      package.length < longer.length → ∀ binary', ¬ index.Leads longer top' members' binary'

theorem memberPath?_eq_some_iff {owner binary : String} {path : List String} :
    index.memberPath? owner path = some binary ↔ index.Reaches owner path binary := by
  constructor
  · intro h
    induction path generalizing owner with
    | nil =>
      cases h
      exact .here
    | cons simple rest ih =>
      obtain ⟨d, hd, h⟩ := Option.bind_eq_some_iff.1 h
      obtain ⟨inner, hinner, h⟩ := Option.bind_eq_some_iff.1 h
      exact .member hd hinner (ih h)
  · intro h
    induction h with
    | here => rfl
    | member hd hinner _ ih =>
      exact Option.bind_eq_some_iff.2 ⟨_, hd, Option.bind_eq_some_iff.2 ⟨_, hinner, ih⟩⟩

/-- The type that one way to take a dotted name leads to. -/
def follow? (index : TypeIndex) : List String × String × List String → Option String
  | (package, top, members) => do
    let owner ← index.topLevel? (Text.join "." package) top
    index.memberPath? owner members

theorem resolveQualified?_eq (index : TypeIndex) (segments : List String) :
    index.resolveQualified? segments = (splits segments).reverse.findSome? index.follow? := rfl

theorem follow?_eq_some_iff {package members : List String} {top binary : String} :
    index.follow? (package, top, members) = some binary ↔
      index.Leads package top members binary := by
  rw [follow?, Leads, Option.bind_eq_bind, Option.bind_eq_some_iff]
  simp only [memberPath?_eq_some_iff]

theorem follow?_eq_none_iff {package members : List String} {top : String} :
    index.follow? (package, top, members) = none ↔
      ∀ binary, ¬ index.Leads package top members binary := by
  simp only [← follow?_eq_some_iff]
  exact Option.eq_none_iff_forall_ne_some

theorem mem_splits_iff {segments package members : List String} {top : String} :
    (package, top, members) ∈ splits segments ↔ segments = package ++ top :: members := by
  induction segments generalizing package with
  | nil => simp [splits]
  | cons s rest ih =>
    rw [splits, List.mem_cons, List.mem_map]
    cases package with
    | nil => simp [eq_comm, and_comm]
    | cons p package =>
      simp only [Prod.exists, Prod.mk.injEq, List.cons.injEq, List.cons_append]
      constructor
      · rintro (⟨h, -⟩ | ⟨package', top', members', hrest, ⟨rfl, rfl⟩, rfl, rfl⟩)
        · cases h
        · exact ⟨rfl, ih.1 hrest⟩
      · rintro ⟨rfl, hrest⟩
        exact .inr ⟨package, top, members, ih.2 hrest, ⟨rfl, rfl⟩, rfl, rfl⟩

theorem pairwise_splits (segments : List String) :
    (splits segments).Pairwise fun a b => a.1.length < b.1.length := by
  induction segments with
  | nil => exact .nil
  | cons s rest ih =>
    refine List.pairwise_cons.2 ⟨fun split hsplit => ?_, List.pairwise_map.2 (ih.imp ?_)⟩
    · obtain ⟨split', -, rfl⟩ := List.mem_map.1 hsplit
      exact Nat.succ_pos _
    · intro a b hab
      exact Nat.succ_lt_succ hab

/-- A dotted name is resolved to what it means. -/
theorem resolveQualified?_eq_some_iff {segments : List String} {binary : String} :
    index.resolveQualified? segments = some binary ↔ index.Means segments binary := by
  have hlonger : (splits segments).reverse.Pairwise fun a b => b.1.length < a.1.length :=
    List.pairwise_reverse.2 (pairwise_splits segments)
  have hmem {package members : List String} {top : String} :
      (package, top, members) ∈ (splits segments).reverse ↔ segments = package ++ top :: members :=
    List.mem_reverse.trans mem_splits_iff
  rw [resolveQualified?_eq]
  constructor
  · intro h
    obtain ⟨before, ⟨package, top, members⟩, after, hsplits, hleads, hnone⟩ :=
      List.findSome?_eq_some_iff.1 h
    rw [hsplits] at hmem hlonger
    refine ⟨package, top, members, hmem.1 (by simp), follow?_eq_some_iff.1 hleads, ?_⟩
    intro longer top' members' hsegments hlength
    -- a longer package comes before this one, where nothing is found
    rcases List.mem_append.1 (hmem.2 hsegments) with hbefore | hafter
    · exact follow?_eq_none_iff.1 (hnone _ hbefore)
    · rcases List.mem_cons.1 hafter with heq | hafter
      · cases heq
        exact absurd hlength (Nat.lt_irrefl _)
      · have hshorter := (List.pairwise_cons.1 (List.pairwise_append.1 hlonger).2.1).1 _ hafter
        exact absurd hlength (Nat.lt_asymm hshorter)
  · rintro ⟨package, top, members, hsegments, hleads, hnone⟩
    obtain ⟨before, after, hsplits⟩ := List.append_of_mem (hmem.2 hsegments)
    refine List.findSome?_eq_some_iff.2
      ⟨before, _, after, hsplits, follow?_eq_some_iff.2 hleads, fun split hsplit => ?_⟩
    obtain ⟨longer, top', members'⟩ := split
    rw [hsplits] at hmem hlonger
    have hlength := (List.pairwise_append.1 hlonger).2.2 _ hsplit _ List.mem_cons_self
    have hsegments' := hmem.1 (List.mem_append_left _ hsplit)
    exact follow?_eq_none_iff.2 (hnone longer top' members' hsegments' hlength)

/-- A dotted name is not resolved if no way to take it leads to a type. -/
theorem resolveQualified?_eq_none_iff {segments : List String} :
    index.resolveQualified? segments = none ↔
      ∀ package top members, segments = package ++ top :: members →
        ∀ binary, ¬ index.Leads package top members binary := by
  rw [resolveQualified?_eq, List.findSome?_eq_none_iff]
  constructor
  · intro h package top members hsegments
    exact follow?_eq_none_iff.1 (h _ (List.mem_reverse.2 (mem_splits_iff.2 hsegments)))
  · rintro h ⟨package, top, members⟩ hsplit
    exact follow?_eq_none_iff.2
      (h package top members (mem_splits_iff.1 (List.mem_reverse.1 hsplit)))

/-! ## Types of units in the index -/

/-- What holds of all types of units that are entered holds of the one that is found. -/
theorem exists_get?_insertAll {P : TypeDeclaration → Prop} {ds : List TypeDeclaration}
    (hds : ∀ d ∈ ds, d.origin = .source ∧ P d) {d : TypeDeclaration} (hd : d ∈ ds) :
    ∃ d', (index.insertAll ds).get? d.binary = some d' ∧ P d' := by
  obtain ⟨before, after, rfl⟩ := List.append_of_mem hd
  rw [insertAll, List.foldl_append, List.foldl_cons]
  refine List.foldlRecOn after TypeIndex.insert
    (motive := fun index => ∃ d', index.get? d.binary = some d' ∧ P d') ?_ ?_
  · rw [insert_of_source _ (hds d hd).1]
    exact ⟨d, SortedMap.get?_insert_self _ _ _, (hds d hd).2⟩
  · rintro index ⟨d', hget, hd'⟩ e he
    have he' := hds e (List.mem_append_right _ (List.mem_cons_of_mem d he))
    rw [get?_insert]
    split
    · exact ⟨d', hget, hd'⟩
    · split
      · exact ⟨e, rfl, he'.2⟩
      · exact ⟨d', hget, hd'⟩

/-- The table of a package leads to the type of a unit, for all types of one package and one simple
name have one binary name. -/
theorem topLevel?_insertAll {found : List RegisteredType} (hfound : ∀ t ∈ found, t.Regular)
    {t : RegisteredType} (ht : t ∈ found) (htop : t.declaration.outer = none) :
    (index.insertAll (found.map RegisteredType.declaration)).topLevel? (packageOf t.binary)
      t.declaration.simple = some t.binary := by
  obtain ⟨before, after, rfl⟩ := List.append_of_mem ht
  rw [insertAll, List.foldl_map, List.foldl_append, List.foldl_cons]
  have hranked (index : TypeIndex) {s : RegisteredType} (hs : s.Regular) :
      index.outranked s.declaration = false := index.outranked_of_source hs.origin
  refine List.foldlRecOn after (fun (index : TypeIndex) s => index.insert s.declaration)
    (motive := fun index =>
      index.topLevel? (packageOf t.binary) t.declaration.simple = some t.binary) ?_ ?_
  · have hregular := hfound t ht
    rw [topLevel?_insert, if_pos ⟨hranked _ hregular, by simp [htop, hregular.isLocal htop], rfl,
      rfl⟩]
    rfl
  · intro index hindex s hs
    have hregular := hfound s (List.mem_append_right _ (List.mem_cons_of_mem t hs))
    rw [topLevel?_insert]
    split
    · rename_i hsame
      obtain ⟨-, houter, hpackage, hsimple⟩ := hsame
      rw [Bool.and_eq_true, Option.isNone_iff_eq_none] at houter
      obtain ⟨p, hp⟩ := (hfound t ht).topLevel htop
      obtain ⟨q, hq⟩ := hregular.topLevel houter.1
      rw [← hsimple] at hq
      change packageOf t.binary = packageOf s.binary at hpackage
      rw [hp, hq] at hpackage
      change some s.binary = some t.binary
      rw [hp, hq, Registration.topLevelName_eq hpackage]
    · exact hindex

/-- What links keep of the member types of a type holds of them afterwards. -/
theorem exists_get?_addMembers {P : SortedMap String String → Prop}
    {links : List (String × String × String)} {outer : String}
    (hP : ∀ simple inner, (outer, simple, inner) ∈ links →
      ∀ members, P members → P (members.insertIfNew simple inner))
    (h : ∃ d, index.get? outer = some d ∧ P d.members) :
    ∃ d, (index.addMembers links).get? outer = some d ∧ P d.members := by
  refine List.foldlRecOn links _
    (motive := fun index : TypeIndex => ∃ d, index.get? outer = some d ∧ P d.members) h ?_
  rintro index ⟨d, hget, hd⟩ ⟨o, s, i⟩ hlink
  change ∃ d, (index.addMember o s i).get? outer = some d ∧ P d.members
  refine ⟨_, by rw [get?_addMember, hget]; rfl, ?_⟩
  dsimp only
  split
  · rename_i hsame
    subst hsame
    exact hP s i hlink d.members hd
  · exact hd

/-- A member type is linked to the type that holds it, where every link of this type leads to the
type that is named after it. -/
theorem exists_member_addMembers {links : List (String × String × String)}
    (hlinks : ∀ outer simple inner, (outer, simple, inner) ∈ links →
      inner = outer ++ "$" ++ simple)
    {outer simple inner : String} (hlink : (outer, simple, inner) ∈ links)
    (houter : ∃ d, index.get? outer = some d ∧ d.members = {}) :
    ∃ d, (index.addMembers links).get? outer = some d ∧ d.members.get? simple = some inner := by
  obtain ⟨before, after, rfl⟩ := List.append_of_mem hlink
  -- before the link, the name leads there or nowhere
  have hbefore : ∃ d, (index.addMembers before).get? outer = some d ∧
      (d.members.get? simple).getD inner = inner := by
    refine exists_get?_addMembers (P := fun members => (members.get? simple).getD inner = inner)
      (fun s i hmem members hmembers => ?_) ?_
    · rw [SortedMap.get?_insertIfNew]
      split
      · rename_i hsimple
        obtain rfl := eq_of_beq hsimple
        rw [hlinks _ _ _ (List.mem_append_left _ hmem), ← hlinks _ _ _ hlink]
        exact hmembers
      · exact hmembers
    · obtain ⟨d, hget, hd⟩ := houter
      exact ⟨d, hget, by rw [hd]; rfl⟩
  rw [addMembers, List.foldl_append, List.foldl_cons]
  refine exists_get?_addMembers (P := fun members => members.get? simple = some inner)
    (fun s i _ members hmembers => ?_) ?_
  · rw [SortedMap.get?_insertIfNew]
    split
    · rename_i hsimple
      rw [← eq_of_beq hsimple, hmembers]
      rfl
    · exact hmembers
  · obtain ⟨d, hget, hd⟩ := hbefore
    refine ⟨_, by rw [get?_addMember]; exact congrArg _ hget, ?_⟩
    dsimp only
    rw [if_pos rfl, SortedMap.get?_insertIfNew, if_pos (beq_self_eq_true _), hd]

section Register

variable {parsed : List ParsedUnit} {s t : RegisteredType}

theorem topLevel?_register (index : TypeIndex) (ht : t ∈ parsed.flatMap ParsedUnit.registered)
    (htop : t.declaration.outer = none) : (index.register parsed).topLevel? (packageOf t.binary)
      t.declaration.simple = some t.binary := by
  rw [register, topLevel?_addMembers]
  refine topLevel?_insertAll (fun s hs => ?_) ht htop
  obtain ⟨p, -, hs⟩ := List.mem_flatMap.1 hs
  exact p.regular_of_mem_registered hs

theorem exists_member_register (index : TypeIndex)
    (hs : s ∈ parsed.flatMap ParsedUnit.registered) (ht : t ∈ parsed.flatMap ParsedUnit.registered)
    {simple inner : String} (hlink : t.memberLink? = some (s.binary, simple, inner)) :
    ∃ d, (index.register parsed).get? s.binary = some d ∧ d.members.get? simple = some inner := by
  refine exists_member_addMembers (fun outer simple inner hlink => ?_)
    (List.mem_filterMap.2 ⟨t, ht, hlink⟩)
    (exists_get?_insertAll (fun d hd => ?_) (List.mem_map_of_mem hs))
  · obtain ⟨t, ht, hlink⟩ := List.mem_filterMap.1 hlink
    obtain ⟨p, -, ht⟩ := List.mem_flatMap.1 ht
    exact (p.regular_of_mem_registered ht).link hlink
  · obtain ⟨t, ht, rfl⟩ := List.mem_map.1 hd
    obtain ⟨p, -, ht⟩ := List.mem_flatMap.1 ht
    exact ⟨(p.regular_of_mem_registered ht).origin, p.members_of_mem_registered ht⟩

end Register

end TypeIndex

/-! ## Types of a unit -/

/-- Types, each of them a member of the one before, from the top level on. -/
structure MembersFrom (types : List NestedType) (top : NestedType) (members : List NestedType) :
    Prop where
  mem : top ∈ types
  topLevel : top.place = .topLevel
  chain : (top :: members).IsChain fun outer e => e ∈ NestedType.within types outer.node .member

namespace Registration

variable {source : SourceText} {package : String} {l : List (NestedType × RegisteredType)}
  {p q : NestedType × RegisteredType}

theorem Registers.map_start (h : Registers source package l) :
    l.map (·.1.start) = (l.map Prod.snd).map RegisteredType.start := by
  rw [List.map_map]
  refine List.map_congr_left fun p hp => ?_
  obtain ⟨before, -, hmakes⟩ := h.exists_makes hp
  exact hmakes.start.symm

/-- A type at the top level is entered under its name in the package. -/
theorem Registers.binary_of_topLevel (h : Registers source package l) (hp : p ∈ l)
    (hplace : p.1.place = .topLevel) : p.2.declaration.outer = none ∧
      p.2.declaration.simple = p.1.name source ∧
      p.2.binary = topLevelName package (p.1.name source) := by
  obtain ⟨before, -, hmakes⟩ := h.exists_makes hp
  have hanonymous : p.1.isAnonymous = false := by
    rw [← Bool.not_eq_true, ← place_eq_anonymous_iff, hplace]
    simp
  have houter : p.1.outer = none := by
    rw [NestedType.place, hanonymous, if_neg Bool.false_ne_true] at hplace
    split at hplace
    · rename_i hnone
      exact Option.isNone_iff_eq_none.1 hnone
    · split at hplace <;> cases hplace
  have hnone : p.2.declaration.outer = none := by
    have hrel := hmakes.outer
    rw [houter] at hrel
    generalize p.2.declaration.outer = outer at hrel ⊢
    cases hrel
    rfl
  exact ⟨hnone, hmakes.simple hanonymous, by rw [hmakes.binary, hnone, binaryAfter]⟩

/-- A member of a type is linked to it, and named after it. -/
theorem Registers.memberLink?_of_isDirectlyIn (h : Registers source package l)
    (hstarts : (l.map (·.1.start)).Nodup) (hp : p ∈ l) (hq : q ∈ l)
    (hin : q.1.isDirectlyIn p.1.node = true) (hplace : q.1.place = .member) :
    q.2.memberLink? = some (p.2.binary, q.1.name source, q.2.binary) ∧
      q.2.binary = p.2.binary ++ "$" ++ q.1.name source := by
  obtain ⟨before, -, hmakes⟩ := h.exists_makes hq
  have hanonymous : q.1.isAnonymous = false := by
    rw [← Bool.not_eq_true, ← place_eq_anonymous_iff, hplace]
    simp
  have houter := h.outer_eq_of_isDirectlyIn hstarts hp hq hin
  constructor
  · rw [RegisteredType.memberLink?, hmakes.place, hplace, houter, hmakes.simple hanonymous]
  · rw [hmakes.binary, houter, binaryAfter, segment, if_pos hplace, String.empty_append]

end Registration

namespace Program

variable {known : TypeIndex} {parsed : List ParsedUnit} {unit : ParsedUnit} {root : Node}

/-- The members of a registered type are reached from it by the names they are declared with. -/
theorem reaches_members (hunit : unit ∈ parsed) {l : List (NestedType × RegisteredType)}
    (hfound : unit.registered = l.map Prod.snd) {package : String}
    (hl : Registration.Registers unit.source package l) (hstarts : (l.map (·.1.start)).Nodup)
    {p : NestedType × RegisteredType} (hp : p ∈ l) {members : List NestedType}
    (hchain : (p.1 :: members).IsChain fun outer e =>
      e ∈ NestedType.within (l.map Prod.fst) outer.node .member) :
    (ofUnits known parsed).index.Reaches p.2.binary (members.map (·.name unit.source))
      (Text.join "$" (p.2.binary :: members.map (·.name unit.source))) := by
  have hregistered {q : NestedType × RegisteredType} (hq : q ∈ l) :
      q.2 ∈ parsed.flatMap ParsedUnit.registered :=
    List.mem_flatMap.2 ⟨unit, hunit, hfound ▸ List.mem_map_of_mem hq⟩
  induction members generalizing p with
  | nil => exact .here
  | cons e rest ih =>
    rw [List.isChain_cons_cons] at hchain
    obtain ⟨hwithin, hchain⟩ := hchain
    obtain ⟨he, hin⟩ := List.mem_filter.1 hwithin
    obtain ⟨q, hq, rfl⟩ := List.mem_map.1 he
    rw [Bool.and_eq_true, beq_iff_eq] at hin
    obtain ⟨hlink, hbinary⟩ := hl.memberLink?_of_isDirectlyIn hstarts hp hq hin.1 hin.2
    obtain ⟨d, hget, hinner⟩ :=
      TypeIndex.exists_member_register known (hregistered hp) (hregistered hq) hlink
    -- the members are those that registration links
    have hmembers : ((ofUnits known parsed).index.get? p.2.binary).map TypeDeclaration.members =
        ((entered known parsed).get? p.2.binary).map TypeDeclaration.members :=
      part_index (fun _ _ => rfl) (fun _ _ _ => rfl) p.2.binary
    rw [entered, hget] at hmembers
    obtain ⟨d', hget', hd'⟩ := Option.map_eq_some_iff.1 hmembers
    have hreaches := ih hq hchain
    rw [hbinary] at hreaches
    rw [List.map_cons, Text.join_cons_cons, ← Text.join_append_cons]
    exact .member hget' (by rw [hd', hinner, hbinary]) hreaches

/-- Every type that is a member of a type at the top level, or of its members, is found by the name
of its package and the names of the types around it, unless one of the types around it is also a
package. In general a dotted name is resolved to what it means, and only if it means something. -/
theorem resolves_canonical_names (known : TypeIndex) (parsed : List ParsedUnit) :
    (∀ {unit root}, unit ∈ parsed → unit.tree = some root → root.Whole unit.source →
      ∀ {top members}, MembersFrom root.namedTypes top members →
      ∀ {package}, Text.join "." package = declaredPackage unit.source root →
      (∀ before name after, members.map (·.name unit.source) = before ++ name :: after →
        (ofUnits known parsed).index.topLevel?
          (Text.join "." (package ++ top.name unit.source :: before)) name = none) →
      (ofUnits known parsed).index.resolveQualified?
          (package ++ (top :: members).map (·.name unit.source)) =
        some (Text.join "$"
          (Registration.topLevelName (declaredPackage unit.source root) (top.name unit.source) ::
            members.map (·.name unit.source)))) ∧
    ∀ (index : TypeIndex) (segments : List String),
      (∀ binary, index.resolveQualified? segments = some binary ↔ index.Means segments binary) ∧
      (index.resolveQualified? segments = none ↔
        ∀ package top members, segments = package ++ top :: members →
          ∀ binary, ¬ index.Leads package top members binary) := by
  refine ⟨fun {unit root} hunit htree hwhole {top members} hmembers {package} hpackage hfree => ?_,
    fun index segments => ⟨fun binary => TypeIndex.resolveQualified?_eq_some_iff,
      TypeIndex.resolveQualified?_eq_none_iff⟩⟩
  obtain ⟨l, hfound, htypes, hl⟩ := unit.exists_registers htree hwhole.sound
  have hstarts : (l.map (·.1.start)).Nodup := by
    rw [hl.map_start, ← hfound]
    exact (unit.ordered_registered htree hwhole).imp Nat.ne_of_lt
  obtain ⟨htop, hplace, hchain⟩ := hmembers
  rw [← htypes] at htop hchain
  obtain ⟨p, hp, rfl⟩ := List.mem_map.1 htop
  obtain ⟨houter, hsimple, hbinary⟩ := hl.binary_of_topLevel hp hplace
  have hdot : '.' ∉ (p.1.name unit.source).toList := by
    refine NestedType.notMem_name hwhole.sound ?_ rfl
    exact (List.mem_filter.1 (htypes ▸ List.mem_map_of_mem hp : p.1 ∈ root.namedTypes)).1
  rw [← hbinary, TypeIndex.resolveQualified?_eq_some_iff]
  refine ⟨package, p.1.name unit.source, members.map (·.name unit.source), rfl,
    ⟨p.2.binary, ?_, reaches_members hunit hfound hl hstarts hp hchain⟩, ?_⟩
  · rw [topLevel?_index, hpackage, ← hsimple,
      ← Registration.packageOf_topLevelName (declaredPackage unit.source root) hdot, ← hbinary]
    exact TypeIndex.topLevel?_register known
      (List.mem_flatMap.2 ⟨unit, hunit, hfound ▸ List.mem_map_of_mem hp⟩) houter
  · intro longer top' members' hsegments hlength binary' hleads
    obtain ⟨owner, howner, -⟩ := hleads
    rcases List.append_eq_append_iff.1 hsegments with ⟨between, rfl, hbetween⟩ | ⟨between, rfl, -⟩
    · cases between with
      | nil => simp at hlength
      | cons first before =>
        obtain ⟨rfl, hnames⟩ := List.cons.inj hbetween
        rw [hfree before top' members' hnames] at howner
        cases howner
    · rw [List.length_append] at hlength
      omega

/-- A class in a package, with an interface in a class in it. -/
def memberOfMember : ParsedUnit :=
  .ofText "T.java" "package p.q; class T { class M { interface N { } } }"

theorem resolves_canonical_names_memberOfMember :
    (∃ root top members, memberOfMember.tree = some root ∧
      MembersFrom root.namedTypes top members ∧
      (top :: members).map (·.name memberOfMember.source) = ["T", "M", "N"]) ∧
    (ofUnits {} [memberOfMember]).index.resolveQualified? ["p", "q", "T", "M", "N"] =
      some "p.q.T$M$N" := by
  have hfacts : memberOfMember.tree.isSome = true ∧
      (∀ root ∈ memberOfMember.tree,
        root.namedTypes.length = 3 ∧
        root.namedTypes.map NestedType.place = [.topLevel, .member, .member] ∧
        root.namedTypes.map (·.name memberOfMember.source) = ["T", "M", "N"] ∧
        (root.namedTypes.zip root.namedTypes.tail).all (fun e => e.2.isDirectlyIn e.1.node) = true ∧
        declaredPackage memberOfMember.source root = "p.q") ∧
      (ofUnits {} [memberOfMember]).index.topLevel? "p.q.T" "M" = none ∧
      (ofUnits {} [memberOfMember]).index.topLevel? "p.q.T.M" "N" = none := by
    decide +kernel
  obtain ⟨htree, hroots, hfree, hfree'⟩ := hfacts
  obtain ⟨root, hroot⟩ := Option.isSome_iff_exists.1 htree
  obtain ⟨hlength, hplaces, hnames, hwithin, hpackage⟩ := hroots root hroot
  obtain ⟨top, m, n, htypes⟩ := List.length_eq_three.1 hlength
  rw [htypes] at hplaces hnames hwithin
  simp only [List.map_cons, List.map_nil, List.cons.injEq, and_true] at hplaces hnames
  simp only [List.tail_cons, List.zip_cons_cons, List.zip_nil_right, List.all_cons, List.all_nil,
    Bool.and_true, Bool.and_eq_true] at hwithin
  have hmembers : MembersFrom root.namedTypes top [m, n] := by
    rw [htypes]
    refine ⟨by simp, hplaces.1, ?_⟩
    simp [NestedType.within, hwithin, hplaces]
  refine ⟨⟨root, top, [m, n], hroot, hmembers, by simp [hnames]⟩, ?_⟩
  have hwhole := ParsedUnit.whole_ofText _ _ root hroot
  have hjoin : Text.join "." ["p", "q"] = declaredPackage memberOfMember.source root := by
    rw [hpackage]
    rfl
  have hresolved := (resolves_canonical_names {} [memberOfMember]).1 (List.mem_singleton_self _)
    hroot hwhole hmembers hjoin fun before name after hsplit => ?_
  · rw [hpackage] at hresolved
    have hjoined : Text.join "$" ["p.q.T", "M", "N"] = "p.q.T$M$N" := rfl
    simpa [hnames, Registration.topLevelName, hjoined] using hresolved
  · simp only [List.map_cons, List.map_nil, hnames] at hsplit ⊢
    cases before with
    | nil =>
      cases hsplit
      exact hfree
    | cons first before =>
      cases before with
      | nil =>
        cases hsplit
        exact hfree'
      | cons second before => simp at hsplit

end Program

end Renaming.Java
