import Renaming.Java.Classpath
import Renaming.Java.Imports
import Renaming.Proofs.Extraction
import Renaming.Proofs.SortedMap

/-!
# Closed indexes

An index is closed if what is found in it by a simple name is always a type of the index. The
catalogue is closed, and an index stays closed when a class path is added to it.
-/

namespace Renaming.Java.TypeIndex

variable {index : TypeIndex}

/-! ## Looking types up -/

theorem get?_modify (index : TypeIndex) (binary : String) (f : TypeDeclaration → TypeDeclaration)
    (b : String) : (index.modify binary f).get? b =
      if b == binary then (index.get? b).map f else index.get? b := by
  unfold modify
  split
  · rename_i hnone
    split
    · rename_i hb
      rw [eq_of_beq hb, hnone]
      rfl
    · rfl
  · rename_i d hd
    rw [get?, SortedMap.get?_insert]
    split
    · rename_i hb
      rw [eq_of_beq hb, hd]
      rfl
    · rfl

theorem topLevel?_modify (index : TypeIndex) (binary : String)
    (f : TypeDeclaration → TypeDeclaration) (package simple : String) :
    (index.modify binary f).topLevel? package simple = index.topLevel? package simple := by
  unfold modify
  split <;> rfl

theorem contains_eq_isSome (index : TypeIndex) (b : String) :
    index.contains b = (index.get? b).isSome :=
  rfl

theorem contains_of_get? {b : String} {d : TypeDeclaration} (h : index.get? b = some d) :
    index.contains b = true := by
  rw [contains_eq_isSome, h]
  rfl

@[simp] theorem contains_modify (index : TypeIndex) (binary : String)
    (f : TypeDeclaration → TypeDeclaration) (b : String) :
    (index.modify binary f).contains b = index.contains b := by
  rw [contains_eq_isSome, get?_modify, contains_eq_isSome]
  split <;> simp

@[simp] theorem contains_addMember (index : TypeIndex) (outer simple inner b : String) :
    (index.addMember outer simple inner).contains b = index.contains b := by
  simp [addMember]

@[simp] theorem contains_addMembers (index : TypeIndex) (links : List (String × String × String))
    (b : String) : (index.addMembers links).contains b = index.contains b := by
  unfold addMembers
  induction links generalizing index with
  | nil => rfl
  | cons link rest ih => rw [List.foldl_cons, ih, contains_addMember]

theorem get?_insert (index : TypeIndex) (d : TypeDeclaration) (b : String) :
    (index.insert d).get? b =
      if index.outranked d then index.get? b
      else if b == d.binary then some d else index.get? b := by
  unfold insert
  split
  · rfl
  · rw [get?, SortedMap.get?_insert]
    split
    · rfl
    · split <;> rfl

theorem get?_addMember (index : TypeIndex) (outer simple inner b : String) :
    (index.addMember outer simple inner).get? b = (index.get? b).map fun d =>
      { d with
        members := if b = outer then d.members.insertIfNew simple inner else d.members
        outer := if b = inner then d.outer.or (some outer) else d.outer
        simple := if b = inner then simple else d.simple } := by
  rw [addMember, get?_modify, get?_modify]
  cases index.get? b with
  | none => simp
  | some d =>
    by_cases houter : b = outer
    · subst houter
      by_cases hinner : b = inner
      · simp [hinner]
      · simp [hinner]
    · by_cases hinner : b = inner
      · simp [hinner, hinner ▸ houter]
      · simp [hinner, houter]

theorem topLevel?_addMember (index : TypeIndex) (outer simple inner package name : String) :
    (index.addMember outer simple inner).topLevel? package name = index.topLevel? package name := by
  rw [addMember, topLevel?_modify, topLevel?_modify]

theorem topLevel?_addMembers (index : TypeIndex) (links : List (String × String × String))
    (package name : String) :
    (index.addMembers links).topLevel? package name = index.topLevel? package name := by
  unfold addMembers
  induction links generalizing index with
  | nil => rfl
  | cons link rest ih => rw [List.foldl_cons, ih, topLevel?_addMember]

theorem topLevel?_addTopLevel (index : TypeIndex) (d : TypeDeclaration) (package simple : String) :
    (index.addTopLevel d).topLevel? package simple =
      if package = packageOf d.binary ∧ simple = d.simple then some d.binary
      else index.topLevel? package simple := by
  rw [topLevel?, addTopLevel, SortedMap.get?_insert]
  by_cases hpackage : package = packageOf d.binary
  · rw [if_pos (beq_iff_eq.2 hpackage), Option.bind_some, SortedMap.get?_insert]
    by_cases hsimple : simple = d.simple
    · rw [if_pos (beq_iff_eq.2 hsimple), if_pos ⟨hpackage, hsimple⟩]
    · rw [if_neg (by simpa using hsimple), if_neg (fun h => hsimple h.2), topLevel?, hpackage]
      cases index.topLevels.get? (packageOf d.binary) <;> rfl
  · rw [if_neg (by simpa using hpackage), if_neg (fun h => hpackage h.1)]
    rfl

/-- Only a type at the top level is entered into the table of its package. -/
theorem topLevel?_insert (index : TypeIndex) (d : TypeDeclaration) (package simple : String) :
    (index.insert d).topLevel? package simple =
      if index.outranked d = false ∧ (d.outer.isNone && !d.isLocal) = true ∧
        package = packageOf d.binary ∧ simple = d.simple then some d.binary
      else index.topLevel? package simple := by
  unfold insert
  cases index.outranked d with
  | true => simp
  | false =>
    cases d.outer.isNone && !d.isLocal with
    | true =>
      simp only [Bool.false_eq_true, if_false, if_true, true_and]
      exact index.topLevel?_addTopLevel d package simple
    | false => simp [topLevel?]

/-- A type that is outranked is there already. -/
theorem contains_insert (index : TypeIndex) (d : TypeDeclaration) (b : String) :
    (index.insert d).contains b = (b == d.binary || index.contains b) := by
  rw [contains_eq_isSome, get?_insert, contains_eq_isSome]
  split
  · rename_i houtranked
    obtain ⟨existing, hexisting, -⟩ := (Option.any_eq_true _ _).1 houtranked
    by_cases hb : b = d.binary
    · simp [hb, hexisting]
    · simp [hb]
  · split
    · rename_i hb
      simp [hb]
    · rename_i hb
      simp [hb]

theorem contains_insertAll {ds : List TypeDeclaration} {b : String} :
    (index.insertAll ds).contains b = true ↔
      index.contains b = true ∨ ∃ d ∈ ds, d.binary = b := by
  unfold insertAll
  induction ds generalizing index with
  | nil => simp
  | cons d rest ih =>
    rw [List.foldl_cons, ih, contains_insert, Bool.or_eq_true, beq_iff_eq]
    simp only [List.mem_cons, exists_eq_or_imp, eq_comm (a := b), or_assoc, or_left_comm]

/-! ## Closed indexes -/

/-- What can be found by a simple name is a type of the index. -/
structure Closed (index : TypeIndex) : Prop where
  member : ∀ {owner simple inner : String} {d : TypeDeclaration}, index.get? owner = some d →
    d.members.get? simple = some inner → index.contains inner = true
  topLevel : ∀ {package simple binary : String},
    index.topLevel? package simple = some binary → index.contains binary = true

namespace Closed

theorem empty : ({} : TypeIndex).Closed where
  member h := by cases h
  topLevel h := by cases h

/-- A type may be changed if all its member types are known. -/
theorem modify (h : index.Closed) {binary : String} {f : TypeDeclaration → TypeDeclaration}
    (hf : ∀ d, index.get? binary = some d → ∀ simple inner,
      (f d).members.get? simple = some inner → index.contains inner = true) :
    (index.modify binary f).Closed where
  member := by
    intro owner simple inner d hd hinner
    rw [contains_modify]
    rw [get?_modify] at hd
    split at hd
    · rename_i howner
      obtain ⟨d', hd', rfl⟩ := Option.map_eq_some_iff.1 hd
      rw [eq_of_beq howner] at hd'
      exact hf d' hd' simple inner hinner
    · exact h.member hd hinner
  topLevel := by
    intro package simple binary' hbinary
    rw [contains_modify]
    rw [topLevel?_modify] at hbinary
    exact h.topLevel hbinary

theorem modify_of_members (h : index.Closed) {binary : String}
    {f : TypeDeclaration → TypeDeclaration} (hf : ∀ d, (f d).members = d.members) :
    (index.modify binary f).Closed := by
  refine h.modify fun d hd simple inner hinner => ?_
  rw [hf] at hinner
  exact h.member hd hinner

theorem addMember (h : index.Closed) {outer simple inner : String}
    (hinner : index.contains inner = true) : (index.addMember outer simple inner).Closed := by
  refine (h.modify fun d hd simple' inner' hmember => ?_).modify_of_members fun d => rfl
  dsimp only at hmember
  unfold SortedMap.insertIfNew at hmember
  split at hmember
  · exact h.member hd hmember
  · rw [SortedMap.get?_insert] at hmember
    split at hmember
    · cases hmember
      exact hinner
    · exact h.member hd hmember

theorem addMembers (h : index.Closed) {links : List (String × String × String)}
    (hlinks : ∀ link ∈ links, index.contains link.2.2 = true) :
    (index.addMembers links).Closed := by
  unfold TypeIndex.addMembers
  induction links generalizing index with
  | nil => exact h
  | cons link rest ih =>
    rw [List.foldl_cons]
    refine ih (h.addMember (hlinks link List.mem_cons_self)) fun link' hlink' => ?_
    rw [contains_addMember]
    exact hlinks link' (List.mem_cons_of_mem _ hlink')

/-- A top-level type is in the table of its package from when it is a type of the index on. -/
theorem insert (h : index.Closed) {d : TypeDeclaration} (hd : d.members = {}) :
    (index.insert d).Closed where
  member := by
    intro owner simple inner d' hd' hinner
    rw [contains_insert, Bool.or_eq_true]
    rw [get?_insert] at hd'
    split at hd'
    · exact .inr (h.member hd' hinner)
    · split at hd'
      · cases hd'
        rw [hd] at hinner
        cases hinner
      · exact .inr (h.member hd' hinner)
  topLevel := by
    intro package simple binary hbinary
    rw [contains_insert, Bool.or_eq_true, beq_iff_eq]
    rw [topLevel?_insert] at hbinary
    split at hbinary
    · exact .inl (Option.some.inj hbinary).symm
    · exact .inr (h.topLevel hbinary)

theorem insertAll (h : index.Closed) {ds : List TypeDeclaration}
    (hds : ∀ d ∈ ds, d.members = {}) : (index.insertAll ds).Closed :=
  List.foldlRecOn ds TypeIndex.insert h fun _ hindex d hd => hindex.insert (hds d hd)

/-- Types come without member types; those that are linked afterwards are among them. -/
theorem enter (h : index.Closed) {ds : List TypeDeclaration}
    {links : List (String × String × String)} (hds : ∀ d ∈ ds, d.members = {})
    (hlinks : ∀ link ∈ links, ∃ d ∈ ds, d.binary = link.2.2) :
    ((index.insertAll ds).addMembers links).Closed :=
  (h.insertAll hds).addMembers fun link hlink => contains_insertAll.2 (.inr (hlinks link hlink))

theorem install (h : index.Closed) {ds : List TypeDeclaration} (hds : ∀ d ∈ ds, d.members = {}) :
    (index.install ds).Closed := by
  refine h.enter hds fun link hlink => ?_
  obtain ⟨d, hd, hlink⟩ := List.mem_filterMap.1 hlink
  obtain ⟨outer, -, rfl⟩ := Option.map_eq_some_iff.1 hlink
  exact ⟨d, hd, rfl⟩

/-! ## Names that lead to types -/

theorem memberType? (h : index.Closed) {owner simple binary : String}
    (hfound : index.memberType? owner simple = some binary) : index.contains binary = true := by
  obtain ⟨type, -, hfound⟩ := List.exists_of_findSome?_eq_some hfound
  obtain ⟨d, hd, hmember⟩ := Option.bind_eq_some_iff.1 hfound
  exact h.member hd hmember

theorem memberPath? (h : index.Closed) {owner binary : String} {path : List String}
    (howner : index.contains owner = true) (hfound : index.memberPath? owner path = some binary) :
    index.contains binary = true := by
  induction path generalizing owner with
  | nil =>
    cases hfound
    exact howner
  | cons simple rest ih =>
    obtain ⟨d, hd, hfound⟩ := Option.bind_eq_some_iff.1 hfound
    obtain ⟨inner, hinner, hfound⟩ := Option.bind_eq_some_iff.1 hfound
    exact ih (h.member hd hinner) hfound

theorem resolveQualified? (h : index.Closed) {segments : List String} {binary : String}
    (hfound : index.resolveQualified? segments = some binary) : index.contains binary = true := by
  obtain ⟨⟨package, top, members⟩, -, hfound⟩ := List.exists_of_findSome?_eq_some hfound
  obtain ⟨top, htop, hfound⟩ := Option.bind_eq_some_iff.1 hfound
  exact h.memberPath? (h.topLevel htop) hfound

/-- Single-type imports that are resolved name types of the index. -/
theorem imported (h : index.Closed) (declarations : List ImportDeclaration) :
    ∀ {name binary : String},
      (Imports.resolve index declarations).single.get? name = some binary →
        index.contains binary = true := by
  refine List.foldlRecOn declarations (Imports.add index)
    (motive := fun imports : Imports => ∀ {name binary : String},
      imports.single.get? name = some binary → index.contains binary = true)
    (fun hget => by cases hget) fun imports himports d _ name binary hget => ?_
  unfold Imports.add at hget
  split at hget
  · split at hget
    · exact himports hget
    · split at hget
      · rename_i binary' hbinary
        rw [SortedMap.get?_insert] at hget
        split at hget
        · cases hget
          exact h.resolveQualified? hbinary
        · exact himports hget
      · exact himports hget
  · exact himports hget
  · split at hget
    · exact himports hget
    · exact himports hget
  · split at hget
    · exact himports hget
    · exact himports hget

end Closed

end TypeIndex

/-! ## The catalogue and the class path -/

namespace Catalogue

/-- What the parts of an entry leave as it was. -/
structure Keeps (d d' : TypeDeclaration) : Prop where
  members : d'.members = d.members
  origin : d'.origin = d.origin

theorem Keeps.refl (d : TypeDeclaration) : Keeps d d := ⟨rfl, rfl⟩

theorem Keeps.trans {a b c : TypeDeclaration} (h : Keeps a b) (h' : Keeps b c) : Keeps a c :=
  ⟨h'.members.trans h.members, h'.origin.trans h.origin⟩

theorem Header.keeps_of_apply {d d' : TypeDeclaration} {header : Header}
    (h : header.apply d = .ok d') : Keeps d d' := by
  cases header with
  | plain superclass interfaces =>
    cases h
    exact ⟨rfl, rfl⟩
  | generic signature =>
    obtain ⟨_, -, h⟩ := exists_of_bind_eq_ok h
    cases h
    exact ⟨rfl, rfl⟩

theorem keeps_addImplicit (d : TypeDeclaration) : Keeps d (addImplicit d) := by
  unfold addImplicit
  split
  · exact ⟨rfl, rfl⟩
  · split <;> exact ⟨rfl, rfl⟩
  · exact .refl d

theorem keeps_of_addMethod {d d' : TypeDeclaration} {name signature : String}
    {isStatic isVarargs hasBody : Bool}
    (h : addMethod d name signature isStatic isVarargs hasBody = .ok d') : Keeps d d' := by
  obtain ⟨_, -, h⟩ := exists_of_bind_eq_ok h
  cases h
  exact ⟨rfl, rfl⟩

theorem Member.keeps_of_addTo {d d' : TypeDeclaration} {member : Member}
    (h : member.addTo d = .ok d') : Keeps d d' := by
  cases member with
  | field name signature =>
    obtain ⟨_, -, h⟩ := exists_of_bind_eq_ok h
    cases h
    exact ⟨rfl, rfl⟩
  | method name signature => exact keeps_of_addMethod h
  | staticMethod name signature => exact keeps_of_addMethod h
  | staticVarargs name signature => exact keeps_of_addMethod h
  | varargs name signature => exact keeps_of_addMethod h
  | defaultMethod name signature => exact keeps_of_addMethod h

theorem keeps_of_foldlM {members : List Member} {d d' : TypeDeclaration}
    (h : members.foldlM Member.addTo d = .ok d') : Keeps d d' := by
  induction members generalizing d with
  | nil =>
    cases h
    exact .refl _
  | cons member rest ih =>
    rw [List.foldlM_cons] at h
    obtain ⟨_, hmember, h⟩ := exists_of_bind_eq_ok h
    exact (Member.keeps_of_addTo hmember).trans (ih h)

theorem spec_of_mem_declarations {d : TypeDeclaration} (h : d ∈ declarations) :
    d.members = {} ∧ d.origin = .catalogue := by
  obtain ⟨e, -, hd⟩ := List.mem_filterMap.1 h
  cases hdeclaration : e.declaration with
  | error err =>
    rw [hdeclaration] at hd
    cases hd
  | ok d' =>
    rw [hdeclaration] at hd
    cases hd
    obtain ⟨_, hheader, h⟩ := exists_of_bind_eq_ok hdeclaration
    have hkeeps := ((Header.keeps_of_apply hheader).trans (keeps_addImplicit _)).trans
      (keeps_of_foldlM h)
    exact ⟨hkeeps.members, hkeeps.origin⟩

end Catalogue

theorem Classpath.spec_of_mem_declarations {classes : List ClassFile} {d : TypeDeclaration}
    (h : d ∈ declarations classes) : d.members = {} ∧ d.origin = .library := by
  obtain ⟨c, -, rfl⟩ := List.mem_map.1 h
  exact ⟨rfl, rfl⟩

namespace TypeIndex

theorem closed_catalogue : catalogue.Closed :=
  Closed.empty.install fun _ hd => (Catalogue.spec_of_mem_declarations hd).1

theorem Closed.addClasspath {index known : TypeIndex} (h : index.Closed) {tree : FileTree}
    {paths : List String} (hknown : index.addClasspath tree paths = .ok known) : known.Closed := by
  obtain ⟨classes, -, hknown⟩ := exists_of_bind_eq_ok hknown
  cases hknown
  exact h.install fun _ hd => (Classpath.spec_of_mem_declarations hd).1

end TypeIndex

end Renaming.Java
