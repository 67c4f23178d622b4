import Mathlib.Logic.Relation
import Renaming.Java.Hierarchy
import Renaming.Proofs.SortedMap

/-!
# The supertypes of a type

The visit of a type goes through everything that its declared supertypes lead to, each type once,
and the number of mentioned supertypes is enough for it to end. So the supertypes of a type are the
types that can be reached from it, and the root class.
-/

namespace Renaming.Java

open Relation (ReflTransGen)

section Fresh

variable {taken names : List String} {name : String}

theorem mem_fresh_iff : name ∈ fresh taken names ↔ name ∈ names ∧ name ∉ taken := by
  induction names generalizing taken with
  | nil => simp [fresh]
  | cons first rest ih =>
    rw [fresh]
    by_cases htaken : first ∈ taken
    · rw [if_pos (List.contains_iff_mem.2 htaken), ih]
      constructor
      · rintro ⟨hrest, hnew⟩
        exact ⟨List.mem_cons_of_mem _ hrest, hnew⟩
      · rintro ⟨hname, hnew⟩
        refine ⟨(List.mem_cons.1 hname).resolve_left ?_, hnew⟩
        rintro rfl
        exact hnew htaken
    · rw [if_neg (mt List.contains_iff_mem.1 htaken), List.mem_cons, ih]
      by_cases hfirst : name = first
      · subst hfirst
        simp [htaken]
      · simp [hfirst]

theorem nodup_fresh (taken names : List String) : (fresh taken names).Nodup := by
  induction names generalizing taken with
  | nil => exact List.nodup_nil
  | cons first rest ih =>
    rw [fresh]
    split
    · exact ih taken
    · refine List.nodup_cons.2 ⟨?_, ih _⟩
      intro hmem
      exact (mem_fresh_iff.1 hmem).2 List.mem_cons_self

end Fresh

namespace TypeIndex

variable {index : TypeIndex} {a b start : String}

/-- The supertypes that the declaration of a type names, the superclass before the interfaces; a
type that is not in the index has none. -/
def declaredSupertypes (index : TypeIndex) (binary : String) : List String :=
  ((index.get? binary).map (·.directSupertypes)).getD []

theorem parents_eq_filter (index : TypeIndex) (a : String) :
    index.parents a = (index.declaredSupertypes a).filter (· != objectName) := by
  rw [parents, declaredSupertypes]
  cases index.get? a <;> rfl

/-- A declared supertype other than the root class. -/
def Extends (index : TypeIndex) (a b : String) : Prop := b ∈ index.parents a

theorem extends_iff :
    index.Extends a b ↔ b ∈ index.declaredSupertypes a ∧ b ≠ objectName := by
  rw [Extends, parents_eq_filter, List.mem_filter, bne_iff_ne]

theorem not_extends_root : ¬ index.Extends a objectName := fun h => (extends_iff.1 h).2 rfl

theorem mem_mentioned_of_extends (h : index.Extends a b) :
    b ∈ index.types.values.flatMap (·.directSupertypes) := by
  rw [Extends, parents] at h
  cases hget : index.get? a with
  | none =>
    rw [hget] at h
    cases h
  | some d =>
    rw [hget] at h
    have hentry : (a, d) ∈ index.types.entries := SortedMap.get?_eq_some_iff.1 hget
    have hvalue : d ∈ index.types.values := List.mem_map_of_mem hentry
    exact List.mem_flatMap.2 ⟨d, hvalue, (List.mem_filter.1 h).1⟩

/-- A visit from `start` on its way: the types met so far are those whose supertypes were looked
at, and after them those that wait for it. -/
structure Visiting (index : TypeIndex) (start : String) (visited queue : List String) : Prop where
  nodup : (visited ++ queue).Nodup
  first : ∃ rest, visited ++ queue = start :: rest
  reached : ∀ b ∈ visited ++ queue, ReflTransGen index.Extends start b
  closed : ∀ a ∈ visited, ∀ b, index.Extends a b → b ∈ visited ++ queue

namespace Visiting

variable {visited queue : List String} {current : String}

theorem initial (index : TypeIndex) (start : String) : Visiting index start [] [start] where
  nodup := by simp
  first := ⟨[], rfl⟩
  reached b hb := by
    rw [List.nil_append, List.mem_singleton] at hb
    subst hb
    exact .refl
  closed a ha := by cases ha

/-- One type leaves the queue, and what it is the first to lead to joins it. -/
theorem step (h : Visiting index start visited (current :: queue)) :
    Visiting index start (visited ++ [current])
      (queue ++ fresh (visited ++ current :: queue) (index.parents current)) := by
  let seen := visited ++ current :: queue
  let found := fresh seen (index.parents current)
  have hmet : visited ++ [current] ++ (queue ++ found) = seen ++ found := by simp [seen]
  have hcurrent : current ∈ seen := by simp [seen]
  constructor
  · rw [hmet]
    refine List.nodup_append.2 ⟨h.nodup, nodup_fresh _ _, ?_⟩
    rintro b hb b' hb' rfl
    exact (mem_fresh_iff.1 hb').2 hb
  · obtain ⟨rest, hrest⟩ := h.first
    exact ⟨rest ++ found, by rw [hmet]; simp [seen, hrest]⟩
  · intro b hb
    rw [hmet] at hb
    rcases List.mem_append.1 hb with hb | hb
    · exact h.reached b hb
    · exact (h.reached current hcurrent).tail (mem_fresh_iff.1 hb).1
  · intro a ha b hab
    rw [hmet, List.mem_append]
    rcases List.mem_append.1 ha with ha | ha
    · exact .inl (h.closed a ha b hab)
    · rw [List.mem_singleton] at ha
      subst ha
      by_cases hb : b ∈ seen
      · exact .inl hb
      · exact .inr (mem_fresh_iff.2 ⟨hab, hb⟩)

/-- Every type met is the first one or mentioned as a supertype, so the queue runs empty in time. -/
theorem length_le (h : Visiting index start visited queue) :
    visited.length + queue.length ≤ index.supertypeMentions + 1 := by
  have hsubset : visited ++ queue ⊆
      start :: index.types.values.flatMap (·.directSupertypes) := by
    intro b hb
    cases h.reached b hb with
    | refl => exact List.mem_cons_self
    | tail _ hlast => exact List.mem_cons_of_mem _ (mem_mentioned_of_extends hlast)
  have hlength := h.nodup.length_le_of_subset hsubset
  rwa [List.length_append, List.length_cons] at hlength

/-- A visit with enough fuel ends with nothing left in the queue. -/
theorem visitSupertypes {fuel : Nat} (h : Visiting index start visited queue)
    (hfuel : fuel + visited.length = index.supertypeMentions + 1) :
    Visiting index start (index.visitSupertypes fuel (visited ++ queue) queue) [] := by
  induction fuel generalizing visited queue with
  | zero =>
    have hlength := h.length_le
    have hempty : queue = [] := List.eq_nil_of_length_eq_zero (by omega)
    subst hempty
    rw [TypeIndex.visitSupertypes, List.append_nil]
    exact h
  | succ fuel ih =>
    cases queue with
    | nil =>
      rw [TypeIndex.visitSupertypes, List.append_nil]
      exact h
    | cons current queue =>
      have hrest := ih h.step (by rw [List.length_append, List.length_singleton]; omega)
      rw [TypeIndex.visitSupertypes]
      simpa using hrest

end Visiting

theorem visiting_properChain (index : TypeIndex) (start : String) :
    Visiting index start (index.properChain start) [] :=
  (Visiting.initial index start).visitSupertypes rfl

/-- A visit with enough fuel depends on the supertypes alone. -/
theorem Visiting.visitSupertypes_congr {other : TypeIndex}
    (hparents : index.parents = other.parents) {fuel fuel' : Nat} {visited queue : List String}
    (h : Visiting index start visited queue) (h' : Visiting other start visited queue)
    (hfuel : fuel + visited.length = index.supertypeMentions + 1)
    (hfuel' : fuel' + visited.length = other.supertypeMentions + 1) :
    index.visitSupertypes fuel (visited ++ queue) queue =
      other.visitSupertypes fuel' (visited ++ queue) queue := by
  induction fuel generalizing fuel' visited queue with
  | zero =>
    have hlength := h.length_le
    obtain rfl : queue = [] := List.eq_nil_of_length_eq_zero (by omega)
    cases fuel' <;> rfl
  | succ fuel ih =>
    cases queue with
    | nil => cases fuel' <;> rfl
    | cons current queue =>
      have hlength := h'.length_le
      rw [List.length_cons] at hlength
      obtain ⟨fuel', rfl⟩ : ∃ k, fuel' = k + 1 := ⟨fuel' - 1, by omega⟩
      have hless : fuel + (visited ++ [current]).length = index.supertypeMentions + 1 := by
        rw [List.length_append, List.length_singleton]
        omega
      have hless' : fuel' + (visited ++ [current]).length = other.supertypeMentions + 1 := by
        rw [List.length_append, List.length_singleton]
        omega
      have hrest := ih h.step (hparents ▸ h'.step) hless hless'
      rw [TypeIndex.visitSupertypes, TypeIndex.visitSupertypes, ← hparents]
      simpa using hrest

theorem properChain_congr {other : TypeIndex} (h : index.parents = other.parents) (a : String) :
    index.properChain a = other.properChain a :=
  (Visiting.initial index a).visitSupertypes_congr h (.initial other a) rfl rfl

theorem mem_properChain_iff : b ∈ index.properChain a ↔ ReflTransGen index.Extends a b := by
  have hvisit := visiting_properChain index a
  have hreached := hvisit.reached
  have hclosed := hvisit.closed
  rw [List.append_nil] at hreached hclosed
  constructor
  · exact hreached b
  · intro h
    induction h with
    | refl =>
      obtain ⟨rest, hrest⟩ := hvisit.first
      rw [List.append_nil] at hrest
      rw [hrest]
      exact List.mem_cons_self
    | tail _ hlast ih => exact hclosed _ ih _ hlast

theorem properChain_eq_cons (index : TypeIndex) (a : String) :
    ∃ rest, index.properChain a = a :: rest ∧ a ∉ rest := by
  have hvisit := visiting_properChain index a
  obtain ⟨rest, hrest⟩ := hvisit.first
  have hnodup := hvisit.nodup
  rw [hrest] at hnodup
  rw [List.append_nil] at hrest
  exact ⟨rest, hrest, (List.nodup_cons.1 hnodup).1⟩

theorem mem_supertypes_iff :
    b ∈ index.supertypes a ↔ b ≠ a ∧ (ReflTransGen index.Extends a b ∨ b = objectName) := by
  obtain ⟨rest, hchain, hnew⟩ := index.properChain_eq_cons a
  have hrest : b ∈ rest ↔ b ≠ a ∧ ReflTransGen index.Extends a b := by
    rw [← mem_properChain_iff, hchain, List.mem_cons]
    constructor
    · intro hb
      exact ⟨fun heq => hnew (heq ▸ hb), .inr hb⟩
    · rintro ⟨hne, hb⟩
      exact hb.resolve_left hne
  rw [supertypes, hchain, List.tail_cons, List.mem_append, hrest]
  by_cases hroot : a = objectName
  · rw [if_pos hroot]
    subst hroot
    constructor
    · rintro (⟨hne, hb⟩ | hb)
      · exact ⟨hne, .inl hb⟩
      · cases hb
    · rintro ⟨hne, hb⟩
      exact .inl ⟨hne, hb.resolve_right hne⟩
  · rw [if_neg hroot, List.mem_singleton]
    constructor
    · rintro (⟨hne, hb⟩ | rfl)
      · exact ⟨hne, .inl hb⟩
      · exact ⟨Ne.symm hroot, .inr rfl⟩
    · rintro ⟨hne, hb | hb⟩
      · exact .inl ⟨hne, hb⟩
      · exact .inr hb

/-- The root class is met by no visit of another type, so it is added once. -/
theorem nodup_supertypes (index : TypeIndex) (a : String) : (index.supertypes a).Nodup := by
  have hvisit := visiting_properChain index a
  have hnodup := hvisit.nodup
  obtain ⟨rest, hchain, -⟩ := index.properChain_eq_cons a
  rw [List.append_nil, hchain, List.nodup_cons] at hnodup
  rw [supertypes, hchain, List.tail_cons]
  by_cases hroot : a = objectName
  · rw [if_pos hroot, List.append_nil]
    exact hnodup.2
  · rw [if_neg hroot, List.nodup_append]
    refine ⟨hnodup.2, List.pairwise_singleton _ _, ?_⟩
    rintro b hb c hc rfl
    obtain rfl := List.mem_singleton.1 hc
    have hreached : ReflTransGen index.Extends a objectName :=
      mem_properChain_iff.1 (hchain ▸ List.mem_cons_of_mem a hb)
    rcases ReflTransGen.cases_tail hreached with heq | ⟨b, -, hlast⟩
    · exact hroot heq.symm
    · exact not_extends_root hlast

/-- No type is a supertype of one of its supertypes; the root class is a supertype of every other
type. -/
def Acyclic (index : TypeIndex) : Prop :=
  ∀ a b, b ∈ index.supertypes a → a ∉ index.supertypes b

/-- A hierarchy in which supertypes have higher ranks, and the root class no supertype, has no
cycle. -/
theorem acyclic_of_rank (rank : String → Nat)
    (hrank : ∀ e ∈ index.types.entries, ∀ b ∈ e.2.directSupertypes, b ≠ objectName →
      rank e.1 < rank b)
    (hroot : index.parents objectName = []) : index.Acyclic := by
  have hstep : ∀ {a b}, index.Extends a b → rank a < rank b := by
    intro a b hab
    rw [Extends, parents] at hab
    split at hab
    · cases hab
    · rename_i d hget
      obtain ⟨hb, hne⟩ := List.mem_filter.1 hab
      exact hrank (a, d) (SortedMap.get?_eq_some_iff.1 hget) b hb (by simpa using hne)
  have hpath : ∀ {a b}, ReflTransGen index.Extends a b → a = b ∨ rank a < rank b := by
    intro a b hab
    induction hab with
    | refl => exact .inl rfl
    | tail _ hlast ih =>
      have hlt := hstep hlast
      rcases ih with rfl | hle
      · exact .inr hlt
      · exact .inr (by omega)
  have hfromRoot : ∀ {b}, ReflTransGen index.Extends objectName b → b = objectName := by
    intro b hb
    rcases ReflTransGen.cases_head hb with rfl | ⟨c, hc, -⟩
    · rfl
    · rw [Extends, hroot] at hc
      cases hc
  intro a b hb ha
  obtain ⟨hne, hab⟩ := mem_supertypes_iff.1 hb
  obtain ⟨-, hba⟩ := mem_supertypes_iff.1 ha
  rcases hab with hab | rfl
  · rcases hba with hba | rfl
    · have hup := (hpath hab).resolve_left hne.symm
      have hdown := (hpath hba).resolve_left hne
      omega
    · exact hne (hfromRoot hab)
  · rcases hba with hba | rfl
    · exact hne (hfromRoot hba).symm
    · exact hne rfl

/-- The supertypes of a supertype are supertypes. -/
theorem Acyclic.supertypes_subset (hacyclic : index.Acyclic) (h : b ∈ index.supertypes a) :
    index.supertypes b ⊆ index.supertypes a := by
  intro c hc
  have hne : c ≠ a := by
    rintro rfl
    exact hacyclic c b h hc
  obtain ⟨-, hab⟩ := mem_supertypes_iff.1 h
  obtain ⟨hcb, hbc⟩ := mem_supertypes_iff.1 hc
  refine mem_supertypes_iff.2 ⟨hne, ?_⟩
  rcases hbc with hbc | rfl
  · rcases hab with hab | rfl
    · exact .inl (hab.trans hbc)
    · -- A supertype of the root class would have the root class as a supertype.
      exact absurd (mem_supertypes_iff.2 ⟨hcb.symm, .inr rfl⟩) (hacyclic objectName c hc)
  · exact .inr rfl

/-! ## Members -/

variable {owner type name : String}

theorem findField?_spec {f : FieldDeclaration} (h : index.findField? owner name = some (type, f)) :
    ∃ d, index.get? type = some d ∧ f ∈ d.fields ∧ f.name = name := by
  obtain ⟨sup, -, h⟩ := List.exists_of_findSome?_eq_some h
  obtain ⟨d, hd, h⟩ := Option.bind_eq_some_iff.1 h
  obtain ⟨found, hfound, heq⟩ := Option.bind_eq_some_iff.1 h
  cases heq
  exact ⟨d, hd, List.mem_of_find?_eq_some hfound, by simpa using List.find?_some hfound⟩

theorem dropHidden_sublist (taken : List String) (methods : List (String × MethodDeclaration)) :
    (dropHidden taken methods).Sublist methods := by
  induction methods generalizing taken with
  | nil => exact List.Sublist.refl []
  | cons e rest ih =>
    rw [dropHidden]
    split
    · exact (ih taken).cons e
    · exact (ih _).cons_cons e

theorem findMethods_spec {m : MethodDeclaration} (h : (type, m) ∈ index.findMethods owner name) :
    ∃ d, index.get? type = some d ∧ m ∈ d.methods ∧ m.name = name := by
  obtain ⟨sup, -, h⟩ := List.mem_flatMap.1 ((dropHidden_sublist _ _).subset h)
  unfold declaredMethods at h
  split at h
  · cases h
  · rename_i d hd
    obtain ⟨found, hfound, heq⟩ := List.mem_map.1 h
    cases heq
    obtain ⟨hmem, hname⟩ := List.mem_filter.1 hfound
    exact ⟨d, hd, hmem, by simpa using hname⟩

/-- What is overridden is declared, and has the name of the method that overrides it. -/
theorem overridden_spec {m : MethodDeclaration} {s : Signature} (h : s ∈ index.overridden owner m) :
    ∃ type d n, index.get? type = some d ∧ n ∈ d.methods ∧ n.name = m.name ∧
      s = n.signature type := by
  unfold overridden at h
  split at h
  · cases h
  · obtain ⟨type, -, h⟩ := List.mem_filterMap.1 h
    obtain ⟨d, hd, h⟩ := Option.bind_eq_some_iff.1 h
    obtain ⟨n, hn, heq⟩ := Option.bind_eq_some_iff.1 h
    cases heq
    have hsame := List.find?_some hn
    simp only [sameMethod, Bool.and_eq_true, beq_iff_eq] at hsame
    exact ⟨type, d, n, hd, List.mem_of_find?_eq_some hn, hsame.1.1.1, rfl⟩

end TypeIndex

end Renaming.Java
