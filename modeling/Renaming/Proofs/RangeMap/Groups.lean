import Mathlib.Data.List.Induction
import Renaming.Proofs.SortedMap
import Renaming.RangeMap

/-!
# Groups of occurrences

A range map is built unit by unit, and every group that was added is in order. Records are grouped
by their units, each group in the order of the records, and a map is built again from its groups.
-/

namespace Renaming.RangeMap

/-- The maps that come from the empty one by adding units. -/
inductive Built : RangeMap → Prop where
  | empty : Built empty
  | insertUnit {m m' : RangeMap} {unit : String} {os : List Occurrence} (hbuilt : Built m)
      (hadded : m.insertUnit unit os = .ok m') : Built m'

@[simp] theorem unitIds_empty : empty.unitIds = [] := rfl

theorem not_mem_unitIds_insert {m : RangeMap} {unit other : String} (h : other ∉ m.unitIds)
    (hne : other ≠ unit) (os : List Occurrence) :
    other ∉ (⟨m.units.insert unit os⟩ : RangeMap).unitIds := by
  rw [unitIds, ← SortedMap.get?_eq_none_iff] at h ⊢
  rw [SortedMap.get?_insert_of_ne _ _ hne, h]

theorem insertUnit_eq_ok_iff {m m' : RangeMap} {unit : String} {os : List Occurrence} :
    m.insertUnit unit os = .ok m' ↔
      unit ∉ m.unitIds ∧ firstDisorder none os = none ∧ m' = ⟨m.units.insert unit os⟩ := by
  unfold insertUnit
  by_cases hunit : unit ∈ m.unitIds
  · rw [if_pos (SortedMap.contains_iff_mem_keys.2 hunit)]
    simp [hunit]
  · have hnew : ¬ m.units.contains unit = true :=
      fun h => hunit (SortedMap.contains_iff_mem_keys.1 h)
    rw [if_neg hnew]
    cases firstDisorder none os with
    | none => simp [hunit, eq_comm]
    | some span => simp

theorem Built.firstDisorder_eq_none {m : RangeMap} (h : Built m) {unit : String}
    {os : List Occurrence} (hget : m.units.get? unit = some os) : firstDisorder none os = none := by
  induction h with
  | empty => cases hget
  | @insertUnit m m' added group hbuilt hadded ih =>
    obtain ⟨-, horder, rfl⟩ := insertUnit_eq_ok_iff.1 hadded
    by_cases hunit : unit = added
    · subst hunit
      rw [SortedMap.get?_insert_self] at hget
      cases hget
      exact horder
    · rw [SortedMap.get?_insert_of_ne _ _ hunit] at hget
      exact ih hget

/-- Adding groups of distinct units that are all in order. -/
theorem foldlM_insertUnit {groups : List (String × List Occurrence)} (m : RangeMap)
    (hsorted : Entries.Sorted groups)
    (horder : ∀ g ∈ groups, firstDisorder none g.2 = none)
    (hnew : ∀ g ∈ groups, g.1 ∉ m.unitIds) :
    ∃ m', groups.foldlM (fun m (unit, os) => m.insertUnit unit os) m = Except.ok m' ∧
      ∀ unit, m'.units.get? unit = (groups.lookup unit).or (m.units.get? unit) := by
  induction groups generalizing m with
  | nil => exact ⟨m, rfl, fun _ => rfl⟩
  | cons g rest ih =>
    obtain ⟨unit, os⟩ := g
    have hadded : m.insertUnit unit os = .ok ⟨m.units.insert unit os⟩ :=
      insertUnit_eq_ok_iff.2 ⟨hnew _ List.mem_cons_self, horder _ List.mem_cons_self, rfl⟩
    have hnew' : ∀ g ∈ rest, g.1 ∉ (⟨m.units.insert unit os⟩ : RangeMap).unitIds :=
      fun g hg => not_mem_unitIds_insert (hnew g (by simp [hg]))
        (Entries.not_before_of_mem hsorted hg) os
    obtain ⟨m', hrun, hget⟩ := ih _ (List.pairwise_cons.1 hsorted).2
      (fun g hg => horder g (by simp [hg])) hnew'
    refine ⟨m', ?_, ?_⟩
    · rw [List.foldlM_cons]
      simp only [hadded]
      exact hrun
    · intro other
      rw [hget other, SortedMap.get?_insert, List.lookup_cons]
      cases hother : other == unit with
      | false => simp
      | true =>
        have heq : other = unit := by simpa using hother
        subst heq
        have hnone : rest.lookup other = none := by
          rw [List.lookup_eq_none_iff]
          intro g hg
          simpa using (Entries.not_before_of_mem hsorted hg).symm
        simp [hnone]

/-- A map is built from the groups of a sorted map that are all in order. -/
theorem ofGroups_entries (groups : SortedMap String (List Occurrence))
    (horder : ∀ unit os, groups.get? unit = some os → firstDisorder none os = none) :
    ofGroups groups.entries = .ok ⟨groups⟩ := by
  obtain ⟨m, hrun, hget⟩ := foldlM_insertUnit empty groups.sorted
    (fun g hg => horder g.1 g.2 (SortedMap.get?_of_mem hg)) (by simp)
  have hm : m.units = groups := by
    apply SortedMap.ext_get?
    intro unit
    rw [hget unit]
    exact Option.or_none
  rw [ofGroups, hrun, ← hm]

/-- The occurrences of one unit among records, in their order. -/
def ofUnit (unit : String) (records : List (String × Occurrence)) : List Occurrence :=
  (records.filter fun r => r.1 == unit).map Prod.snd

theorem ofUnit_append (unit : String) (rs rs' : List (String × Occurrence)) :
    ofUnit unit (rs ++ rs') = ofUnit unit rs ++ ofUnit unit rs' := by
  simp [ofUnit]

theorem ofUnit_singleton (unit added : String) (o : Occurrence) :
    ofUnit unit [(added, o)] = if added == unit then [o] else [] := by
  cases h : added == unit <;> simp [ofUnit, h]

/-- A unit has a group if it has a record. -/
theorem get?_group (records : List (String × Occurrence)) (unit : String) :
    (group records).get? unit =
      if (ofUnit unit records).isEmpty then none else some (ofUnit unit records) := by
  -- Records are added at the end, so that the induction is from there.
  induction records using List.reverseRecOn with
  | nil => rfl
  | append_singleton rest r ih =>
    obtain ⟨added, o⟩ := r
    have hgroup : group (rest ++ [(added, o)]) =
        (group rest).insert added (((group rest).get? added).getD [] ++ [o]) := by
      simp [group, List.foldl_append]
    rw [hgroup, SortedMap.get?_insert, ofUnit_append, ofUnit_singleton]
    cases hunit : unit == added with
    | false =>
      have hne : (added == unit) = false := by rw [BEq.comm, hunit]
      simp [hne, ih]
    | true =>
      have heq : unit = added := by simpa using hunit
      subst heq
      cases hempty : (ofUnit unit rest).isEmpty with
      | true =>
        rw [List.isEmpty_iff] at hempty
        simp [ih, hempty]
      | false => simp [ih, hempty]

/-- The map without the units that have no occurrences. -/
def occupied (m : RangeMap) : RangeMap := ⟨m.units.filter fun _ os => !os.isEmpty⟩

theorem occurrences_occupied (m : RangeMap) (unit : String) :
    m.occupied.occurrences unit = m.occurrences unit := by
  rw [occurrences, occupied, SortedMap.get?_filter, occurrences]
  cases m.units.get? unit with
  | none => rfl
  | some os => cases os <;> rfl

theorem ofUnit_group (unit added : String) (os : List Occurrence) :
    ofUnit unit (os.map fun o => (added, o)) = if added == unit then os else [] := by
  induction os with
  | nil => simp [ofUnit]
  | cons o rest ih =>
    rw [List.map_cons, ← List.singleton_append, ofUnit_append, ofUnit_singleton, ih]
    cases added == unit <;> rfl

theorem ofUnit_flatMap (unit : String) {groups : List (String × List Occurrence)}
    (hsorted : Entries.Sorted groups) :
    ofUnit unit (groups.flatMap fun (unit, os) => os.map fun o => (unit, o)) =
      (groups.lookup unit).getD [] := by
  induction groups with
  | nil => rfl
  | cons g rest ih =>
    obtain ⟨added, os⟩ := g
    have hrest := ih (List.pairwise_cons.1 hsorted).2
    rw [List.flatMap_cons, ofUnit_append, ofUnit_group, hrest, List.lookup_cons, BEq.comm]
    cases hunit : unit == added with
    | false => simp
    | true =>
      have hnone : rest.lookup unit = none := by
        rw [List.lookup_eq_none_iff]
        intro g hg
        have heq : unit = added := by simpa using hunit
        subst heq
        simpa using (Entries.not_before_of_mem hsorted hg).symm
      simp [hnone]

theorem ofUnit_records (m : RangeMap) (unit : String) :
    ofUnit unit m.records = m.occurrences unit :=
  ofUnit_flatMap unit m.units.sorted

theorem mem_records_iff {m : RangeMap} {unit : String} {o : Occurrence} :
    (unit, o) ∈ m.records ↔ o ∈ m.occurrences unit := by
  rw [← ofUnit_records]
  simp [ofUnit]

theorem mem_unitIds_of_mem_occurrences {m : RangeMap} {unit : String} {o : Occurrence}
    (h : o ∈ m.occurrences unit) : unit ∈ m.unitIds := by
  rw [unitIds, SortedMap.mem_keys_iff]
  rw [occurrences] at h
  cases hget : m.units.get? unit with
  | none =>
    rw [hget] at h
    cases h
  | some os => exact ⟨os, rfl⟩

/-- Grouping the records of a map loses only the units without occurrences. -/
theorem group_records (m : RangeMap) : group m.records = m.occupied.units := by
  apply SortedMap.ext_get?
  intro unit
  rw [get?_group, ofUnit_records, occurrences, occupied, SortedMap.get?_filter]
  cases m.units.get? unit with
  | none => rfl
  | some os => cases os <;> rfl

theorem Built.ofGroups_group_records {m : RangeMap} (h : Built m) :
    ofGroups (group m.records).entries = .ok m.occupied := by
  rw [group_records]
  apply ofGroups_entries
  intro unit os hget
  rw [occupied, SortedMap.get?_filter, Option.filter_eq_some_iff] at hget
  exact h.firstDisorder_eq_none hget.1

end Renaming.RangeMap
