import Renaming.Proofs.RangeMap.Reading

/-!
# The order of every range map

A map comes from the empty one or from a text by calls that add units. A call that is refused leaves
the map as it was, and one that is accepted adds a group in order, so that the occurrences of every
unit of every map are in order.
-/

namespace Renaming.RangeMap

/-- The maps that there can be: the empty one, those that are read, and what calls leave of them,
whether these are accepted or refused. -/
inductive Reachable : RangeMap → Prop where
  | empty : Reachable empty
  | read {content : Bytes} {m : RangeMap} (h : read content = .ok m) : Reachable m
  | addUnit {m : RangeMap} (h : Reachable m) (unit : String) (os : List Occurrence) :
      Reachable (m.addUnit unit os).2

/-! ## One call -/

/-- A call is accepted with a group in order for a new unit, and otherwise changes nothing. -/
theorem addUnit_cases (m : RangeMap) (unit : String) (os : List Occurrence) :
    (unit ∉ m.unitIds ∧ InOrder os ∧ m.addUnit unit os = (.ok (), ⟨m.units.insert unit os⟩)) ∨
      (¬ (unit ∉ m.unitIds ∧ InOrder os) ∧ ∃ e, m.addUnit unit os = (.error e, m)) := by
  unfold addUnit
  cases hinsert : m.insertUnit unit os with
  | ok added =>
    obtain ⟨hnew, horder, rfl⟩ := insertUnit_eq_ok_iff.1 hinsert
    exact .inl ⟨hnew, firstDisorder_eq_none_iff.1 horder, rfl⟩
  | error e =>
    refine .inr ⟨?_, e, rfl⟩
    rintro ⟨hnew, horder⟩
    have hok := insertUnit_eq_ok_iff.2 ⟨hnew, firstDisorder_eq_none_iff.2 horder, rfl⟩
    rw [hinsert] at hok
    cases hok

theorem addUnit_eq_ok_iff {m : RangeMap} {unit : String} {os : List Occurrence} :
    (m.addUnit unit os).1 = .ok () ↔ unit ∉ m.unitIds ∧ InOrder os := by
  rcases addUnit_cases m unit os with ⟨hnew, horder, hcall⟩ | ⟨hnot, e, hcall⟩
  · simp [hcall, hnew, horder]
  · simpa [hcall] using hnot

theorem occurrences_insert (m : RangeMap) (unit : String) (os : List Occurrence) (other : String) :
    (⟨m.units.insert unit os⟩ : RangeMap).occurrences other =
      if other = unit then os else m.occurrences other := by
  rw [occurrences, SortedMap.get?_insert]
  by_cases hother : other = unit
  · simp [hother]
  · simp [hother, occurrences]

theorem inOrder_addUnit {m : RangeMap} (h : ∀ unit, InOrder (m.occurrences unit)) (unit : String)
    (os : List Occurrence) (other : String) :
    InOrder ((m.addUnit unit os).2.occurrences other) := by
  rcases addUnit_cases m unit os with ⟨-, horder, hcall⟩ | ⟨-, e, hcall⟩
  · rw [hcall, occurrences_insert]
    split
    · exact horder
    · exact h other
  · rw [hcall]
    exact h other

/-! ## Maps that are read -/

theorem occurrences_group (records : List (String × Occurrence)) (unit : String) :
    (⟨group records⟩ : RangeMap).occurrences unit = ofUnit unit records := by
  rw [occurrences, get?_group]
  cases ofUnit unit records <;> rfl

theorem inOrder_of_read {content : Bytes} {m : RangeMap} (h : read content = .ok m)
    (unit : String) : InOrder (m.occurrences unit) := by
  obtain ⟨texts, records, -, -, horder, rfl⟩ := read_eq_ok_iff.1 h
  rw [occurrences_group]
  exact horder unit

theorem start_le_stop_of_read {content : Bytes} {m : RangeMap} (h : read content = .ok m)
    {unit : String} {o : Occurrence} (ho : o ∈ m.occurrences unit) :
    o.span.start ≤ o.span.stop := by
  obtain ⟨texts, records, -, hread, -, rfl⟩ := read_eq_ok_iff.1 h
  rw [occurrences_group] at ho
  obtain ⟨record, hrecord, rfl⟩ := List.mem_map.1 ho
  have hanswer : Except.ok record ∈ (recordLines texts).map readRecord := by
    rw [hread]
    exact List.mem_map_of_mem (List.mem_filter.1 hrecord).1
  obtain ⟨line, -, hline⟩ := List.mem_map.1 hanswer
  exact (of_readRecord hline).2

/-! ## All maps -/

theorem Reachable.inOrder {m : RangeMap} (h : m.Reachable) (unit : String) :
    InOrder (m.occurrences unit) := by
  induction h generalizing unit with
  | empty => exact .nil
  | read hread => exact inOrder_of_read hread unit
  | addUnit h added os ih => exact inOrder_addUnit ih added os unit

/-- Any two occurrences of one unit of a map are in order. A group is accepted for a new unit exactly
if it is in order, too; it is then what the map has for that unit, and a call that is refused leaves
the map as it was. What is read from a text has no span that ends before it starts. -/
theorem always_in_order :
    (∀ m : RangeMap, m.Reachable → ∀ unit, InOrder (m.occurrences unit)) ∧
    (∀ (m : RangeMap) unit os, unit ∉ m.unitIds →
      ((m.addUnit unit os).1 = .ok () ↔ InOrder os)) ∧
    (∀ (m : RangeMap) unit os, (m.addUnit unit os).1 = .ok () → ∀ other,
      (m.addUnit unit os).2.occurrences other =
        if other = unit then os else m.occurrences other) ∧
    (∀ (m : RangeMap) unit os e, (m.addUnit unit os).1 = .error e → (m.addUnit unit os).2 = m) ∧
    ∀ content m, read content = .ok m → ∀ unit, ∀ o ∈ m.occurrences unit,
      o.span.start ≤ o.span.stop := by
  refine ⟨fun m hm unit => hm.inOrder unit, fun m unit os hnew => ?_, fun m unit os hok => ?_,
    fun m unit os e he => ?_, fun content m hread unit o ho => start_le_stop_of_read hread ho⟩
  · rw [addUnit_eq_ok_iff]
    exact and_iff_right hnew
  · rcases addUnit_cases m unit os with ⟨-, -, hcall⟩ | ⟨-, e, hcall⟩
    · rw [hcall]
      exact m.occurrences_insert unit os
    · rw [hcall] at hok
      cases hok
  · rcases addUnit_cases m unit os with ⟨-, -, hcall⟩ | ⟨-, e, hcall⟩
    · rw [hcall] at he
      cases he
    · rw [hcall]

/-- A group in order, with a span that ends before it starts. -/
def orderedGroup : List Occurrence :=
  [⟨⟨0, 10⟩, "A", .type, []⟩, ⟨⟨20, 5⟩, "A.f", .field, []⟩, ⟨⟨21, 22⟩, "A.g", .field, []⟩]

def overlappingGroup : List Occurrence :=
  [⟨⟨0, 5⟩, "B", .type, []⟩, ⟨⟨4, 6⟩, "B.f", .field, []⟩]

/-- The map after a call that is accepted and two that are refused. -/
def afterRefusals : RangeMap :=
  (((empty.addUnit "A.java" orderedGroup).2.addUnit "A.java" []).2.addUnit "B.java"
    overlappingGroup).2

def oneLineMap : RangeMap := ⟨.ofList [("A.java", [⟨⟨6, 7⟩, "A", .type, []⟩])]⟩

theorem always_in_order_afterRefusals :
    afterRefusals.unitIds = ["A.java"] ∧ InOrder (afterRefusals.occurrences "A.java") ∧
      (afterRefusals.addUnit "B.java" orderedGroup).1 = .ok () ∧
      (afterRefusals.addUnit "B.java" orderedGroup).2.occurrences "B.java" = orderedGroup ∧
      (afterRefusals.addUnit "B.java" overlappingGroup).2 = afterRefusals ∧
      read (.ofText "A.java\t6\t7\tA\ttype") = .ok oneLineMap ∧
      ∀ o ∈ oneLineMap.occurrences "A.java", o.span.start ≤ o.span.stop := by
  obtain ⟨hreachable, haccepted, hadded, hrefused, hread⟩ := always_in_order
  have hnew : "B.java" ∉ afterRefusals.unitIds := by decide +kernel
  have hok : (afterRefusals.addUnit "B.java" orderedGroup).1 = .ok () :=
    (haccepted afterRefusals "B.java" orderedGroup hnew).2 (by decide)
  have herror : (afterRefusals.addUnit "B.java" overlappingGroup).1 =
      .error (.unordered "B.java" ⟨4, 6⟩) := by decide +kernel
  have hline : read (.ofText "A.java\t6\t7\tA\ttype") = .ok oneLineMap := by decide +kernel
  exact ⟨by decide +kernel,
    hreachable afterRefusals (.addUnit (.addUnit (.addUnit .empty _ _) _ _) _ _) "A.java", hok,
    hadded _ _ _ hok "B.java", hrefused _ _ _ _ herror, hline, hread _ _ hline "A.java"⟩

end Renaming.RangeMap
