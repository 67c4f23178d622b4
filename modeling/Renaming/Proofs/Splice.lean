import Renaming.RangeMap
import Renaming.Splice

/-!
# Spliced units

What a splice leaves alone: without substitutions the text of a unit is the old one. A splice fails
on nothing but spans that reach beyond the text. Where the occurrences are in order, each of them
is looked at in the old text, so that its substitution depends on no other.
-/

namespace Renaming

/-- Whether a span lies within a text. -/
def Span.Within (s : Span) (text : String) : Prop :=
  s.start ≤ text.toList.length ∧ s.stop ≤ text.toList.length

theorem spliceFrom_text_of_entries_eq_nil (t : RenameTable) (unit : String) (os : List Occurrence)
    (cursor : Nat) (rest : List Char) (h : (spliceFrom t unit cursor rest os).entries = []) :
    (spliceFrom t unit cursor rest os).text = rest := by
  induction os generalizing cursor rest with
  | nil => rfl
  | cons o os ih =>
    let gap := o.span.start - cursor
    have htail := ih o.span.stop ((rest.drop gap).drop o.span.length)
    have hcut : rest.take gap ++ ((rest.drop gap).take o.span.length ++
        (rest.drop gap).drop o.span.length) = rest := by
      rw [List.take_append_drop, List.take_append_drop]
    unfold spliceFrom at h ⊢
    cases hr : replacement t o (String.ofList ((rest.drop gap).take o.span.length)) with
    | none =>
      simp only [gap, hr] at h htail ⊢
      rw [htail h, String.toList_ofList, List.append_assoc, hcut]
    | some new =>
      simp only [gap, hr] at h htail ⊢
      split at h
      · rename_i hnew
        rw [if_pos hnew, htail h, String.toList_ofList, List.append_assoc, hcut]
      · cases h

/-- A unit in which nothing is substituted keeps its text. -/
theorem spliceUnit_output_of_not_changed {t : RenameTable} {unit text : String}
    {os : List Occurrence} {spliced : SplicedUnit} (h : spliceUnit t unit text os = .ok spliced)
    (hsame : spliced.changed = false) : spliced.output = text := by
  simp only [spliceUnit] at h
  split at h
  · cases h
  · cases h
    have hnil : (spliceFrom t unit 0 text.toList os).entries = [] := by
      simpa [SplicedUnit.changed] using hsame
    rw [SplicedUnit.output, spliceFrom_text_of_entries_eq_nil t unit os 0 text.toList hnil,
      String.ofList_toList]

/-- Every substitution in a unit is one of that unit. -/
theorem unit_of_mem_spliceFrom_entries {t : RenameTable} {unit : String} {os : List Occurrence}
    {cursor : Nat} {rest : List Char} {entry : RenameEntry}
    (h : entry ∈ (spliceFrom t unit cursor rest os).entries) : entry.unit = unit := by
  induction os generalizing cursor rest with
  | nil => cases h
  | cons o os ih =>
    unfold spliceFrom at h
    dsimp only at h
    split at h
    · split at h
      · exact ih h
      · rcases List.mem_cons.1 h with rfl | h
        · rfl
        · exact ih h
    · exact ih h

theorem unit_of_mem_spliceUnit_entries {t : RenameTable} {unit text : String}
    {os : List Occurrence} {spliced : SplicedUnit} (h : spliceUnit t unit text os = .ok spliced)
    {entry : RenameEntry} (hentry : entry ∈ spliced.entries) : entry.unit = unit := by
  simp only [spliceUnit] at h
  split at h
  · cases h
  · cases h
    exact unit_of_mem_spliceFrom_entries hentry

theorem firstDisorder_cons {last : Option Span} {o : Occurrence} {os : List Occurrence}
    (h : firstDisorder last (o :: os) = none) :
    (∀ l ∈ last, o.follows l = true) ∧ firstDisorder (some o.span) os = none := by
  cases last with
  | none => exact ⟨by simp, h⟩
  | some l =>
    rw [firstDisorder] at h
    split at h
    · rename_i hfollows
      exact ⟨by simpa using hfollows, h⟩
    · cases h

/-- The substitution that a table asks for where an occurrence stands in a text, if any. -/
def RenameTable.substitution? (t : RenameTable) (unit : String) (text : List Char)
    (o : Occurrence) : Option RenameEntry :=
  let written := String.ofList (o.span.slice text)
  ((replacement t o written).filter (· ≠ written)).map fun new =>
    ⟨written, new, unit, o.span.start⟩

/-- The substitutions in the rest of a text, of which everything before `last` ends was written. -/
theorem spliceFrom_entries (t : RenameTable) (unit : String) (text : List Char)
    {os : List Occurrence} (hspans : ∀ o ∈ os, o.span.start ≤ o.span.stop) {last : Option Span}
    (horder : firstDisorder last os = none) {cursor : Nat}
    (hcursor : cursor = (last.map Span.stop).getD 0) :
    (spliceFrom t unit cursor (text.drop cursor) os).entries =
      os.filterMap (t.substitution? unit text) := by
  induction os generalizing last cursor with
  | nil => rfl
  | cons o os ih =>
    obtain ⟨hfollows, horder⟩ := firstDisorder_cons horder
    have hreached : cursor ≤ o.span.start := by
      cases last with
      | none => simp [hcursor]
      | some previous =>
        have hfollows := hfollows previous rfl
        simp only [Occurrence.follows, Bool.and_eq_true, decide_eq_true_eq] at hfollows
        exact hcursor ▸ hfollows.2
    have hspan : o.span.start ≤ o.span.stop := hspans o (by simp)
    have hstart : (text.drop cursor).drop (o.span.start - cursor) = text.drop o.span.start := by
      rw [List.drop_drop]
      congr 1
      omega
    have hstop : (text.drop o.span.start).drop o.span.length = text.drop o.span.stop := by
      rw [List.drop_drop, Span.length]
      congr 1
      omega
    have htail := ih (fun o ho => hspans o (by simp [ho])) horder rfl
    unfold spliceFrom
    simp only [hstart, hstop]
    rw [List.filterMap_cons, RenameTable.substitution?, Span.slice]
    cases replacement t o (String.ofList ((text.drop o.span.start).take o.span.length)) with
    | none => simpa using htail
    | some new =>
      by_cases hsame : new = String.ofList ((text.drop o.span.start).take o.span.length)
      · simpa [hsame, Option.filter_some] using htail
      · simpa [hsame, Option.filter_some] using htail

/-- The substitutions in a unit whose occurrences are in order. -/
theorem spliceUnit_entries {t : RenameTable} {unit text : String} {os : List Occurrence}
    (hspans : ∀ o ∈ os, o.span.start ≤ o.span.stop) (horder : firstDisorder none os = none)
    {spliced : SplicedUnit} (h : spliceUnit t unit text os = .ok spliced) :
    spliced.entries = os.filterMap (t.substitution? unit text.toList) := by
  simp only [spliceUnit] at h
  split at h
  · cases h
  · cases h
    exact spliceFrom_entries t unit text.toList hspans horder rfl

/-- A unit whose occurrences lie within its text is spliced. -/
theorem spliceUnit_of_within {text : String} {os : List Occurrence}
    (h : ∀ o ∈ os, o.span.Within text) (t : RenameTable) (unit : String) :
    ∃ spliced, spliceUnit t unit text os = .ok spliced := by
  have hnone : os.find? (fun o => text.toList.length < o.span.start ||
      text.toList.length < o.span.stop) = none := by
    rw [List.find?_eq_none]
    intro o ho
    obtain ⟨hstart, hstop⟩ := h o ho
    simpa using ⟨hstart, hstop⟩
  simp only [spliceUnit, hnone]
  exact ⟨_, rfl⟩

end Renaming
