import Mathlib.Data.List.Chain
import Renaming.RangeMap

/-!
# Occurrences in order

A group of occurrences is checked by comparing neighbours. To come before an occurrence is
transitive, so that the check decides the order of any two occurrences of the group, however long it
is and even if some of its spans end before they start.
-/

namespace Renaming

/-- Whether an occurrence starts before another one and ends where that starts or earlier. -/
def Occurrence.Before (a b : Occurrence) : Prop :=
  a.span.start < b.span.start ∧ a.span.stop ≤ b.span.start

namespace Occurrence

instance (a b : Occurrence) : Decidable (a.Before b) :=
  inferInstanceAs (Decidable (_ < _ ∧ _ ≤ _))

theorem Before.trans {a b c : Occurrence} (hab : a.Before b) (hbc : b.Before c) : a.Before c := by
  obtain ⟨hstart, hstop⟩ := hab
  obtain ⟨hstart', -⟩ := hbc
  exact ⟨Nat.lt_trans hstart hstart', Nat.le_of_lt (Nat.lt_of_le_of_lt hstop hstart')⟩

instance : Trans Before Before Before := ⟨Before.trans⟩

theorem follows_iff_before {a b : Occurrence} : b.follows a.span = true ↔ a.Before b := by
  simp only [follows, Span.overlaps, Before, Bool.and_eq_true, Bool.not_eq_true',
    Bool.and_eq_false_iff, decide_eq_true_eq, decide_eq_false_iff_not]
  omega

end Occurrence

/-- Occurrences in ascending order of which no two overlap. -/
def InOrder (os : List Occurrence) : Prop := os.Pairwise Occurrence.Before

instance (os : List Occurrence) : Decidable (InOrder os) :=
  inferInstanceAs (Decidable (os.Pairwise Occurrence.Before))

theorem firstDisorder_some_eq_none_iff {a : Occurrence} {os : List Occurrence} :
    firstDisorder (some a.span) os = none ↔ (a :: os).IsChain Occurrence.Before := by
  induction os generalizing a with
  | nil => simp [firstDisorder]
  | cons o rest ih =>
    rw [firstDisorder, List.isChain_cons_cons, ← ih, ← Occurrence.follows_iff_before]
    by_cases hfollows : o.follows a.span = true
    · simp [hfollows]
    · simp [hfollows]

/-- The check of neighbours finds nothing exactly if the whole group is in order. -/
theorem firstDisorder_eq_none_iff {os : List Occurrence} :
    firstDisorder none os = none ↔ InOrder os := by
  cases os with
  | nil => simp [firstDisorder, InOrder]
  | cons o rest =>
    rw [firstDisorder, firstDisorder_some_eq_none_iff, List.isChain_iff_pairwise, InOrder]

end Renaming
