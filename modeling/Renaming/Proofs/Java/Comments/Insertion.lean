import Renaming.Java.Syntax.Node

/-!
# Insertions

Characters that are put into a text move what stands behind them. What starts at their place moves
as well, what stops there does not, and what has their place within it grows.
-/

namespace Renaming.Java

/-- Where characters are put into a text, which is not its beginning, and how many. -/
structure Insertion where
  place : Nat
  length : Nat
  place_pos : 0 < place
  length_pos : 0 < length

namespace Insertion

variable (i : Insertion)

/-- Where something starts afterwards that has started at an offset. -/
def start (offset : Nat) : Nat := if offset < i.place then offset else offset + i.length

/-- Where something stops afterwards that has stopped at an offset. -/
def stop (offset : Nat) : Nat := if offset ≤ i.place then offset else offset + i.length

def span (s : Span) : Span := ⟨i.start s.start, i.stop s.stop⟩

/-- Whether the characters are put between two of those that a span covers. -/
def Parts (s : Span) : Prop := s.start < i.place ∧ i.place < s.stop

instance (s : Span) : Decidable (i.Parts s) := inferInstanceAs (Decidable (_ ∧ _))

def token (t : Token) : Token := { t with span := i.span t.span }

@[simp] theorem start_zero : i.start 0 = 0 := if_pos i.place_pos

@[simp] theorem stop_zero : i.stop 0 = 0 := if_pos (Nat.zero_le _)

theorem start_inj {a b : Nat} (h : i.start a = i.start b) : a = b := by
  unfold start at h
  split at h <;> split at h <;> omega

theorem start_lt_start {a b : Nat} : i.start a < i.start b ↔ a < b := by
  unfold start
  split <;> split <;> omega

theorem stop_lt_stop {a b : Nat} : i.stop a < i.stop b ↔ a < b := by
  unfold stop
  split <;> split <;> omega

theorem stop_le_start {a b : Nat} : i.stop a ≤ i.start b ↔ a ≤ b := by
  unfold start stop
  split <;> split <;> omega

/-- What the characters cover that are put in. -/
def inserted : Span := ⟨i.place, i.place + i.length⟩

/-- Whether something lies around the characters that are put in. -/
def around (s : Span) : Bool := s.start < i.place && i.place + i.length < s.stop

theorem around_span {s : Span} : i.around (i.span s) = true ↔ i.Parts s := by
  have hstart : i.start s.start < i.place ↔ s.start < i.place := by
    unfold start
    split <;> omega
  have hstop : i.place + i.length < i.stop s.stop ↔ i.place < s.stop := by
    unfold stop
    split <;> omega
  rw [around, Bool.and_eq_true, decide_eq_true_iff, decide_eq_true_iff]
  exact and_congr hstart hstop

/-- Nothing that was there starts where the characters are put in. -/
theorem span_ne_inserted (s : Span) : i.span s ≠ i.inserted := by
  intro heq
  have hlength := i.length_pos
  have hstart : i.start s.start = i.place := congrArg Span.start heq
  unfold start at hstart
  split at hstart <;> omega

end Insertion

namespace Node

mutual

/-- A node with the places that it and all below it have after an insertion. -/
def moved (i : Insertion) : Node → Node
  | mk kind role span text children => mk kind role (i.span span) text (movedAll i children)

def movedAll (i : Insertion) : List Node → List Node
  | [] => []
  | c :: rest => moved i c :: movedAll i rest

end

variable {i : Insertion}

theorem movedAll_eq_map (ns : List Node) : movedAll i ns = ns.map (moved i) := by
  induction ns with
  | nil => rfl
  | cons n rest ih => rw [movedAll, ih, List.map_cons]

theorem moved_as (n : Node) (role : Role) : (n.as role).moved i = (n.moved i).as role := by
  cases n
  rfl

@[simp] theorem kind_moved (n : Node) : (n.moved i).kind = n.kind := by
  cases n
  rfl

@[simp] theorem span_moved (n : Node) : (n.moved i).span = i.span n.span := by
  cases n
  rfl

theorem moved_branch (kind : NodeKind) (ns : List Node) :
    (branch kind ns).moved i = branch kind (ns.map (moved i)) := by
  have hstart (o : Option Node) :
      i.start ((o.map start).getD 0) = ((o.map (moved i)).map start).getD 0 := by
    cases o with
    | none => exact i.start_zero
    | some n => exact (congrArg Span.start (span_moved n)).symm
  have hstop (o : Option Node) :
      i.stop ((o.map stop).getD 0) = ((o.map (moved i)).map stop).getD 0 := by
    cases o with
    | none => exact i.stop_zero
    | some n => exact (congrArg Span.stop (span_moved n)).symm
  simp only [branch, moved, movedAll_eq_map, Insertion.span, hstart, hstop, List.head?_map,
    List.getLast?_map]

end Node

end Renaming.Java
