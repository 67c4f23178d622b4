import Mathlib.Data.List.Basic
import Renaming.Java.ClassFile.Positions

/-!
# Positions stay in the file

Reading by position and reading off the front of a list of octets are the same: at each position a
reader of the one kind does what the reader of the other kind does with the octets from there on. So
no reader by position looks at octets that are not in the file, and no constant is entered outside
of the table.
-/

namespace Renaming.Java.ClassFile

/-- The two outcomes of a reader are the same: a value with a position in the file and the octets
from there on, or an error of the file. -/
inductive SameOutcome {α : Type} (octets : Bytes) :
    Except ReadFault (α × Nat) → Except ReadError (α × Cursor) → Prop
  | ok {a : α} {position : Nat} {rest : Bytes} (hposition : position ≤ octets.length)
      (hrest : rest = octets.drop position) :
      SameOutcome octets (.ok (a, position)) (.ok (a, ⟨position, rest⟩))
  | error (e : ReadError) : SameOutcome octets (.error (.file e)) (.error e)

/-- A reader by position does what a reader of octets does from every position in a file. -/
def Follows {α : Type} (low : PositionReader α) (high : ByteReader α) : Prop :=
  ∀ octets position, position ≤ octets.length →
    SameOutcome octets (low octets position) (high ⟨position, octets.drop position⟩)

namespace Follows

variable {α β : Type} {low : PositionReader α} {high : ByteReader α}

theorem pure (a : α) : Follows (Pure.pure a) (Pure.pure a) := fun _ _ h => .ok h rfl

theorem fail (e : ReadError) : Follows (PositionReader.fail e : PositionReader α) (.fail e) :=
  fun _ _ _ => .error e

theorem lift (e : Except ReadError α) : Follows (.lift e) (.lift e) := by
  cases e with
  | ok a => exact pure a
  | error e => exact fail e

theorem bind {lowNext : α → PositionReader β} {highNext : α → ByteReader β}
    (h : Follows low high) (hnext : ∀ a, Follows (lowNext a) (highNext a)) :
    Follows (low >>= lowNext) (high >>= highNext) := by
  intro octets position hposition
  show SameOutcome octets ((low octets position).bind _)
    ((high ⟨position, octets.drop position⟩).bind _)
  have hfirst := h octets position hposition
  generalize low octets position = one, high ⟨position, octets.drop position⟩ = other at hfirst ⊢
  cases hfirst with
  | ok hreached hrest =>
    subst hrest
    exact hnext _ octets _ hreached
  | error e => exact .error e

/-- The two kinds may go on with values of which the one is made of the other. -/
theorem bind_of_map {γ : Type} {high : ByteReader γ} {f : γ → α}
    {lowNext : α → PositionReader β} {highNext : γ → ByteReader β}
    (h : Follows low (high >>= fun c => Pure.pure (f c)))
    (hnext : ∀ c, Follows (lowNext (f c)) (highNext c)) :
    Follows (low >>= lowNext) (high >>= highNext) := by
  intro octets position hposition
  have hfirst := h octets position hposition
  change SameOutcome octets _ ((high ⟨position, octets.drop position⟩).bind _) at hfirst
  show SameOutcome octets ((low octets position).bind _)
    ((high ⟨position, octets.drop position⟩).bind _)
  cases hhigh : high ⟨position, octets.drop position⟩ with
  | ok found =>
    obtain ⟨c, reached⟩ := found
    rw [hhigh] at hfirst
    generalize low octets position = one at hfirst ⊢
    cases hfirst with
    | ok hreached hrest =>
      subst hrest
      exact hnext c octets _ hreached
  | error e =>
    rw [hhigh] at hfirst
    generalize low octets position = one at hfirst ⊢
    cases hfirst
    exact .error e

/-- What the end is checked for is in the file. -/
theorem take (n : Nat) : Follows (.take n) (.take n) := by
  intro octets position hposition
  show SameOutcome octets
    ((if position + n ≤ octets.length then _ else _ : PositionReader Bytes) octets position)
    (if _ then _ else _)
  have htaken : ((octets.drop position).take n).length = n ↔ position + n ≤ octets.length := by
    rw [List.length_take, List.length_drop]
    omega
  by_cases hend : position + n ≤ octets.length
  · rw [if_pos hend, if_pos (htaken.2 hend)]
    have hslice : (PositionReader.slice octets position (position + n) : PositionReader Bytes) =
        Pure.pure ((octets.drop position).take n) := by
      simp [PositionReader.slice, hend]
    rw [hslice]
    exact .ok hend List.drop_drop
  · rw [if_neg hend, if_neg fun h => hend (htaken.1 h)]
    exact .error _

theorem times (h : Follows low high) (n : Nat) : Follows (.times low n) (.times high n) := by
  induction n with
  | zero => exact pure []
  | succ n ih => exact h.bind fun a => ih.bind fun as => pure (a :: as)

end Follows

namespace PositionReader

/-- The octets of a number are all among those that were taken for it. -/
theorem foldlM_octetAt (octets front : Bytes) (value : Nat) :
    ((List.range' front.length octets.length).foldlM (fun value i => do
        let octet ← octetAt (front ++ octets) i
        pure (value * 256 + octet.toNat)) value : PositionReader Nat) =
      pure (octets.foldl (fun value b => value * 256 + b.toNat) value) := by
  induction octets generalizing front value with
  | nil => rfl
  | cons octet octets ih =>
    have hoctet : octetAt (front ++ octet :: octets) front.length = pure octet := by
      simp [octetAt]
    have hrest := ih (front ++ [octet]) (value * 256 + octet.toNat)
    rw [List.length_append, List.length_singleton, List.append_assoc] at hrest
    rw [List.length_cons, List.range'_succ, List.foldlM_cons, hoctet, List.foldl_cons]
    exact hrest

theorem follows_number (n : Nat) : Follows (number n) (.number n) := by
  intro octets position hposition
  show SameOutcome octets ((take n octets position).bind _)
    ((ByteReader.take n ⟨position, octets.drop position⟩).bind _)
  have htake := Follows.take n octets position hposition
  generalize take n octets position = low, hhigh : ByteReader.take n ⟨position, octets.drop position⟩
    = high at htake ⊢
  cases htake with
  | @ok taken reached rest hreached hrest =>
    have hlength : taken.length = n := by
      unfold ByteReader.take at hhigh
      dsimp only at hhigh
      split at hhigh
      · cases hhigh
        assumption
      · cases hhigh
    have hvalue := foldlM_octetAt taken [] 0
    rw [List.length_nil, List.nil_append, hlength, ← List.range_eq_range'] at hvalue
    show SameOutcome octets ((List.foldlM _ 0 (List.range n) : PositionReader Nat) octets reached) _
    rw [hvalue]
    exact .ok hreached hrest
  | error e => exact .error e

variable {α : Type}

theorem follows_counted {low : PositionReader α} {high : ByteReader α} (h : Follows low high) :
    Follows (counted low) (.counted high) :=
  (follows_number 2).bind h.times

/-! ## Constants -/

theorem follows_constant (index : Nat) : Follows (constant index) (readConstant index) := by
  unfold constant readConstant
  refine (follows_number 1).bind fun tag => ?_
  by_cases htext : tag = 1
  · subst htext
    exact (follows_number 2).bind fun n => (Follows.take n).bind fun _ => .pure _
  · by_cases hclass : tag = 7
    · subst hclass
      exact (follows_number 2).bind fun name => .pure _
    · simp only
      cases Constant.payloadSize? tag with
      | some size => exact (Follows.take size).bind fun _ => .pure _
      | none => exact .fail _

/-- The slots from `index` on are filled with the constants that are read off the octets, and the
slots before it stay. -/
theorem follows_fill (slots : Nat) (front : ConstantTable) :
    Follows (fill (front.length + slots) front.length (front ++ List.replicate slots .unused))
      (readConstants slots front.length >>= fun pool => pure (front ++ pool)) := by
  induction slots using Nat.strongRecOn generalizing front with
  | ind slots ih =>
    -- a constant goes into the first of the slots that are left
    have henter (slots : Nat) (c : Constant) :
        enter (front ++ List.replicate (slots + 1) .unused) front.length c =
          pure (front ++ [c] ++ List.replicate slots .unused) := by
      simp [enter, List.replicate_succ]
    match slots with
    | 0 =>
      rw [fill, if_neg (by omega)]
      exact (Follows.pure _)
    | 1 =>
      rw [fill, if_pos (by omega), readConstants, bind_assoc]
      refine (follows_constant _).bind fun c => ?_
      rw [henter, pure_bind, pure_bind]
      have hdone (index : Nat) (hindex : front.length + 1 ≤ index) :
          fill (front.length + 1) index (front ++ [c] ++ List.replicate 0 .unused) =
            pure (front ++ [c]) := by
        rw [fill, if_neg (by omega)]
        simp
      rw [hdone _ (by omega), hdone _ (by omega), ite_self]
      exact .pure _
    | slots + 2 =>
      rw [fill, if_pos (by omega), readConstants, bind_assoc]
      refine (follows_constant _).bind fun c => ?_
      rw [henter, pure_bind]
      split
      · have hrest := ih slots (by omega) (front ++ [c, .unused])
        simp only [List.length_append, List.length_cons, List.length_nil, List.append_assoc,
          List.cons_append, List.nil_append, Nat.zero_add] at hrest
        rw [bind_assoc]
        simpa [List.replicate_succ, Nat.add_assoc, Nat.add_comm 2] using hrest
      · have hrest := ih (slots + 1) (by omega) (front ++ [c])
        simp only [List.length_append, List.length_cons, List.length_nil, List.append_assoc,
          List.cons_append, List.nil_append, Nat.zero_add] at hrest
        rw [bind_assoc]
        simpa [Nat.add_assoc, Nat.add_comm 1] using hrest

/-- The table is the pool behind slot 0. -/
theorem follows_constantTable :
    Follows constantTable (readPool >>= fun pool => pure (.unused :: pool)) := by
  unfold constantTable readPool
  rw [bind_assoc]
  refine (follows_number 2).bind fun count => ?_
  have hfill := follows_fill (count - 1) [.unused]
  cases count with
  | zero =>
    rw [fill, if_neg (by omega)]
    exact .pure _
  | succ slots =>
    simpa [List.replicate_succ, Nat.add_comm 1] using hfill

/-! ## What follows the constants -/

section Table

variable (pool : ConstantPool)

theorem text_behind (i : Nat) : ConstantTable.text (.unused :: pool) i = pool.text i := by
  cases i <;> rfl

theorem className_behind (i : Nat) :
    ConstantTable.className (.unused :: pool) i = pool.className i := by
  cases i with
  | zero => rfl
  | succ i =>
    rw [ConstantTable.className, ConstantPool.className, List.getElem?_cons_succ,
      ConstantPool.slot?]
    cases pool[i]? with
    | none => rfl
    | some c =>
      cases c with
      | classAt name => exact congrArg (Except.map _) (text_behind pool name)
      | _ => rfl

theorem follows_text : Follows (text (.unused :: pool)) (readText pool) :=
  (follows_number 2).bind fun i => text_behind pool i ▸ .lift _

theorem follows_className : Follows (className (.unused :: pool)) (readClassName pool) :=
  (follows_number 2).bind fun i => className_behind pool i ▸ .lift _

theorem follows_className? (i : Nat) :
    Follows (lift (ConstantTable.className? (.unused :: pool) i))
      (ByteReader.lift (pool.className? i)) := by
  unfold ConstantTable.className? ConstantPool.className?
  rw [className_behind]
  exact .lift _

theorem follows_text? (i : Nat) :
    Follows (lift (ConstantTable.text? (.unused :: pool) i)) (ByteReader.lift (pool.text? i)) := by
  unfold ConstantTable.text? ConstantPool.text?
  rw [text_behind]
  exact .lift _

theorem follows_nesting : Follows (nesting (.unused :: pool)) (readNesting pool) :=
  (follows_className pool).bind fun _ =>
    (follows_number 2).bind fun outer => (follows_className? pool outer).bind fun _ =>
      (follows_number 2).bind fun simple => (follows_text? pool simple).bind fun _ =>
        (follows_number 2).bind fun _ => .pure _

theorem follows_skip (length : Nat) :
    Follows (take length >>= fun _ => pure Attribute.skipped)
      (ByteReader.take length >>= fun _ => pure Attribute.skipped) :=
  (Follows.take length).bind fun _ => .pure _

theorem follows_signature :
    Follows (text (.unused :: pool) >>= fun text => pure (Attribute.signature text))
      (readText pool >>= fun text => pure (Attribute.signature text)) :=
  (follows_text pool).bind fun _ => .pure _

theorem follows_memberAttribute :
    Follows (memberAttribute (.unused :: pool)) (readMemberAttribute pool) := by
  refine (follows_text pool).bind fun name => (follows_number 4).bind fun length => ?_
  split
  · exact follows_signature pool
  · exact follows_skip length

theorem follows_classAttribute :
    Follows (classAttribute (.unused :: pool)) (readClassAttribute pool) := by
  refine (follows_text pool).bind fun name => (follows_number 4).bind fun length => ?_
  split
  · exact follows_signature pool
  · split
    · exact (follows_counted (follows_nesting pool)).bind fun _ => .pure _
    · exact follows_skip length

theorem follows_member : Follows (member (.unused :: pool)) (readMember pool) :=
  (follows_number 2).bind fun _ => (follows_text pool).bind fun _ =>
    (follows_text pool).bind fun _ =>
      (follows_counted (follows_memberAttribute pool)).bind fun _ => .pure _

end Table

theorem follows_classFile : Follows classFile readClass := by
  unfold classFile readClass
  refine (follows_number 4).bind fun word => ?_
  split
  · exact .fail _
  · refine (follows_number 2).bind fun _ => (follows_number 2).bind fun _ =>
      follows_constantTable.bind_of_map fun pool => ?_
    exact (follows_number 2).bind fun _ => (follows_className pool).bind fun _ =>
      (follows_number 2).bind fun superclass => (follows_className? pool superclass).bind fun _ =>
        (follows_counted (follows_className pool)).bind fun _ =>
          (follows_counted (follows_member pool)).bind fun _ =>
            (follows_counted (follows_member pool)).bind fun _ =>
              (follows_counted (follows_classAttribute pool)).bind fun _ => .pure _

end PositionReader

/-- No reader by position looks beyond the file or outside of the table. -/
theorem parseAt_eq (octets : Bytes) : parseAt octets = (parse octets).mapError .file := by
  have hsame := PositionReader.follows_classFile octets 0 (Nat.zero_le _)
  rw [List.drop_zero] at hsame
  show (PositionReader.classFile octets 0).map _ = ((readClass ⟨0, octets⟩).map _).mapError _
  generalize PositionReader.classFile octets 0 = one, readClass ⟨0, octets⟩ = other at hsame ⊢
  cases hsame <;> rfl

end Renaming.Java.ClassFile
