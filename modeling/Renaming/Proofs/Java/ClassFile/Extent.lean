import Renaming.Proofs.Java.ClassFile.Positions
import Renaming.Proofs.Java.ClassFile.Reading

/-!
# Where a class file ends

A reader that succeeds has looked at the octets that it takes and at no others: whatever follows
them, it gives the same value, and if some of them are missing, the file is truncated at a place
that it has. So every class file has an end of its own, and is truncated wherever it is cut before
that.
-/

namespace Renaming.Java.ClassFile

/-- The reader gives the value for these octets, whatever follows them, and for none of their
beginnings. -/
structure Takes {α : Type} (read : ByteReader α) (octets : Bytes) (a : α) : Prop where
  reads : Reads read octets a
  truncated : ∀ (offset : Nat) {m : Nat}, m < octets.length →
    ∃ position ≤ offset + m, read ⟨offset, octets.take m⟩ = .error (.truncated position)

/-- Where the reader succeeds, the octets in front of those that it leaves are what it takes. -/
def Exact {α : Type} (read : ByteReader α) : Prop :=
  ∀ offset octets a c, read ⟨offset, octets⟩ = .ok (a, c) →
    ∃ used, octets = used ++ c.rest ∧ Takes read used a

namespace Takes

variable {α β : Type} {read : ByteReader α} {front back : Bytes} {a : α} {b : β}

theorem pure (a : α) : Takes (Pure.pure a) [] a where
  reads := .pure a
  truncated _ _ h := absurd h (Nat.not_lt_zero _)

theorem bind {next : α → ByteReader β} (h : Takes read front a) (hnext : Takes (next a) back b) :
    Takes (read >>= next) (front ++ back) b where
  reads := h.reads.bind hnext.reads
  truncated := by
    intro offset m hm
    by_cases hfront : m < front.length
    · -- the first reader does not get all of its octets
      obtain ⟨position, hposition, hread⟩ := h.truncated offset hfront
      refine ⟨position, hposition, ?_⟩
      rw [List.take_append_of_le_length (Nat.le_of_lt hfront)]
      show (read _).bind _ = _
      rw [hread]
      rfl
    · have hback : m - front.length < back.length := by
        rw [List.length_append] at hm
        omega
      obtain ⟨position, hposition, hread⟩ :=
        hnext.truncated (offset + front.length) hback
      refine ⟨position, by omega, ?_⟩
      rw [List.take_append, List.take_of_length_le (Nat.le_of_not_lt hfront)]
      show (read _).bind _ = _
      rw [h.reads]
      exact hread

theorem take {n : Nat} {octets : Bytes} (h : octets.length = n) :
    Takes (ByteReader.take n) octets octets where
  reads := h ▸ .take octets
  truncated := by
    intro offset m hm
    refine ⟨offset, Nat.le_add_right offset m, if_neg ?_⟩
    rw [List.length_take, List.length_take]
    omega

end Takes

namespace Exact

variable {α β : Type} {read : ByteReader α}

theorem pure (a : α) : Exact (Pure.pure a : ByteReader α) := by
  intro offset octets b c h
  cases h
  exact ⟨[], rfl, .pure a⟩

theorem fail (e : ReadError) : Exact (ByteReader.fail e : ByteReader α) := by
  intro offset octets a c h
  cases h

theorem lift (e : Except ReadError α) : Exact (ByteReader.lift e) := by
  cases e with
  | ok a => exact pure a
  | error e => exact fail e

theorem bind {next : α → ByteReader β} (h : Exact read) (hnext : ∀ a, Exact (next a)) :
    Exact (read >>= next) := by
  intro offset octets b c hread
  change (read ⟨offset, octets⟩).bind _ = _ at hread
  cases hfirst : read ⟨offset, octets⟩ with
  | error e =>
    rw [hfirst] at hread
    cases hread
  | ok found =>
    obtain ⟨a, reached⟩ := found
    rw [hfirst] at hread
    obtain ⟨front, hfront, htakes⟩ := h _ _ _ _ hfirst
    obtain ⟨back, hback, hthen⟩ := hnext a _ _ _ _ hread
    exact ⟨front ++ back, by rw [hfront, hback, List.append_assoc], htakes.bind hthen⟩

theorem take (n : Nat) : Exact (ByteReader.take n) := by
  intro offset octets a c h
  unfold ByteReader.take at h
  dsimp only at h
  split at h
  · rename_i hlength
    cases h
    exact ⟨octets.take n, (List.take_append_drop n octets).symm, .take hlength⟩
  · cases h

theorem number (n : Nat) : Exact (ByteReader.number n) := (take n).bind fun _ => pure _

theorem times (h : Exact read) (n : Nat) : Exact (ByteReader.times read n) := by
  induction n with
  | zero => exact pure []
  | succ n ih => exact h.bind fun a => ih.bind fun as => pure (a :: as)

theorem counted (h : Exact read) : Exact (ByteReader.counted read) := (number 2).bind h.times

end Exact

/-! ## The parts of a class file -/

theorem exact_constant (index : Nat) : Exact (readConstant index) := by
  refine (Exact.number 1).bind fun tag => ?_
  split
  · exact (Exact.number 2).bind fun n => (Exact.take n).bind fun _ => .pure _
  · exact (Exact.number 2).bind fun _ => .pure _
  · split
    · exact (Exact.take _).bind fun _ => .pure _
    · exact .fail _

theorem exact_constants (slots index : Nat) : Exact (readConstants slots index) := by
  induction slots, index using readConstants.induct with
  | case1 => exact .pure _
  | case2 index => exact (exact_constant index).bind fun _ => .pure _
  | case3 slots index hwide hnarrow =>
    refine (exact_constant index).bind fun c => ?_
    split
    · exact hwide.bind fun _ => .pure _
    · exact hnarrow.bind fun _ => .pure _

theorem exact_pool : Exact readPool := (Exact.number 2).bind fun _ => exact_constants _ 1

section Pool

variable (pool : ConstantPool)

theorem exact_text : Exact (readText pool) := (Exact.number 2).bind fun _ => .lift _

theorem exact_className : Exact (readClassName pool) := (Exact.number 2).bind fun _ => .lift _

theorem exact_nesting : Exact (readNesting pool) :=
  (exact_className pool).bind fun _ =>
    (Exact.number 2).bind fun _ => (Exact.lift _).bind fun _ =>
      (Exact.number 2).bind fun _ => (Exact.lift _).bind fun _ =>
        (Exact.number 2).bind fun _ => .pure _

theorem exact_signature :
    Exact (readText pool >>= fun text => pure (Attribute.signature text)) :=
  (exact_text pool).bind fun _ => .pure _

theorem exact_skip (length : Nat) :
    Exact (ByteReader.take length >>= fun _ => pure Attribute.skipped) :=
  (Exact.take length).bind fun _ => .pure _

theorem exact_memberAttribute : Exact (readMemberAttribute pool) := by
  refine (exact_text pool).bind fun name => (Exact.number 4).bind fun length => ?_
  split
  · exact exact_signature pool
  · exact exact_skip length

theorem exact_classAttribute : Exact (readClassAttribute pool) := by
  refine (exact_text pool).bind fun name => (Exact.number 4).bind fun length => ?_
  split
  · exact exact_signature pool
  · split
    · exact (exact_nesting pool).counted.bind fun _ => .pure _
    · exact exact_skip length

theorem exact_member : Exact (readMember pool) :=
  (Exact.number 2).bind fun _ => (exact_text pool).bind fun _ => (exact_text pool).bind fun _ =>
    (exact_memberAttribute pool).counted.bind fun _ => .pure _

end Pool

theorem exact_class : Exact readClass := by
  refine (Exact.number 4).bind fun word => ?_
  split
  · exact .fail _
  · exact (Exact.number 2).bind fun _ => (Exact.number 2).bind fun _ => exact_pool.bind fun pool =>
      (Exact.number 2).bind fun _ => (exact_className pool).bind fun _ =>
        (Exact.number 2).bind fun _ => (Exact.lift _).bind fun _ =>
          (exact_className pool).counted.bind fun _ =>
            (exact_member pool).counted.bind fun _ => (exact_member pool).counted.bind fun _ =>
              (exact_classAttribute pool).counted.bind fun _ => .pure _

/-! ## Whole files -/

theorem parse_eq_ok_iff {octets : Bytes} {c : ClassFile} :
    parse octets = .ok c ↔ ∃ cursor, readClass ⟨0, octets⟩ = .ok (c, cursor) := by
  change (readClass ⟨0, octets⟩).map _ = _ ↔ _
  cases readClass ⟨0, octets⟩ with
  | error e => simp [Except.map]
  | ok found => simp [Except.map, Prod.ext_iff]

theorem parse_of_error {octets : Bytes} {e : ReadError} (h : readClass ⟨0, octets⟩ = .error e) :
    parse octets = .error e := by
  show (readClass _).map _ = _
  rw [h]
  rfl

/-- A class file has an end: it is read no further, whatever follows, and is truncated at a place
that it has where it is cut before that. Reading by position gives the same class or the same error
for all octets; it never looks at octets behind the end or enters a constant outside of the table. -/
theorem parse_exact_and_in_bounds (octets : Bytes) :
    (∀ c, parse octets = .ok c → ∃ n ≤ octets.length,
      (∀ rest, parse (octets.take n ++ rest) = .ok c) ∧
      ∀ m < n, ∃ offset ≤ m, parse (octets.take m) = .error (.truncated offset)) ∧
    parseAt octets = (parse octets).mapError .file := by
  refine ⟨fun c hc => ?_, parseAt_eq octets⟩
  obtain ⟨cursor, hread⟩ := parse_eq_ok_iff.1 hc
  obtain ⟨used, rfl, htakes⟩ := exact_class _ _ _ _ hread
  refine ⟨used.length, by simp, fun rest => ?_, fun m hm => ?_⟩
  · rw [List.take_left]
    exact parse_eq_ok_iff.2 ⟨_, htakes.reads 0 rest⟩
  · obtain ⟨position, hposition, htruncated⟩ := htakes.truncated 0 hm
    refine ⟨position, by omega, ?_⟩
    rw [List.take_append_of_le_length (Nat.le_of_lt hm)]
    exact parse_of_error htruncated

/-- A class whose name comes after a constant that takes two slots, with octets behind its end. -/
def trailedClass : Bytes :=
  bigEndian 4 magic ++ bigEndian 2 0 ++ bigEndian 2 52 ++ bigEndian 2 5 ++
    [5, 0, 0, 0, 0, 0, 0, 0, 42] ++ [1, 0, 1, 65] ++ [7, 0, 3] ++
    bigEndian 2 0x21 ++ bigEndian 2 4 ++ [0, 0, 0, 0, 0, 0, 0, 0, 0, 0] ++ [0xCA, 0xFE]

theorem parse_exact_and_in_bounds_trailedClass :
    parse trailedClass = .ok ⟨0x21, "A", none, [], [], [], [], none⟩ ∧
      ∃ n ≤ trailedClass.length,
        (∀ rest, parse (trailedClass.take n ++ rest) =
          .ok ⟨0x21, "A", none, [], [], [], [], none⟩) ∧
        ∀ m < n, ∃ offset ≤ m, parse (trailedClass.take m) = .error (.truncated offset) := by
  have hparse : parse trailedClass = .ok ⟨0x21, "A", none, [], [], [], [], none⟩ := by
    decide +kernel
  exact ⟨hparse, (parse_exact_and_in_bounds trailedClass).1 _ hparse⟩

end Renaming.Java.ClassFile
