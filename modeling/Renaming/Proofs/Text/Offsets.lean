import Renaming.Occurrence
import Renaming.Proofs.Octets
import Renaming.Splice
import Renaming.Splice.Octets
import Renaming.Text.Offsets

/-!
# Character offsets as byte offsets

The byte offset of a character offset is the number of octets before it. Between the byte offsets of
two boundaries lie the octets of the characters between them, so that a slice of octets there is
the slice of characters. A byte offset leads back to the character that holds it, by a search in the
list of boundaries.
-/

namespace Renaming

/-- What a span covers and what comes after it make up what comes from its start on. -/
theorem Span.slice_append_drop {first last : Nat} (h : first ≤ last) (text : List Char) :
    (⟨first, last⟩ : Span).slice text ++ text.drop last = text.drop first := by
  have hdrop : text.drop last = (text.drop first).drop (last - first) := by
    rw [List.drop_drop, Nat.add_sub_cancel' h]
  rw [hdrop]
  exact List.take_append_drop _ _

namespace Text

/-- The number of octets of the first characters of a text. -/
def octetsBefore (s : String) (char : Nat) : Nat :=
  ((s.toList.take char).flatMap String.utf8EncodeChar).length

theorem getElem?_boundariesFrom (start : Nat) (cs : List Char) (char : Nat) :
    (boundariesFrom start cs)[char]? =
      if char ≤ cs.length then
        some (start + ((cs.take char).flatMap String.utf8EncodeChar).length)
      else none := by
  induction cs generalizing start char with
  | nil => cases char <;> simp [boundariesFrom]
  | cons c rest ih =>
    cases char with
    | zero => simp [boundariesFrom]
    | succ char =>
      simp only [boundariesFrom, List.getElem?_cons_succ, ih, List.length_cons,
        Nat.add_le_add_iff_right, List.take_succ_cons, List.flatMap_cons, List.length_append,
        String.length_utf8EncodeChar, Nat.add_assoc]

theorem length_boundariesFrom (start : Nat) (cs : List Char) :
    (boundariesFrom start cs).length = cs.length + 1 := by
  induction cs generalizing start with
  | nil => rfl
  | cons c rest ih => rw [boundariesFrom, List.length_cons, ih, List.length_cons]

@[simp] theorem charCount_eq (s : String) : charCount s = s.toList.length := by
  rw [charCount, boundaries, length_boundariesFrom, Nat.add_sub_cancel]

theorem byteOf_eq (s : String) (char : Nat) :
    byteOf s char = if char ≤ s.toList.length then some (octetsBefore s char) else none := by
  rw [byteOf, boundaries, getElem?_boundariesFrom, Nat.zero_add, octetsBefore]

theorem octetsBefore_mem_boundaries {s : String} {char : Nat} (h : char ≤ s.toList.length) :
    octetsBefore s char ∈ boundaries s := by
  apply List.mem_of_getElem? (i := char)
  change byteOf s char = _
  rw [byteOf_eq, if_pos h]

@[simp] theorem octetsBefore_zero (s : String) : octetsBefore s 0 = 0 := by
  simp [octetsBefore]

theorem octetsBefore_length (s : String) :
    octetsBefore s s.toList.length = (Bytes.ofText s).length := by
  rw [octetsBefore, List.take_length, Bytes.ofText_eq_flatMap]

/-- The octets up to a boundary are those up to an earlier one and those between the two. -/
theorem octetsBefore_add (s : String) {first last : Nat} (h : first ≤ last) :
    octetsBefore s last = octetsBefore s first +
      (((⟨first, last⟩ : Span).slice s.toList).flatMap String.utf8EncodeChar).length := by
  have hcut : s.toList.take last =
      s.toList.take first ++ (⟨first, last⟩ : Span).slice s.toList := by
    rw [Span.slice, Span.length, ← List.take_add, Nat.add_sub_cancel' h]
  rw [octetsBefore, hcut, List.flatMap_append, List.length_append, octetsBefore]

/-- The octets between two boundaries are those of the characters between them. -/
theorem take_drop_ofText {s : String} {first last : Nat} (h : first ≤ last) :
    ((Bytes.ofText s).drop (octetsBefore s first)).take
        (octetsBefore s last - octetsBefore s first) =
      Bytes.ofText (String.ofList ((⟨first, last⟩ : Span).slice s.toList)) := by
  let middle := (⟨first, last⟩ : Span).slice s.toList
  have hoctets : Bytes.ofText s = (s.toList.take first).flatMap String.utf8EncodeChar ++
      (middle.flatMap String.utf8EncodeChar ++
        (s.toList.drop last).flatMap String.utf8EncodeChar) := by
    have hcut : s.toList.take first ++ (middle ++ s.toList.drop last) = s.toList := by
      rw [Span.slice_append_drop h, List.take_append_drop]
    rw [Bytes.ofText_eq_flatMap, ← List.flatMap_append, ← List.flatMap_append, hcut]
  rw [octetsBefore_add s h, Nat.add_sub_cancel_left, hoctets, octetsBefore, List.drop_left,
    List.take_left, Bytes.ofText_eq_flatMap, String.toList_ofList]

/-- Between two boundaries the slice of octets is there, and it is the slice of characters. -/
theorem octetSlice?_eq {s : String} {first last : Nat} (h : first ≤ last)
    (hlast : last ≤ s.toList.length) :
    octetSlice? s (octetsBefore s first) (octetsBefore s last) =
      some (String.ofList ((⟨first, last⟩ : Span).slice s.toList)) := by
  have hmarks : (octetsBefore s first ≤ octetsBefore s last ∧
      octetsBefore s first ∈ boundaries s) ∧ octetsBefore s last ∈ boundaries s :=
    ⟨⟨octetsBefore_add s h ▸ Nat.le_add_right _ _,
      octetsBefore_mem_boundaries (Nat.le_trans h hlast)⟩, octetsBefore_mem_boundaries hlast⟩
  rw [octetSlice?, if_pos (by simpa using hmarks), take_drop_ofText h, Bytes.text?_ofText]

/-- Every character takes an octet at least. -/
theorem octetsBefore_lt {s : String} {first last : Nat} (h : first < last)
    (hlast : last ≤ s.toList.length) : octetsBefore s first < octetsBefore s last := by
  have hlength : ((⟨first, last⟩ : Span).slice s.toList).length = last - first := by
    simp only [Span.slice, Span.length, List.length_take, List.length_drop]
    omega
  have hoctets : ((⟨first, last⟩ : Span).slice s.toList).length ≤
      (((⟨first, last⟩ : Span).slice s.toList).flatMap String.utf8EncodeChar).length :=
    length_le_length_flatMap fun c _ => Bytes.utf8EncodeChar_ne_nil c
  rw [octetsBefore_add s h.le]
  omega

theorem octetsBefore_le {s : String} {first last : Nat} (h : first ≤ last)
    (hlast : last ≤ s.toList.length) : octetsBefore s first ≤ octetsBefore s last := by
  rcases h.eq_or_lt with rfl | h
  · exact le_rfl
  · exact (octetsBefore_lt h hlast).le

/-! ## Searching by halving -/

section Search

variable {entries : List Nat} {value base size : Nat}

/-- What a search promises of the place that it gives: the value stands there, or it stands nowhere,
what is before the place is smaller and what comes from there on is greater. -/
def Place.Fits (entries : List Nat) (value : Nat) : Place → Prop
  | .found index => entries[index]? = some value
  | .missing index => index ≤ entries.length ∧
    (∀ i entry, i < index → entries[i]? = some entry → entry < value) ∧
      ∀ i entry, index ≤ i → entries[i]? = some entry → value < entry

/-- The part of a list to which a search has come down: nothing behind it is within the value, and
its first entry is within it unless it is the first one of all. -/
structure Narrowed (entries : List Nat) (value base size : Nat) : Prop where
  nonempty : 0 < size
  inside : base + size ≤ entries.length
  low : base = 0 ∨ ∃ entry, entries[base]? = some entry ∧ entry ≤ value
  high : ∀ i entry, base + size ≤ i → entries[i]? = some entry → value < entry

theorem lt_of_getElem?_lt (hsorted : entries.Pairwise (· < ·)) {i j a b : Nat} (hij : i < j)
    (ha : entries[i]? = some a) (hb : entries[j]? = some b) : a < b := by
  obtain ⟨hi, rfl⟩ := List.getElem?_eq_some_iff.1 ha
  obtain ⟨hj, rfl⟩ := List.getElem?_eq_some_iff.1 hb
  exact List.pairwise_iff_getElem.1 hsorted i j hi hj hij

theorem Narrowed.narrow (hsorted : entries.Pairwise (· < ·))
    (h : Narrowed entries value base size) :
    Narrowed entries value (narrow entries value base size) 1 := by
  induction size using Nat.strong_induction_on generalizing base with
  | h size ih =>
    obtain ⟨hsize, hinside, hlow, hhigh⟩ := h
    rw [Text.narrow]
    by_cases hone : size ≤ 1
    · rw [if_pos hone]
      obtain rfl : size = 1 := by omega
      exact ⟨hsize, hinside, hlow, hhigh⟩
    rw [if_neg hone]
    have hmiddle : base + size / 2 < entries.length := by omega
    obtain ⟨entry, hentry⟩ : ∃ entry, entries[base + size / 2]? = some entry :=
      ⟨_, List.getElem?_eq_getElem hmiddle⟩
    dsimp only
    rw [hentry]
    by_cases hbeyond : value < entry
    · rw [if_pos (by simpa using hbeyond)]
      refine ih _ (by omega) ⟨by omega, by omega, hlow, fun i b hi hb => ?_⟩
      -- the part that is left ends at the middle or right behind it
      rcases Nat.eq_or_lt_of_le (show base + size / 2 ≤ i by omega) with rfl | hi
      · rw [hentry] at hb
        cases hb
        exact hbeyond
      · exact hbeyond.trans (lt_of_getElem?_lt hsorted hi hentry hb)
    · rw [if_neg (by simpa using hbeyond)]
      exact ih _ (by omega) ⟨by omega, by omega, .inr ⟨entry, hentry, not_lt.1 hbeyond⟩,
        fun i b hi hb => hhigh i b (by omega) hb⟩

/-- A search by halving keeps what a search promises. -/
theorem fits_search (hsorted : entries.Pairwise (· < ·)) (value : Nat) :
    (search entries value).Fits entries value := by
  rw [search]
  by_cases hempty : entries.length = 0
  · obtain rfl := List.eq_nil_of_length_eq_zero hempty
    simp [Place.Fits, narrow]
  have hwhole : Narrowed entries value 0 entries.length :=
    ⟨by omega, by omega, .inl rfl, fun i b hi hb => by
      rw [List.getElem?_eq_none (by omega)] at hb
      cases hb⟩
  obtain ⟨-, hinside, hlow, hhigh⟩ := hwhole.narrow hsorted
  generalize narrow entries value 0 entries.length = base at hinside hlow hhigh
  obtain ⟨entry, hentry⟩ : ∃ entry, entries[base]? = some entry :=
    ⟨_, List.getElem?_eq_getElem hinside⟩
  rw [hentry]
  dsimp only
  by_cases heq : entry = value
  · rw [if_pos heq]
    exact heq ▸ hentry
  rw [if_neg heq]
  by_cases hsmaller : entry < value
  · rw [if_pos hsmaller]
    refine ⟨hinside, fun i b hi hb => ?_, fun i b hi hb => hhigh i b hi hb⟩
    rcases Nat.eq_or_lt_of_le (Nat.le_of_lt_succ hi) with rfl | hi
    · rw [hentry] at hb
      cases hb
      exact hsmaller
    · exact (lt_of_getElem?_lt hsorted hi hb hentry).trans hsmaller
  · -- an entry beyond the value can only be the first one of all
    obtain rfl : base = 0 := by
      refine hlow.resolve_right ?_
      rintro ⟨b, hb, hle⟩
      rw [hentry] at hb
      cases hb
      omega
    rw [if_neg hsmaller]
    refine ⟨Nat.zero_le _, fun i b hi => by omega, fun i b _ hb => ?_⟩
    rcases Nat.eq_zero_or_pos i with rfl | hi
    · rw [hentry] at hb
      cases hb
      omega
    · exact hhigh i b hi hb

end Search

/-! ## Characters at byte offsets -/

theorem pairwise_boundaries (s : String) : (boundaries s).Pairwise (· < ·) := by
  rw [List.pairwise_iff_getElem]
  intro i j hi hj hij
  have hlast : j ≤ s.toList.length := by
    rw [boundaries, length_boundariesFrom] at hj
    omega
  have hfirst := byteOf_eq s i
  have hsecond := byteOf_eq s j
  rw [byteOf, List.getElem?_eq_getElem hi, if_pos (by omega), Option.some_inj] at hfirst
  rw [byteOf, List.getElem?_eq_getElem hj, if_pos hlast, Option.some_inj] at hsecond
  rw [hfirst, hsecond]
  exact octetsBefore_lt hij hlast

/-- The character at a byte offset starts there or before, and the next one starts after it. -/
theorem octetsBefore_charOf (s : String) (offset : Nat) :
    charOf s offset ≤ s.toList.length ∧ octetsBefore s (charOf s offset) ≤ offset ∧
      (charOf s offset < s.toList.length → offset < octetsBefore s (charOf s offset + 1)) := by
  have hboundary : ∀ {i}, i ≤ s.toList.length → (boundaries s)[i]? = some (octetsBefore s i) := by
    intro i hi
    exact (byteOf_eq s i).trans (if_pos hi)
  have hfits := fits_search (pairwise_boundaries s) offset
  rw [charOf]
  cases hplace : search (boundaries s) offset with
  | found i =>
    rw [hplace, Place.Fits, ← byteOf, byteOf_eq, Option.ite_none_right_eq_some,
      Option.some_inj] at hfits
    obtain ⟨hi, rfl⟩ := hfits
    exact ⟨hi, le_rfl, fun hlt => octetsBefore_lt (Nat.lt_succ_self i) hlt⟩
  | missing i =>
    rw [hplace] at hfits
    obtain ⟨hinside, hbefore, hbehind⟩ := hfits
    rw [boundaries, length_boundariesFrom] at hinside
    -- the first boundary is within every offset, so that the place is behind it
    have hpos : 0 < i := by
      by_contra hzero
      have hfirst := hbehind 0 _ (by omega) (hboundary (Nat.zero_le _))
      rw [octetsBefore_zero] at hfirst
      omega
    have hle : i - 1 ≤ s.toList.length := by omega
    refine ⟨hle, (hbefore (i - 1) _ (by omega) (hboundary hle)).le, fun hlt => ?_⟩
    exact hbehind (i - 1 + 1) _ (by omega) (hboundary hlt)

/-- A boundary leads back to the character behind it. -/
theorem charOf_octetsBefore {s : String} {c : Nat} (h : c ≤ s.toList.length) :
    charOf s (octetsBefore s c) = c := by
  obtain ⟨hle, hfirst, hnext⟩ := octetsBefore_charOf s (octetsBefore s c)
  rcases Nat.lt_trichotomy (charOf s (octetsBefore s c)) c with hless | heq | hgreater
  · have hbehind : octetsBefore s (charOf s (octetsBefore s c) + 1) ≤ octetsBefore s c :=
      octetsBefore_le hless h
    have := hnext (Nat.lt_of_lt_of_le hless h)
    omega
  · exact heq
  · have := octetsBefore_lt hgreater hle
    omega

/-- Character offsets and byte offsets lead to each other. Exactly the character offsets up to the
number of characters have a byte offset, later ones a greater one, from the start of the octets to
their end, and the octets between two of them are those of the characters between. A boundary leads
back to the character behind it, an offset within a character to that character, and one past the
end to the number of characters. -/
theorem offsets_converted_faithfully (s : String) :
    charCount s = s.toList.length ∧
    (∀ c, (byteOf s c).isSome = true ↔ c ≤ charCount s) ∧
    (∀ c d first last, c < d → byteOf s c = some first → byteOf s d = some last → first < last) ∧
    byteOf s 0 = some 0 ∧ byteOf s (charCount s) = some (Bytes.ofText s).length ∧
    (∀ c d first last, c ≤ d → byteOf s c = some first → byteOf s d = some last →
      ((Bytes.ofText s).drop first).take (last - first) =
        Bytes.ofText (String.ofList ((s.toList.drop c).take (d - c)))) ∧
    (∀ c, c ≤ charCount s → ∃ b, byteOf s c = some b ∧ charOf s b = c) ∧
    (∀ b, b ≤ (Bytes.ofText s).length → ∃ first, byteOf s (charOf s b) = some first ∧ first ≤ b ∧
      (charOf s b < charCount s → ∃ next, byteOf s (charOf s b + 1) = some next ∧ b < next)) ∧
    (∀ b, (Bytes.ofText s).length < b → charOf s b = charCount s) := by
  have hsome : ∀ {c b}, byteOf s c = some b → c ≤ s.toList.length ∧ octetsBefore s c = b := by
    intro c b h
    rwa [byteOf_eq, Option.ite_none_right_eq_some, Option.some_inj] at h
  rw [charCount_eq]
  refine ⟨rfl, fun c => ?_, fun c d first last hcd hfirst hlast => ?_, ?_, ?_,
    fun c d first last hcd hfirst hlast => ?_, fun c hc => ?_, fun b _ => ?_, fun b hb => ?_⟩
  · rw [byteOf_eq]
    split <;> simp_all
  · obtain ⟨-, rfl⟩ := hsome hfirst
    obtain ⟨hd, rfl⟩ := hsome hlast
    exact octetsBefore_lt hcd hd
  · rw [byteOf_eq, if_pos (Nat.zero_le _), octetsBefore_zero]
  · rw [byteOf_eq, if_pos le_rfl, octetsBefore_length]
  · obtain ⟨-, rfl⟩ := hsome hfirst
    obtain ⟨-, rfl⟩ := hsome hlast
    exact take_drop_ofText hcd
  · exact ⟨octetsBefore s c, by rw [byteOf_eq, if_pos hc], charOf_octetsBefore hc⟩
  · obtain ⟨hle, hfirst, hnext⟩ := octetsBefore_charOf s b
    refine ⟨_, by rw [byteOf_eq, if_pos hle], hfirst, fun hlt => ?_⟩
    exact ⟨_, by rw [byteOf_eq, if_pos (Nat.succ_le_of_lt hlt)], hnext hlt⟩
  · obtain ⟨hle, -, hnext⟩ := octetsBefore_charOf s b
    refine hle.eq_of_not_lt fun hlt => ?_
    have hend : octetsBefore s (charOf s b + 1) ≤ octetsBefore s s.toList.length :=
      octetsBefore_le hlt le_rfl
    rw [octetsBefore_length] at hend
    have := hnext hlt
    omega

/-- Characters of every width: the two in the middle take the octets from 2 to 9. -/
theorem offsets_converted_faithfully_widths :
    ((Bytes.ofText "é€𝄞x").drop 2).take 7 = Bytes.ofText "€𝄞" ∧
      charOf "é€𝄞x" 9 = 3 ∧ charOf "é€𝄞x" 11 = 4 := by
  obtain ⟨-, -, -, -, -, hslice, hchar, -, hpast⟩ := offsets_converted_faithfully "é€𝄞x"
  have hfirst : byteOf "é€𝄞x" 1 = some 2 := by decide +kernel
  have hlast : byteOf "é€𝄞x" 3 = some 9 := by decide +kernel
  have hlength : charCount "é€𝄞x" = 4 := by decide +kernel
  refine ⟨?_, ?_, ?_⟩
  · rw [hslice 1 3 2 9 (by decide) hfirst hlast]
    decide +kernel
  · obtain ⟨b, hb, hc⟩ := hchar 3 (by rw [hlength]; decide)
    rw [hlast] at hb
    cases hb
    exact hc
  · rw [hpast 11 (by decide +kernel), hlength]

end Text

end Renaming
