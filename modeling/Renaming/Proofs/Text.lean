import Mathlib.Data.List.TakeWhile
import Renaming.Text

/-!
# Cutting and joining text

Fields that are joined are cut apart again, terminated lines are read back, and the decimal text of
an offset is read as that offset.
-/

namespace Renaming.Text

theorem fields_join (separator : String) (c : Char) (hsep : separator.toList = [c])
    {parts : List String} (hne : parts ≠ []) (hfree : ∀ p ∈ parts, c ∉ p.toList) :
    fields c (join separator parts) = parts := by
  have hfree' : ∀ l ∈ parts.map String.toList, c ∉ l := by
    intro l hl
    obtain ⟨p, hp, rfl⟩ := List.mem_map.1 hl
    exact hfree p hp
  rw [fields, join, String.toList_intercalate, hsep,
    List.splitOn_intercalate c hfree' (by simpa using hne), List.map_map]
  simp [Function.comp_def]

/-- Pieces that are not empty are no more than what they are made of. -/
theorem length_le_length_flatMap {α β : Type} {f : α → List β} {as : List α}
    (h : ∀ a ∈ as, f a ≠ []) : as.length ≤ (as.flatMap f).length := by
  induction as with
  | nil => exact Nat.le_refl 0
  | cons a later ih =>
    have hpos := List.length_pos_iff.2 (h a List.mem_cons_self)
    have hlater := ih fun b hb => h b (List.mem_cons_of_mem a hb)
    rw [List.flatMap_cons, List.length_append, List.length_cons]
    omega

theorem length_le_length_flatten {pieces : List (List Char)} (h : ∀ p ∈ pieces, p ≠ []) :
    pieces.length ≤ pieces.flatten.length := by
  rw [← List.flatMap_id]
  exact length_le_length_flatMap h

theorem join_fields (separator : String) (c : Char) (hsep : separator.toList = [c]) (s : String) :
    join separator (fields c s) = s := by
  have hpieces : (fields c s).map String.toList = s.toList.splitOn c := by
    rw [fields, List.map_map]
    exact (List.map_congr_left fun cs _ => String.toList_ofList).trans (List.map_id _)
  rw [← String.toList_inj, join, String.toList_intercalate, hpieces, hsep]
  exact List.intercalate_splitOn c

theorem fields_inj {c : Char} {a b : String} (h : fields c a = fields c b) : a = b := by
  have hsep : (String.ofList [c]).toList = [c] := String.toList_ofList
  rw [← join_fields _ c hsep a, h, join_fields _ c hsep b]

section Pieces

variable {α : Type} [BEq α] [LawfulBEq α] {separator : α}

/-- What a list is cut at is in none of the pieces. -/
theorem notMem_of_mem_splitOn {l piece : List α} (h : piece ∈ l.splitOn separator) :
    separator ∉ piece := by
  induction l generalizing piece with
  | nil =>
    rw [List.splitOn_nil, List.mem_singleton] at h
    simp [h]
  | cons x rest ih =>
    rw [List.splitOn_cons_eq_if_modifyHead] at h
    cases hpieces : rest.splitOn separator with
    | nil => exact absurd hpieces (List.splitOn_ne_nil separator rest)
    | cons first later =>
      rw [hpieces] at h ih
      split at h
      · rcases List.mem_cons.1 h with rfl | h
        · exact List.not_mem_nil
        · exact ih h
      · rename_i hx
        rw [List.modifyHead_cons] at h
        rcases List.mem_cons.1 h with rfl | h
        · have hfirst := ih List.mem_cons_self
          intro hmem
          rcases List.mem_cons.1 hmem with heq | hmem
          · exact hx (beq_of_eq heq.symm)
          · exact hfirst hmem
        · exact ih (List.mem_cons_of_mem _ h)

theorem prefix_of_splitOn_eq_cons {l first : List α} {later : List (List α)}
    (h : l.splitOn separator = first :: later) : first <+: l := by
  have hl : [separator].intercalate (first :: later) = l := by
    rw [← h, List.intercalate_splitOn]
  cases later with
  | nil =>
    rw [List.intercalate_singleton] at hl
    exact ⟨[], by rw [hl, List.append_nil]⟩
  | cons second rest =>
    rw [List.intercalate_cons_of_ne_nil (by simp), List.append_assoc] at hl
    exact ⟨_, hl⟩

end Pieces

theorem fields_ne_nil (c : Char) (s : String) : fields c s ≠ [] := by
  simp [fields]

theorem notMem_of_mem_fields {c : Char} {s field : String} (h : field ∈ fields c s) :
    c ∉ field.toList := by
  obtain ⟨piece, hpiece, rfl⟩ := List.mem_map.1 h
  rw [String.toList_ofList]
  exact notMem_of_mem_splitOn hpiece

theorem prefix_of_fields_eq_cons {c : Char} {s first : String} {later : List String}
    (h : fields c s = first :: later) : first.toList <+: s.toList := by
  obtain ⟨piece, pieces, hpieces, rfl, -⟩ := List.map_eq_cons_iff.1 h
  rw [String.toList_ofList]
  exact prefix_of_splitOn_eq_cons hpieces

theorem mem_intercalate {α : Type} {sep x : α} {ls : List (List α)}
    (h : x ∈ [sep].intercalate ls) : x = sep ∨ ∃ l ∈ ls, x ∈ l := by
  induction ls with
  | nil => cases h
  | cons l rest ih =>
    by_cases hrest : rest = []
    · subst hrest
      rw [List.intercalate_singleton] at h
      exact .inr ⟨l, by simp, h⟩
    · rw [List.intercalate_cons_of_ne_nil hrest] at h
      rcases List.mem_append.1 h with hfront | hback
      · rcases List.mem_append.1 hfront with hl | hsep
        · exact .inr ⟨l, by simp, hl⟩
        · exact .inl (List.mem_singleton.1 hsep)
      · obtain hsep | ⟨k, hk, hx⟩ := ih hback
        · exact .inl hsep
        · exact .inr ⟨k, by simp [hk], hx⟩

/-- What is joined ends as its last part does, or in a separator. -/
theorem getLast?_intercalate_ne {α : Type} {sep x : α} (hx : x ≠ sep) {ls : List (List α)}
    (hlast : ∀ l, ls.getLast? = some l → l.getLast? ≠ some x) :
    ([sep].intercalate ls).getLast? ≠ some x := by
  induction ls with
  | nil => simp
  | cons l rest ih =>
    by_cases hrest : rest = []
    · subst hrest
      rw [List.intercalate_singleton]
      exact hlast l (by simp)
    · have hback := ih fun k hk => hlast k (by rw [List.getLast?_cons, hk]; rfl)
      rw [List.intercalate_cons_of_ne_nil hrest, List.getLast?_append]
      cases hb : ([sep].intercalate rest).getLast? with
      | none => simpa using hx.symm
      | some y =>
        rw [hb] at hback
        simpa using hback

theorem mem_toList_join (separator : String) (sep : Char) (hsep : separator.toList = [sep])
    {c : Char} {parts : List String} (h : c ∈ (join separator parts).toList) :
    c = sep ∨ ∃ p ∈ parts, c ∈ p.toList := by
  rw [join, String.toList_intercalate, hsep] at h
  obtain hc | ⟨l, hl, hc⟩ := mem_intercalate h
  · exact .inl hc
  · obtain ⟨p, hp, rfl⟩ := List.mem_map.1 hl
    exact .inr ⟨p, hp, hc⟩

theorem mem_join_of_mem (separator : String) {p : String} {parts : List String} (hp : p ∈ parts)
    {c : Char} (hc : c ∈ p.toList) : c ∈ (join separator parts).toList := by
  induction parts with
  | nil => cases hp
  | cons q rest ih =>
    by_cases hrest : rest = []
    · subst hrest
      rw [List.mem_singleton] at hp
      subst hp
      simpa [join] using hc
    · rw [join, String.intercalate_cons_of_ne_nil hrest]
      rcases List.mem_cons.1 hp with rfl | hp
      · simp [hc]
      · rw [String.toList_append]
        exact List.mem_append_right _ (ih hp)

theorem getLast?_join_ne (separator : String) (sep : Char) (hsep : separator.toList = [sep])
    {c : Char} (hc : c ≠ sep) {parts : List String}
    (hlast : ∀ p, parts.getLast? = some p → p.toList.getLast? ≠ some c) :
    (join separator parts).toList.getLast? ≠ some c := by
  rw [join, String.toList_intercalate, hsep]
  apply getLast?_intercalate_ne hc
  intro l hl
  rw [List.getLast?_map] at hl
  obtain ⟨p, hp, rfl⟩ := Option.map_eq_some_iff.1 hl
  exact hlast p hp

/-- Text with a character that is no blank is more than blanks. -/
theorem trim_ne_empty {s : String} {c : Char} (hmem : c ∈ s.toList) (hblank : isBlank c = false) :
    (trim s).isEmpty = false := by
  have hstart : c ∈ trimStart s.toList := by
    have hsplit := List.takeWhile_append_dropWhile (p := isBlank) (l := s.toList)
    rw [← hsplit] at hmem
    refine (List.mem_append.1 hmem).resolve_left fun hfront => ?_
    have := List.mem_takeWhile_imp hfront
    rw [hblank] at this
    cases this
  have hend : trimEnd (trimStart s.toList) ≠ [] := by
    intro hnil
    have hall :=
      List.dropWhile_eq_nil_iff.1 (List.reverse_eq_nil_iff.1 hnil) c (by simpa using hstart)
    rw [hblank] at hall
    cases hall
  simp [trim, hend]

/-! ## Lines -/

section Lines

variable {α : Type} [BEq α] [LawfulBEq α] {feed return_ : α}

theorem splitOn_terminated_append {lines : List (List α)} (hfree : ∀ l ∈ lines, feed ∉ l)
    {last : List α} (hlast : feed ∉ last) :
    (lines.flatMap (· ++ [feed]) ++ last).splitOn feed = lines ++ [last] := by
  induction lines with
  | nil => exact List.splitOn_eq_singleton hlast
  | cons l rest ih =>
    have hl : feed ∉ l := hfree l (by simp)
    have hrest := ih fun k hk => hfree k (by simp [hk])
    rw [List.flatMap_cons, List.append_assoc, List.append_assoc, List.singleton_append,
      List.splitOn_append_cons_self_of_not_mem hl, hrest, List.cons_append]

theorem splitOn_terminated {lines : List (List α)} (hfree : ∀ l ∈ lines, feed ∉ l) :
    (lines.flatMap (· ++ [feed])).splitOn feed = lines ++ [[]] := by
  simpa using splitOn_terminated_append hfree (List.not_mem_nil (a := feed))

theorem dropReturn_of_ne {l : List α} (h : l.getLast? ≠ some return_) :
    dropReturn return_ l = l := by
  have hne : (l.getLast? == some return_) = false := beq_false_of_ne h
  simp [dropReturn, hne]

omit [LawfulBEq α] in
theorem dropReturn_subset (l : List α) : dropReturn return_ l ⊆ l := by
  unfold dropReturn
  split
  · exact List.dropLast_subset l
  · exact List.Subset.refl l

theorem notMem_of_mem_splitLines {l line : List α} (h : line ∈ splitLines feed return_ l) :
    feed ∉ line := by
  have hterminated : ∀ line ∈ (l.splitOn feed).dropLast.map (dropReturn return_),
      feed ∉ line := by
    intro line hline
    obtain ⟨piece, hpiece, rfl⟩ := List.mem_map.1 hline
    exact fun hmem =>
      notMem_of_mem_splitOn (List.dropLast_subset _ hpiece) (dropReturn_subset piece hmem)
  unfold splitLines at h
  dsimp only at h
  split at h
  · exact hterminated line h
  · exact hterminated line h
  · rename_i rest hrest
    rcases List.mem_append.1 h with h | h
    · exact hterminated line h
    · rw [List.mem_singleton.1 h]
      exact notMem_of_mem_splitOn (List.mem_of_getLast? hrest)

theorem map_dropReturn_of_ne {lines : List (List α)}
    (hreturn : ∀ l ∈ lines, l.getLast? ≠ some return_) :
    lines.map (dropReturn return_) = lines := by
  have hid : lines.map (dropReturn return_) = lines.map id :=
    List.map_congr_left fun l hl => dropReturn_of_ne (hreturn l hl)
  rw [hid, List.map_id]

/-- Lines that are terminated one by one are the lines of the whole. -/
theorem splitLines_terminated {lines : List (List α)} (hfree : ∀ l ∈ lines, feed ∉ l)
    (hreturn : ∀ l ∈ lines, l.getLast? ≠ some return_) :
    splitLines feed return_ (lines.flatMap (· ++ [feed])) = lines := by
  simp [splitLines, splitOn_terminated hfree, map_dropReturn_of_ne hreturn]

/-- What follows the last line feed is a line, too. -/
theorem splitLines_terminated_append {lines : List (List α)} (hfree : ∀ l ∈ lines, feed ∉ l)
    (hreturn : ∀ l ∈ lines, l.getLast? ≠ some return_) {last : List α} (hlast : feed ∉ last)
    (hne : last ≠ []) :
    splitLines feed return_ (lines.flatMap (· ++ [feed]) ++ last) = lines ++ [last] := by
  obtain ⟨first, rest, rfl⟩ := List.exists_cons_of_ne_nil hne
  simp [splitLines, splitOn_terminated_append hfree hlast, map_dropReturn_of_ne hreturn]

end Lines

/-! ## Offsets -/

theorem digitsValue_eq_ofDigitChars (cs : List Char) :
    digitsValue cs = Nat.ofDigitChars 10 cs 0 := by
  rw [digitsValue, Nat.ofDigitChars_eq_foldl]

theorem isDigit_eq (c : Char) : isDigit c = c.isDigit := by
  simp [isDigit, Char.isDigit, Char.le_def]

theorem toList_toString_nat (n : Nat) : (toString n).toList = Nat.toDigits 10 n := Nat.toList_repr

theorem isDigit_of_mem_toString {n : Nat} {c : Char} (h : c ∈ (toString n).toList) :
    c.isDigit = true := by
  rw [toList_toString_nat] at h
  exact Nat.isDigit_of_mem_toDigits (by decide) (by decide) h

theorem readOffset_of_digits {s : String} (hne : s.toList ≠ [])
    (hdigits : ∀ c ∈ s.toList, isDigit c = true) (hle : digitsValue s.toList ≤ maxOffset) :
    readOffset s = some (digitsValue s.toList) := by
  have hall : s.toList.all isDigit = true := List.all_eq_true.2 hdigits
  unfold readOffset
  split
  · -- The first digit is no plus sign.
    rename_i rest heq
    have hplus := hdigits '+' (by simp [heq])
    exact absurd hplus (by decide)
  · simp [hne, hall, hle]

theorem digitsValue_toString (n : Nat) : digitsValue (toString n).toList = n := by
  rw [toList_toString_nat, digitsValue_eq_ofDigitChars,
    Nat.ofDigitChars_toDigits (by decide) (by decide)]

theorem readOffset_toString {n : Nat} (h : n ≤ maxOffset) : readOffset (toString n) = some n := by
  have hvalue := digitsValue_toString n
  have hne : (toString n).toList ≠ [] := by
    rw [toList_toString_nat]
    exact Nat.toDigits_ne_nil
  have hdigits : ∀ c ∈ (toString n).toList, isDigit c = true := by
    intro c hc
    rw [isDigit_eq]
    exact isDigit_of_mem_toString hc
  rw [readOffset_of_digits hne hdigits (hvalue.symm ▸ h), hvalue]

end Renaming.Text
