import Mathlib.Data.List.Basic
import Renaming.Proofs.Text

/-!
# Words of a line

Words with a blank between every two of them are read back as these words, and as a line of a text
they are one line, without blanks at its ends.
-/

namespace Renaming.Text

/-- A text without blanks that is not empty. -/
structure IsWord (s : String) : Prop where
  nonempty : s ≠ ""
  solid : ∀ c ∈ s.toList, isBlank c = false

theorem isWord_iff {s : String} :
    IsWord s ↔ s ≠ "" ∧ (s.toList.all fun c => !isBlank c) = true := by
  constructor
  · intro h
    exact ⟨h.nonempty, by simpa using h.solid⟩
  · rintro ⟨hne, hall⟩
    exact ⟨hne, by simpa using hall⟩

instance (s : String) : Decidable (IsWord s) := decidable_of_iff _ isWord_iff.symm

namespace IsWord

variable {s t : String}

theorem append (hs : IsWord s) (ht : IsWord t) : IsWord (s ++ t) where
  nonempty h := hs.nonempty (String.append_eq_empty_iff.1 h).1
  solid c hc := by
    rw [String.toList_append, List.mem_append] at hc
    exact hc.elim (hs.solid c) (ht.solid c)

theorem replaceChar (h : IsWord s) (old : Char) {new : Char} (hnew : isBlank new = false) :
    IsWord (replaceChar old new s) where
  nonempty := by simpa [Text.replaceChar] using h.nonempty
  solid c hc := by
    rw [Text.replaceChar, String.toList_ofList, List.mem_map] at hc
    obtain ⟨d, hd, rfl⟩ := hc
    split
    · exact hnew
    · exact h.solid d hd

theorem exists_cons (h : IsWord s) : ∃ c cs, s.toList = c :: cs ∧ isBlank c = false := by
  obtain ⟨c, cs, hcs⟩ := List.exists_cons_of_ne_nil (mt String.toList_eq_nil_iff.1 h.nonempty)
  exact ⟨c, cs, hcs, h.solid c (by simp [hcs])⟩

theorem feed_notMem (h : IsWord s) : '\n' ∉ s.toList := fun hmem =>
  absurd (h.solid '\n' hmem) (by decide)

end IsWord

theorem isBlank_of_isDigit {c : Char} (h : c.isDigit = true) : isBlank c = false := by
  rw [Char.isDigit, Bool.and_eq_true, decide_eq_true_eq, decide_eq_true_eq] at h
  have hlow : 48 ≤ c.toNat := h.1
  have hhigh : c.toNat ≤ 57 := h.2
  rw [← Bool.not_eq_true]
  intro hblank
  simp only [isBlank, Bool.or_eq_true, Bool.and_eq_true, decide_eq_true_eq, beq_iff_eq] at hblank
  omega

theorem isWord_toString (n : Nat) : IsWord (toString n) where
  nonempty h := by
    have hdigits := congrArg String.toList h
    rw [toList_toString_nat] at hdigits
    exact Nat.toDigits_ne_nil hdigits
  solid _ hc := isBlank_of_isDigit (isDigit_of_mem_toString hc)

/-! ## Reading words back -/

theorem words_of_isWord {w : String} (h : IsWord w) : words w = [w] := by
  simp [words, List.splitOnP_eq_singleton h.solid, h.nonempty]

/-- No word reaches across a blank. -/
theorem words_append_blank (s t : String) : words (s ++ " " ++ t) = words s ++ words t := by
  have hsplit : (s ++ " " ++ t).toList.splitOnP isBlank =
      s.toList.splitOnP isBlank ++ t.toList.splitOnP isBlank := by
    rw [← List.splitOnP_append_cons s.toList t.toList (rfl : isBlank ' ' = true)]
    simp
  rw [words, hsplit, List.filter_append, List.map_append]
  rfl

theorem join_cons_cons (separator w v : String) (rest : List String) :
    join separator (w :: v :: rest) = w ++ separator ++ join separator (v :: rest) :=
  String.intercalate_cons_cons

theorem join_append_cons (separator w v : String) (rest : List String) :
    join separator ((w ++ separator ++ v) :: rest) =
      w ++ separator ++ join separator (v :: rest) := by
  cases rest with
  | nil => simp [join]
  | cons u rest => simp only [join_cons_cons, String.append_assoc]

theorem words_join {ws : List String} (h : ∀ w ∈ ws, IsWord w) : words (join " " ws) = ws := by
  induction ws with
  | nil => rfl
  | cons w rest ih =>
    have hw := h w List.mem_cons_self
    cases rest with
    | nil => exact words_of_isWord hw
    | cons v rest =>
      have hrest := ih fun u hu => h u (List.mem_cons_of_mem w hu)
      rw [join_cons_cons, words_append_blank, words_of_isWord hw, hrest, List.singleton_append]

/-! ## A line of words -/

theorem head?_join {w : String} (h : IsWord w) (rest : List String) :
    (join " " (w :: rest)).toList.head? = w.toList.head? := by
  obtain ⟨c, cs, hcs, -⟩ := h.exists_cons
  cases rest with
  | nil => rfl
  | cons v rest =>
    rw [join_cons_cons]
    simp [hcs]

theorem isBlank_getLast?_join {ws : List String} (h : ∀ w ∈ ws, IsWord w) :
    ∀ c ∈ (join " " ws).toList.getLast?, isBlank c = false := by
  induction ws with
  | nil => nofun
  | cons w rest ih =>
    cases rest with
    | nil => exact fun c hc => (h w List.mem_cons_self).solid c (List.mem_of_getLast? hc)
    | cons v rest =>
      have hrest := ih fun u hu => h u (List.mem_cons_of_mem w hu)
      have hne : (join " " (v :: rest)).toList ≠ [] := by
        intro hnil
        obtain ⟨c, cs, hcs, -⟩ := (h v (by simp)).exists_cons
        have hhead := head?_join (h v (by simp)) rest
        rw [hnil, hcs] at hhead
        cases hhead
      rw [join_cons_cons, String.toList_append, List.getLast?_append_of_ne_nil _ hne]
      exact hrest

theorem dropWhile_isBlank {cs : List Char} (h : ∀ c ∈ cs.head?, isBlank c = false) :
    cs.dropWhile isBlank = cs := by
  cases cs with
  | nil => rfl
  | cons c cs => simp [h c rfl]

theorem trimEnd_eq_self {cs : List Char} (h : ∀ c ∈ cs.getLast?, isBlank c = false) :
    trimEnd cs = cs := by
  rw [List.getLast?_eq_head?_reverse] at h
  rw [trimEnd, dropWhile_isBlank h, List.reverse_reverse]

theorem trim_eq_self {s : String} (hfirst : ∀ c ∈ s.toList.head?, isBlank c = false)
    (hlast : ∀ c ∈ s.toList.getLast?, isBlank c = false) : trim s = s := by
  rw [trim, trimStart, dropWhile_isBlank hfirst, trimEnd_eq_self hlast, String.ofList_toList]

theorem IsWord.trim_eq {w : String} (h : IsWord w) : trim w = w :=
  trim_eq_self (fun c hc => h.solid c (List.mem_of_head? hc)) fun c hc =>
    h.solid c (List.mem_of_getLast? hc)

theorem trim_join {w : String} {rest : List String} (h : ∀ v ∈ w :: rest, IsWord v) :
    trim (join " " (w :: rest)) = join " " (w :: rest) := by
  have hw := h w List.mem_cons_self
  refine trim_eq_self ?_ (isBlank_getLast?_join h)
  intro c hc
  rw [head?_join hw] at hc
  exact hw.solid c (List.mem_of_head? hc)

theorem notMem_join {c : Char} {ws : List String} (hc : c ≠ ' ') (h : ∀ w ∈ ws, c ∉ w.toList) :
    c ∉ (join " " ws).toList := by
  intro hmem
  obtain hblank | ⟨w, hw, hcw⟩ := mem_toList_join " " ' ' rfl hmem
  · exact hc hblank
  · exact h w hw hcw

/-- Words do not reach beyond the line that they are joined to. -/
theorem feed_notMem_join {ws : List String} (h : ∀ w ∈ ws, IsWord w) :
    '\n' ∉ (join " " ws).toList :=
  notMem_join (by decide) fun w hw => (h w hw).feed_notMem

end Renaming.Text
