import Mathlib.Data.List.TakeWhile
import Renaming.Java.Grammar.Phrase
import Renaming.Proofs.Java.Shape

/-!
# Tokens in their text

Nothing takes more characters off the front of a text than there are, so that every token of a text
lies within it. The tokens stand one after the other, and a word holds nothing but the characters of
names.
-/

namespace Renaming.Java

namespace Lexeme

/-- A lexeme that takes no more than there is. -/
def Fits (a : Lexeme) : Prop := ∀ cs n, a cs = some n → n ≤ cs.length

theorem length_takeWhile_le (p : Char → Bool) (cs : List Char) :
    (cs.takeWhile p).length ≤ cs.length :=
  (List.takeWhile_prefix p).length_le

theorem fits_char (p : Char → Bool) : Fits (char p) := by
  intro cs n h
  cases cs with
  | nil => cases h
  | cons c rest =>
    simp only [char] at h
    split at h
    · cases h
      simp
    · cases h

theorem Fits.followedBy {a b : Lexeme} (ha : Fits a) (hb : Fits b) : Fits (followedBy a b) := by
  intro cs n h
  obtain ⟨i, hi, hrest⟩ := Option.bind_eq_some_iff.1 h
  obtain ⟨j, hj, hsum⟩ := Option.bind_eq_some_iff.1 hrest
  have hi' := ha _ _ hi
  have hj' := hb _ _ hj
  rw [List.length_drop] at hj'
  cases hsum
  omega

theorem Fits.optional {a : Lexeme} (ha : Fits a) : Fits (optional a) := by
  intro cs n h
  cases h
  cases hn : a cs with
  | none => simp
  | some n => exact ha _ _ hn

theorem Fits.longer {a b : Lexeme} (ha : Fits a) (hb : Fits b) : Fits (longer a b) := by
  intro cs n h
  unfold Lexeme.longer at h
  split at h
  · rename_i i j hi hj
    have hi' := ha _ _ hi
    have hj' := hb _ _ hj
    cases h
    omega
  · rename_i i hi _
    cases h
    exact ha _ _ hi
  · exact hb _ _ h

theorem fits_sequence {parts : List Lexeme} (h : ∀ a ∈ parts, Fits a) : Fits (sequence parts) := by
  induction parts with
  | nil =>
    intro cs n hn
    cases hn
    simp
  | cons a rest ih =>
    exact (h a (by simp)).followedBy (ih fun b hb => h b (by simp [hb]))

theorem fits_run (p : Char → Bool) : Fits (run p) := by
  intro cs n h
  have hlength := length_takeWhile_le p cs
  unfold run at h
  split at h
  · cases h
  · cases h
    exact hlength

theorem furtherRuns_le (p : Char → Bool) (many : Bool) (fuel : Nat) (cs : List Char) :
    furtherRuns p many fuel cs ≤ cs.length := by
  induction fuel generalizing cs with
  | zero => simp [furtherRuns]
  | succ fuel ih =>
    have hunderscores := length_takeWhile_le (· == '_') cs
    have hdigits := length_takeWhile_le p (cs.drop (cs.takeWhile (· == '_')).length)
    rw [List.length_drop] at hdigits
    simp only [furtherRuns]
    split
    · omega
    · have hrest := ih (cs.drop ((cs.takeWhile (· == '_')).length +
        ((cs.drop (cs.takeWhile (· == '_')).length).takeWhile p).length))
      rw [List.length_drop] at hrest
      omega

theorem fits_grouped (p : Char → Bool) : Fits (grouped p) := by
  intro cs n h
  obtain ⟨i, hi, hsum⟩ := Option.bind_eq_some_iff.1 h
  have hi' := fits_run p _ _ hi
  have hrest := furtherRuns_le p false
    ((cs.drop i).takeWhile fun c => p c || c == '_').length (cs.drop i)
  rw [List.length_drop] at hrest
  cases hsum
  omega

/-! ## Numbers -/

theorem fits_decimalDigits : Fits decimalDigits := by
  intro cs n h
  unfold decimalDigits at h
  split at h
  · cases h
  · cases h
    simp
  · -- A digit, a gap of one or none, a first run, and what follows it.
    rename_i c rest _
    dsimp only at h
    generalize (if rest.head? == some '_' then 1 else 0) = gap at h
    have hrun := length_takeWhile_le Text.isDigit (rest.drop gap)
    generalize ((rest.drop gap).takeWhile Text.isDigit).length = first at h hrun
    have hmore := furtherRuns_le Text.isDigit true
      ((rest.drop (gap + first)).takeWhile fun c => Text.isDigit c || c == '_').length
      (rest.drop (gap + first))
    rw [List.length_drop] at hrun hmore
    rw [List.length_cons]
    split at h
    · cases h
    · split at h
      · cases h
        omega
      · rename_i hfirst
        have hne : first ≠ 0 := by simpa using hfirst
        cases h
        omega

theorem fits_marked (letters : String) {digits : Lexeme} (h : Fits digits) :
    Fits (marked letters digits) := by
  apply fits_sequence
  simp [fits_char, h]

theorem fits_longMark : Fits longMark := (fits_char _).optional

theorem fits_exponent : Fits exponent := by
  apply fits_sequence
  simp [fits_char, (fits_char _).optional, digitGroups, fits_grouped]

theorem fits_numbers : ∀ e ∈ numbers, Fits e.2 := by
  have hfloat : Fits (optional floatMark) := (fits_char _).optional
  have hgroups : Fits digitGroups := fits_grouped _
  have hpoint : Fits point := fits_char _
  have hexponent : Fits (optional exponent) := fits_exponent.optional
  have hhex : Fits (grouped isHexDigit) := fits_grouped _
  simp only [numbers, List.forall_mem_cons, List.not_mem_nil, false_implies, implies_true, and_true]
  refine ⟨?_, ?_, ?_, ?_, ?_, ?_⟩
  · apply fits_sequence
    simp [fits_decimalDigits, fits_longMark]
  · apply fits_sequence
    simp [fits_marked _ hhex, fits_longMark]
  · have hoctal : Fits octalDigits := fits_grouped _
    exact ((fits_marked "oO" hoctal).longer ((fits_char _).followedBy hoctal)).followedBy
      fits_longMark
  · apply fits_sequence
    simp [fits_marked _ (fits_grouped _), fits_longMark]
  · refine Fits.longer (Fits.longer ?_ ?_) (Fits.longer ?_ ?_)
    · apply fits_sequence
      simp [hgroups, hpoint, hgroups.optional, hexponent, hfloat]
    · apply fits_sequence
      simp [hgroups, hpoint, hexponent, hfloat]
    · apply fits_sequence
      simp [fits_decimalDigits, fits_exponent, hfloat]
    · apply fits_sequence
      simp [fits_decimalDigits, hexponent, floatMark, fits_char]
  · refine Fits.followedBy (fits_marked "xX" (Fits.longer ?_ ?_)) (Fits.optional ?_)
    · exact hhex.followedBy hpoint.optional
    · apply fits_sequence
      simp [hhex, hhex.optional, hpoint]
    · apply fits_sequence
      simp [fits_char, (fits_char _).optional, fits_decimalDigits, hfloat]

theorem number_le {cs : List Char} {kind : NodeKind} {n : Nat} (h : number cs = some (kind, n)) :
    n ≤ cs.length := by
  have hbest : ∀ b ∈ number cs, b.2 ≤ cs.length := by
    refine List.foldlRecOn (motive := fun best : Option (NodeKind × Nat) =>
      ∀ b ∈ best, b.2 ≤ cs.length) numbers _ (by simp) ?_
    rintro best hbest ⟨kind, lexeme⟩ he b hb
    have hfits : Fits lexeme := fits_numbers _ he
    dsimp only at hb
    split at hb
    · rename_i m hm
      split at hb
      · cases hb
        exact hfits _ _ hm
      · exact hbest b hb
    · rename_i m hm
      cases hb
      exact hfits _ _ hm
    · exact hbest b hb
  exact hbest (kind, n) h

/-! ## Characters, strings and comments -/

theorem characterTail_le {n m : Nat} {cs : List Char} (h : characterTail n cs = some m) :
    m ≤ n + cs.length := by
  fun_induction characterTail n cs with
  | case1 | case4 | case5 | case7 => cases h
  | case2 =>
    cases h
    simp only [List.length_cons]
    omega
  | case3 n c rest ih =>
    have hrest := ih h
    simp only [List.length_cons]
    omega
  | case6 n c rest _ _ _ _ ih =>
    have hrest := ih h
    simp only [List.length_cons]
    omega

theorem fits_character : Fits character := by
  intro cs n h
  unfold character at h
  split at h
  · obtain ⟨m, hm, rfl⟩ := Option.map_eq_some_iff.1 h
    have htail := characterTail_le hm
    rw [List.length_cons]
    omega
  · cases h

theorem fits_escape : Fits escape := by
  intro cs n h
  unfold escape at h
  split at h
  · rename_i rest
    obtain ⟨m, hm, rfl⟩ := Option.map_eq_some_iff.1 h
    have hdigits : Fits (sequence [run isHexDigit, char (· == '\x7d')]) := by
      apply fits_sequence
      simp [fits_run, fits_char]
    have hrest := hdigits _ _ hm
    simp only [List.length_cons]
    omega
  · rename_i rest _
    split at h
    · rename_i hhex
      have hcount : (rest.take 4).length = 4 := by
        simp only [hexDigits, Bool.and_eq_true, beq_iff_eq] at hhex
        exact hhex.1
      rw [List.length_take] at hcount
      cases h
      rw [List.length_cons]
      omega
    · cases h
  · rename_i rest
    split at h
    · rename_i hhex
      have hcount : (rest.take 2).length = 2 := by
        simp only [hexDigits, Bool.and_eq_true, beq_iff_eq] at hhex
        exact hhex.1
      rw [List.length_take] at hcount
      cases h
      rw [List.length_cons]
      omega
    · cases h
  · rename_i c rest _ _ _
    have hdigits := length_takeWhile_le (fun d => '0' ≤ d && d ≤ '7') (rest.take 2)
    rw [List.length_take] at hdigits
    rw [List.length_cons]
    split at h
    · cases h
      omega
    · cases h
      omega
  · cases h

theorem stringTail_le {fuel n m : Nat} {cs : List Char} (h : stringTail fuel n cs = some m) :
    m ≤ n + cs.length := by
  fun_induction stringTail fuel n cs with
  | case1 | case2 => cases h
  | case3 =>
    cases h
    rw [List.length_cons]
    omega
  | case4 fuel n rest ih =>
    obtain ⟨k, hk, hrest⟩ := Option.bind_eq_some_iff.1 h
    have hescape := fits_escape _ _ hk
    have htail := ih k hrest
    rw [List.length_drop] at htail
    rw [List.length_cons]
    omega
  | case5 fuel n c rest _ _ ih =>
    have htail := ih h
    rw [List.length_cons]
    omega

theorem textBlockTail_le {n m : Nat} {cs : List Char} (h : textBlockTail n cs = some m) :
    m ≤ n + cs.length := by
  fun_induction textBlockTail n cs with
  | case1 =>
    cases h
    simp only [List.length_cons]
    omega
  | case2 n c rest ih =>
    have htail := ih h
    simp only [List.length_cons]
    omega
  | case3 n c rest _ _ ih =>
    have htail := ih h
    rw [List.length_cons]
    omega
  | case4 => cases h

theorem fits_string : Fits string := by
  intro cs n h
  unfold string at h
  split at h
  · have htail := textBlockTail_le h
    simp only [List.length_cons]
    omega
  · have htail := stringTail_le h
    rw [List.length_cons]
    omega
  · cases h

theorem blockCommentTail_le {n m : Nat} {cs : List Char} (h : blockCommentTail n cs = some m) :
    m ≤ n + cs.length := by
  fun_induction blockCommentTail n cs with
  | case1 =>
    cases h
    simp only [List.length_cons]
    omega
  | case2 n c rest _ ih =>
    have htail := ih h
    rw [List.length_cons]
    omega
  | case3 => cases h

theorem comment_le {cs : List Char} {kind : NodeKind} {n : Nat} (h : comment cs = some (kind, n)) :
    n ≤ cs.length := by
  unfold comment at h
  split at h
  · rename_i rest
    have hline := length_takeWhile_le (· != '\n') rest
    cases h
    simp only [List.length_cons]
    omega
  · obtain ⟨m, hm, heq⟩ := Option.map_eq_some_iff.1 h
    have htail := blockCommentTail_le hm
    cases heq
    simp only [List.length_cons]
    omega
  · cases h

/-! ## Words and symbols -/

theorem fits_word : Fits word := by
  intro cs n h
  unfold word at h
  split at h
  · rename_i c rest
    have hname := length_takeWhile_le continuesName rest
    split at h
    · cases h
      rw [List.length_cons]
      omega
    · cases h
  · cases h

theorem fits_symbol : Fits symbol := by
  intro cs n h
  obtain ⟨s, hs, rfl⟩ := Option.map_eq_some_iff.1 h
  have hfront := List.find?_some hs
  rw [← String.length_toList]
  exact (List.isPrefixOf_iff_prefix.1 hfront).length_le

theorem next_le {cs : List Char} {kind : TokenKind} {n : Nat} (h : next cs = some (kind, n)) :
    n ≤ cs.length := by
  unfold next at h
  split at h
  · rename_i hcomment
    cases h
    exact comment_le hcomment
  · split at h
    · rename_i hword
      cases h
      exact fits_word _ _ hword
    · split at h
      · rename_i hnumber
        cases h
        exact number_le hnumber
      · split at h
        · rename_i hstring
          cases h
          exact fits_string _ _ hstring
        · split at h
          · rename_i hcharacter
            cases h
            exact fits_character _ _ hcharacter
          · obtain ⟨m, hm, heq⟩ := Option.map_eq_some_iff.1 h
            cases heq
            exact fits_symbol _ _ hm

/-! ## Kinds and characters -/

theorem comment_isComment {cs : List Char} {kind : NodeKind} {n : Nat}
    (h : comment cs = some (kind, n)) : kind.isComment = true := by
  unfold comment at h
  split at h
  · cases h
    rfl
  · obtain ⟨m, -, heq⟩ := Option.map_eq_some_iff.1 h
    cases heq
    rfl
  · cases h

theorem number_isLiteral {cs : List Char} {kind : NodeKind} {n : Nat}
    (h : number cs = some (kind, n)) : kind.isLiteral = true := by
  have hkinds : ∀ e ∈ numbers, e.1.isLiteral = true := by
    simp only [numbers, List.forall_mem_cons, List.not_mem_nil, false_implies, implies_true,
      and_true]
    exact ⟨rfl, rfl, rfl, rfl, rfl, rfl⟩
  have hbest : ∀ b ∈ number cs, b.1.isLiteral = true := by
    refine List.foldlRecOn (motive := fun best : Option (NodeKind × Nat) =>
      ∀ b ∈ best, b.1.isLiteral = true) numbers _ (by simp) ?_
    rintro best hbest ⟨kind, lexeme⟩ he b hb
    dsimp only at hb
    split at hb
    · split at hb
      · cases hb
        exact hkinds _ he
      · exact hbest b hb
    · cases hb
      exact hkinds _ he
    · exact hbest b hb
  exact hbest (kind, n) h

theorem continuesName_of_startsName {c : Char} (h : startsName c = true) :
    continuesName c = true := by
  simp only [startsName, continuesName, Bool.or_eq_true] at h ⊢
  rcases h with (h | h) | h
  · refine .inl (.inl (.inl ?_))
    simp only [Text.startsWord, Text.continuesWord] at h ⊢
    split at h
    · simp [*]
    · simp [*]
  · exact .inl (.inl (.inr h))
  · exact .inl (.inr h)

theorem word_continuesName {cs : List Char} {n : Nat} (h : word cs = some n) :
    ∀ c ∈ cs.take n, continuesName c = true := by
  unfold word at h
  split at h
  · rename_i first rest
    split at h
    · rename_i hstart
      cases h
      rw [Nat.add_comm, List.take_succ_cons]
      intro c hc
      rcases List.mem_cons.1 hc with rfl | hc
      · exact continuesName_of_startsName hstart
      · rw [← List.prefix_iff_eq_take.1 (List.takeWhile_prefix _)] at hc
        exact List.mem_takeWhile_imp hc
    · cases h
  · cases h

/-- What the kind of a token tells about its characters and about the node that it makes. -/
def Tells (cs : List Char) : TokenKind → Prop
  | .word => ∀ c ∈ cs, continuesName c = true
  | .literal kind => kind.isLiteral = true
  | .comment kind => kind.isComment = true
  | .symbol => True

theorem next_tells {cs : List Char} {kind : TokenKind} {n : Nat} (h : next cs = some (kind, n)) :
    Tells (cs.take n) kind := by
  unfold next at h
  split at h
  · rename_i hcomment
    cases h
    exact comment_isComment hcomment
  · split at h
    · rename_i hword
      cases h
      exact word_continuesName hword
    · split at h
      · rename_i hnumber
        cases h
        exact number_isLiteral hnumber
      · split at h
        · cases h
          rfl
        · split at h
          · cases h
            rfl
          · obtain ⟨m, -, heq⟩ := Option.map_eq_some_iff.1 h
            cases heq
            trivial

end Lexeme

namespace Token

variable {source : SourceText}

/-- A token that stands in a text. -/
structure Placed (source : SourceText) (t : Token) : Prop where
  start_lt_stop : t.span.start < t.span.stop
  stop_le : t.span.stop ≤ source.chars.size
  tells : Lexeme.Tells (source.slice t.span).toList t.kind

/-- Tokens that stand one after the other, from a place in a text on. -/
structure Row (source : SourceText) (from_ : Nat) (ts : List Token) : Prop where
  placed : ∀ t ∈ ts, t.Placed source
  from_le : ∀ t ∈ ts, from_ ≤ t.span.start
  ordered : ts.Pairwise fun t u => t.span.stop ≤ u.span.start

namespace Row

variable {p q : Nat} {t : Token} {ts us : List Token}

theorem nil : Row source p [] := ⟨by simp, by simp, .nil⟩

theorem later (h : Row source q ts) (hpq : p ≤ q) : Row source p ts :=
  ⟨h.placed, fun t ht => Nat.le_trans hpq (h.from_le t ht), h.ordered⟩

theorem cons (ht : t.Placed source) (hp : p ≤ t.span.start) (h : Row source t.span.stop ts) :
    Row source p (t :: ts) := by
  have hstop : t.span.start < t.span.stop := ht.start_lt_stop
  refine ⟨List.forall_mem_cons.2 ⟨ht, h.placed⟩, List.forall_mem_cons.2 ⟨hp, fun u hu => ?_⟩,
    List.pairwise_cons.2 ⟨h.from_le, h.ordered⟩⟩
  have hu' := h.from_le u hu
  omega

theorem head (h : Row source p (t :: ts)) : t.Placed source ∧ p ≤ t.span.start :=
  ⟨h.placed t (by simp), h.from_le t (by simp)⟩

theorem tail (h : Row source p (t :: ts)) : Row source t.span.stop ts :=
  ⟨fun u hu => h.placed u (by simp [hu]), (List.pairwise_cons.1 h.ordered).1,
    (List.pairwise_cons.1 h.ordered).2⟩

theorem sublist (h : Row source p ts) (hsub : us.Sublist ts) : Row source p us :=
  ⟨fun t ht => h.placed t (hsub.subset ht), fun t ht => h.from_le t (hsub.subset ht),
    h.ordered.sublist hsub⟩

end Row

/-- Where a token takes no characters, the scan comes to no end. -/
theorem scan_stuck {cs : List Char} {kind : TokenKind} {offset : Nat} {c : Char} {rest : List Char}
    (hcs : cs = c :: rest) (hblank : (Text.isBlank c || (offset == 0 && c == '\uFEFF')) = false)
    (hnext : Lexeme.next cs = some (kind, 0)) (fuel : Nat) : scan fuel offset cs = none := by
  subst hcs
  induction fuel with
  | zero => rfl
  | succ fuel ih => simp [scan, hblank, hnext, ih]

theorem scan_row {fuel offset : Nat} {cs : List Char} {tokens : List Token}
    (h : scan fuel offset cs = some tokens) (hcs : source.chars.toList.drop offset = cs) :
    Row source offset tokens := by
  fun_induction scan fuel offset cs generalizing tokens with
  | case1 => cases h
  | case2 =>
    cases h
    exact .nil
  | case3 fuel offset c rest _ ih =>
    have hrest : source.chars.toList.drop (offset + 1) = rest := by
      rw [← List.drop_drop, hcs, List.drop_one, List.tail_cons]
    exact (ih h hrest).later (Nat.le_succ _)
  | case4 fuel offset c rest hblank ih =>
    obtain ⟨⟨kind, n⟩, hnext, hrest⟩ := Option.bind_eq_some_iff.1 h
    obtain ⟨tail, htail, heq⟩ := Option.bind_eq_some_iff.1 hrest
    have hlength := Lexeme.next_le hnext
    have htells := Lexeme.next_tells hnext
    have hsize : source.chars.size = offset + (c :: rest).length := by
      have hdrop := congrArg List.length hcs
      rw [List.length_drop, Array.length_toList, List.length_cons] at hdrop
      rw [List.length_cons]
      omega
    have hpositive : n ≠ 0 := by
      rintro rfl
      have hstuck := scan_stuck rfl (by simpa using hblank) hnext fuel
      simp only [Nat.add_zero, List.drop_zero] at htail
      rw [hstuck] at htail
      cases htail
    cases heq
    have hslice : (source.slice ⟨offset, offset + n⟩).toList = (c :: rest).take n := by
      simp [SourceText.slice, List.extract_eq_take_drop, hcs]
    refine .cons ⟨?_, ?_, ?_⟩ (Nat.le_refl _) (ih n htail ?_)
    · dsimp only
      omega
    · dsimp only
      omega
    · rw [hslice]
      exact htells
    · rw [← List.drop_drop, hcs]

/-- The tokens of a text stand in it one after the other. -/
theorem ofText?_row {text : String} {tokens : List Token} (h : ofText? text = some tokens) :
    Row (.ofString text) 0 tokens :=
  scan_row h (by simp [SourceText.ofString])

end Token

end Renaming.Java
