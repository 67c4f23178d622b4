import Renaming.Proofs.RenameTable.Spellings
import Renaming.Proofs.Signature

/-!
# Lines for one parameter

A parameter can be named by the signature of its method and its index, as two words or as one, or by
its place among the names after a bar. The last form has the path to the method with slashes, and
every slash before the descriptor becomes a dot, so it leads to the same parameter as the others
unless the name of the method has a slash.
-/

namespace Renaming

namespace Text

theorem replaceChar_of_notMem {a b : Char} {s : String} (h : a ∉ s.toList) :
    replaceChar a b s = s := by
  have hsame : ∀ c ∈ s.toList, (if c = a then b else c) = id c := by
    intro c hc
    rw [if_neg, id]
    rintro rfl
    exact h hc
  rw [replaceChar, List.map_congr_left hsame, List.map_id, String.ofList_toList]

/-! ## Blanks around parts of a line -/

/-- Whether the last character is no blank. -/
def EndsSolid (s : String) : Prop := ∃ c, s.toList.getLast? = some c ∧ isBlank c = false

theorem IsWord.endsSolid {w : String} (h : IsWord w) : EndsSolid w := by
  have hlast := List.getLast?_eq_some_getLast (mt String.toList_eq_nil_iff.1 h.nonempty)
  exact ⟨_, hlast, h.solid _ (List.mem_of_getLast? hlast)⟩

theorem EndsSolid.append {t : String} (h : EndsSolid t) (s : String) : EndsSolid (s ++ t) := by
  obtain ⟨c, hlast, hc⟩ := h
  refine ⟨c, ?_, hc⟩
  rw [String.toList_append, List.getLast?_append, hlast]
  rfl

theorem EndsSolid.getLast? {s : String} (h : EndsSolid s) :
    ∀ c ∈ s.toList.getLast?, isBlank c = false := by
  obtain ⟨c, hlast, hc⟩ := h
  intro d hd
  rw [hlast] at hd
  cases hd
  exact hc

theorem trim_append_blanks {w pad : String} (h : IsWord w)
    (hpad : ∀ c ∈ pad.toList, isBlank c = true) : trim (w ++ pad) = w := by
  obtain ⟨c, cs, hcs, hc⟩ := h.exists_cons
  have hstart : trimStart (w ++ pad).toList = w.toList ++ pad.toList := by
    rw [trimStart, String.toList_append]
    exact dropWhile_isBlank (by simp [hcs, hc])
  have hend : trimEnd (w.toList ++ pad.toList) = trimEnd w.toList := by
    rw [trimEnd, List.reverse_append,
      List.dropWhile_append_of_pos fun d hd => hpad d (List.mem_reverse.1 hd), trimEnd]
  rw [trim, hstart, hend, trimEnd_eq_self h.endsSolid.getLast?, String.ofList_toList]

/-- Of text with a bar, blanks get lost in front of the bar only. -/
theorem exists_trim_bar {throws names : String} (hbar : '|' ∉ throws.toList)
    (hnames : EndsSolid names) :
    ∃ front, '|' ∉ front.toList ∧ trim (throws ++ "|" ++ names) = front ++ "|" ++ names := by
  let front := String.ofList (throws.toList.dropWhile isBlank)
  refine ⟨front, ?_, ?_⟩
  · intro hmem
    rw [String.toList_ofList] at hmem
    exact hbar (List.dropWhile_subset _ hmem)
  · have hstart : trimStart (throws ++ "|" ++ names).toList = (front ++ "|" ++ names).toList := by
      have hsplit : (throws ++ "|" ++ names).toList = throws.toList ++ '|' :: names.toList := by
        simp
      rw [hsplit, trimStart, List.dropWhile_append]
      split
      · rename_i hempty
        simp [front, List.isEmpty_iff.1 hempty, (by decide : isBlank '|' = false)]
      · simp [front]
    rw [trim, hstart, trimEnd_eq_self (hnames.append _).getLast?, String.ofList_toList]

/-- So many commas. -/
def commas (count : Nat) : String := String.ofList (List.replicate count ',')

theorem fields_commas (count : Nat) {name : String} (hname : ',' ∉ name.toList) :
    fields ',' (commas count ++ name) = List.replicate count "" ++ [name] := by
  induction count with
  | zero =>
    rw [commas, List.replicate_zero, String.ofList_nil, String.empty_append, fields,
      List.splitOn_eq_singleton hname]
    simp
  | succ count ih =>
    have hsplit : (commas (count + 1) ++ name).toList.splitOn ',' =
        [].splitOn ',' ++ (commas count ++ name).toList.splitOn ',' := by
      rw [← List.splitOn_append_cons_self]
      simp [commas, List.replicate_succ]
    rw [fields, hsplit, List.map_append, ← fields, ih]
    rfl

theorem map_trim_fields_commas (count : Nat) {name : String} (hname : IsWord name)
    (hcomma : ',' ∉ name.toList) :
    (fields ',' (commas count ++ name)).map trim = List.replicate count "" ++ [name] := by
  have hempty : trim "" = "" := rfl
  rw [fields_commas count hcomma, List.map_append, List.map_replicate, hempty, List.map_singleton,
    hname.trim_eq]

end Text

/-! ## Reading the forms -/

theorem Signature.splitParameter_ofParameter {method : Signature} {index : Nat}
    (hparen : '(' ∈ method.toList) (hat : '@' ∉ method.toList) (hindex : index ≤ Text.maxOffset) :
    splitParameter (ofParameter method index) = some (method, index) := by
  have hcut : Text.cutLast '#' (ofParameter method index) = some (method, toString index) :=
    Text.cutLast_eq method (toString index) (toList_ofParameter method index)
      (notMem_toString rfl index)
  simp only [splitParameter, hcut, Text.containsChar_iff.2 hparen,
    Text.containsChar_eq_false hat, Text.readOffset_toString hindex]
  rfl

namespace MappingLine

open Text

/-- The parts of the signature of a method for whose parameters there can be lines. -/
structure IsLineMethod (owner name descriptor : String) : Prop
    extends IsWord (owner ++ "." ++ name ++ descriptor) where
  slash_notMem : '/' ∉ owner.toList
  paren_notMem : '(' ∉ (owner ++ "." ++ name).toList
  isMethod : ∃ d, Descriptor.parseMethod descriptor = .ok d
  equals_notMem : '=' ∉ (owner ++ "." ++ name ++ descriptor).toList
  at_notMem : '@' ∉ (owner ++ "." ++ name ++ descriptor).toList
  head?_ne : (owner ++ "." ++ name ++ descriptor).toList.head? ≠ some '#'

/-- The new name of a parameter as one word. -/
structure IsParameterWord (new : String) : Prop extends IsWord new where
  comma_notMem : ',' ∉ new.toList
  equals_notMem : '=' ∉ new.toList

/-- The signature of a method with slashes in its owner. -/
def slashedKey (owner name descriptor : String) : String :=
  replaceChar '.' '/' owner ++ "." ++ name ++ descriptor

/-- A line for the one parameter with the given index: the key of the method, what the method
throws, and the names of its parameters after a bar, of which there is one. -/
def exceptionLine (key pad throws : String) (index : Nat) (new : String) : String :=
  key ++ pad ++ "=" ++ (throws ++ "|" ++ (commas index ++ new))

section Direct

variable {method : Signature} {index : Nat} {new : String}

theorem isWord_ofParameter (hmethod : IsWord method) (index : Nat) :
    IsWord (Signature.ofParameter method index) :=
  (hmethod.append (by decide)).append (isWord_toString index)

theorem head?_ofParameter (hmethod : IsWord method) (index : Nat) :
    (Signature.ofParameter method index).toList.head? = method.toList.head? := by
  obtain ⟨c, cs, hcs, -⟩ := hmethod.exists_cons
  simp [Signature.toList_ofParameter, hcs]

theorem isWord_of_mem_spaced (hmethod : IsWord method) (hnew : IsWord new) :
    ∀ w ∈ [method, toString index, new], IsWord w := by
  rw [List.forall_mem_cons, List.forall_mem_cons, List.forall_mem_singleton]
  exact ⟨hmethod, isWord_toString index, hnew⟩

theorem isWord_of_mem_hashed (hmethod : IsWord method) (hnew : IsWord new) :
    ∀ w ∈ [Signature.ofParameter method index, new], IsWord w := by
  rw [List.forall_mem_cons, List.forall_mem_singleton]
  exact ⟨isWord_ofParameter hmethod index, hnew⟩

theorem secondaryEntries_spaced (hmethod : IsWord method) (hkey : IsMethodKey method)
    (hequals : '=' ∉ method.toList) (hindex : index ≤ maxOffset) (hnew : IsParameterWord new) :
    secondaryEntries (join " " [method, toString index, new]) =
      .ok [.parameter method index new] := by
  have hcut : cutFirst '=' (join " " [method, toString index, new]) = none := by
    apply cutFirst_of_notMem
    apply notMem_join (by decide)
    rw [List.forall_mem_cons, List.forall_mem_cons, List.forall_mem_singleton]
    exact ⟨hequals, notMem_toString rfl index, hnew.equals_notMem⟩
  simp only [secondaryEntries, hcut, words_join (isWord_of_mem_spaced hmethod hnew.toIsWord),
    checkMethodKey_of_isMethodKey hkey, readOffset_toString hindex]
  rfl

theorem secondaryEntries_hashed (hmethod : IsWord method) (hparen : '(' ∈ method.toList)
    (hequals : '=' ∉ method.toList) (hat : '@' ∉ method.toList) (hindex : index ≤ maxOffset)
    (hnew : IsParameterWord new) :
    secondaryEntries (join " " [Signature.ofParameter method index, new]) =
      .ok [.parameter method index new] := by
  have hsignature : '=' ∉ (Signature.ofParameter method index).toList := by
    rw [Signature.toList_ofParameter, List.mem_append, List.mem_cons]
    have hdigits : '=' ∉ (toString index).toList := notMem_toString rfl index
    simp only [hequals, hdigits]
    decide
  have hcut : cutFirst '=' (join " " [Signature.ofParameter method index, new]) = none := by
    apply cutFirst_of_notMem
    apply notMem_join (by decide)
    rw [List.forall_mem_cons, List.forall_mem_singleton]
    exact ⟨hsignature, hnew.equals_notMem⟩
  simp only [secondaryEntries, hcut, words_join (isWord_of_mem_hashed hmethod hnew.toIsWord),
    Signature.splitParameter_ofParameter hparen hat hindex]

end Direct

/-- Names that are left out take up an index. -/
theorem namedParameters_last (method : Signature) (index : Nat) {new : String} (hnew : new ≠ "") :
    namedParameters method (List.replicate index "" ++ [new]) = [.parameter method index new] := by
  rw [namedParameters, List.zipIdx_append, List.filterMap_append, List.filterMap_eq_nil_iff.2]
  · simp [namedParameter?, hnew]
  · rintro ⟨name, i⟩ hmem
    obtain rfl : name = "" := List.eq_of_mem_replicate (List.fst_mem_of_mem_zipIdx hmem)
    rfl

theorem exceptionEntries_eq {path descriptor front names : String} (hpath : '(' ∉ path.toList)
    (hdescriptor : Descriptor.IsMethod descriptor.toList) (hfront : '|' ∉ front.toList) :
    exceptionEntries (path ++ descriptor) (front ++ "|" ++ names) =
      .ok (namedParameters (dotted path ++ descriptor) ((fields ',' names).map trim)) := by
  have hcut : cutFirst '|' (front ++ "|" ++ names) = some (front, names) :=
    cutFirst_eq front names (by simp) hfront
  rw [exceptionEntries, cutAtParen_append hpath hdescriptor.head?_eq]
  simp only [checkDescriptor_of_isMethod hdescriptor, hcut]
  rfl

section Exception

variable {owner name descriptor pad throws new : String} {index : Nat}

theorem numbered_exceptionLine {key : String} (hkey : IsWord key)
    (hhead : key.toList.head? ≠ some '#') (hpad : '\n' ∉ pad.toList)
    (hthrows : '\n' ∉ throws.toList) (hnew : IsWord new) :
    numbered (exceptionLine key pad throws index new) =
      [(exceptionLine key pad throws index new, 1)] := by
  obtain ⟨c, cs, hcs, hc⟩ := hkey.exists_cons
  have hfirst : (exceptionLine key pad throws index new).toList.head? = some c := by
    simp [exceptionLine, hcs]
  have hlast : EndsSolid (exceptionLine key pad throws index new) :=
    ((hnew.endsSolid.append _).append _).append _
  have hfeed : '\n' ∉ (exceptionLine key pad throws index new).toList := by
    simp [exceptionLine, commas, hpad, hthrows, hkey.feed_notMem, hnew.feed_notMem]
  refine numbered_eq_singleton hfeed (trim_eq_self ?_ hlast.getLast?) ?_
  · rw [hfirst]
    rintro d ⟨⟩
    exact hc
  · refine isStatement_of_head hfirst ?_
    rintro rfl
    exact hhead (by rw [hcs, List.head?_cons])

theorem slash_notMem_dotted (path : String) : '/' ∉ (dotted path).toList := by
  rw [dotted, replaceChar, String.toList_ofList, List.mem_map]
  rintro ⟨c, -, hc⟩
  split at hc
  · exact absurd hc (by decide)
  · contradiction

/-- The dots of the owner come back, and slashes in the name become dots as well. -/
theorem dotted_path (howner : '/' ∉ owner.toList) :
    dotted (replaceChar '.' '/' owner ++ "." ++ name) = owner ++ "." ++ dotted name := by
  have hback : dotted (replaceChar '.' '/' owner) = owner := replaceChar_replaceChar howner
  have happend : ∀ s t, dotted (s ++ t) = dotted s ++ dotted t := by
    intro s t
    simp [dotted, replaceChar]
  rw [happend, happend, hback]
  rfl

theorem mem_of_mem_slashedKey {c : Char} (h : c ∈ (slashedKey owner name descriptor).toList) :
    c = '/' ∨ c ∈ (owner ++ "." ++ name ++ descriptor).toList := by
  by_contra hnone
  obtain ⟨hslash, hmethod⟩ := not_or.1 hnone
  simp only [slashedKey, String.toList_append, List.mem_append, not_or] at h hmethod
  obtain ⟨⟨⟨howner, hdot⟩, hname⟩, hdescriptor⟩ := hmethod
  have hslashed : c ∉ (replaceChar '.' '/' owner).toList := notMem_toList_replaceChar hslash howner
  simp only [hslashed, hdot, hname, hdescriptor, or_self] at h

namespace IsLineMethod

variable (h : IsLineMethod owner name descriptor)

include h

theorem isMethod_toList : Descriptor.IsMethod descriptor.toList :=
  (Descriptor.exists_parseMethod_iff descriptor).1 h.isMethod

theorem isMethodKey : IsMethodKey (owner ++ "." ++ name ++ descriptor) :=
  ⟨owner ++ "." ++ name, descriptor, rfl, by simp, h.paren_notMem, h.isMethod_toList⟩

theorem isWord_slashedKey : IsWord (slashedKey owner name descriptor) where
  nonempty hempty := by
    have hdot : '.' ∈ (slashedKey owner name descriptor).toList := by simp [slashedKey]
    rw [hempty] at hdot
    cases hdot
  solid c hc := by
    rcases mem_of_mem_slashedKey hc with rfl | hmem
    · rfl
    · exact h.solid c hmem

theorem slashedKey_head?_ne : (slashedKey owner name descriptor).toList.head? ≠ some '#' := by
  have hhead := h.head?_ne
  cases howner : owner.toList with
  | nil => simp [slashedKey, replaceChar, howner]
  | cons c cs =>
    simp only [slashedKey, replaceChar, String.toList_append, String.toList_ofList, howner,
      List.map_cons, List.cons_append, List.head?_cons, ne_eq, Option.some.injEq] at hhead ⊢
    split
    · decide
    · exact hhead

theorem secondaryEntries_exceptionLine (hpad : ∀ c ∈ pad.toList, isBlank c = true)
    (hthrows : '|' ∉ throws.toList) (hnew : IsParameterWord new) :
    secondaryEntries (exceptionLine (slashedKey owner name descriptor) pad throws index new) =
      .ok [.parameter (owner ++ "." ++ dotted name ++ descriptor) index new] := by
  have hequals : '=' ∉ (slashedKey owner name descriptor ++ pad).toList := by
    rw [String.toList_append, List.mem_append, not_or]
    refine ⟨fun hmem => ?_, fun hmem => absurd (hpad '=' hmem) (by decide)⟩
    exact (mem_of_mem_slashedKey hmem).elim (by decide) h.equals_notMem
  have hcut : cutFirst '='
      (exceptionLine (slashedKey owner name descriptor) pad throws index new) =
        some (slashedKey owner name descriptor ++ pad,
          throws ++ "|" ++ (commas index ++ new)) :=
    cutFirst_eq _ _ (by simp [exceptionLine]) hequals
  obtain ⟨front, hfront, htrim⟩ := exists_trim_bar hthrows (hnew.endsSolid.append (commas index))
  have hpath : '(' ∉ (replaceChar '.' '/' owner ++ "." ++ name).toList := by
    have hparen := h.paren_notMem
    simp only [String.toList_append, List.mem_append, not_or] at hparen ⊢
    exact ⟨⟨notMem_toList_replaceChar (by decide) hparen.1.1, hparen.1.2⟩, hparen.2⟩
  simp only [secondaryEntries, hcut, htrim, trim_append_blanks h.isWord_slashedKey hpad]
  rw [slashedKey, exceptionEntries_eq hpath h.isMethod_toList hfront,
    map_trim_fields_commas index hnew.toIsWord hnew.comma_notMem,
    namedParameters_last _ _ hnew.nonempty, dotted_path h.slash_notMem]

end IsLineMethod

end Exception

end MappingLine

namespace RenameTable

/-- The entry for a parameter comes before all that a table has for symbols. -/
theorem replacement_insert_parameter (t : RenameTable) {method : Signature} {index : Nat}
    {o : Occurrence} (hparen : '(' ∈ method.toList) (hat : '@' ∉ method.toList)
    (hindex : index ≤ Text.maxOffset) (hkind : o.kind = .parameter)
    (hsignature : o.signature = .ofParameter method index) (new written : String) :
    replacement (t.insert (.parameter method index new)) o written = some new := by
  have hown : (t.insert (.parameter method index new)).ownParameter? o = some new := by
    rw [ownParameter?, if_pos hkind, hsignature,
      Signature.splitParameter_ofParameter hparen hat hindex]
    exact SortedMap.get?_insert_self t.params ⟨method, index⟩ new
  rw [replacement, hown]

/-- Methods under which a parameter gets a name in the empty table. -/
theorem eq_of_insert_parameter_eq {method method' : Signature} {index : Nat} {new : String}
    (h : ({} : RenameTable).insert (.parameter method index new) =
      ({} : RenameTable).insert (.parameter method' index new)) : method = method' := by
  by_contra hne
  have hget := congrArg (fun t => t.get? (.parameter method index)) h
  simp only [get?_insert, Renamed.key, Renamed.newName, if_true, TableKey.parameter.injEq, hne,
    false_and, if_false] at hget
  cases hget

namespace Loading

open MappingLine Text

/-- Whether a line for parameters is accepted and makes the table into `t`. -/
def AcceptsSecondary (l : Loading) (line : String) (t : RenameTable) : Prop :=
  ∀ source, l.secondary source line = ⟨t, { l.report with accepted := l.report.accepted + 1 }⟩

/-- Lines that all make the same table, in which a parameter has a new name. Occurrences of the
parameter get this name, whatever else is in the table. -/
structure NamesParameter (l : Loading) (lines : List String) (method : Signature) (index : Nat)
    (new : String) : Prop where
  accepted : ∀ line ∈ lines,
    l.AcceptsSecondary line (l.table.insert (.parameter method index new))
  renamed : ∀ o written, o.kind = .parameter → o.signature = .ofParameter method index →
    replacement (l.table.insert (.parameter method index new)) o written = some new

theorem AcceptsSecondary.unique {l : Loading} {line : String} {t t' : RenameTable}
    (h : l.AcceptsSecondary line t) (hother : l.AcceptsSecondary line t') : t = t' :=
  congrArg Loading.table ((h "").symm.trans (hother ""))

theorem acceptsSecondary_of_read (l : Loading) {line : String} {e : Renamed}
    (hline : numbered line = [(line, 1)]) (hread : secondaryEntries line = .ok [e]) :
    l.AcceptsSecondary line (l.table.insert e) := by
  intro source
  rw [secondary, readText_eq _ reads_secondary, hline, noteAll, List.foldl_cons, List.foldl_nil,
    hread]
  rfl

variable {owner name descriptor pad throws new : String} {index : Nat}

theorem namesParameter_direct (l : Loading) (h : IsLineMethod owner name descriptor)
    (hindex : index ≤ maxOffset) (hnew : IsParameterWord new) :
    l.NamesParameter
      [join " " [owner ++ "." ++ name ++ descriptor, toString index, new],
        join " " [Signature.ofParameter (owner ++ "." ++ name ++ descriptor) index, new]]
      (owner ++ "." ++ name ++ descriptor) index new where
  accepted := by
    have hparen := h.isMethodKey.paren_mem
    have hhead : (Signature.ofParameter (owner ++ "." ++ name ++ descriptor) index).toList.head? ≠
        some '#' := by
      rw [head?_ofParameter h.toIsWord]
      exact h.head?_ne
    rw [List.forall_mem_cons, List.forall_mem_singleton]
    refine ⟨acceptsSecondary_of_read l ?_ ?_, acceptsSecondary_of_read l ?_ ?_⟩
    · exact numbered_join (isWord_of_mem_spaced h.toIsWord hnew.toIsWord) h.head?_ne
    · exact secondaryEntries_spaced h.toIsWord h.isMethodKey h.equals_notMem hindex hnew
    · exact numbered_join (isWord_of_mem_hashed h.toIsWord hnew.toIsWord) hhead
    · exact secondaryEntries_hashed h.toIsWord hparen h.equals_notMem h.at_notMem hindex hnew
  renamed o written hkind hsignature :=
    replacement_insert_parameter l.table h.isMethodKey.paren_mem h.at_notMem hindex hkind
      hsignature new written

section Exception

variable (h : IsLineMethod owner name descriptor)
  (hpad : ∀ c ∈ pad.toList, isBlank c = true ∧ c ≠ '\n')
  (hthrows : '|' ∉ throws.toList ∧ '\n' ∉ throws.toList) (hnew : IsParameterWord new)
  (index : Nat)

include h hpad hthrows hnew

theorem accepts_exceptionLine (l : Loading) :
    l.AcceptsSecondary (exceptionLine (slashedKey owner name descriptor) pad throws index new)
      (l.table.insert (.parameter (owner ++ "." ++ dotted name ++ descriptor) index new)) := by
  have hfeed : '\n' ∉ pad.toList := fun hmem => (hpad '\n' hmem).2 rfl
  refine acceptsSecondary_of_read l ?_ ?_
  · exact numbered_exceptionLine h.isWord_slashedKey h.slashedKey_head?_ne hfeed hthrows.2
      hnew.toIsWord
  · exact h.secondaryEntries_exceptionLine (fun c hc => (hpad c hc).1) hthrows.1 hnew

theorem accepts_exceptionLine_iff :
    (∀ l : Loading,
      l.AcceptsSecondary (exceptionLine (slashedKey owner name descriptor) pad throws index new)
        (l.table.insert (.parameter (owner ++ "." ++ name ++ descriptor) index new))) ↔
      '/' ∉ name.toList := by
  constructor
  · intro hall hslash
    have hsame := (hall {}).unique (accepts_exceptionLine h hpad hthrows hnew index {})
    have hmethod := eq_of_insert_parameter_eq hsame
    rw [String.append_left_inj, String.append_right_inj] at hmethod
    exact slash_notMem_dotted name (hmethod ▸ hslash)
  · intro hslash l
    have hline := accepts_exceptionLine h hpad hthrows hnew index l
    rwa [dotted, replaceChar_of_notMem hslash] at hline

end Exception

/-- The two forms with the signature of the method put the same entry into any table, by which
occurrences of the parameter are renamed. The form with the path to the method does so, too, if and
only if the name of the method has no slash. -/
theorem parameter_lines_agree (owner name descriptor pad throws new : String) (index : Nat)
    (h : IsLineMethod owner name descriptor)
    (hpad : ∀ c ∈ pad.toList, isBlank c = true ∧ c ≠ '\n')
    (hthrows : '|' ∉ throws.toList ∧ '\n' ∉ throws.toList) (hindex : index ≤ maxOffset)
    (hnew : IsParameterWord new) :
    let method := owner ++ "." ++ name ++ descriptor
    let direct :=
      [join " " [method, toString index, new], join " " [Signature.ofParameter method index, new]]
    let listed := exceptionLine (slashedKey owner name descriptor) pad throws index new
    (∀ l : Loading, l.NamesParameter direct method index new) ∧
      ((∀ l : Loading, l.NamesParameter (listed :: direct) method index new) ↔
        '/' ∉ name.toList) := by
  intro method direct listed
  have hdirect : ∀ l : Loading, l.NamesParameter direct method index new :=
    fun l => namesParameter_direct l h hindex hnew
  refine ⟨hdirect, ?_⟩
  rw [← accepts_exceptionLine_iff h hpad hthrows hnew index]
  constructor
  · intro hall l
    exact (hall l).accepted listed List.mem_cons_self
  · intro haccepts l
    exact ⟨List.forall_mem_cons.2 ⟨haccepts l, (hdirect l).accepted⟩, (hdirect l).renamed⟩

theorem isLineMethod_run :
    IsLineMethod "com.x.A" "run" "(ILjava/lang/String;)V" where
  toIsWord := by decide
  slash_notMem := by decide
  paren_notMem := by decide
  isMethod := ⟨⟨[.prim .int, .object "java.lang.String"], none⟩, by decide⟩
  equals_notMem := by decide
  at_notMem := by decide
  head?_ne := by decide

/-- The table has another name for the signature of the parameter. -/
theorem parameter_lines_agree_run :
    let table := RenameTable.empty.insert (.symbol "com.x.A.run(ILjava/lang/String;)V#1" "general")
    ({ table } : Loading).NamesParameter
      ["com/x/A.run(ILjava/lang/String;)V = java/io/IOException|,p_2",
        "com.x.A.run(ILjava/lang/String;)V 1 p_2", "com.x.A.run(ILjava/lang/String;)V#1 p_2"]
      "com.x.A.run(ILjava/lang/String;)V" 1 "p_2" := by
  intro table
  have hpad : ∀ c ∈ " ".toList, isBlank c = true ∧ c ≠ '\n' := by
    simp only [String.reduceToList, List.forall_mem_singleton]
    decide
  obtain ⟨-, hiff⟩ := parameter_lines_agree "com.x.A" "run" "(ILjava/lang/String;)V" " "
    " java/io/IOException" "p_2" 1 isLineMethod_run hpad (by decide) (by decide)
    ⟨by decide, by decide, by decide⟩
  exact hiff.2 (by decide) { table }

/-- A method whose name has a slash. -/
theorem parameter_lines_differ :
    let listed := exceptionLine (slashedKey "A" "a/b" "()V") "" "" 0 "n"
    let l : Loading := {}
    IsLineMethod "A" "a/b" "()V" ∧ IsParameterWord "n" ∧ listed = "A.a/b()V=|n" ∧
      l.NamesParameter ["A.a/b()V 0 n", "A.a/b()V#0 n"] "A.a/b()V" 0 "n" ∧
      ¬ l.NamesParameter [listed] "A.a/b()V" 0 "n" ∧
      ∀ source, replacement (l.secondary source listed).table
        ⟨⟨0, 1⟩, "A.a/b()V#0", .parameter, []⟩ "x" = none := by
  intro listed l
  have hmethod : IsLineMethod "A" "a/b" "()V" :=
    ⟨by decide, by decide, by decide, ⟨⟨[], none⟩, by decide⟩, by decide, by decide, by decide⟩
  have hnew : IsParameterWord "n" := ⟨by decide, by decide, by decide⟩
  have hlisted : l.AcceptsSecondary listed (l.table.insert (.parameter "A.a.b()V" 0 "n")) :=
    accepts_exceptionLine hmethod (by simp) (by decide) hnew 0 l
  have hnone : replacement (l.table.insert (.parameter "A.a.b()V" 0 "n"))
      ⟨⟨0, 1⟩, "A.a/b()V#0", .parameter, []⟩ "x" = none := by
    decide +kernel
  refine ⟨hmethod, hnew, by decide, ?_, ?_, ?_⟩
  · exact namesParameter_direct l hmethod (by decide : 0 ≤ maxOffset) hnew
  · intro hnames
    have hsame := (hnames.accepted listed List.mem_cons_self).unique hlisted
    have hrenamed := hnames.renamed ⟨⟨0, 1⟩, "A.a/b()V#0", .parameter, []⟩ "x" rfl (by decide)
    rw [hsame, hnone] at hrenamed
    cases hrenamed
  · intro source
    rw [hlisted source]
    exact hnone

end Loading

end RenameTable

end Renaming
