import Renaming.Proofs.Occurrence
import Renaming.Proofs.Splice
import Renaming.Proofs.Text.Offsets

/-!
# The pass over a unit is an exact splice

Spans in order cut a text into gaps and the names between them. The pass over the octets and the
splice of characters both leave the gaps as they are and put the new names between them, whatever
the widths of the characters. The pass breaks off only where a span reaches beyond the text, and
never at a slice.
-/

namespace Renaming

/-! ## Cutting a text -/

/-- What stands before, between and after the occurrences of a text, from a character offset on. -/
def gaps (text : List Char) : Nat → List Occurrence → List (List Char)
  | cursor, [] => [text.drop cursor]
  | cursor, o :: os => (⟨cursor, o.span.start⟩ : Span).slice text :: gaps text o.span.stop os

/-- The text with the given names between the given gaps. -/
def weave : List (List Char) → List String → List Char
  | gap :: gaps, name :: names => gap ++ (name.toList ++ weave gaps names)
  | gaps, _ => gaps.flatten

/-- What stands at an occurrence, and what a table makes of it. -/
def RenameTable.entryAt (t : RenameTable) (unit : String) (text : List Char) (o : Occurrence) :
    RenameEntry :=
  let written := String.ofList (o.span.slice text)
  ⟨written, (replacement t o written).getD written, unit, o.span.start⟩

def RenameEntry.changes (e : RenameEntry) : Bool := e.new != e.old

/-- Occurrences that a pass can still reach from a character offset: they are in order, start there
or later, and none ends before it starts. -/
structure Ahead (cursor : Nat) (os : List Occurrence) : Prop where
  inOrder : InOrder os
  reached : ∀ o ∈ os, cursor ≤ o.span.start
  spans : ∀ o ∈ os, o.span.start ≤ o.span.stop

namespace Ahead

variable {cursor : Nat} {o : Occurrence} {os : List Occurrence}

theorem head (h : Ahead cursor (o :: os)) : cursor ≤ o.span.start ∧ o.span.start ≤ o.span.stop :=
  ⟨h.reached o List.mem_cons_self, h.spans o List.mem_cons_self⟩

/-- What follows an occurrence is still ahead at its end. -/
theorem tail (h : Ahead cursor (o :: os)) : Ahead o.span.stop os where
  inOrder := (List.pairwise_cons.1 h.inOrder).2
  reached := fun later hlater => ((List.pairwise_cons.1 h.inOrder).1 later hlater).2
  spans := fun later hlater => h.spans later (List.mem_cons_of_mem o hlater)

end Ahead

/-- The gaps and what stands between them make up the text. -/
theorem weave_gaps_old (t : RenameTable) (unit : String) (text : List Char) {cursor : Nat}
    {os : List Occurrence} (h : Ahead cursor os) :
    weave (gaps text cursor os) ((os.map (t.entryAt unit text)).map RenameEntry.old) =
      text.drop cursor := by
  induction os generalizing cursor with
  | nil => simp [gaps, weave]
  | cons o os ih =>
    obtain ⟨hreached, hspan⟩ := h.head
    rw [gaps, List.map_cons, List.map_cons, weave, ih h.tail, RenameTable.entryAt,
      String.toList_ofList, Span.slice_append_drop hspan, Span.slice_append_drop hreached]

/-! ## The pass over the octets -/

namespace SplicePass

variable (t : RenameTable) (unit : String) {old : String}

theorem slice_eq {first last : Nat} (h : first ≤ last) (hlast : last ≤ old.toList.length) :
    slice old (Text.octetsBefore old first) (Text.octetsBefore old last) =
      .ok (String.ofList ((⟨first, last⟩ : Span).slice old.toList)) := by
  rw [slice, Text.octetSlice?_eq h hlast]

theorem offset_of_le (span : Span) {char : Nat} (h : char ≤ old.toList.length) :
    offset unit old span char = .ok (Text.octetsBefore old char) := by
  rw [offset, Text.byteOf_eq, if_pos h]

theorem offset_of_lt (span : Span) {char : Nat} (h : old.toList.length < char) :
    offset unit old span char =
      .error (.unit (.spanOutOfBounds unit span old.toList.length)) := by
  rw [offset, Text.byteOf_eq, if_neg (Nat.not_le.2 h), Text.charCount_eq]

/-- One step copies the gap, puts the new name and notes it if it is another one. -/
theorem step_eq {cursor : Nat} (text : String) (entries : RenameLog) {o : Occurrence}
    (hreached : cursor ≤ o.span.start) (hspan : o.span.start ≤ o.span.stop)
    (hstop : o.span.stop ≤ old.toList.length) :
    step t unit old ⟨Text.octetsBefore old cursor, text, entries⟩ o =
      .ok ⟨Text.octetsBefore old o.span.stop,
        text ++ String.ofList ((⟨cursor, o.span.start⟩ : Span).slice old.toList) ++
          (t.entryAt unit old.toList o).new,
        entries ++ [t.entryAt unit old.toList o].filter RenameEntry.changes⟩ := by
  have hstart : o.span.start ≤ old.toList.length := Nat.le_trans hspan hstop
  simp only [step, offset_of_le unit o.span hstart, offset_of_le unit o.span hstop,
    slice_eq hreached hstart, slice_eq hspan hstop, bind, Except.bind]
  cases hnew : replacement t o (String.ofList (o.span.slice old.toList)) with
  | none => simp [RenameTable.entryAt, RenameEntry.changes, hnew, pure, Except.pure]
  | some new =>
    by_cases hsame : new = String.ofList (o.span.slice old.toList)
    · simp [RenameTable.entryAt, RenameEntry.changes, hnew, hsame, pure, Except.pure]
    · simp [List.filter_cons, RenameTable.entryAt, RenameEntry.changes, hnew, hsame, pure,
        Except.pure]

theorem step_of_lt (p : SplicePass) {o : Occurrence} (hstop : old.toList.length < o.span.stop) :
    step t unit old p o =
      .error (.unit (.spanOutOfBounds unit o.span old.toList.length)) := by
  by_cases hstart : o.span.start ≤ old.toList.length
  · simp only [step, offset_of_le unit o.span hstart, offset_of_lt unit o.span hstop, bind,
      Except.bind]
  · simp only [step, offset_of_lt unit o.span (Nat.not_le.1 hstart), bind, Except.bind]

theorem run_cons {p q : SplicePass} {o : Occurrence} (hstep : step t unit old p o = .ok q)
    (os : List Occurrence) : run t unit old p (o :: os) = run t unit old q os := by
  simp only [run, List.foldlM_cons, hstep, bind, Except.bind]

/-- A pass over spans within the text comes to its end. -/
theorem run_eq {cursor : Nat} (text : String) (entries : RenameLog) {os : List Occurrence}
    (h : Ahead cursor os) (hcursor : cursor ≤ old.toList.length)
    (hstops : ∀ o ∈ os, o.span.stop ≤ old.toList.length) :
    run t unit old ⟨Text.octetsBefore old cursor, text, entries⟩ os =
      .ok ⟨text.toList ++ weave (gaps old.toList cursor os)
          ((os.map (t.entryAt unit old.toList)).map RenameEntry.new),
        entries ++ (os.map (t.entryAt unit old.toList)).filter RenameEntry.changes⟩ := by
  induction os generalizing cursor text entries with
  | nil =>
    have hrest : (⟨cursor, old.toList.length⟩ : Span).slice old.toList =
        old.toList.drop cursor := by
      simpa using Span.slice_append_drop hcursor old.toList
    simp only [run, List.foldlM_nil, finish, bind, Except.bind, pure, Except.pure,
      ← Text.octetsBefore_length, slice_eq hcursor (Nat.le_refl _), hrest]
    simp [gaps, weave]
  | cons o os ih =>
    obtain ⟨hreached, hspan⟩ := h.head
    have hstop := hstops o List.mem_cons_self
    rw [run_cons t unit (step_eq t unit text entries hreached hspan hstop), ih _ _ h.tail hstop
      fun later hlater => hstops later (List.mem_cons_of_mem o hlater)]
    have hlog : ((o :: os).map (t.entryAt unit old.toList)).filter RenameEntry.changes =
        [t.entryAt unit old.toList o].filter RenameEntry.changes ++
          (os.map (t.entryAt unit old.toList)).filter RenameEntry.changes := by
      rw [List.map_cons, ← List.filter_append, List.singleton_append]
    rw [hlog]
    simp only [gaps, weave, List.map_cons, String.toList_append, String.toList_ofList,
      List.append_assoc]

/-- A pass breaks off at the first span that reaches beyond the text. -/
theorem run_of_lt {cursor : Nat} (text : String) (entries : RenameLog)
    {before after : List Occurrence} {o : Occurrence} (h : Ahead cursor (before ++ o :: after))
    (hstops : ∀ b ∈ before, b.span.stop ≤ old.toList.length)
    (hstop : old.toList.length < o.span.stop) :
    run t unit old ⟨Text.octetsBefore old cursor, text, entries⟩ (before ++ o :: after) =
      .error (.unit (.spanOutOfBounds unit o.span old.toList.length)) := by
  induction before generalizing cursor text entries with
  | nil =>
    simp only [List.nil_append, run, List.foldlM_cons, step_of_lt t unit _ hstop, bind,
      Except.bind]
  | cons b before ih =>
    obtain ⟨hreached, hspan⟩ := h.head
    rw [List.cons_append,
      run_cons t unit (step_eq t unit text entries hreached hspan (hstops b List.mem_cons_self))]
    exact ih _ _ h.tail fun later hlater => hstops later (List.mem_cons_of_mem b hlater)

end SplicePass

/-! ## The splice of characters -/

/-- Splicing character by character gives what the pass gives. -/
theorem spliceFrom_eq (t : RenameTable) (unit : String) (text : List Char) {cursor : Nat}
    {os : List Occurrence} (h : Ahead cursor os) :
    spliceFrom t unit cursor (text.drop cursor) os =
      ⟨weave (gaps text cursor os) ((os.map (t.entryAt unit text)).map RenameEntry.new),
        (os.map (t.entryAt unit text)).filter RenameEntry.changes⟩ := by
  induction os generalizing cursor with
  | nil => simp [spliceFrom, gaps, weave]
  | cons o os ih =>
    obtain ⟨hreached, hspan⟩ := h.head
    have hstart : (text.drop cursor).drop (o.span.start - cursor) = text.drop o.span.start := by
      rw [List.drop_drop, Nat.add_sub_cancel' hreached]
    have hstop : (text.drop o.span.start).drop o.span.length = text.drop o.span.stop := by
      rw [List.drop_drop, Span.length, Nat.add_sub_cancel' hspan]
    have hgap : (text.drop cursor).take (o.span.start - cursor) =
        (⟨cursor, o.span.start⟩ : Span).slice text := rfl
    have hwritten : (text.drop o.span.start).take o.span.length = o.span.slice text := rfl
    simp only [spliceFrom, hstart, hstop, hgap, hwritten, ih h.tail]
    cases hnew : replacement t o (String.ofList (o.span.slice text)) with
    | none => simp [gaps, weave, RenameTable.entryAt, RenameEntry.changes, hnew]
    | some new =>
      by_cases hsame : new = String.ofList (o.span.slice text)
      · simp [gaps, weave, RenameTable.entryAt, RenameEntry.changes, hnew, hsame]
      · simp [gaps, weave, List.filter_cons, RenameTable.entryAt, RenameEntry.changes, hnew, hsame]

theorem find?_beyond_eq_none {os : List Occurrence} {length : Nat}
    (hspans : ∀ o ∈ os, o.span.start ≤ o.span.stop) (hstops : ∀ o ∈ os, o.span.stop ≤ length) :
    os.find? (fun o => length < o.span.start || length < o.span.stop) = none := by
  rw [List.find?_eq_none]
  intro o ho
  have hstop := hstops o ho
  have hstart := Nat.le_trans (hspans o ho) hstop
  simpa using ⟨hstart, hstop⟩

theorem spliceUnit_eq (t : RenameTable) (unit : String) {text : String} {os : List Occurrence}
    (h : Ahead 0 os) (hstops : ∀ o ∈ os, o.span.stop ≤ text.toList.length) :
    spliceUnit t unit text os =
      .ok ⟨weave (gaps text.toList 0 os)
          ((os.map (t.entryAt unit text.toList)).map RenameEntry.new),
        (os.map (t.entryAt unit text.toList)).filter RenameEntry.changes⟩ := by
  have hfrom := spliceFrom_eq t unit text.toList h
  rw [List.drop_zero] at hfrom
  simp only [spliceUnit, find?_beyond_eq_none h.spans hstops, hfrom]

theorem spliceUnit_of_lt (t : RenameTable) (unit : String) {text : String}
    {before after : List Occurrence} {o : Occurrence} (h : Ahead 0 (before ++ o :: after))
    (hstops : ∀ b ∈ before, b.span.stop ≤ text.toList.length)
    (hstop : text.toList.length < o.span.stop) :
    spliceUnit t unit text (before ++ o :: after) = .error o.span := by
  have hbefore := find?_beyond_eq_none (fun b hb => h.spans b (by simp [hb])) hstops
  simp [spliceUnit, List.find?_append, hbefore, hstop]

/-! ## The exact splice -/

theorem spliceOctets_eq (t : RenameTable) (unit : String) {text : String} {os : List Occurrence}
    (h : Ahead 0 os) (hstops : ∀ o ∈ os, o.span.stop ≤ text.toList.length) :
    spliceOctets t unit text os =
      .ok ⟨weave (gaps text.toList 0 os)
          ((os.map (t.entryAt unit text.toList)).map RenameEntry.new),
        (os.map (t.entryAt unit text.toList)).filter RenameEntry.changes⟩ := by
  have hrun := SplicePass.run_eq t unit "" [] h (Nat.zero_le _) hstops
  rw [Text.octetsBefore_zero] at hrun
  exact hrun

theorem spliceOctets_of_lt (t : RenameTable) (unit : String) {text : String}
    {before after : List Occurrence} {o : Occurrence} (h : Ahead 0 (before ++ o :: after))
    (hstops : ∀ b ∈ before, b.span.stop ≤ text.toList.length)
    (hstop : text.toList.length < o.span.stop) :
    spliceOctets t unit text (before ++ o :: after) =
      .error (.unit (.spanOutOfBounds unit o.span text.toList.length)) := by
  have hrun := SplicePass.run_of_lt t unit "" [] h hstops hstop
  rw [Text.octetsBefore_zero] at hrun
  exact hrun

/-- All spans end within a text, or there is a first one that does not. -/
theorem forall_stop_le_or_exists_first (os : List Occurrence) (length : Nat) :
    (∀ o ∈ os, o.span.stop ≤ length) ∨ ∃ before o after, os = before ++ o :: after ∧
      (∀ b ∈ before, b.span.stop ≤ length) ∧ length < o.span.stop := by
  cases hfind : os.find? (fun o => length < o.span.stop) with
  | none =>
    left
    simpa using List.find?_eq_none.1 hfind
  | some o =>
    obtain ⟨hstop, before, after, rfl, hstops⟩ := List.find?_eq_some_iff_append.1 hfind
    exact .inr ⟨before, o, after, rfl, by simpa using hstops, by simpa using hstop⟩

/-- A pass over spans in order takes no slice that has its ends in the wrong order or cuts a
character. -/
theorem spliceOctets_ne_slice (t : RenameTable) (unit text : String) {os : List Occurrence}
    (h : Ahead 0 os) (first last : Nat) :
    spliceOctets t unit text os ≠ .error (.slice first last) := by
  rcases forall_stop_le_or_exists_first os text.toList.length with
    hstops | ⟨before, o, after, rfl, hstops, hstop⟩
  · rw [spliceOctets_eq t unit h hstops]
    simp
  · rw [spliceOctets_of_lt t unit h hstops hstop]
    simp

/-- Spans in order cut the text of a unit into gaps and old names. If they lie within it, the new
text has the new names between the same gaps, and the entries are those of the names that changed,
in order. Otherwise the first span that ends beyond the text is the error. No slice has its ends in
the wrong order or cuts a character. -/
theorem splice_exact (t : RenameTable) (unit text : String) {os : List Occurrence}
    (horder : InOrder os) (hspans : ∀ o ∈ os, o.span.start ≤ o.span.stop) :
    let chars := text.toList
    let entries := os.map (t.entryAt unit chars)
    let spliced : SplicedUnit :=
      ⟨weave (gaps chars 0 os) (entries.map RenameEntry.new), entries.filter RenameEntry.changes⟩
    weave (gaps chars 0 os) (entries.map RenameEntry.old) = chars ∧
    ((∀ o ∈ os, o.span.stop ≤ chars.length) →
      spliceOctets t unit text os = .ok spliced ∧ spliceUnit t unit text os = .ok spliced) ∧
    (∀ before o after, os = before ++ o :: after →
      (∀ b ∈ before, b.span.stop ≤ chars.length) → chars.length < o.span.stop →
        spliceOctets t unit text os =
            .error (.unit (.spanOutOfBounds unit o.span chars.length)) ∧
          spliceUnit t unit text os = .error o.span) ∧
    ∀ first last, spliceOctets t unit text os ≠ .error (.slice first last) := by
  have hahead : Ahead 0 os := ⟨horder, fun o _ => Nat.zero_le _, hspans⟩
  refine ⟨weave_gaps_old t unit text.toList hahead, fun hstops => ?_, ?_,
    spliceOctets_ne_slice t unit text hahead⟩
  · exact ⟨spliceOctets_eq t unit hahead hstops, spliceUnit_eq t unit hahead hstops⟩
  · rintro before o after rfl hstops hstop
    exact ⟨spliceOctets_of_lt t unit hahead hstops hstop,
      spliceUnit_of_lt t unit hahead hstops hstop⟩

/-- Names with wide characters that touch each other, and an empty one between them. -/
def touchingNames : List Occurrence :=
  [⟨⟨1, 3⟩, "A.x", .field, []⟩, ⟨⟨3, 3⟩, "A.y", .field, []⟩, ⟨⟨4, 5⟩, "A.z", .field, ["A.x"]⟩]

theorem splice_exact_touchingNames :
    let table := RenameTable.empty.insert (.symbol "A.x" "A.ü")
    spliceOctets table "A.java" "(é€=𝄞)" touchingNames =
        .ok ⟨"(ü=ü)".toList, [⟨"é€", "ü", "A.java", 1⟩, ⟨"𝄞", "ü", "A.java", 4⟩]⟩ ∧
      spliceOctets table "A.java" "(é€=" touchingNames =
        .error (.unit (.spanOutOfBounds "A.java" ⟨4, 5⟩ 4)) := by
  intro table
  have horder : InOrder touchingNames := by decide
  have hspans : ∀ o ∈ touchingNames, o.span.start ≤ o.span.stop := by decide
  have hstops : ∀ o ∈ touchingNames, o.span.stop ≤ "(é€=𝄞)".toList.length := by decide +kernel
  have hbefore : ∀ o ∈ touchingNames.take 2, o.span.stop ≤ "(é€=".toList.length := by
    decide +kernel
  have hnew := ((splice_exact table "A.java" "(é€=𝄞)" horder hspans).2.1 hstops).1
  have herror := (splice_exact table "A.java" "(é€=" horder hspans).2.2.1 (touchingNames.take 2)
    ⟨⟨4, 5⟩, "A.z", .field, ["A.x"]⟩ [] rfl hbefore (by decide +kernel)
  exact ⟨hnew.trans (by decide +kernel), herror.1⟩

end Renaming
