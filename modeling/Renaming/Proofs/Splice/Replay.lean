import Renaming.Proofs.Splice.Octets

/-!
# Logs replayed and undone

The offsets of a log are those in the old text. Made from the last entry to the first, the
substitutions of a log lead from the old text to the new one. In the new text a name stands where
its entry says, moved by as much as the text before it has grown; with the old names put back there
the new text becomes the old one.
-/

namespace Renaming

/-! ## Substitutions at offsets -/

/-- The text with the new name of an entry at its offset, if the old name stands there. -/
def RenameEntry.replace? (e : RenameEntry) (text : List Char) : Option (List Char) :=
  if e.offset ≤ text.length ∧
      (⟨e.offset, e.offset + e.old.length⟩ : Span).slice text = e.old.toList then
    some (text.take e.offset ++ e.new.toList ++ text.drop (e.offset + e.old.length))
  else none

namespace RenameLog

/-- The text after the substitutions of a log. The last one is made first, so that the offsets of
the others still hold. -/
def replay? (log : RenameLog) (text : List Char) : Option (List Char) :=
  log.foldrM RenameEntry.replace? text

/-- By how much the substitutions of a log make a text longer. -/
def growth : RenameLog → Int
  | [] => 0
  | e :: rest => (e.new.length - e.old.length : Int) + growth rest

/-- The log that puts the old names back where the new ones stand in a text that has grown by
`shift` before the first of them. -/
def inverseFrom (shift : Int) : RenameLog → RenameLog
  | [] => []
  | e :: rest =>
    ⟨e.new, e.old, e.unit, (e.offset + shift).toNat⟩ ::
      inverseFrom (shift + (e.new.length - e.old.length)) rest

/-- The log that leads back. -/
def inverse (log : RenameLog) : RenameLog := log.inverseFrom 0

end RenameLog

theorem Span.slice_append (front name back : List Char) :
    (⟨front.length, front.length + name.length⟩ : Span).slice (front ++ (name ++ back)) = name := by
  simp [slice, length]

theorem RenameEntry.replace?_append {e : RenameEntry} {front : List Char}
    (h : e.offset = front.length) (back : List Char) :
    e.replace? (front ++ (e.old.toList ++ back)) = some (front ++ (e.new.toList ++ back)) := by
  have hslice := Span.slice_append front e.old.toList back
  rw [String.length_toList] at hslice
  have hdrop : (front ++ (e.old.toList ++ back)).drop (front.length + e.old.length) = back := by
    rw [← List.append_assoc, ← String.length_toList, ← List.length_append, List.drop_left]
  rw [replace?, h, if_pos ⟨by simp, hslice⟩, hdrop, List.take_left, List.append_assoc]

/-! ## Texts that differ by a log -/

/-- Whether an old text from an offset on and a new text are the same but for the names that the
entries of a log put for others. -/
inductive Rewrites : Nat → List Char → RenameLog → List Char → Prop
  | same {cursor : Nat} (rest : List Char) : Rewrites cursor rest [] rest
  | entry {cursor : Nat} (gap : List Char) {e : RenameEntry} {log : RenameLog}
      {old new : List Char} (hoffset : e.offset = cursor + gap.length)
      (hrest : Rewrites (e.offset + e.old.length) old log new) :
      Rewrites cursor (gap ++ (e.old.toList ++ old)) (e :: log) (gap ++ (e.new.toList ++ new))

namespace Rewrites

variable {cursor : Nat} {old new : List Char} {log : RenameLog}

/-- The same text may stand in front of both. -/
theorem prepend (front : List Char) {after : Nat} (hafter : after = cursor + front.length)
    (h : Rewrites after old log new) : Rewrites cursor (front ++ old) log (front ++ new) := by
  cases h with
  | same => exact .same _
  | entry gap hoffset hrest =>
    rw [← List.append_assoc front gap, ← List.append_assoc front gap]
    refine .entry (front ++ gap) ?_ hrest
    rw [List.length_append]
    omega

theorem eq_of_nil (h : Rewrites cursor old [] new) : new = old := by
  cases h
  rfl

theorem replay (h : Rewrites cursor old log new) (front : List Char)
    (hfront : front.length = cursor) : log.replay? (front ++ old) = some (front ++ new) := by
  induction h generalizing front with
  | same => rfl
  | @entry cursor gap e log old new hoffset hrest ih =>
    have hlength : (front ++ gap ++ e.old.toList).length = e.offset + e.old.length := by
      rw [List.length_append, List.length_append, String.length_toList]
      omega
    have hstart : e.offset = (front ++ gap).length := by
      rw [List.length_append]
      omega
    -- the later substitutions are made first, in a text whose front is still the old one
    calc RenameLog.replay? (e :: log) (front ++ (gap ++ (e.old.toList ++ old)))
        = log.replay? (front ++ gap ++ e.old.toList ++ old) >>= e.replace? := by
          simp only [RenameLog.replay?, List.foldrM_cons, List.append_assoc]
      _ = e.replace? (front ++ gap ++ (e.old.toList ++ new)) := by
          rw [ih _ hlength, List.append_assoc (front ++ gap)]
          rfl
      _ = some (front ++ (gap ++ (e.new.toList ++ new))) := by
          rw [RenameEntry.replace?_append hstart, List.append_assoc]

/-- A log leads back from the new text as its inverse. -/
theorem inverse (h : Rewrites cursor old log new) (shift : Int) {place : Nat}
    (hplace : (place : Int) = cursor + shift) :
    Rewrites place new (log.inverseFrom shift) old := by
  induction h generalizing place shift with
  | same => exact .same _
  | @entry cursor gap e log old new hoffset hrest ih =>
    refine .entry (e := ⟨e.new, e.old, e.unit, (e.offset + shift).toNat⟩) gap ?_ (ih _ ?_)
    · dsimp only
      omega
    · dsimp only
      omega

/-- What stands before and behind the names of an entry, in the old text and in the new one. -/
theorem exists_around {before after : RenameLog} {e : RenameEntry}
    (h : Rewrites cursor old (before ++ e :: after) new) :
    ∃ oldFront oldBack newFront newBack, old = oldFront ++ (e.old.toList ++ oldBack) ∧
      new = newFront ++ (e.new.toList ++ newBack) ∧ e.offset = cursor + oldFront.length ∧
      (newFront.length : Int) = oldFront.length + before.growth := by
  induction before generalizing cursor old new with
  | nil =>
    cases h with
    | @entry _ gap _ _ old new hoffset hrest =>
      exact ⟨gap, old, gap, new, rfl, rfl, hoffset, by simp [RenameLog.growth]⟩
  | cons b before ih =>
    cases h with
    | @entry _ gap _ _ old new hoffset hrest =>
      obtain ⟨oldFront, oldBack, newFront, newBack, rfl, rfl, hstart, hgrowth⟩ := ih hrest
      refine ⟨gap ++ (b.old.toList ++ oldFront), oldBack, gap ++ (b.new.toList ++ newFront),
        newBack, by simp, by simp, ?_, ?_⟩
      · simp only [List.length_append, String.length_toList]
        omega
      · simp only [List.length_append, String.length_toList, RenameLog.growth]
        omega

end Rewrites

/-! ## The log of a splice -/

theorem Span.length_slice {first last : Nat} {text : List Char} (hlast : last ≤ text.length) :
    ((⟨first, last⟩ : Span).slice text).length = last - first := by
  rw [slice, List.length_take, List.length_drop, Span.length]
  exact Nat.min_eq_left (Nat.sub_le_sub_right hlast first)

/-- The gaps and the new names make up a text that the log of the names that changed accounts
for. -/
theorem rewrites_weave (t : RenameTable) (unit : String) {text : List Char} {cursor : Nat}
    {os : List Occurrence} (h : Ahead cursor os) (hstops : ∀ o ∈ os, o.span.stop ≤ text.length) :
    Rewrites cursor (text.drop cursor)
      ((os.map (t.entryAt unit text)).filter RenameEntry.changes)
      (weave (gaps text cursor os) ((os.map (t.entryAt unit text)).map RenameEntry.new)) := by
  induction os generalizing cursor with
  | nil =>
    simp only [gaps, weave, List.map_nil, List.filter_nil, List.flatten_cons, List.flatten_nil,
      List.append_nil]
    exact .same _
  | cons o os ih =>
    obtain ⟨hreached, hspan⟩ := h.head
    have hstop := hstops o List.mem_cons_self
    let e := t.entryAt unit text o
    let gap := (⟨cursor, o.span.start⟩ : Span).slice text
    have hgap : gap.length = o.span.start - cursor := Span.length_slice (hspan.trans hstop)
    have hold : e.old.toList = o.span.slice text := String.toList_ofList
    have hlength : e.old.length = o.span.stop - o.span.start := by
      rw [← String.length_toList, hold]
      exact Span.length_slice hstop
    -- what is left of the old text begins with the gap and the old name
    have htext : text.drop cursor = gap ++ (e.old.toList ++ text.drop o.span.stop) := by
      rw [hold, Span.slice_append_drop hspan, Span.slice_append_drop hreached]
    have htail := ih h.tail fun later hlater => hstops later (List.mem_cons_of_mem o hlater)
    rw [htext, gaps, List.map_cons, List.map_cons, weave, List.filter_cons]
    split
    · have hrest : o.span.stop = e.offset + e.old.length := by
        rw [hlength]
        exact (Nat.add_sub_cancel' hspan).symm
      rw [hrest] at htail ⊢
      refine .entry gap ?_ htail
      rw [hgap]
      exact (Nat.add_sub_cancel' hreached).symm
    · rename_i hsame
      -- a name that stays has no entry and lengthens the gap before the next one
      have hnew : e.new = e.old := by simpa [RenameEntry.changes] using hsame
      change Rewrites cursor _ _ (gap ++ (e.new.toList ++ _))
      rw [hnew, ← List.append_assoc, ← List.append_assoc]
      refine htail.prepend (gap ++ e.old.toList) ?_
      rw [List.length_append, String.length_toList, hgap, hlength]
      omega

/-- A splice that succeeds has all spans within the text. -/
theorem of_spliced {t : RenameTable} {unit text : String} {os : List Occurrence} (h : Ahead 0 os)
    {spliced : SplicedUnit} (hspliced : spliceOctets t unit text os = .ok spliced ∨
      spliceUnit t unit text os = .ok spliced) :
    (∀ o ∈ os, o.span.stop ≤ text.toList.length) ∧
      spliced = ⟨weave (gaps text.toList 0 os)
          ((os.map (t.entryAt unit text.toList)).map RenameEntry.new),
        (os.map (t.entryAt unit text.toList)).filter RenameEntry.changes⟩ := by
  rcases forall_stop_le_or_exists_first os text.toList.length with
    hstops | ⟨before, o, after, rfl, hstops, hstop⟩
  · rw [spliceOctets_eq t unit h hstops, spliceUnit_eq t unit h hstops] at hspliced
    refine ⟨hstops, ?_⟩
    rcases hspliced with hspliced | hspliced
    · cases hspliced
      rfl
    · cases hspliced
      rfl
  · rw [spliceOctets_of_lt t unit h hstops hstop, spliceUnit_of_lt t unit h hstops hstop]
      at hspliced
    rcases hspliced with hspliced | hspliced
    · cases hspliced
    · cases hspliced

theorem pairwise_offset_entries (t : RenameTable) (unit : String) (text : List Char)
    {os : List Occurrence} (h : InOrder os) :
    ((os.map (t.entryAt unit text)).filter RenameEntry.changes).Pairwise fun a b =>
      a.offset < b.offset := by
  apply List.Pairwise.filter
  rw [List.pairwise_map]
  exact h.imp fun hbefore => hbefore.1

/-- The entries of a splice have ascending offsets, and with their substitutions at these offsets
the old text becomes the new one. Each new name stands in the new text at its offset, moved by what
the names before it have grown; with the old names put there the new text becomes the old one.
Without entries the texts are the same. -/
theorem log_replays_and_undoes (t : RenameTable) (unit text : String) {os : List Occurrence}
    (horder : InOrder os) (hspans : ∀ o ∈ os, o.span.start ≤ o.span.stop) {spliced : SplicedUnit}
    (hspliced : spliceOctets t unit text os = .ok spliced ∨
      spliceUnit t unit text os = .ok spliced) :
    spliced.entries.Pairwise (fun a b => a.offset < b.offset) ∧
    spliced.entries.replay? text.toList = some spliced.text ∧
    (∀ (before : RenameLog) e (after : RenameLog), spliced.entries = before ++ e :: after →
      ∃ place : Nat, (place : Int) = e.offset + before.growth ∧
        (⟨place, place + e.new.length⟩ : Span).slice spliced.text = e.new.toList) ∧
    spliced.entries.inverse.replay? spliced.text = some text.toList ∧
    (spliced.entries = [] → spliced.text = text.toList) := by
  have hahead : Ahead 0 os := ⟨horder, fun o _ => Nat.zero_le _, hspans⟩
  obtain ⟨hstops, rfl⟩ := of_spliced hahead hspliced
  have hrewrites := rewrites_weave t unit hahead hstops
  rw [List.drop_zero] at hrewrites
  refine ⟨pairwise_offset_entries t unit text.toList horder, hrewrites.replay [] rfl, ?_,
    (hrewrites.inverse 0 rfl).replay [] rfl, ?_⟩
  · intro before e after hentries
    dsimp only at hentries
    rw [hentries] at hrewrites
    obtain ⟨oldFront, oldBack, newFront, newBack, -, hnew, hoffset, hgrowth⟩ :=
      hrewrites.exists_around
    refine ⟨newFront.length, by omega, ?_⟩
    dsimp only
    rw [hnew, ← String.length_toList, Span.slice_append]
  · intro hnil
    dsimp only at hnil
    rw [hnil] at hrewrites
    exact hrewrites.eq_of_nil

theorem log_replays_and_undoes_touchingNames :
    let table := RenameTable.empty.insertAll
      [.symbol "A.x" "p.", .symbol "A.y" "A.ßß", .symbol "A.z" "w"]
    let entries : RenameLog :=
      [⟨"é€", "", "A.java", 1⟩, ⟨"", "ßß", "A.java", 3⟩, ⟨"𝄞", "w", "A.java", 4⟩]
    spliceOctets table "A.java" "(é€=𝄞)" touchingNames = .ok ⟨"(ßß=w)".toList, entries⟩ ∧
      entries.replay? "(é€=𝄞)".toList = some "(ßß=w)".toList ∧
      entries.inverse =
        [⟨"", "é€", "A.java", 1⟩, ⟨"ßß", "", "A.java", 1⟩, ⟨"w", "𝄞", "A.java", 4⟩] ∧
      entries.inverse.replay? "(ßß=w)".toList = some "(é€=𝄞)".toList := by
  intro table entries
  have horder : InOrder touchingNames := by decide
  have hspans : ∀ o ∈ touchingNames, o.span.start ≤ o.span.stop := by decide
  have hspliced : spliceOctets table "A.java" "(é€=𝄞)" touchingNames =
      .ok ⟨"(ßß=w)".toList, entries⟩ := by decide +kernel
  obtain ⟨-, hreplay, -, hundo, -⟩ :=
    log_replays_and_undoes table "A.java" "(é€=𝄞)" horder hspans (.inl hspliced)
  exact ⟨hspliced, hreplay, by decide +kernel, hundo⟩

end Renaming
