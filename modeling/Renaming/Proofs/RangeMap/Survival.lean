import Renaming.Proofs.RangeMap.RoundTrip
import Renaming.Store

/-!
# Units that survive in the text of a map

A line that is read belongs to a unit without tabs and line feeds that does not look like a comment.
A map therefore comes back from its text with all its occurrences exactly if each unit that has
some is such a unit; the id of a unit need not be one to be valid.
-/

namespace Renaming.RangeMap

/-! ## Units that are read -/

theorem of_readFields {unit start stop signature kind : String} {fallbacks : List Signature}
    {record : String × Occurrence}
    (h : readFields unit start stop signature kind fallbacks = .ok record) :
    record.1 = unit ∧ record.2.span.start ≤ record.2.span.stop := by
  unfold readFields at h
  split at h
  · cases h
  · split at h
    · cases h
    · split at h
      · cases h
      · rename_i hspan
        split at h
        · cases h
        · split at h
          · cases h
          · cases h
            exact ⟨rfl, Nat.not_lt.1 hspan⟩

/-- The unit of a record is the first field of its line, and its span does not end before it
starts. -/
theorem of_readRecord {line : String} {record : String × Occurrence}
    (h : readRecord line = .ok record) :
    (∃ later, Text.fields '\t' line = record.1 :: later) ∧
      record.2.span.start ≤ record.2.span.stop := by
  unfold readRecord at h
  split at h
  · rename_i hfields
    obtain ⟨hunit, hspan⟩ := of_readFields h
    exact ⟨⟨_, hunit ▸ hfields⟩, hspan⟩
  · rename_i hfields
    obtain ⟨hunit, hspan⟩ := of_readFields h
    exact ⟨⟨_, hunit ▸ hfields⟩, hspan⟩
  · cases h

/-- A line that is not skipped has a unit that can be written. -/
theorem writableUnit_of_readRecord {line : String} {record : String × Occurrence}
    (hfeed : '\n' ∉ line.toList) (hskipped : isSkipped line = false)
    (h : readRecord line = .ok record) : WritableUnit record.1 := by
  obtain ⟨⟨later, hfields⟩, -⟩ := of_readRecord h
  obtain ⟨rest, hline⟩ := Text.prefix_of_fields_eq_cons hfields
  refine ⟨Text.notMem_of_mem_fields (hfields ▸ List.mem_cons_self), fun hmem => hfeed ?_, ?_⟩
  · rw [← hline]
    exact List.mem_append_left _ hmem
  · -- a comment in the unit would make the line one
    have hcomment : Text.startsWith "#" line = false := (Bool.or_eq_false_iff.1 hskipped).2
    rw [Text.startsWith, ← Bool.not_eq_true, List.isPrefixOf_iff_prefix] at hcomment ⊢
    exact fun hunit => hcomment (hunit.trans ⟨rest, hline⟩)

theorem exists_line_of_mem_readLines {n : Nat} {lines : List (Option String)}
    {records : List (String × Occurrence)} (h : readLines n lines = .ok records)
    {record : String × Occurrence} (hrecord : record ∈ records) :
    ∃ line, some line ∈ lines ∧ isSkipped line = false ∧ readRecord line = .ok record := by
  induction lines generalizing n records with
  | nil =>
    cases h
    cases hrecord
  | cons first rest ih =>
    have hlater {n : Nat} {later : List (String × Occurrence)}
        (hrest : readLines n rest = .ok later) (hlater : record ∈ later) :
        ∃ line, some line ∈ first :: rest ∧ isSkipped line = false ∧
          readRecord line = .ok record := by
      obtain ⟨line, hline, hread⟩ := ih hrest hlater
      exact ⟨line, List.mem_cons_of_mem _ hline, hread⟩
    cases first with
    | none => cases h
    | some line =>
      rw [readLines] at h
      split at h
      · exact hlater h hrecord
      · rename_i hskipped
        cases hread : readRecord line with
        | error e =>
          rw [hread] at h
          cases h
        | ok head =>
          rw [hread] at h
          dsimp only at h
          cases hrest : readLines (n + 1) rest with
          | error e =>
            rw [hrest] at h
            cases h
          | ok later =>
            rw [hrest] at h
            cases h
            rcases List.mem_cons.1 hrecord with rfl | hrecord
            · exact ⟨line, List.mem_cons_self, by simpa using hskipped, hread⟩
            · exact hlater hrest hrecord

/-! ## Maps that are read -/

/-- The groups of a map that can be built from them are in order. -/
theorem firstDisorder_of_foldlM {groups : List (String × List Occurrence)} {m m' : RangeMap}
    (h : groups.foldlM (fun m (unit, os) => m.insertUnit unit os) m = Except.ok m') :
    ∀ g ∈ groups, firstDisorder none g.2 = none := by
  induction groups generalizing m with
  | nil => simp
  | cons g rest ih =>
    obtain ⟨unit, os⟩ := g
    rw [List.foldlM_cons] at h
    cases hadded : m.insertUnit unit os with
    | error e =>
      simp only [hadded] at h
      cases h
    | ok added =>
      simp only [hadded] at h
      obtain ⟨-, horder, -⟩ := insertUnit_eq_ok_iff.1 hadded
      exact List.forall_mem_cons.2 ⟨horder, ih h⟩

theorem units_of_ofGroups {groups : SortedMap String (List Occurrence)} {m : RangeMap}
    (h : ofGroups groups.entries = .ok m) : m.units = groups := by
  have horder := firstDisorder_of_foldlM h
  have hbuilt := ofGroups_entries groups fun unit os hget =>
    horder (unit, os) (SortedMap.get?_eq_some_iff.1 hget)
  rw [h] at hbuilt
  cases hbuilt
  rfl

/-- Every unit with occurrences that is read from a text can be written. -/
theorem writableUnit_of_read {content : Bytes} {m : RangeMap} (h : read content = .ok m)
    {unit : String} (hunit : m.occurrences unit ≠ []) : WritableUnit unit := by
  unfold read at h
  split at h
  · cases h
  · rename_i records hrecords
    rw [occurrences, units_of_ofGroups h, get?_group] at hunit
    obtain ⟨o, ho⟩ : ∃ o, o ∈ ofUnit unit records := by
      refine List.exists_mem_of_ne_nil _ fun hnil => hunit ?_
      rw [hnil]
      rfl
    obtain ⟨record, hrecord, rfl⟩ := List.mem_map.1 ho
    obtain ⟨hrecord, hsame⟩ := List.mem_filter.1 hrecord
    obtain ⟨line, hline, hskipped, hread⟩ := exists_line_of_mem_readLines hrecords hrecord
    rw [← eq_of_beq hsame]
    exact writableUnit_of_readRecord (Bytes.feed_notMem_of_mem_lines hline) hskipped hread

/-- A map comes back from its text with the occurrences of all units exactly if each unit that has
some is free of tabs and line feeds and does not start like a comment. -/
theorem read_write_keeps_iff {m : RangeMap} (hbuilt : m.Built)
    (hoccurrences : ∀ unit, ∀ o ∈ m.occurrences unit, o.Writable) :
    (∃ m', read (Bytes.ofText m.write) = .ok m' ∧
        ∀ unit, m'.occurrences unit = m.occurrences unit) ↔
      ∀ unit, m.occurrences unit ≠ [] → WritableUnit unit := by
  constructor
  · rintro ⟨m', hread, hkept⟩ unit hunit
    rw [← hkept unit] at hunit
    exact writableUnit_of_read hread hunit
  · intro hunits
    have hrecords : ∀ r ∈ m.records, WritableUnit r.1 ∧ r.2.Writable := by
      rintro ⟨unit, o⟩ hr
      have ho : o ∈ m.occurrences unit := mem_records_iff.1 hr
      exact ⟨hunits unit (List.ne_nil_of_mem ho), hoccurrences unit o ho⟩
    have hlines : readLines 1 (Bytes.ofText m.write).lines = .ok m.records := by
      rw [lines_write hrecords, readLines, if_pos isSkipped_header]
      exact readLines_recordLines hrecords 2
    refine ⟨m.occupied, ?_, m.occurrences_occupied⟩
    rw [read, hlines]
    exact hbuilt.ofGroups_group_records

/-- Units with a comment sign, a blank and a line return in their ids, and one like a comment that
has no occurrences. -/
def oddUnits : RangeMap where
  units := .ofList [
    (" .java", [⟨⟨0, 1⟩, "A", .type, []⟩]),
    ("#.java", []),
    ("a/#b\r.java", [⟨⟨6, 7⟩, "a.B", .type, []⟩, ⟨⟨8, 9⟩, "a.B.f", .field, ["a.C.f", "a.D.f"]⟩])]

theorem read_write_keeps_oddUnits :
    ∃ m', read (Bytes.ofText oddUnits.write) = .ok m' ∧
      ∀ unit, m'.occurrences unit = oddUnits.occurrences unit := by
  have hrecords : ∀ r ∈ oddUnits.records, WritableUnit r.1 ∧ r.2.Writable := by decide +kernel
  refine (read_write_keeps_iff ?_ ?_).2 ?_
  · refine .insertUnit (.insertUnit (.insertUnit .empty
      (insertUnit_eq_ok_iff.2 ⟨by decide +kernel, by decide +kernel, rfl⟩))
      (insertUnit_eq_ok_iff.2 ⟨by decide +kernel, by decide +kernel, rfl⟩))
      (insertUnit_eq_ok_iff.2 ⟨by decide +kernel, by decide +kernel, rfl⟩)
  · exact fun unit o ho => (hrecords (unit, o) (mem_records_iff.2 ho)).2
  · intro unit hunit
    obtain ⟨o, ho⟩ := List.exists_mem_of_ne_nil _ hunit
    exact (hrecords (unit, o) (mem_records_iff.2 ho)).1

/-- A unit whose id is valid, but whose line looks like a comment. -/
def commentUnit : RangeMap where
  units := .ofList [("#A.java", [⟨⟨6, 7⟩, "A", .type, []⟩])]

theorem read_write_loses_commentUnit :
    UnitId.isValid "#A.java" = true ∧ commentUnit.unitIds = ["#A.java"] ∧ commentUnit.Built ∧
      (∀ unit, ∀ o ∈ commentUnit.occurrences unit, o.Writable) ∧
      ∃ m', read (Bytes.ofText commentUnit.write) = .ok m' ∧
        m'.occurrences "#A.java" ≠ commentUnit.occurrences "#A.java" := by
  have hrecords : ∀ r ∈ commentUnit.records, r.2.Writable := by decide +kernel
  refine ⟨by decide +kernel, rfl, ?_, fun unit o ho => hrecords (unit, o) (mem_records_iff.2 ho),
    empty, by decide +kernel, by decide +kernel⟩
  exact .insertUnit .empty (insertUnit_eq_ok_iff.2 ⟨by decide +kernel, by decide +kernel, rfl⟩)

end Renaming.RangeMap
