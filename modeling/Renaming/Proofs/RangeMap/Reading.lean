import Mathlib.Data.Set.List
import Renaming.Proofs.Occurrence
import Renaming.Proofs.RangeMap.Survival

/-!
# Reading a range map

A content is read if all its lines are text, each line that is not skipped is a record, and the
records of each unit are in order. The map then holds for each unit what its own lines say, in their
order, so that neither skipped lines nor the lines of other units matter.
-/

namespace Renaming.RangeMap

/-! ## Lines and records -/

/-- The lines that are read as records. -/
def recordLines (lines : List String) : List String := lines.filter fun line => !isSkipped line

theorem exists_texts_of_readLines {n : Nat} {lines : List (Option String)}
    {records : List (String × Occurrence)} (h : readLines n lines = .ok records) :
    ∃ texts : List String, lines = texts.map some := by
  induction lines generalizing n records with
  | nil => exact ⟨[], rfl⟩
  | cons first rest ih =>
    cases first with
    | none => cases h
    | some line =>
      have hrest : ∃ n later, readLines n rest = .ok later := by
        rw [readLines] at h
        split at h
        · exact ⟨_, _, h⟩
        · split at h
          · cases h
          · cases hrest : readLines (n + 1) rest with
            | error e =>
              rw [hrest] at h
              cases h
            | ok later => exact ⟨_, _, hrest⟩
      obtain ⟨n, later, hrest⟩ := hrest
      obtain ⟨texts, rfl⟩ := ih hrest
      exact ⟨line :: texts, rfl⟩

theorem readLines_map_some {n : Nat} {texts : List String}
    {records : List (String × Occurrence)} :
    readLines n (texts.map some) = .ok records ↔
      (recordLines texts).map readRecord = records.map .ok := by
  induction texts generalizing n records with
  | nil => cases records <;> simp [readLines, recordLines]
  | cons line rest ih =>
    rw [List.map_cons, readLines]
    by_cases hskipped : isSkipped line = true
    · have hlines : recordLines (line :: rest) = recordLines rest := by
        simp [recordLines, hskipped]
      rw [if_pos hskipped, ih, hlines]
    · have hlines : recordLines (line :: rest) = line :: recordLines rest := by
        simp [recordLines, hskipped]
      rw [if_neg hskipped, hlines, List.map_cons]
      cases hread : readRecord line with
      | error e => cases records <;> simp
      | ok record =>
        cases records with
        | nil => cases readLines (n + 1) (rest.map some) <;> simp [Except.map]
        | cons first later =>
          simp only [List.map_cons, List.cons.injEq, Except.ok.injEq, ← ih (n := n + 1)]
          cases readLines (n + 1) (rest.map some) <;> simp [Except.map]

/-- The unit that a line is about: its first field. -/
def lineUnit (line : String) : String := (Text.fields '\t' line).headD ""

theorem lineUnit_of_readRecord {line : String} {record : String × Occurrence}
    (h : readRecord line = .ok record) : lineUnit line = record.1 := by
  obtain ⟨⟨later, hfields⟩, -⟩ := of_readRecord h
  rw [lineUnit, hfields, List.headD_cons]

/-- The lines that are read as records of one unit, in their order. -/
def unitLines (unit : String) (lines : List String) : List String :=
  (recordLines lines).filter fun line => lineUnit line == unit

/-- The lines of a unit give the records of that unit. -/
theorem map_readRecord_filter {lines : List String} {records : List (String × Occurrence)}
    (h : lines.map readRecord = records.map .ok) (unit : String) :
    (lines.filter fun line => lineUnit line == unit).map readRecord =
      (records.filter fun r => r.1 == unit).map .ok := by
  induction lines generalizing records with
  | nil =>
    obtain rfl := List.map_eq_nil_iff.1 h.symm
    rfl
  | cons line rest ih =>
    cases records with
    | nil => cases h
    | cons record later =>
      obtain ⟨hread, hrest⟩ := List.cons.inj h
      have hunit := lineUnit_of_readRecord hread
      by_cases hsame : record.1 = unit
      · simpa [hunit, hsame, hread] using ih hrest
      · simpa [hunit, hsame] using ih hrest

/-- Lines that are the same for each unit are records of the same occurrences. -/
theorem exists_records_of_unitLines {a b : List String}
    (hsame : ∀ unit, unitLines unit a = unitLines unit b) {records : List (String × Occurrence)}
    (h : (recordLines a).map readRecord = records.map .ok) :
    ∃ records', (recordLines b).map readRecord = records'.map .ok ∧
      ∀ unit, ofUnit unit records' = ofUnit unit records := by
  have hread : ∀ answer ∈ (recordLines b).map readRecord, answer ∈ Set.range Except.ok := by
    intro answer hanswer
    obtain ⟨line, hline, rfl⟩ := List.mem_map.1 hanswer
    have hunit : line ∈ unitLines (lineUnit line) b := List.mem_filter.2 ⟨hline, by simp⟩
    rw [← hsame] at hunit
    have hmem := List.mem_map_of_mem (f := readRecord) (List.mem_filter.1 hunit).1
    rw [h] at hmem
    obtain ⟨record, -, hrecord⟩ := List.mem_map.1 hmem
    exact ⟨record, hrecord⟩
  obtain ⟨records', hrecords'⟩ : (recordLines b).map readRecord ∈ Set.range (List.map Except.ok) := by
    rw [Set.range_list_map]
    exact hread
  refine ⟨records', hrecords'.symm, fun unit => ?_⟩
  have ha := map_readRecord_filter h unit
  have hb := map_readRecord_filter hrecords'.symm unit
  have hlines := hsame unit
  rw [unitLines, unitLines] at hlines
  rw [hlines, hb] at ha
  rw [ofUnit, ofUnit, List.map_injective_iff.2 (fun _ _ => Except.ok.inj) ha]

/-! ## The map that is read -/

theorem ofGroups_eq_ok_iff {groups : SortedMap String (List Occurrence)} {m : RangeMap} :
    ofGroups groups.entries = .ok m ↔
      (∀ unit os, groups.get? unit = some os → InOrder os) ∧ m = ⟨groups⟩ := by
  constructor
  · intro h
    refine ⟨fun unit os hget => ?_, ?_⟩
    · exact firstDisorder_eq_none_iff.1
        (firstDisorder_of_foldlM h (unit, os) (SortedMap.get?_eq_some_iff.1 hget))
    · rw [← units_of_ofGroups h]
  · rintro ⟨horder, rfl⟩
    exact ofGroups_entries groups fun unit os hget =>
      firstDisorder_eq_none_iff.2 (horder unit os hget)

theorem inOrder_group_iff {records : List (String × Occurrence)} :
    (∀ unit os, (group records).get? unit = some os → InOrder os) ↔
      ∀ unit, InOrder (ofUnit unit records) := by
  refine forall_congr' fun unit => ?_
  rw [get?_group]
  cases ofUnit unit records <;> simp [InOrder]

/-- What it takes to read a content, and the map that is read. -/
theorem read_eq_ok_iff {content : Bytes} {m : RangeMap} :
    read content = .ok m ↔
      ∃ (texts : List String) (records : List (String × Occurrence)),
        content.lines = texts.map some ∧ (recordLines texts).map readRecord = records.map .ok ∧
          (∀ unit, InOrder (ofUnit unit records)) ∧ m = ⟨group records⟩ := by
  unfold read
  constructor
  · intro h
    cases hread : readLines 1 content.lines with
    | error e =>
      rw [hread] at h
      cases h
    | ok records =>
      rw [hread] at h
      obtain ⟨texts, htexts⟩ := exists_texts_of_readLines hread
      obtain ⟨horder, hm⟩ := ofGroups_eq_ok_iff.1 h
      rw [htexts, readLines_map_some] at hread
      exact ⟨texts, records, htexts, hread, inOrder_group_iff.1 horder, hm⟩
  · rintro ⟨texts, records, htexts, hread, horder, hm⟩
    rw [htexts, readLines_map_some.2 hread]
    exact ofGroups_eq_ok_iff.2 ⟨inOrder_group_iff.2 horder, hm⟩

/-! ## Lines of other units -/

/-- The contents that consist of the given lines; the last line may lack its line feed. -/
inductive ConsistsOf (lines : List String) : Bytes → Prop where
  | terminated : ConsistsOf lines (.ofText (String.join (lines.map (· ++ "\n"))))
  | unterminated : ConsistsOf lines (.ofText (Text.join "\n" lines))

theorem join_feed_append (front : List String) (last : String) :
    Text.join "\n" (front ++ [last]) = String.join (front.map (· ++ "\n")) ++ last := by
  induction front with
  | nil => simp [Text.join]
  | cons line rest ih =>
    rw [Text.join, List.cons_append, String.intercalate_cons_of_ne_nil (by simp)]
    rw [Text.join] at ih
    rw [ih, List.map_cons, String.join_cons, String.append_assoc, String.append_assoc,
      String.append_assoc]

theorem recordLines_append_empty (lines : List String) :
    recordLines (lines ++ [""]) = recordLines lines := by
  have hskipped : isSkipped "" = true := by decide +kernel
  simp [recordLines, hskipped]

/-- Contents that consist of lines without carriage returns have the records of these lines. -/
theorem ConsistsOf.exists_lines {lines : List String} {content : Bytes}
    (h : ConsistsOf lines content) (hfeed : ∀ line ∈ lines, '\n' ∉ line.toList)
    (hreturn : ∀ line ∈ lines, '\r' ∉ line.toList) :
    ∃ texts, content.lines = texts.map some ∧ recordLines texts = recordLines lines := by
  have hlast : ∀ line ∈ lines, line.toList.getLast? ≠ some '\r' :=
    fun line hline hlast => hreturn line hline (List.mem_of_getLast? hlast)
  cases h with
  | terminated => exact ⟨lines, Bytes.lines_terminated hfeed hlast, rfl⟩
  | unterminated =>
    rcases List.eq_nil_or_concat lines with rfl | ⟨front, last, rfl⟩
    · exact ⟨[], rfl, rfl⟩
    · rw [List.concat_eq_append] at hfeed hlast ⊢
      have hfront : ∀ line ∈ front, '\n' ∉ line.toList :=
        fun line hline => hfeed line (by simp [hline])
      have hfront' : ∀ line ∈ front, line.toList.getLast? ≠ some '\r' :=
        fun line hline => hlast line (by simp [hline])
      rw [join_feed_append]
      by_cases hempty : last = ""
      · subst hempty
        rw [String.append_empty]
        exact ⟨front, Bytes.lines_terminated hfront hfront', (recordLines_append_empty front).symm⟩
      · exact ⟨front ++ [last],
          Bytes.lines_terminated_append hfront hfront' (hfeed last (by simp)) hempty, rfl⟩

theorem read_of_unitLines {a b : List String}
    (hsame : ∀ unit, unitLines unit a = unitLines unit b) {c d : Bytes}
    (hc : ∃ texts, c.lines = texts.map some ∧ recordLines texts = recordLines a)
    (hd : ∃ texts, d.lines = texts.map some ∧ recordLines texts = recordLines b) {m : RangeMap}
    (h : read c = .ok m) : read d = .ok m := by
  obtain ⟨texts, hlines, hrecords⟩ := hc
  obtain ⟨texts', records, hlines', hread, horder, rfl⟩ := read_eq_ok_iff.1 h
  obtain rfl : texts = texts' :=
    List.map_injective_iff.2 (Option.some_injective _) (hlines.symm.trans hlines')
  rw [hrecords] at hread
  obtain ⟨later, hlater, hunits⟩ := exists_records_of_unitLines hsame hread
  obtain ⟨others, hothers, hrecords'⟩ := hd
  refine read_eq_ok_iff.2 ⟨others, later, hothers, hrecords' ▸ hlater, fun unit => ?_, ?_⟩
  · rw [hunits unit]
    exact horder unit
  · congr 1
    apply SortedMap.ext_get?
    intro unit
    rw [get?_group, get?_group, hunits unit]

/-- Two contents with the same lines for each unit are read to the same map or not at all. -/
theorem read_eq_ok_iff_of_unitLines {a b : List String}
    (hfeed : ∀ line ∈ a ++ b, '\n' ∉ line.toList) (hreturn : ∀ line ∈ a ++ b, '\r' ∉ line.toList)
    (hsame : ∀ unit, unitLines unit a = unitLines unit b) {c d : Bytes} (hc : ConsistsOf a c)
    (hd : ConsistsOf b d) (m : RangeMap) : read c = .ok m ↔ read d = .ok m := by
  have hc := hc.exists_lines (fun line hline => hfeed line (by simp [hline]))
    (fun line hline => hreturn line (by simp [hline]))
  have hd := hd.exists_lines (fun line hline => hfeed line (by simp [hline]))
    (fun line hline => hreturn line (by simp [hline]))
  exact ⟨read_of_unitLines hsame hc hd, read_of_unitLines (fun unit => (hsame unit).symm) hd hc⟩

def lineOfA : String := "A.java\t6\t7\tA\ttype"

def laterLineOfA : String := "A.java\t14\t15\tA.f\tfield\tB.f"

def lineOfB : String := "B.java\t6\t7\tB\ttype"

theorem unitLines_interleaved (unit : String) :
    unitLines unit ["# map", lineOfA, lineOfB, laterLineOfA] =
      unitLines unit [lineOfB, "", lineOfA, " \t", laterLineOfA] := by
  have hfirst : recordLines ["# map", lineOfA, lineOfB, laterLineOfA] =
      [lineOfA, lineOfB, laterLineOfA] := by decide +kernel
  have hsecond : recordLines [lineOfB, "", lineOfA, " \t", laterLineOfA] =
      [lineOfB, lineOfA, laterLineOfA] := by decide +kernel
  have ha : lineUnit lineOfA = "A.java" ∧ lineUnit laterLineOfA = "A.java" := by decide +kernel
  have hb : lineUnit lineOfB = "B.java" := by decide +kernel
  rw [unitLines, unitLines, hfirst, hsecond]
  by_cases hunit : "A.java" = unit
  · subst hunit
    simp [ha, hb]
  · simp [List.filter_cons, ha, hunit]

/-- Two texts with the lines of two units in different order; the second one has no last feed. -/
theorem read_eq_ok_interleaved :
    read (.ofText (Text.join "\n" [lineOfB, "", lineOfA, " \t", laterLineOfA])) =
      .ok ⟨.ofList [("A.java", [⟨⟨6, 7⟩, "A", .type, []⟩, ⟨⟨14, 15⟩, "A.f", .field, ["B.f"]⟩]),
        ("B.java", [⟨⟨6, 7⟩, "B", .type, []⟩])]⟩ := by
  refine (read_eq_ok_iff_of_unitLines ?_ ?_ unitLines_interleaved .terminated .unterminated _).1 ?_
  · decide +kernel
  · decide +kernel
  · decide +kernel

end Renaming.RangeMap
