import Mathlib.Tactic.MkIffOfInductiveProp
import Renaming.Proofs.Octets
import Renaming.Proofs.RangeMap.Groups
import Renaming.Proofs.Text
import Renaming.RangeMap.Format

/-!
# Reading back a range map

A map whose units and occurrences can be told apart in its text is read back from it, less the units
without occurrences, which have no line.
-/

namespace Renaming

/-- A unit whose lines are lines of this unit. -/
@[mk_iff]
structure WritableUnit (unit : String) : Prop where
  no_tab : '\t' ∉ unit.toList
  no_feed : '\n' ∉ unit.toList
  no_comment : Text.startsWith "#" unit = false

instance (unit : String) : Decidable (WritableUnit unit) :=
  decidable_of_iff' _ (writableUnit_iff unit)

/-- An occurrence whose line has one field for each part. -/
@[mk_iff]
structure Occurrence.Writable (o : Occurrence) : Prop where
  start_le_stop : o.span.start ≤ o.span.stop
  stop_le : o.span.stop ≤ Text.maxOffset
  signature_ne : o.signature ≠ ""
  signature_no_tab : '\t' ∉ o.signature.toList
  signature_no_feed : '\n' ∉ o.signature.toList
  fallbacks_no_tab : ∀ f ∈ o.fallbacks, '\t' ∉ f.toList
  fallbacks_no_feed : ∀ f ∈ o.fallbacks, '\n' ∉ f.toList
  fallbacks_no_comma : ∀ f ∈ o.fallbacks, ',' ∉ f.toList
  fallbacks_ne : o.fallbacks ≠ [""]
  fallbacks_no_return : ∀ f ∈ o.fallbacks.getLast?, f.toList.getLast? ≠ some '\r'

instance (o : Occurrence) : Decidable o.Writable :=
  decidable_of_iff' _ (Occurrence.writable_iff o)

namespace RangeMap

/-! ## Fields of a line -/

/-- The fields of the line of an occurrence after the one with its unit. -/
def recordDetails (o : Occurrence) : List String :=
  [toString o.span.start, toString o.span.stop, o.signature, o.kind.text] ++
    if o.fallbacks.isEmpty then [] else [Text.join "," o.fallbacks]

theorem recordLine_eq_join (unit : String) (o : Occurrence) :
    recordLine unit o = Text.join "\t" (unit :: recordDetails o) := rfl

theorem mem_recordDetails {field : String} {o : Occurrence} (h : field ∈ recordDetails o) :
    (∃ n : Nat, field = toString n) ∨ field = o.signature ∨ field = o.kind.text ∨
      field = Text.join "," o.fallbacks := by
  unfold recordDetails at h
  rcases List.mem_append.1 h with h | h
  · simp only [List.mem_cons, List.not_mem_nil, or_false] at h
    rcases h with h | h | h | h
    · exact .inl ⟨_, h⟩
    · exact .inl ⟨_, h⟩
    · exact .inr (.inl h)
    · exact .inr (.inr (.inl h))
  · split at h
    · cases h
    · exact .inr (.inr (.inr (List.mem_singleton.1 h)))

theorem kind_text_no_control (k : SymbolKind) {c : Char} (hc : c ∈ k.text.toList) :
    Text.isBlank c = false := by
  have hall : k.text.toList.all (fun c => !Text.isBlank c) = true := by
    cases k <;> decide
  simpa using List.all_eq_true.1 hall c hc

/-- Blanks are in a field of a line only if they are in a part of the occurrence. -/
theorem not_mem_recordDetails {o : Occurrence} {c : Char} (hblank : Text.isBlank c = true)
    (hdigit : c.isDigit = false) (hcomma : c ≠ ',') (hsignature : c ∉ o.signature.toList)
    (hfallbacks : ∀ f ∈ o.fallbacks, c ∉ f.toList) {field : String}
    (h : field ∈ recordDetails o) : c ∉ field.toList := by
  rcases mem_recordDetails h with ⟨n, rfl⟩ | rfl | rfl | rfl
  · intro hc
    rw [Text.isDigit_of_mem_toString hc] at hdigit
    cases hdigit
  · exact hsignature
  · intro hc
    rw [kind_text_no_control o.kind hc] at hblank
    cases hblank
  · intro hc
    obtain hsep | ⟨f, hf, hc⟩ := Text.mem_toList_join "," ',' rfl hc
    · exact hcomma hsep
    · exact hfallbacks f hf hc

theorem readFallbacks_join {fallbacks : List Signature} (hempty : fallbacks ≠ [])
    (hne : fallbacks ≠ [""]) (hfree : ∀ f ∈ fallbacks, ',' ∉ f.toList) :
    readFallbacks (Text.join "," fallbacks) = fallbacks := by
  have hfields := Text.fields_join "," ',' rfl hempty hfree
  have hjoin : Text.join "," fallbacks ≠ "" := by
    intro h
    rw [h] at hfields
    exact hne hfields.symm
  have hjoin' : (Text.join "," fallbacks).isEmpty = false := by simpa using hjoin
  simp [readFallbacks, hjoin', hfields]

theorem readFields_of_writable {o : Occurrence} (ho : o.Writable) (unit : String)
    (fallbacks : List Signature) :
    readFields unit (toString o.span.start) (toString o.span.stop) o.signature o.kind.text
      fallbacks = .ok (unit, { o with fallbacks }) := by
  have hstart : Text.readOffset (toString o.span.start) = some o.span.start :=
    Text.readOffset_toString (Nat.le_trans ho.start_le_stop ho.stop_le)
  have hstop : Text.readOffset (toString o.span.stop) = some o.span.stop :=
    Text.readOffset_toString ho.stop_le
  have horder : ¬ o.span.stop < o.span.start := Nat.not_lt.2 ho.start_le_stop
  have hsignature : o.signature.isEmpty = false := by simpa using ho.signature_ne
  simp only [readFields, hstart, hstop, if_neg horder, hsignature, SymbolKind.ofText?_text]
  rfl

theorem readRecord_recordLine {unit : String} (hunit : WritableUnit unit) {o : Occurrence}
    (ho : o.Writable) : readRecord (recordLine unit o) = .ok (unit, o) := by
  have hfields : Text.fields '\t' (recordLine unit o) = unit :: recordDetails o := by
    rw [recordLine_eq_join]
    refine Text.fields_join "\t" '\t' rfl (by simp) fun field hfield => ?_
    rcases List.mem_cons.1 hfield with rfl | hfield
    · exact hunit.no_tab
    · exact not_mem_recordDetails (by decide) (by decide) (by decide) ho.signature_no_tab
        ho.fallbacks_no_tab hfield
  unfold readRecord
  rw [hfields, recordDetails]
  cases hfallbacks : o.fallbacks with
  | nil =>
    have heq : { o with fallbacks := [] } = o := by
      cases o
      cases hfallbacks
      rfl
    simpa [heq] using readFields_of_writable ho unit []
  | cons f rest =>
    have hread : readFallbacks (Text.join "," (f :: rest)) = f :: rest :=
      readFallbacks_join (by simp) (hfallbacks ▸ ho.fallbacks_ne)
        (hfallbacks ▸ ho.fallbacks_no_comma)
    have heq : { o with fallbacks := f :: rest } = o := by
      cases o
      cases hfallbacks
      rfl
    simpa [hread, heq] using readFields_of_writable ho unit (f :: rest)

/-! ## Lines of a map -/

theorem isSkipped_recordLine {unit : String} (hunit : WritableUnit unit) (o : Occurrence) :
    isSkipped (recordLine unit o) = false := by
  have hline : (recordLine unit o).toList =
      unit.toList ++ '\t' :: (Text.join "\t" (recordDetails o)).toList := by
    rw [recordLine_eq_join, Text.join, String.intercalate_cons_of_ne_nil (by simp [recordDetails])]
    simp [Text.join]
  have hkind : ∃ c, c ∈ o.kind.text.toList := by
    cases o.kind <;> exact ⟨_, List.mem_cons_self⟩
  obtain ⟨c, hc⟩ := hkind
  have hmem : c ∈ (recordLine unit o).toList := by
    rw [recordLine_eq_join]
    exact Text.mem_join_of_mem _ (by simp [recordDetails]) hc
  have hcomment : Text.startsWith "#" (recordLine unit o) = false := by
    have hfirst := hunit.no_comment
    rw [Text.startsWith] at hfirst ⊢
    rw [hline]
    cases hu : unit.toList with
    | nil => rfl
    | cons d rest =>
      rw [hu] at hfirst
      simpa [List.isPrefixOf] using hfirst
  simp [isSkipped, Text.trim_ne_empty hmem (kind_text_no_control o.kind hc), hcomment]

/-- Records that can be written are read back from their lines. -/
theorem readLines_recordLines {records : List (String × Occurrence)}
    (h : ∀ r ∈ records, WritableUnit r.1 ∧ r.2.Writable) (n : Nat) :
    readLines n (records.map fun r => some (recordLine r.1 r.2)) = .ok records := by
  induction records generalizing n with
  | nil => rfl
  | cons r rest ih =>
    obtain ⟨hunit, ho⟩ := h r (by simp)
    have hrest := ih (fun s hs => h s (by simp [hs])) (n + 1)
    simp only [List.map_cons, readLines, isSkipped_recordLine hunit, readRecord_recordLine hunit ho,
      hrest]
    rfl

theorem no_feed_recordLine {unit : String} (hunit : WritableUnit unit) {o : Occurrence}
    (ho : o.Writable) : '\n' ∉ (recordLine unit o).toList := by
  rw [recordLine_eq_join]
  intro hmem
  obtain hsep | ⟨field, hfield, hc⟩ := Text.mem_toList_join "\t" '\t' rfl hmem
  · cases hsep
  · rcases List.mem_cons.1 hfield with rfl | hfield
    · exact hunit.no_feed hc
    · exact not_mem_recordDetails (by decide) (by decide) (by decide) ho.signature_no_feed
        ho.fallbacks_no_feed hfield hc

theorem no_return_recordLine (unit : String) {o : Occurrence} (ho : o.Writable) :
    (recordLine unit o).toList.getLast? ≠ some '\r' := by
  rw [recordLine_eq_join]
  refine Text.getLast?_join_ne "\t" '\t' rfl (by decide) fun field hfield => ?_
  cases hfallbacks : o.fallbacks with
  | nil =>
    -- The last field is the kind.
    have hlast : (unit :: recordDetails o).getLast? = some o.kind.text := by
      simp [recordDetails, hfallbacks]
    obtain rfl : o.kind.text = field := by simpa [hlast] using hfield
    cases o.kind <;> decide
  | cons f rest =>
    have hlast : (unit :: recordDetails o).getLast? = some (Text.join "," o.fallbacks) := by
      simp [recordDetails, hfallbacks]
    obtain rfl : Text.join "," o.fallbacks = field := by simpa [hlast] using hfield
    exact Text.getLast?_join_ne "," ',' rfl (by decide) ho.fallbacks_no_return

theorem header_no_feed : '\n' ∉ header.toList := by decide +kernel

theorem header_no_return : header.toList.getLast? ≠ some '\r' := by decide +kernel

theorem isSkipped_header : isSkipped header = true := by decide +kernel

theorem writable_of_mem_records {m : RangeMap} (hunits : ∀ unit ∈ m.unitIds, WritableUnit unit)
    (hoccurrences : ∀ unit, ∀ o ∈ m.occurrences unit, o.Writable) :
    ∀ r ∈ m.records, WritableUnit r.1 ∧ r.2.Writable := by
  rintro ⟨unit, o⟩ hr
  have ho : o ∈ m.occurrences unit := mem_records_iff.1 hr
  exact ⟨hunits unit (mem_unitIds_of_mem_occurrences ho), hoccurrences unit o ho⟩

theorem lines_write {m : RangeMap} (h : ∀ r ∈ m.records, WritableUnit r.1 ∧ r.2.Writable) :
    (Bytes.ofText m.write).lines =
      some header :: m.records.map fun r => some (recordLine r.1 r.2) := by
  have hbody : ∀ line ∈ m.bodyLines, ∃ r ∈ m.records, recordLine r.1 r.2 = line :=
    fun line hline => List.mem_map.1 hline
  rw [write, Bytes.lines_terminated]
  · simp [lines, bodyLines]
  · intro line hline
    rcases List.mem_cons.1 hline with rfl | hline
    · exact header_no_feed
    · obtain ⟨r, hr, rfl⟩ := hbody line hline
      exact no_feed_recordLine (h r hr).1 (h r hr).2
  · intro line hline
    rcases List.mem_cons.1 hline with rfl | hline
    · exact header_no_return
    · obtain ⟨r, hr, rfl⟩ := hbody line hline
      exact no_return_recordLine r.1 (h r hr).2

/-- Reading back what was written gives the map less its empty units. -/
theorem read_write {m : RangeMap} (hbuilt : m.Built)
    (hunits : ∀ unit ∈ m.unitIds, WritableUnit unit)
    (hoccurrences : ∀ unit, ∀ o ∈ m.occurrences unit, o.Writable) :
    read (Bytes.ofText m.write) = .ok m.occupied ∧
      ∀ unit, m.occupied.occurrences unit = m.occurrences unit := by
  have hrecords := writable_of_mem_records hunits hoccurrences
  have hlines : readLines 1 (Bytes.ofText m.write).lines = .ok m.records := by
    rw [lines_write hrecords, readLines, if_pos isSkipped_header]
    exact readLines_recordLines hrecords 2
  refine ⟨?_, m.occurrences_occupied⟩
  rw [read, hlines]
  exact hbuilt.ofGroups_group_records

/-- Two units with occurrences, one of them with fallbacks and with the last offset, and one unit
without any. -/
def threeUnits : RangeMap where
  units := .ofList [
    ("a/A.java", [⟨⟨6, 7⟩, "a.A", .type, []⟩,
      ⟨⟨10, Text.maxOffset⟩, "a.A.m()V", .method, ["a.B.m()V", "java.lang.Object.m()V"]⟩]),
    ("a/Empty.java", []),
    ("b.java", [⟨⟨0, 0⟩, "b.x", .field, []⟩])]

theorem read_write_threeUnits :
    read (Bytes.ofText threeUnits.write) = .ok threeUnits.occupied ∧
      ∀ unit, threeUnits.occupied.occurrences unit = threeUnits.occurrences unit := by
  apply read_write
  · refine .insertUnit (.insertUnit (.insertUnit .empty
      (insertUnit_eq_ok_iff.2 ⟨by decide +kernel, by decide +kernel, rfl⟩))
      (insertUnit_eq_ok_iff.2 ⟨by decide +kernel, by decide +kernel, rfl⟩))
      (insertUnit_eq_ok_iff.2 ⟨by decide +kernel, by decide +kernel, rfl⟩)
  · decide +kernel
  · have hrecords : ∀ r ∈ threeUnits.records, r.2.Writable := by decide +kernel
    exact fun unit o ho => hrecords (unit, o) (mem_records_iff.2 ho)

end RangeMap

end Renaming
