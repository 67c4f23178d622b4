import Mathlib.Data.List.Flatten
import Renaming.Proofs.Application.Outcome

/-!
# Accounts of a run

Every unit of a run has one fate, which its report shows whatever becomes of the others. A unit that
is written ends up in the output with its new text, or with the content it had. The log, however, is
written before the output answers, so that it also has what the output refused.
-/

namespace Renaming

variable {ι ο : Type} [SourceStore ι] [SourceStore ο]

/-- One of the propositions holds, and the others do not. -/
def ExactlyOne : List Prop → Prop
  | [] => False
  | p :: ps => p ∧ (∀ q ∈ ps, ¬ q) ∨ ¬ p ∧ ExactlyOne ps

/-- Whether a unit is a source that stays as it is in place because nothing in it changes. -/
def staysUnchanged (input : ι) (map : RangeMap) (table : RenameTable) (options : ApplyOptions)
    (unit : String) : Bool :=
  options.isSource unit && !options.overwriteUnmapped &&
    match SourceStore.readText input unit with
    | .error _ => false
    | .ok text =>
      match spliceUnit table unit text (map.occurrences unit) with
      | .error _ => false
      | .ok spliced => !spliced.changed

/-- The content that a unit is to get: its new text if it is a source with a text that can be
changed, and otherwise the content it has. -/
def renamedContent (map : RangeMap) (table : RenameTable) (options : ApplyOptions) (unit : String)
    (content : Bytes) : Bytes :=
  if options.isSource unit then
    match content.text? with
    | none => content
    | some text =>
      match spliceUnit table unit text (map.occurrences unit) with
      | .error _ => content
      | .ok spliced => Bytes.ofText spliced.output
  else content

/-! ## Reports of one unit -/

namespace ApplyReport

variable (noted : ApplyReport) (unit : String) (answer : Except StoreError Unit)
  (sent : Option Bytes)

@[simp] theorem log_settle : (noted.settle unit answer sent).log = noted.log := by
  cases sent with
  | none => rfl
  | some content => cases answer <;> simp [settle, answerReport]

@[simp] theorem unchanged_settle :
    (noted.settle unit answer sent).unchanged = noted.unchanged := by
  cases sent with
  | none => rfl
  | some content => cases answer <;> simp [settle, answerReport]

theorem mem_written_settle {other : String} :
    other ∈ (noted.settle unit answer sent).written ↔
      other ∈ noted.written ∨ other = unit ∧ sent.isSome = true ∧ answer = .ok () := by
  cases sent with
  | none => simp [settle]
  | some content => cases answer <;> simp [settle, answerReport]

theorem mem_errors_settle {e : ApplyError} :
    e ∈ (noted.settle unit answer sent).errors ↔
      e ∈ noted.errors ∨ ∃ cause, e = .write unit cause ∧ sent.isSome = true ∧
        answer = .error cause := by
  cases sent with
  | none => simp [settle]
  | some content => cases answer <;> simp [settle, answerReport]

end ApplyReport

namespace Course

variable {target : ApplyTarget} {input : ι} {map : RangeMap} {table : RenameTable}
  {options : ApplyOptions} {unit : String} {reads : List ApplyError} {noted : ApplyReport}
  {sent : Option Bytes}

theorem eq_read (h : Course target input map table options unit reads noted sent)
    {e : ApplyError} (he : e ∈ reads) : ∃ cause, e = .read unit cause := by
  cases h with
  | unread => exact ⟨_, List.mem_singleton.1 he⟩
  | carried htarget hcontent hraw hreads => exact hreads e he
  | ignored => cases he
  | failed => cases he
  | kept => cases he
  | renamed => cases he

theorem written_eq_nil (h : Course target input map table options unit reads noted sent) :
    noted.written = [] := by
  cases h <;> rfl

theorem eq_spanOutOfBounds (h : Course target input map table options unit reads noted sent)
    {e : ApplyError} (he : e ∈ noted.errors) :
    ∃ span length, e = .spanOutOfBounds unit span length := by
  cases h with
  | failed => exact ⟨_, _, List.mem_singleton.1 he⟩
  | ignored => cases he
  | unread => cases he
  | carried => cases he
  | kept => cases he
  | renamed => cases he

/-- Only what is sent to the output is logged. -/
theorem of_mem_log (h : Course target input map table options unit reads noted sent)
    {entry : RenameEntry} (hentry : entry ∈ noted.log) :
    entry.unit = unit ∧ ∃ content, sent = some content := by
  cases h with
  | renamed hsource htext hspliced hwanted =>
    exact ⟨unit_of_mem_spliceUnit_entries hspliced hentry, _, rfl⟩
  | ignored => cases hentry
  | unread => cases hentry
  | carried => cases hentry
  | failed => cases hentry
  | kept => cases hentry

/-- What is sent for a unit is the content that it is to get. -/
theorem sent_eq (h : Course target input map table options unit reads noted sent)
    {content : Bytes} (hsent : sent = some content) :
    ∃ old, SourceStore.readBytes input unit = .ok old ∧
      content = renamedContent map table options unit old := by
  cases h with
  | ignored => cases hsent
  | unread => cases hsent
  | kept => cases hsent
  | carried htarget hcontent hraw hreads =>
    cases hsent
    refine ⟨content, hcontent, ?_⟩
    rcases hraw with hsource | htext
    · simp [renamedContent, hsource]
    · simp [renamedContent, htext]
  | @failed text span hsource htext hspliced =>
    split at hsent
    · cases hsent
    · cases hsent
      refine ⟨_, readBytes_of_readText input htext, ?_⟩
      simp [renamedContent, hsource, hspliced]
  | @renamed text spliced hsource htext hspliced hwanted =>
    cases hsent
    refine ⟨_, readBytes_of_readText input htext, ?_⟩
    simp [renamedContent, hsource, hspliced]

/-- In place only sources are sent. -/
theorem isSource_of_sent (h : Course .inPlace input map table options unit reads noted sent)
    {content : Bytes} (hsent : sent = some content) : options.isSource unit = true := by
  cases h with
  | ignored => cases hsent
  | unread => cases hsent
  | kept => cases hsent
  | carried htarget => cases htarget
  | failed hsource => exact hsource
  | renamed hsource => exact hsource

theorem unchanged_eq (h : Course .inPlace input map table options unit reads noted sent) :
    noted.unchanged = if staysUnchanged input map table options unit then 1 else 0 := by
  cases h with
  | ignored htarget hsource => simp [staysUnchanged, hsource]
  | unread htext => simp [staysUnchanged, htext]
  | carried htarget => cases htarget
  | failed hsource htext hspliced => simp [staysUnchanged, htext, hspliced]
  | kept htarget hsource htext hspliced hsame hoverwrite =>
    simp [staysUnchanged, hsource, htext, hspliced, hsame, hoverwrite]
  | renamed hsource htext hspliced hwanted =>
    rcases hwanted rfl with hchanged | hoverwrite
    · simp [staysUnchanged, htext, hspliced, hchanged]
    · simp [staysUnchanged, hoverwrite]

/-- Into another store a unit is sent unless its content cannot be read. -/
theorem exactlyOne_separate (h : Course .separate input map table options unit reads noted sent)
    (answer : Except StoreError Unit) :
    ExactlyOne [sent.isSome = true ∧ answer = .ok (),
      ∃ cause, sent.isSome = true ∧ answer = .error cause,
      (∃ cause, .read unit cause ∈ reads) ∧
        ∃ e, SourceStore.readBytes input unit = .error e] := by
  cases h with
  | ignored htarget => cases htarget
  | kept htarget => cases htarget
  | unread htext hneeded =>
    obtain ⟨⟨⟩, -⟩ | ⟨-, hcontent⟩ := hneeded
    simpa [ExactlyOne] using hcontent
  | carried htarget hcontent hraw hreads => cases answer <;> simp [ExactlyOne, hcontent]
  | failed hsource htext hspliced =>
    cases answer <;> simp [ExactlyOne, readBytes_of_readText input htext]
  | renamed hsource htext hspliced hwanted =>
    cases answer <;> simp [ExactlyOne, readBytes_of_readText input htext]

/-- In place a source is sent, or stays as it is for one reason. -/
theorem exactlyOne_inPlace (h : Course .inPlace input map table options unit reads noted sent)
    (hsource : options.isSource unit = true) (answer : Except StoreError Unit) :
    ExactlyOne [sent.isSome = true ∧ answer = .ok (),
      staysUnchanged input map table options unit = true,
      ∃ span length, .spanOutOfBounds unit span length ∈ noted.errors,
      ∃ cause, sent.isSome = true ∧ answer = .error cause,
      ∃ cause, .read unit cause ∈ reads] := by
  cases h with
  | ignored htarget hforeign => simp [hsource] at hforeign
  | carried htarget => cases htarget
  | unread htext => simp [ExactlyOne, staysUnchanged, htext]
  | failed hsource htext hspliced => simp [ExactlyOne, staysUnchanged, htext, hspliced]
  | kept htarget hsource htext hspliced hsame hoverwrite =>
    simp [ExactlyOne, staysUnchanged, hsource, htext, hspliced, hsame, hoverwrite]
  | renamed hsource htext hspliced hwanted =>
    have hstays : staysUnchanged input map table options unit = false := by
      rcases hwanted rfl with hchanged | hoverwrite
      · simp [staysUnchanged, htext, hspliced, hchanged]
      · simp [staysUnchanged, hoverwrite]
    cases answer <;> simp [ExactlyOne, hstays]

end Course

/-! ## The report of all units -/

variable (target : ApplyTarget) (input : ι) (map : RangeMap) (table : RenameTable)
  (options : ApplyOptions)

/-- The report of a run, given what the output answers for each unit. -/
def runReport (units : List String) (answers : String → Except StoreError Unit) : ApplyReport :=
  { errors := missingUnits map units ++
      (units.map (readJob input target options)).flatMap Prod.fst } ++
    .join (units.map fun unit => unitReport target input map table options (answers unit) unit)

/-- Where an error of a run comes from. -/
def ApplyError.Arises (units : List String) (answers : String → Except StoreError Unit) :
    ApplyError → Prop
  | .missingUnit unit => unit ∈ map.unitIds ∧ unit ∉ units
  | .read unit cause => unit ∈ units ∧ .read unit cause ∈ (readJob input target options unit).1
  | .spanOutOfBounds unit span length =>
    unit ∈ units ∧ .spanOutOfBounds unit span length ∈
      (unitPlan target input map table options unit).1.errors
  | .write unit cause =>
    unit ∈ units ∧ (unitPlan target input map table options unit).2.isSome = true ∧
      answers unit = .error cause

/-- A run over an input that can be listed succeeds, and the output holds what it took. -/
theorem applyTable_eq_runReport {units : List String}
    (henum : SourceStore.enumerate input = .ok units) (hnodup : units.Nodup) (output : ο) :
    ∃ (done : ApplyReport × ο) (answers : String → Except StoreError Unit),
      applyTable target input output map table options = .ok done ∧
      done.1 = runReport target input map table options units answers ∧
      ∀ view : StoreView ο, ∀ unit ∈ units, ∀ content,
        (unitPlan target input map table options unit).2 = some content →
          answers unit = .ok () → view.held done.2 unit = some content := by
  obtain ⟨answers, hreport, hheld⟩ := foldl_runUnit_eq_append target input map table options hnodup
    ({ errors := missingUnits map units ++
        (units.map (readJob input target options)).flatMap Prod.fst }, output)
  exact ⟨_, answers, applyTable_eq_foldl henum target output map table options, hreport,
    fun view => (hheld view).1⟩

section Report

variable {target : ApplyTarget} {input : ι} {map : RangeMap} {table : RenameTable}
  {options : ApplyOptions} {units : List String} {answers : String → Except StoreError Unit}
  {unit : String}

theorem mem_missingUnits {e : ApplyError} :
    e ∈ missingUnits map units ↔
      ∃ unit, e = .missingUnit unit ∧ unit ∈ map.unitIds ∧ unit ∉ units := by
  simp only [missingUnits, List.mem_map, List.mem_filter]
  constructor
  · rintro ⟨unit, ⟨hmap, hunits⟩, rfl⟩
    exact ⟨unit, rfl, hmap, by simpa using hunits⟩
  · rintro ⟨unit, rfl, hmap, hunits⟩
    exact ⟨unit, ⟨hmap, by simpa using hunits⟩, rfl⟩

/-- An error is reported exactly if it arises at the unit that it names. -/
theorem mem_errors_runReport {e : ApplyError} :
    e ∈ (runReport target input map table options units answers).errors ↔
      e.Arises target input map table options units answers := by
  simp only [runReport, ApplyReport.errors_append, ApplyReport.join, List.flatMap_map,
    List.mem_append, List.mem_flatMap, unitReport, ApplyReport.mem_errors_settle]
  constructor
  · rintro ((hmissing | ⟨unit, hunit, hread⟩) | ⟨unit, hunit, hnoted | hrefused⟩)
    · obtain ⟨unit, rfl, hunit⟩ := mem_missingUnits.1 hmissing
      exact hunit
    · obtain ⟨cause, rfl⟩ := (course target input map table options unit).eq_read hread
      exact ⟨hunit, hread⟩
    · obtain ⟨span, length, rfl⟩ :=
        (course target input map table options unit).eq_spanOutOfBounds hnoted
      exact ⟨hunit, hnoted⟩
    · obtain ⟨cause, rfl, hrefused⟩ := hrefused
      exact ⟨hunit, hrefused⟩
  · intro h
    cases e with
    | missingUnit unit => exact .inl (.inl (mem_missingUnits.2 ⟨unit, rfl, h⟩))
    | read unit cause => exact .inl (.inr ⟨unit, h⟩)
    | spanOutOfBounds unit span length => exact .inr ⟨unit, h.1, .inl h.2⟩
    | write unit cause => exact .inr ⟨unit, h.1, .inr ⟨cause, rfl, h.2⟩⟩

theorem mem_written_runReport :
    unit ∈ (runReport target input map table options units answers).written ↔
      unit ∈ units ∧ (unitPlan target input map table options unit).2.isSome = true ∧
        answers unit = .ok () := by
  simp only [runReport, ApplyReport.written_append, ApplyReport.join, List.flatMap_map,
    List.nil_append, List.mem_flatMap, unitReport, ApplyReport.mem_written_settle,
    (course target input map table options _).written_eq_nil, List.not_mem_nil, false_or]
  constructor
  · rintro ⟨_, hunit, rfl, htaken⟩
    exact ⟨hunit, htaken⟩
  · rintro ⟨hunit, htaken⟩
    exact ⟨unit, hunit, rfl, htaken⟩

/-- Units are written in the order of the run. -/
theorem written_sublist_runReport :
    (runReport target input map table options units answers).written.Sublist units := by
  have hone (unit : String) :
      (unitReport target input map table options (answers unit) unit).written.Sublist [unit] := by
    have hnoted := (course target input map table options unit).written_eq_nil
    unfold unitReport
    dsimp only
    cases (unitPlan target input map table options unit).2 with
    | none => simp [ApplyReport.settle, hnoted]
    | some content => cases answers unit <;> simp [ApplyReport.settle, answerReport, hnoted]
  have hall := List.Sublist.flatMap_right units fun unit _ => hone unit
  simpa [runReport, ApplyReport.join, List.flatMap_map] using hall

theorem unit_of_mem_log_runReport {entry : RenameEntry}
    (h : entry ∈ (runReport target input map table options units answers).log) :
    entry.unit ∈ units ∧
      (unitPlan target input map table options entry.unit).2.isSome = true := by
  simp only [runReport, ApplyReport.log_append, ApplyReport.join, List.flatMap_map,
    List.nil_append, List.mem_flatMap, unitReport, ApplyReport.log_settle] at h
  obtain ⟨unit, hunit, hentry⟩ := h
  obtain ⟨rfl, content, hsent⟩ := (course target input map table options unit).of_mem_log hentry
  exact ⟨hunit, by simp [hsent]⟩

theorem foldr_add_indicator {α : Type} (p : α → Bool) (l : List α) :
    (l.map fun a => if p a then 1 else 0).foldr (· + ·) 0 = l.countP p := by
  induction l with
  | nil => rfl
  | cons a rest ih => simp [List.countP_cons, ih, Nat.add_comm]

/-- The sources that stay as they are in place are counted. -/
theorem unchanged_runReport :
    (runReport .inPlace input map table options units answers).unchanged =
      units.countP (staysUnchanged input map table options) := by
  rw [← foldr_add_indicator]
  simp [runReport, ApplyReport.join, unitReport, Function.comp_def,
    (course .inPlace input map table options _).unchanged_eq]

end Report

/-! ## Runs -/

/-- Every unit of a run has one fate. Missing are the units of the map that the input does not
list. Into another store each unit is written, refused, or unreadable; in place each source is
written, unchanged, out of bounds, refused, or unreadable, and no other unit is written. Units are
written in order and once, and the output holds them with the content they are to get. -/
theorem applyTable_accounts (view : StoreView ο) {units : List String}
    (henum : SourceStore.enumerate input = .ok units) (hnodup : units.Nodup) (output : ο) :
    ∃ done : ApplyReport × ο, applyTable target input output map table options = .ok done ∧
      (∀ unit, .missingUnit unit ∈ done.1.errors ↔ unit ∈ map.unitIds ∧ unit ∉ units) ∧
      (target = .separate → ∀ unit ∈ units,
        ExactlyOne [unit ∈ done.1.written,
          ∃ cause, .write unit cause ∈ done.1.errors,
          (∃ cause, .read unit cause ∈ done.1.errors) ∧
            ∃ e, SourceStore.readBytes input unit = .error e]) ∧
      (target = .inPlace →
        (∀ unit ∈ units, options.isSource unit = true →
          ExactlyOne [unit ∈ done.1.written,
            staysUnchanged input map table options unit = true,
            ∃ span length, .spanOutOfBounds unit span length ∈ done.1.errors,
            ∃ cause, .write unit cause ∈ done.1.errors,
            ∃ cause, .read unit cause ∈ done.1.errors]) ∧
        done.1.unchanged = units.countP (staysUnchanged input map table options) ∧
        ∀ unit ∈ done.1.written, options.isSource unit = true) ∧
      done.1.written.Sublist units ∧ done.1.written.Nodup ∧
      ∀ unit ∈ done.1.written, ∃ content, SourceStore.readBytes input unit = .ok content ∧
        view.held done.2 unit = some (renamedContent map table options unit content) := by
  obtain ⟨⟨report, output'⟩, answers, hrun, rfl, hheld⟩ :=
    applyTable_eq_runReport target input map table options henum hnodup output
  refine ⟨_, hrun, fun unit => mem_errors_runReport, ?_, ?_, written_sublist_runReport,
    written_sublist_runReport.nodup hnodup, ?_⟩
  · rintro rfl unit hunit
    simpa only [mem_written_runReport, mem_errors_runReport, ApplyError.Arises, hunit, true_and]
      using (course .separate input map table options unit).exactlyOne_separate (answers unit)
  · rintro rfl
    refine ⟨fun unit hunit hsource => ?_, unchanged_runReport, fun unit hunit => ?_⟩
    · simpa only [mem_written_runReport, mem_errors_runReport, ApplyError.Arises, hunit, true_and]
        using (course .inPlace input map table options unit).exactlyOne_inPlace hsource
          (answers unit)
    · obtain ⟨-, hsent, -⟩ := mem_written_runReport.1 hunit
      obtain ⟨content, hsent⟩ := Option.isSome_iff_exists.1 hsent
      exact (course .inPlace input map table options unit).isSource_of_sent hsent
  · intro unit hunit
    obtain ⟨hunit, hsent, htaken⟩ := mem_written_runReport.1 hunit
    obtain ⟨content, hsent⟩ := Option.isSome_iff_exists.1 hsent
    obtain ⟨old, hold, rfl⟩ := (course target input map table options unit).sent_eq hsent
    exact ⟨old, hold, hheld view unit hunit _ hsent htaken⟩

/-- Sources that are changed, no text, out of bounds, unreadable, refused and unchanged, and a unit
that is no source. -/
def troubledStore : RestrictedStore MemoryStore where
  store := { units := .ofList [("A.java", Bytes.ofText "class A {}"), ("B.java", [255]),
    ("C.java", Bytes.ofText "class C {}"), ("D.java", Bytes.ofText "class D {}"),
    ("E.java", Bytes.ofText "class E {}"), ("F.java", Bytes.ofText "class F {}"),
    ("notes.txt", [254])] }
  unreadable := ["D.java"]
  unwritable := ["E.java"]

theorem enumerate_troubledStore :
    SourceStore.enumerate troubledStore = .ok ["A.java", "B.java", "C.java", "D.java", "E.java",
      "F.java", "notes.txt"] := by
  decide +kernel

def troubledMap : RangeMap where
  units := .ofList [("A.java", [⟨⟨6, 7⟩, "A", .type, []⟩]), ("C.java", [⟨⟨9, 99⟩, "A", .type, []⟩]),
    ("E.java", [⟨⟨6, 7⟩, "E", .type, []⟩]), ("gone/G.java", [])]

def troubledTable : RenameTable :=
  (RenameTable.empty.insert (.symbol "A" "Z")).insert (.symbol "E" "Y")

theorem applyTable_accounts_troubledStore :
    ∃ done : ApplyReport × RestrictedStore MemoryStore,
      applyInPlace troubledStore troubledMap troubledTable {} = .ok done ∧
      (∀ unit ∈ ["A.java", "B.java", "C.java", "D.java", "E.java", "F.java"],
        ExactlyOne [unit ∈ done.1.written,
          staysUnchanged troubledStore troubledMap troubledTable {} unit = true,
          ∃ span length, .spanOutOfBounds unit span length ∈ done.1.errors,
          ∃ cause, .write unit cause ∈ done.1.errors,
          ∃ cause, .read unit cause ∈ done.1.errors]) ∧
      ∀ unit ∈ done.1.written, ∃ content,
        SourceStore.readBytes troubledStore unit = .ok content ∧
        (RestrictedStore.view MemoryStore.view).held done.2 unit =
          some (renamedContent troubledMap troubledTable {} unit content) := by
  obtain ⟨done, hrun, -, -, hinPlace, -, -, hheld⟩ :=
    applyTable_accounts .inPlace troubledStore troubledMap troubledTable {}
      (RestrictedStore.view MemoryStore.view) enumerate_troubledStore (by decide) troubledStore
  have hsources : ∀ unit ∈ ["A.java", "B.java", "C.java", "D.java", "E.java", "F.java"],
      ({} : ApplyOptions).isSource unit = true := by decide +kernel
  refine ⟨done, hrun, fun unit hunit => (hinPlace rfl).1 unit ?_ (hsources unit hunit), hheld⟩
  exact List.mem_append_left ["notes.txt"] hunit

/-- What is logged of a unit was written exactly if the output did not refuse that unit. -/
theorem applyTable_log_written_iff {units : List String}
    (henum : SourceStore.enumerate input = .ok units) (hnodup : units.Nodup) (output : ο) :
    ∃ done : ApplyReport × ο, applyTable target input output map table options = .ok done ∧
      ∀ entry ∈ done.1.log,
        entry.unit ∈ done.1.written ↔ ∀ cause, .write entry.unit cause ∉ done.1.errors := by
  obtain ⟨⟨report, output'⟩, answers, hrun, rfl, -⟩ :=
    applyTable_eq_runReport target input map table options henum hnodup output
  refine ⟨_, hrun, fun entry hentry => ?_⟩
  obtain ⟨hunit, hsent⟩ := unit_of_mem_log_runReport hentry
  simp only [mem_written_runReport, mem_errors_runReport, ApplyError.Arises, hunit, hsent,
    true_and]
  cases answers entry.unit with
  | ok => simp
  | error e => simp

theorem applyTable_log_written_iff_troubledStore :
    ∃ done : ApplyReport × RestrictedStore MemoryStore,
      applyTable .inPlace troubledStore troubledStore troubledMap troubledTable {} = .ok done ∧
      ∀ entry ∈ done.1.log,
        entry.unit ∈ done.1.written ↔ ∀ cause, .write entry.unit cause ∉ done.1.errors :=
  applyTable_log_written_iff .inPlace troubledStore troubledMap troubledTable {}
    enumerate_troubledStore (by decide) troubledStore

/-- A substitution in a unit that the output refuses is logged. -/
theorem refused_unit_logged :
    ∃ done : ApplyReport × RestrictedStore MemoryStore,
      applyTable .inPlace troubledStore troubledStore troubledMap troubledTable {} = .ok done ∧
      ∃ entry ∈ done.1.log, entry.unit ∉ done.1.written :=
  ⟨_, rfl, ⟨"E", "Y", "E.java", 6⟩, by decide +kernel, by decide +kernel⟩

end Renaming
