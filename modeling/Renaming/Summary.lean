import Renaming.Application
import Renaming.Extraction
import Renaming.Json
import Renaming.RenameTable.Reader

/-!
# Failures and summaries of runs

Every way in which a run can fail has a message and an exit code. The summary of a run is one
document that says how the run ended and what each phase did. Sections that do not apply are left
out.
-/

namespace Renaming

/-! ## Failures -/

inductive RunError where
  | invalidArguments (text : String)
  | extractionFailed (failure : ExtractionFailure)
  | store (cause : StoreError)
  | mappingFile (path : String) (cause : FileTrouble)
  | rangeMap (cause : RangeMapError)
  | file (cause : FileTrouble)
  | unitsFailed (count : Nat)
  | internal (text : String)

namespace RunError

def ofExtraction : ExtractionError → RunError
  | .store cause => store cause
  | .rangeMap cause =>
    internal ("extractor produced an inconsistent range map: " ++ cause.message)

def message : RunError → String
  | invalidArguments text => "invalid arguments: " ++ text
  | extractionFailed failure => "extraction failed: " ++ failure.message
  | store cause => "store error: " ++ cause.message
  | mappingFile path cause =>
    "mapping error: cannot read mapping file " ++ path ++ ": " ++ cause.message
  | rangeMap cause => "range map error: " ++ cause.message
  | file cause => "IO error: " ++ cause.message
  | unitsFailed count => toString count ++ " unit(s) could not be remapped"
  | internal text => "internal error: " ++ text

/-- Two for bad arguments, three for extraction, four for files and units, ten for the rest. -/
def exitCode : RunError → Nat
  | invalidArguments _ => 2
  | rangeMap (.malformed _ _) => 2
  | extractionFailed _ => 3
  | store _ | mappingFile _ _ | rangeMap _ | file _ | unitsFailed _ => 4
  | internal _ => 10

end RunError

/-! ## Summaries -/

def ratioJson (x : Float) : Json := ((Decimal.data? x).map Json.number).getD .null

def ExtractionFailure.json : ExtractionFailure → Json
  | resolverInit message =>
    .object [("reason", .string "resolver_init"), ("message", .string message)]
  | parseFailures failed units maxRatio =>
    .object [("reason", .string "parse_failures"), ("failed", .ofNat failed),
      ("units", .ofNat units), ("max_ratio", ratioJson maxRatio)]
  | tooManyUnresolved unresolved limit =>
    .object [("reason", .string "too_many_unresolved"), ("unresolved", .ofNat unresolved),
      ("limit", .ofNat limit)]

def ExtractionStats.fields (s : ExtractionStats) : List (String × Json) :=
  [("units", .ofNat s.units), ("parse_failures", .ofNat s.parseFailures),
    ("occurrences", .ofNat s.occurrences), ("unresolved", .ofNat s.unresolved),
    ("ambiguous", .ofNat s.ambiguous), ("dropped_overlaps", .ofNat s.droppedOverlaps)]

def ifPresent {α : Type} (name : String) (value : Option α) (json : α → Json) :
    List (String × Json) :=
  (value.map fun v => (name, json v)).toList

def ifNonempty (name : String) (texts : List String) : List (String × Json) :=
  if texts.isEmpty then [] else [(name, .array (texts.map .string))]

structure ExtractionSummary where
  worked : Bool
  stats : ExtractionStats
  failure : Option ExtractionFailure

def Extraction.summary (e : Extraction) : ExtractionSummary := ⟨e.worked, e.stats, e.failure⟩

def ExtractionSummary.json (s : ExtractionSummary) : Json :=
  .object ([("worked", .bool s.worked)] ++ s.stats.fields ++
    ifPresent "failure" s.failure ExtractionFailure.json)

structure MappingSummary where
  entries : Nat
  skipped : List String

def RenameTable.Loading.summary (l : RenameTable.Loading) : MappingSummary :=
  ⟨l.table.size, l.report.skipped.map SkippedLine.message⟩

def MappingSummary.json (s : MappingSummary) : Json :=
  .object ([("entries", .ofNat s.entries), ("skipped_lines", .ofNat s.skipped.length)] ++
    ifNonempty "errors" s.skipped)

def ApplyReport.json (r : ApplyReport) : Json :=
  .object ([("units_written", .ofNat r.written.length), ("units_unchanged", .ofNat r.unchanged),
    ("units_copied", .ofNat r.copied), ("units_failed", .ofNat r.unitsFailed),
    ("substitutions", .ofNat r.log.length)] ++
    ifNonempty "errors" (r.errors.map ApplyError.message))

structure RunSummary where
  command : String
  extraction : Option ExtractionSummary := none
  mapping : Option MappingSummary := none
  apply : Option ApplyReport := none
  rangeMap : Option String := none
  renameLog : Option String := none
  error : Option RunError := none

namespace RunSummary

def isOk (s : RunSummary) : Bool := s.error.isNone

/-- Marks the run as failed; what it gathered before stays. -/
def fail (s : RunSummary) (e : RunError) : RunSummary := { s with error := some e }

def errorJson (e : RunError) : Json :=
  .object [("code", .ofNat e.exitCode), ("message", .string e.message)]

def json (s : RunSummary) : Json :=
  .object ([("status", .string (if s.isOk then "ok" else "error")),
    ("schema_version", .string "1"), ("command", .string s.command)] ++
    ifPresent "extraction" s.extraction ExtractionSummary.json ++
    ifPresent "mapping" s.mapping MappingSummary.json ++
    ifPresent "apply" s.apply ApplyReport.json ++
    ifPresent "range_map" s.rangeMap .string ++
    ifPresent "rename_log" s.renameLog .string ++
    ifPresent "error" s.error errorJson)

def text (s : RunSummary) : String := s.json.pretty 0 ++ "\n"

end RunSummary

end Renaming
