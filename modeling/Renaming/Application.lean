import Renaming.RangeMap
import Renaming.Splice
import Renaming.Store

/-!
# Application

Applying a table to the units of a store, guided by a range map. All units are read first, then
changed one by one, then written in order. A unit that fails is left as it was, and the others go
on. The output is the input store itself or another one, into which every unit is carried.
-/

namespace Renaming

structure ApplyOptions where
  /-- Also write units in place in which nothing changed. -/
  overwriteUnmapped : Bool := false
  /-- The endings of ids of source units. -/
  extensions : List String := [".java"]
  deriving DecidableEq, Repr

inductive ApplyTarget where
  | separate
  | inPlace
  deriving DecidableEq, Repr

inductive ApplyError where
  | missingUnit (unit : String)
  | spanOutOfBounds (unit : String) (span : Span) (length : Nat)
  | read (unit : String) (cause : StoreError)
  | write (unit : String) (cause : StoreError)
  deriving DecidableEq, Repr

namespace ApplyError

def unit : ApplyError → String
  | missingUnit unit => unit
  | spanOutOfBounds unit _ _ => unit
  | read unit _ => unit
  | write unit _ => unit

def message : ApplyError → String
  | missingUnit unit => "unit " ++ unit ++ " is in the range map but not in the input store"
  | spanOutOfBounds unit span length =>
    "unit " ++ unit ++ ": span " ++ span.text ++ " is beyond the unit length " ++ toString length
  | read unit cause => "unit " ++ unit ++ ": read failed: " ++ cause.message
  | write unit cause => "unit " ++ unit ++ ": write failed: " ++ cause.message

end ApplyError

structure ApplyReport where
  log : RenameLog := []
  written : List String := []
  unchanged : Nat := 0
  copied : Nat := 0
  errors : List ApplyError := []
  deriving DecidableEq, Repr, Inhabited

namespace ApplyReport

/-- The number of units with an error. -/
def unitsFailed (r : ApplyReport) : Nat := (r.errors.map ApplyError.unit).eraseDups.length

def isClean (r : ApplyReport) : Bool := r.errors.isEmpty

end ApplyReport

/-- What is done with a unit: its text is renamed, or its content is carried over. -/
inductive JobContent where
  | text (s : String)
  | raw (content : Bytes)
  deriving DecidableEq, Repr

structure Job where
  unit : String
  content : JobContent
  deriving DecidableEq, Repr

def ApplyOptions.isSource (o : ApplyOptions) (unit : String) : Bool :=
  o.extensions.any fun ending => Text.endsWith ending unit

def rawJob (unit : String) : Except StoreError Bytes → Option Job
  | .ok content => some ⟨unit, .raw content⟩
  | .error _ => none

/-- Reads one unit: the errors met, and the job if there is something to do. -/
def readJob {ι : Type} [SourceStore ι] (input : ι) (target : ApplyTarget) (options : ApplyOptions)
    (unit : String) : List ApplyError × Option Job :=
  if options.isSource unit then
    match SourceStore.readText input unit with
    | .ok text => ([], some ⟨unit, .text text⟩)
    | .error e =>
      ([.read unit e],
        if target = .inPlace then none else rawJob unit (SourceStore.readBytes input unit))
  else if target = .inPlace then ([], none)
  else
    match SourceStore.readBytes input unit with
    | .ok content => ([], some ⟨unit, .raw content⟩)
    | .error e => ([.read unit e], none)

def missingUnits (map : RangeMap) (present : List String) : List ApplyError :=
  (map.unitIds.filter fun unit => !present.contains unit).map .missingUnit

def readJobs {ι : Type} [SourceStore ι] (input : ι) (target : ApplyTarget) (map : RangeMap)
    (options : ApplyOptions) : Except StoreError (List ApplyError × List Job) :=
  match SourceStore.enumerate input with
  | .error e => .error e
  | .ok units =>
    let reads := units.map (readJob input target options)
    .ok (missingUnits map units ++ reads.flatMap Prod.fst, reads.filterMap Prod.snd)

namespace ApplyReport

def addError (r : ApplyReport) (e : ApplyError) : ApplyReport :=
  { r with errors := r.errors ++ [e] }

/-- Accounts for one job before anything is written, and says what to write for it. -/
def plan (r : ApplyReport) (target : ApplyTarget) (map : RangeMap) (table : RenameTable)
    (options : ApplyOptions) (job : Job) : ApplyReport × Option Bytes :=
  match job.content with
  | .raw content => ({ r with copied := r.copied + 1 }, some content)
  | .text text =>
    match spliceUnit table job.unit text (map.occurrences job.unit) with
    | .error span =>
      (r.addError (.spanOutOfBounds job.unit span text.toList.length),
        if target = .inPlace then none else some (Bytes.ofText text))
    | .ok spliced =>
      let r := { r with log := r.log ++ spliced.entries }
      if !spliced.changed && target = .inPlace && !options.overwriteUnmapped then
        ({ r with unchanged := r.unchanged + 1 }, none)
      else (r, some (Bytes.ofText spliced.output))

end ApplyReport

variable {ο : Type} [SourceStore ο]

/-- Carries out one job on the output store. -/
def runJob (target : ApplyTarget) (map : RangeMap) (table : RenameTable) (options : ApplyOptions)
    (state : ApplyReport × ο) (job : Job) : ApplyReport × ο :=
  let (report, output) := state
  match report.plan target map table options job with
  | (report, none) => (report, output)
  | (report, some content) =>
    match SourceStore.writeBytes output job.unit content with
    | (.ok (), output) => ({ report with written := report.written ++ [job.unit] }, output)
    | (.error e, output) => (report.addError (.write job.unit e), output)

/-- Applies a table to every unit of the input; only an input that cannot be listed is fatal. -/
def applyTable {ι : Type} [SourceStore ι] (target : ApplyTarget) (input : ι) (output : ο)
    (map : RangeMap) (table : RenameTable) (options : ApplyOptions) :
    Except StoreError (ApplyReport × ο) :=
  match readJobs input target map options with
  | .error e => .error e
  | .ok (errors, jobs) =>
    .ok (jobs.foldl (runJob target map table options) ({ errors }, output))

/-- Applies a table to a store that is its own output. -/
def applyInPlace (store : ο) (map : RangeMap) (table : RenameTable) (options : ApplyOptions) :
    Except StoreError (ApplyReport × ο) :=
  applyTable .inPlace store store map table options

end Renaming
