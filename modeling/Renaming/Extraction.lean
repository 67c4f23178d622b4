import Renaming.Decimal
import Renaming.Occurrence
import Renaming.RangeMap
import Renaming.Store

/-!
# Extraction

A resolver binds the names of source units. Extraction runs it over the units of a store, puts the
occurrences of each unit in order, drops those that overlap an earlier one, and checks the outcome
against the tolerances.
-/

namespace Renaming

structure SourceUnit where
  id : String
  text : String
  deriving DecidableEq, Repr

/-- What a resolver found in one unit; the occurrences may come in any order. -/
structure UnitResolution where
  occurrences : List Occurrence := []
  diagnostics : List Diagnostic := []
  parseFailed : Bool := false
  deriving DecidableEq, Repr, Inhabited

/-- A resolver says which units it reads, and resolves a program or explains why it cannot. -/
structure Resolver where
  handles : String → Bool
  resolve : List SourceUnit → Except String (List (String × UnitResolution))

structure Tolerance where
  maxParseFailureRatio : Float := 0.5
  maxUnresolved : Option Nat := none

inductive ExtractionFailure where
  | resolverInit (message : String)
  | parseFailures (failed units : Nat) (maxRatio : Float)
  | tooManyUnresolved (unresolved limit : Nat)

def ExtractionFailure.message : ExtractionFailure → String
  | resolverInit message => "resolver could not initialize: " ++ message
  | parseFailures failed units maxRatio =>
    toString failed ++ " of " ++ toString units ++ " units failed to parse (tolerance " ++
      Decimal.plain maxRatio ++ ")"
  | tooManyUnresolved unresolved limit =>
    toString unresolved ++ " unresolved references exceed the limit of " ++ toString limit

structure ExtractionStats where
  units : Nat := 0
  parseFailures : Nat := 0
  occurrences : Nat := 0
  unresolved : Nat := 0
  ambiguous : Nat := 0
  droppedOverlaps : Nat := 0
  deriving DecidableEq, Repr, Inhabited

/-- The map is empty if the extraction failed. -/
structure Extraction where
  rangeMap : RangeMap := .empty
  failure : Option ExtractionFailure := none
  stats : ExtractionStats := {}
  diagnostics : List Diagnostic := []

def Extraction.worked (e : Extraction) : Bool := e.failure.isNone

/-- A store that cannot be read, or a map that cannot be built, ends an extraction for good. -/
inductive ExtractionError where
  | store (cause : StoreError)
  | rangeMap (cause : RangeMapError)
  deriving DecidableEq, Repr

/-- Whether an occurrence must give way to one kept before it at `previous`. -/
def Occurrence.collides (o : Occurrence) (previous : Span) : Bool :=
  o.span.start < previous.stop || o.span.start == previous.start

/-- Keeps what does not collide with the last occurrence kept. -/
def separate : Option Span → List Occurrence → List Occurrence × List Occurrence
  | _, [] => ([], [])
  | last, o :: rest =>
    if last.any o.collides then
      let (kept, dropped) := separate last rest
      (kept, o :: dropped)
    else
      let (kept, dropped) := separate (some o.span) rest
      (o :: kept, dropped)

/-- Kept and dropped occurrences, in the order of their spans. -/
def orderOccurrences (occurrences : List Occurrence) : List Occurrence × List Occurrence :=
  separate none (occurrences.mergeSort fun a b => !b.span.precedes a.span)

def overlapDiagnostic (unit : String) (o : Occurrence) : Diagnostic :=
  ⟨unit, o.span.start, .overlap, "occurrence of " ++ o.signature ++ " overlaps the previous one"⟩

namespace Extraction

/-- Adds the resolution of one unit to what has been extracted so far. -/
def addUnit (e : Extraction) (unit : String) (r : UnitResolution) :
    Except RangeMapError Extraction :=
  let (kept, dropped) := orderOccurrences r.occurrences
  let found := (r.diagnostics ++ dropped.map (overlapDiagnostic unit)).mergeSort
    fun a b => a.offset ≤ b.offset
  let count (kind : DiagnosticKind) : Nat := found.countP fun d => d.kind = kind
  (e.rangeMap.insertUnit unit kept).map fun rangeMap =>
    { e with
      rangeMap
      diagnostics := e.diagnostics ++ found
      stats :=
        { e.stats with
          parseFailures := e.stats.parseFailures + r.parseFailed.toNat
          occurrences := e.stats.occurrences + kept.length
          unresolved := e.stats.unresolved + count .unresolved
          ambiguous := e.stats.ambiguous + count .ambiguous
          droppedOverlaps := e.stats.droppedOverlaps + dropped.length } }

def addUnits (e : Extraction) (resolutions : List (String × UnitResolution)) :
    Except RangeMapError Extraction :=
  resolutions.foldlM (fun e (unit, r) => e.addUnit unit r) e

end Extraction

/-- The reason why these counts are beyond the tolerance, if they are. -/
def Tolerance.exceeded (t : Tolerance) (s : ExtractionStats) : Option ExtractionFailure :=
  if 0 < s.units && Float.ofNat s.parseFailures / Float.ofNat s.units > t.maxParseFailureRatio then
    some (.parseFailures s.parseFailures s.units t.maxParseFailureRatio)
  else
    match t.maxUnresolved with
    | none => none
    | some limit =>
      let unresolved := s.unresolved + s.ambiguous
      if limit < unresolved then some (.tooManyUnresolved unresolved limit) else none

def readUnits {σ : Type} [SourceStore σ] (store : σ) (handles : String → Bool) :
    Except StoreError (List SourceUnit) := do
  let ids ← SourceStore.enumerate store
  (ids.filter handles).mapM fun id => do
    let text ← SourceStore.readText store id
    return ⟨id, text⟩

/-- The range map of the units of a store that a resolver handles. -/
def extractRangeMap {σ : Type} [SourceStore σ] (store : σ) (resolver : Resolver)
    (tolerance : Tolerance) : Except ExtractionError Extraction :=
  match readUnits store resolver.handles with
  | .error e => .error (.store e)
  | .ok units =>
    let start : Extraction := { stats := { units := units.length } }
    match resolver.resolve units with
    | .error message => .ok { start with failure := some (.resolverInit message) }
    | .ok resolutions =>
      match start.addUnits (resolutions.mergeSort fun a b => !decide (b.1 < a.1)) with
      | .error e => .error (.rangeMap e)
      | .ok e =>
        match tolerance.exceeded e.stats with
        | none => .ok e
        | some failure => .ok { e with rangeMap := .empty, failure := some failure }

end Renaming
