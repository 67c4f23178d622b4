import Renaming.Bytes
import Renaming.Occurrence
import Renaming.SortedMap
import Renaming.Trouble

/-!
# Range maps

A range map holds the occurrences of each unit in ascending order and without overlaps. Groups that
break the order are refused as a whole, so every reader of a map can rely on it.
-/

namespace Renaming

inductive RangeMapError where
  | unordered (unit : String) (span : Span)
  | duplicateUnit (unit : String)
  | malformed (line : Nat) (reason : String)
  | file (cause : FileTrouble)
  deriving DecidableEq, Repr

def RangeMapError.message : RangeMapError → String
  | unordered unit span =>
    "unit " ++ unit ++ ": span " ++ span.text ++ " is out of order or overlaps the previous span"
  | duplicateUnit unit => "unit " ++ unit ++ " already present in range map"
  | malformed line reason => "malformed range map line " ++ toString line ++ ": " ++ reason
  | file cause => "IO error: " ++ cause.message

/-- The first span of the list that does not follow the one before it. -/
def firstDisorder : Option Span → List Occurrence → Option Span
  | _, [] => none
  | none, o :: rest => firstDisorder (some o.span) rest
  | some previous, o :: rest =>
    if o.follows previous then firstDisorder (some o.span) rest else some o.span

structure RangeMap where
  units : SortedMap String (List Occurrence)
  deriving DecidableEq, Inhabited

namespace RangeMap

def empty : RangeMap := ⟨.empty⟩

/-- Adds the occurrences of a unit that is not in the map yet. -/
def insertUnit (m : RangeMap) (unit : String) (occurrences : List Occurrence) :
    Except RangeMapError RangeMap :=
  if m.units.contains unit then .error (.duplicateUnit unit)
  else
    match firstDisorder none occurrences with
    | some span => .error (.unordered unit span)
    | none => .ok ⟨m.units.insert unit occurrences⟩

/-- Adds a unit to a map that is held on to: the answer, and the map that is left. -/
def addUnit (m : RangeMap) (unit : String) (occurrences : List Occurrence) :
    Except RangeMapError Unit × RangeMap :=
  match m.insertUnit unit occurrences with
  | .ok added => (.ok (), added)
  | .error e => (.error e, m)

def occurrences (m : RangeMap) (unit : String) : List Occurrence := (m.units.get? unit).getD []

def containsUnit (m : RangeMap) (unit : String) : Bool := m.units.contains unit

def unitIds (m : RangeMap) : List String := m.units.keys

/-- The number of occurrences in all units. -/
def size (m : RangeMap) : Nat := m.units.values.flatten.length

def isEmpty (m : RangeMap) : Bool := m.size == 0

/-- Every signature and fallback of the map once, in ascending order. -/
def signatures (m : RangeMap) : List Signature :=
  (SortedMap.ofList ((m.units.values.flatten.flatMap Occurrence.signatures).map
    fun s => (s, ()))).keys

/-- The occurrences with their units, in unit order and then span order. -/
def records (m : RangeMap) : List (String × Occurrence) :=
  m.units.entries.flatMap fun (unit, os) => os.map fun o => (unit, o)

/-- Joins records of one unit, each unit's in the order in which they come. -/
def group (records : List (String × Occurrence)) : SortedMap String (List Occurrence) :=
  records.foldl (fun groups (unit, o) =>
    groups.insert unit ((groups.get? unit).getD [] ++ [o])) .empty

def ofGroups (groups : List (String × List Occurrence)) : Except RangeMapError RangeMap :=
  groups.foldlM (fun m (unit, os) => m.insertUnit unit os) empty

end RangeMap

end Renaming
