import Renaming.FileTree

/-!
# Stores of source units

A store is a collection of units, each with an id and a content. Ids are relative paths that stay
inside the collection. What a store can do is stated by the class `SourceStore`; a write gives the
store that is left, also when it fails.
-/

namespace Renaming

namespace UnitId

/-- An id is a nonempty relative path without backslashes that neither starts with a dot component
nor steps up. -/
def isValid (id : String) : Bool :=
  let parts := Text.fields '/' id
  !id.isEmpty && !Text.containsChar '\\' id && parts.head? != some "" &&
    parts.head? != some "." && !parts.contains ".."

end UnitId

inductive StoreError where
  | notFound (path : String)
  | unknownUnit (unit : String)
  | invalidUnitId (unit : String)
  | notText (unit : String)
  | archive (path message : String)
  | readOnly (path : String)
  | closed (path : String)
  | file (cause : FileTrouble)
  deriving DecidableEq, Repr

def StoreError.message : StoreError → String
  | notFound path => "store location not found: " ++ path
  | unknownUnit unit => "unknown unit: " ++ unit
  | invalidUnitId unit => "invalid unit id '" ++ unit ++ "'"
  | notText unit => "unit is not UTF-8 text: " ++ unit
  | archive path message => "archive error at " ++ path ++ ": " ++ message
  | readOnly path => "store is read-only: " ++ path
  | closed path => "store already closed: " ++ path
  | file cause => "IO error: " ++ cause.message

/-- How a store was opened; one that is open in place is its own input. -/
inductive StoreMode where
  | read
  | write
  | inPlace
  deriving DecidableEq, Repr

def StoreMode.isWritable (m : StoreMode) : Bool := m != .read

class SourceStore (σ : Type) where
  /-- The ids of all units, in ascending order. -/
  enumerate : σ → Except StoreError (List String)
  readBytes : σ → String → Except StoreError Bytes
  writeBytes : σ → String → Bytes → Except StoreError Unit × σ

namespace SourceStore

variable {σ : Type} [SourceStore σ]

def readText (s : σ) (unit : String) : Except StoreError String :=
  match readBytes s unit with
  | .error e => .error e
  | .ok content =>
    match content.text? with
    | some text => .ok text
    | none => .error (.notText unit)

end SourceStore

/-- Units held in memory. -/
structure MemoryStore where
  units : SortedMap String Bytes := .empty
  closed : Bool := false
  deriving DecidableEq, Inhabited

namespace MemoryStore

def locator : String := "<memory>"

def ofTexts (units : List (String × String)) : MemoryStore :=
  { units := .ofList (units.map fun (id, text) => (id, Bytes.ofText text)) }

def enumerate (s : MemoryStore) : Except StoreError (List String) :=
  if s.closed then .error (.closed locator) else .ok s.units.keys

def readBytes (s : MemoryStore) (unit : String) : Except StoreError Bytes :=
  match s.units.get? unit with
  | some content => .ok content
  | none => .error (.unknownUnit unit)

def writeBytes (s : MemoryStore) (unit : String) (content : Bytes) :
    Except StoreError Unit × MemoryStore :=
  if UnitId.isValid unit then (.ok (), { s with units := s.units.insert unit content })
  else (.error (.invalidUnitId unit), s)

def text? (s : MemoryStore) (unit : String) : Option String := (s.units.get? unit).bind Bytes.text?

def close (s : MemoryStore) : MemoryStore := { s with closed := true }

instance : SourceStore MemoryStore := ⟨enumerate, readBytes, writeBytes⟩

end MemoryStore

/-- A store that refuses to read some units and to write some others. -/
structure RestrictedStore (σ : Type) where
  store : σ
  unreadable : List String := []
  unwritable : List String := []

instance {σ : Type} [SourceStore σ] : SourceStore (RestrictedStore σ) where
  enumerate s := SourceStore.enumerate s.store
  readBytes s unit :=
    if s.unreadable.contains unit then .error (.unknownUnit unit)
    else SourceStore.readBytes s.store unit
  writeBytes s unit content :=
    if s.unwritable.contains unit then (.error (.readOnly unit), s)
    else
      let (result, store) := SourceStore.writeBytes s.store unit content
      (result, { s with store })

end Renaming
