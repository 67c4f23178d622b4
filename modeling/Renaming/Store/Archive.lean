import Renaming.Store
import Renaming.Zip

/-!
# Archive stores

The units are the entries of a zip archive, held in memory from opening to closing. Closing a store
that was written to replaces the archive as a whole.
-/

namespace Renaming

structure ArchiveStore where
  path : String
  mode : StoreMode
  entries : SortedMap String Bytes := .empty
  pristine : SortedMap String Bytes := .empty
  dirty : Bool := false
  closed : Bool := false
  deriving DecidableEq

namespace ArchiveStore

/-- The units of an archive: its entries that are no directories, the last one of each name. -/
def units (content : Bytes) : Except ZipError (SortedMap String Bytes) :=
  match Zip.decode content with
  | .error e => .error e
  | .ok entries =>
    .ok (.ofList ((entries.filter fun e => !e.isDirectory).map fun e => (e.name, e.content)))

def load (t : FileTree) (path : String) (mode : StoreMode) : Except StoreError ArchiveStore :=
  match t.find path with
  | .ok (.file content) =>
    match units content with
    | .ok entries => .ok { path, mode, entries }
    | .error e => .error (.archive path e.message)
  | _ => .error (.notFound path)

/-- A new, empty archive; it is written when the store is closed. -/
def create (path : String) : ArchiveStore := { path, mode := .write, dirty := true }

def ensureOpen (s : ArchiveStore) : Except StoreError Unit :=
  if s.closed then .error (.closed s.path) else .ok ()

def enumerate (s : ArchiveStore) : Except StoreError (List String) := do
  s.ensureOpen
  return s.entries.keys

def readBytes (s : ArchiveStore) (unit : String) : Except StoreError Bytes := do
  s.ensureOpen
  match s.pristine.get? unit with
  | some content => return content
  | none =>
    match s.entries.get? unit with
    | some content => return content
    | none => throw (.unknownUnit unit)

def snapshot (s : ArchiveStore) (unit : String) : ArchiveStore :=
  if s.mode = .inPlace then
    match s.entries.get? unit with
    | some content => { s with pristine := s.pristine.insertIfNew unit content }
    | none => s
  else s

def writeBytes (s : ArchiveStore) (unit : String) (content : Bytes) :
    Except StoreError Unit × ArchiveStore :=
  if s.closed then (.error (.closed s.path), s)
  else if !s.mode.isWritable then (.error (.readOnly s.path), s)
  else if !UnitId.isValid unit then (.error (.invalidUnitId unit), s)
  else
    let s := s.snapshot unit
    (.ok (), { s with entries := s.entries.insert unit content, dirty := true })

def content (s : ArchiveStore) : Bytes :=
  Zip.encode (s.entries.entries.map fun (name, content) => ⟨name, content⟩)

/-- Writes the archive, making the directories above it. -/
def flush (s : ArchiveStore) (t : FileTree) : Except StoreError FileTree :=
  match t.createDirectories (Path.parent s.path) with
  | .error e => .error (.file e)
  | .ok t =>
    match t.replaceFile s.path s.content with
    | .error e => .error (.file e)
    | .ok t => .ok t

def close (s : ArchiveStore) (t : FileTree) : Except StoreError Unit × ArchiveStore × FileTree :=
  if s.closed then (.ok (), s, t)
  else
    let emptied := { s with closed := true, entries := .empty, pristine := .empty }
    if s.mode.isWritable && s.dirty then
      match s.flush t with
      | .ok t => (.ok (), emptied, t)
      | .error e => (.error e, emptied, t)
    else (.ok (), emptied, t)

end ArchiveStore

end Renaming
