import Renaming.Store

/-!
# Directory stores

The units are the files below a directory. A store that is open in place keeps the content a unit
had before its first write and goes on reading that.
-/

namespace Renaming

structure DirectoryStore where
  root : String
  mode : StoreMode
  pristine : SortedMap String Bytes := .empty
  closed : Bool := false
  deriving DecidableEq

/-- What the file system can do to a write that finds everything in order: refuse to read the old
content, to make the directories after the first few names of their path, or to put the new content
in the place of the old one. -/
inductive WriteFault where
  | reading (cause : FileTrouble)
  | directories (names : Nat) (cause : FileTrouble)
  | replacing (cause : FileTrouble)
  deriving DecidableEq, Repr

namespace DirectoryStore

def openExisting (t : FileTree) (root : String) (mode : StoreMode) :
    Except StoreError DirectoryStore :=
  if t.isDirectory root then .ok { root, mode } else .error (.notFound root)

/-- Opens a directory for output, making it if need be. -/
def create (t : FileTree) (root : String) : Except StoreError (DirectoryStore × FileTree) :=
  match t.createDirectories root with
  | .error e => .error (.file e)
  | .ok t => .ok ({ root, mode := .write }, t)

def ensureOpen (s : DirectoryStore) : Except StoreError Unit :=
  if s.closed then .error (.closed s.root) else .ok ()

/-- The files below the root by their paths. File names are texts, so each path leads back to its
file. -/
def enumerate (s : DirectoryStore) (t : FileTree) : Except StoreError (List String) := do
  s.ensureOpen
  match Path.location? s.root with
  | none => throw (.file .notFound)
  | some root =>
    let ids := (t.filesBelow root).map fun (l, _) => Text.join "/" l
    return (SortedMap.ofList (ids.map fun id => (id, ()))).keys

def path (s : DirectoryStore) (unit : String) : String := Path.join s.root unit

def readBytes (s : DirectoryStore) (t : FileTree) (unit : String) : Except StoreError Bytes := do
  s.ensureOpen
  if !UnitId.isValid unit then throw (.invalidUnitId unit)
  match s.pristine.get? unit with
  | some content => return content
  | none =>
    match t.find (s.path unit) with
    | .ok (.file content) => return content
    | _ => throw (.unknownUnit unit)

/-- Keeps the old content of a unit before it is written for the first time. -/
def snapshot (fault : Option WriteFault) (s : DirectoryStore) (t : FileTree) (unit : String) :
    Except FileTrouble DirectoryStore :=
  if s.mode = .inPlace && !s.pristine.contains unit then
    match t.find (s.path unit) with
    | .ok (.file content) =>
      match fault with
      | some (.reading cause) => .error cause
      | _ => .ok { s with pristine := s.pristine.insert unit content }
    | _ => .ok s
  else .ok s

/-- Makes the directories above a unit; some of them may be left when that fails. -/
def makeParent (fault : Option WriteFault) (s : DirectoryStore) (t : FileTree) (unit : String) :
    Except FileTrouble Unit × FileTree :=
  let parent := Path.parent (s.path unit)
  match t.createDirectories parent with
  | .error e => (.error e, t)
  | .ok made =>
    match fault with
    | some (.directories names cause) => (.error cause, t.startDirectories parent names)
    | _ => (.ok (), made)

/-- Puts the new content in the place of the old one, which stays when that fails. -/
def replace (fault : Option WriteFault) (s : DirectoryStore) (t : FileTree) (unit : String)
    (content : Bytes) : Except FileTrouble FileTree :=
  match fault with
  | some (.replacing cause) => .error cause
  | _ => t.replaceFile (s.path unit) content

/-- A write that the file system may also refuse for reasons of its own. -/
def writeBytesWith (fault : Option WriteFault) (s : DirectoryStore) (t : FileTree) (unit : String)
    (content : Bytes) : Except StoreError Unit × DirectoryStore × FileTree :=
  if s.closed then (.error (.closed s.root), s, t)
  else if !s.mode.isWritable then (.error (.readOnly s.root), s, t)
  else if !UnitId.isValid unit then (.error (.invalidUnitId unit), s, t)
  else
    match s.snapshot fault t unit with
    | .error e => (.error (.file e), s, t)
    | .ok s =>
      match s.makeParent fault t unit with
      | (.error e, t) => (.error (.file e), s, t)
      | (.ok (), t) =>
        match s.replace fault t unit content with
        | .error e => (.error (.file e), s, t)
        | .ok t => (.ok (), s, t)

def close (s : DirectoryStore) : DirectoryStore := { s with closed := true, pristine := .empty }

end DirectoryStore

end Renaming
