import Renaming.Store.Archive
import Renaming.Store.Directory

/-!
# Opened stores

Any of the three kinds of store, together with the file tree it works on. A path that names an
archive is opened as one, any other path as a directory.
-/

namespace Renaming

inductive Store where
  | memory (s : MemoryStore)
  | directory (s : DirectoryStore)
  | archive (s : ArchiveStore)

namespace Store

def openForRead (t : FileTree) (path : String) : Except StoreError Store :=
  if Path.isArchive path then archive <$> ArchiveStore.load t path .read
  else directory <$> DirectoryStore.openExisting t path .read

def openInPlace (t : FileTree) (path : String) : Except StoreError Store :=
  if Path.isArchive path then archive <$> ArchiveStore.load t path .inPlace
  else directory <$> DirectoryStore.openExisting t path .inPlace

def openForWrite (t : FileTree) (path : String) : Except StoreError (Store × FileTree) :=
  if Path.isArchive path then .ok (archive (ArchiveStore.create path), t)
  else
    match DirectoryStore.create t path with
    | .error e => .error e
    | .ok (s, t) => .ok (directory s, t)

def locator : Store → String
  | memory _ => MemoryStore.locator
  | directory s => s.root
  | archive s => s.path

def mode : Store → StoreMode
  | memory _ => .write
  | directory s => s.mode
  | archive s => s.mode

end Store

structure OpenedStore where
  store : Store
  tree : FileTree

namespace OpenedStore

def enumerate (o : OpenedStore) : Except StoreError (List String) :=
  match o.store with
  | .memory s => s.enumerate
  | .directory s => s.enumerate o.tree
  | .archive s => s.enumerate

def readBytes (o : OpenedStore) (unit : String) : Except StoreError Bytes :=
  match o.store with
  | .memory s => s.readBytes unit
  | .directory s => s.readBytes o.tree unit
  | .archive s => s.readBytes unit

/-- A write of a unit; only a directory writes to the file system at once. -/
def writeBytesWith (fault : Option WriteFault) (o : OpenedStore) (unit : String)
    (content : Bytes) : Except StoreError Unit × OpenedStore :=
  match o.store with
  | .memory s =>
    let (result, s) := s.writeBytes unit content
    (result, ⟨.memory s, o.tree⟩)
  | .directory s =>
    let (result, s, tree) := s.writeBytesWith fault o.tree unit content
    (result, ⟨.directory s, tree⟩)
  | .archive s =>
    let (result, s) := s.writeBytes unit content
    (result, ⟨.archive s, o.tree⟩)

def writeBytes (o : OpenedStore) (unit : String) (content : Bytes) :
    Except StoreError Unit × OpenedStore :=
  o.writeBytesWith none unit content

def close (o : OpenedStore) : Except StoreError Unit × OpenedStore :=
  match o.store with
  | .memory s => (.ok (), ⟨.memory s.close, o.tree⟩)
  | .directory s => (.ok (), ⟨.directory s.close, o.tree⟩)
  | .archive s =>
    let (result, s, tree) := s.close o.tree
    (result, ⟨.archive s, tree⟩)

instance : SourceStore OpenedStore := ⟨enumerate, readBytes, writeBytes⟩

end OpenedStore

end Renaming
