import Renaming.CommandLine

/-!
# The program

The working directory is read, the command line is run in it, and what has changed is written back.
-/

namespace Renaming

namespace FileTree

/-- All that is under the working directory. -/
def load : IO FileTree := do
  let here ← IO.currentDir
  let above := here.components.length
  (← here.walkDir).foldlM (fun t path => do
    let l := path.components.drop above
    if ← path.isDir then return t.addDirectories l
    let content ← IO.FS.readBinFile path
    return (t.addDirectories l.dropLast).putFile l content.data.toList) {}

/-- Writes what differs from an older state of the working directory; a directory comes before what
is in it. -/
def save (old new : FileTree) : IO Unit :=
  new.entries.entries.forM fun (l, entry) => do
    if old.at? l != some entry then
      let path := Text.join "/" l
      match entry with
      | .directory => IO.FS.createDirAll path
      | .file content => IO.FS.writeBinFile path ⟨content.toArray⟩

end FileTree

end Renaming

open Renaming in
def main (args : List String) : IO UInt32 := do
  let tree ← FileTree.load
  let outcome := CommandLine.run tree args
  tree.save outcome.tree
  IO.print outcome.output
  return outcome.exitCode.toUInt32
