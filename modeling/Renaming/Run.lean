import Renaming.Java.Resolver
import Renaming.RangeMap.Format
import Renaming.Store.Opened
import Renaming.Summary

/-!
# Runs

A run extracts a range map, applies a table, or does both, one after the other. The two phases meet
only in the range map as it is written to a file. What a run did before it failed stays done, and
stays in its summary.
-/

namespace Renaming

structure RunConfig where
  input : String
  /-- Where to write; without it the input is changed in place. -/
  output : Option String := none
  classpath : List String := []
  primary : List String := []
  secondary : List String := []
  /-- Where to keep the range map, else in a temporary file. -/
  rangeMap : Option String := none
  /-- Where to write the rename log, else to a temporary file. -/
  renameLog : Option String := none
  tolerance : Tolerance := {}
  apply : ApplyOptions := {}

structure RunState where
  tree : FileTree
  summary : RunSummary

abbrev Run := ExceptT RunError (StateM RunState)

/-- The path of a temporary file, which is outside of the working directory. -/
def temporaryPath (ending : String) : String := "<temp>" ++ ending

namespace Run

variable {α : Type}

def ofStore (result : Except StoreError α) : Run α :=
  match result with
  | .ok a => pure a
  | .error e => throw (.store e)

def tree : Run FileTree := return (← get).tree

def setTree (t : FileTree) : Run Unit := modify fun s => { s with tree := t }

def report (f : RunSummary → RunSummary) : Run Unit :=
  modify fun s => { s with summary := f s.summary }

/-- Closes a store and takes over what that does to the files. -/
def close (o : OpenedStore) : Run Unit := do
  let (result, o) := o.close
  setTree o.tree
  ofStore result

/-- A separate output must not be the input collection. -/
def checkOutput (t : FileTree) (config : RunConfig) : Except RunError Unit :=
  match config.output with
  | some out =>
    if t.samePlace out config.input then
      .error (.invalidArguments
        ("output " ++ out ++ " is the input collection; use in-place mode instead"))
    else .ok ()
  | none => .ok ()

/-- Reads mapping files one after the other. -/
def readMappings (t : FileTree)
    (read : RenameTable.Loading → String → String → RenameTable.Loading)
    (start : RenameTable.Loading) (paths : List String) :
    Except RunError RenameTable.Loading :=
  paths.foldlM (fun l path =>
    match t.readText path with
    | .ok text => .ok (read l path text)
    | .error e => .error (.mappingFile path e)) start

def loadTable (config : RunConfig) : Run RenameTable := do
  let t ← tree
  let primary ← readMappings t .primary {} config.primary
  let loading ← readMappings t .secondary primary config.secondary
  report fun s => { s with mapping := some loading.summary }
  return loading.table

/-- The range map of the input collection. -/
def extractMap (config : RunConfig) : Run RangeMap := do
  let t ← tree
  let store ← ofStore (Store.openForRead t config.input)
  match extractRangeMap (OpenedStore.mk store t) (Java.resolver t config.classpath)
      config.tolerance with
  | .error e => throw (.ofExtraction e)
  | .ok e =>
    close ⟨store, t⟩
    report fun s => { s with extraction := some e.summary }
    match e.failure with
    | some failure => throw (.extractionFailed failure)
    | none => return e.rangeMap

/-- Writes a file that a run leaves behind, and gives its path. -/
def leaveFile (path : Option String) (ending : String) (content : Bytes)
    (failed : FileTrouble → RunError) : Run String := do
  match path with
  | none => return temporaryPath ending
  | some path =>
    match (← tree).writeFile path content with
    | .ok t =>
      setTree t
      return path
    | .error e => throw (failed e)

/-- Extracts the range map and writes it; what was written is handed on. -/
def extractToFile (config : RunConfig) : Run Bytes := do
  let map ← extractMap config
  let content := Bytes.ofText map.write
  let path ← leaveFile config.rangeMap ".rangemap" content fun e => .rangeMap (.file e)
  report fun s => { s with rangeMap := some path }
  return content

def readMap (content : Bytes) : Run RangeMap :=
  match RangeMap.read content with
  | .ok map => pure map
  | .error e => throw (.rangeMap e)

/-- Changes the input collection in place. -/
def applyToInput (config : RunConfig) (map : RangeMap) (table : RenameTable) :
    Run ApplyReport := do
  let t ← tree
  let store ← ofStore (Store.openInPlace t config.input)
  let (report, store) ← ofStore (applyInPlace (OpenedStore.mk store t) map table config.apply)
  setTree store.tree
  close store
  return report

/-- Writes a separate collection, into which every unit is carried. -/
def applyToOutput (output : String) (config : RunConfig) (map : RangeMap) (table : RenameTable) :
    Run ApplyReport := do
  let input ← ofStore (Store.openForRead (← tree) config.input)
  let (out, t) ← ofStore (Store.openForWrite (← tree) output)
  setTree t
  let (report, out) ← ofStore (applyTable .separate (OpenedStore.mk input t)
    (OpenedStore.mk out t) map table config.apply)
  setTree out.tree
  close out
  return report

def applyMap (config : RunConfig) (map : RangeMap) (table : RenameTable) : Run Unit := do
  let done ← match config.output with
    | none => applyToInput config map table
    | some output => applyToOutput output config map table
  let log := Bytes.ofText (RenameLog.write done.log)
  let path ← leaveFile config.renameLog ".rangelog" log .file
  report fun s => { s with renameLog := some path, apply := some done }
  if 0 < done.unitsFailed then throw (.unitsFailed done.unitsFailed)

/-- Extraction only. -/
def extract (config : RunConfig) : Run Unit := discard (extractToFile config)

/-- Application only, of a range map that is in a file. -/
def apply (config : RunConfig) (rangeMap : String) : Run Unit := do
  checkOutput (← tree) config
  let table ← loadTable config
  match (← tree).readBytes rangeMap with
  | .error e => throw (.rangeMap (.file e))
  | .ok content =>
    let map ← readMap content
    report fun s => { s with rangeMap := some rangeMap }
    applyMap config map table

/-- Extraction, then application. -/
def remap (config : RunConfig) : Run Unit := do
  checkOutput (← tree) config
  let table ← loadTable config
  let map ← readMap (← extractToFile config)
  applyMap config map table

/-- Carries out a run in a file tree. -/
def perform (run : Run Unit) (command : String) (t : FileTree) :
    Except RunError Unit × RunSummary × FileTree :=
  let (result, state) := (ExceptT.run run).run ⟨t, { command }⟩
  let summary := match result with
    | .ok () => state.summary
    | .error e => state.summary.fail e
  (result, summary, state.tree)

end Run

end Renaming
