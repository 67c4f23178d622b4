import Renaming.Run

/-!
# The command line

Options may stand before and after the command. An option that is given after the command replaces
the same option in front of it, as a whole; within one of the two places an option that is not a
list is given at most once. What cannot be read ends the program at once, with nothing but an exit
code.
-/

namespace Renaming

namespace CommandLine

inductive Command where
  | remap
  | extract
  | apply
  deriving DecidableEq, Repr

def Command.name : Command → String
  | remap => "remap"
  | extract => "extract"
  | apply => "apply"

/-- Options as given at one place; what is absent was not given there. -/
structure Options where
  input : Option String := none
  output : Option String := none
  inPlace : Bool := false
  classpath : List String := []
  primary : List String := []
  secondary : List String := []
  rangeMap : Option String := none
  renameLog : Option String := none
  maxParseFailureRatio : Option Float := none
  maxUnresolved : Option Nat := none
  overwriteUnmapped : Bool := false
  sequential : Bool := false
  logLevel : Option String := none

namespace Options

/-- The options of both places; those after the command win. -/
def merge (before after : Options) : Options :=
  let either (later earlier : List String) : List String := if later.isEmpty then earlier else later
  { input := after.input.or before.input
    output := after.output.or before.output
    inPlace := after.inPlace || before.inPlace
    classpath := either after.classpath before.classpath
    primary := either after.primary before.primary
    secondary := either after.secondary before.secondary
    rangeMap := after.rangeMap.or before.rangeMap
    renameLog := after.renameLog.or before.renameLog
    maxParseFailureRatio := after.maxParseFailureRatio.or before.maxParseFailureRatio
    maxUnresolved := after.maxUnresolved.or before.maxUnresolved
    overwriteUnmapped := after.overwriteUnmapped || before.overwriteUnmapped
    sequential := after.sequential || before.sequential
    logLevel := after.logLevel.or before.logLevel }

/-- At one place, a separate output and changes in place exclude each other. -/
def isConsistent (o : Options) : Bool := !(o.inPlace && o.output.isSome)

end Options

/-- Why a command line is not carried out. -/
inductive Refusal where
  /-- It cannot be read. -/
  | misuse
  /-- It only asks for a text. -/
  | answer (text : String)
  deriving DecidableEq, Repr

abbrev Reading := Except Refusal

def versionText : String := "srcremap 0.1.0\n"

def helpText : String :=
  "Source-accurate symbol remapping for Java sources\n\n" ++
    "Usage: srcremap [OPTIONS] [COMMAND]\n\n" ++
    "Commands:\n" ++
    "  extract  Extract the range map only\n" ++
    "  apply    Apply an existing range map (`--rangemap` is required)\n\n" ++
    "Options: --in, --out, --in-place, --lib, --srg, --exc, --rangemap, --rangelog,\n" ++
    "  --max-parse-failure-ratio, --max-unresolved, --overwrite-unmapped, --sequential,\n" ++
    "  --log-level\n"

def logLevels : List String := ["trace", "debug", "info", "warn", "error"]

/-- Refuses a second value. -/
def once {α : Type} (present : Bool) (value : α) : Reading α :=
  if present then .error .misuse else .ok value

/-- A value that was read, or a refusal. -/
def valid {α : Type} (value : Option α) : Reading α :=
  match value with
  | some a => .ok a
  | none => .error .misuse

/-- A path is not empty. -/
def path (value : String) : Reading String := if value.isEmpty then .error .misuse else .ok value

/-- Sets an option that takes no value. -/
def setFlag (o : Options) : String → Reading Options
  | "in-place" => do return { o with inPlace := ← once o.inPlace true }
  | "overwrite-unmapped" => do
    return { o with overwriteUnmapped := ← once o.overwriteUnmapped true }
  | "sequential" => do return { o with sequential := ← once o.sequential true }
  | "help" => .error (.answer helpText)
  | "version" => .error (.answer versionText)
  | _ => .error .misuse

/-- Sets an option that takes a value. -/
def setValue (o : Options) (name value : String) : Reading Options :=
  match name with
  | "in" => do return { o with input := ← once o.input.isSome (← path value) }
  | "out" => do return { o with output := ← once o.output.isSome (← path value) }
  | "lib" => do return { o with classpath := o.classpath ++ [← path value] }
  | "srg" => do return { o with primary := o.primary ++ [← path value] }
  | "exc" => do return { o with secondary := o.secondary ++ [← path value] }
  | "rangemap" => do return { o with rangeMap := ← once o.rangeMap.isSome (← path value) }
  | "rangelog" => do return { o with renameLog := ← once o.renameLog.isSome (← path value) }
  | "max-parse-failure-ratio" => do
    let ratio ← valid (Decimal.read value)
    return { o with maxParseFailureRatio := ← once o.maxParseFailureRatio.isSome ratio }
  | "max-unresolved" => do
    let count ← valid (Text.readOffset value)
    return { o with maxUnresolved := ← once o.maxUnresolved.isSome count }
  | "log-level" => do
    if !logLevels.contains value then throw .misuse
    return { o with logLevel := ← once o.logLevel.isSome value }
  | _ => .error .misuse

def valueOptions : List String :=
  ["in", "out", "lib", "srg", "exc", "rangemap", "rangelog", "max-parse-failure-ratio",
    "max-unresolved", "log-level"]

/-- Whether a word cannot be the value of the option in front of it. -/
def looksLikeOption (word : String) : Bool := Text.startsWith "-" word && word != "-"

/-- The name after two hyphens. -/
def longName? (word : String) : Option String :=
  if Text.startsWith "--" word then some (String.ofList (word.toList.drop 2)) else none

/-- Reads options from the front of a command line; the first word that is none ends them. -/
def readOptions (o : Options) : List String → Reading (Options × List String)
  | [] => .ok (o, [])
  | "--" :: [] => .ok (o, [])
  | "--" :: _ => .error .misuse
  | "-h" :: _ => .error (.answer helpText)
  | "-V" :: _ => .error (.answer versionText)
  | word :: rest =>
    match longName? word with
    | none => if looksLikeOption word then .error .misuse else .ok (o, word :: rest)
    | some name =>
      match Text.cutFirst '=' name with
      | some (name, value) => do
        let o ← setValue o name value
        readOptions o rest
      | none =>
        if valueOptions.contains name then
          match rest with
          | [] => .error .misuse
          | value :: rest =>
            if looksLikeOption value then .error .misuse
            else do
              let o ← setValue o name value
              readOptions o rest
        else do
          let o ← setFlag o name
          readOptions o rest

def consistent (o : Options) : Reading Unit := if o.isConsistent then .ok () else .error .misuse

def command? : String → Option Command
  | "extract" => some .extract
  | "apply" => some .apply
  | _ => none

/-- The command and the options of a command line. -/
def read (args : List String) : Reading (Command × Options) := do
  let (before, rest) ← readOptions {} args
  match rest with
  | [] =>
    consistent before
    return (.remap, before)
  | "help" :: _ => throw (.answer helpText)
  | word :: rest =>
    let command ← valid (command? word)
    let (after, rest) ← readOptions {} rest
    if !rest.isEmpty then throw .misuse
    consistent after
    consistent before
    return (command, before.merge after)

/-- The run that options ask for, if they make sense. -/
def config (t : FileTree) (o : Options) : Except RunError RunConfig := do
  match o.input with
  | none => throw (.invalidArguments "--in is required")
  | some input =>
    let ratio := o.maxParseFailureRatio.getD 0.5
    if !(0.0 ≤ ratio && ratio ≤ 1.0) then
      throw (.invalidArguments
        ("--max-parse-failure-ratio must be between 0 and 1, got " ++ Decimal.plain ratio))
    let config : RunConfig :=
      { input
        output := o.output
        classpath := o.classpath
        primary := o.primary
        secondary := o.secondary
        rangeMap := o.rangeMap
        renameLog := o.renameLog
        tolerance := { maxParseFailureRatio := ratio, maxUnresolved := o.maxUnresolved }
        apply := { overwriteUnmapped := o.overwriteUnmapped } }
    Run.checkOutput t config
    return config

def execute (command : Command) (o : Options) : Run Unit := do
  let config ← config (← Run.tree) o
  match command with
  | .remap => Run.remap config
  | .extract => Run.extract config
  | .apply =>
    match o.rangeMap with
    | none => throw (.invalidArguments "apply needs --rangemap")
    | some rangeMap => Run.apply config rangeMap

/-- What the program leaves behind: an exit code, a text, and the files. -/
structure Outcome where
  exitCode : Nat
  output : String
  tree : FileTree

/-- Runs a command line in a file tree. -/
def run (t : FileTree) (args : List String) : Outcome :=
  match read args with
  | .error .misuse => ⟨2, "", t⟩
  | .error (.answer text) => ⟨0, text, t⟩
  | .ok (command, o) =>
    let (result, summary, t) := Run.perform (execute command o) command.name t
    let code := match result with
      | .ok () => 0
      | .error e => e.exitCode
    ⟨code, summary.text, t⟩

end CommandLine

end Renaming
