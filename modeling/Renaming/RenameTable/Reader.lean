import Renaming.RenameTable

/-!
# Mapping lines

Primary lines name symbols and packages, by a kind word or in the compact form with slashes;
secondary lines name parameters. A line is read into the table while it is checked, and may be
refused at any point; what it has put in by then stays in.
-/

namespace Renaming

inductive LineError where
  | empty
  | arguments (head : String) (found : Nat)
  | fieldWithoutOwner (old : String)
  | methodWithoutDescriptor (old : String)
  | keyWithoutDescriptor (key : String)
  | methodWithoutOwner (key : String)
  | descriptor (cause : DescriptorError)
  | notParameter (old : String)
  | notLocal (old : String)
  | unknownKind (word : String)
  | unknownCode (word : String)
  | notMember (path : String)
  | badIndex (text : String)
  | notParameterKey (key : String)
  | fieldCount (found : Nat)
  deriving DecidableEq, Repr

def LineError.message : LineError → String
  | empty => "empty line"
  | arguments head found => "'" ++ head ++ "' line has " ++ toString found ++ " argument(s)"
  | fieldWithoutOwner old => "field '" ++ old ++ "' has no owner"
  | methodWithoutDescriptor old => "method '" ++ old ++ "' needs a descriptor"
  | keyWithoutDescriptor key => "'" ++ key ++ "' has no method descriptor"
  | methodWithoutOwner key => "method '" ++ key ++ "' has no owner"
  | descriptor cause => cause.message
  | notParameter old => "parameter '" ++ old ++ "' is not Method#index"
  | notLocal old => "local '" ++ old ++ "' is not Method@name:ordinal"
  | unknownKind word => "unknown mapping kind '" ++ word ++ "'"
  | unknownCode word => "unknown mapping prefix '" ++ word ++ "'"
  | notMember path => "'" ++ path ++ "' is not owner/member"
  | badIndex text => "bad parameter index '" ++ text ++ "'"
  | notParameterKey key => "'" ++ key ++ "' is not Method#index"
  | fieldCount found => "expected 2 or 3 fields, found " ++ toString found

/-- Reads a line into a table. A refusal keeps the table as it is at that point. -/
abbrev LineReader := ExceptT LineError (StateM RenameTable)

namespace MappingLine

def put (e : Renamed) : LineReader Unit := modify (·.insert e)

def checkDescriptor (text : String) : Except LineError Unit :=
  match Descriptor.parseMethod text with
  | .ok _ => .ok ()
  | .error e => .error (.descriptor e)

/-- The text up to the first parenthesis, and the text from it on. -/
def cutAtParen (key : String) : Option (String × String) :=
  (Text.cutFirst '(' key).map fun (path, rest) => (path, "(" ++ rest)

/-- A method key is an owner, a name and a descriptor. -/
def checkMethodKey (key : String) : Except LineError Unit :=
  match cutAtParen key with
  | none => .error (.keyWithoutDescriptor key)
  | some (path, desc) =>
    if Text.containsChar '.' path then checkDescriptor desc else .error (.methodWithoutOwner key)

def dotted (path : String) : String := Text.replaceChar '/' '.' path

def packageName (path : String) : String :=
  if path == "." || path == "./" then ""
  else dotted (String.ofList (path.toList.reverse.dropWhile (· == '/')).reverse)

/-- Owner and name of a member written with slashes. -/
def splitMember (path : String) : Except LineError (String × String) :=
  match Text.cutLast '/' path with
  | some (owner, name) =>
    if owner.isEmpty || name.isEmpty then .error (.notMember path) else .ok (owner, name)
  | none => .error (.notMember path)

def two (head : String) : List String → Except LineError (String × String)
  | [old, new] => .ok (old, new)
  | args => .error (.arguments head args.length)

def four (head : String) : List String → Except LineError (String × String × String × String)
  | [old, oldDesc, new, newDesc] => .ok (old, oldDesc, new, newDesc)
  | args => .error (.arguments head args.length)

/-- The key that a method line renames, and its new name. -/
def methodKey (head : String) : List String → Except LineError (String × String)
  | [old, new] =>
    if Text.containsChar '(' old then do
      checkMethodKey old
      return (old, new)
    else .error (.methodWithoutDescriptor old)
  | [old, new, desc] =>
    if Text.containsChar '(' old then .error (.arguments head 3)
    else do
      checkDescriptor desc
      return (old ++ desc, new)
  | args => .error (.arguments head args.length)

/-- The lines with a code and slashes: `PK:`, `CL:`, `FD:` and `MD:`. -/
def readCoded (head : String) (args : List String) : LineReader Unit :=
  match head with
  | "PK:" => do
    let (old, new) ← two head args
    put (.package (packageName old) (packageName new))
  | "CL:" => do
    let (old, new) ← two head args
    put (.symbol (dotted old) (dotted new))
  | "FD:" => do
    let (old, new) ← two head args
    let (owner, name) ← splitMember old
    let (_, newName) ← splitMember new
    put (.symbol (dotted owner ++ "." ++ name) newName)
  | "MD:" => do
    let (old, desc, new, _) ← four head args
    checkDescriptor desc
    let (owner, name) ← splitMember old
    let (_, newName) ← splitMember new
    put (.symbol (dotted owner ++ "." ++ name ++ desc) newName)
  | _ => throw (.unknownCode head)

def readKind (head : String) (args : List String) : LineReader Unit :=
  match head with
  | "class" | "type" => do
    let (old, new) ← two head args
    put (.symbol old new)
  | "field" => do
    let (old, new) ← two head args
    if Text.containsChar '.' old then put (.symbol old new) else throw (.fieldWithoutOwner old)
  | "method" => do
    let (key, new) ← methodKey head args
    put (.symbol key new)
  | "param" | "parameter" => do
    let (old, new) ← two head args
    if (Signature.splitParameter old).isSome then put (.symbol old new)
    else throw (.notParameter old)
  | "local" => do
    let (old, new) ← two head args
    if Text.containsChar '@' old then put (.symbol old new) else throw (.notLocal old)
  | "package" => do
    let (old, new) ← two head args
    put (.package old new)
  | _ => throw (.unknownKind head)

def readPrimary (line : String) : LineReader Unit :=
  match Text.words line with
  | [] => throw .empty
  | head :: args => if Text.endsWith ":" head then readCoded head args else readKind head args

/-- Names the parameters of a method one after the other; an empty name leaves its parameter out. -/
def putNames (method : Signature) : List (String × Nat) → LineReader Unit
  | [] => pure ()
  | (name, index) :: rest => do
    if !name.isEmpty then put (.parameter method index name)
    putNames method rest

/-- A method key, an equals sign, and names after a bar; other lines of this form name nothing. -/
def readException (key rest : String) : LineReader Bool :=
  match cutAtParen key with
  | none => return false
  | some (path, desc) => do
    checkDescriptor desc
    match Text.cutFirst '|' rest with
    | none => return false
    | some (_, list) =>
      let names := (Text.fields ',' list).map Text.trim
      if names.all String.isEmpty then return false
      else
        putNames (dotted path ++ desc) names.zipIdx
        return true

/-- Reads a secondary line, and says whether it names any parameter. -/
def readSecondary (line : String) : LineReader Bool :=
  match Text.cutFirst '=' line with
  | some (key, rest) => readException (Text.trim key) (Text.trim rest)
  | none =>
    match Text.words line with
    | [method, index, name] => do
      checkMethodKey method
      match Text.readOffset index with
      | none => throw (.badIndex index)
      | some i =>
        put (.parameter method i name)
        return true
    | [key, name] =>
      match Signature.splitParameter key with
      | none => throw (.notParameterKey key)
      | some (method, i) => do
        put (.parameter method i name)
        return true
    | fields => throw (.fieldCount fields.length)

end MappingLine

/-- A line that was skipped, with the name of its source and its number from one. -/
structure SkippedLine where
  source : String
  line : Nat
  reason : LineError
  deriving DecidableEq, Repr

def SkippedLine.message (l : SkippedLine) : String :=
  l.source ++ ":" ++ toString l.line ++ ": " ++ l.reason.message

structure LoadReport where
  accepted : Nat := 0
  ignored : Nat := 0
  skipped : List SkippedLine := []
  deriving DecidableEq, Repr, Inhabited

namespace RenameTable

/-- A table together with the account of the lines read into it. -/
structure Loading where
  table : RenameTable := {}
  report : LoadReport := {}
  deriving DecidableEq, Inhabited

namespace Loading

/-- Reads line `n` of `source`; the answer says whether the line states anything. -/
def take (l : Loading) (source : String) (n : Nat) (line : LineReader Bool) : Loading :=
  match line.run l.table with
  | (.error reason, table) =>
    { table
      report := { l.report with skipped := l.report.skipped ++ [⟨source, n, reason⟩] } }
  | (.ok false, table) => { table, report := { l.report with ignored := l.report.ignored + 1 } }
  | (.ok true, table) => { table, report := { l.report with accepted := l.report.accepted + 1 } }

/-- Reads the lines of a text, leaving out blank ones and comments. -/
def readText (read : String → LineReader Bool) (l : Loading) (source text : String) : Loading :=
  (Text.lines text).zipIdx.foldl (fun l (raw, i) =>
    let line := Text.trim raw
    if line.isEmpty || Text.startsWith "#" line then l else l.take source (i + 1) (read line)) l

/-- A primary line that is not refused always states something. -/
def primaryLine (line : String) : LineReader Bool := do
  MappingLine.readPrimary line
  return true

def primary : Loading → String → String → Loading := readText primaryLine

def secondary : Loading → String → String → Loading := readText MappingLine.readSecondary

end Loading

end RenameTable

end Renaming
