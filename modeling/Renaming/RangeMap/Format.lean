import Renaming.RangeMap

/-!
# The text of a range map

One line for each occurrence, with the unit, the two offsets, the signature and the kind separated
by tabs, and a sixth field with the fallbacks, separated by commas, if there are any. Blank lines
and lines that start with `#` are skipped when a map is read.
-/

namespace Renaming.RangeMap

def header : String := "# srcremap range map: unit\tstart\tend\tsignature\tkind\tfallbacks"

def recordLine (unit : String) (o : Occurrence) : String :=
  let fields := [unit, toString o.span.start, toString o.span.stop, o.signature, o.kind.text]
  Text.join "\t" (fields ++ if o.fallbacks.isEmpty then [] else [Text.join "," o.fallbacks])

def bodyLines (m : RangeMap) : List String := m.records.map fun (unit, o) => recordLine unit o

def lines (m : RangeMap) : List String := header :: m.bodyLines

def write (m : RangeMap) : String := String.join (m.lines.map (· ++ "\n"))

/-- What is wrong with a line that is no record. -/
inductive RecordError where
  | fieldCount (found : Nat)
  | badStart (text : String)
  | badEnd (text : String)
  | reversed (start stop : Nat)
  | emptySignature
  | unknownKind (text : String)
  deriving DecidableEq, Repr

def RecordError.message : RecordError → String
  | fieldCount found => "expected 5 or 6 tab-separated fields, found " ++ toString found
  | badStart text => "bad start offset '" ++ text ++ "'"
  | badEnd text => "bad end offset '" ++ text ++ "'"
  | reversed start stop => "start " ++ toString start ++ " after end " ++ toString stop
  | emptySignature => "empty signature"
  | unknownKind text => SymbolKind.unknownMessage text

def readFallbacks (list : String) : List Signature :=
  if list.isEmpty then [] else Text.fields ',' list

def readFields (unit start stop signature kind : String) (fallbacks : List Signature) :
    Except RecordError (String × Occurrence) :=
  match Text.readOffset start with
  | none => .error (.badStart start)
  | some first =>
    match Text.readOffset stop with
    | none => .error (.badEnd stop)
    | some last =>
      if last < first then .error (.reversed first last)
      else if signature.isEmpty then .error .emptySignature
      else
        match SymbolKind.ofText? kind with
        | none => .error (.unknownKind kind)
        | some k => .ok (unit, ⟨⟨first, last⟩, signature, k, fallbacks⟩)

def readRecord (line : String) : Except RecordError (String × Occurrence) :=
  match Text.fields '\t' line with
  | [unit, start, stop, signature, kind] => readFields unit start stop signature kind []
  | [unit, start, stop, signature, kind, fallbacks] =>
    readFields unit start stop signature kind (readFallbacks fallbacks)
  | fields => .error (.fieldCount fields.length)

def isSkipped (line : String) : Bool :=
  (Text.trim line).isEmpty || Text.startsWith "#" line

/-- Reads lines from number `n` on; the first one that is no text or no record ends the reading. -/
def readLines : Nat → List (Option String) → Except RangeMapError (List (String × Occurrence))
  | _, [] => .ok []
  | _, none :: _ => .error (.file .notText)
  | n, some line :: rest =>
    if isSkipped line then readLines (n + 1) rest
    else
      match readRecord line with
      | .error e => .error (.malformed n e.message)
      | .ok record => (readLines (n + 1) rest).map (record :: ·)

def read (content : Bytes) : Except RangeMapError RangeMap :=
  match readLines 1 content.lines with
  | .error e => .error e
  | .ok records => ofGroups (group records).entries

end Renaming.RangeMap
