import Renaming.Occurrence
import Renaming.RenameTable

/-!
# Splicing new names into a unit

The new text of an occurrence comes from the table; the new text of a unit is its old text with the
occurrences replaced, from left to right and with everything between them kept.
-/

namespace Renaming

/-- The new name of the first of the signatures that has one. -/
def RenameTable.firstOf (t : RenameTable) (signatures : List Signature) : Option String :=
  signatures.findSome? t.symbol?

/-- A binary name under a new package. -/
def inPackage (package binary : String) : String :=
  let rest := String.ofList
    ((binary.toList.drop (packageOf binary).toList.length).dropWhile (· == '.'))
  sourceName (if package.isEmpty then rest else package ++ "." ++ rest)

/-- Text with a dot takes the whole new name, other text its last part; text with a dot also
follows its package. -/
def typeReplacement (t : RenameTable) (o : Occurrence) (written : String) : Option String :=
  let qualified := Text.containsChar '.' written
  match t.firstOf o.signatures with
  | some new => some (if qualified then sourceName new else simpleName new)
  | none =>
    if qualified then (t.package? (packageOf o.signature)).map fun p => inPackage p o.signature
    else none

def memberReplacement (t : RenameTable) (o : Occurrence) : Option String :=
  (t.firstOf o.signatures).map (Text.afterLast '.')

/-- The entry for the very parameter that a parameter signature names. -/
def RenameTable.ownParameter? (t : RenameTable) (o : Occurrence) : Option String :=
  if o.kind = .parameter then
    o.signature.splitParameter.bind fun (method, index) => t.parameter? method index
  else none

/-- The text that an occurrence with the text `written` is to become, if the table says so. -/
def replacement (t : RenameTable) (o : Occurrence) (written : String) : Option String :=
  match t.ownParameter? o with
  | some name => some name
  | none => if o.kind = .type then typeReplacement t o written else memberReplacement t o

/-- A substitution; the offset is that in the old text. -/
structure RenameEntry where
  old : String
  new : String
  unit : String
  offset : Nat
  deriving DecidableEq, Repr

def RenameEntry.line (e : RenameEntry) : String :=
  Text.join "\t" [e.old, e.new, e.unit, toString e.offset]

abbrev RenameLog := List RenameEntry

def RenameLog.write (log : RenameLog) : String := String.join (log.map fun e => e.line ++ "\n")

structure SplicedUnit where
  text : List Char
  entries : RenameLog
  deriving DecidableEq, Repr

def SplicedUnit.changed (r : SplicedUnit) : Bool := !r.entries.isEmpty

def SplicedUnit.output (r : SplicedUnit) : String := String.ofList r.text

/-- The characters at a span of a text. -/
def Span.slice (s : Span) (text : List Char) : List Char := (text.drop s.start).take s.length

/-- The new text from offset `cursor` on; `rest` is the old one. -/
def spliceFrom (t : RenameTable) (unit : String) :
    Nat → List Char → List Occurrence → SplicedUnit
  | _, rest, [] => ⟨rest, []⟩
  | cursor, rest, o :: os =>
    let gap := rest.take (o.span.start - cursor)
    let atSpan := rest.drop (o.span.start - cursor)
    let written := String.ofList (atSpan.take o.span.length)
    let tail := spliceFrom t unit o.span.stop (atSpan.drop o.span.length) os
    match replacement t o written with
    | some new =>
      if new = written then ⟨gap ++ written.toList ++ tail.text, tail.entries⟩
      else ⟨gap ++ new.toList ++ tail.text, ⟨written, new, unit, o.span.start⟩ :: tail.entries⟩
    | none => ⟨gap ++ written.toList ++ tail.text, tail.entries⟩

/-- The new text of a unit; the first span that reaches beyond its end is the error. -/
def spliceUnit (t : RenameTable) (unit text : String) (occurrences : List Occurrence) :
    Except Span SplicedUnit :=
  let chars := text.toList
  match occurrences.find? fun o => chars.length < o.span.start || chars.length < o.span.stop with
  | some o => .error o.span
  | none => .ok (spliceFrom t unit 0 chars occurrences)

end Renaming
