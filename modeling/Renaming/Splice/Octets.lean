import Renaming.Application
import Renaming.Text.Offsets

/-!
# Splicing by octets

A text is a row of octets, while spans count characters. A unit is spliced in one pass from left to
right: the two offsets of each span are converted, what lies between the spans is copied, and what
lies at them is replaced. A slice runs from left to right and between character boundaries; the
pass breaks off at one that does not.
-/

namespace Renaming

/-- The part of a text between two byte offsets; there is none if they are in the wrong order or one
of them is no character boundary. -/
def Text.octetSlice? (s : String) (first last : Nat) : Option String :=
  if first ≤ last && (boundaries s).contains first && (boundaries s).contains last then
    Bytes.text? (((Bytes.ofText s).drop first).take (last - first))
  else none

/-- Why a pass breaks off. -/
inductive SpliceFault where
  | unit (error : ApplyError)
  /-- A slice that has its ends in the wrong order or cuts a character. -/
  | slice (first last : Nat)
  deriving DecidableEq, Repr

/-- The state of a pass: the byte offset that was reached in the old text, the new text up to there,
and the substitutions made. -/
structure SplicePass where
  cursor : Nat := 0
  text : String := ""
  entries : RenameLog := []

namespace SplicePass

def slice (old : String) (first last : Nat) : Except SpliceFault String :=
  match Text.octetSlice? old first last with
  | some part => .ok part
  | none => .error (.slice first last)

/-- The byte offset of one end of a span. -/
def offset (unit old : String) (span : Span) (char : Nat) : Except SpliceFault Nat :=
  match Text.byteOf old char with
  | some byte => .ok byte
  | none => .error (.unit (.spanOutOfBounds unit span (Text.charCount old)))

/-- Copies what lies before an occurrence and replaces what lies at it. -/
def step (t : RenameTable) (unit old : String) (p : SplicePass) (o : Occurrence) :
    Except SpliceFault SplicePass := do
  let first ← offset unit old o.span o.span.start
  let last ← offset unit old o.span o.span.stop
  let gap ← slice old p.cursor first
  let written ← slice old first last
  match replacement t o written with
  | some new =>
    if new = written then return ⟨last, p.text ++ gap ++ written, p.entries⟩
    else
      return ⟨last, p.text ++ gap ++ new, p.entries ++ [⟨written, new, unit, o.span.start⟩]⟩
  | none => return ⟨last, p.text ++ gap ++ written, p.entries⟩

/-- Copies what is left after the last occurrence. -/
def finish (old : String) (p : SplicePass) : Except SpliceFault SplicedUnit := do
  let rest ← slice old p.cursor (Bytes.ofText old).length
  return ⟨(p.text ++ rest).toList, p.entries⟩

def run (t : RenameTable) (unit old : String) (p : SplicePass) (os : List Occurrence) :
    Except SpliceFault SplicedUnit := do
  let p ← os.foldlM (step t unit old) p
  p.finish old

end SplicePass

/-- The new text of a unit, found in one pass over its octets. -/
def spliceOctets (t : RenameTable) (unit text : String) (os : List Occurrence) :
    Except SpliceFault SplicedUnit :=
  SplicePass.run t unit text {} os

end Renaming
