/-!
# Character and byte offsets

A text has a boundary before every character and one at its end. Offsets are converted through the
list of the byte offsets of these boundaries.
-/

namespace Renaming.Text

/-- The byte offset of every character boundary of `cs`, when the first one stands at `start`. -/
def boundariesFrom (start : Nat) : List Char → List Nat
  | [] => [start]
  | c :: cs => start :: boundariesFrom (start + c.utf8Size) cs

def boundaries (s : String) : List Nat := boundariesFrom 0 s.toList

/-- The number of characters, each of which has a boundary before it. -/
def charCount (s : String) : Nat := (boundaries s).length - 1

/-- The byte offset of a character offset; there is none past the end. -/
def byteOf (s : String) (offset : Nat) : Option Nat := (boundaries s)[offset]?

/-- What a search for a value in an ascending list finds: the place where it stands, or the place
where it would have to be put. -/
inductive Place where
  | found (index : Nat)
  | missing (index : Nat)
  deriving DecidableEq, Repr

/-- Halves the `size` entries of an ascending list from `base` on until one of them is left; of
these entries it is the last one that is not beyond the value, if there is one. -/
def narrow (entries : List Nat) (value base size : Nat) : Nat :=
  if size ≤ 1 then base
  else
    let middle := base + size / 2
    if entries[middle]?.any (value < ·) then narrow entries value base (size - size / 2)
    else narrow entries value middle (size - size / 2)
termination_by size

/-- The place of a value in an ascending list, found by halving. -/
def search (entries : List Nat) (value : Nat) : Place :=
  let base := narrow entries value 0 entries.length
  match entries[base]? with
  | none => .missing base
  | some entry =>
    if entry = value then .found base else .missing (if entry < value then base + 1 else base)

/-- The character that holds a byte offset; offsets past the end give the number of characters. -/
def charOf (s : String) (offset : Nat) : Nat :=
  match search (boundaries s) offset with
  | .found index => index
  | .missing index => index - 1

structure Position where
  line : Nat
  column : Nat
  deriving DecidableEq, Repr

def Position.advance (p : Position) (c : Char) : Position :=
  if c = '\n' then ⟨p.line + 1, 1⟩ else ⟨p.line, p.column + 1⟩

/-- Line and column, both counted from one; offsets past the end stop at the end. -/
def position (s : String) (offset : Nat) : Position :=
  (s.toList.take offset).foldl Position.advance ⟨1, 1⟩

end Renaming.Text
