import Renaming.Text

/-!
# Bytes

File contents as lists of octets, and the passage between octets and text. A strict reading refuses
octets that are not UTF-8; a lossy one puts U+FFFD in place of each ill-formed sequence.
-/

namespace Renaming

abbrev Bytes := List UInt8

namespace Bytes

def ofText (s : String) : Bytes := s.toUTF8.data.toList

/-- The text the octets encode; there is none if they are not UTF-8. -/
def text? (b : Bytes) : Option String := String.fromUTF8? ⟨b.toArray⟩

/-- Lines end at line feed octets; each one is decoded on its own. -/
def lines (b : Bytes) : List (Option String) := (Text.splitLines 10 13 b).map text?

/-- The octets that may follow a lead octet directly, and how many follow it in all. -/
def continuation (lead : UInt8) : Option (UInt8 × UInt8 × Nat) :=
  if 0xC2 ≤ lead && lead ≤ 0xDF then some (0x80, 0xBF, 1)
  else if lead == 0xE0 then some (0xA0, 0xBF, 2)
  else if lead == 0xED then some (0x80, 0x9F, 2)
  else if 0xE1 ≤ lead && lead ≤ 0xEF then some (0x80, 0xBF, 2)
  else if lead == 0xF0 then some (0x90, 0xBF, 3)
  else if lead == 0xF4 then some (0x80, 0x8F, 3)
  else if 0xF1 ≤ lead && lead ≤ 0xF3 then some (0x80, 0xBF, 3)
  else none

/-- The payload of a lead octet that `follow` octets follow. -/
def leadBits (lead : UInt8) (follow : Nat) : Nat :=
  match follow with
  | 1 => lead.toNat % 32
  | 2 => lead.toNat % 16
  | _ => lead.toNat % 8

/-- Reads up to `count` octets, the first within `low` and `high` and the others continuation
octets; the value is missing if one of them is. -/
def readTail : Nat → UInt8 → UInt8 → Nat → Bytes → Option Nat × Bytes
  | 0, _, _, value, rest => (some value, rest)
  | _ + 1, _, _, _, [] => (none, [])
  | count + 1, low, high, value, b :: rest =>
    if low ≤ b && b ≤ high then
      readTail count 0x80 0xBF (value * 64 + b.toNat % 64) rest
    else (none, b :: rest)

/-- One character off the front: U+FFFD stands for a maximal ill-formed start of a sequence. -/
def lossyChar (b : UInt8) (rest : Bytes) : Char × Bytes :=
  if b < 0x80 then (Char.ofNat b.toNat, rest)
  else
    match continuation b with
    | none => ('\uFFFD', rest)
    | some (low, high, follow) =>
      match readTail follow low high (leadBits b follow) rest with
      | (some value, rest) => (Char.ofNat value, rest)
      | (none, rest) => ('\uFFFD', rest)

def lossyChars : Nat → Bytes → List Char
  | 0, _ => []
  | _ + 1, [] => []
  | fuel + 1, b :: rest =>
    let (c, rest) := lossyChar b rest
    c :: lossyChars fuel rest

/-- The text of octets that need not be UTF-8. -/
def lossyText (b : Bytes) : String := String.ofList (lossyChars b.length b)

end Bytes

end Renaming
