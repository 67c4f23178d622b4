/-!
# Text as characters

Cutting text into lines, words and separated fields, and reading offsets. Everything is defined on
the list of characters of a string, so counts are counts of Unicode scalar values.
-/

namespace Renaming.Text

/-- The characters with the Unicode property `White_Space`. -/
def isBlank (c : Char) : Bool :=
  let n := c.toNat
  (9 ≤ n && n ≤ 13) || n == 0x20 || n == 0x85 || n == 0xA0 || n == 0x1680 ||
    (0x2000 ≤ n && n ≤ 0x200A) || n == 0x2028 || n == 0x2029 || n == 0x202F || n == 0x205F ||
    n == 0x3000

def trimStart (cs : List Char) : List Char := cs.dropWhile isBlank

def trimEnd (cs : List Char) : List Char := (cs.reverse.dropWhile isBlank).reverse

/-- Text without the blanks at its two ends. -/
def trim (s : String) : String := String.ofList (trimEnd (trimStart s.toList))

/-- The maximal runs of non-blank characters. -/
def words (s : String) : List String :=
  ((s.toList.splitOnP isBlank).filter (fun w => !w.isEmpty)).map String.ofList

def fields (separator : Char) (s : String) : List String :=
  (s.toList.splitOn separator).map String.ofList

/-- A terminated line loses one carriage return before its line feed. -/
def dropReturn {α : Type} [BEq α] (return_ : α) (l : List α) : List α :=
  if l.getLast? == some return_ then l.dropLast else l

/-- Lines end at line feeds; what follows the last one is a line if it is not empty. -/
def splitLines {α : Type} [BEq α] (feed return_ : α) (l : List α) : List (List α) :=
  let pieces := l.splitOn feed
  let terminated := pieces.dropLast.map (dropReturn return_)
  match pieces.getLast? with
  | none | some [] => terminated
  | some rest => terminated ++ [rest]

def lines (s : String) : List String := (splitLines '\n' '\r' s.toList).map String.ofList

/-- The text before and after the first `c`. -/
def cutFirst (c : Char) (s : String) : Option (String × String) :=
  let cs := s.toList
  match cs.dropWhile (· != c) with
  | [] => none
  | _ :: after => some (String.ofList (cs.takeWhile (· != c)), String.ofList after)

/-- The text before and after the last character that satisfies `p`. -/
def cutLastP (p : Char → Bool) (s : String) : Option (String × String) :=
  let back := s.toList.reverse
  match back.dropWhile (!p ·) with
  | [] => none
  | _ :: before =>
    some (String.ofList before.reverse, String.ofList (back.takeWhile (!p ·)).reverse)

def cutLast (c : Char) (s : String) : Option (String × String) := cutLastP (· == c) s

/-- The part after the last `c`, or all of the text. -/
def afterLast (c : Char) (s : String) : String := ((cutLast c s).map Prod.snd).getD s

def replaceChar (old new : Char) (s : String) : String :=
  String.ofList (s.toList.map fun c => if c = old then new else c)

def containsChar (c : Char) (s : String) : Bool := s.toList.contains c

def isDigit (c : Char) : Bool := '0' ≤ c && c ≤ '9'

def digitsValue (cs : List Char) : Nat :=
  cs.foldl (fun n c => 10 * n + (c.toNat - '0'.toNat)) 0

/-- The largest offset that can be read or written. -/
def maxOffset : Nat := 0xFFFFFFFFFFFFFFFF

/-- An offset is a run of decimal digits after at most one plus sign, and its value fits 64 bits. -/
def readOffset (s : String) : Option Nat :=
  let digits := match s.toList with
    | '+' :: rest => rest
    | cs => cs
  if digits.isEmpty || !digits.all isDigit then none
  else
    let n := digitsValue digits
    if n ≤ maxOffset then some n else none

def join (separator : String) (parts : List String) : String := separator.intercalate parts

def endsWith (suffix s : String) : Bool := suffix.toList.isSuffixOf s.toList

def startsWith (start s : String) : Bool := start.toList.isPrefixOf s.toList

end Renaming.Text
