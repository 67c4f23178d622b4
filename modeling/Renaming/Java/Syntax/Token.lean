import Renaming.Java.Syntax.Kind
import Renaming.Occurrence
import Renaming.Text.Letters

/-!
# Tokens

A source text is cut into words, literals and symbols; comments are kept aside. Each token is the
longest one that starts at its place, with one exception: `>` always stands alone, because it may
close type arguments, and operators that start with it are put together where they are read.
Positions count characters.
-/

namespace Renaming.Java

inductive TokenKind where
  | word
  | symbol
  | literal (kind : NodeKind)
  | comment (kind : NodeKind)
  deriving DecidableEq, Repr

structure Token where
  kind : TokenKind
  text : String
  span : Span
  deriving DecidableEq, Repr

/-- How many characters at the front of a text belong to something, if it stands there. -/
abbrev Lexeme := List Char → Option Nat

namespace Lexeme

def char (p : Char → Bool) : Lexeme
  | c :: _ => if p c then some 1 else none
  | [] => none

def followedBy (a b : Lexeme) : Lexeme := fun cs => do
  let n ← a cs
  let m ← b (cs.drop n)
  pure (n + m)

def optional (a : Lexeme) : Lexeme := fun cs => some ((a cs).getD 0)

/-- The longer of two. -/
def longer (a b : Lexeme) : Lexeme := fun cs =>
  match a cs, b cs with
  | some n, some m => some (max n m)
  | some n, none => some n
  | none, m => m

def sequence (parts : List Lexeme) : Lexeme := parts.foldr followedBy fun _ => some 0

def run (p : Char → Bool) : Lexeme := fun cs =>
  match (cs.takeWhile p).length with
  | 0 => none
  | n => some n

/-- Further runs, each after one separator, or after several where `many` holds. -/
def furtherRuns (p : Char → Bool) (many : Bool) : Nat → List Char → Nat
  | 0, _ => 0
  | fuel + 1, cs =>
    let underscores := (cs.takeWhile (· == '_')).length
    let digits := ((cs.drop underscores).takeWhile p).length
    if digits == 0 || underscores == 0 || (!many && underscores != 1) then 0
    else
      let n := underscores + digits
      n + furtherRuns p many fuel (cs.drop n)

/-- Runs of characters with single underscores between them. -/
def grouped (p : Char → Bool) : Lexeme := fun cs => do
  let n ← run p cs
  let rest := cs.drop n
  pure (n + furtherRuns p false (rest.takeWhile fun c => p c || c == '_').length rest)

def isHexDigit (c : Char) : Bool :=
  Text.isDigit c || ('a' ≤ c && c ≤ 'f') || ('A' ≤ c && c ≤ 'F')

def isOneOf (s : String) (c : Char) : Bool := s.toList.contains c

/-- A decimal number without leading zeros; underscores may stand between its digits. -/
def decimalDigits : Lexeme
  | [] => none
  | '0' :: _ => some 1
  | c :: rest =>
    if !Text.isDigit c then none
    else
      let gap := if rest.head? == some '_' then 1 else 0
      let first := ((rest.drop gap).takeWhile Text.isDigit).length
      if first == 0 then some 1
      else
        let n := gap + first
        let more := rest.drop n
        some (1 + n + furtherRuns Text.isDigit true
          (more.takeWhile fun c => Text.isDigit c || c == '_').length more)

def digitGroups : Lexeme := grouped Text.isDigit

def longMark : Lexeme := optional (char (isOneOf "lL"))

def floatMark : Lexeme := char (isOneOf "fFdD")

def marked (letters : String) (digits : Lexeme) : Lexeme :=
  sequence [char (· == '0'), char (isOneOf letters), digits]

def exponent : Lexeme :=
  sequence [char (isOneOf "eE"), optional (char (isOneOf "+-")), digitGroups]

def point : Lexeme := char (· == '.')

def octalDigits : Lexeme := grouped fun c => '0' ≤ c && c ≤ '7'

def decimalInteger : Lexeme := sequence [decimalDigits, longMark]

def hexInteger : Lexeme := sequence [marked "xX" (grouped isHexDigit), longMark]

def octalInteger : Lexeme :=
  followedBy (longer (marked "oO" octalDigits) (followedBy (char (· == '0')) octalDigits)) longMark

def binaryInteger : Lexeme := sequence [marked "bB" (grouped (isOneOf "01")), longMark]

def decimalFloat : Lexeme :=
  longer
    (longer
      (sequence [digitGroups, point, optional digitGroups, optional exponent, optional floatMark])
      (sequence [point, digitGroups, optional exponent, optional floatMark]))
    (longer
      (sequence [decimalDigits, exponent, optional floatMark])
      (sequence [decimalDigits, optional exponent, floatMark]))

def hexFloat : Lexeme :=
  let hex := grouped isHexDigit
  followedBy
    (marked "xX" (longer (followedBy hex (optional point)) (sequence [optional hex, point, hex])))
    (optional (sequence
      [char (isOneOf "pP"), optional (char (isOneOf "+-")), decimalDigits, optional floatMark]))

/-- The number literals; of two that are equally long, the one named first is meant. -/
def numbers : List (NodeKind × Lexeme) :=
  [(.decimalInteger, decimalInteger), (.hexInteger, hexInteger), (.octalInteger, octalInteger),
    (.binaryInteger, binaryInteger), (.decimalFloat, decimalFloat), (.hexFloat, hexFloat)]

def number (cs : List Char) : Option (NodeKind × Nat) :=
  numbers.foldl (fun best (kind, lexeme) =>
    match best, lexeme cs with
    | some (_, n), some m => if n < m then some (kind, m) else best
    | none, some m => some (kind, m)
    | _, none => best) none

/-- The rest of a character literal after its opening quote: characters and escaped ones. -/
def characterTail : Nat → List Char → Option Nat
  | n, '\'' :: _ => if n == 0 then none else some (n + 1)
  | n, '\\' :: _ :: rest => characterTail (n + 2) rest
  | _, '\\' :: [] => none
  | n, c :: rest => if c == '\n' then none else characterTail (n + 1) rest
  | _, [] => none

def character : Lexeme
  | '\'' :: rest => (characterTail 0 rest).map (· + 1)
  | _ => none

/-- Whether a text starts with so many hexadecimal digits. -/
def hexDigits (count : Nat) (cs : List Char) : Bool :=
  (cs.take count).length == count && (cs.take count).all isHexDigit

/-- How many characters an escape takes after its backslash. -/
def escape : Lexeme
  | 'u' :: '\x7b' :: rest =>
    (sequence [run isHexDigit, char (· == '\x7d')] rest).map (· + 2)
  | 'u' :: rest => if hexDigits 4 rest then some 5 else none
  | 'x' :: rest => if hexDigits 2 rest then some 3 else none
  | c :: rest =>
    if '0' ≤ c && c ≤ '7' then
      some (1 + ((rest.take 2).takeWhile fun d => '0' ≤ d && d ≤ '7').length)
    else some 1
  | [] => none

/-- The rest of a string literal after its opening quote. -/
def stringTail : Nat → Nat → List Char → Option Nat
  | 0, _, _ => none
  | _ + 1, _, [] => none
  | _ + 1, n, '"' :: _ => some (n + 1)
  | fuel + 1, n, '\\' :: rest => do
    let m ← escape rest
    stringTail fuel (n + 1 + m) (rest.drop m)
  | fuel + 1, n, _ :: rest => stringTail fuel (n + 1) rest

/-- The rest of a text block after its opening quotes. -/
def textBlockTail : Nat → List Char → Option Nat
  | n, '"' :: '"' :: '"' :: _ => some (n + 3)
  | n, '\\' :: _ :: rest => textBlockTail (n + 2) rest
  | n, _ :: rest => textBlockTail (n + 1) rest
  | _, [] => none

def string : Lexeme
  | '"' :: '"' :: '"' :: rest => textBlockTail 3 rest
  | '"' :: rest => stringTail (rest.length + 1) 1 rest
  | _ => none

/-- The rest of a block comment after its opening mark. -/
def blockCommentTail : Nat → List Char → Option Nat
  | n, '*' :: '/' :: _ => some (n + 2)
  | n, _ :: rest => blockCommentTail (n + 1) rest
  | _, [] => none

def comment : List Char → Option (NodeKind × Nat)
  | '/' :: '/' :: rest => some (.lineComment, 2 + (rest.takeWhile (· != '\n')).length)
  | '/' :: '*' :: rest => (blockCommentTail 2 rest).map fun n => (.blockComment, n)
  | _ => none

def startsName (c : Char) : Bool := Text.startsWord c || c == '_' || c == '$'

def continuesName (c : Char) : Bool :=
  Text.continuesWord c || c == '_' || c == '$' || c == '\u00A2'

def word : Lexeme
  | c :: rest => if startsName c then some (1 + (rest.takeWhile continuesName).length) else none
  | [] => none

/-- Symbols, longer ones before those that they start with. -/
def symbols : List String :=
  ["<<=", "...", "->", "::", "++", "--", "&&", "||", "==", "!=", "<=", "<<", "+=", "-=", "*=", "/=",
    "&=", "|=", "^=", "%=", "(", ")", "\x7b", "\x7d", "[", "]", ";", ",", ".", "@", "=", ">", "<",
    "!", "~", "?", ":", "+", "-", "*", "/", "&", "|", "^", "%"]

def symbol : Lexeme := fun cs =>
  (symbols.find? fun s => s.toList.isPrefixOf cs).map String.length

/-- The token at the front of a text, by its kind and length. -/
def next (cs : List Char) : Option (TokenKind × Nat) :=
  match comment cs with
  | some (kind, n) => some (.comment kind, n)
  | none =>
    match word cs with
    | some n => some (.word, n)
    | none =>
      match number cs with
      | some (kind, n) => some (.literal kind, n)
      | none =>
        match string cs with
        | some n => some (.literal .stringLiteral, n)
        | none =>
          match character cs with
          | some n => some (.literal .characterLiteral, n)
          | none => (symbol cs).map fun n => (.symbol, n)

end Lexeme

namespace Token

/-- The tokens of a text whose first character is at `offset`; there are none if some character
starts no token. -/
def scan : Nat → Nat → List Char → Option (List Token)
  | 0, _, _ => none
  | _ + 1, _, [] => some []
  | fuel + 1, offset, c :: rest =>
    if Text.isBlank c || (offset == 0 && c == '\uFEFF') then scan fuel (offset + 1) rest
    else do
      let (kind, n) ← Lexeme.next (c :: rest)
      let text := String.ofList ((c :: rest).take n)
      let tokens ← scan fuel (offset + n) ((c :: rest).drop n)
      pure (⟨kind, text, ⟨offset, offset + n⟩⟩ :: tokens)

/-- All tokens of a text, comments included. -/
def ofText? (text : String) : Option (List Token) := scan (text.length + 1) 0 text.toList

def isComment (t : Token) : Bool :=
  match t.kind with
  | .comment _ => true
  | _ => false

end Token

end Renaming.Java
