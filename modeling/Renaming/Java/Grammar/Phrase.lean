import Renaming.Java.Syntax.Node

/-!
# Phrases

A phrase takes nodes off the front of a list of tokens, or refuses. Phrases are put together from
smaller ones; where there is a choice, the first alternative that takes something wins.
-/

namespace Renaming.Java

abbrev Phrase := List Token → Option (List Node × List Token)

/-- The parts of the grammar that contain each other. -/
inductive Rule where
  /-- An expression whose operators bind at least as tightly as `level`. Where arrows are not
  allowed, a lambda may stand in brackets only. -/
  | expression (level : Nat) (arrows : Bool)
  | primary
  | initializer
  | elementValue
  | annotated
  | type
  | plainType
  | recordPattern
  | statement
  | block
  | typeDeclaration
  | classBody

namespace Token

def isWord (text : String) (t : Token) : Bool := t.kind == .word && t.text == text

def isSymbol (text : String) (t : Token) : Bool := t.kind == .symbol && t.text == text

/-- Whether nothing stands between two tokens. -/
def touches (t u : Token) : Bool := t.span.stop == u.span.start

/-- Two tokens as one. -/
def join (t u : Token) : Token := ⟨t.kind, t.text ++ u.text, ⟨t.span.start, u.span.stop⟩⟩

end Token

namespace Phrase

/-- Takes nothing. -/
def nothing : Phrase := fun ts => some ([], ts)

def refuse : Phrase := fun _ => none

/-- Takes nothing and gives nodes that were taken before. -/
def given (nodes : List Node) : Phrase := fun ts => some (nodes, ts)

def followedBy (a b : Phrase) : Phrase := fun ts => do
  let (ns, rest) ← a ts
  let (ms, rest) ← b rest
  pure (ns ++ ms, rest)

def sequence (parts : List Phrase) : Phrase := parts.foldr followedBy nothing

def either (a b : Phrase) : Phrase := fun ts =>
  match a ts with
  | some taken => some taken
  | none => b ts

def oneOf (alternatives : List Phrase) : Phrase := alternatives.foldr either refuse

def optional (a : Phrase) : Phrase := either a nothing

/-- A phrase as often as it can be taken, at most once for each token of `bound`. -/
def upTo : List Token → Phrase → Phrase
  | [], _ => nothing
  | _ :: bound, a => fun ts =>
    match a ts with
    | none => some ([], ts)
    | some (ns, rest) => do
      let (ms, rest) ← upTo bound a rest
      pure (ns ++ ms, rest)

def many (a : Phrase) : Phrase := fun ts => upTo ts a ts

def atLeastOne (a : Phrase) : Phrase := followedBy a (many a)

def separated (separator a : Phrase) : Phrase := followedBy a (many (followedBy separator a))

/-- Takes nothing, where a phrase can be taken. -/
def ahead (a : Phrase) : Phrase := fun ts => if (a ts).isSome then nothing ts else none

/-- Takes nothing, where a phrase cannot be taken. -/
def notAhead (a : Phrase) : Phrase := fun ts => if (a ts).isSome then none else nothing ts

/-- The phrase that what was taken calls for. -/
def andThen (a : Phrase) (next : List Node → Phrase) : Phrase := fun ts => do
  let (ns, rest) ← a ts
  next ns rest

/-- Puts what is taken into a role. -/
def as (a : Phrase) (role : Role) : Phrase := fun ts => do
  let (ns, rest) ← a ts
  pure (ns.map (·.as role), rest)

/-- One node over all parts. -/
def node (kind : NodeKind) (parts : List Phrase) : Phrase := fun ts => do
  let (ns, rest) ← sequence parts ts
  pure ([.branch kind ns], rest)

/-- Lets a node grow to the right, at most once for each token of `bound`. -/
def grow : List Token → (Node → Phrase) → Node → Phrase
  | [], _, n => given [n]
  | _ :: bound, step, n => fun ts =>
    match step n ts with
    | some ([m], rest) => grow bound step m rest
    | _ => given [n] ts

/-- One node, and what it grows into. -/
def growing (first : Phrase) (step : Node → Phrase) : Phrase := fun ts => do
  match ← first ts with
  | ([n], rest) => grow rest step n rest
  | _ => none

/-- The next token as a leaf, if it passes a test. -/
def leaf (kind : NodeKind) (test : Token → Bool) : Phrase
  | t :: rest => if test t then some ([.leaf kind t], rest) else none
  | [] => none

def symbol (text : String) : Phrase := leaf .token (·.isSymbol text)

def keyword (text : String) : Phrase := leaf .token (·.isWord text)

def openBrace : Phrase := symbol "\x7b"

def closeBrace : Phrase := symbol "\x7d"

/-- Any word. Words that are keywords elsewhere are names where no keyword can stand. -/
def identifier : Phrase := leaf .identifier (·.kind == .word)

def commas (a : Phrase) : Phrase := optional (separated (symbol ",") a)

/-- Whether the next token is one of some words. -/
def atWord (words : List String) : Phrase := ahead (leaf .token fun t =>
  t.kind == .word && words.contains t.text)

/-- Whether the next token is one of some symbols. -/
def atSymbol (symbols : List String) : Phrase := ahead (leaf .token fun t =>
  t.kind == .symbol && symbols.contains t.text)

end Phrase

end Renaming.Java
