import Renaming.Java.GenericType

/-!
# Generic signatures

The written form of generic types in compiled classes:

    class     := params? classtype classtype*
    method    := params? "(" type* ")" (type | "V") ("^" ref)*
    params    := "<" (name ":" ref? (":" ref)*)+ ">"
    ref       := classtype | "T" name ";" | "[" type
    classtype := "L" name args? ("." name args?)* ";"
    args      := "<" ("*" | "+" ref | "-" ref | ref)+ ">"

A descriptor is a signature too.
-/

namespace Renaming.Java

structure SignatureError where
  input : String
  deriving DecidableEq, Repr

def SignatureError.message (e : SignatureError) : String :=
  "invalid generic signature '" ++ e.input ++ "'"

namespace GenericSignature

/-- Takes a value off the front of a text and leaves the rest. -/
abbrev Reader (α : Type) := List Char → Option (α × List Char)

/-- As many values as stand at the front of the text, at most `fuel` of them. -/
def manyUpTo (read : Reader α) : Nat → List Char → List α × List Char
  | 0, cs => ([], cs)
  | fuel + 1, cs =>
    match read cs with
    | none => ([], cs)
    | some (a, rest) =>
      let (as, rest) := manyUpTo read fuel rest
      (a :: as, rest)

def many (read : Reader α) (cs : List Char) : List α × List Char := manyUpTo read cs.length cs

/-- A nonempty run of values between angle brackets; nothing where no bracket opens. -/
def bracketed (read : Reader α) : Reader (List α)
  | '<' :: rest =>
    match many read rest with
    | (a :: as, '>' :: rest) => some (a :: as, rest)
    | _ => none
  | cs => some ([], cs)

/-- A nonempty run of characters in front of one that `stop` holds of. -/
def word (stop : Char → Bool) : Reader String := fun cs =>
  match cs.takeWhile (fun c => !stop c) with
  | [] => none
  | name => some (String.ofList name, cs.dropWhile (fun c => !stop c))

def literal (c : Char) : List Char → Option (List Char)
  | d :: rest => if d = c then some rest else none
  | [] => none

def typeVariable : Reader GenericType := fun cs => do
  let (name, rest) ← word (· == ';') cs
  let rest ← literal ';' rest
  pure (.var name .objectClass, rest)

def typeArgument (reference : Reader GenericType) : Reader TypeArgument
  | '*' :: rest => some (.any, rest)
  | '+' :: rest => (reference rest).map fun (t, rest) => (.extending t, rest)
  | '-' :: rest => (reference rest).map fun (t, rest) => (.superOf t, rest)
  | cs => (reference cs).map fun (t, rest) => (.exact t, rest)

def segmentEnd (c : Char) : Bool := c == ';' || c == '<' || c == '.'

/-- Inner class names and arguments after an outer class; only the last arguments are kept. -/
def innerClasses (reference : Reader GenericType) :
    Nat → String → List TypeArgument → Reader GenericType
  | 0, _, _, _ => none
  | fuel + 1, binary, _, '.' :: rest => do
    let (inner, rest) ← word segmentEnd rest
    let (args, rest) ← bracketed (typeArgument reference) rest
    innerClasses reference fuel (binary ++ "$" ++ inner) args rest
  | _ + 1, binary, args, cs => do
    let rest ← literal ';' cs
    pure (.object binary args, rest)

/-- A class type after its leading `L`. -/
def classType (reference : Reader GenericType) : Reader GenericType := fun cs => do
  let (name, rest) ← word segmentEnd cs
  let (args, rest) ← bracketed (typeArgument reference) rest
  innerClasses reference (rest.length + 1) (Text.replaceChar '/' '.' name) args rest

/-- Any type, given a reader for reference types. -/
def typeWith (reference : Reader GenericType) : Reader GenericType
  | [] => none
  | c :: rest =>
    if c = 'L' ∨ c = 'T' ∨ c = '[' then reference (c :: rest)
    else (Primitive.ofLetter? c).map fun p => (.prim p, rest)

/-- A reference type nested at most `fuel` deep. -/
def referenceUpTo : Nat → Reader GenericType
  | 0, _ => none
  | fuel + 1, cs =>
    match cs with
    | 'L' :: rest => classType (referenceUpTo fuel) rest
    | 'T' :: rest => typeVariable rest
    | '[' :: rest => (typeWith (referenceUpTo fuel) rest).map fun (t, rest) => (.array t, rest)
    | _ => none

def reference : Reader GenericType := fun cs => referenceUpTo (cs.length + 1) cs

def type : Reader GenericType := typeWith reference

def furtherBound : Reader GenericType := fun cs => do
  let rest ← literal ':' cs
  reference rest

def typeParameter : Reader TypeParameter := fun cs => do
  let (name, rest) ← word (· == ':') cs
  let rest ← literal ':' rest
  let (first, rest) ← match rest with
    | 'L' :: _ | 'T' :: _ | '[' :: _ => (reference rest).map fun (t, rest) => (some t, rest)
    | _ => some (none, rest)
  let (further, rest) := many furtherBound rest
  if (literal ':' rest).isSome then none
  else pure (⟨name, (first.or further.head?).getD .objectClass⟩, rest)

def typeParameters : Reader (List TypeParameter) := bracketed typeParameter

/-- The value of a reader that takes the whole text. -/
def whole (read : Reader α) (input : String) : Except SignatureError α :=
  match read input.toList with
  | some (a, []) => .ok a
  | _ => .error ⟨input⟩

def classHeader : Reader ClassHeader := fun cs => do
  let (typeParams, rest) ← typeParameters cs
  let (superclass, rest) ← reference rest
  let (interfaces, rest) := many reference rest
  pure (⟨typeParams, superclass, interfaces⟩, rest)

def returnType : Reader (Option GenericType)
  | 'V' :: rest => some (none, rest)
  | cs => (type cs).map fun (t, rest) => (some t, rest)

def thrown : Reader GenericType := fun cs => do
  let rest ← literal '^' cs
  reference rest

def method : Reader GenericMethod := fun cs => do
  let (typeParams, rest) ← typeParameters cs
  let rest ← literal '(' rest
  let (params, rest) := many type rest
  let rest ← literal ')' rest
  let (ret, rest) ← returnType rest
  let (_, rest) := many thrown rest
  pure (⟨typeParams, params, ret⟩, rest)

/-- A field signature; variables are bounded by the root class. -/
def parseField (input : String) : Except SignatureError GenericType := whole type input

/-- A method signature; variables are bounded by the root class. -/
def parseMethod (input : String) : Except SignatureError GenericMethod := whole method input

/-- A class signature with the declared bounds of its variables. -/
def parseClass (input : String) : Except SignatureError ClassHeader := do
  let h ← whole classHeader input
  let params := h.typeParams.map (TypeParameter.withBounds h.typeParams)
  pure ⟨params, h.superclass.withBounds params, h.interfaces.map (GenericType.withBounds params)⟩

end GenericSignature

end Renaming.Java
