import Renaming.Java.Grammar.Phrase

/-!
# Names, annotations and types

How types are spelled. A type with annotations in front is told apart from a plain one, because
annotations in front of a declaration belong to its modifiers.
-/

namespace Renaming.Java.Phrase

variable (sub : Rule → Phrase)

/-- The kind of node that a word for a primitive type or for no type makes. -/
def builtInType? : String → Option NodeKind
  | "byte" | "short" | "int" | "long" | "char" => some .integralType
  | "float" | "double" => some .floatingPointType
  | "boolean" => some .booleanType
  | "void" => some .voidType
  | _ => none

/-- Words that stand for themselves where an expression may start. -/
def expressionWords : List String := ["new", "this", "super", "switch", "true", "false", "null"]

/-- Whether a word can name a variable, a method or a type where an expression may start. -/
def isName (t : Token) : Bool :=
  t.kind == .word && !expressionWords.contains t.text && (builtInType? t.text).isNone

def name : Phrase := leaf .identifier isName

/-- A name in a declarator; a lone underscore declares nothing. -/
def declaredName : Phrase :=
  either (leaf .underscorePattern (·.isWord "_")) identifier

/-- A name with dots. -/
def dottedName : Phrase :=
  growing identifier fun scope =>
    node .scopedIdentifier [given [scope.as .scope], symbol ".", identifier.as .name]

/-! ## Annotations -/

def annotations : Phrase := many (sub .annotated)

/-- What opens the declaration of an annotation type, where its two parts touch. -/
def atInterface : Phrase
  | t :: u :: rest =>
    if t.isSymbol "@" && u.isWord "interface" && t.touches u then
      some ([.leaf .token (t.join u)], rest)
    else none
  | _ => none

def elementPair : Phrase :=
  node .elementPair [identifier.as .key, symbol "=", (sub .elementValue).as .value]

def elementArray : Phrase :=
  node .elementArray
    [openBrace, commas (sub .elementValue), optional (symbol ","), closeBrace]

def elementValue : Phrase :=
  oneOf [elementArray sub, sub (.expression 0 true), sub .annotated]

def elementList : Phrase :=
  node .elementList
    [symbol "(",
      either (followedBy (ahead (followedBy identifier (symbol "=")))
          (separated (symbol ",") (elementPair sub)))
        (optional (sub .elementValue)),
      symbol ")"]

def annotated : Phrase :=
  andThen (sequence [notAhead atInterface, symbol "@", dottedName.as .name]) fun named =>
    either (node .fullyAnnotated [given named, (elementList sub).as .arguments])
      (node .markerAnnotated [given named])

/-! ## Types -/

def wildcard : Phrase :=
  node .wildcard
    [annotations sub, symbol "?",
      optional (either (sequence [keyword "extends", sub .type])
        (sequence [leaf .super (·.isWord "super"), sub .type]))]

def typeArguments : Phrase :=
  node .typeArguments
    [symbol "<", commas (either (wildcard sub) (sub .type)), symbol ">"]

/-- The next part of a dotted type. Words that follow a dot in an expression end the type. -/
def typeStep (n : Node) : Phrase :=
  either
    (node .scopedType
      [given [n], symbol ".", annotations sub, notAhead (atWord ["class"]),
        leaf .typeIdentifier isName])
    (if n.kind == .genericType then refuse
      else node .genericType [given [n], typeArguments sub])

def builtInType : Phrase
  | t :: rest =>
    if t.kind == .word then (builtInType? t.text).map fun kind => ([.leaf kind t], rest) else none
  | [] => none

/-- A type that is no array. -/
def simpleType : Phrase :=
  either builtInType (growing (leaf .typeIdentifier isName) (typeStep sub))

def dimensions : Phrase :=
  node .dimensions [atLeastOne (sequence [annotations sub, symbol "[", symbol "]"])]

def plainType : Phrase :=
  growing (simpleType sub) fun n =>
    if n.kind == .arrayType then refuse
    else node .arrayType [given [n.as .element], (dimensions sub).as .dimensions]

def type : Phrase :=
  either (node .annotatedType [atLeastOne (sub .annotated), sub .plainType]) (sub .plainType)

/-- Whether a type is spelled by names and dots alone. -/
def isDotted : Node → Bool
  | .mk .typeIdentifier _ _ _ _ => true
  | .mk .scopedType _ _ _ [n, _, m] => isDotted n && m.kind == .typeIdentifier
  | _ => false

def typeList : Phrase := node .typeList [separated (symbol ",") (sub .type)]

def typeBound : Phrase :=
  node .typeBound [keyword "extends", separated (symbol "&") (sub .type)]

def typeParameter : Phrase :=
  node .typeParameter
    [annotations sub, leaf .typeIdentifier (·.kind == .word), optional (typeBound sub)]

def typeParameters : Phrase :=
  node .typeParameters [symbol "<", separated (symbol ",") (typeParameter sub), symbol ">"]

/-! ## Declarators and parameters -/

/-- The name of a variable and its own dimensions. -/
def declaratorName : Phrase :=
  sequence [declaredName.as .name, optional ((dimensions sub).as .dimensions)]

def variableDeclarator : Phrase :=
  node .variableDeclarator
    [declaratorName sub, optional (sequence [symbol "=", (sub .initializer).as .value])]

def declarators : Phrase :=
  separated (symbol ",") ((variableDeclarator sub).as .declarator)

def modifierWords : List String :=
  ["public", "protected", "private", "abstract", "static", "final", "strictfp", "default",
    "synchronized", "native", "transient", "volatile", "sealed"]

/-- The modifier whose spelling contains a hyphen. -/
def nonSealed : Phrase
  | t :: u :: v :: rest =>
    if t.isWord "non" && u.isSymbol "-" && v.isWord "sealed" && t.touches u && u.touches v then
      some ([.leaf .token ((t.join u).join v)], rest)
    else none
  | _ => none

/-- Modifiers and annotations, if there are any. -/
def modifiers : Phrase :=
  optional (node .modifiers
    [atLeastOne (oneOf
      [sub .annotated, nonSealed,
        leaf .token fun t => t.kind == .word && modifierWords.contains t.text])])

def receiverParameter : Phrase :=
  node .receiverParameter
    [annotations sub, sub .plainType,
      many (sequence [notAhead (keyword "this"), identifier, symbol "."]),
      leaf .this (·.isWord "this")]

def formalParameter : Phrase :=
  andThen (modifiers sub) fun ms =>
    andThen (sub .plainType) fun type =>
      either
        (node .spreadParameter
          [given ms, given type, symbol "...", annotations sub, variableDeclarator sub])
        (node .formalParameter
          [given ms, given (type.map (·.as .type)), declaratorName sub])

def formalParameters : Phrase :=
  node .formalParameters
    [symbol "(",
      either (sequence [receiverParameter sub, ahead (symbol ")")])
        (sequence
          [optional (sequence [receiverParameter sub, symbol ","]), commas (formalParameter sub)]),
      symbol ")"]

end Renaming.Java.Phrase
