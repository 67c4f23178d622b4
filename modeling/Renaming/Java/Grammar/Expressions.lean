import Renaming.Java.Grammar.Types

/-!
# Expressions

Operators bind by levels: an operator is taken only where its level reaches the one asked for, and
its right operand is asked for at the next level. A cast and a parenthesized name are told apart by
what follows them.
-/

namespace Renaming.Java.Phrase

variable (sub : Rule → Phrase)

def expression : Phrase := sub (.expression 0 true)

def argumentList : Phrase :=
  node .argumentList [symbol "(", commas (expression sub), symbol ")"]

def parenthesized : Phrase :=
  node .parenthesized [symbol "(", expression sub, symbol ")"]

def arrayInitializer : Phrase :=
  node .arrayInitializer [openBrace, commas (sub .initializer), optional (symbol ","), closeBrace]

def initializer : Phrase := either (arrayInitializer sub) (expression sub)

/-! ## Creation -/

def dimensionsExpression : Phrase :=
  node .dimensionsExpression [annotations sub, symbol "[", expression sub, symbol "]"]

def arrayShape : Phrase :=
  either
    (sequence
      [atLeastOne ((dimensionsExpression sub).as .dimensions),
        optional ((dimensions sub).as .dimensions)])
    (sequence [(dimensions sub).as .dimensions, (arrayInitializer sub).as .value])

/-- What makes an object, after what stands in front of `new`. -/
def objectCreation (qualifier : List Node) : Phrase :=
  node .objectCreation
    [given qualifier, keyword "new", annotations sub,
      optional (sequence [(typeArguments sub).as .typeArguments, annotations sub]),
      (simpleType sub).as .type, (argumentList sub).as .arguments, optional (sub .classBody)]

def arrayCreation : Phrase :=
  node .arrayCreation
    [keyword "new", annotations sub, (simpleType sub).as .type, arrayShape sub]

def creation : Phrase := either (objectCreation sub []) (arrayCreation sub)

/-! ## Primary expressions -/

/-- A call or an access by name. -/
def selected (front : List Node) : Phrase :=
  either
    (node .methodInvocation
      [given front, optional ((typeArguments sub).as .typeArguments),
        notAhead (atWord ["super"]), identifier.as .name, (argumentList sub).as .arguments])
    (node .fieldAccess
      [given front, notAhead (atWord ["super"]),
        (either (leaf .this (·.isWord "this")) identifier).as .field])

def methodReference (n : Node) : Phrase :=
  node .methodReference
    [given [n], symbol "::", optional (typeArguments sub), either (keyword "new") identifier]

/-- What may follow a primary expression. -/
def primaryStep (n : Node) : Phrase :=
  oneOf
    [andThen (symbol ".") fun dot => oneOf
        [objectCreation sub (n :: dot),
          andThen (sequence [leaf .super (·.isWord "super"), symbol "."]) fun outer =>
            selected sub (n.as .object :: dot ++ outer),
          node .templateExpression
            [given (n.as .templateProcessor :: dot),
              (leaf .stringLiteral (·.kind == .literal .stringLiteral)).as .templateArgument],
          selected sub (n.as .object :: dot)],
      node .arrayAccess
        [given [n.as .array], symbol "[", (expression sub).as .index, symbol "]"],
      methodReference sub n]

/-- Class literals, and references to methods of types that are no dotted names. -/
def typeHeaded : Phrase :=
  andThen (sub .type) fun types =>
    match types with
    | [t] =>
      either (node .classLiteral [given [t], symbol ".", keyword "class"])
        (if isDotted t then refuse else methodReference sub t)
    | _ => refuse

def literal : Phrase
  | t :: rest =>
    match t.kind, t.text with
    | .literal kind, _ => some ([.leaf kind t], rest)
    | .word, "true" => some ([.leaf .trueLiteral t], rest)
    | .word, "false" => some ([.leaf .falseLiteral t], rest)
    | .word, "null" => some ([.leaf .nullLiteral t], rest)
    | .word, "this" => some ([.leaf .this t], rest)
    | _, _ => none
  | [] => none

def primaryStart : Phrase :=
  oneOf
    [literal,
      parenthesized sub,
      creation sub,
      sequence [leaf .super (·.isWord "super"), atSymbol [".", "::"]],
      typeHeaded sub,
      node .methodInvocation [name.as .name, (argumentList sub).as .arguments],
      name]

def primary : Phrase :=
  andThen (growing (primaryStart sub) (primaryStep sub)) fun ns =>
    if ns.any (·.kind == .super) then refuse else given ns

/-! ## Operators -/

/-- Puts the marks that start with `>` together, as far as they touch. -/
def joinAngles : Nat → Token → List Token → Token × List Token
  | n, t, u :: rest =>
    if t.touches u then
      if u.isSymbol "=" then (t.join u, rest)
      else if u.isSymbol ">" then
        match n with
        | 0 => (t, u :: rest)
        | n + 1 => joinAngles n (t.join u) rest
      else (t, u :: rest)
    else (t, u :: rest)
  | _, t, [] => (t, [])

/-- The operator at the front. -/
def operatorToken : List Token → Option (Token × List Token)
  | t :: rest =>
    if t.isSymbol ">" then some (joinAngles 2 t rest)
    else if t.kind == .symbol then some (t, rest)
    else none
  | [] => none

/-- How tightly the binary operators bind. -/
def operatorLevel? : String → Option Nat
  | "||" => some 4
  | "&&" => some 5
  | "|" => some 6
  | "^" => some 7
  | "&" => some 8
  | "==" | "!=" => some 9
  | "<" | ">" | "<=" | ">=" => some 10
  | "<<" | ">>" | ">>>" => some 11
  | "+" | "-" => some 12
  | "*" | "/" | "%" => some 13
  | _ => none

def assignmentOperators : List String :=
  ["=", "+=", "-=", "*=", "/=", "&=", "|=", "^=", "%=", "<<=", ">>=", ">>>="]

/-- Levels of the operators that are not binary. -/
def conditionalLevel : Nat := 3

def instanceofLevel : Nat := 10

def castLevel : Nat := 15

def updateLevel : Nat := 15

def unaryLevel : Nat := 16

/-- An operator as a leaf, if it passes a test. -/
def operator (test : String → Bool) : Phrase := fun ts => do
  let (t, rest) ← operatorToken ts
  if test t.text then some ([(Node.leaf .token t).as .operator], rest) else none

def binaryTail (level : Nat) (arrows : Bool) (left : Node) : Phrase := fun ts => do
  let (t, _) ← operatorToken ts
  let own ← operatorLevel? t.text
  if own < level then none
  else
    node .binaryExpression
      [given [left.as .left], operator fun _ => true,
        (sub (.expression (own + 1) arrows)).as .right] ts

def instanceofTail (level : Nat) (left : Node) : Phrase :=
  if instanceofLevel < level then refuse
  else node .instanceofExpression
    [given [left.as .left], keyword "instanceof", optional (keyword "final"),
      either ((sub .recordPattern).as .pattern)
        (sequence [(sub .type).as .right, optional (identifier.as .name)])]

def conditionalTail (level : Nat) (arrows : Bool) (condition : Node) : Phrase :=
  if conditionalLevel < level then refuse
  else node .conditional
    [given [condition.as .condition], symbol "?", (expression sub).as .consequence, symbol ":",
      (sub (.expression conditionalLevel arrows)).as .alternative]

def updateTail (level : Nat) (n : Node) : Phrase :=
  if updateLevel < level then refuse
  else node .updateExpression [given [n], either (symbol "++") (symbol "--")]

/-- What may be assigned to is assigned to, however tightly an operator in front of it binds. -/
def assignmentTail (arrows : Bool) (left : Node) : Phrase :=
  if [.identifier, .fieldAccess, .arrayAccess].contains left.kind then
    node .assignment
      [given [left.as .left], operator assignmentOperators.contains,
        (sub (.expression 0 arrows)).as .right]
  else refuse

/-! ## Lambdas and casts -/

def inferredParameters : Phrase :=
  node .inferredParameters [symbol "(", separated (symbol ",") identifier, symbol ")"]

def lambda (arrows : Bool) : Phrase :=
  if !arrows then refuse
  else
    andThen
      (sequence
        [(oneOf [name, inferredParameters, formalParameters sub]).as .parameters, symbol "->"])
      fun front =>
        node .lambda [given front, (either (sub .block) (expression sub)).as .body]

/-- What may follow a parenthesized name only if it is a cast. -/
def startsOperand : Phrase :=
  ahead (oneOf
    [leaf .token fun t => t.kind == .word && t.text != "instanceof",
      literal,
      oneOf [symbol "(", symbol "!", symbol "~"],
      sequence
        [either (symbol "++") (symbol "--"),
          oneOf [leaf .token fun t => t.kind == .word && t.text != "instanceof", symbol "("]]])

def castTypes : Phrase :=
  sequence [symbol "(", separated (symbol "&") ((sub .type).as .type), symbol ")"]

def cast (arrows : Bool) : Phrase :=
  andThen (castTypes sub) fun front =>
    let names := (front.filter Node.isNamed).all isDotted
    node .castExpression
      [given front, if names then startsOperand else nothing,
        (sub (.expression castLevel arrows)).as .value]

/-! ## Patterns and switches -/

def underscore : Phrase := leaf .underscorePattern (·.isWord "_")

def recordPatternComponent : Phrase :=
  node .recordPatternComponent
    [either (sequence [underscore, atSymbol [",", ")"]]) (sequence [sub .plainType, identifier])]

def recordPatternBody (parts : Phrase → Phrase) : Phrase :=
  node .recordPatternBody
    [symbol "(", parts (either (sub .recordPattern) (recordPatternComponent sub)), symbol ")"]

/-- The type that a record pattern takes apart. -/
def recordPatternHead : Phrase :=
  either
    (andThen (simpleType sub) fun ns =>
      if ns.any (·.kind == .genericType) then given ns else refuse)
    name

def recordPattern : Phrase :=
  node .recordPattern [recordPatternHead sub, recordPatternBody sub commas]

/-- Patterns that a label may start with. A record pattern without parts is read as a call. -/
def pattern : Phrase :=
  node .pattern
    [either
      (node .typePattern [sub .plainType, notAhead (atWord ["when"]), identifier])
      (node .recordPattern
        [recordPatternHead sub, recordPatternBody sub (separated (symbol ","))])]

def guard : Phrase := node .guard [keyword "when", sub (.expression 0 false)]

def switchLabel : Phrase :=
  node .switchLabel
    [either
      (sequence
        [keyword "case",
          either (sequence [pattern sub, either (atSymbol [":", "->"]) (atWord ["when"])])
            (separated (symbol ",") (sub (.expression 0 false))),
          optional (guard sub)])
      (keyword "default")]

/-- The end of the statements after a label. -/
def atLabel : Phrase :=
  ahead (either (keyword "case") (sequence [keyword "default", atSymbol [":", "->"]]))

/-- A label with the statements up to the next one. -/
def switchGroup : Phrase :=
  node .switchGroup
    [switchLabel sub, symbol ":", many (sequence [notAhead atLabel, sub .statement])]

def expressionStatement : Phrase := node .expressionStatement [expression sub, symbol ";"]

def throwStatement : Phrase :=
  node .throwStatement [keyword "throw", expression sub, symbol ";"]

def switchRule : Phrase :=
  node .switchRule
    [switchLabel sub, symbol "->",
      oneOf [sub .block, throwStatement sub, expressionStatement sub]]

def switchBlock : Phrase :=
  either (node .switchBlock [openBrace, many (switchRule sub), closeBrace])
    (node .switchBlock [openBrace, many (switchGroup sub), closeBrace])

def switchExpression : Phrase :=
  node .switchExpression
    [keyword "switch", (parenthesized sub).as .condition, (switchBlock sub).as .body]

/-! ## Expressions -/

def unary (arrows : Bool) : Phrase :=
  either
    (node .unaryExpression
      [ahead (oneOf [symbol "+", symbol "-", symbol "!", symbol "~"]), operator fun _ => true,
        (sub (.expression unaryLevel arrows)).as .operand])
    (node .updateExpression
      [either (symbol "++") (symbol "--"), sub (.expression unaryLevel arrows)])

def assigned (arrows : Bool) : Phrase :=
  andThen (sub .primary) fun ns =>
    match ns with
    | [n] => either (assignmentTail sub arrows n) (given ns)
    | _ => refuse

def operand (arrows : Bool) : Phrase :=
  oneOf
    [unary sub arrows, lambda sub arrows, cast sub arrows, switchExpression sub,
      assigned sub arrows]

def expressionAt (level : Nat) (arrows : Bool) : Phrase :=
  growing (operand sub arrows) fun n =>
    oneOf
      [binaryTail sub level arrows n, instanceofTail sub level n,
        conditionalTail sub level arrows n, updateTail level n]

end Renaming.Java.Phrase
