import Renaming.Java.Grammar.Expressions

/-!
# Statements

A statement is told by its first word. Where that word opens no statement, a declaration of
variables is tried before a label and an expression.
-/

namespace Renaming.Java.Phrase

variable (sub : Rule → Phrase)

def block : Phrase := node .block [openBrace, many (sub .statement), closeBrace]

def condition : Phrase := (parenthesized sub).as .condition

def body : Phrase := (sub .statement).as .body

def blockBody : Phrase := (sub .block).as .body

def localVariables : Phrase :=
  node .localVariables
    [modifiers sub, (sub .plainType).as .type, notAhead (atWord ["instanceof"]), declarators sub,
      symbol ";"]

def labeledStatement : Phrase :=
  node .labeledStatement [identifier, symbol ":", sub .statement]

def ifStatement : Phrase :=
  node .ifStatement
    [keyword "if", condition sub, (sub .statement).as .consequence,
      optional (sequence [keyword "else", (sub .statement).as .alternative])]

def whileStatement : Phrase :=
  node .whileStatement [keyword "while", condition sub, body sub]

def doStatement : Phrase :=
  node .doStatement [keyword "do", body sub, keyword "while", condition sub, symbol ";"]

def enhancedFor : Phrase :=
  node .enhancedFor
    [keyword "for", symbol "(", modifiers sub, (sub .plainType).as .type, declaratorName sub,
      symbol ":", (expression sub).as .value, symbol ")", body sub]

def forStatement : Phrase :=
  node .forStatement
    [keyword "for", symbol "(",
      either ((localVariables sub).as .init)
        (sequence [commas ((expression sub).as .init), symbol ";"]),
      optional ((expression sub).as .condition), symbol ";",
      commas ((expression sub).as .update), symbol ")", body sub]

def assertStatement : Phrase :=
  node .assertStatement
    [keyword "assert", expression sub, optional (sequence [symbol ":", expression sub]),
      symbol ";"]

def jump (kind : NodeKind) (word : String) : Phrase :=
  node kind [keyword word, optional identifier, symbol ";"]

def returnStatement : Phrase :=
  node .returnStatement [keyword "return", optional (expression sub), symbol ";"]

def yieldStatement : Phrase :=
  node .yieldStatement [keyword "yield", expression sub, symbol ";"]

def synchronizedStatement : Phrase :=
  node .synchronizedStatement [keyword "synchronized", parenthesized sub, blockBody sub]

def catchClause : Phrase :=
  node .catchClause
    [keyword "catch", symbol "(",
      node .catchParameter
        [modifiers sub, node .catchType [separated (symbol "|") (sub .plainType)],
          declaratorName sub],
      symbol ")", blockBody sub]

def finallyClause : Phrase := node .finallyClause [keyword "finally", sub .block]

def resource : Phrase :=
  either
    (node .resource
      [modifiers sub, (sub .plainType).as .type, declaratorName sub, symbol "=",
        (expression sub).as .value])
    (node .resource
      [andThen (sub .primary) fun ns =>
        if ns.all fun n => [.identifier, .fieldAccess].contains n.kind then given ns else refuse])

def resourceSpecification : Phrase :=
  node .resourceSpecification
    [symbol "(", separated (symbol ";") (resource sub), optional (symbol ";"), symbol ")"]

def tryStatement : Phrase :=
  either
    (node .tryWithResources
      [keyword "try", (resourceSpecification sub).as .resources, blockBody sub,
        many (catchClause sub), optional (finallyClause sub)])
    (node .tryStatement
      [keyword "try", blockBody sub,
        either (sequence [many (catchClause sub), finallyClause sub])
          (atLeastOne (catchClause sub))])

/-! ## Packages, imports and modules -/

def packageDeclaration : Phrase :=
  node .packageDeclaration [annotations sub, keyword "package", dottedName, symbol ";"]

def importDeclaration : Phrase :=
  node .importDeclaration
    [keyword "import", optional (keyword "static"), dottedName,
      optional (sequence [symbol ".", leaf .asterisk (·.isSymbol "*")]), symbol ";"]

def moduleNames : Phrase := separated (symbol ",") dottedName

def requiresModifier : Phrase :=
  node .requiresModifier [either (keyword "transitive") (keyword "static")]

def moduleDirective : Phrase :=
  node .moduleDirective
    [oneOf
      [sequence [keyword "requires", many (requiresModifier), dottedName],
        sequence
          [either (keyword "exports") (keyword "opens"), dottedName,
            optional (sequence [keyword "to", moduleNames])],
        sequence [keyword "uses", dottedName],
        sequence [keyword "provides", dottedName, keyword "with", moduleNames]],
      symbol ";"]

def moduleDeclaration : Phrase :=
  node .moduleDeclaration
    [annotations sub, optional (keyword "open"), keyword "module", dottedName.as .name,
      (node .moduleBody [openBrace, many moduleDirective, closeBrace]).as .body]

/-! ## Statements -/

/-- A statement that no keyword of its own opens. -/
def plainStatement : Phrase :=
  oneOf
    [localVariables sub,
      sequence [notAhead (atWord modifierWords), labeledStatement sub],
      sequence [notAhead (atWord (modifierWords.erase "sealed")), expressionStatement sub]]

/-- A statement with something in front that may belong to a declaration. -/
def declarationStatement : Phrase :=
  oneOf [sub .typeDeclaration, packageDeclaration sub, moduleDeclaration sub, plainStatement sub]

/-- The statement that a word opens. -/
def statementOf : String → Phrase
  | "if" => ifStatement sub
  | "while" => whileStatement sub
  | "do" => doStatement sub
  | "for" => either (enhancedFor sub) (forStatement sub)
  | "switch" => switchExpression sub
  | "return" => returnStatement sub
  | "throw" => throwStatement sub
  | "break" => jump .breakStatement "break"
  | "continue" => jump .continueStatement "continue"
  | "assert" => assertStatement sub
  | "try" => tryStatement sub
  | "synchronized" => either (synchronizedStatement sub) (declarationStatement sub)
  | "yield" => either (yieldStatement sub) (plainStatement sub)
  | "class" | "interface" | "enum" => sub .typeDeclaration
  | "package" => packageDeclaration sub
  | "import" => importDeclaration
  | "record" | "open" | "module" | "non" => declarationStatement sub
  | word => if modifierWords.contains word then declarationStatement sub else plainStatement sub

def statement : Phrase
  | t :: rest =>
    match t.kind, t.text with
    | .word, word => statementOf sub word (t :: rest)
    | .symbol, ";" => symbol ";" (t :: rest)
    | .symbol, "\x7b" => sub .block (t :: rest)
    | .symbol, "@" => declarationStatement sub (t :: rest)
    | _, _ => expressionStatement sub (t :: rest)
  | [] => none

end Renaming.Java.Phrase
