import Renaming.Java.Grammar.Statements

/-!
# Declarations

Types and their members. The body that a member stands in decides what it can be: only classes have
constructors and initializers, and only annotation types have elements.
-/

namespace Renaming.Java.Phrase

variable (sub : Rule → Phrase)

/-! ## Methods and constructors -/

def throwsClause : Phrase :=
  node .throwsClause [keyword "throws", separated (symbol ",") (sub .type)]

def methodDeclaration (ms : List Node) : Phrase :=
  node .methodDeclaration
    [given ms,
      optional (sequence [(typeParameters sub).as .typeParameters, annotations sub]),
      (sub .plainType).as .type, identifier.as .name, (formalParameters sub).as .parameters,
      optional ((dimensions sub).as .dimensions), optional (throwsClause sub),
      either (blockBody sub) (symbol ";")]

def constructorWord : Phrase :=
  (either (leaf .this (·.isWord "this")) (leaf .super (·.isWord "super"))).as .constructor

/-- A call of another constructor, which only the first statement of a constructor can be. -/
def explicitConstructorCall : Phrase :=
  let call (front : Phrase) : Phrase :=
    node .explicitConstructorCall
      [front, optional ((typeArguments sub).as .typeArguments), constructorWord,
        (argumentList sub).as .arguments, symbol ";"]
  either (call nothing) (call (sequence [(sub .primary).as .object, symbol "."]))

def constructorBody : Phrase :=
  node .constructorBody
    [openBrace, optional (explicitConstructorCall sub), many (sub .statement), closeBrace]

def constructorDeclaration (ms : List Node) : Phrase :=
  node .constructorDeclaration
    [given ms, optional ((typeParameters sub).as .typeParameters), name.as .name,
      (formalParameters sub).as .parameters, optional (throwsClause sub),
      (constructorBody sub).as .body]

def compactConstructor (ms : List Node) : Phrase :=
  node .compactConstructor [given ms, name.as .name, blockBody sub]

def valueMember (kind : NodeKind) (ms : List Node) : Phrase :=
  node kind [given ms, (sub .plainType).as .type, declarators sub, symbol ";"]

def annotationElement (ms : List Node) : Phrase :=
  node .annotationElement
    [given ms, (sub .plainType).as .type, identifier.as .name, symbol "(", symbol ")",
      optional ((dimensions sub).as .dimensions),
      optional (sequence [keyword "default", (sub .elementValue).as .value]), symbol ";"]

/-! ## Types -/

/-- What can be declared in a body, after the modifiers. -/
structure BodyForm where
  kind : NodeKind
  members : List (List Node → Phrase)
  initializers : List Phrase

def classForm : BodyForm where
  kind := .classBody
  members :=
    [constructorDeclaration sub, compactConstructor sub, methodDeclaration sub,
      valueMember sub .fieldDeclaration]
  initializers := [sub .block, node .staticInitializer [keyword "static", sub .block]]

def interfaceForm : BodyForm where
  kind := .interfaceBody
  members := [methodDeclaration sub, valueMember sub .constantDeclaration]
  initializers := []

def annotationForm : BodyForm where
  kind := .annotationTypeBody
  members := [annotationElement sub, valueMember sub .constantDeclaration]
  initializers := []

/-- Words that open the declaration of a member type. -/
def opensType : Phrase :=
  either (atWord ["class", "interface", "enum", "record"]) (ahead atInterface)

def member (form : BodyForm) : Phrase :=
  oneOf <|
    symbol ";" :: form.initializers ++
      [sequence [ahead (sequence [modifiers sub, opensType]), sub .typeDeclaration],
        andThen (modifiers sub) fun ms =>
          sequence [notAhead opensType, oneOf (form.members.map (· ms))]]

def bodyOf (form : BodyForm) : Phrase :=
  node form.kind [openBrace, many (member sub form), closeBrace]

def classBody : Phrase := bodyOf sub (classForm sub)

def superInterfaces : Phrase :=
  (node .superInterfaces [keyword "implements", typeList sub]).as .interfaces

def permits : Phrase := (node .permits [keyword "permits", typeList sub]).as .permits

def typeName : Phrase := identifier.as .name

def classDeclaration (ms : List Node) : Phrase :=
  node .classDeclaration
    [given ms, keyword "class", typeName, optional ((typeParameters sub).as .typeParameters),
      optional ((node .superclass [keyword "extends", sub .type]).as .superclass),
      optional (superInterfaces sub), optional (permits sub), (classBody sub).as .body]

def interfaceDeclaration (ms : List Node) : Phrase :=
  node .interfaceDeclaration
    [given ms, keyword "interface", typeName,
      optional ((typeParameters sub).as .typeParameters),
      optional (node .extendsInterfaces [keyword "extends", typeList sub]),
      optional (permits sub), (bodyOf sub (interfaceForm sub)).as .body]

def enumConstant : Phrase :=
  node .enumConstant
    [modifiers sub, typeName, optional ((argumentList sub).as .arguments),
      optional ((classBody sub).as .body)]

def enumBody : Phrase :=
  node .enumBody
    [openBrace, commas (enumConstant sub), optional (symbol ","),
      optional
        (node .enumBodyDeclarations [symbol ";", many (member sub (classForm sub))]),
      closeBrace]

def enumDeclaration (ms : List Node) : Phrase :=
  node .enumDeclaration
    [given ms, keyword "enum", typeName, optional (superInterfaces sub),
      (enumBody sub).as .body]

def recordDeclaration (ms : List Node) : Phrase :=
  node .recordDeclaration
    [given ms, keyword "record", typeName, optional ((typeParameters sub).as .typeParameters),
      (formalParameters sub).as .parameters, optional (superInterfaces sub),
      (classBody sub).as .body]

def annotationTypeDeclaration (ms : List Node) : Phrase :=
  node .annotationTypeDeclaration
    [given ms, atInterface, typeName, (bodyOf sub (annotationForm sub)).as .body]

def typeDeclaration : Phrase :=
  andThen (modifiers sub) fun ms =>
    oneOf
      [classDeclaration sub ms, interfaceDeclaration sub ms, enumDeclaration sub ms,
        recordDeclaration sub ms, annotationTypeDeclaration sub ms]

end Renaming.Java.Phrase
