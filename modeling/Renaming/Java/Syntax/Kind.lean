/-!
# Kinds of syntax nodes

What the nodes of a syntax tree stand for, and the roles that children play in their parents.
-/

namespace Renaming.Java

inductive NodeKind where
  | program
  /-- What is not well formed, with the nodes that can be made out in it. -/
  | error
  /-- A keyword, an operator or a punctuation mark. -/
  | token
  | identifier
  | lineComment
  | blockComment
  -- literals
  | decimalInteger
  | hexInteger
  | octalInteger
  | binaryInteger
  | decimalFloat
  | hexFloat
  | trueLiteral
  | falseLiteral
  | characterLiteral
  | stringLiteral
  | nullLiteral
  -- expressions
  | this
  | super
  | castExpression
  | assignment
  | binaryExpression
  | instanceofExpression
  | lambda
  | inferredParameters
  | conditional
  | unaryExpression
  | updateExpression
  | parenthesized
  | arrayCreation
  | dimensionsExpression
  | arrayInitializer
  | classLiteral
  | objectCreation
  | fieldAccess
  | arrayAccess
  | methodInvocation
  | argumentList
  | methodReference
  | templateExpression
  | switchExpression
  | switchBlock
  | switchGroup
  | switchRule
  | switchLabel
  | guard
  -- patterns
  | pattern
  | typePattern
  | recordPattern
  | recordPatternBody
  | recordPatternComponent
  | underscorePattern
  -- statements
  | block
  | expressionStatement
  | labeledStatement
  | assertStatement
  | doStatement
  | breakStatement
  | continueStatement
  | returnStatement
  | yieldStatement
  | synchronizedStatement
  | throwStatement
  | tryStatement
  | tryWithResources
  | resourceSpecification
  | resource
  | catchClause
  | catchParameter
  | catchType
  | finallyClause
  | ifStatement
  | whileStatement
  | forStatement
  | enhancedFor
  | localVariables
  -- annotations
  | markerAnnotated
  | fullyAnnotated
  | elementList
  | elementPair
  | elementArray
  -- types
  | voidType
  | integralType
  | floatingPointType
  | booleanType
  | typeIdentifier
  | scopedType
  | genericType
  | arrayType
  | annotatedType
  | typeArguments
  | wildcard
  | dimensions
  -- declarations
  | moduleDeclaration
  | moduleBody
  | moduleDirective
  | requiresModifier
  | packageDeclaration
  | importDeclaration
  | asterisk
  | scopedIdentifier
  | classDeclaration
  | interfaceDeclaration
  | enumDeclaration
  | recordDeclaration
  | annotationTypeDeclaration
  | modifiers
  | typeParameters
  | typeParameter
  | typeBound
  | superclass
  | superInterfaces
  | extendsInterfaces
  | permits
  | typeList
  | classBody
  | interfaceBody
  | enumBody
  | enumBodyDeclarations
  | annotationTypeBody
  | enumConstant
  | fieldDeclaration
  | constantDeclaration
  | variableDeclarator
  | methodDeclaration
  | constructorDeclaration
  | compactConstructor
  | constructorBody
  | explicitConstructorCall
  | staticInitializer
  | annotationElement
  | formalParameters
  | formalParameter
  | spreadParameter
  | receiverParameter
  | throwsClause
  deriving DecidableEq, Repr, Inhabited

namespace NodeKind

def isComment (k : NodeKind) : Bool := k == lineComment || k == blockComment

def isAnnotated (k : NodeKind) : Bool := k == markerAnnotated || k == fullyAnnotated

/-- Kinds that spell a type. -/
def isType : NodeKind → Bool
  | voidType | integralType | floatingPointType | booleanType | typeIdentifier | scopedType
  | genericType | arrayType | annotatedType => true
  | _ => false

/-- Kinds that declare a named type. -/
def isTypeDeclaration : NodeKind → Bool
  | classDeclaration | interfaceDeclaration | enumDeclaration | recordDeclaration
  | annotationTypeDeclaration => true
  | _ => false

/-- Whether a type declared directly in a node of this kind is a member type. -/
def holdsMembers : NodeKind → Bool
  | classBody | interfaceBody | enumBodyDeclarations | annotationTypeBody => true
  | _ => false

/-- Kinds that are walked as statements rather than as expressions. -/
def isStatement : NodeKind → Bool
  | block | expressionStatement | labeledStatement | assertStatement | doStatement | breakStatement
  | continueStatement | returnStatement | yieldStatement | synchronizedStatement | throwStatement
  | tryStatement | tryWithResources | catchClause | finallyClause | ifStatement | whileStatement
  | forStatement | enhancedFor | localVariables => true
  | k => k.isTypeDeclaration

end NodeKind

/-- The role of a child in its parent. -/
inductive Role where
  | alternative
  | arguments
  | array
  | body
  | condition
  | consequence
  | constructor
  | declarator
  | dimensions
  | element
  | field
  | index
  | init
  | interfaces
  | key
  | left
  | name
  | object
  | operand
  | operator
  | parameters
  | pattern
  | permits
  | resources
  | right
  | scope
  | superclass
  | templateArgument
  | templateProcessor
  | type
  | typeArguments
  | typeParameters
  | update
  | value
  deriving DecidableEq, Repr, Inhabited

end Renaming.Java
