import Renaming.Java.Binding.Expressions

/-!
# Statements

Statements open blocks and declare variables. A variable is in scope from its declaration to the end
of its block.
-/

namespace Renaming.Java.Binding

variable (sub : Task → Binding Meaning)

def statement? (n : Option Node) : Binding Unit :=
  match n with
  | none => pure ()
  | some n => discard (sub (.statement n))

def statements (nodes : List Node) : Binding Unit :=
  nodes.forM fun n => discard (sub (.statement n))

/-- The written type of a variable, and whether its initializer gives the type instead. -/
def writtenType (type : Option Node) : Binding (Option GenericType × Bool) := do
  match type with
  | none => return (none, false)
  | some t =>
    if ← isInferred t then return (none, true)
    return (← typeNode t, false)

def declareNamed (n : Node) (type : ExprType) : Binding Unit :=
  match n.child? .name with
  | none => pure ()
  | some name => declareLocal name type

def localVariables (n : Node) : Binding Unit := do
  annotations sub n
  let (written, inferred) ← writtenType (n.child? .type)
  (n.childrenIn .declarator).forM fun d => do
    let dims ← dims d
    let expected := written.map (·.withDims dims)
    let value ← match d.child? .value with
      | none => pure none
      | some v => do
        let m ← sub (.initializer v expected)
        pure (some m.exprType)
    let type := match expected, value with
      | some t, _ => .value t
      | none, some v => if inferred then v else .unknown
      | none, none => .unknown
    declareNamed d type

/-- The value is read before the variable is in scope. -/
def enhancedFor (n : Node) : Binding Unit :=
  withBlock do
    let iterable ← expression? sub (n.child? .value)
    annotations sub n
    let (written, inferred) ← writtenType (n.child? .type)
    let element := iterable.value?.bind (elementType? (← read).index)
    declareNamed n (.ofOption (if inferred then element else written))
    statement? sub (n.child? .body)

def catchClause (n : Node) : Binding Unit :=
  withBlock do
    match n.childOfKind? .catchParameter with
    | none => pure ()
    | some param =>
      annotations sub param
      let types ← (((param.childOfKind? .catchType).map Node.namedChildren).getD []).mapM typeNode
      declareNamed param (.ofOption (types.findSome? id))
    statement? sub (n.child? .body)

def resource (n : Node) : Binding Unit := do
  if n.kind != .resource then discard (expression sub n)
  else
    match n.child? .name with
    | none => discard (expressions sub n.namedChildren)
    | some name =>
      annotations sub n
      let (written, _) ← writtenType (n.child? .type)
      let value ← expression? sub (n.child? .value)
      declareLocal name (match written with
        | some t => .value t
        | none => value)

def tryWithResources (n : Node) : Binding Unit :=
  withBlock <| n.namedChildren.forM fun c =>
    if c.kind == .resourceSpecification then c.namedChildren.forM (resource sub)
    else discard (sub (.statement c))

def forStatement (n : Node) : Binding Unit :=
  withBlock do
    statements sub (n.childrenIn .init)
    discard (expression? sub (n.child? .condition))
    discard (expressions sub (n.childrenIn .update))
    statement? sub (n.child? .body)

def ifStatement (n : Node) : Binding Unit := do
  discard (expression? sub (n.child? .condition))
  statement? sub (n.child? .consequence)
  statement? sub (n.child? .alternative)

def explicitConstructorCall (n : Node) : Binding Unit := do
  discard (expression? sub (n.child? .object))
  discard (arguments sub (n.child? .arguments))

def statement (n : Node) : Binding Unit :=
  match n.kind with
  | .block | .constructorBody => withBlock (statements sub n.namedChildren)
  | .localVariables => localVariables sub n
  | .expressionStatement | .parenthesized => discard (expressions sub n.namedChildren)
  | .ifStatement => ifStatement sub n
  | .forStatement => forStatement sub n
  | .enhancedFor => enhancedFor sub n
  | .catchClause => catchClause sub n
  | .tryWithResources => tryWithResources sub n
  | .labeledStatement => statements sub (n.namedChildren.filter (·.kind != .identifier))
  | .breakStatement | .continueStatement => pure ()
  | .explicitConstructorCall => explicitConstructorCall sub n
  | .tryStatement | .finallyClause | .whileStatement | .doStatement | .returnStatement
  | .throwStatement | .yieldStatement | .synchronizedStatement | .assertStatement =>
    n.namedChildren.forM (statementOrExpression sub)
  | kind =>
    if kind.isTypeDeclaration then discard (sub (.typeDeclaration n true))
    else discard (expression sub n)

end Renaming.Java.Binding
