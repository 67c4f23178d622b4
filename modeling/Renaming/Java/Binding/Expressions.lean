import Renaming.Java.Binding.State
import Renaming.Java.Overload

/-!
# Expressions

The types of expressions, and the symbols of the names in them. The front of an access is a variable
if there is one, else a type, else a package. A lambda is walked once the method that it is passed
to is chosen, because that method types its parameters. Operators take boxed values for what they
hold.
-/

namespace Renaming.Java

/-! ## Operators -/

namespace ExprType

/-- The primitive type of a value, or the one that it holds. A type variable stands for neither,
even if its bound is primitive. -/
def unboxed? : ExprType → Option Primitive
  | value (.prim p) => some p
  | value t => t.erasure.unboxed?
  | _ => none

def boolean : ExprType := prim .boolean

def string : ExprType := erased .stringClass

/-- The type in which two numbers meet. -/
def promote (a b : ExprType) : ExprType :=
  match a.unboxed?, b.unboxed? with
  | some p, some q =>
    if p == .double || q == .double then prim .double
    else if p == .float || q == .float then prim .float
    else if p == .long || q == .long then prim .long
    else if p == .boolean then boolean
    else prim .int
  | _, _ => unknown

/-- The type of a choice between two values. -/
def conditional (a b : ExprType) : ExprType :=
  if a = b then a
  else
    match a, b with
    | null, b => b
    | a, null => a
    | a, b =>
      if a.unboxed?.any Primitive.isNumeric && b.unboxed?.any Primitive.isNumeric then promote a b
      else
        match a with
        | value t => value t
        | _ => b

/-- The type of a unary operation. -/
def ofUnary (operator : String) (operand : ExprType) : ExprType :=
  if operator == "!" then boolean else promote operand (prim .int)

def comparisons : List String := ["==", "!=", "<", ">", "<=", ">=", "&&", "||"]

/-- The type of a binary operation. -/
def ofBinary (operator : String) (left right : ExprType) : ExprType :=
  if comparisons.contains operator then boolean
  else if operator == "+" && (left == string || right == string) then string
  else if ["<<", ">>", ">>>"].contains operator then promote left (prim .int)
  else if ["&", "|", "^"].contains operator && left.unboxed? == some .boolean &&
      right.unboxed? == some .boolean then boolean
  else promote left right

/-- The type of a literal by its kind and its text; null is told apart elsewhere. -/
def ofLiteral (isInteger : Bool) (text : String) : ExprType :=
  let last := text.toList.getLast?
  if isInteger then prim (if last == some 'l' || last == some 'L' then .long else .int)
  else prim (if last == some 'f' || last == some 'F' then .float else .double)

end ExprType

/-! ## Calls -/

/-- The declared type of the parameter that takes an argument. Where any number of arguments is
taken, one that is no array goes to the element type. -/
def parameterFor? (params : List GenericType) (i : Nat) (varargs isArray : Bool) :
    Option GenericType :=
  if varargs && params.length ≤ i + 1 then
    match params.getLast? with
    | some (.array element) =>
      if !isArray || params.length < i + 1 then some element else some (.array element)
    | last => last
  else params[i]?

/-- What the type variables in the header of a method stand for in a call: those of the class by the
receiver, then its own by explicit arguments or by the types of the arguments. -/
def callBindings (index : TypeIndex) (receiver : Option GenericType) (owner : String)
    (m : MethodDeclaration) (explicit : List GenericType) (args : List ExprType) : Bindings :=
  let vars := m.typeParams
  let ofClass : Bindings :=
    match receiver with
    | some r => if m.isStatic then {} else index.memberBindings r owner
    | none => {}
  let ofClass := vars.foldl (fun b v => b.erase v.name) ofClass
  let extend (bindings : Bindings) (entries : List (String × GenericType)) : Bindings :=
    entries.foldl (fun b (name, t) => b.insert name t) bindings
  if vars.isEmpty then ofClass
  else if explicit.length == vars.length then
    extend ofClass ((vars.map TypeParameter.name).zip explicit)
  else
    let params := m.genericParams
    let own := (args.zipIdx).foldl (fun own (arg, i) =>
      match arg with
      | .value t =>
        let isArray := match t with
          | .array _ => true
          | _ => false
        match parameterFor? params i m.isVarargs isArray with
        | some p => index.infer vars (p.subst ofClass) t own
        | none => own
      | _ => own) ({} : Bindings)
    extend ofClass own.entries

/-- The type of what a loop over a value visits. -/
def elementType? (index : TypeIndex) : GenericType → Option GenericType
  | .array element => some element
  | t => (index.asSuper? t "java.lang.Iterable").map fun args =>
    (args.head?.bind TypeArgument.bound?).getD .objectClass

namespace Binding

variable (sub : Task → Binding Meaning)

def expression (n : Node) : Binding ExprType := return (← sub (.expression n)).exprType

def expression? (n : Option Node) : Binding ExprType :=
  match n with
  | none => pure .unknown
  | some n => expression sub n

def expressions (nodes : List Node) : Binding (List ExprType) := nodes.mapM (expression sub)

/-- The arguments of a call; everything with a name of its own between the brackets counts. -/
def arguments (n : Option Node) : Binding (List ExprType) :=
  expressions sub ((n.map Node.namedChildren).getD [])

def annotations (n : Node) : Binding Unit :=
  n.namedChildren.forM fun c => do
    if c.kind == .modifiers then
      (c.namedChildren.filter (·.kind.isAnnotated)).forM fun a => discard (sub (.annotated a))
    else if c.kind.isAnnotated then
      discard (sub (.annotated c))

/-! ## Names and accesses -/

def simpleName (n : Node) : Binding Meaning := do
  let name ← text n
  match ← variableNamed? name with
  | some v => return .value (← useVariable n v)
  | none =>
    let index := (← read).index
    match (← get).scope.resolveSimple? index name with
    | some (.type binary) =>
      emitType n binary
      return .type binary
    | _ =>
      if index.isPackage name then return .package name n.start
      unresolved n ("cannot resolve name " ++ name)
      return .unknown

def fieldOfValue (type : ExprType) (field : Node) (name : String) : Binding Meaning := do
  let index := (← read).index
  match type with
  | .value receiver =>
    match receiver, name with
    | .array _, "length" => return .value (.prim .int)
    | _, _ =>
      match receiver.className? with
      | none => return .unknown
      | some binary =>
        match index.findField? binary name with
        | some (owner, f) =>
          emitField field owner name
          return .value (.value (fieldTypeThrough index (some receiver) owner f))
        | none =>
          unresolved field ("cannot resolve field " ++ name ++ " of " ++ binary)
          return .unknown
  | _ => return .unknown

def memberOfType (owner : String) (field : Node) (name : String) : Binding Meaning := do
  let index := (← read).index
  match index.findField? owner name with
  | some (declaring, f) =>
    emitField field declaring name
    return .value (.value f.genericType)
  | none =>
    match index.memberType? owner name with
    | some member =>
      emitType field member
      return .type member
    | none =>
      unresolved field ("cannot resolve " ++ name ++ " in " ++ owner)
      return .unknown

def memberOfPackage (package : String) (start : Nat) (field : Node) (name : String) :
    Binding Meaning := do
  let index := (← read).index
  match index.topLevel? package name with
  | some binary =>
    emitWith ⟨start, field.stop⟩ (.ofType binary) .type []
    return .type binary
  | none =>
    let nested := package ++ "." ++ name
    if index.isPackage nested then return .package nested start
    diagnose start .unresolved ("cannot resolve name " ++ nested)
    return .unknown

/-- The type around a place, named in front of `this`. -/
def outerThis (object : Node) : Binding Meaning := do
  match ← sub (.name object) with
  | .type outer => return .value (.value ((← read).index.thisType outer))
  | _ => return .unknown

def fieldAccess (n : Node) : Binding Meaning := do
  match n.child? .object, n.child? .field with
  | some object, some field =>
    if field.kind == .this then outerThis sub object
    else
      let name ← text field
      match ← sub (.name object) with
      | .value type => fieldOfValue type field name
      | .type owner => memberOfType owner field name
      | .package package start => memberOfPackage package start field name
      | .unknown => return .unknown
  | _, _ => return .unknown

/-- What may stand in front of a dot. -/
def nameOf (n : Node) : Binding Meaning :=
  match n.kind with
  | .identifier => simpleName n
  | .fieldAccess => fieldAccess sub n
  | _ => return .value (← expression sub n)

/-! ## Calls -/

/-- Where the candidates of a call are declared, and the value that they are reached through. -/
structure CallTarget where
  owners : List String
  receiver : Option GenericType

def CallTarget.ofValue? (t : GenericType) : Option CallTarget :=
  t.className?.map fun binary => ⟨[binary], some t⟩

/-- Drops what repeats the element before it. -/
def dropRepeated : List String → List String
  | a :: b :: rest => if a == b then dropRepeated (b :: rest) else a :: dropRepeated (b :: rest)
  | l => l

/-- The types whose imported static methods a call may mean. -/
def importedMethodOwners (index : TypeIndex) (imports : Imports) (method : String) : List String :=
  dropRepeated ((staticOwners imports method).filter fun owner =>
    (index.findMethods owner method).any fun (_, m) => m.isStatic)

/-- The target of a call without a qualifier: the innermost class with such a method, else the
static imports. -/
def unqualifiedTarget (method : String) : Binding CallTarget := do
  let index := (← read).index
  let scope := (← get).scope
  match scope.enclosingClasses.find? fun c => !(index.findMethods c method).isEmpty with
  | some binary => return ⟨[binary], some (index.thisType binary)⟩
  | none => return ⟨importedMethodOwners index scope.header.imports method, none⟩

def callTarget (method : String) (object : Option Node) : Binding (Option CallTarget) := do
  match object with
  | none => return some (← unqualifiedTarget method)
  | some object =>
    if object.kind == .super then
      let index := (← read).index
      return ((← currentClass?).bind (superType? index)).bind CallTarget.ofValue?
    else
      match ← sub (.name object) with
      | .value t => return t.value?.bind CallTarget.ofValue?
      | .type owner => return some ⟨[owner], none⟩
      | .package package _ =>
        unresolved object ("cannot resolve name " ++ package)
        return none
      | .unknown => return none

def explicitArguments (n : Node) : Binding (List GenericType) := do
  match n.child? .typeArguments with
  | none => return []
  | some arguments =>
    let arguments ← naming (·.typeArguments arguments)
    return arguments.map fun a => a.bound?.getD .objectClass

/-- The types of arguments; lambdas wait. -/
def argumentTypes (nodes : List Node) : Binding (List ExprType) :=
  nodes.mapM fun n => if n.kind == .lambda then pure .unknown else expression sub n

/-- The lambdas among arguments, with their places. -/
def lambdasOf (nodes : List Node) : List (Node × Nat) :=
  nodes.zipIdx.filter fun (n, _) => n.kind == .lambda

def untypedLambdas (lambdas : List (Node × Nat)) : Binding Unit :=
  lambdas.forM fun (n, _) => discard (sub (.lambda n []))

/-- Walks a lambda that is passed to a method. The body of a lambda may settle type variables of the
method. -/
def typedLambda (m : MethodDeclaration) (bindings : Bindings) (lambda : Node × Nat) :
    Binding Bindings := do
  let index := (← read).index
  let function := (parameterFor? m.genericParams lambda.2 m.isVarargs false).bind fun p =>
    index.functionType? (p.subst bindings)
  let (inputs, output) := function.getD ([], none)
  let body := (← sub (.lambda lambda.1 inputs)).exprType
  match output, body with
  | some output, .value body =>
    let inferred := index.infer m.typeParams output body {}
    return inferred.entries.foldl (fun b (name, t) => b.insertIfNew name t) bindings
  | _, _ => return bindings

def chosenCall (name : Node) (receiver : Option GenericType) (owner : String)
    (m : MethodDeclaration) (explicit : List GenericType) (args : List ExprType)
    (lambdas : List (Node × Nat)) : Binding ExprType := do
  emitMethod name owner m
  let start := callBindings (← read).index receiver owner m explicit args
  let bindings ← lambdas.foldlM (typedLambda sub m) start
  return .ofOption (m.genericRet.map (·.subst bindings))

def methodInvocation (n : Node) : Binding ExprType := do
  match n.child? .name with
  | none => return .unknown
  | some name =>
    let index := (← read).index
    let method ← text name
    let target ← callTarget sub method (n.child? .object)
    let explicit ← explicitArguments n
    let nodes := ((n.child? .arguments).map Node.namedChildren).getD []
    let args ← argumentTypes sub nodes
    let lambdas := lambdasOf nodes
    match target with
    | none =>
      untypedLambdas sub lambdas
      return .unknown
    | some ⟨owners, receiver⟩ =>
      let candidates := owners.flatMap fun owner => index.findMethods owner method
      match index.selectOverload (candidates.map Prod.snd) args with
      | .found i =>
        match candidates[i]? with
        | some (owner, m) => chosenCall sub name receiver owner m explicit args lambdas
        | none => return .unknown
      | .ambiguous all =>
        untypedLambdas sub lambdas
        diagnose name.start .ambiguous
          ("ambiguous call to " ++ method ++ " (" ++ toString all.length ++ " candidates)")
        return .unknown
      | .noMatch =>
        untypedLambdas sub lambdas
        unresolved name
          ("cannot resolve method " ++ method ++ " in " ++ (owners.head?.getD ""))
        return .unknown

/-! ## Creation, lambdas and references to methods -/

def anonymousBody (body : Node) : Binding (Option String) := do
  match (← read).unit.types.get? body.start with
  | none => return none
  | some binary =>
    withClass binary (discard (sub (.classBody body binary none)))
    return some binary

/-- The last of the expressions in front of the type of a new object. -/
def creationQualifier (n : Node) : Binding (Option ExprType) := do
  let front := n.namedChildren.takeWhile fun c => c.role != some .type
  let types ← expressions sub (front.filter fun c => c.kind != .typeArguments)
  return types.getLast?

def createdType (type : Node) (qualifier : Option ExprType) : Binding (Option GenericType) := do
  let index := (← read).index
  let name ← text type
  let inner :=
    if type.kind == .typeIdentifier then
      (qualifier.bind ExprType.className?).bind fun c => index.memberType? c name
    else none
  match inner with
  | some binary =>
    emitType type binary
    return some (.raw binary)
  | none => typeNode type

def objectCreation (n : Node) : Binding ExprType := do
  let qualifier ← creationQualifier sub n
  let created ← match n.child? .type with
    | none => pure none
    | some type => createdType type qualifier
  discard (arguments sub (n.child? .arguments))
  let anonymous ← match n.childOfKind? .classBody with
    | none => pure none
    | some body => anonymousBody sub body
  match anonymous with
  | some binary => return .raw binary
  | none => return .ofOption created

/-- Declares the parameters of a lambda, whose types may be known from where it is passed. -/
def lambdaParameters (n : Node) (params : List GenericType) : Binding Unit := do
  let known (i : Nat) : ExprType := .ofOption params[i]?
  match n.kind with
  | .identifier => declareLocal n (known 0)
  | .inferredParameters =>
    (n.namedChildren.filter (·.kind == .identifier)).zipIdx.forM fun (p, i) =>
      declareLocal p (known i)
  | _ =>
    (n.namedChildren.filter (·.kind == .formalParameter)).zipIdx.forM fun (p, i) => do
      annotations sub p
      let type ← match p.child? .type with
        | none => pure (known i)
        | some t => if ← isInferred t then pure (known i) else do
          let written ← typeNode t
          pure (.ofOption written)
      match p.child? .name with
      | some name => declareLocal name type
      | none => pure ()

/-- Walks a lambda and gives the type of a body that is an expression. -/
def lambda (n : Node) (params : List GenericType) : Binding ExprType :=
  withBlock do
    match n.child? .parameters with
    | some list => lambdaParameters sub list params
    | none => pure ()
    match n.child? .body with
    | none => return .unknown
    | some body =>
      if body.kind == .block then
        discard (sub (.statement body))
        return .unknown
      else expression sub body

/-- The type whose method a reference means. -/
def referenceOwner (target : Node) : Binding (Option String) := do
  if target.kind == .super then
    let index := (← read).index
    return ((← currentClass?).bind index.get?).bind TypeDeclaration.superclass
  else if target.kind.isType then
    match ← typeNode target with
    | some (.object binary _) => return some binary
    | _ => return none
  else
    match ← sub (.name target) with
    | .value t => return t.className?
    | .type binary => return some binary
    | _ => return none

def methodReference (n : Node) : Binding Unit := do
  match n.namedChildren with
  | [] => pure ()
  | target :: rest =>
    let owner ← referenceOwner sub target
    match rest.reverse.find? (·.kind == .identifier), owner with
    | some name, some owner =>
      let method ← text name
      match (← read).index.findMethods owner method with
      | [(declaring, m)] => emitMethod name declaring m
      | [] => unresolved name ("cannot resolve method " ++ method ++ " in " ++ owner)
      | many =>
        diagnose name.start .ambiguous
          ("ambiguous method reference " ++ method ++ " (" ++ toString many.length ++
            " candidates)")
    | _, _ => pure ()

/-! ## Switches and patterns -/

/-- The enum that a switch chooses from. -/
def enumOf? (index : TypeIndex) (selector : ExprType) : Option String :=
  selector.className?.filter fun c => (index.get? c).any (·.kind == .enum)

def switchLabelPart (enum : Option String) (n : Node) : Binding Unit := do
  match n.kind with
  | .identifier =>
    let index := (← read).index
    let name ← text n
    match enum.bind fun owner => index.findField? owner name with
    | some (declaring, _) => emitField n declaring name
    | none => discard (expression sub n)
  | .pattern | .typePattern | .recordPattern => discard (sub (.pattern n))
  | .guard => discard (expressions sub n.namedChildren)
  | _ => discard (expression sub n)

/-- A statement, or else an expression. -/
def statementOrExpression (n : Node) : Binding Unit :=
  if n.kind.isStatement then discard (sub (.statement n)) else discard (expression sub n)

def switch (n : Node) : Binding Unit := do
  let selector ← expression? sub (n.child? .condition)
  let enum := enumOf? (← read).index selector
  match n.child? .body with
  | none => pure ()
  | some body =>
    body.namedChildren.forM fun group =>
      withBlock <| group.namedChildren.forM fun c => do
        if c.kind == .switchLabel then
          c.namedChildren.forM (switchLabelPart sub enum)
        else statementOrExpression sub c

/-- The type and the variable of a pattern. -/
def typePattern (n : Node) : Binding Unit := do
  let type ← typeNode? (n.namedChildren.find? (·.kind.isType))
  match n.namedChildren.reverse.find? (·.kind == .identifier) with
  | some name => declareLocal name (.ofOption type)
  | none => pure ()

def patterns (nodes : List Node) : Binding Unit := nodes.forM fun n => discard (sub (.pattern n))

def recordPatternPart (n : Node) : Binding Unit := do
  if n.kind == .identifier then
    match ← nameAsType n with
    | some _ => pure ()
    | none => unresolved n ("cannot resolve type " ++ (← text n))
  else if n.kind.isType then discard (typeNode n)
  else discard (sub (.pattern n))

def pattern (n : Node) : Binding Unit :=
  match n.kind with
  | .pattern | .recordPatternBody => patterns sub n.namedChildren
  | .recordPatternComponent =>
    if (n.childOfKind? .recordPattern).isSome then patterns sub n.namedChildren else typePattern n
  | .typePattern => typePattern n
  | .recordPattern => n.namedChildren.forM (recordPatternPart sub)
  | kind => if kind.isType then discard (typeNode n) else pure ()

/-! ## Expressions -/

def castExpression (n : Node) : Binding ExprType := do
  let types ← (n.childrenIn .type).mapM typeNode
  discard (expression? sub (n.child? .value))
  return .ofOption (types.findSome? id)

def instanceofExpression (n : Node) : Binding ExprType := do
  discard (expression? sub (n.child? .left))
  let type ← typeNode? (n.child? .right)
  match n.child? .name with
  | some name => declareLocal name (.ofOption type)
  | none => pure ()
  match n.child? .pattern with
  | some p => discard (sub (.pattern p))
  | none => pure ()
  return .boolean

def arrayAccess (n : Node) : Binding ExprType := do
  let array ← expression? sub (n.child? .array)
  discard (expression? sub (n.child? .index))
  match array with
  | .value (.array element) => return .value element
  | _ => return .unknown

def arrayCreation (n : Node) : Binding ExprType := do
  let element ← typeNode? (n.child? .type)
  let counts ← (n.childrenIn .dimensions).mapM fun d => do
    if d.kind == .dimensionsExpression then
      discard (expressions sub d.namedChildren)
      return 1
    else return (← read).unit.unit.source.dimensionCount (some d)
  let type := element.map fun t => t.withDims (max (counts.foldl (· + ·) 0) 1)
  match n.child? .value with
  | some value => discard (sub (.initializer value type))
  | none => pure ()
  return .ofOption type

/-- The type of the last of several expressions. -/
def lastExpression (nodes : List Node) : Binding ExprType :=
  return (← expressions sub nodes).getLast?.getD .unknown

def binaryExpression (n : Node) : Binding ExprType := do
  let left ← expression? sub (n.child? .left)
  let right ← expression? sub (n.child? .right)
  let operator := ((n.child? .operator).map Node.leafText).getD ""
  return .ofBinary operator left right

def unaryExpression (n : Node) : Binding ExprType := do
  let operand ← expression? sub (n.child? .operand)
  let operator := ((n.child? .operator).map Node.leafText).getD ""
  return .ofUnary operator operand

def conditionalExpression (n : Node) : Binding ExprType := do
  discard (expression? sub (n.child? .condition))
  let a ← expression? sub (n.child? .consequence)
  let b ← expression? sub (n.child? .alternative)
  return .conditional a b

def assignment (n : Node) : Binding ExprType := do
  let left ← expression? sub (n.child? .left)
  discard (expression? sub (n.child? .right))
  return left

/-- A name that must be a variable. -/
def variableName (n : Node) : Binding ExprType := do
  let name ← text n
  match ← variableNamed? name with
  | some v => useVariable n v
  | none =>
    unresolved n ("cannot resolve name " ++ name)
    return .unknown

def expressionType (n : Node) : Binding ExprType := do
  let index := (← read).index
  match n.kind with
  | .identifier => variableName n
  | .this => return .ofOption ((← currentClass?).map index.thisType)
  | .super => return .ofOption ((← currentClass?).bind (superType? index))
  | .fieldAccess => return (← sub (.name n)).exprType
  | .methodInvocation => methodInvocation sub n
  | .objectCreation => objectCreation sub n
  | .decimalInteger | .hexInteger | .octalInteger | .binaryInteger =>
    return .ofLiteral true (← text n)
  | .decimalFloat | .hexFloat => return .ofLiteral false (← text n)
  | .trueLiteral | .falseLiteral => return .boolean
  | .characterLiteral => return .prim .char
  | .stringLiteral => return .string
  | .nullLiteral => return .null
  | .parenthesized | .updateExpression => lastExpression sub n.namedChildren
  | .binaryExpression => binaryExpression sub n
  | .unaryExpression => unaryExpression sub n
  | .assignment => assignment sub n
  | .castExpression => castExpression sub n
  | .instanceofExpression => instanceofExpression sub n
  | .conditional => conditionalExpression sub n
  | .arrayAccess => arrayAccess sub n
  | .arrayCreation => arrayCreation sub n
  | .arrayInitializer => return (← sub (.initializer n none)).exprType
  | .classLiteral =>
    discard (typeNode? (n.namedChildren.find? (·.kind.isType)))
    return .raw "java.lang.Class"
  | .lambda =>
    discard (sub (.lambda n []))
    return .unknown
  | .methodReference =>
    methodReference sub n
    return .unknown
  | .switchExpression =>
    switch sub n
    return .unknown
  | kind =>
    if kind.isType then discard (typeNode n)
    else n.namedChildren.forM fun c => discard (sub (.statement c))
    return .unknown

/-- A value for a variable. A lambda and an array initializer take the type that is expected. -/
def initializer (n : Node) (expected : Option GenericType) : Binding ExprType := do
  match n.kind with
  | .lambda =>
    let function := expected.bind (← read).index.functionType?
    discard (sub (.lambda n ((function.map Prod.fst).getD [])))
    return .ofOption expected
  | .arrayInitializer =>
    let inner := match expected with
      | some (.array element) => some element
      | _ => none
    n.namedChildren.forM fun c => discard (sub (.initializer c inner))
    return .ofOption expected
  | _ => expression sub n

end Binding

end Renaming.Java
