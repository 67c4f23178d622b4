import Renaming.Java.Binding.Statements

/-!
# Declarations

Names that declare types and members, and the annotations in front of them. The declarations
themselves were indexed before; they are found again by where they start.
-/

namespace Renaming.Java.Binding

variable (sub : Task → Binding Meaning)

/-! ## Annotations -/

def elementValue (n : Node) : Binding Unit := do
  if n.kind.isAnnotated then discard (sub (.annotated n))
  else if n.kind == .elementArray then
    n.namedChildren.forM fun c => discard (sub (.elementValue c))
  else discard (expression sub n)

def elementValue? (n : Option Node) : Binding Unit :=
  match n with
  | none => pure ()
  | some n => discard (sub (.elementValue n))

/-- The name of an element, bound to the method that declares it. -/
def elementKey (binary : String) (key : Node) : Binding Unit := do
  let name ← text key
  let found := ((← read).index.findMethods binary name).find? fun (_, m) =>
    m.descriptor.params.isEmpty
  match found with
  | some (owner, m) => emitMethod key owner m
  | none => unresolved key ("cannot resolve element " ++ name ++ " of " ++ binary)

/-- An argument of an annotation, whose type may be unknown. -/
def elementArgument (binary : Option String) (n : Node) : Binding Unit := do
  match binary with
  | none => elementValue? sub (some ((n.child? .value).getD n))
  | some binary =>
    if n.kind == .elementPair then
      match n.child? .key with
      | some key => elementKey binary key
      | none => pure ()
      elementValue? sub (n.child? .value)
    else elementValue? sub (some n)

def annotated (n : Node) : Binding Unit := do
  match n.child? .name with
  | none => pure ()
  | some name =>
    let binary ← nameAsType name
    if binary.isNone then unresolved name ("cannot resolve annotation " ++ (← text name))
    (((n.child? .arguments).map Node.namedChildren).getD []).forM (elementArgument sub binary)

def typeParameters (n : Node) : Binding (List TypeParameter) := do
  let params ← naming (·.parametersOf n)
  (((n.child? .typeParameters).map Node.namedChildren).getD []).forM (annotations sub)
  return params

/-! ## Methods -/

/-- The name and the type of a parameter. -/
def parameterParts? (n : Node) : Option (Option Node × Option Node) :=
  match n.kind with
  | .formalParameter => some (n.child? .name, n.child? .type)
  | .spreadParameter =>
    some ((n.childOfKind? .variableDeclarator).bind (·.child? .name),
      n.namedChildren.find? (·.kind.isType))
  | _ => none

/-- Binds the parameters of a method. Where its header is unknown they have the written types. -/
def parameters (n : Node) (method : Option Signature) (known : List GenericType) : Binding Unit :=
  let parts := n.namedChildren.filterMap fun p => (parameterParts? p).map fun parts => (p, parts)
  parts.zipIdx.forM fun ((p, name, type), i) => do
    annotations sub p
    let written ← typeNode? type
    let written := if p.kind == .spreadParameter then written.map (·.withDims 1) else written
    match name with
    | none => pure ()
    | some name =>
      let signature := method.map (Signature.ofParameter · i)
      match signature with
      | some s => emit name s .parameter
      | none => pure ()
      bind
        { name := ← text name
          signature
          kind := .parameter
          type := .ofOption (known[i]?.or written) }

/-- The components of a record are the parameters of its compact constructor. -/
def implicitParameters (components : Option Node) (method : Option Signature)
    (known : List GenericType) : Binding Unit :=
  let names := ((components.map Node.namedChildren).getD []).filterMap (·.child? .name)
  names.zipIdx.forM fun (name, i) => do
    bind
      { name := ← text name
        signature := method.map (Signature.ofParameter · i)
        kind := .parameter
        type := .ofOption known[i]? }

def methodName (n name : Node) (declared : Option (String × MethodDeclaration)) :
    Binding Unit := do
  match declared with
  | some (owner, m) => if m.isConstructor then emitType name owner else emitMethod name owner m
  | none =>
    if n.kind != .methodDeclaration then discard (nameAsType name)
    let owner := (← currentClass?).getD ""
    unresolved name
      ("cannot resolve signature of method " ++ (← text name) ++ " in " ++ owner)

def methodBody (n : Node) (components : Option Node)
    (declared : Option (String × MethodDeclaration)) : Binding Unit :=
  let signature := declared.map fun (owner, m) => m.signature owner
  let known := (declared.map fun (_, m) => m.genericParams).getD []
  withMethod signature <| withBlock do
    match n.child? .parameters with
    | some params => parameters sub params signature known
    | none => pure ()
    if n.kind == .compactConstructor then implicitParameters components signature known
    statement? sub (n.child? .body)

def method (n : Node) (components : Option Node) : Binding Unit := do
  let declared := (← read).unit.methods.get? n.start
  annotations sub n
  let params ← typeParameters sub n
  withTypeFrame (.typeVars params) do
    discard (typeNode? ((n.child? .type).filter (·.kind != .voidType)))
    match n.child? .name with
    | some name => methodName n name declared
    | none => pure ()
    typeNodes (((n.childOfKind? .throwsClause).map Node.namedChildren).getD [])
    methodBody sub n components declared

/-! ## Members -/

/-- The method that initializers belong to. -/
def initializerSignature (binary : String) (isStatic : Bool) : Signature :=
  binary ++ "." ++ (if isStatic then "<clinit>" else "<instinit>") ++ "()V"

def fields (n : Node) (binary : String) (inInterface : Bool) : Binding Unit := do
  annotations sub n
  let type ← typeNode? (n.child? .type)
  let isStatic := inInterface || n.hasModifier "static"
  withMethod (some (initializerSignature binary isStatic)) <|
    (n.childrenIn .declarator).forM fun d => do
      match d.child? .name with
      | some name => emitField name binary (← text name)
      | none => pure ()
      match d.child? .value with
      | some value =>
        let dims ← dims d
        discard (sub (.initializer value (type.map (·.withDims dims))))
      | none => pure ()

def enumConstant (n : Node) (binary : String) : Binding Unit := do
  annotations sub n
  match n.child? .name with
  | some name => emitField name binary (← text name)
  | none => pure ()
  withMethod (some (initializerSignature binary true)) <|
    discard (arguments sub (n.child? .arguments))
  match n.child? .body with
  | some body => discard (anonymousBody sub body)
  | none => pure ()

def annotationElement (n : Node) (binary : String) : Binding Unit := do
  annotations sub n
  let type ← typeNode? (n.child? .type)
  match n.child? .name with
  | none => pure ()
  | some name =>
    let element ← text name
    let declared := ((← read).index.get? binary).bind fun d =>
      d.methods.find? (·.name == element)
    match declared with
    | some m => emitMethod name binary m
    | none => if type.isSome then unresolved name ("cannot resolve element " ++ element)
  elementValue? sub (n.child? .value)

def initializerBlock (block : Option Node) (binary : String) (isStatic : Bool) : Binding Unit :=
  withMethod (some (initializerSignature binary isStatic)) (statement? sub block)

def member (binary : String) (inInterface : Bool) (components : Option Node) (n : Node) :
    Binding Unit :=
  match n.kind with
  | .fieldDeclaration | .constantDeclaration => fields sub n binary inInterface
  | .methodDeclaration | .constructorDeclaration | .compactConstructor => method sub n components
  | .staticInitializer => initializerBlock sub (n.childOfKind? .block) binary true
  | .block => initializerBlock sub (some n) binary false
  | .enumConstant => enumConstant sub n binary
  | .enumBodyDeclarations => discard (sub (.classBody n binary none))
  | .annotationElement => annotationElement sub n binary
  | kind => if kind.isTypeDeclaration then discard (sub (.typeDeclaration n false)) else pure ()

def classBody (n : Node) (binary : String) (components : Option Node) : Binding Unit := do
  let inInterface := ((← read).index.get? binary).any fun d => d.kind.isInterface
  n.namedChildren.forM (member sub binary inInterface components)

/-- A component of a record: a field, or else the method that reads it. -/
def recordComponent (binary : String) (n : Node) : Binding Unit := do
  annotations sub n
  let type ← typeNode? (n.child? .type)
  match n.child? .name with
  | none => pure ()
  | some name =>
    let field ← text name
    let accessor := type.map fun t => Signature.ofMethod binary field ⟨[], some t.erasure⟩
    emitWith name.span (.ofField binary field) .field accessor.toList

/-! ## Types -/

/-- Whether a node lists supertypes or permitted subtypes. -/
def listsTypes (n : Node) : Bool :=
  n.kind == .superclass || n.kind == .superInterfaces || n.kind == .extendsInterfaces ||
    n.kind == .permits

def typeBody (n : Node) (binary : String) : Binding Unit :=
  withClass binary do
    let components := if n.kind == .recordDeclaration then n.child? .parameters else none
    ((components.map Node.namedChildren).getD []).forM (recordComponent sub binary)
    match n.child? .body with
    | some body => discard (sub (.classBody body binary components))
    | none => pure ()

def typeDeclaration (n : Node) (inBlock : Bool) : Binding Unit := do
  match (← read).unit.types.get? n.start with
  | none => pure ()
  | some binary =>
    annotations sub n
    match n.child? .name with
    | none => pure ()
    | some name =>
      if inBlock then
        let simple ← text name
        modify fun s => { s with scope := s.scope.addLocalType simple binary }
      emitType name binary
    let params ← typeParameters sub n
    withTypeFrame (.typeVars params) do
      (n.namedChildren.filter listsTypes).forM fun c =>
        typeNodes ((c.childOfKind? .typeList).getD c).namedChildren
      typeBody sub n binary

/-! ## Units -/

/-- A field, or all methods, of the name that a static import ends in. -/
def staticMember (n : Node) (owner : String) : Binding Unit := do
  let index := (← read).index
  let name ← text n
  match index.findField? owner name with
  | some (declaring, _) => emitField n declaring name
  | none =>
    let methods := (index.findMethods owner name).filter fun (_, m) => m.isStatic
    match methods.map fun (declaring, m) => m.signature declaring with
    | first :: rest => emitWith n.span first .method rest
    | [] => unresolved n ("cannot resolve static member " ++ name ++ " of " ++ owner)

def importDeclaration (n : Node) : Binding Unit := do
  match ImportNode.ofNode? n with
  | none => pure ()
  | some ⟨path, isStatic, onDemand⟩ =>
    let index := (← read).index
    let segments := nameNodes path
    let written ← text path
    let unknown := unresolved path ("cannot resolve import " ++ written)
    if isStatic && !onDemand then
      match segments.getLast? with
      | none => pure ()
      | some member =>
        match ← qualifiedPath segments.dropLast with
        | some owner => staticMember member owner
        | none => unknown
    else
      let names ← segments.mapM text
      if onDemand && !isStatic && index.isPackage (Text.join "." names) then pure ()
      else if (← qualifiedPath segments).isNone then unknown

end Renaming.Java.Binding
