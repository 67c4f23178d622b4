import Renaming.Occurrence
import Renaming.Java.Declared
import Renaming.Java.Inference

/-!
# The state of a binding

Binding walks a unit in the order of its text and gives every name the symbol that it stands for.
This module holds what is known on the way: the variables in scope, the methods around the current
place, and what has been found so far.
-/

namespace Renaming.Java

/-- A parameter or a local variable. Those of a method without a known signature have none, and
their uses are not reported. -/
structure Variable where
  name : String
  signature : Option Signature
  kind : SymbolKind
  type : ExprType

inductive VariableFrame where
  /-- The variables of a block, the last one first. -/
  | block (declared : List Variable)
  | classBody (binary : String)

/-- What a name stands for. -/
inductive Meaning where
  | value (type : ExprType)
  | type (binary : String)
  /-- A package, and where its first segment starts. -/
  | package (name : String) (start : Nat)
  | unknown

namespace Meaning

def exprType : Meaning → ExprType
  | value t => t
  | _ => .unknown

/-- What there is to say about something that is no expression. -/
def done : Meaning := .value .unknown

end Meaning

/-- What stays the same throughout a unit. -/
structure BindingContext where
  index : TypeIndex
  unit : DeclaredUnit

structure BindingState where
  scope : TypeScope
  /-- The innermost frame first. -/
  frames : List VariableFrame := []
  /-- The signatures of the methods around, the innermost first. -/
  methods : List (Option Signature) := []
  /-- The methods and names of all locals declared so far. -/
  locals : List (Signature × String) := []
  /-- The last occurrence first. -/
  occurrences : List Occurrence := []
  /-- The last diagnostic first. -/
  diagnostics : List Diagnostic := []

abbrev Binding := ReaderT BindingContext (StateM BindingState)

/-- Steps of the walk that contain each other. -/
inductive Task where
  | expression (n : Node)
  /-- A name or an access whose front may be a variable, a type or a package. -/
  | name (n : Node)
  | statement (n : Node)
  | initializer (n : Node) (expected : Option GenericType)
  | lambda (n : Node) (params : List GenericType)
  | annotated (n : Node)
  | elementValue (n : Node)
  | pattern (n : Node)
  /-- A type declaration, in a block or not. -/
  | typeDeclaration (n : Node) (inBlock : Bool)
  /-- The body of a type, with the components of a record around it. -/
  | classBody (n : Node) (binary : String) (components : Option Node)

namespace Binding

/-! ## Findings -/

def text (n : Node) : Binding String := do return (← read).unit.unit.source.text n

def dims (n : Node) : Binding Nat := do
  return (← read).unit.unit.source.dimensionCount (n.child? .dimensions)

def emitWith (span : Span) (signature : Signature) (kind : SymbolKind)
    (fallbacks : List Signature) : Binding Unit :=
  modify fun s => { s with occurrences := ⟨span, signature, kind, fallbacks⟩ :: s.occurrences }

def emit (n : Node) (signature : Signature) (kind : SymbolKind) : Binding Unit :=
  emitWith n.span signature kind []

/-- A type at a node. -/
def emitType (n : Node) (binary : String) : Binding Unit := emit n (.ofType binary) .type

/-- A field at a node that has the name of the field. -/
def emitField (n : Node) (owner name : String) : Binding Unit :=
  emit n (.ofField owner name) .field

/-- A method; the methods that it overrides are asked about too. -/
def emitMethod (n : Node) (owner : String) (m : MethodDeclaration) : Binding Unit := do
  emitWith n.span (m.signature owner) .method ((← read).index.overridden owner m)

def diagnose (offset : Nat) (kind : DiagnosticKind) (message : String) : Binding Unit := do
  let unit := (← read).unit.unit.id
  modify fun s => { s with diagnostics := ⟨unit, offset, kind, message⟩ :: s.diagnostics }

def unresolved (n : Node) (message : String) : Binding Unit :=
  diagnose n.start .unresolved message

/-! ## Scopes -/

variable {α : Type}

def withTypeFrame (frame : TypeFrame) (act : Binding α) : Binding α := do
  modify fun s => { s with scope := s.scope.push frame }
  let a ← act
  modify fun s => { s with scope := s.scope.pop }
  pure a

def withVariableFrame (frame : VariableFrame) (act : Binding α) : Binding α := do
  modify fun s => { s with frames := frame :: s.frames }
  let a ← act
  modify fun s => { s with frames := s.frames.tail }
  pure a

def withBlock (act : Binding α) : Binding α :=
  withVariableFrame (.block []) (withTypeFrame (.block []) act)

def withClass (binary : String) (act : Binding α) : Binding α :=
  withVariableFrame (.classBody binary) (withTypeFrame (.classBody binary) act)

/-- Inside a method; a method without a known signature has none. -/
def withMethod (signature : Option Signature) (act : Binding α) : Binding α := do
  modify fun s => { s with methods := signature :: s.methods }
  let a ← act
  modify fun s => { s with methods := s.methods.tail }
  pure a

def currentClass? : Binding (Option String) := do return (← get).scope.currentClass?

/-! ## Variables -/

/-- Adds a variable to the innermost block. -/
def addVariable (v : Variable) : List VariableFrame → List VariableFrame
  | [] => []
  | .block declared :: rest => .block (v :: declared) :: rest
  | frame :: rest => frame :: addVariable v rest

def bind (v : Variable) : Binding Unit :=
  modify fun s => { s with frames := addVariable v s.frames }

/-- The signature of the next local of a name in a method. -/
def nextLocal (method : Signature) (name : String) : Binding Signature := do
  let ordinal := (← get).locals.countP (· == (method, name))
  modify fun s => { s with locals := (method, name) :: s.locals }
  pure (.ofLocal method name ordinal)

/-- Declares a local variable where its name stands. Outside of methods there are none. -/
def declareLocal (n : Node) (type : ExprType) : Binding Unit := do
  match (← get).methods with
  | [] => pure ()
  | method :: _ =>
    let name ← text n
    let signature ← method.mapM fun m => nextLocal m name
    match signature with
    | some s => emit n s .localVariable
    | none => pure ()
    bind { name, signature, kind := .localVariable, type }

/-- The type of a field of `owner`, read through a receiver or without one. -/
def fieldTypeThrough (index : TypeIndex) (receiver : Option GenericType) (owner : String)
    (f : FieldDeclaration) : GenericType :=
  match receiver with
  | some r =>
    if f.isStatic then f.genericType else f.genericType.subst (index.memberBindings r owner)
  | none => f.genericType

/-- What the name of a variable stands for. -/
inductive VariableRef where
  | variable (v : Variable)
  | field (owner : String) (type : GenericType)

def VariableFrame.find? (index : TypeIndex) (name : String) : VariableFrame → Option VariableRef
  | .block declared => (declared.find? (·.name == name)).map .variable
  | .classBody binary =>
    (index.findField? binary name).map fun (owner, f) =>
      .field owner (fieldTypeThrough index (some (index.thisType binary)) owner f)

/-- The types whose static members of a name are imported: single imports come first. -/
def staticOwners (imports : Imports) (name : String) : List String :=
  (imports.staticSingle.filter (·.2 == name)).map Prod.fst ++ imports.staticOnDemand

def importedField? (index : TypeIndex) (imports : Imports) (name : String) : Option VariableRef :=
  (staticOwners imports name).findSome? fun owner => do
    let (owner, f) ← index.findField? owner name
    if f.isStatic then some (.field owner f.genericType) else none

/-- The variable or field that a name stands for at this place. -/
def variableNamed? (name : String) : Binding (Option VariableRef) := do
  let index := (← read).index
  let s ← get
  return (s.frames.findSome? (VariableFrame.find? index name)).or
    (importedField? index s.scope.header.imports name)

/-- Reports the use of a variable and gives its type. -/
def useVariable (n : Node) : VariableRef → Binding ExprType
  | .variable v => do
    match v.signature with
    | some s => emit n s v.kind
    | none => pure ()
    pure v.type
  | .field owner type => do
    emitField n owner (← text n)
    pure (.value type)

/-! ## Types -/

def typeContext : Binding TypeContext := do
  let ctx ← read
  return ⟨ctx.index, ctx.unit.unit.source, (← get).scope⟩

/-- Reads types and reports what they mention, known types first. -/
def naming (act : TypeContext → Naming α) : Binding α := do
  let (a, uses) := (act (← typeContext)).run {}
  for m in uses.mentions do
    emitWith m.span (.ofType m.binary) .type []
  for (start, name) in uses.unresolved do
    diagnose start .unresolved ("cannot resolve type " ++ name)
  pure a

def typeNode (n : Node) : Binding (Option GenericType) := naming (·.typeOf n)

def typeNode? (n : Option Node) : Binding (Option GenericType) :=
  match n with
  | none => pure none
  | some n => typeNode n

/-- Reads the types among some nodes. -/
def typeNodes (nodes : List Node) : Binding Unit :=
  (nodes.filter (·.kind.isType)).forM fun n => do
    let _ ← typeNode n

/-- Whether a type asks for the type of the initializer. -/
def isInferred (n : Node) : Binding Bool := do
  if n.kind == .typeIdentifier && (← text n) == "var" then
    return ((← get).scope.resolveSimple? (← read).index "var").isNone
  else return false

/-- The superclass of a type with the arguments that it is extended with. -/
def superType? (index : TypeIndex) (binary : String) : Option GenericType := do
  let d ← index.get? binary
  let superclass ← d.superclass
  pure ((d.genericSupertypes.find? (·.className? == some superclass)).getD (.raw superclass))

def emitMentions (mentions : List TypeMention) : Binding Unit :=
  mentions.forM fun m => emitWith m.span (.ofType m.binary) .type []

/-- Reports what a dotted name mentions, and gives the type that it means. -/
def emitPath (mentions : Option (List TypeMention)) : Binding (Option String) := do
  match mentions with
  | none => pure none
  | some mentions =>
    emitMentions mentions
    pure (mentions.getLast?.map TypeMention.binary)

/-- A dotted name read without regard to scopes. -/
def qualifiedPath (segments : List Node) : Binding (Option String) := do
  let ctx ← typeContext
  emitPath do
    let (top, count) ← TypeScope.longestTopLevel? ctx.index 0 (segments.map ctx.text)
    ctx.qualifiedMentions? segments top count

/-- The names of a dotted name, in order. -/
def nameNodes : Node → List Node
  | .mk .identifier role span text children => [.mk .identifier role span text children]
  | .mk .scopedIdentifier _ _ _ children => nameNodesAll children
  | _ => []
where
  nameNodesAll : List Node → List Node
    | [] => []
    | c :: rest => nameNodes c ++ nameNodesAll rest

/-- A name that can only be a type. -/
def nameAsType (n : Node) : Binding (Option String) := do
  let ctx ← typeContext
  let segments := nameNodes n
  match segments.head? with
  | none => pure none
  | some first =>
    match ctx.scope.resolveSimple? ctx.index (ctx.text first) with
    | some (.type binary) =>
      emitPath ((ctx.memberMentions? binary segments.tail).map (⟨first.span, binary⟩ :: ·))
    | _ => if n.kind == .identifier then pure none else qualifiedPath segments

end Binding

end Renaming.Java
