import Renaming.Java.Declared.Site

/-!
# Members of declared types

Fields and methods with their erased descriptors. A method whose header names an unknown type is
left out, because its signature cannot be known; a field keeps the spelling of an unknown type.
Constructors, enum methods and record accessors that are not written are added.
-/

namespace Renaming.Java

/-- A member as declared; a method may be found again by where its declaration starts. -/
inductive DeclaredMember where
  | field (f : FieldDeclaration)
  | method (m : MethodDeclaration) (start : Option Nat)

namespace DeclaredMember

def field? : DeclaredMember → Option FieldDeclaration
  | field f => some f
  | method .. => none

def method? : DeclaredMember → Option MethodDeclaration
  | field _ => none
  | method m _ => some m

def located? : DeclaredMember → Option (Nat × MethodDeclaration)
  | method m (some start) => some (start, m)
  | _ => none

end DeclaredMember

namespace MethodDeclaration

/-- A method with the erasure of a header, and with the header where it says more. -/
def ofGeneric (name : String) (header : GenericMethod) : MethodDeclaration :=
  ({ name, descriptor := header.erasure } : MethodDeclaration).withGeneric header

end MethodDeclaration

namespace TypeContext

variable (ctx : TypeContext)

/-- The type of a field; unknown names keep their spelling. -/
def fieldType (n : Node) : GenericType :=
  match ctx.type? n with
  | some t => t
  | none =>
    let written := (ctx.text n).toList
    let base := written.takeWhile fun c => c != '<' && c != '['
    (GenericType.raw (Text.trim (String.ofList base))).withDims (written.count '[')

def dims (n : Node) : Nat := ctx.source.dimensionCount (n.child? .dimensions)

/-- The type of a parameter, or nothing if the node is none; the type itself may be unknown. -/
def parameterType? (n : Node) : Option (Option GenericType) :=
  match n.kind with
  | .formalParameter =>
    (n.child? .type).map fun type => (ctx.type? type).map (·.withDims (ctx.dims n))
  | .spreadParameter =>
    (n.namedChildren.find? (·.kind.isType)).map fun type => (ctx.type? type).map (·.withDims 1)
  | _ => none

/-- The types of all parameters, if all are known. -/
def parameterTypes? (params : Node) : Option (List GenericType) :=
  (params.namedChildren.filterMap ctx.parameterType?).mapM id

/-- Whether a parameter list takes any number of arguments. -/
def isVarargs (params : Node) : Bool :=
  params.namedChildren.any fun p =>
    p.kind == .spreadParameter && p.namedChildren.any (·.kind.isType)

/-- The result type of a method, nothing for `void`; it may be unknown. -/
def resultType? (n : Node) : Option (Option GenericType) :=
  if n.kind == .constructorDeclaration then some none
  else
    match (n.child? .type).filter (·.kind != .voidType) with
    | none => some none
    | some type => (ctx.type? type).map fun t => some (t.withDims (ctx.dims n))

/-- The method that a declaration makes, if all types in its header are known. -/
def method? (inInterface : Bool) (n : Node) : Option MethodDeclaration := do
  let typeParams := (ctx.parametersOf n).value
  let inner := { ctx with scope := ctx.scope.push (.typeVars typeParams) }
  let params ← match n.child? .parameters with
    | none => some []
    | some params => inner.parameterTypes? params
  let ret ← inner.resultType? n
  let name :=
    if n.kind == .constructorDeclaration then constructorName
    else ((n.child? .name).map ctx.text).getD ""
  let isStatic := n.hasModifier "static"
  pure
    { MethodDeclaration.ofGeneric name { typeParams, params, ret } with
      isStatic
      isPrivate := n.hasModifier "private" && !inInterface
      isVarargs := (n.child? .parameters).any isVarargs
      isAbstract :=
        if inInterface then !isStatic && (n.child? .body).isNone else n.hasModifier "abstract" }

def fields (inInterface : Bool) (n : Node) : List DeclaredMember :=
  match n.child? .type with
  | none => []
  | some type =>
    let type := ctx.fieldType type
    let isStatic := inInterface || n.hasModifier "static"
    (n.childrenIn .declarator).filterMap fun d => do
      let name ← d.child? .name
      let type := type.withDims (ctx.dims d)
      pure (.field (({ name := ctx.text name, type := type.erasure, isStatic } :
        FieldDeclaration).withGeneric type))

def annotationElement? (n : Node) : Option MethodDeclaration := do
  let name ← n.child? .name
  let type ← n.child? .type
  let ret ← ctx.type? type
  pure
    { MethodDeclaration.ofGeneric (ctx.text name)
        { typeParams := [], params := [], ret := some (ret.withDims (ctx.dims n)) } with
      isAbstract := true }

/-- The constructor of a record from its components. -/
def canonicalConstructor (components : List GenericType) : MethodDeclaration :=
  .ofGeneric constructorName { typeParams := [], params := components, ret := none }

/-- What a member declaration declares in a type. -/
def membersOf (binary : String) (kind : TypeKind) (canonical : Option (List GenericType))
    (n : Node) : List DeclaredMember :=
  match n.kind with
  | .fieldDeclaration | .constantDeclaration => ctx.fields kind.isInterface n
  | .enumConstant =>
    ((n.child? .name).map fun name =>
      .field { name := ctx.text name, type := .object binary, isStatic := true }).toList
  | .methodDeclaration | .constructorDeclaration =>
    ((ctx.method? kind.isInterface n).map fun m => .method m (some n.start)).toList
  | .compactConstructor =>
    (canonical.map fun components =>
      .method (canonicalConstructor components) (some n.start)).toList
  | .annotationElement => ((ctx.annotationElement? n).map fun m => .method m none).toList
  | _ => []

end TypeContext

/-- The member declarations of a body; those of an enum may stand after its constants. -/
def memberNodes (body : Node) : List Node :=
  body.namedChildren.flatMap fun c =>
    if c.kind == .enumBodyDeclarations then c.namedChildren else [c]

/-- A component of a record: its name and its types as written and as known. -/
structure RecordComponent where
  name : String
  fieldType : GenericType
  known : Option GenericType

def recordComponents (ctx : TypeContext) (n : Node) : List RecordComponent :=
  ((n.child? .parameters).map Node.namedChildren).getD [] |>.filterMap fun p => do
    let type ← p.child? .type
    let name ← p.child? .name
    pure ⟨ctx.text name, ctx.fieldType type, ctx.type? type⟩

namespace ImplicitMembers

/-- The constructor of a class or an enum that declares none. -/
def constructors (kind : TypeKind) (methods : List MethodDeclaration) : List MethodDeclaration :=
  if (kind == .class_ || kind == .enum) && !methods.any MethodDeclaration.isConstructor then
    [{ name := constructorName, descriptor := ⟨[], none⟩, isPrivate := kind == .enum }]
  else []

def enumMethods (binary : String) : List MethodDeclaration :=
  let this := FieldType.object binary
  [{ name := "values", descriptor := ⟨[], some (.array this)⟩, isStatic := true },
    { name := "valueOf", descriptor := ⟨[.stringClass], some this⟩, isStatic := true }]

/-- The constructor of a record, unless it is declared. -/
def recordConstructors (canonical : Option (List GenericType)) (methods : List MethodDeclaration) :
    List MethodDeclaration :=
  match canonical with
  | none => []
  | some components =>
    let constructor := TypeContext.canonicalConstructor components
    if methods.any fun m => m.isConstructor && m.descriptor == constructor.descriptor then []
    else [constructor]

/-- Adds the accessors of components that no method without parameters has the name of. -/
def addAccessors (components : List RecordComponent) (methods : List MethodDeclaration) :
    List MethodDeclaration :=
  components.foldl (fun methods c =>
    match c.known with
    | none => methods
    | some type =>
      if methods.any fun m => m.name == c.name && m.descriptor.params.isEmpty then methods
      else methods ++ [.ofGeneric c.name { typeParams := [], params := [], ret := some type }])
    methods

end ImplicitMembers

structure DeclaredMembers where
  fields : List FieldDeclaration
  methods : List MethodDeclaration
  /-- The methods that are written, by where their declarations start. -/
  located : List (Nat × MethodDeclaration)

namespace DeclarationSite

open ImplicitMembers

def anonymousMembers (ctx : TypeContext) (site : DeclarationSite) : DeclaredMembers :=
  let found := (memberNodes site.node).flatMap (ctx.membersOf site.binary .class_ (some []))
  { fields := found.filterMap DeclaredMember.field?
    methods := found.filterMap DeclaredMember.method?
    located := found.filterMap DeclaredMember.located? }

def namedMembers (ctx : TypeContext) (site : DeclarationSite) : DeclaredMembers :=
  let kind := TypeKind.ofNode site.node.kind
  let components := if kind == .record then recordComponents ctx site.node else []
  let canonical := components.mapM RecordComponent.known
  let nodes := ((site.node.child? .body).map memberNodes).getD []
  let found := nodes.flatMap (ctx.membersOf site.binary kind canonical)
  let componentFields := components.map fun c =>
    ({ name := c.name, type := c.fieldType.erasure } : FieldDeclaration).withGeneric c.fieldType
  let methods := found.filterMap DeclaredMember.method?
  let methods := methods ++ constructors kind methods
  let methods := if kind == .enum then methods ++ enumMethods site.binary else methods
  let methods :=
    if kind == .record then
      addAccessors components (methods ++ recordConstructors canonical methods)
    else methods
  { fields := componentFields ++ found.filterMap DeclaredMember.field?
    methods
    located := found.filterMap DeclaredMember.located? }

def members (index : TypeIndex) (source : SourceText) (site : DeclarationSite) : DeclaredMembers :=
  let ctx : TypeContext := ⟨index, source, site.bodyScope⟩
  match site.form with
  | .named _ => site.namedMembers ctx
  | .anonymous _ => site.anonymousMembers ctx

end DeclarationSite

end Renaming.Java
