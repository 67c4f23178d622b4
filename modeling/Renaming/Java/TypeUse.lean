import Renaming.Java.Scope
import Renaming.Java.Syntax.Node

/-!
# Types in source text

What the spelling of a type means in its scope. Reading a type also tells which known types it
mentions, and which names in it mean nothing.
-/

namespace Renaming.Java

/-- A known type, named at a span. -/
structure TypeMention where
  span : Span
  binary : String
  deriving DecidableEq, Repr

structure TypeUses where
  mentions : List TypeMention := []
  /-- Names without meaning, and where they start. -/
  unresolved : List (Nat × String) := []
  deriving DecidableEq, Repr

abbrev Naming := StateM TypeUses

namespace Naming

def mention (found : List TypeMention) : Naming Unit :=
  modify fun uses => { uses with mentions := uses.mentions ++ found }

def miss (start : Nat) (name : String) : Naming Unit :=
  modify fun uses => { uses with unresolved := uses.unresolved ++ [(start, name)] }

/-- What is named, without the record of how. -/
def value {α : Type} (named : Naming α) : α := (Id.run (StateT.run named {})).1

end Naming

/-- What the meaning of a type depends on. -/
structure TypeContext where
  index : TypeIndex
  source : SourceText
  scope : TypeScope

mutual

/-- The names and the argument lists of a dotted type, in order. -/
def typeParts : Node → List Node
  | .mk kind role span text children =>
    match kind with
    | .typeIdentifier | .typeArguments => [.mk kind role span text children]
    | .scopedType | .genericType => typePartsAll children
    | _ => []

def typePartsAll : List Node → List Node
  | [] => []
  | c :: rest => typeParts c ++ typePartsAll rest

end

namespace TypeContext

variable (ctx : TypeContext)

def text (n : Node) : String := ctx.source.text n

/-- Member types, each one of the type before it. -/
def memberMentions? (owner : String) : List Node → Option (List TypeMention)
  | [] => some []
  | segment :: rest => do
    let inner ← ctx.index.memberType? owner (ctx.text segment)
    let mentions ← memberMentions? inner rest
    pure (⟨segment.span, inner⟩ :: mentions)

/-- A top-level type, named together with its package, and the member types after it. -/
def qualifiedMentions? (segments : List Node) (top : String) (count : Nat) :
    Option (List TypeMention) := do
  let first ← segments.head?
  let last ← segments[count - 1]?
  let members ← ctx.memberMentions? top (segments.drop count)
  pure (⟨⟨first.start, last.stop⟩, top⟩ :: members)

/-- The types that a dotted name mentions, the one that it means last. -/
def segmentMentions? (segments : List Node) : Option (List TypeMention) := do
  let first ← segments.head?
  match ctx.scope.resolveSimple? ctx.index (ctx.text first) with
  | some (.type binary) =>
    let members ← ctx.memberMentions? binary segments.tail
    pure (⟨first.span, binary⟩ :: members)
  | some (.var _) => none
  | none =>
    let (top, count) ← TypeScope.longestTopLevel? ctx.index 1 (segments.map ctx.text)
    ctx.qualifiedMentions? segments top count

def simple (n : Node) : Naming (Option GenericType) := do
  let name := ctx.text n
  match ctx.scope.resolveSimple? ctx.index name with
  | some (.type binary) =>
    Naming.mention [⟨n.span, binary⟩]
    pure (some (.raw binary))
  | some (.var param) => pure (some param.var)
  | none =>
    Naming.miss n.start name
    pure ((ctx.scope.header.imports.unknown.get? name).map .raw)

variable (sub : Node → Naming (Option GenericType))

def ofChild (child : Option Node) : Naming (Option GenericType) :=
  match child with
  | none => pure none
  | some c => sub c

def wildcardArgument (n : Node) : Naming TypeArgument := do
  match ← ofChild sub (n.namedChildren.find? (·.kind.isType)) with
  | none => pure .any
  | some t => pure (if n.children.any (·.kind == .super) then .superOf t else .extending t)

/-- An argument; one without meaning says nothing. -/
def argument? (n : Node) : Naming (Option TypeArgument) := do
  if n.kind == .wildcard then
    let a ← wildcardArgument sub n
    pure (some a)
  else if n.kind.isType then
    let t ← sub n
    pure (some ((t.map fun t => .exact t.boxed).getD .any))
  else pure none

def argumentsOf (n : Node) : Naming (List TypeArgument) :=
  n.namedChildren.filterMapM (argument? sub)

def dotted (n : Node) : Naming (Option GenericType) := do
  let parts := typeParts n
  for arguments in parts.filter (·.kind == .typeArguments) do
    let _ ← argumentsOf sub arguments
  let segments := parts.filter (·.kind == .typeIdentifier)
  match ctx.segmentMentions? segments with
  | some mentions =>
    Naming.mention mentions
    pure (mentions.getLast?.map fun m => .raw m.binary)
  | none =>
    Naming.miss n.start (Text.join "." (segments.map ctx.text))
    pure none

def generic (n : Node) : Naming (Option GenericType) := do
  let mut type := none
  let mut arguments := []
  for part in n.namedChildren do
    match part.kind with
    | .typeArguments => arguments ← argumentsOf sub part
    | .typeIdentifier | .scopedType => type ← sub part
    | _ => pure ()
  match type with
  | some (.object binary _) => pure (some (.object binary arguments))
  | other => pure other

/-- What a type node means, given what the nodes inside it mean. -/
def meaning (n : Node) : Naming (Option GenericType) := do
  match n.kind with
  | .integralType | .floatingPointType | .booleanType =>
    pure ((Primitive.ofKeyword? (ctx.text n)).map .prim)
  | .voidType => pure none
  | .typeIdentifier => ctx.simple n
  | .scopedType => ctx.dotted sub n
  | .genericType => generic sub n
  | .arrayType =>
    let element ← ofChild sub (n.child? .element)
    let dims := ctx.source.dimensionCount (n.child? .dimensions)
    pure (element.map fun t => t.withDims (max dims 1))
  | .annotatedType =>
    ofChild sub (n.namedChildren.reverse.find? fun c => !c.kind.isAnnotated)
  | .wildcard =>
    let a ← wildcardArgument sub n
    pure (some (a.bound?.getD .objectClass))
  | _ =>
    Naming.miss n.start (ctx.text n)
    pure none

/-- The meaning of a type node that is no higher than `height`. -/
def meaningWithin : Nat → Node → Naming (Option GenericType)
  | 0, _ => pure none
  | height + 1, n => ctx.meaning (meaningWithin height) n

/-- The type that a node spells. It is missing if the node, or a part of it, has no meaning; a name
that only an import spells counts as unresolved and yet has a meaning. -/
def typeOf (n : Node) : Naming (Option GenericType) := ctx.meaningWithin n.height n

def typeArguments (n : Node) : Naming (List TypeArgument) :=
  argumentsOf (ctx.meaningWithin n.height) n

/-- The names that a section of type parameters declares, with the nodes of their bounds. -/
def parameterNames (n : Node) : List (String × List Node) :=
  (n.namedChildren.filter (·.kind == .typeParameter)).filterMap fun p => do
    let name ← p.childOfKind? .typeIdentifier
    let bounds := ((p.childOfKind? .typeBound).map Node.namedChildren).getD []
    pure (ctx.text name, bounds)

/-- The type parameters of a section with their first bounds. Bounds may mention all parameters of
the section. -/
def typeParameters (n : Node) : Naming (List TypeParameter) := do
  let names := ctx.parameterNames n
  let frame := TypeFrame.typeVars (names.map fun (name, _) => ⟨name, .objectClass⟩)
  let inner := { ctx with scope := ctx.scope.push frame }
  names.mapM fun (name, bounds) => do
    let types ← bounds.mapM inner.typeOf
    pure ⟨name, (types.head?.join).getD .objectClass⟩

/-- The type that a node spells, for those who do not ask what it mentions. -/
def type? (n : Node) : Option GenericType := (ctx.typeOf n).value

/-- The type parameters of a declaration. -/
def parametersOf (declaration : Node) : Naming (List TypeParameter) :=
  match declaration.child? .typeParameters with
  | none => pure []
  | some n => ctx.typeParameters n

end TypeContext

end Renaming.Java
