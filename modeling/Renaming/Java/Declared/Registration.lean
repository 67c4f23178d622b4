import Renaming.Java.Imports
import Renaming.Java.Syntax.Node

/-!
# Registration

Which types a unit declares, and their binary names. A member type is named after the type around
it. Local types with one name and anonymous types are numbered from one, in the order of the text,
within the type around them.
-/

namespace Renaming.Java

/-- Where a type is declared. -/
inductive Place where
  | topLevel
  | member
  | inBlock
  | anonymous
  deriving DecidableEq, Repr

structure RegisteredType where
  /-- Where the declaration starts, or the body of an anonymous type. -/
  start : Nat
  place : Place
  declaration : TypeDeclaration

namespace RegisteredType

def binary (t : RegisteredType) : String := t.declaration.binary

/-- The link from the type around a member type. -/
def memberLink? (t : RegisteredType) : Option (String × String × String) :=
  match t.place, t.declaration.outer with
  | .member, some outer => some (outer, t.declaration.simple, t.binary)
  | _, _ => none

end RegisteredType

def TypeKind.ofNode : NodeKind → TypeKind
  | .interfaceDeclaration => .interface
  | .enumDeclaration => .enum
  | .recordDeclaration => .record
  | .annotationTypeDeclaration => .annotationType
  | _ => .class_

/-- Whether a node is the body of an anonymous type. -/
def isAnonymousBody (parent : NodeKind) (n : Node) : Bool :=
  (parent == .objectCreation && n.kind == .classBody) ||
    (parent == .enumConstant && n.role == some .body)

namespace Registration

/-- The number of the next type of a place and a simple name within `outer`. -/
def nextNumber (found : List RegisteredType) (test : RegisteredType → Bool) (outer : String) :
    Nat :=
  found.countP (fun t => test t && t.declaration.outer == some outer) + 1

def topLevelName (package name : String) : String :=
  if package.isEmpty then name else package ++ "." ++ name

/-- The type that a declaration with a name makes. -/
def named (package : String) (outer : Option String) (parent : NodeKind)
    (found : List RegisteredType) (name : String) (n : Node) : RegisteredType :=
  let kind := TypeKind.ofNode n.kind
  let entry (place : Place) (binary : String) : RegisteredType :=
    ⟨n.start, place,
      { binary, kind, origin := .source, simple := name, outer, isLocal := place == .inBlock }⟩
  match outer with
  | none => entry .topLevel (topLevelName package name)
  | some outer =>
    if parent.holdsMembers then entry .member (outer ++ "$" ++ name)
    else
      let sameName (t : RegisteredType) : Bool :=
        t.place == .inBlock && t.declaration.simple == name
      entry .inBlock (outer ++ "$" ++ toString (nextNumber found sameName outer) ++ name)

def anonymous (outer : String) (found : List RegisteredType) (n : Node) : RegisteredType :=
  let number := nextNumber found (·.place == .anonymous) outer
  ⟨n.start, .anonymous,
    { binary := outer ++ "$" ++ toString number
      kind := .class_
      origin := .source
      outer := some outer
      isLocal := true }⟩

variable (source : SourceText) (package : String)

mutual

/-- Adds the types declared in a node, the outer ones before the inner ones. -/
def visit (outer : Option String) (parent : NodeKind) (found : List RegisteredType) :
    Node → List RegisteredType
  | .mk kind role span text children =>
    let n := Node.mk kind role span text children
    if isAnonymousBody parent n then
      match outer with
      | none => found
      | some outer =>
        let entry := anonymous outer found n
        visitAll (some entry.binary) kind (found ++ [entry]) children
    else if kind.isTypeDeclaration then
      match n.child? .name with
      | none => found
      | some name =>
        let entry := named package outer parent found (source.text name) n
        visitAll (some entry.binary) kind (found ++ [entry]) children
    else visitAll outer kind found children

def visitAll (outer : Option String) (parent : NodeKind) (found : List RegisteredType) :
    List Node → List RegisteredType
  | [] => found
  | c :: rest =>
    visitAll outer parent (if c.isNamed then visit outer parent found c else found) rest

end

end Registration

/-- The segments of a dotted name as written, without blanks. -/
def nameSegments (source : SourceText) (n : Node) : List String :=
  ((Text.fields '.' (source.text n)).map fun s => String.join (Text.words s)).filter (!·.isEmpty)

def isNameNode (n : Node) : Bool := n.kind == .identifier || n.kind == .scopedIdentifier

/-- The package that a unit declares; the last declaration counts. -/
def declaredPackage (source : SourceText) (root : Node) : String :=
  let names := (root.namedChildren.filter (·.kind == .packageDeclaration)).filterMap fun d =>
    d.namedChildren.find? isNameNode
  (names.getLast?.map fun n => Text.join "." (nameSegments source n)).getD ""

/-- The path, and the marks, of an import declaration. -/
structure ImportNode where
  path : Node
  isStatic : Bool
  onDemand : Bool

def ImportNode.ofNode? (n : Node) : Option ImportNode := do
  let path ← n.children.reverse.find? isNameNode
  pure ⟨path, n.children.any fun c => c.kind == .token && c.leafText == "static",
    n.children.any (·.kind == .asterisk)⟩

def declaredImports (source : SourceText) (root : Node) : List ImportDeclaration :=
  (root.namedChildren.filter (·.kind == .importDeclaration)).filterMap fun n => do
    let import_ ← ImportNode.ofNode? n
    pure ⟨nameSegments source import_.path, import_.isStatic, import_.onDemand⟩

/-- The types that a unit declares. -/
def registeredTypes (source : SourceText) (root : Node) : List RegisteredType :=
  Registration.visit source (declaredPackage source root) none .program [] root

end Renaming.Java
