import Renaming.Java.Imports

/-!
# Type scopes

What a simple type name means at a place. Type variables, local classes and member types of the
enclosing classes are looked up from the inside outwards; then come single-type imports, the
package of the unit, imports on demand, and the package that every unit imports.
-/

namespace Renaming.Java

inductive TypeBinding where
  | type (binary : String)
  | var (param : TypeParameter)
  deriving DecidableEq

inductive TypeFrame where
  | classBody (binary : String)
  | typeVars (params : List TypeParameter)
  /-- A block with the local classes declared in it, the last one first. -/
  | block (types : List (String × String))
  deriving DecidableEq

namespace TypeFrame

def isBlock : TypeFrame → Bool
  | block _ => true
  | _ => false

def class? : TypeFrame → Option String
  | classBody binary => some binary
  | _ => none

def find? (index : TypeIndex) (name : String) : TypeFrame → Option TypeBinding
  | classBody binary => (index.memberType? binary name).map .type
  | typeVars params => (params.find? (·.name == name)).map .var
  | block types => (types.lookup name).map .type

end TypeFrame

/-- Nested scopes, the innermost first. -/
structure TypeScope where
  header : UnitHeader
  frames : List TypeFrame := []

namespace TypeScope

def push (scope : TypeScope) (frame : TypeFrame) : TypeScope :=
  { scope with frames := frame :: scope.frames }

def pop (scope : TypeScope) : TypeScope := { scope with frames := scope.frames.tail }

/-- Declares a local class in the innermost block. -/
def addLocal (simple binary : String) : List TypeFrame → List TypeFrame
  | [] => []
  | .block types :: rest => .block ((simple, binary) :: types) :: rest
  | frame :: rest => frame :: addLocal simple binary rest

def addLocalType (scope : TypeScope) (simple binary : String) : TypeScope :=
  { scope with frames := addLocal simple binary scope.frames }

/-- The enclosing classes, the innermost first. -/
def enclosingClasses (scope : TypeScope) : List String := scope.frames.filterMap TypeFrame.class?

def currentClass? (scope : TypeScope) : Option String := scope.enclosingClasses.head?

def onDemand? (index : TypeIndex) (name : String) : OnDemandImport → Option String
  | .package package => index.topLevel? package name
  | .type owner => index.memberType? owner name

/-- The meaning of a name by imports and packages alone. -/
def resolveGlobal? (index : TypeIndex) (header : UnitHeader) (name : String) : Option String :=
  header.imports.single.get? name
    |>.or (index.topLevel? header.package name)
    |>.or (header.imports.onDemand.findSome? (onDemand? index name))
    |>.or (index.topLevel? "java.lang" name)

def resolveSimple? (scope : TypeScope) (index : TypeIndex) (name : String) : Option TypeBinding :=
  (scope.frames.findSome? (TypeFrame.find? index name)).or
    ((resolveGlobal? index scope.header name).map .type)

/-- The longest package of at least so many segments in front of a dotted name that leads to a
top-level type: that type, and how many segments name it. -/
def longestTopLevel? (index : TypeIndex) (least : Nat) (names : List String) :
    Option (String × Nat) :=
  ((List.range names.length).reverse.filter (least ≤ ·)).findSome? fun k => do
    let simple ← names[k]?
    let binary ← index.topLevel? (Text.join "." (names.take k)) simple
    pure (binary, k + 1)

end TypeScope

end Renaming.Java
