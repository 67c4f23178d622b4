import Renaming.Java.GenericType
import Renaming.Symbol

/-!
# Declarations

Types and their members as the program knows them, whether they come from source text, from the
class path or from the catalogue. Members carry an erased form and, where that says less, the
generic one.
-/

namespace Renaming.Java

inductive TypeKind where
  | class_
  | interface
  | enum
  | record
  | annotationType
  deriving DecidableEq, Repr, Inhabited

def TypeKind.isInterface (k : TypeKind) : Bool := k == interface || k == annotationType

/-- Where a type comes from. -/
inductive Origin where
  | catalogue
  | library
  | source
  deriving DecidableEq, Repr, Inhabited

/-- Types of higher rank replace those of lower rank. -/
def Origin.rank : Origin → Nat
  | catalogue => 0
  | library => 1
  | source => 2

structure FieldDeclaration where
  name : String
  type : FieldType
  isStatic : Bool := false
  /-- The type before erasure, where the two differ. -/
  generic : Option GenericType := none
  deriving DecidableEq, Inhabited

namespace FieldDeclaration

def withGeneric (f : FieldDeclaration) (t : GenericType) : FieldDeclaration :=
  { f with generic := if t.isGeneric then some t else none }

def genericType (f : FieldDeclaration) : GenericType := f.generic.getD (.ofErased f.type)

end FieldDeclaration

/-- The name under which constructors are declared. -/
def constructorName : String := "<init>"

structure MethodDeclaration where
  name : String
  descriptor : MethodDescriptor
  isStatic : Bool := false
  isVarargs : Bool := false
  isPrivate : Bool := false
  isAbstract : Bool := false
  /-- The header before erasure, where the two differ. -/
  generic : Option GenericMethod := none
  deriving DecidableEq, Inhabited

namespace MethodDeclaration

/-- Keeps a generic header that says more than the descriptor and has as many parameters. -/
def withGeneric (m : MethodDeclaration) (g : GenericMethod) : MethodDeclaration :=
  { m with
    generic :=
      if g.isGeneric && g.params.length == m.descriptor.params.length then some g else none }

def typeParams (m : MethodDeclaration) : List TypeParameter :=
  (m.generic.map GenericMethod.typeParams).getD []

def genericParams (m : MethodDeclaration) : List GenericType :=
  match m.generic with
  | some g => g.params
  | none => m.descriptor.params.map GenericType.ofErased

def genericRet (m : MethodDeclaration) : Option GenericType :=
  match m.generic with
  | some g => g.ret
  | none => m.descriptor.ret.map GenericType.ofErased

def isConstructor (m : MethodDeclaration) : Bool := m.name == constructorName

def signature (m : MethodDeclaration) (owner : String) : Signature :=
  .ofMethod owner m.name m.descriptor

end MethodDeclaration

structure TypeDeclaration where
  binary : String
  kind : TypeKind
  origin : Origin
  simple : String := simpleName binary
  /-- The type that encloses this one in source text. -/
  outer : Option String := none
  superclass : Option String := none
  interfaces : List String := []
  typeParams : List TypeParameter := []
  /-- Supertypes with arguments, the superclass first; empty if none has arguments. -/
  genericSupers : List GenericType := []
  fields : List FieldDeclaration := []
  methods : List MethodDeclaration := []
  /-- Member types by simple name. -/
  members : SortedMap String String := {}
  /-- Local and anonymous types cannot be reached by a qualified name. -/
  isLocal : Bool := false
  deriving DecidableEq, Inhabited

namespace TypeDeclaration

/-- The superclass, then the interfaces. -/
def directSupertypes (d : TypeDeclaration) : List String := d.superclass.toList ++ d.interfaces

def genericSupertypes (d : TypeDeclaration) : List GenericType :=
  if d.genericSupers.isEmpty then d.directSupertypes.map GenericType.raw else d.genericSupers

def field? (d : TypeDeclaration) (name : String) : Option FieldDeclaration :=
  d.fields.find? (·.name == name)

def methodsNamed (d : TypeDeclaration) (name : String) : List MethodDeclaration :=
  d.methods.filter (·.name == name)

end TypeDeclaration

end Renaming.Java
