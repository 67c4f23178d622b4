import Renaming.Java.Declared.Site

/-!
# Supertypes of declared types

What a declaration extends and implements. Enums, records, annotation types and anonymous types
have supertypes that are not written.
-/

namespace Renaming.Java

structure DeclaredSupertypes where
  superclass : Option GenericType
  interfaces : List GenericType
  typeParams : List TypeParameter := []

namespace DeclaredSupertypes

/-- The superclass, then the interfaces. -/
def all (s : DeclaredSupertypes) : List GenericType := s.superclass.toList ++ s.interfaces

def apply (s : DeclaredSupertypes) (d : TypeDeclaration) : TypeDeclaration :=
  { d with
    superclass := s.superclass.bind GenericType.className?
    interfaces := s.interfaces.filterMap GenericType.className?
    typeParams := s.typeParams
    genericSupers := if s.all.any GenericType.isGeneric then s.all else [] }

end DeclaredSupertypes

def GenericType.isClass : GenericType → Bool
  | .object .. => true
  | _ => false

namespace DeclarationSite

/-- The superclass that is written; of several, the last. -/
def writtenSuperclass? (ctx : TypeContext) (n : Node) : Option GenericType :=
  ((n.namedChildren.filter (·.kind == .superclass)).getLast?).bind fun s =>
    (s.namedChildren.find? (·.kind.isType)).bind ctx.type?

/-- The interfaces that are written. -/
def writtenInterfaces (ctx : TypeContext) (n : Node) : List GenericType :=
  let sections := n.namedChildren.filter fun c =>
    c.kind == .superInterfaces || c.kind == .extendsInterfaces
  sections.flatMap fun c =>
    (((c.childOfKind? .typeList).getD c).namedChildren.filterMap ctx.type?).filter
      GenericType.isClass

def namedSupertypes (ctx : TypeContext) (n : Node) (binary : String)
    (typeParams : List TypeParameter) : DeclaredSupertypes :=
  let interfaces := writtenInterfaces ctx n
  match n.kind with
  | .interfaceDeclaration => ⟨none, interfaces, typeParams⟩
  | .annotationTypeDeclaration =>
    ⟨none, interfaces ++ [.raw "java.lang.annotation.Annotation"], typeParams⟩
  | .enumDeclaration =>
    ⟨some (.object "java.lang.Enum" [.exact (.raw binary)]), interfaces, typeParams⟩
  | .recordDeclaration => ⟨some (.raw "java.lang.Record"), interfaces, typeParams⟩
  | _ =>
    let superclass :=
      match (writtenSuperclass? ctx n).filter GenericType.isClass with
      | some t => some t
      | none => if binary == objectName then none else some .objectClass
    ⟨superclass, interfaces, typeParams⟩

def anonymousSupertypes (index : TypeIndex) (base : Option GenericType) : DeclaredSupertypes :=
  let base := (base.filter GenericType.isClass).getD .objectClass
  let isInterface := base.className?.any fun name =>
    (index.get? name).any fun d => d.kind.isInterface
  if isInterface then ⟨some .objectClass, [base], []⟩ else ⟨some base, [], []⟩

def supertypes (index : TypeIndex) (source : SourceText) (site : DeclarationSite) :
    DeclaredSupertypes :=
  match site.form with
  | .named typeParams =>
    namedSupertypes ⟨index, source, site.scope⟩ site.node site.binary typeParams
  | .anonymous base => anonymousSupertypes index base

end DeclarationSite

end Renaming.Java
