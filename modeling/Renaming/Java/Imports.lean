import Renaming.Java.Hierarchy
import Renaming.Text.Letters

/-!
# Imports

The import declarations of a unit and what they mean against an index. A single-type import that
names no known type keeps the binary name it spells.
-/

namespace Renaming.Java

/-- An import declaration as written. -/
structure ImportDeclaration where
  segments : List String
  isStatic : Bool
  onDemand : Bool
  deriving DecidableEq, Repr

/-- An import of all types of a package, or of all member types of a type. -/
inductive OnDemandImport where
  | package (name : String)
  | type (binary : String)
  deriving DecidableEq, Repr

structure Imports where
  /-- Imported types by simple name. -/
  single : SortedMap String String := {}
  /-- Imports of unknown types: the binary name that each one spells. -/
  unknown : SortedMap String String := {}
  onDemand : List OnDemandImport := []
  /-- Types and their statically imported members. -/
  staticSingle : List (String × String) := []
  staticOnDemand : List String := []
  deriving Inhabited

/-- The binary name of an unknown qualified type: what follows the first capitalized segment is
taken for member types. Without one, only the last segment is a type. -/
def spelledBinary (segments : List String) : String :=
  let capitalized (s : String) : Bool := (s.toList.head?).any Text.isCapital
  let split := (segments.findIdx? capitalized).getD (segments.length - 1)
  Text.join "." (segments.take (split + 1)) ++
    String.join ((segments.drop (split + 1)).map ("$" ++ ·))

namespace Imports

def add (index : TypeIndex) (imports : Imports) (d : ImportDeclaration) : Imports :=
  match d.isStatic, d.onDemand with
  | false, false =>
    match d.segments.getLast? with
    | none => imports
    | some last =>
      match index.resolveQualified? d.segments with
      | some binary => { imports with single := imports.single.insert last binary }
      | none =>
        { imports with unknown := imports.unknown.insert last (spelledBinary d.segments) }
  | false, true =>
    let entry := match index.resolveQualified? d.segments with
      | some binary => .type binary
      | none => .package (Text.join "." d.segments)
    { imports with onDemand := imports.onDemand ++ [entry] }
  | true, false =>
    match d.segments.getLast?, index.resolveQualified? d.segments.dropLast with
    | some member, some binary =>
      { imports with staticSingle := imports.staticSingle ++ [(binary, member)] }
    | _, _ => imports
  | true, true =>
    match index.resolveQualified? d.segments with
    | some binary => { imports with staticOnDemand := imports.staticOnDemand ++ [binary] }
    | none => imports

def resolve (index : TypeIndex) (declarations : List ImportDeclaration) : Imports :=
  declarations.foldl (add index) {}

end Imports

/-- The package and the imports of a unit. -/
structure UnitHeader where
  package : String := ""
  imports : Imports := {}
  deriving Inhabited

end Renaming.Java
