import Renaming.Java.Declared.Members
import Renaming.Java.Declared.Supertypes
import Renaming.Java.Grammar

/-!
# Declared types of a program

All types of all units enter the index before any supertype is read, and all supertypes before any
member. Supertypes are read twice, so that one which is named through an inherited member type is
found in the second round.
-/

namespace Renaming.Java

/-- A unit with its tree, unless its parser gave up on it. The tree of a unit that is not well
formed has errors in it. -/
structure ParsedUnit where
  id : String
  source : SourceText
  tree : Option Node

/-- A unit as a parser reads it. -/
def ParsedUnit.read (parse : String → Option Node) (id text : String) : ParsedUnit :=
  ⟨id, .ofString text, parse text⟩

/-- A unit as the grammar reads it, which gives up on what is not well formed. -/
def ParsedUnit.ofText (id text : String) : ParsedUnit := .read Node.ofText? id text

/-- What is known of a unit once its declarations are indexed. -/
structure DeclaredUnit where
  unit : ParsedUnit
  header : UnitHeader := {}
  /-- Binary names by where declarations start. -/
  types : SortedMap Nat String := {}
  /-- Methods with the types that declare them, by where their declarations start. -/
  methods : SortedMap Nat (String × MethodDeclaration) := {}

/-- A program: the index, and its units. -/
structure Program where
  index : TypeIndex
  units : List DeclaredUnit

namespace ParsedUnit

def registered (unit : ParsedUnit) : List RegisteredType :=
  (unit.tree.map (registeredTypes unit.source)).getD []

/-- The unit with its binary names and with imports that mean what the index says. -/
def declared (index : TypeIndex) (unit : ParsedUnit) : DeclaredUnit :=
  match unit.tree with
  | none => { unit }
  | some root =>
    { unit
      header :=
        { package := declaredPackage unit.source root
          imports := .resolve index (declaredImports unit.source root) }
      types := .ofList (unit.registered.map fun t => (t.start, t.binary)) }

end ParsedUnit

namespace DeclaredUnit

def sites (index : TypeIndex) (unit : DeclaredUnit) : List DeclarationSite :=
  match unit.unit.tree with
  | none => []
  | some root => declarationSites index unit.unit.source unit.header unit.types root

def supertypes (index : TypeIndex) (unit : DeclaredUnit) : List (String × DeclaredSupertypes) :=
  (unit.sites index).map fun site => (site.binary, site.supertypes index unit.unit.source)

def members (index : TypeIndex) (unit : DeclaredUnit) : List (String × DeclaredMembers) :=
  (unit.sites index).map fun site => (site.binary, site.members index unit.unit.source)

def withMethods (unit : DeclaredUnit) (members : List (String × DeclaredMembers)) : DeclaredUnit :=
  { unit with
    methods := .ofList (members.flatMap fun (owner, m) =>
      m.located.map fun (start, method) => (start, (owner, method))) }

end DeclaredUnit

namespace TypeIndex

/-- Enters the types of units, then the links from the types around them. -/
def register (index : TypeIndex) (units : List ParsedUnit) : TypeIndex :=
  let found := units.flatMap ParsedUnit.registered
  (index.insertAll (found.map RegisteredType.declaration)).addMembers
    (found.filterMap RegisteredType.memberLink?)

/-- Reads the supertypes of all units against the index as it is, then enters them. -/
def readSupertypes (index : TypeIndex) (units : List DeclaredUnit) : TypeIndex :=
  (units.flatMap (·.supertypes index)).foldl
    (fun index (binary, s) => index.modify binary s.apply) index

def enterMembers (index : TypeIndex) (members : List (String × DeclaredMembers)) : TypeIndex :=
  members.foldl (fun index (binary, m) =>
    index.modify binary fun d => { d with fields := m.fields, methods := m.methods }) index

end TypeIndex

namespace Program

/-- The program of some units on top of the types that are already known. -/
def ofUnits (known : TypeIndex) (parsed : List ParsedUnit) : Program :=
  let index := known.register parsed
  let units := parsed.map (·.declared index)
  let index := (index.readSupertypes units).readSupertypes units
  let members := units.map (·.members index)
  { index := index.enterMembers members.flatten
    units := (units.zip members).map fun (unit, m) => unit.withMethods m }

end Program

end Renaming.Java
