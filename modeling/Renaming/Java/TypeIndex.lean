import Renaming.Java.Declaration

/-!
# The type index

All known types by binary name, and the top-level types by package. A type is replaced only by one
of equal or higher origin; member types are linked to the type that holds them.
-/

namespace Renaming.Java

structure TypeIndex where
  types : SortedMap String TypeDeclaration := {}
  /-- Top-level types by package and simple name. -/
  topLevels : SortedMap String (SortedMap String String) := {}
  deriving Inhabited

namespace TypeIndex

def get? (index : TypeIndex) (binary : String) : Option TypeDeclaration := index.types.get? binary

def contains (index : TypeIndex) (binary : String) : Bool := index.types.contains binary

def size (index : TypeIndex) : Nat := index.types.size

/-- The top-level type of the given simple name in a package. -/
def topLevel? (index : TypeIndex) (package simple : String) : Option String :=
  (index.topLevels.get? package).bind (·.get? simple)

/-- Whether the name is a package that holds a type, or the start of one. -/
def isPackage (index : TypeIndex) (name : String) : Bool :=
  index.topLevels.keys.any fun package => package == name || Text.startsWith (name ++ ".") package

/-- Enters a type into the table of its package. -/
def addTopLevel (index : TypeIndex) (d : TypeDeclaration) : TypeIndex :=
  let package := packageOf d.binary
  let table := (index.topLevels.get? package).getD {}
  { index with topLevels := index.topLevels.insert package (table.insert d.simple d.binary) }

def outranked (index : TypeIndex) (d : TypeDeclaration) : Bool :=
  (index.get? d.binary).any fun existing => d.origin.rank < existing.origin.rank

/-- Adds a type; one of the same name stays if its origin is higher. -/
def insert (index : TypeIndex) (d : TypeDeclaration) : TypeIndex :=
  if index.outranked d then index
  else
    let index := if d.outer.isNone && !d.isLocal then index.addTopLevel d else index
    { index with types := index.types.insert d.binary d }

def insertAll (index : TypeIndex) (ds : List TypeDeclaration) : TypeIndex := ds.foldl insert index

def modify (index : TypeIndex) (binary : String) (f : TypeDeclaration → TypeDeclaration) :
    TypeIndex :=
  match index.get? binary with
  | none => index
  | some d => { index with types := index.types.insert binary (f d) }

/-- Links a type as the member of `outer` under a simple name. The first link of a name stays, and
so does the enclosing type that the member already has. -/
def addMember (index : TypeIndex) (outer simple inner : String) : TypeIndex :=
  let index := index.modify outer fun d =>
    { d with members := d.members.insertIfNew simple inner }
  index.modify inner fun d => { d with outer := d.outer.or (some outer), simple }

/-- The link that a type asks for: it is a member of the type that encloses it. -/
def memberLink? (d : TypeDeclaration) : Option (String × String × String) :=
  d.outer.map fun outer => (outer, d.simple, d.binary)

def addMembers (index : TypeIndex) (links : List (String × String × String)) : TypeIndex :=
  links.foldl (fun index (outer, simple, inner) => index.addMember outer simple inner) index

/-- The ways to take a dotted name as a package, a top-level type and member types, the shortest
package first. -/
def splits : List String → List (List String × String × List String)
  | [] => []
  | s :: rest => ([], s, rest) :: (splits rest).map fun (package, top, members) =>
      (s :: package, top, members)

/-- Follows member types by their simple names. -/
def memberPath? (index : TypeIndex) (owner : String) : List String → Option String
  | [] => some owner
  | simple :: rest => do
    let d ← index.get? owner
    let inner ← d.members.get? simple
    index.memberPath? inner rest

/-- The type of a fully qualified name; the longest package that leads to a type wins. -/
def resolveQualified? (index : TypeIndex) (segments : List String) : Option String :=
  (splits segments).reverse.findSome? fun (package, top, members) => do
    let top ← index.topLevel? (Text.join "." package) top
    index.memberPath? top members

end TypeIndex

end Renaming.Java
