import Renaming.Java.TypeIndex

/-!
# The type hierarchy

Supertypes nearest first: breadth first, the superclass before the interfaces, the root class last.
Fields, methods and member types are found in the first type of that order that declares them.
-/

namespace Renaming.Java

/-- The names of a list that are neither taken nor repeated, in order. -/
def fresh (taken : List String) : List String → List String
  | [] => []
  | name :: rest =>
    if taken.contains name then fresh taken rest else name :: fresh (name :: taken) rest

namespace TypeIndex

/-- The direct supertypes of a type, the root class left out. -/
def parents (index : TypeIndex) (binary : String) : List String :=
  match index.get? binary with
  | none => []
  | some d => d.directSupertypes.filter (· != objectName)

/-- How often a type is named as a direct supertype. -/
def supertypeMentions (index : TypeIndex) : Nat :=
  (index.types.values.flatMap (·.directSupertypes)).length

/-- Visits the types of a queue and what they lead to; `seen` lists all types met so far, in the
order in which they were met. -/
def visitSupertypes (index : TypeIndex) : Nat → List String → List String → List String
  | 0, seen, _ => seen
  | _ + 1, seen, [] => seen
  | fuel + 1, seen, current :: queue =>
    let found := fresh seen (index.parents current)
    index.visitSupertypes fuel (seen ++ found) (queue ++ found)

/-- A type and its supertypes, nearest first, the root class left out unless it is the type. -/
def properChain (index : TypeIndex) (binary : String) : List String :=
  index.visitSupertypes (index.supertypeMentions + 1) [binary] [binary]

/-- All supertypes of a type without the type itself, nearest first. -/
def supertypes (index : TypeIndex) (binary : String) : List String :=
  (index.properChain binary).tail ++ if binary = objectName then [] else [objectName]

/-- A type followed by its supertypes. -/
def chain (index : TypeIndex) (binary : String) : List String := binary :: index.supertypes binary

def isSubtype (index : TypeIndex) (sub sup : String) : Bool :=
  sub == sup || sup == objectName || (index.supertypes sub).contains sup

/-- The nearest field of the given name, with the type that declares it. -/
def findField? (index : TypeIndex) (owner name : String) : Option (String × FieldDeclaration) :=
  (index.chain owner).findSome? fun type => do
    let d ← index.get? type
    let field ← d.field? name
    pure (type, field)

/-- Keeps the first of several methods with the same parameter types. -/
def dropHidden (taken : List String) :
    List (String × MethodDeclaration) → List (String × MethodDeclaration)
  | [] => []
  | (type, m) :: rest =>
    let params := m.descriptor.paramsText
    if taken.contains params then dropHidden taken rest
    else (type, m) :: dropHidden (params :: taken) rest

def declaredMethods (index : TypeIndex) (type name : String) : List (String × MethodDeclaration) :=
  match index.get? type with
  | none => []
  | some d => (d.methodsNamed name).map fun m => (type, m)

/-- The methods of the given name that a type has, with the types that declare them. A nearer method
hides those with the same parameter types; constructors are not inherited. -/
def findMethods (index : TypeIndex) (owner name : String) : List (String × MethodDeclaration) :=
  let scope := if name = constructorName then [owner] else index.chain owner
  dropHidden [] (scope.flatMap fun type => index.declaredMethods type name)

/-- Whether `m` may be overridden by a method with the name and parameters of `n`. -/
def sameMethod (n m : MethodDeclaration) : Bool :=
  m.name == n.name && !m.isStatic && !m.isPrivate &&
    m.descriptor.paramsText == n.descriptor.paramsText

/-- The methods that a method of `owner` overrides, nearest first. -/
def overridden (index : TypeIndex) (owner : String) (m : MethodDeclaration) : List Signature :=
  if m.isStatic || m.isPrivate || m.isConstructor then []
  else
    (index.supertypes owner).filterMap fun type => do
      let d ← index.get? type
      let sup ← d.methods.find? (sameMethod m)
      pure (sup.signature type)

/-- The member type of the given simple name, inherited ones included. -/
def memberType? (index : TypeIndex) (owner simple : String) : Option String :=
  (index.chain owner).findSome? fun type => do
    let d ← index.get? type
    d.members.get? simple

end TypeIndex

end Renaming.Java
