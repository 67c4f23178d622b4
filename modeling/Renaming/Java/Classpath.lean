import Renaming.FileTree
import Renaming.Java.Catalogue
import Renaming.Java.ClassFile.Reader
import Renaming.Zip

/-!
# The class path

Each entry is a directory of class files or an archive of them. The first entry that defines a class
wins, and class files that cannot be read are left out. Compiled classes become declarations of
library types.
-/

namespace Renaming.Java

inductive ClasspathError where
  | missing (path : String)
  | unreadable (path reason : String)
  | corrupt (path reason : String)
  deriving DecidableEq, Repr

def ClasspathError.message : ClasspathError → String
  | missing path => "classpath entry not found: " ++ path
  | unreadable path reason => "cannot read classpath entry " ++ path ++ ": " ++ reason
  | corrupt path reason => "corrupt classpath archive " ++ path ++ ": " ++ reason

namespace Classpath

def isClassFile (name : String) : Bool :=
  Text.endsWith ".class" name && !Text.endsWith "module-info.class" name

def decode? (content : Bytes) : Option ClassFile := (ClassFile.parse content).toOption

def ofDirectory (t : FileTree) (root : Location) : List ClassFile :=
  (t.filesBelow root).filterMap fun (l, content) =>
    if l.getLast?.any isClassFile then decode? content else none

def ofRecord (path : String) (archive : Bytes) (r : Zip.Record) :
    Except ClasspathError (Option ClassFile) := do
  let packed ← (Zip.locate archive r).mapError fun e => .corrupt path e.message
  if !isClassFile r.name || Text.startsWith "META-INF/" r.name then return none
  let content ← (Zip.unpack r packed).mapError fun e => .unreadable path e.message
  return decode? content

def ofArchive (path : String) (archive : Bytes) : Except ClasspathError (List ClassFile) := do
  let records ← (Zip.records archive).mapError fun e => .corrupt path e.message
  return (← records.mapM (ofRecord path archive)).filterMap id

/-- The classes of one entry, in the order in which they are met. -/
def ofEntry (t : FileTree) (path : String) : Except ClasspathError (List ClassFile) :=
  match t.find path, Path.location? path with
  | .ok .directory, some root => .ok (ofDirectory t root)
  | .ok (.file content), _ => ofArchive path content
  | _, _ => .error (.missing path)

/-- The first class of each name. -/
def firstOfName (taken : List String) : List ClassFile → List ClassFile
  | [] => []
  | c :: rest =>
    if taken.contains c.name then firstOfName taken rest
    else c :: firstOfName (c.name :: taken) rest

def load (t : FileTree) (paths : List String) : Except ClasspathError (List ClassFile) := do
  return firstOfName [] (← paths.mapM (ofEntry t)).flatten

def kindOf (c : ClassFile) : TypeKind :=
  if c.has .annotationType then .annotationType
  else if c.has .interface then .interface
  else if c.has .enum then .enum
  else if c.superclass == some "java.lang.Record" then .record
  else .class_

/-- How a class is nested: in a type, with the access flags recorded for it, or locally. -/
structure Place where
  outer : Option String := none
  simple : Option String := none
  access : Option Nat := none
  isLocal : Bool := false

/-- The nesting that the classes record for a name comes first; without a record, a name with `$`
behind that of another class is nested in that class. -/
def placeOf (nestings : List ClassFile.Nesting) (names : List String) (name : String) : Place :=
  match nestings.find? (·.inner == name) with
  | some n =>
    match n.outer with
    | some outer => { outer := some outer, simple := n.simple, access := some n.access }
    | none => { isLocal := true }
  | none =>
    match Text.cutLast '$' name with
    | some (outer, simple) =>
      if !names.contains outer then {}
      else if simple.toList.head?.any Text.isDigit then { isLocal := true }
      else { outer := some outer }
    | none => {}

/-- Inner classes take the enclosing instance as a first constructor parameter that source text does
not show. -/
def enclosingInstance? (kind : TypeKind) (place : Place) : Option FieldType :=
  match place.outer, place.access with
  | some outer, some access =>
    if !AccessFlag.isStatic.isIn access && !kind.isInterface then some (.object outer) else none
  | _, _ => none

def field? (typeParams : List TypeParameter) (m : ClassFile.Member) : Option FieldDeclaration := do
  if m.has .synthetic || m.has .isPrivate then none
  let type ← (Descriptor.parseField m.descriptor).toOption
  let f : FieldDeclaration := { name := m.name, type, isStatic := m.has .isStatic }
  match m.signature.bind fun s => (GenericSignature.parseField s).toOption with
  | some t => pure (f.withGeneric (t.withBounds typeParams))
  | none => pure f

def sourceDescriptor (enclosing : Option FieldType) (name : String) (d : MethodDescriptor) :
    MethodDescriptor :=
  if name == constructorName && enclosing.isSome && d.params.head? == enclosing then
    { d with params := d.params.tail }
  else d

def method? (typeParams : List TypeParameter) (enclosing : Option FieldType)
    (m : ClassFile.Member) : Option MethodDeclaration := do
  if m.has .synthetic || m.has .bridge || m.has .isPrivate || m.name == "<clinit>" then none
  let d ← (Descriptor.parseMethod m.descriptor).toOption
  let method : MethodDeclaration :=
    { name := m.name, descriptor := sourceDescriptor enclosing m.name d
      isStatic := m.has .isStatic, isVarargs := m.has .varargs, isAbstract := m.has .isAbstract }
  match m.signature.bind fun s => (GenericSignature.parseMethod s).toOption with
  | some g => pure (method.withGeneric (g.withBounds typeParams))
  | none => pure method

def declaration (nestings : List ClassFile.Nesting) (names : List String) (c : ClassFile) :
    TypeDeclaration :=
  let place := placeOf nestings names c.name
  let kind := kindOf c
  let header := c.signature.bind fun s => (GenericSignature.parseClass s).toOption
  let typeParams := (header.map (·.typeParams)).getD []
  { binary := c.name, kind, origin := .library
    simple := place.simple.getD (simpleName c.name)
    outer := place.outer
    superclass := c.superclass
    interfaces := c.interfaces
    typeParams
    genericSupers := (header.map fun h => h.superclass :: h.interfaces).getD []
    fields := c.fields.filterMap (field? typeParams)
    methods := c.methods.filterMap (method? typeParams (enclosingInstance? kind place))
    isLocal := place.isLocal }

/-- The declarations of all classes but synthetic ones. -/
def declarations (classes : List ClassFile) : List TypeDeclaration :=
  let nestings := classes.flatMap (·.nestings)
  let names := classes.map (·.name)
  (classes.filter fun c => !c.has .synthetic).map (declaration nestings names)

end Classpath

/-- Adds the classes of a class path to an index. -/
def TypeIndex.addClasspath (index : TypeIndex) (t : FileTree) (paths : List String) :
    Except ClasspathError TypeIndex := do
  return index.install (Classpath.declarations (← Classpath.load t paths))

end Renaming.Java
