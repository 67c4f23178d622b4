import Renaming.Text

/-!
# Descriptors

Erased value types and method descriptors as compiled classes write them: a letter for each
primitive, `L` and a name up to `;` for a class, `[` before the element of an array. Class names are
kept with dots and written with slashes.
-/

namespace Renaming

inductive Primitive where
  | byte
  | char
  | double
  | float
  | int
  | long
  | short
  | boolean
  deriving DecidableEq, Repr, Inhabited

namespace Primitive

def letter : Primitive → Char
  | byte => 'B'
  | char => 'C'
  | double => 'D'
  | float => 'F'
  | int => 'I'
  | long => 'J'
  | short => 'S'
  | boolean => 'Z'

def ofLetter? : Char → Option Primitive
  | 'B' => some byte
  | 'C' => some char
  | 'D' => some double
  | 'F' => some float
  | 'I' => some int
  | 'J' => some long
  | 'S' => some short
  | 'Z' => some boolean
  | _ => none

@[simp] theorem ofLetter?_letter (p : Primitive) : ofLetter? p.letter = some p := by
  cases p <;> rfl

/-- The keyword of a primitive type in source text. -/
def ofKeyword? : String → Option Primitive
  | "byte" => some byte
  | "char" => some char
  | "double" => some double
  | "float" => some float
  | "int" => some int
  | "long" => some long
  | "short" => some short
  | "boolean" => some boolean
  | _ => none

/-- The class that wraps values of a primitive type. -/
def boxed : Primitive → String
  | byte => "java.lang.Byte"
  | char => "java.lang.Character"
  | double => "java.lang.Double"
  | float => "java.lang.Float"
  | int => "java.lang.Integer"
  | long => "java.lang.Long"
  | short => "java.lang.Short"
  | boolean => "java.lang.Boolean"

def ofBoxed? : String → Option Primitive
  | "java.lang.Byte" => some byte
  | "java.lang.Character" => some char
  | "java.lang.Double" => some double
  | "java.lang.Float" => some float
  | "java.lang.Integer" => some int
  | "java.lang.Long" => some long
  | "java.lang.Short" => some short
  | "java.lang.Boolean" => some boolean
  | _ => none

/-- The types a widening conversion leads to, the type itself left out. -/
def wider : Primitive → List Primitive
  | byte => [short, int, long, float, double]
  | short => [int, long, float, double]
  | char => [int, long, float, double]
  | int => [long, float, double]
  | long => [float, double]
  | float => [double]
  | double => []
  | boolean => []

def widensTo (p q : Primitive) : Bool := p == q || p.wider.contains q

def isNumeric (p : Primitive) : Bool := p != boolean

end Primitive

/-- An erased value type; a class is given by its binary name with dots. -/
inductive FieldType where
  | prim (p : Primitive)
  | object (name : String)
  | array (element : FieldType)
  deriving DecidableEq, Repr, Inhabited

namespace FieldType

def objectClass : FieldType := object "java.lang.Object"

def stringClass : FieldType := object "java.lang.String"

/-- The type with `dims` array dimensions around it. -/
def withDims (t : FieldType) : Nat → FieldType
  | 0 => t
  | dims + 1 => array (withDims t dims)

def primitive? : FieldType → Option Primitive
  | prim p => some p
  | _ => none

def isPrimitive (t : FieldType) : Bool := t.primitive?.isSome

def isNumeric (t : FieldType) : Bool := t.primitive?.any Primitive.isNumeric

def boxed? (t : FieldType) : Option String := t.primitive?.map Primitive.boxed

def unboxed? : FieldType → Option Primitive
  | object name => Primitive.ofBoxed? name
  | _ => none

/-- Equal types, and primitives between which a widening conversion exists. -/
def widensTo : FieldType → FieldType → Bool
  | prim p, prim q => p.widensTo q
  | t, u => t == u

def text : FieldType → String
  | prim p => String.ofList [p.letter]
  | object name => "L" ++ Text.replaceChar '.' '/' name ++ ";"
  | array element => "[" ++ text element

end FieldType

/-- Parameter types and result type; a method without result has none. -/
structure MethodDescriptor where
  params : List FieldType
  ret : Option FieldType
  deriving DecidableEq, Repr, Inhabited

namespace MethodDescriptor

/-- The parameter part: methods with equal parameter parts override each other. -/
def paramsText (d : MethodDescriptor) : String :=
  "(" ++ String.join (d.params.map FieldType.text) ++ ")"

def text (d : MethodDescriptor) : String :=
  d.paramsText ++ (d.ret.map FieldType.text).getD "V"

end MethodDescriptor

structure DescriptorError where
  input : String
  deriving DecidableEq, Repr

def DescriptorError.message (e : DescriptorError) : String :=
  "invalid descriptor '" ++ e.input ++ "'"

namespace Descriptor

/-- A type off the front of the text. -/
def fieldType : List Char → Option (FieldType × List Char)
  | [] => none
  | 'L' :: rest =>
    match rest.takeWhile (· != ';'), rest.dropWhile (· != ';') with
    | [], _ => none
    | _, [] => none
    | name, _ :: after =>
      some (.object (Text.replaceChar '/' '.' (String.ofList name)), after)
  | '[' :: rest => (fieldType rest).map fun (t, after) => (.array t, after)
  | c :: rest => (Primitive.ofLetter? c).map fun p => (.prim p, rest)

/-- As many types as stand at the front of the text, at most `fuel` of them. -/
def fieldTypes : Nat → List Char → List FieldType × List Char
  | 0, cs => ([], cs)
  | fuel + 1, cs =>
    match fieldType cs with
    | none => ([], cs)
    | some (t, rest) =>
      let (ts, rest) := fieldTypes fuel rest
      (t :: ts, rest)

def parseField (input : String) : Except DescriptorError FieldType :=
  match fieldType input.toList with
  | some (t, []) => .ok t
  | _ => .error ⟨input⟩

def returnType : List Char → Option (Option FieldType)
  | ['V'] => some none
  | cs =>
    match fieldType cs with
    | some (t, []) => some (some t)
    | _ => none

def parseMethod (input : String) : Except DescriptorError MethodDescriptor :=
  match input.toList with
  | '(' :: rest =>
    match fieldTypes rest.length rest with
    | (params, ')' :: rest) =>
      match returnType rest with
      | some ret => .ok ⟨params, ret⟩
      | none => .error ⟨input⟩
    | _ => .error ⟨input⟩
  | _ => .error ⟨input⟩

end Descriptor

end Renaming
