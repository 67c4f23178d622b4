import Renaming.Descriptor
import Renaming.SortedMap

/-!
# Generic types

Types with their type arguments. Descriptors are erased, expression types are not: a value of type
`Box<A>` exposes the members of `Box` with its variable standing for `A`. `GenericType.erasure`
leads back to descriptors, `GenericType.subst` replaces type variables.
-/

namespace Renaming.Java

/-- The root of the class hierarchy. -/
def objectName : String := "java.lang.Object"

mutual

/-- A class type without arguments is raw; a type variable carries its first bound. -/
inductive GenericType where
  | prim (p : Primitive)
  | object (binary : String) (args : List TypeArgument)
  | array (element : GenericType)
  | var (name : String) (bound : GenericType)

/-- A type argument: a type, `? extends` or `? super` a type, or `?`. -/
inductive TypeArgument where
  | exact (type : GenericType)
  | extending (type : GenericType)
  | superOf (type : GenericType)
  | any

end

mutual

def GenericType.decEq : (a b : GenericType) → Decidable (a = b)
  | .prim p, .prim q => decidable_of_iff (p = q) (by simp)
  | .object b xs, .object c ys =>
    have := decEqArguments xs ys
    decidable_of_iff (b = c ∧ xs = ys) (by simp)
  | .array a, .array b =>
    have := GenericType.decEq a b
    decidable_of_iff (a = b) (by simp)
  | .var n a, .var m b =>
    have := GenericType.decEq a b
    decidable_of_iff (n = m ∧ a = b) (by simp)
  | .prim _, .object .. | .prim _, .array _ | .prim _, .var .. => .isFalse nofun
  | .object .., .prim _ | .object .., .array _ | .object .., .var .. => .isFalse nofun
  | .array _, .prim _ | .array _, .object .. | .array _, .var .. => .isFalse nofun
  | .var .., .prim _ | .var .., .object .. | .var .., .array _ => .isFalse nofun

def decEqArguments : (a b : List TypeArgument) → Decidable (a = b)
  | [], [] => .isTrue rfl
  | a :: xs, b :: ys =>
    have := TypeArgument.decEq a b
    have := decEqArguments xs ys
    decidable_of_iff (a = b ∧ xs = ys) (by simp)
  | [], _ :: _ | _ :: _, [] => .isFalse nofun

def TypeArgument.decEq : (a b : TypeArgument) → Decidable (a = b)
  | .exact a, .exact b =>
    have := GenericType.decEq a b
    decidable_of_iff (a = b) (by simp)
  | .extending a, .extending b =>
    have := GenericType.decEq a b
    decidable_of_iff (a = b) (by simp)
  | .superOf a, .superOf b =>
    have := GenericType.decEq a b
    decidable_of_iff (a = b) (by simp)
  | .any, .any => .isTrue rfl
  | .exact _, .extending _ | .exact _, .superOf _ | .exact _, .any => .isFalse nofun
  | .extending _, .exact _ | .extending _, .superOf _ | .extending _, .any => .isFalse nofun
  | .superOf _, .exact _ | .superOf _, .extending _ | .superOf _, .any => .isFalse nofun
  | .any, .exact _ | .any, .extending _ | .any, .superOf _ => .isFalse nofun

end

instance : DecidableEq GenericType := GenericType.decEq

instance : DecidableEq TypeArgument := TypeArgument.decEq

instance : Inhabited GenericType := ⟨.object objectName []⟩

instance : Inhabited TypeArgument := ⟨.any⟩

/-- The type that an argument is read as; `?` has none of its own. -/
def TypeArgument.bound? : TypeArgument → Option GenericType
  | exact t => some t
  | extending t => some t
  | superOf t => some t
  | any => none

/-- A declared type variable with its first bound. -/
structure TypeParameter where
  name : String
  bound : GenericType
  deriving DecidableEq, Inhabited

/-- What stands for each type variable. -/
abbrev Bindings := SortedMap String GenericType

namespace GenericType

def raw (binary : String) : GenericType := object binary []

def objectClass : GenericType := raw objectName

def ofErased : FieldType → GenericType
  | .prim p => prim p
  | .object binary => raw binary
  | .array element => array (ofErased element)

def erasure : GenericType → FieldType
  | prim p => .prim p
  | object binary _ => .object binary
  | array element => .array (erasure element)
  | var _ bound => erasure bound

@[simp] theorem erasure_ofErased (t : FieldType) : (ofErased t).erasure = t := by
  induction t with
  | prim p => rfl
  | object name => rfl
  | array element ih => rw [ofErased, erasure, ih]

/-- The class whose members a value of the type exposes. -/
def className? : GenericType → Option String
  | prim _ => none
  | object binary _ => some binary
  | array _ => some objectName
  | var _ bound => className? bound

def args : GenericType → List TypeArgument
  | object _ args => args
  | _ => []

def isPrimitive : GenericType → Bool
  | prim _ => true
  | _ => false

/-- Whether erasure loses anything. -/
def isGeneric : GenericType → Bool
  | prim _ => false
  | object _ args => !args.isEmpty
  | array element => isGeneric element
  | var _ _ => true

def withDims (t : GenericType) : Nat → GenericType
  | 0 => t
  | dims + 1 => array (withDims t dims)

/-- A primitive becomes the class that wraps it. -/
def boxed : GenericType → GenericType
  | prim p => raw p.boxed
  | t => t

mutual

/-- Replaces each variable of the type, bounds left out, by what `f` gives for it. -/
def mapVars (f : String → Option GenericType) : GenericType → GenericType
  | prim p => prim p
  | object binary args => object binary (mapVarsArgs f args)
  | array element => array (mapVars f element)
  | var name bound => (f name).getD (var name bound)

def mapVarsArgs (f : String → Option GenericType) : List TypeArgument → List TypeArgument
  | [] => []
  | a :: rest => mapVarsArg f a :: mapVarsArgs f rest

def mapVarsArg (f : String → Option GenericType) : TypeArgument → TypeArgument
  | .exact t => .exact (mapVars f t)
  | .extending t => .extending (mapVars f t)
  | .superOf t => .superOf (mapVars f t)
  | .any => .any

end

theorem mapVarsArgs_eq_map (f : String → Option GenericType) (args : List TypeArgument) :
    mapVarsArgs f args = args.map (mapVarsArg f) := by
  induction args with
  | nil => rfl
  | cons a rest ih => simp [mapVarsArgs, ih]

def subst (bindings : Bindings) : GenericType → GenericType := mapVars bindings.get?

end GenericType

namespace TypeParameter

/-- The variable as a type. -/
def var (p : TypeParameter) : GenericType := .var p.name p.bound

/-- The variable of the given name as a type, with its declared bound. -/
def find? (scope : List TypeParameter) (name : String) : Option GenericType :=
  (scope.find? fun p => p.name == name).map var

end TypeParameter

namespace GenericType

/-- Gives each variable that `scope` declares its declared bound. -/
def withBounds (scope : List TypeParameter) : GenericType → GenericType :=
  mapVars (TypeParameter.find? scope)

mutual

def text : GenericType → String
  | prim p => String.ofList [p.letter]
  | object binary [] => binary
  | object binary (a :: rest) => binary ++ "<" ++ argText a ++ argsText rest ++ ">"
  | array element => text element ++ "[]"
  | var name _ => name

/-- Further arguments, each after a comma. -/
def argsText : List TypeArgument → String
  | [] => ""
  | a :: rest => "," ++ argText a ++ argsText rest

def argText : TypeArgument → String
  | .exact t => text t
  | .extending t => "? extends " ++ text t
  | .superOf t => "? super " ++ text t
  | .any => "?"

end

end GenericType

/-- Each parameter under the bounds that `scope` declares. -/
def TypeParameter.withBounds (scope : List TypeParameter) (p : TypeParameter) : TypeParameter :=
  ⟨p.name, p.bound.withBounds scope⟩

/-- What the parameters stand for in a use with the given arguments. In a raw use, or one with
another number of arguments, each stands for its erasure; `?` does so too. -/
def Bindings.ofArguments (params : List TypeParameter) (args : List TypeArgument) : Bindings :=
  if args.length = params.length then
    .ofList ((params.zip args).map fun (p, a) =>
      (p.name, a.bound?.getD (.ofErased p.bound.erasure)))
  else
    .ofList (params.map fun p => (p.name, .ofErased p.bound.erasure))

/-- A method's header with type arguments and type variables. -/
structure GenericMethod where
  typeParams : List TypeParameter
  params : List GenericType
  ret : Option GenericType
  deriving DecidableEq

namespace GenericMethod

def erasure (m : GenericMethod) : MethodDescriptor :=
  ⟨m.params.map GenericType.erasure, m.ret.map GenericType.erasure⟩

def isGeneric (m : GenericMethod) : Bool :=
  !m.typeParams.isEmpty || m.params.any GenericType.isGeneric || m.ret.any GenericType.isGeneric

/-- Gives variables their declared bounds: the method's own variables first, then `outer`. -/
def withBounds (m : GenericMethod) (outer : List TypeParameter) : GenericMethod :=
  let own := m.typeParams.map (TypeParameter.withBounds (m.typeParams ++ outer))
  { typeParams := own
    params := m.params.map (GenericType.withBounds (own ++ outer))
    ret := m.ret.map (GenericType.withBounds (own ++ outer)) }

end GenericMethod

/-- A class header with type arguments and type variables. -/
structure ClassHeader where
  typeParams : List TypeParameter
  superclass : GenericType
  interfaces : List GenericType
  deriving DecidableEq

end Renaming.Java
