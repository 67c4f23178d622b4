import Renaming.Java.Hierarchy

/-!
# Overload selection

The method that a call means among several of one name. Applicability is decided in three phases,
by subtyping, then with boxing, then with a variable number of arguments; the most specific
applicable method of the first phase that has any is the one called.
-/

namespace Renaming.Java

/-- The static type of an expression. -/
inductive ExprType where
  | value (type : GenericType)
  | null
  /-- Not determined, and so compatible with everything. -/
  | unknown
  deriving DecidableEq, Inhabited

namespace ExprType

def raw (binary : String) : ExprType := value (.raw binary)

def erased (t : FieldType) : ExprType := value (.ofErased t)

def prim (p : Primitive) : ExprType := value (.prim p)

/-- The class whose members the expression exposes. -/
def className? : ExprType → Option String
  | value t => t.className?
  | _ => none

def value? : ExprType → Option GenericType
  | value t => some t
  | _ => none

def ofOption : Option GenericType → ExprType
  | some t => value t
  | none => unknown

end ExprType

inductive Phase where
  | strict
  | loose
  | varargs
  deriving DecidableEq, Repr

/-- The outcome of a choice among candidates, given by their places. -/
inductive Selection where
  | found (candidate : Nat)
  /-- Several candidates apply and none is the most specific. -/
  | ambiguous (candidates : List Nat)
  | noMatch
  deriving DecidableEq, Repr

namespace TypeIndex

def referenceAssignable (index : TypeIndex) : FieldType → FieldType → Bool
  | .object source, .object target =>
    target == objectName || !index.contains source || index.isSubtype source target
  | .array _, .object target =>
    target == objectName || target == "java.lang.Cloneable" || target == "java.io.Serializable"
  | .array a, .array b =>
    if a.isPrimitive || b.isPrimitive then a == b else index.referenceAssignable a b
  | .prim _, .object target => target == objectName
  | _, _ => false

/-- Whether a value of an erased type may be passed where another is expected. -/
def erasedAssignable (index : TypeIndex) (source target : FieldType) (boxing : Bool) : Bool :=
  source == target ||
    match source, target with
    | .prim p, .prim q => p.widensTo q
    | .prim p, _ => boxing && index.referenceAssignable (.object p.boxed) target
    | _, .prim q => boxing && source.unboxed?.any (·.widensTo q)
    | _, _ => index.referenceAssignable source target

/-- Whether a value may be passed where the type `target` is expected. -/
def assignable (index : TypeIndex) (source : ExprType) (target : FieldType) (boxing : Bool) :
    Bool :=
  match source with
  | .unknown => true
  | .null => !target.isPrimitive
  | .value t => index.erasedAssignable t.erasure target boxing

end TypeIndex

namespace MethodDeclaration

/-- The declared type of the parameter that receives argument `i`. -/
def receivingType? (m : MethodDeclaration) (i : Nat) (phase : Phase) : Option FieldType :=
  let params := m.descriptor.params
  if phase == .varargs && m.isVarargs && params.length ≤ i + 1 then
    match params.getLast? with
    | some (.array element) => some element
    | last => last
  else params[i]?

/-- Whether the method takes that many arguments. -/
def takes (m : MethodDeclaration) (count : Nat) (phase : Phase) : Bool :=
  let arity := m.descriptor.params.length
  match phase with
  | .varargs => m.isVarargs && arity ≤ count + 1
  | _ => count == arity

end MethodDeclaration

namespace TypeIndex

def applicable (index : TypeIndex) (m : MethodDeclaration) (args : List ExprType) (phase : Phase) :
    Bool :=
  m.takes args.length phase &&
    args.zipIdx.all fun (arg, i) =>
      (m.receivingType? i phase).any fun param =>
        index.assignable arg param (phase != .strict)

/-- Whether every argument that `m` takes could be passed on to `n`. -/
def moreSpecific (index : TypeIndex) (m n : MethodDeclaration) (count : Nat) (phase : Phase) :
    Bool :=
  let count :=
    if phase == .varargs then
      max (max count m.descriptor.params.length) n.descriptor.params.length
    else count
  (List.range count).all fun i =>
    match m.receivingType? i phase, n.receivingType? i phase with
    | some p, some q => index.assignable (.erased p) q false
    | _, _ => true

/-- The places of the candidates that a phase admits. -/
def applicableIn (index : TypeIndex) (candidates : List MethodDeclaration) (args : List ExprType)
    (phase : Phase) : List Nat :=
  (candidates.zipIdx.filter fun (m, _) => index.applicable m args phase).map Prod.snd

/-- Whether a candidate is more specific than all the others that apply. -/
def isMaximal (index : TypeIndex) (candidates : List MethodDeclaration) (places : List Nat)
    (count : Nat) (phase : Phase) (i : Nat) : Bool :=
  places.all fun j => i == j ||
    match candidates[i]?, candidates[j]? with
    | some m, some n => index.moreSpecific m n count phase
    | _, _ => true

def selectIn (index : TypeIndex) (candidates : List MethodDeclaration) (args : List ExprType)
    (phase : Phase) : Selection :=
  match index.applicableIn candidates args phase with
  | [] => .noMatch
  | [one] => .found one
  | places =>
    match places.filter (index.isMaximal candidates places args.length phase) with
    | [one] => .found one
    | _ => .ambiguous places

/-- The method called with the given arguments. -/
def selectOverload (index : TypeIndex) (candidates : List MethodDeclaration)
    (args : List ExprType) : Selection :=
  match index.selectIn candidates args .strict with
  | .noMatch =>
    match index.selectIn candidates args .loose with
    | .noMatch => index.selectIn candidates args .varargs
    | chosen => chosen
  | chosen => chosen

end TypeIndex

end Renaming.Java
