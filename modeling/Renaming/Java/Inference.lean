import Renaming.Java.Overload

/-!
# Generic members

How type arguments travel: from a value to the members that it exposes, from arguments to the type
variables of a method, and from a functional interface to the parameters of a lambda.
-/

namespace Renaming.Java

namespace TypeIndex

/-- A type as its own body sees it, with its type parameters as arguments. -/
def thisType (index : TypeIndex) (binary : String) : GenericType :=
  .object binary (((index.get? binary).map TypeDeclaration.typeParams).getD [] |>.map
    fun p => .exact p.var)

/-- Chains of supertypes longer than this are taken to be cyclic. -/
def maxDepth : Nat := 64

/-- The arguments of a type seen as its supertype `target`, along a chain of at most `depth`
types. -/
def asSuperWithin (index : TypeIndex) (target : String) :
    Nat → GenericType → Option (List TypeArgument)
  | 0, _ => none
  | depth + 1, .var _ bound => index.asSuperWithin target depth bound
  | depth + 1, .object binary args =>
    if binary = target then some args
    else if target = objectName then some []
    else do
      let d ← index.get? binary
      let bindings := Bindings.ofArguments d.typeParams args
      d.genericSupertypes.findSome? fun sup =>
        index.asSuperWithin target depth (sup.subst bindings)
  | _ + 1, _ => none

/-- The arguments of a type seen as its supertype `target`; they are missing if it is none, and
there are none in a raw view. -/
def asSuper? (index : TypeIndex) (t : GenericType) (target : String) :
    Option (List TypeArgument) :=
  index.asSuperWithin target (maxDepth + 1) t

/-- What the type parameters of `owner` stand for when a member of it is reached through a value of
the type `receiver`. -/
def memberBindings (index : TypeIndex) (receiver : GenericType) (owner : String) : Bindings :=
  match index.get? owner with
  | none => {}
  | some d =>
    if d.typeParams.isEmpty then {}
    else Bindings.ofArguments d.typeParams ((index.asSuper? receiver owner).getD [])

mutual

/-- Extends bindings by what passing a value of the type `arg` for the given parameter type says
about the variables; the first binding of a variable stays. -/
def infer (index : TypeIndex) (vars : List TypeParameter) :
    GenericType → GenericType → Bindings → Bindings
  | .var name _, arg, known =>
    if vars.any (·.name == name) then known.insertIfNew name arg.boxed else known
  | .array p, .array a, known => index.infer vars p a known
  | .object binary params, arg, known =>
    if params.isEmpty then known
    else
      match index.asSuper? arg binary with
      | none => known
      | some args => index.inferArguments vars params args known
  | _, _, known => known

def inferArguments (index : TypeIndex) (vars : List TypeParameter) :
    List TypeArgument → List TypeArgument → Bindings → Bindings
  | p :: ps, a :: as, known => index.inferArguments vars ps as (index.inferArgument vars p a known)
  | _, _, known => known

def inferArgument (index : TypeIndex) (vars : List TypeParameter) :
    TypeArgument → TypeArgument → Bindings → Bindings
  | .exact p, a, known | .extending p, a, known | .superOf p, a, known =>
    match a.bound? with
    | some t => index.infer vars p t known
    | none => known
  | .any, _, known => known

end

/-- Methods that every object has. -/
def isObjectMethod (m : MethodDeclaration) : Bool :=
  match m.name, m.descriptor.paramsText with
  | "equals", "(Ljava/lang/Object;)" => true
  | "hashCode", "()" => true
  | "toString", "()" => true
  | _, _ => false

/-- Keeps the first of several methods with one name and the same parameter types: nearer ones
settle whether a method is abstract. -/
def dropSettled (taken : List String) :
    List (String × MethodDeclaration) → List (String × MethodDeclaration)
  | [] => []
  | (type, m) :: rest =>
    let key := m.name ++ m.descriptor.paramsText
    if taken.contains key then dropSettled taken rest
    else (type, m) :: dropSettled (key :: taken) rest

def instanceMethods (index : TypeIndex) (type : String) : List (String × MethodDeclaration) :=
  match index.get? type with
  | none => []
  | some d => (d.methods.filter (!·.isStatic)).map fun m => (type, m)

def abstractMethods (index : TypeIndex) (binary : String) : List (String × MethodDeclaration) :=
  let types := (index.chain binary).filter (· != objectName)
  (dropSettled [] (types.flatMap index.instanceMethods)).filter fun (_, m) =>
    m.isAbstract && !isObjectMethod m

/-- Parameter and result types of the single abstract method of a functional interface. -/
def functionType? (index : TypeIndex) (target : GenericType) :
    Option (List GenericType × Option GenericType) := do
  let binary ← target.className?
  let d ← index.get? binary
  if !d.kind.isInterface then none
  match index.abstractMethods binary with
  | [(owner, m)] =>
    let bindings := index.memberBindings target owner
    pure (m.genericParams.map (·.subst bindings), m.genericRet.map (·.subst bindings))
  | _ => none

end TypeIndex

end Renaming.Java
