import Renaming.Proofs.Java.SupertypeViews
import Renaming.Proofs.SortedMap

/-!
# Supertype views under substitution

Each step from a type to its declared supertypes replaces the type parameters by what the arguments
of the type say. Where declarations mention their own parameters only, nothing else is left for
another substitution to change, so that it makes no difference whether variables are replaced before
a type is seen as a supertype or in the arguments that this gives.
-/

namespace Renaming.Java

/-! ## Substitutions one after the other -/

mutual

/-- The variables that a substitution replaces: bounds are left out. -/
def GenericType.variables : GenericType → List String
  | .prim _ => []
  | .object _ args => argsVariables args
  | .array element => element.variables
  | .var name _ => [name]

def argsVariables : List TypeArgument → List String
  | [] => []
  | a :: rest => a.variables ++ argsVariables rest

def TypeArgument.variables : TypeArgument → List String
  | .exact t => t.variables
  | .extending t => t.variables
  | .superOf t => t.variables
  | .any => []

end

section Substitutions

variable {f g : String → Option GenericType}

mutual

/-- Only what stands for the variables of a type matters. -/
theorem GenericType.mapVars_congr : ∀ {t : GenericType}, (∀ x ∈ t.variables, f x = g x) →
    t.mapVars f = t.mapVars g
  | .prim _, _ => rfl
  | .object binary _, h => congrArg (GenericType.object binary) (mapVarsArgs_congr h)
  | .array _, h => congrArg GenericType.array (GenericType.mapVars_congr h)
  | .var name bound, h => congrArg (fun u : Option GenericType => u.getD (.var name bound))
      (h name (List.mem_singleton_self name))

theorem mapVarsArgs_congr : ∀ {args : List TypeArgument}, (∀ x ∈ argsVariables args, f x = g x) →
    GenericType.mapVarsArgs f args = GenericType.mapVarsArgs g args
  | [], _ => rfl
  | _ :: _, h => congrArg₂ List.cons
      (mapVarsArg_congr fun x hx => h x (List.mem_append_left _ hx))
      (mapVarsArgs_congr fun x hx => h x (List.mem_append_right _ hx))

theorem mapVarsArg_congr : ∀ {a : TypeArgument}, (∀ x ∈ a.variables, f x = g x) →
    GenericType.mapVarsArg f a = GenericType.mapVarsArg g a
  | .exact _, h => congrArg TypeArgument.exact (GenericType.mapVars_congr h)
  | .extending _, h => congrArg TypeArgument.extending (GenericType.mapVars_congr h)
  | .superOf _, h => congrArg TypeArgument.superOf (GenericType.mapVars_congr h)
  | .any, _ => rfl

end

/-- What stands for a variable after two substitutions: one that the first leaves alone is left to
the second. -/
def composed (f g : String → Option GenericType) (x : String) : Option GenericType :=
  ((f x).map (GenericType.mapVars g)).or (g x)

mutual

theorem GenericType.mapVars_mapVars (f g : String → Option GenericType) : ∀ t : GenericType,
    (t.mapVars f).mapVars g = t.mapVars (composed f g)
  | .prim _ => rfl
  | .object binary args => congrArg (GenericType.object binary) (mapVarsArgs_mapVarsArgs f g args)
  | .array element => congrArg GenericType.array (element.mapVars_mapVars f g)
  | .var name bound => by
    rw [GenericType.mapVars, GenericType.mapVars, composed]
    cases f name with
    | none => rfl
    | some u => rfl

theorem mapVarsArgs_mapVarsArgs (f g : String → Option GenericType) : ∀ args : List TypeArgument,
    GenericType.mapVarsArgs g (GenericType.mapVarsArgs f args) =
      GenericType.mapVarsArgs (composed f g) args
  | [] => rfl
  | a :: rest =>
    congrArg₂ List.cons (mapVarsArg_mapVarsArg f g a) (mapVarsArgs_mapVarsArgs f g rest)

theorem mapVarsArg_mapVarsArg (f g : String → Option GenericType) : ∀ a : TypeArgument,
    GenericType.mapVarsArg g (GenericType.mapVarsArg f a) = GenericType.mapVarsArg (composed f g) a
  | .exact t => congrArg TypeArgument.exact (t.mapVars_mapVars f g)
  | .extending t => congrArg TypeArgument.extending (t.mapVars_mapVars f g)
  | .superOf t => congrArg TypeArgument.superOf (t.mapVars_mapVars f g)
  | .any => rfl

end

end Substitutions

/-- An erased type has no variables. -/
theorem GenericType.mapVars_ofErased (g : String → Option GenericType) (t : FieldType) :
    (ofErased t).mapVars g = ofErased t := by
  induction t with
  | prim p => rfl
  | object binary => rfl
  | array element ih => exact congrArg GenericType.array ih

/-! ## Arguments of a use -/

/-- Replaces the variables of an argument. -/
def TypeArgument.subst (bindings : Bindings) : TypeArgument → TypeArgument :=
  GenericType.mapVarsArg bindings.get?

theorem GenericType.subst_object (bindings : Bindings) (binary : String)
    (args : List TypeArgument) :
    (object binary args).subst bindings = object binary (args.map (·.subst bindings)) :=
  congrArg (object binary) (mapVarsArgs_eq_map _ args)

/-- What a parameter with the given erasure stands for where `a` is its argument. -/
theorem TypeArgument.bound?_subst (bindings : Bindings) (a : TypeArgument) (erased : FieldType) :
    (a.subst bindings).bound?.getD (.ofErased erased) =
      (a.bound?.getD (.ofErased erased)).subst bindings := by
  cases a with
  | exact t | extending t | superOf t => rfl
  | any => exact (GenericType.mapVars_ofErased _ erased).symm

namespace Bindings

variable {params : List TypeParameter}

/-- A use with any arguments says what each parameter stands for. -/
theorem exists_get?_ofArguments (args : List TypeArgument) {x : String}
    (hx : x ∈ params.map (·.name)) :
    ∃ t, (ofArguments params args).get? x = some t := by
  rw [← SortedMap.mem_keys_iff, ofArguments]
  split
  · rename_i hlength
    rw [SortedMap.mem_keys_ofList_iff, List.map_map]
    have hnames : ((params.zip args).map Prod.fst).map (·.name) = params.map (·.name) := by
      rw [List.map_fst_zip hlength.ge]
    rw [← hnames, List.map_map] at hx
    exact hx
  · rw [SortedMap.mem_keys_ofList_iff, List.map_map]
    exact hx

/-- Replacing variables in the arguments of a use replaces them in what the parameters stand for. -/
theorem get?_ofArguments_subst (params : List TypeParameter) (args : List TypeArgument)
    (bindings : Bindings) (x : String) :
    (ofArguments params (args.map (·.subst bindings))).get? x =
      ((ofArguments params args).get? x).map (·.subst bindings) := by
  rw [ofArguments, ofArguments, List.length_map]
  split
  · rw [← SortedMap.get?_ofList_map, List.map_map, List.zip_map_right, List.map_map]
    refine congrArg (fun l => (SortedMap.ofList l).get? x) (List.map_congr_left ?_)
    rintro ⟨p, a⟩ -
    exact congrArg (Prod.mk p.name) (a.bound?_subst bindings p.bound.erasure)
  · rw [← SortedMap.get?_ofList_map, List.map_map]
    refine congrArg (fun l => (SortedMap.ofList l).get? x) (List.map_congr_left ?_)
    rintro p -
    exact congrArg (Prod.mk p.name) (GenericType.mapVars_ofErased _ _).symm

/-- A type in the parameters only has nothing left to replace once these stand for something. -/
theorem subst_ofArguments_subst {t : GenericType} (args : List TypeArgument) (bindings : Bindings)
    (ht : ∀ x ∈ t.variables, x ∈ params.map (·.name)) :
    (t.subst (ofArguments params args)).subst bindings =
      t.subst (ofArguments params (args.map (·.subst bindings))) := by
  rw [GenericType.subst, GenericType.subst, GenericType.subst, GenericType.mapVars_mapVars]
  refine GenericType.mapVars_congr fun x hx => ?_
  obtain ⟨u, hu⟩ := exists_get?_ofArguments args (ht x hx)
  rw [composed, get?_ofArguments_subst, hu]
  rfl

end Bindings

/-! ## The search -/

/-- Whether the supertypes are class types that mention none but the own parameters. -/
structure TypeDeclaration.ClosedSupertypes (d : TypeDeclaration) : Prop where
  isObject : ∀ t ∈ d.genericSupertypes, ∃ binary args, t = .object binary args
  variables_mem : ∀ t ∈ d.genericSupertypes, ∀ x ∈ t.variables, x ∈ d.typeParams.map (·.name)

namespace TypeIndex

theorem findSome?_congr {α β : Type} {f g : α → Option β} {l : List α} (h : ∀ a ∈ l, f a = g a) :
    l.findSome? f = l.findSome? g := by
  induction l with
  | nil => rfl
  | cons a rest ih =>
    rw [List.findSome?_cons, List.findSome?_cons, h a List.mem_cons_self,
      ih fun b hb => h b (List.mem_cons_of_mem _ hb)]

variable {index : TypeIndex} {target : String}

theorem asSuperWithin_subst
    (hsupers : ∀ binary d, index.get? binary = some d → d.ClosedSupertypes) (bindings : Bindings)
    (fuel : Nat) (binary : String) (args : List TypeArgument) :
    index.asSuperWithin target fuel ((GenericType.object binary args).subst bindings) =
      (index.asSuperWithin target fuel (.object binary args)).map
        (List.map (·.subst bindings)) := by
  induction fuel generalizing binary args with
  | zero => rfl
  | succ fuel ih =>
    rw [GenericType.subst_object, asSuperWithin, asSuperWithin]
    split
    · rfl
    split
    · rfl
    cases hget : index.get? binary with
    | none => rfl
    | some d =>
      have hclosed := hsupers binary d hget
      simp only [Option.bind_eq_bind, Option.bind_some]
      rw [List.map_findSome?]
      refine findSome?_congr fun sup hsup => ?_
      -- a supertype stays a class type under the first substitution, so the search goes on from one
      obtain ⟨b, bargs, rfl⟩ := hclosed.isObject sup hsup
      rw [← Bindings.subst_ofArguments_subst args bindings (hclosed.variables_mem _ hsup),
        GenericType.subst_object, ih, Function.comp_apply, GenericType.subst_object]

/-- Where the supertypes of declarations are class types that mention no variables but the own
parameters, seeing a class type as a supertype commutes with substitution: raw uses, uses with
another number of arguments and wildcards included. -/
theorem asSuper?_subst (index : TypeIndex)
    (hsupers : ∀ binary d, index.get? binary = some d → d.ClosedSupertypes) (binary : String)
    (args : List TypeArgument) (target : String) (bindings : Bindings) :
    index.asSuper? ((GenericType.object binary args).subst bindings) target =
      (index.asSuper? (.object binary args) target).map (List.map (·.subst bindings)) :=
  asSuperWithin_subst hsupers bindings (maxDepth + 1) binary args

section Instances

theorem closedSupertypes_cyclicClasses (binary : String) (d : TypeDeclaration)
    (hd : cyclicClasses.get? binary = some d) : d.ClosedSupertypes := by
  refine ⟨(namesSupertypes_cyclicClasses binary d hd).isObject, ?_⟩
  have hall : ∀ d ∈ cyclicDeclarations, ∀ t ∈ d.genericSupertypes, ∀ x ∈ t.variables,
      x ∈ d.typeParams.map (·.name) := by
    decide +kernel
  obtain ⟨d', hd', heq⟩ := List.mem_map.1 (SortedMap.mem_of_get?_ofList hd)
  cases heq
  exact hall d hd'

/-- A wildcard, a raw use and one with two arguments. -/
theorem asSuper?_subst_cyclicClasses :
    (∀ binary d, cyclicClasses.get? binary = some d → d.ClosedSupertypes) ∧
      cyclicClasses.asSuper?
          ((GenericType.object "p.A" [.extending (.var "S" .objectClass)]).subst
            (.ofList [("S", .raw "p.C"), ("T", .raw "p.D")])) "p.B" =
        some [.exact (.array (.raw "p.C"))] ∧
      cyclicClasses.asSuper?
          ((GenericType.object "p.A" []).subst (.ofList [("T", .raw "p.D")])) "p.B" =
        some [.exact (.array .objectClass)] ∧
      cyclicClasses.asSuper?
          ((GenericType.object "p.A" [.any, .exact (.var "T" .objectClass)]).subst
            (.ofList [("T", .raw "p.D")])) "p.I" = some [] := by
  refine ⟨closedSupertypes_cyclicClasses, ?_, ?_, ?_⟩
  · rw [asSuper?_subst _ closedSupertypes_cyclicClasses]
    decide +kernel
  · rw [asSuper?_subst _ closedSupertypes_cyclicClasses]
    decide +kernel
  · rw [asSuper?_subst _ closedSupertypes_cyclicClasses]
    decide +kernel

end Instances

end TypeIndex

end Renaming.Java
