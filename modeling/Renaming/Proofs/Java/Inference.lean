import Renaming.Proofs.Java.SupertypeViews.Substitution

/-!
# Inference from instances of a type

Passing an instance of a type where that type is expected tells what its variables stand for. Bounds
are not looked into, and a primitive type stands for no variable, as its wrapper is taken instead.
-/

namespace Renaming.Java

namespace Bindings

/-- Whether `learned` has what was known before, and for further variables among `names` what
`bindings` has. -/
def Learns (bindings : Bindings) (names : List String) (known learned : Bindings) : Prop :=
  ∀ x, learned.get? x = (known.get? x).or (if x ∈ names then bindings.get? x else none)

namespace Learns

variable {bindings known learned final : Bindings} {names more : List String}

theorem nothing (bindings known : Bindings) : bindings.Learns [] known known := by
  intro x
  simp

theorem trans (h : bindings.Learns names known learned) (h' : bindings.Learns more learned final) :
    bindings.Learns (names ++ more) known final := by
  intro x
  rw [h' x, h x, Option.or_assoc]
  congr 1
  by_cases hx : x ∈ names
  · rw [if_pos hx, if_pos (List.mem_append_left _ hx)]
    cases bindings.get? x with
    | some t => rfl
    | none => rw [Option.none_or, ite_self]
  · rw [if_neg hx, Option.none_or]
    simp only [List.mem_append, hx, false_or]

/-- The first binding of a variable stays. -/
theorem insertIfNew {name : String} {t : GenericType} (h : bindings.get? name = some t) :
    bindings.Learns [name] known (known.insertIfNew name t) := by
  intro x
  rw [SortedMap.get?_insertIfNew]
  by_cases hx : x = name
  · subst hx
    rw [if_pos (beq_self_eq_true x), if_pos (List.mem_singleton_self x), h]
    cases known.get? x <;> rfl
  · rw [if_neg (by simpa using hx), if_neg (by simpa using hx), Option.or_none]

/-- What is learned from nothing is a part of the bindings. -/
theorem eq_filter (h : bindings.Learns names {} learned) :
    learned = bindings.filter fun x _ => names.contains x := by
  apply SortedMap.ext_get?
  intro x
  rw [h x, SortedMap.get?_filter]
  change (if x ∈ names then bindings.get? x else none) = _
  by_cases hx : x ∈ names
  · simp only [if_pos hx, List.contains_iff_mem.2 hx]
    cases bindings.get? x <;> rfl
  · simp [hx]

end Learns

/-- Whether bindings say what the given parameters stand for, and nothing else. Only references
stand for a type variable. -/
structure StandFor (bindings : Bindings) (vars : List TypeParameter) : Prop where
  mem_keys_iff : ∀ x, x ∈ bindings.keys ↔ x ∈ vars.map (·.name)
  isReference : ∀ x t, bindings.get? x = some t → t.isPrimitive = false

end Bindings

theorem GenericType.boxed_of_not_isPrimitive {t : GenericType} (h : t.isPrimitive = false) :
    t.boxed = t := by
  cases t with
  | prim p => cases h
  | object binary args => rfl
  | array element => rfl
  | var name bound => rfl

namespace TypeIndex

theorem asSuper?_itself (index : TypeIndex) (binary : String) (args : List TypeArgument) :
    index.asSuper? (.object binary args) binary = some args := by
  rw [asSuper?, asSuperWithin, if_pos rfl]

section Instance

variable (index : TypeIndex) {vars : List TypeParameter} {bindings : Bindings}

theorem learns_infer_var (h : bindings.StandFor vars) (name : String) (bound : GenericType)
    (known : Bindings) : bindings.Learns [name] known
      (index.infer vars (.var name bound) ((GenericType.var name bound).subst bindings) known) := by
  rw [infer]
  cases hname : bindings.get? name with
  | none =>
    -- a variable of another declaration stands for itself
    have hforeign : name ∉ vars.map (·.name) := by
      rw [← h.mem_keys_iff, ← SortedMap.get?_eq_none_iff, hname]
    rw [if_neg (by simpa using hforeign)]
    intro x
    by_cases hx : x = name
    · subst hx
      simp [hname]
    · simp [hx]
  | some t =>
    have hown : name ∈ vars.map (·.name) :=
      (h.mem_keys_iff name).1 (SortedMap.mem_keys_iff.2 ⟨t, hname⟩)
    have hinstance : (GenericType.var name bound).subst bindings = t := by
      rw [GenericType.subst, GenericType.mapVars, hname, Option.getD_some]
    rw [if_pos (by simpa using hown), hinstance,
      GenericType.boxed_of_not_isPrimitive (h.isReference name t hname)]
    exact .insertIfNew hname

mutual

/-- Inference goes down a type and its instance side by side. -/
theorem learns_infer (h : bindings.StandFor vars) : ∀ (t : GenericType) (known : Bindings),
    bindings.Learns t.variables known (index.infer vars t (t.subst bindings) known)
  | .prim p, known => .nothing bindings known
  | .array element, known => learns_infer h element known
  | .object binary [], known => .nothing bindings known
  | .object binary (a :: rest), known => by
    have hargs := learns_inferArguments h (a :: rest) known
    rw [GenericType.subst_object, infer, if_neg (by simp), asSuper?_itself]
    exact hargs
  | .var name bound, known => learns_infer_var index h name bound known

theorem learns_inferArguments (h : bindings.StandFor vars) :
    ∀ (params : List TypeArgument) (known : Bindings),
      bindings.Learns (argsVariables params) known
        (index.inferArguments vars params (params.map (·.subst bindings)) known)
  | [], known => .nothing bindings known
  | a :: rest, known => (learns_inferArgument h a known).trans (learns_inferArguments h rest _)

theorem learns_inferArgument (h : bindings.StandFor vars) :
    ∀ (a : TypeArgument) (known : Bindings),
      bindings.Learns a.variables known (index.inferArgument vars a (a.subst bindings) known)
  | .exact t, known => learns_infer h t known
  | .extending t, known => learns_infer h t known
  | .superOf t, known => learns_infer h t known
  | .any, known => .nothing bindings known

end

end Instance

/-- A type and its instance under bindings for some type parameters give these bindings back, for
the parameters that occur in the type and not only in bounds. -/
theorem infer_subst (index : TypeIndex) (t : GenericType) {vars : List TypeParameter}
    {bindings : Bindings} (hdomain : ∀ x, x ∈ bindings.keys ↔ x ∈ vars.map (·.name))
    (hreference : ∀ x u, bindings.get? x = some u → u.isPrimitive = false) :
    index.infer vars t (t.subst bindings) {} =
      bindings.filter fun x _ => t.variables.contains x :=
  (learns_infer index ⟨hdomain, hreference⟩ t {}).eq_filter

section Instances

def inferredParameters : List TypeParameter :=
  ["K", "V", "W", "X"].map fun name => ⟨name, .objectClass⟩

def inferredBindings : Bindings := .ofList [
  ("K", .array (.prim .int)), ("V", .object "p.Box" [.extending (.var "K" .objectClass)]),
  ("W", .raw "p.W"), ("X", .raw "p.X")]

/-- A map from arrays of `K` to lists below `V`, which mentions `K` twice, `W` in a bound only and
`S` of another declaration. -/
def nestedMap : GenericType :=
  .object "p.Map" [.exact (.array (.var "K" (.var "W" .objectClass))),
    .extending (.object "p.List" [.superOf (.var "V" .objectClass), .any,
      .exact (.var "S" .objectClass), .exact (.var "K" .objectClass)])]

theorem infer_subst_nestedMap :
    (∀ x, x ∈ inferredBindings.keys ↔ x ∈ inferredParameters.map (·.name)) ∧
      (∀ x u, inferredBindings.get? x = some u → u.isPrimitive = false) ∧
      cyclicClasses.infer inferredParameters nestedMap (nestedMap.subst inferredBindings) {} =
        .ofList [("K", .array (.prim .int)),
          ("V", .object "p.Box" [.extending (.var "K" .objectClass)])] := by
  have hdomain : ∀ x, x ∈ inferredBindings.keys ↔ x ∈ inferredParameters.map (·.name) :=
    fun x => SortedMap.mem_keys_ofList_iff
  have hreference : ∀ x u, inferredBindings.get? x = some u → u.isPrimitive = false := by
    intro x u hu
    have hall : ∀ e ∈ inferredBindings.entries, e.2.isPrimitive = false := by decide +kernel
    exact hall (x, u) (SortedMap.get?_eq_some_iff.1 hu)
  refine ⟨hdomain, hreference, ?_⟩
  rw [infer_subst cyclicClasses nestedMap hdomain hreference]
  decide +kernel

end Instances

end TypeIndex

end Renaming.Java
