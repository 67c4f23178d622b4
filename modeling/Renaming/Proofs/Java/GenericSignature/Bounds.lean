import Renaming.Java.GenericSignature
import Renaming.Proofs.Java.BoundChains

/-!
# Bounds of the variables of a signature

Variables are read from a signature before any of them has a bound. The bounds are then put in while
the section is still as it was read: a variable that is bounded by another one gets the bound which
that one is written with, and if this is a third variable, the root class in its place.
-/

namespace Renaming.Java.GenericSignature

open BoundChain
open GenericType (ErasesIn Unbounded)

/-- Whatever the reader takes off a text has `P`. -/
def Gives {α : Type} (P : α → Prop) (read : Reader α) : Prop :=
  ∀ ⦃cs a rest⦄, read cs = some (a, rest) → P a

section Runs

variable {α : Type} {P : α → Prop} {read : Reader α}

theorem Gives.manyUpTo (h : Gives P read) (fuel : Nat) (cs : List Char) :
    ∀ a ∈ (manyUpTo read fuel cs).1, P a := by
  induction fuel generalizing cs with
  | zero => exact nofun
  | succ fuel ih =>
    rw [GenericSignature.manyUpTo]
    cases hread : read cs with
    | none => exact nofun
    | some result =>
      obtain ⟨a, rest⟩ := result
      exact List.forall_mem_cons.2 ⟨h hread, ih rest⟩

theorem Gives.many (h : Gives P read) (cs : List Char) : ∀ a ∈ (many read cs).1, P a :=
  h.manyUpTo cs.length cs

theorem Gives.bracketed (h : Gives P read) :
    Gives (fun values => ∀ a ∈ values, P a) (bracketed read) := by
  intro cs values rest hread
  rw [GenericSignature.bracketed.eq_def] at hread
  split at hread
  · rename_i inner
    split at hread
    · rename_i a as rest' hmany
      cases hread
      have hall := h.many inner
      rw [hmany] at hall
      exact hall
    · cases hread
  · cases hread
    exact nofun

end Runs

/-! ## Variables as they are read -/

theorem typeVar?_of_innerClasses {reference : Reader GenericType} {fuel : Nat} {binary : String}
    {args : List TypeArgument} {cs rest : List Char} {t : GenericType}
    (h : innerClasses reference fuel binary args cs = some (t, rest)) : t.typeVar? = none := by
  fun_induction innerClasses reference fuel binary args cs with
  | case1 => cases h
  | case2 fuel binary args rest' ih =>
    simp only [Option.bind_eq_bind, Option.bind_eq_some_iff] at h
    obtain ⟨⟨inner, rest₁⟩, -, ⟨args', rest₂⟩, -, hinner⟩ := h
    exact ih inner args' rest₂ hinner
  | case3 =>
    simp only [Option.bind_eq_bind, Option.bind_eq_some_iff] at h
    obtain ⟨rest₁, -, hpure⟩ := h
    cases hpure
    rfl

theorem gives_classType (reference : Reader GenericType) :
    Gives Unbounded (classType reference) := by
  intro cs t rest h v hv
  simp only [classType, Option.bind_eq_bind, Option.bind_eq_some_iff] at h
  obtain ⟨⟨name, rest₁⟩, -, ⟨args, rest₂⟩, -, hinner⟩ := h
  rw [typeVar?_of_innerClasses hinner] at hv
  cases hv

theorem gives_typeVariable : Gives Unbounded typeVariable := by
  intro cs t rest h
  simp only [typeVariable, Option.bind_eq_bind, Option.bind_eq_some_iff] at h
  obtain ⟨⟨name, rest₁⟩, -, rest₂, -, hpure⟩ := h
  cases hpure
  rintro v ⟨⟩
  rfl

theorem Gives.typeWith {reference : Reader GenericType} (h : Gives Unbounded reference) :
    Gives Unbounded (typeWith reference) := by
  intro cs t rest hread
  cases cs with
  | nil => cases hread
  | cons c cs =>
    rw [GenericSignature.typeWith] at hread
    split at hread
    · exact h hread
    · obtain ⟨p, -, heq⟩ := Option.map_eq_some_iff.1 hread
      cases heq
      exact nofun

theorem gives_referenceUpTo (fuel : Nat) : Gives Unbounded (referenceUpTo fuel) := by
  induction fuel with
  | zero => exact nofun
  | succ fuel ih =>
    intro cs t rest h
    unfold referenceUpTo at h
    dsimp only at h
    split at h
    · exact gives_classType _ h
    · exact gives_typeVariable h
    · obtain ⟨⟨element, rest'⟩, helement, heq⟩ := Option.map_eq_some_iff.1 h
      obtain ⟨rfl, rfl⟩ := Prod.mk.inj heq
      have hunbounded : element.Unbounded := ih.typeWith helement
      exact hunbounded
    · cases h

theorem gives_reference : Gives Unbounded reference := fun cs _ _ h =>
  gives_referenceUpTo (cs.length + 1) h

theorem gives_type : Gives Unbounded type := gives_reference.typeWith

theorem gives_furtherBound : Gives Unbounded furtherBound := by
  intro cs t rest h
  simp only [furtherBound, Option.bind_eq_bind, Option.bind_eq_some_iff] at h
  obtain ⟨rest', -, h⟩ := h
  exact gives_reference h

theorem gives_typeParameter : Gives (fun p => p.bound.Unbounded) typeParameter := by
  intro cs p rest h
  simp only [typeParameter, Option.bind_eq_bind, Option.bind_eq_some_iff] at h
  obtain ⟨⟨name, rest₁⟩, -, rest₂, -, h⟩ := h
  let finish (r : Option GenericType × List Char) : Option (TypeParameter × List Char) :=
    if (literal ':' (many furtherBound r.2).2).isSome then none
    else pure (⟨name, (r.1.or (many furtherBound r.2).1.head?).getD .objectClass⟩,
      (many furtherBound r.2).2)
  have hfinish {r : Option GenericType × List Char} (hr : ∀ t ∈ r.1, t.Unbounded)
      (h : finish r = some (p, rest)) : p.bound.Unbounded := by
    obtain ⟨first, left⟩ := r
    simp only [finish] at h
    split at h
    · cases h
    · cases h
      cases first with
      | some t => exact hr t rfl
      | none =>
        cases hhead : (many furtherBound left).1.head? with
        | none => exact nofun
        | some t => exact gives_furtherBound.many left t (List.mem_of_head? hhead)
  have hread (h : ((reference rest₂).map fun r => (some r.1, r.2)).bind finish = some (p, rest)) :
      p.bound.Unbounded := by
    obtain ⟨r, hmap, h⟩ := Option.bind_eq_some_iff.1 h
    obtain ⟨⟨t, left⟩, hread, rfl⟩ := Option.map_eq_some_iff.1 hmap
    refine hfinish ?_ h
    rintro _ ⟨⟩
    exact gives_reference hread
  split at h
  · exact hread h
  · exact hread h
  · exact hread h
  · exact hfinish (r := (none, rest₂)) nofun h

theorem gives_typeParameters : Gives (fun params => ∀ p ∈ params, p.bound.Unbounded)
    typeParameters :=
  gives_typeParameter.bracketed

theorem of_whole {α : Type} {P : α → Prop} {read : Reader α} (hread : Gives P read)
    {input : String} {a : α} (h : whole read input = .ok a) : P a := by
  unfold whole at h
  split at h
  · rename_i hsome
    cases h
    exact hread hsome
  · cases h

theorem gives_classHeader : Gives (fun h => ∀ p ∈ h.typeParams, p.bound.Unbounded)
    classHeader := by
  intro cs h rest hread
  simp only [classHeader, Option.bind_eq_bind, Option.bind_eq_some_iff] at hread
  obtain ⟨⟨params, rest₁⟩, hparams, ⟨superclass, rest₂⟩, -, hpure⟩ := hread
  cases hpure
  exact gives_typeParameters hparams

/-- The header of a method whose variables have no bounds yet. -/
structure UnboundedMethod (m : GenericMethod) : Prop where
  typeParams : ∀ p ∈ m.typeParams, p.bound.Unbounded
  params : ∀ t ∈ m.params, t.Unbounded
  ret : ∀ t ∈ m.ret, t.Unbounded

theorem gives_method : Gives UnboundedMethod method := by
  intro cs m rest hread
  simp only [method, Option.bind_eq_bind, Option.bind_eq_some_iff] at hread
  obtain ⟨⟨typeParams, rest₁⟩, htypeParams, rest₂, -, rest₃, -, ⟨ret, rest₄⟩, hret, hpure⟩ := hread
  cases hpure
  refine ⟨gives_typeParameters htypeParams, gives_type.many rest₂, ?_⟩
  rintro t ⟨⟩
  unfold returnType at hret
  split at hret
  · cases hret
  · obtain ⟨⟨t', rest'⟩, htype, heq⟩ := Option.map_eq_some_iff.1 hret
    cases heq
    exact gives_type htype

/-! ## Bounds put in -/

/-- Bounds that are put in from the section as it is read, and from what stands around it. -/
theorem forall₂_withBounds {params : List TypeParameter} (rest : List TypeParameter)
    (outer : List (List TypeParameter)) (hparams : ∀ p ∈ params, p.bound.Unbounded)
    (hacyclic : ∀ part ∈ params :: outer, Acyclic part) :
    List.Forall₂ (fun p q : TypeParameter => q.name = p.name ∧
        ∃ e, ErasesIn (params :: outer) p.bound e ∧ (q.var.erasure = e ↔
          ∀ v ∈ p.bound.typeVar?, Settles params outer (Carries outer rest) 1 v))
      params (params.map (TypeParameter.withBounds (params ++ rest))) := by
  rw [List.forall₂_map_right_iff, List.forall₂_same]
  intro p _
  obtain ⟨e, he⟩ := exists_erasesIn hacyclic p.bound
  refine ⟨rfl, e, he, (erasure_withBounds_iff he).trans ?_⟩
  exact forall₂_congr fun v _ => carries_section_iff hparams

theorem parseClass_of_whole {input : String} {h : ClassHeader}
    (hread : whole classHeader input = .ok h) : ∃ h', parseClass input = .ok h' ∧
      h'.typeParams = h.typeParams.map (TypeParameter.withBounds h.typeParams) := by
  rw [parseClass, hread]
  exact ⟨_, rfl, rfl⟩

/-- A variable of a class signature erases to the end of its chain of bounds exactly if the chain
passes no third variable in front of it, or if the third one erases to the root class. So does a
variable of a method signature, as long as the chain stays in the section; where the second variable
is one of `outer`, it is the bound which `outer` has for it that has to be right. -/
theorem declared_bounds_iff (input : String) :
    (∀ h, whole classHeader input = .ok h → Acyclic h.typeParams →
      ∃ h', parseClass input = .ok h' ∧ List.Forall₂ (fun p q : TypeParameter => q.name = p.name ∧
          ∃ e, ErasesIn [h.typeParams] p.bound e ∧ (q.var.erasure = e ↔
            ∀ v ∈ p.bound.typeVar?, Settles h.typeParams [] (fun _ => True) 1 v))
        h.typeParams h'.typeParams) ∧
    (∀ m outer, parseMethod input = .ok m → Acyclic m.typeParams → Acyclic outer →
      List.Forall₂ (fun p q : TypeParameter => q.name = p.name ∧
          ∃ e, ErasesIn [m.typeParams, outer] p.bound e ∧ (q.var.erasure = e ↔
            ∀ v ∈ p.bound.typeVar?, Settles m.typeParams [outer] (Carries [outer] outer) 1 v))
        m.typeParams (m.withBounds outer).typeParams) := by
  constructor
  · intro h hread hacyclic
    have hbounds := forall₂_withBounds [] [] (of_whole gives_classHeader hread)
      (by simpa using hacyclic)
    rw [List.append_nil] at hbounds
    have hfree : Carries [] [] = fun _ => True := by
      funext v
      exact eq_true .free
    rw [hfree] at hbounds
    obtain ⟨h', hparse, htypeParams⟩ := parseClass_of_whole hread
    exact ⟨h', hparse, htypeParams ▸ hbounds⟩
  · intro m outer hread hacyclic houter
    exact forall₂_withBounds outer [outer] (of_whole gives_method hread).typeParams
      (by simp [hacyclic, houter])

/-! ## A chain of three variables -/

def chainedSignature : String := "<T:TU;U:TV;V:Ljava/lang/Number;>Ljava/lang/Object;"

def chainedHeader : ClassHeader where
  typeParams := [⟨"T", .var "U" .objectClass⟩, ⟨"U", .var "V" .objectClass⟩,
    ⟨"V", .raw "java.lang.Number"⟩]
  superclass := .objectClass
  interfaces := []

theorem whole_chainedSignature : whole classHeader chainedSignature = .ok chainedHeader := by
  decide +kernel

theorem acyclic_chainedHeader : Acyclic chainedHeader.typeParams :=
  .of_rank (fun x => if x = "T" then 2 else if x = "U" then 1 else 0) (by decide)

/-- All variables of the section have the same end. -/
theorem erasesIn_chainedHeader :
    ∀ p ∈ chainedHeader.typeParams,
      ErasesIn [chainedHeader.typeParams] p.bound (.object "java.lang.Number") := by
  have hclass : ErasesIn [chainedHeader.typeParams] (.raw "java.lang.Number")
      (.object "java.lang.Number") := .object "java.lang.Number" []
  have hv : ErasesIn [chainedHeader.typeParams] (.var "V" .objectClass)
      (.object "java.lang.Number") := .declared rfl hclass
  have hu : ErasesIn [chainedHeader.typeParams] (.var "U" .objectClass)
      (.object "java.lang.Number") := .declared rfl hv
  simp only [chainedHeader, List.forall_mem_cons, List.not_mem_nil, false_imp_iff,
    implies_true, and_true]
  exact ⟨hu, hv, hclass⟩

/-- The second variable is two bounds away from the class and erases to it. The first one is three
bounds away and does not. -/
theorem declared_bounds_iff_chained : ∃ t u v h, parseClass chainedSignature = .ok h ∧
    h.typeParams = [t, u, v] ∧ u.var.erasure = .object "java.lang.Number" ∧
    t.var.erasure ≠ .object "java.lang.Number" := by
  obtain ⟨h, hparse, hbounds⟩ := (declared_bounds_iff chainedSignature).1 chainedHeader
    whole_chainedSignature acyclic_chainedHeader
  generalize hparams : h.typeParams = params at hbounds
  obtain _ | @⟨_, t, _, _, ⟨-, e, he, ht⟩, _ | @⟨_, u, _, _, ⟨-, e', he', hu⟩,
    _ | @⟨_, v, _, _, -, _ | _⟩⟩⟩ := hbounds
  have hend := erasesIn_chainedHeader
  obtain rfl := he.unique (hend _ (by simp [chainedHeader]))
  obtain rfl := he'.unique (hend _ (by simp [chainedHeader]))
  refine ⟨t, u, v, h, hparse, hparams, hu.2 ?_, fun hright => ?_⟩
  · rintro _ ⟨⟩ _ ⟨⟩
  · have hroot := ht.1 hright ⟨"U", .objectClass⟩ rfl ⟨"V", .objectClass⟩ rfl
    exact absurd (hroot.unique he') (by decide)

/-- The first variable of the section has a class at the end of its chain, and the root class where
the signature is read. -/
theorem chained_bound_unread :
    (whole classHeader chainedSignature).toOption.map (·.typeParams) =
        some chainedHeader.typeParams ∧
      Acyclic chainedHeader.typeParams ∧
      (∀ p ∈ chainedHeader.typeParams,
        ErasesIn [chainedHeader.typeParams] p.bound (.object "java.lang.Number")) ∧
      (parseClass chainedSignature).toOption.map (·.typeParams.map (·.var.erasure)) =
        some [.object objectName, .object "java.lang.Number", .object "java.lang.Number"] := by
  refine ⟨?_, acyclic_chainedHeader, erasesIn_chainedHeader, ?_⟩
  · rw [whole_chainedSignature]
    rfl
  · decide +kernel

end Renaming.Java.GenericSignature
