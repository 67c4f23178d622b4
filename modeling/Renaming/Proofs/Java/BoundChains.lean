import Mathlib.Data.Finset.Card
import Mathlib.Logic.Relation
import Renaming.Java.GenericType

/-!
# Chains of bounds

A type variable erases to its first bound, and if that is a variable again, to what this one erases
to. The variables in scope stand in sections: those of a method, of its class, of the classes around
it. A bound is written inside of its section, so a chain that has left a section does not come back.

Bounds are put in one section at a time, in a single pass. What a variable then carries is the end
of its chain only if the chain is short enough, or if it ends at the root class, which stands for
every bound that is not known.
-/

namespace Renaming.Java

/-- The variable that a type is, or that it is an array of. -/
def GenericType.typeVar? : GenericType → Option TypeParameter
  | prim _ | object .. => none
  | array element => element.typeVar?
  | var name bound => some ⟨name, bound⟩

@[simp] theorem GenericType.typeVar?_withDims (t : GenericType) (dims : Nat) :
    (t.withDims dims).typeVar? = t.typeVar? := by
  induction dims with
  | zero => rfl
  | succ dims ih => rw [withDims, typeVar?, ih]

/-- The variable that the type is, or is an array of, has no bound yet. -/
def GenericType.Unbounded (t : GenericType) : Prop := ∀ v ∈ t.typeVar?, v.bound = .objectClass

mutual

theorem GenericType.mapVars_none : ∀ t : GenericType, t.mapVars (fun _ => none) = t
  | .prim _ => rfl
  | .object binary args => congrArg (GenericType.object binary) (mapVarsArgs_none args)
  | .array element => congrArg GenericType.array (GenericType.mapVars_none element)
  | .var _ _ => rfl

theorem mapVarsArgs_none : ∀ args : List TypeArgument,
    GenericType.mapVarsArgs (fun _ => none) args = args
  | [] => rfl
  | a :: rest => congrArg₂ List.cons (mapVarsArg_none a) (mapVarsArgs_none rest)

theorem mapVarsArg_none : ∀ a : TypeArgument, GenericType.mapVarsArg (fun _ => none) a = a
  | .exact t => congrArg TypeArgument.exact t.mapVars_none
  | .extending t => congrArg TypeArgument.extending t.mapVars_none
  | .superOf t => congrArg TypeArgument.superOf t.mapVars_none
  | .any => rfl

end

namespace TypeParameter

/-- The parameter of the given name. -/
def named? (params : List TypeParameter) (name : String) : Option TypeParameter :=
  params.find? fun p => p.name == name

theorem named?_append (params rest : List TypeParameter) (name : String) :
    named? (params ++ rest) name = (named? params name).or (named? rest name) :=
  List.find?_append

theorem named?_map_withBounds (params scope : List TypeParameter) (name : String) :
    named? (params.map (withBounds scope)) name = (named? params name).map (withBounds scope) :=
  List.find?_map

end TypeParameter

open TypeParameter (named?)

/-! ## The end of a chain -/

/-- What a type erases to if each variable of the sections, the innermost first, stands for its
bound. A variable of none of them stands for what it carries. -/
inductive GenericType.ErasesIn : List (List TypeParameter) → GenericType → FieldType → Prop where
  | prim {sections : List (List TypeParameter)} (p : Primitive) :
    ErasesIn sections (.prim p) (.prim p)
  | object {sections : List (List TypeParameter)} (binary : String) (args : List TypeArgument) :
    ErasesIn sections (.object binary args) (.object binary)
  | array {sections : List (List TypeParameter)} {t : GenericType} {e : FieldType} :
    ErasesIn sections t e → ErasesIn sections (.array t) (.array e)
  | declared {params : List TypeParameter} {outer : List (List TypeParameter)} {name : String}
    {bound : GenericType} {p : TypeParameter} {e : FieldType} : named? params name = some p →
    ErasesIn (params :: outer) p.bound e → ErasesIn (params :: outer) (.var name bound) e
  | undeclared {params : List TypeParameter} {outer : List (List TypeParameter)} {name : String}
    {bound : GenericType} {e : FieldType} : named? params name = none →
    ErasesIn outer (.var name bound) e → ErasesIn (params :: outer) (.var name bound) e
  | free {name : String} {bound : GenericType} : ErasesIn [] (.var name bound) bound.erasure

open GenericType (ErasesIn Unbounded)

variable {params scope rest : List TypeParameter} {sections outer : List (List TypeParameter)}
  {t : GenericType} {v p : TypeParameter} {e e' : FieldType}

theorem GenericType.ErasesIn.unique (h : ErasesIn sections t e) (h' : ErasesIn sections t e') :
    e = e' := by
  induction h generalizing e' with
  | prim => cases h' with | prim => rfl
  | object => cases h' with | object => rfl
  | array _ ih => cases h' with | array h' => rw [ih h']
  | declared hp _ ih =>
    cases h' with
    | declared hp' h' =>
      cases hp.symm.trans hp'
      exact ih h'
    | undeclared hnone => cases hp.symm.trans hnone
  | undeclared hnone _ ih =>
    cases h' with
    | declared hp => cases hnone.symm.trans hp
    | undeclared _ h' => exact ih h'
  | free => cases h' with | free => rfl

namespace BoundChain

theorem erasesIn_var_of_some (hp : named? params v.name = some p) :
    ErasesIn (params :: outer) v.var e ↔ ErasesIn (params :: outer) p.bound e := by
  refine ⟨fun h => ?_, fun h => .declared hp h⟩
  cases h with
  | declared hp' h =>
    cases hp.symm.trans hp'
    exact h
  | undeclared hnone => cases hp.symm.trans hnone

theorem erasesIn_var_of_none (hnone : named? params v.name = none) :
    ErasesIn (params :: outer) v.var e ↔ ErasesIn outer v.var e := by
  refine ⟨fun h => ?_, fun h => .undeclared hnone h⟩
  cases h with
  | declared hp => cases hnone.symm.trans hp
  | undeclared _ h => exact h

/-! ## Sections without cycles -/

/-- The bound of the variable `x` is the variable `y`, or an array of it. -/
def Leads (params : List TypeParameter) (y x : String) : Prop :=
  ∃ p, named? params x = some p ∧ ∃ v ∈ p.bound.typeVar?, v.name = y

/-- No variable of the section leads back to itself. -/
def Acyclic (params : List TypeParameter) : Prop := ∀ x, ¬ Relation.TransGen (Leads params) x x

theorem name_of_named? {name : String} (h : named? params name = some p) : p.name = name := by
  simpa using List.find?_some h

/-- A section is acyclic if its variables can be ranked so that bounds go down. -/
theorem Acyclic.of_rank (rank : String → Nat)
    (h : ∀ p ∈ params, ∀ v ∈ p.bound.typeVar?, rank v.name < rank p.name) : Acyclic params := by
  have hdown {x y : String} (hchain : Relation.TransGen (Leads params) y x) : rank y < rank x := by
    have hstep {x y : String} (hlead : Leads params y x) : rank y < rank x := by
      obtain ⟨p, hp, v, hv, rfl⟩ := hlead
      rw [← name_of_named? hp]
      exact h p (List.mem_of_find?_eq_some hp) v hv
    induction hchain with
    | single hlead => exact hstep hlead
    | tail _ hlead ih => exact ih.trans (hstep hlead)
  exact fun x hcycle => (hdown hcycle).false

/-- Each step along a chain leaves fewer variables of the section ahead. -/
theorem Acyclic.wellFounded (h : Acyclic params) : WellFounded (Leads params) := by
  classical
  let ahead : String → Finset String := fun x =>
    (params.map TypeParameter.name).toFinset.filter fun z => Relation.TransGen (Leads params) z x
  have hfewer {x y : String} (hlead : Leads params y x) {p : TypeParameter}
      (hp : named? params y = some p) : (ahead y).card < (ahead x).card := by
    refine Finset.card_lt_card ⟨fun z hz => ?_, fun hsub => ?_⟩
    · obtain ⟨hname, hz⟩ := Finset.mem_filter.1 hz
      exact Finset.mem_filter.2 ⟨hname, hz.tail hlead⟩
    · have hname : p.name = y := name_of_named? hp
      have hmem : y ∈ ahead x := by
        refine Finset.mem_filter.2 ⟨List.mem_toFinset.2 ?_, .single hlead⟩
        exact hname ▸ List.mem_map_of_mem (List.mem_of_find?_eq_some hp)
      exact h y (Finset.mem_filter.1 (hsub hmem)).2
  refine ⟨fun x => ?_⟩
  induction hcard : (ahead x).card using Nat.strong_induction_on generalizing x with
  | _ n ih =>
    refine .intro x fun y hlead => ?_
    cases hy : named? params y with
    | none =>
      refine .intro y fun z hz => ?_
      obtain ⟨p, hp, -⟩ := hz
      cases hy.symm.trans hp
    | some p => exact ih _ (hcard ▸ hfewer hlead hy) y rfl

theorem exists_erasesIn_of_typeVar? (h : ∀ v ∈ t.typeVar?, ∃ e, ErasesIn sections v.var e) :
    ∃ e, ErasesIn sections t e := by
  induction t using GenericType.typeVar?.induct with
  | case1 p => exact ⟨_, .prim p⟩
  | case2 binary args => exact ⟨_, .object binary args⟩
  | case3 element ih =>
    obtain ⟨e, he⟩ := ih h
    exact ⟨_, .array he⟩
  | case4 name bound => exact h ⟨name, bound⟩ rfl

/-- Where no chain runs in a circle, every chain comes to an end. -/
theorem exists_erasesIn (h : ∀ params ∈ sections, Acyclic params) (t : GenericType) :
    ∃ e, ErasesIn sections t e := by
  induction sections generalizing t with
  | nil => exact exists_erasesIn_of_typeVar? fun v _ => ⟨_, .free⟩
  | cons params outer ih =>
    rw [List.forall_mem_cons] at h
    have hvar (name : String) : ∀ bound, ∃ e, ErasesIn (params :: outer) (.var name bound) e := by
      induction name using h.1.wellFounded.induction with
      | _ name hchain =>
        intro bound
        cases hp : named? params name with
        | none =>
          obtain ⟨e, he⟩ := ih h.2 (.var name bound)
          exact ⟨e, .undeclared hp he⟩
        | some p =>
          have hbound : ∃ e, ErasesIn (params :: outer) p.bound e :=
            exists_erasesIn_of_typeVar? fun v hv => hchain v.name ⟨p, hp, v, hv, rfl⟩ v.bound
          obtain ⟨e, he⟩ := hbound
          exact ⟨e, .declared hp he⟩
    exact exists_erasesIn_of_typeVar? fun v _ => hvar v.name v.bound

/-! ## What a scope carries -/

/-- The scope has the variable with a bound that erases to the end of its chain. -/
def Carries (sections : List (List TypeParameter)) (scope : List TypeParameter)
    (v : TypeParameter) : Prop :=
  ErasesIn sections v.var ((named? scope v.name).getD v).bound.erasure

/-- A type under the bounds of a scope erases to the end of its chain if the scope carries it. -/
theorem erasesIn_withBounds_iff : ErasesIn sections t (t.withBounds scope).erasure ↔
    ∀ v ∈ t.typeVar?, Carries sections scope v := by
  induction t using GenericType.typeVar?.induct with
  | case1 p => exact iff_of_true (.prim p) nofun
  | case2 binary args => exact iff_of_true (.object binary args) nofun
  | case3 element ih =>
    refine Iff.trans ⟨fun h => ?_, fun h => .array h⟩ ih
    cases h with
    | array h => exact h
  | case4 name bound =>
    have herasure : ((GenericType.var name bound).withBounds scope).erasure =
        ((named? scope name).getD ⟨name, bound⟩).bound.erasure := by
      change ((Option.map TypeParameter.var (named? scope name)).getD (.var name bound)).erasure = _
      cases named? scope name with
      | none => rfl
      | some p => rfl
    rw [herasure]
    constructor
    · rintro h v ⟨⟩
      exact h
    · intro h
      exact h ⟨name, bound⟩ rfl

theorem erasure_withBounds_iff (h : ErasesIn sections t e) :
    (t.withBounds scope).erasure = e ↔ ∀ v ∈ t.typeVar?, Carries sections scope v := by
  rw [← erasesIn_withBounds_iff]
  exact ⟨fun heq => heq ▸ h, fun h' => h'.unique h⟩

/-- The chain of bounds from a variable leaves the section, or ends, within the given number of
variables; a longer one ends at the root class. Where it leaves the section, `out` holds. -/
def Settles (params : List TypeParameter) (outer : List (List TypeParameter))
    (out : TypeParameter → Prop) : Nat → TypeParameter → Prop
  | 0, v => ErasesIn (params :: outer) v.var (.object objectName)
  | steps + 1, v =>
    match named? params v.name with
    | some p => ∀ u ∈ p.bound.typeVar?, Settles params outer out steps u
    | none => out v

/-- Only variables as they are written leave a section. -/
theorem settles_congr {out out' : TypeParameter → Prop} (hparams : ∀ p ∈ params, p.bound.Unbounded)
    (hout : ∀ u : TypeParameter, u.bound = .objectClass → (out u ↔ out' u)) (steps : Nat)
    (hv : v.bound = .objectClass) :
    Settles params outer out steps v ↔ Settles params outer out' steps v := by
  induction steps generalizing v with
  | zero => rfl
  | succ steps ih =>
    rw [Settles, Settles]
    cases hp : named? params v.name with
    | none => exact hout v hv
    | some p =>
      have hunbounded := hparams p (List.mem_of_find?_eq_some hp)
      exact forall₂_congr fun u hu => ih (hunbounded u hu)

theorem carries_nil_iff {out : TypeParameter → Prop} (hv : v.bound = .objectClass) :
    Carries (params :: outer) [] v ↔ Settles params outer out 0 v := by
  rw [Carries, Settles, named?, List.find?_nil, Option.getD_none, hv]
  rfl

/-- A pass over a section makes the chains that its variables carry longer by one. -/
theorem carries_pass_iff {steps : Nat} (hparams : ∀ p ∈ params, p.bound.Unbounded)
    (hscope : ∀ u : TypeParameter, u.bound = .objectClass → (Carries (params :: outer) scope u ↔
      Settles params outer (Carries outer rest) steps u)) :
    Carries (params :: outer) (params.map (TypeParameter.withBounds scope) ++ rest) v ↔
      Settles params outer (Carries outer rest) (steps + 1) v := by
  rw [Carries, Settles, TypeParameter.named?_append, TypeParameter.named?_map_withBounds]
  cases hp : named? params v.name with
  | none => exact erasesIn_var_of_none hp
  | some p =>
    have hunbounded := hparams p (List.mem_of_find?_eq_some hp)
    rw [erasesIn_var_of_some hp]
    exact erasesIn_withBounds_iff.trans (forall₂_congr fun u hu => hscope u (hunbounded u hu))

/-- A section as it is written is one that has been passed over with nothing in scope. -/
theorem carries_section_iff (hparams : ∀ p ∈ params, p.bound.Unbounded) :
    Carries (params :: outer) (params ++ rest) v ↔
      Settles params outer (Carries outer rest) 1 v := by
  have hsame : params.map (TypeParameter.withBounds []) = params := by
    refine (List.map_congr_left fun p _ => ?_).trans params.map_id
    exact congrArg (TypeParameter.mk p.name) (GenericType.mapVars_none p.bound)
  rw [← carries_pass_iff hparams fun u hu => carries_nil_iff hu, hsame]

end BoundChain

end Renaming.Java
