import Mathlib.Data.List.Nodup
import Renaming.Java.Binding.Expressions
import Renaming.Proofs.Java.BoundChains
import Renaming.Proofs.Java.Declared.Rounds
import Renaming.Proofs.Java.Inference

/-!
# Members of raw receivers

A type erases by the variable that it is, or is an array of. Replacing the variables keeps the
erasure exactly if what stands for this one erases as its bound does, which it always does where the
arguments of a use do not count. What a member gives through a receiver has therefore the erased
type of its declaration if the receiver is raw where it is seen as the declaring class. A raw
receiver is so seen as its own class. Its supertypes keep the arguments that its declaration gives
them.
-/

namespace Renaming.Java

/-! ## Erasure under substitution -/

/-- Replacing variables keeps the erasure of a type exactly if it keeps that of the variable that
the type is, or is an array of. -/
theorem GenericType.erasure_mapVars_iff {f : String → Option GenericType} {t : GenericType} :
    (t.mapVars f).erasure = t.erasure ↔
      ∀ v ∈ t.typeVar?, ∀ u ∈ f v.name, u.erasure = v.bound.erasure := by
  induction t using GenericType.typeVar?.induct with
  | case1 p => exact iff_of_true rfl (by simp [typeVar?])
  | case2 binary args => exact iff_of_true rfl (by simp [typeVar?])
  | case3 element ih =>
    rw [mapVars, erasure, erasure, FieldType.array.injEq, ih, typeVar?]
  | case4 name bound =>
    rw [mapVars, typeVar?, erasure]
    cases hname : f name with
    | none => simp [hname, erasure]
    | some u => simp [hname]

/-- The variable that the type is, or is an array of, carries the bound that the parameter of its
name declares. All other variables of a type are within arguments, which erasure leaves out. -/
def GenericType.CarriesBounds (params : List TypeParameter) (t : GenericType) : Prop :=
  ∀ v ∈ t.typeVar?, ∀ p ∈ params, p.name = v.name → v.bound = p.bound

instance (params : List TypeParameter) (t : GenericType) : Decidable (t.CarriesBounds params) :=
  inferInstanceAs (Decidable (∀ v ∈ t.typeVar?, ∀ p ∈ params, p.name = v.name → v.bound = p.bound))

/-- An argument that erases as the bound of its parameter does, or `?`. -/
def TypeArgument.Fits (a : TypeArgument) (p : TypeParameter) : Prop :=
  ∀ u ∈ a.bound?, u.erasure = p.bound.erasure

instance (a : TypeArgument) (p : TypeParameter) : Decidable (a.Fits p) :=
  inferInstanceAs (Decidable (∀ u ∈ a.bound?, u.erasure = p.bound.erasure))

theorem TypeArgument.erasure_getD_bound?_iff {a : TypeArgument} {p : TypeParameter} :
    (a.bound?.getD (.ofErased p.bound.erasure)).erasure = p.bound.erasure ↔ a.Fits p := by
  rw [Fits]
  cases a.bound? with
  | none => simp
  | some u => simp

/-- In a use with the given arguments the type erases as in its declaration: the arguments do not
count, or the one for the variable that the type is, or is an array of, fits. -/
def GenericType.KeepsErasure (params : List TypeParameter) (args : List TypeArgument)
    (t : GenericType) : Prop :=
  args.length ≠ params.length ∨
    ∀ e ∈ params.zip args, t.typeVar?.map (·.name) = some e.1.name → e.2.Fits e.1

instance (params : List TypeParameter) (args : List TypeArgument) (t : GenericType) :
    Decidable (t.KeepsErasure params args) :=
  inferInstanceAs (Decidable (args.length ≠ params.length ∨ ∀ e ∈ params.zip args,
    t.typeVar?.map (·.name) = some e.1.name → e.2.Fits e.1))

namespace Bindings

variable {params : List TypeParameter} {args : List TypeArgument} {x : String} {t u : GenericType}

theorem exists_parameter_of_get? (hlength : args.length ≠ params.length)
    (hu : (ofArguments params args).get? x = some u) :
    ∃ p ∈ params, p.name = x ∧ u = .ofErased p.bound.erasure := by
  rw [ofArguments, if_neg hlength] at hu
  obtain ⟨p, hp, hentry⟩ := List.mem_map.1 (SortedMap.mem_of_get?_ofList hu)
  cases hentry
  exact ⟨p, hp, rfl, rfl⟩

theorem exists_argument_of_get? (hlength : args.length = params.length)
    (hu : (ofArguments params args).get? x = some u) :
    ∃ e ∈ params.zip args, e.1.name = x ∧ u = e.2.bound?.getD (.ofErased e.1.bound.erasure) := by
  rw [ofArguments, if_pos hlength] at hu
  obtain ⟨e, he, hentry⟩ := List.mem_map.1 (SortedMap.mem_of_get?_ofList hu)
  cases hentry
  exact ⟨e, he, rfl, rfl⟩

theorem get?_ofArguments_of_mem (hnames : (params.map (·.name)).Nodup)
    (hlength : args.length = params.length) {e : TypeParameter × TypeArgument}
    (he : e ∈ params.zip args) :
    (ofArguments params args).get? e.1.name =
      some (e.2.bound?.getD (.ofErased e.1.bound.erasure)) := by
  have hparam : e.1.name ∈ params.map (·.name) := List.mem_map_of_mem (List.of_mem_zip he).1
  obtain ⟨u, hu⟩ := exists_get?_ofArguments args hparam
  obtain ⟨e', he', hname, rfl⟩ := exists_argument_of_get? hlength hu
  have hzip : ((params.zip args).map fun e => e.1.name).Nodup := by
    have hfst : (params.zip args).map Prod.fst = params := List.map_fst_zip hlength.ge
    rw [← hfst, List.map_map] at hnames
    exact hnames
  rw [hu, List.inj_on_of_nodup_map hzip he' he hname]

/-- Exactly the uses in which a type keeps its erasure. -/
theorem erasure_subst_ofArguments_iff (hnames : (params.map (·.name)).Nodup)
    (hbounds : t.CarriesBounds params) :
    (t.subst (ofArguments params args)).erasure = t.erasure ↔ t.KeepsErasure params args := by
  rw [GenericType.subst, GenericType.erasure_mapVars_iff, GenericType.KeepsErasure]
  by_cases hlength : args.length = params.length
  · rw [or_iff_right (not_not_intro hlength)]
    constructor
    · intro h e he hleading
      obtain ⟨v, hv, hname⟩ := Option.map_eq_some_iff.1 hleading
      have hget := get?_ofArguments_of_mem hnames hlength he
      rw [← hname] at hget
      rw [← TypeArgument.erasure_getD_bound?_iff, h v hv _ hget,
        hbounds v hv e.1 (List.of_mem_zip he).1 hname.symm]
    · intro h v hv u hu
      obtain ⟨e, he, hname, rfl⟩ := exists_argument_of_get? hlength hu
      rw [hbounds v hv e.1 (List.of_mem_zip he).1 hname, TypeArgument.erasure_getD_bound?_iff]
      exact h e he (Option.map_eq_some_iff.2 ⟨v, hv, hname.symm⟩)
  · refine iff_of_true (fun v hv u hu => ?_) (.inl hlength)
    obtain ⟨p, hp, hname, rfl⟩ := exists_parameter_of_get? hlength hu
    rw [GenericType.erasure_ofErased, hbounds v hv p hp hname]

/-! ## Bindings of further variables -/

/-- What the bindings say differs in variables of the given names only. -/
def AgreesOutside (names : List String) (a b : Bindings) : Prop :=
  ∀ x ∉ names, b.get? x = a.get? x

namespace AgreesOutside

variable {names : List String} {a b c : Bindings}

theorem refl (names : List String) (a : Bindings) : a.AgreesOutside names a := fun _ _ => rfl

theorem trans (h : a.AgreesOutside names b) (h' : b.AgreesOutside names c) :
    a.AgreesOutside names c :=
  fun x hx => (h' x hx).trans (h x hx)

theorem insert (a : Bindings) (u : GenericType) (hx : x ∈ names) :
    a.AgreesOutside names (a.insert x u) :=
  fun _ hy => SortedMap.get?_insert_of_ne a u (ne_of_mem_of_not_mem hx hy).symm

theorem insertIfNew (a : Bindings) (u : GenericType) (hx : x ∈ names) :
    a.AgreesOutside names (a.insertIfNew x u) := by
  rw [SortedMap.insertIfNew]
  split
  · exact .refl names a
  · exact .insert a u hx

theorem erase (a : Bindings) (hx : x ∈ names) : a.AgreesOutside names (a.erase x) := by
  intro y hy
  have hne : y ≠ x := (ne_of_mem_of_not_mem hx hy).symm
  have hfilter : a.erase x = a.filter fun k _ => !(k == x) := rfl
  rw [hfilter, SortedMap.get?_filter]
  cases a.get? y with
  | none => rfl
  | some u => simp [hne]

theorem foldl {α : Type} {step : Bindings → α → Bindings} {l : List α} (a : Bindings)
    (h : ∀ a : Bindings, ∀ e ∈ l, a.AgreesOutside names (step a e)) :
    a.AgreesOutside names (l.foldl step a) := by
  induction l generalizing a with
  | nil => exact .refl names a
  | cons e rest ih =>
    exact (h a e List.mem_cons_self).trans
      (ih _ fun a e he => h a e (List.mem_cons_of_mem _ he))

/-- Bindings made from nothing are for variables of the names. -/
theorem mem_of_mem_entries (h : AgreesOutside names {} a) {e : String × GenericType}
    (he : e ∈ a.entries) : e.1 ∈ names := by
  by_contra hnew
  have hnone := h e.1 hnew
  rw [SortedMap.get?_of_mem he] at hnone
  cases hnone

end AgreesOutside

end Bindings

open Bindings (AgreesOutside)

namespace TypeIndex

section Inference

variable (index : TypeIndex) (vars : List TypeParameter)

mutual

/-- Inference binds the given variables only. -/
theorem agreesOutside_infer : ∀ (t arg : GenericType) (known : Bindings),
    known.AgreesOutside (vars.map (·.name)) (index.infer vars t arg known)
  | .prim _, _, known => .refl _ known
  | .array element, arg, known => by
    cases arg with
    | array a => exact agreesOutside_infer element a known
    | prim p | object binary args | var name bound => exact .refl _ known
  | .object binary params, arg, known => by
    rw [infer]
    split
    · exact .refl _ known
    · split
      · exact .refl _ known
      · exact agreesOutside_inferArguments params _ known
  | .var name bound, arg, known => by
    rw [infer]
    split
    · rename_i hown
      exact .insertIfNew known arg.boxed (by simpa using hown)
    · exact .refl _ known

theorem agreesOutside_inferArguments : ∀ (params args : List TypeArgument) (known : Bindings),
    known.AgreesOutside (vars.map (·.name)) (index.inferArguments vars params args known)
  | [], _, known => .refl _ known
  | _ :: _, [], known => .refl _ known
  | p :: ps, a :: as, known =>
    (agreesOutside_inferArgument p a known).trans (agreesOutside_inferArguments ps as _)

theorem agreesOutside_inferArgument : ∀ (p a : TypeArgument) (known : Bindings),
    known.AgreesOutside (vars.map (·.name)) (index.inferArgument vars p a known)
  | .exact t, a, known | .extending t, a, known | .superOf t, a, known => by
    rw [inferArgument]
    split
    · exact agreesOutside_infer t _ known
    · exact .refl _ known
  | .any, _, known => .refl _ known

end

end Inference

/-- The arguments that a receiver has where it is seen as `owner`; none in a raw view. -/
def viewArguments (index : TypeIndex) (receiver : GenericType) (owner : String) :
    List TypeArgument :=
  (index.asSuper? receiver owner).getD []

theorem memberBindings_eq {index : TypeIndex} {owner : String} {d : TypeDeclaration}
    (hd : index.get? owner = some d) (receiver : GenericType) :
    index.memberBindings receiver owner =
      .ofArguments d.typeParams (index.viewArguments receiver owner) := by
  rw [memberBindings, hd, viewArguments]
  dsimp only
  split
  · rename_i hnone
    rw [List.isEmpty_iff.1 hnone, Bindings.ofArguments]
    split <;> rfl
  · rfl

end TypeIndex

/-! ## Members through receivers -/

/-- The variables of the class stand for the same throughout a call. -/
theorem agreesOutside_callBindings (index : TypeIndex) (receiver : GenericType) (owner : String)
    (m : MethodDeclaration) (explicit : List GenericType) (args : List ExprType) :
    AgreesOutside (m.typeParams.map (·.name))
      (if m.isStatic then {} else index.memberBindings receiver owner)
      (callBindings index (some receiver) owner m explicit args) := by
  have herased (ofClass : Bindings) : ofClass.AgreesOutside (m.typeParams.map (·.name))
      (m.typeParams.foldl (fun b v => b.erase v.name) ofClass) :=
    .foldl ofClass fun b v hv => .erase b (List.mem_map_of_mem hv)
  have hextended (known : Bindings) (entries : List (String × GenericType))
      (hown : ∀ e ∈ entries, e.1 ∈ m.typeParams.map (·.name)) :
      known.AgreesOutside (m.typeParams.map (·.name))
        (entries.foldl (fun b e => b.insert e.1 e.2) known) :=
    .foldl known fun b e he => .insert b e.2 (hown e he)
  rw [callBindings]
  dsimp only
  generalize (if m.isStatic = true then ({} : Bindings)
    else index.memberBindings receiver owner) = ofClass
  refine (herased ofClass).trans ?_
  split
  · exact .refl _ _
  split
  · exact hextended _ _ fun e he => (List.of_mem_zip he).1
  · refine hextended _ _ fun e he => AgreesOutside.mem_of_mem_entries ?_ he
    refine .foldl _ fun own e _ => ?_
    split
    · split
      · exact TypeIndex.agreesOutside_infer _ _ _ _ _
      · exact .refl _ own
    · exact .refl _ own

namespace Binding

/-- Every run of the walk has an outcome with `R`, whatever its steps report. -/
def Yields {α : Type} (ctx : BindingContext) (R : α → Prop) (act : Binding α) : Prop :=
  ∀ s, R (act ctx s).1

namespace Yields

variable {α β : Type} {ctx : BindingContext} {R R' : α → Prop} {Q : β → Prop}

theorem pure {a : α} (h : R a) : Yields ctx R (pure a) := fun _ => h

theorem bind {act : Binding α} {next : α → Binding β} (h : Yields ctx R act)
    (hnext : ∀ a, R a → Yields ctx Q (next a)) : Yields ctx Q (act >>= next) :=
  fun s => hnext _ (h s) _

theorem any {act : Binding α} : Yields ctx (fun _ => True) act := fun _ => trivial

theorem read : Yields ctx (· = ctx) (read : Binding BindingContext) := fun _ => rfl

theorem imp {act : Binding α} (h : Yields ctx R act) (himp : ∀ a, R a → R' a) :
    Yields ctx R' act :=
  fun s => himp _ (h s)

end Yields

variable {ctx : BindingContext} (sub : Task → Binding Meaning) (m : MethodDeclaration)

/-- The body of a lambda binds variables of the method only. -/
theorem yields_typedLambda (bindings : Bindings) (lambda : Node × Nat) :
    Yields ctx (bindings.AgreesOutside (m.typeParams.map (·.name)))
      (typedLambda sub m bindings lambda) := by
  refine .bind .any fun c _ => ?_
  refine .bind .any fun meaning _ => ?_
  dsimp only
  split
  · refine .pure ?_
    refine .foldl bindings fun b e he => .insertIfNew b e.2 ?_
    exact AgreesOutside.mem_of_mem_entries (TypeIndex.agreesOutside_infer _ _ _ _ _) he
  · exact .pure (.refl _ bindings)

theorem yields_typedLambdas (bindings : Bindings) (lambdas : List (Node × Nat)) :
    Yields ctx (bindings.AgreesOutside (m.typeParams.map (·.name)))
      (lambdas.foldlM (typedLambda sub m) bindings) := by
  induction lambdas generalizing bindings with
  | nil => exact .pure (.refl _ bindings)
  | cons lambda rest ih =>
    rw [List.foldlM_cons]
    refine .bind (yields_typedLambda sub m bindings lambda) fun learned hlearned => ?_
    exact (ih learned).imp fun _ hrest => hlearned.trans hrest

/-- A call has the declared result of its method, with the variables of the class as the receiver
has them. -/
theorem yields_chosenCall (name : Node) (receiver : GenericType) (owner : String)
    (explicit : List GenericType) (args : List ExprType) (lambdas : List (Node × Nat)) :
    Yields ctx
      (fun type => ∃ bindings : Bindings,
        AgreesOutside (m.typeParams.map (·.name))
          (if m.isStatic then {} else ctx.index.memberBindings receiver owner) bindings ∧
        type = .ofOption (m.genericRet.map (·.subst bindings)))
      (chosenCall sub name (some receiver) owner m explicit args lambdas) := by
  refine .bind .any fun _ _ => .bind .read fun c hc => ?_
  subst hc
  refine .bind (yields_typedLambdas sub m _ lambdas) fun bindings hbindings => .pure ?_
  have hstart := agreesOutside_callBindings c.index receiver owner m explicit args
  exact ⟨bindings, hstart.trans hbindings, rfl⟩

end Binding

/-- The type of an expression is known, and erases to `e`. -/
def ExprType.ErasesTo (e : FieldType) : ExprType → Prop
  | .value t => t.erasure = e
  | .null | .unknown => False

section Reads

variable {ctx : BindingContext} {owner : String} {d : TypeDeclaration}

theorem erasure_fieldTypeThrough_iff (hd : ctx.index.get? owner = some d)
    (hnames : (d.typeParams.map (·.name)).Nodup) (receiver : GenericType) {f : FieldDeclaration}
    (hbounds : f.genericType.CarriesBounds d.typeParams) :
    (Binding.fieldTypeThrough ctx.index (some receiver) owner f).erasure = f.genericType.erasure ↔
      f.isStatic = true ∨
        f.genericType.KeepsErasure d.typeParams (ctx.index.viewArguments receiver owner) := by
  rw [Binding.fieldTypeThrough]
  split
  · rename_i hstatic
    exact iff_of_true rfl (.inl hstatic)
  · rename_i hinstance
    rw [or_iff_right hinstance, TypeIndex.memberBindings_eq hd,
      Bindings.erasure_subst_ofArguments_iff hnames hbounds]

theorem erasesTo_chosenCall_iff (hd : ctx.index.get? owner = some d)
    (hnames : (d.typeParams.map (·.name)).Nodup) (receiver : GenericType) {m : MethodDeclaration}
    {t : GenericType} (hret : m.genericRet = some t) (hbounds : t.CarriesBounds d.typeParams)
    (hforeign : ∀ v ∈ t.typeVar?, v.name ∉ m.typeParams.map (·.name))
    (sub : Task → Binding Meaning) (name : Node) (explicit : List GenericType)
    (args : List ExprType) (lambdas : List (Node × Nat)) (s : BindingState) :
    (Binding.chosenCall sub name (some receiver) owner m explicit args lambdas ctx s).1.ErasesTo
        t.erasure ↔
      m.isStatic = true ∨ t.KeepsErasure d.typeParams (ctx.index.viewArguments receiver owner) := by
  have hcall : Binding.Yields ctx _ _ :=
    Binding.yields_chosenCall sub m name receiver owner explicit args lambdas
  obtain ⟨bindings, hagree, htype⟩ := hcall s
  rw [htype, hret, Option.map_some, ExprType.ofOption, ExprType.ErasesTo, GenericType.subst,
    GenericType.erasure_mapVars_iff]
  rw [forall₂_congr fun v hv => by rw [hagree v.name (hforeign v hv)]]
  rw [← GenericType.erasure_mapVars_iff, ← GenericType.subst]
  split
  · rename_i hstatic
    exact iff_of_true (GenericType.erasure_mapVars_iff.2 fun v hv u hu => nomatch hu) (.inl hstatic)
  · rename_i hinstance
    rw [or_iff_right hinstance, TypeIndex.memberBindings_eq hd,
      Bindings.erasure_subst_ofArguments_iff hnames hbounds]

end Reads

/-- A type keeps its erasure in a raw use, and in any use whose arguments fit. A field, and a call
whose result is no variable of the method itself, have the declared erasure exactly if the member is
static, if the receiver is raw where it is seen as the declaring class, or if the argument that it
has there for the variable of the type fits. A raw receiver of the declaring class always gives the
declared erasure. -/
theorem members_of_raw_receivers_erase (ctx : BindingContext) :
    (∀ params args t, (params.map TypeParameter.name).Nodup →
      GenericType.CarriesBounds params t →
      args.length ≠ params.length ∨ (∀ e ∈ params.zip args, e.2.Fits e.1) →
      (t.subst (.ofArguments params args)).erasure = t.erasure) ∧
    (∀ owner d, ctx.index.get? owner = some d → (d.typeParams.map (·.name)).Nodup →
      (∀ f, f.genericType.CarriesBounds d.typeParams →
        (∀ r, (Binding.fieldTypeThrough ctx.index (some r) owner f).erasure =
            f.genericType.erasure ↔ f.isStatic = true ∨
          f.genericType.KeepsErasure d.typeParams (ctx.index.viewArguments r owner)) ∧
        ∀ args, args.length ≠ d.typeParams.length →
          (Binding.fieldTypeThrough ctx.index (some (.object owner args)) owner f).erasure =
            f.genericType.erasure) ∧
      (∀ m t, m.genericRet = some t → t.CarriesBounds d.typeParams →
        (∀ v ∈ t.typeVar?, v.name ∉ m.typeParams.map (·.name)) →
        ∀ sub name explicit given lambdas s,
          (∀ r, (Binding.chosenCall sub name (some r) owner m explicit given lambdas ctx
              s).1.ErasesTo t.erasure ↔ m.isStatic = true ∨
            t.KeepsErasure d.typeParams (ctx.index.viewArguments r owner)) ∧
          ∀ args, args.length ≠ d.typeParams.length →
            (Binding.chosenCall sub name (some (.object owner args)) owner m explicit given lambdas
              ctx s).1.ErasesTo t.erasure)) := by
  have hraw {owner : String} {d : TypeDeclaration} {args : List TypeArgument} {t : GenericType}
      (hlength : args.length ≠ d.typeParams.length) :
      t.KeepsErasure d.typeParams (ctx.index.viewArguments (.object owner args) owner) := by
    rw [TypeIndex.viewArguments, TypeIndex.asSuper?_itself, Option.getD_some]
    exact .inl hlength
  refine ⟨fun params args t hnames hbounds huse => ?_, fun owner d hd hnames => ⟨?_, ?_⟩⟩
  · rw [Bindings.erasure_subst_ofArguments_iff hnames hbounds]
    exact huse.imp_right fun hfits e he _ => hfits e he
  · intro f hbounds
    have hread := fun r => erasure_fieldTypeThrough_iff hd hnames r hbounds
    exact ⟨hread, fun args hlength => (hread _).2 (.inr (hraw hlength))⟩
  · intro m t hret hbounds hforeign sub name explicit given lambdas s
    have hread := fun r =>
      erasesTo_chosenCall_iff hd hnames r hret hbounds hforeign sub name explicit given lambdas s
    exact ⟨hread, fun args hlength => (hread _).2 (.inr (hraw hlength))⟩

section Instances

/-- `U x` of `class Base<U>`. -/
def inheritedField : FieldDeclaration where
  name := "x"
  type := .object objectName
  generic := some (.var "U" .objectClass)

/-- `T value` of `class Box<T extends N> extends Base<S>`. -/
def boundField : FieldDeclaration where
  name := "value"
  type := .object "p.N"
  generic := some (.var "T" (.raw "p.N"))

/-- `<X> T[] all(X x)` of the same class. -/
def boundArrays : MethodDeclaration where
  name := "all"
  descriptor := ⟨[.object objectName], some (.array (.object "p.N"))⟩
  generic := some ⟨[⟨"X", .objectClass⟩], [.var "X" .objectClass],
    some (.array (.var "T" (.raw "p.N")))⟩

def baseDeclaration : TypeDeclaration where
  binary := "p.Base"
  kind := .class_
  origin := .source
  typeParams := [⟨"U", .objectClass⟩]
  fields := [inheritedField]

def boxDeclaration : TypeDeclaration where
  binary := "p.Box"
  kind := .class_
  origin := .source
  superclass := some "p.Base"
  typeParams := [⟨"T", .raw "p.N"⟩]
  genericSupers := [.object "p.Base" [.exact (.raw "p.S")]]
  fields := [boundField]
  methods := [boundArrays]

def boxContext : BindingContext where
  index := { types := .ofList [("p.Base", baseDeclaration), ("p.Box", boxDeclaration)] }
  unit := { unit := .ofText "A.java" "" }

/-- A raw box gives its own members with their declared erasure, but not the field of its
superclass. -/
theorem members_of_raw_receivers_erase_boxes :
    ((GenericType.array (.var "T" (.raw "p.N"))).subst
      (.ofArguments boxDeclaration.typeParams [.any])).erasure = .array (.object "p.N") ∧
    (Binding.fieldTypeThrough boxContext.index (some (.raw "p.Box")) "p.Box" boundField).erasure =
      .object "p.N" ∧
    (Binding.fieldTypeThrough boxContext.index (some (.raw "p.Box")) "p.Base"
      inheritedField).erasure ≠ .object objectName ∧
    (Binding.chosenCall (fun _ => pure .unknown) default (some (.raw "p.Box")) "p.Box" boundArrays
      [] [] [] boxContext { scope := { header := {} } }).1.ErasesTo (.array (.object "p.N")) := by
  obtain ⟨hlaw, hread⟩ := members_of_raw_receivers_erase boxContext
  obtain ⟨hinherited, -⟩ := hread "p.Base" baseDeclaration rfl (by decide)
  obtain ⟨hfield, hcall⟩ := hread "p.Box" boxDeclaration rfl (by decide)
  refine ⟨hlaw _ _ _ (by decide) (by decide) (.inr (by decide)), ?_, ?_, ?_⟩
  · exact (hfield boundField (by decide)).2 [] (by decide)
  · exact mt ((hinherited inheritedField (by decide)).1 (.raw "p.Box")).1 (by decide)
  · exact (hcall boundArrays _ rfl (by decide) (by decide) _ _ _ _ _ _).2 [] (by decide)

end Instances

namespace Program

/-- A raw type whose superclass has an argument. -/
def rawBox : List ParsedUnit :=
  [.ofText "A.java" "class S { } class Base<U> { U x; } class Box<T> extends Base<S> { }"]

/-- Read through a raw receiver, the inherited field has the type that the argument gives it. -/
theorem inherited_field_of_raw_receiver :
    (∀ p ∈ rawBox, p.tree.isSome = true) ∧
    ((ofUnits {} rawBox).index.findField? "Box" "x").map
      (fun (owner, f) => (owner, f.genericType.erasure,
        (Binding.fieldTypeThrough (ofUnits {} rawBox).index (some (.raw "Box")) owner f).erasure)) =
      some ("Base", .object objectName, .object "S") := by
  decide +kernel

end Program

end Renaming.Java
