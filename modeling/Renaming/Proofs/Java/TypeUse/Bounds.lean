import Renaming.Proofs.Java.BoundChains
import Renaming.Proofs.Java.Comments
import Renaming.Proofs.Java.TypeUse.Agreement

/-!
# Bounds of type variables

A type variable erases to its first bound, and if that is a variable again, to what this one erases
to. Bounds are read while all variables of their section are still without bounds. A variable that
is bounded by another one of its section is therefore read with the root class in its place, and it
has its leftmost bound only if that is the root class too. What is bounded by such a variable in a
section further inside loses its leftmost bound with it.
-/

namespace Renaming.Java

namespace Naming

/-- A naming of what has `P`. -/
def Yields {α : Type} (P : α → Prop) (named : Naming α) : Prop := ∀ uses, P (named uses).1

namespace Yields

variable {α β : Type} {P : α → Prop} {Q : β → Prop}

theorem pure {a : α} (h : P a) : Yields P (pure a : Naming α) := fun _ => h

theorem bind {named : Naming α} {next : α → Naming β} (h : Yields P named)
    (hnext : ∀ a, P a → Yields Q (next a)) : Yields Q (named >>= next) :=
  fun uses => hnext _ (h uses) _

theorem after {named : Naming α} {next : α → Naming β} (hnext : ∀ a, Yields Q (next a)) :
    Yields Q (named >>= next) :=
  fun _ => hnext _ _

theorem forIn {l : List α} {b : β} {f : α → β → Naming (ForInStep β)} (hb : Q b)
    (h : ∀ a ∈ l, ∀ b, Q b → Yields (fun step => Q step.value) (f a b)) :
    Yields Q (forIn l b f) := by
  induction l generalizing b with
  | nil => exact pure hb
  | cons a rest ih =>
    rw [List.forIn_cons]
    refine bind (h a (by simp) b hb) fun step hstep => ?_
    cases step with
    | done b => exact pure hstep
    | yield b => exact ih hstep fun c hc => h c (by simp [hc])

end Yields

variable {α β : Type}

/-- What does not depend on what is named before is its value. -/
theorem Agree.pure_value {named : Naming α} (h : Agree named named) :
    Agree named (Pure.pure named.value) := fun uses _ => h uses {}

theorem value_mapM {l : List α} {f : α → Naming β} (h : ∀ a ∈ l, Agree (f a) (f a)) :
    (l.mapM f).value = l.map fun a => (f a).value := by
  have hpure : Agree (l.mapM f) (l.mapM fun a => Pure.pure (f a).value) :=
    .mapM fun a ha => (h a ha).pure_value
  rw [hpure.value_eq, List.mapM_pure]
  rfl

end Naming

namespace TypeContext

open Naming (Yields Agree)

/-! ## Variables in scope -/

section Scoped

variable (ctx : TypeContext)

/-- The variable that a type is, or is an array of, is one of the scope. -/
def Scoped (t : GenericType) : Prop :=
  ∀ v ∈ t.typeVar?, ctx.scope.resolveSimple? ctx.index v.name = some (.var v)

variable {ctx}

theorem Scoped.of_class {t : GenericType} (h : t.typeVar? = none) : ctx.Scoped t := by
  intro v hv
  rw [h] at hv
  cases hv

theorem name_of_resolveSimple? {name : String} {v : TypeParameter}
    (h : ctx.scope.resolveSimple? ctx.index name = some (.var v)) : v.name = name := by
  rcases Option.or_eq_some_iff.1 h with hframe | ⟨-, hglobal⟩
  · obtain ⟨frame, -, hfind⟩ := List.exists_of_findSome?_eq_some hframe
    cases frame with
    | classBody binary =>
      obtain ⟨_, -, heq⟩ := Option.map_eq_some_iff.1 hfind
      cases heq
    | typeVars params =>
      obtain ⟨_, hparam, heq⟩ := Option.map_eq_some_iff.1 hfind
      cases heq
      simpa using List.find?_some hparam
    | block types =>
      obtain ⟨_, -, heq⟩ := Option.map_eq_some_iff.1 hfind
      cases heq
  · obtain ⟨_, -, heq⟩ := Option.map_eq_some_iff.1 hglobal
    cases heq

theorem yields_simple (n : Node) : Yields (∀ t ∈ ·, ctx.Scoped t) (ctx.simple n) := by
  unfold simple
  dsimp only
  split
  · refine .after fun _ => .pure ?_
    rintro t ⟨⟩
    exact .of_class rfl
  · rename_i param hparam
    refine .pure ?_
    rintro t ⟨⟩ v ⟨⟩
    rw [← name_of_resolveSimple? hparam] at hparam
    exact hparam
  · refine .after fun _ => .pure fun t ht => ?_
    obtain ⟨_, -, rfl⟩ := Option.map_eq_some_iff.1 ht
    exact .of_class rfl

theorem yields_dotted (sub : Node → Naming (Option GenericType)) (n : Node) :
    Yields (∀ t ∈ ·, ctx.Scoped t) (ctx.dotted sub n) := by
  refine .after fun _ => ?_
  dsimp only
  split
  · refine .after fun _ => .pure fun t ht => ?_
    obtain ⟨_, -, rfl⟩ := Option.map_eq_some_iff.1 ht
    exact .of_class rfl
  · exact .after fun _ => .pure nofun

section Rules

variable {sub : Node → Naming (Option GenericType)}
  (hsub : ∀ n, Yields (∀ t ∈ ·, ctx.Scoped t) (sub n))
include hsub

theorem yields_ofChild (child : Option Node) :
    Yields (∀ t ∈ ·, ctx.Scoped t) (ofChild sub child) := by
  cases child with
  | none => exact .pure nofun
  | some c => exact hsub c

theorem yields_wildcardArgument (n : Node) :
    Yields (fun a => ∀ t ∈ a.bound?, ctx.Scoped t) (wildcardArgument sub n) := by
  refine .bind (yields_ofChild hsub _) fun t ht => ?_
  split
  · exact .pure nofun
  · rename_i t
    split
    · exact .pure ht
    · exact .pure ht

theorem yields_generic (n : Node) : Yields (∀ t ∈ ·, ctx.Scoped t) (generic sub n) := by
  refine .bind (.forIn (Q := fun b => ∀ t ∈ b.1, ctx.Scoped t) nofun fun part _ b hb => ?_)
    fun b hb => ?_
  · split
    · exact .after fun _ => .pure hb
    · exact .bind (hsub part) fun _ ht => .pure ht
    · exact .bind (hsub part) fun _ ht => .pure ht
    · exact .pure hb
  · dsimp only
    split
    · refine .pure ?_
      rintro t ⟨⟩
      exact .of_class rfl
    · exact .pure hb

theorem yields_meaning (n : Node) : Yields (∀ t ∈ ·, ctx.Scoped t) (ctx.meaning sub n) := by
  have hprimitive : ∀ t ∈ (Primitive.ofKeyword? (ctx.text n)).map GenericType.prim,
      ctx.Scoped t := by
    intro t ht
    obtain ⟨_, -, rfl⟩ := Option.map_eq_some_iff.1 ht
    exact .of_class rfl
  unfold meaning
  split
  · exact .pure hprimitive
  · exact .pure hprimitive
  · exact .pure hprimitive
  · exact .pure nofun
  · exact yields_simple n
  · exact yields_dotted sub n
  · exact yields_generic hsub n
  · refine .bind (yields_ofChild hsub _) fun element helement => .pure fun t ht => ?_
    obtain ⟨element, hmem, rfl⟩ := Option.map_eq_some_iff.1 ht
    intro v hv
    rw [GenericType.typeVar?_withDims] at hv
    exact helement element hmem v hv
  · exact yields_ofChild hsub _
  · refine .bind (yields_wildcardArgument hsub n) fun a ha => .pure ?_
    rintro t ⟨⟩
    cases hbound : a.bound? with
    | none => exact .of_class rfl
    | some t => exact ha t hbound
  · exact .after fun _ => .pure nofun

end Rules

theorem yields_meaningWithin (height : Nat) (n : Node) :
    Yields (∀ t ∈ ·, ctx.Scoped t) (ctx.meaningWithin height n) := by
  induction height generalizing n with
  | zero => exact .pure nofun
  | succ height ih => exact yields_meaning ih n

/-- Variables are read as the scope has them. -/
theorem scoped_of_type? {n : Node} {t : GenericType} (h : ctx.type? n = some t) : ctx.Scoped t :=
  yields_meaningWithin n.height n {} t h

end Scoped

/-! ## Sections -/

variable (ctx : TypeContext) (n : Node)

/-- The bounds of a variable that a section declares. -/
def boundsOf? (name : String) : Option (List Node) :=
  ((ctx.parameterNames n).find? (·.1 == name)).map Prod.snd

/-- The context in which the bounds of a section are read. -/
def boundContext : TypeContext :=
  let frame := TypeFrame.typeVars ((ctx.parameterNames n).map fun p => ⟨p.1, .objectClass⟩)
  { ctx with scope := ctx.scope.push frame }

/-- The context of what a section stands in front of. -/
def innerContext : TypeContext :=
  { ctx with scope := ctx.scope.push (.typeVars (ctx.typeParameters n).value) }

/-- What is recorded as the bound of a variable. -/
def recordedBound (bounds : List Node) : GenericType :=
  (bounds.head?.bind (ctx.boundContext n).type?).getD .objectClass

theorem value_typeParameters : (ctx.typeParameters n).value =
    (ctx.parameterNames n).map fun p => ⟨p.1, ctx.recordedBound n p.2⟩ := by
  have hsame (bound : Node) : Agree ((ctx.boundContext n).typeOf bound)
      ((ctx.boundContext n).typeOf bound) := by
    have : Descends fun _ => True := ⟨fun _ _ _ => trivial⟩
    exact agree_typeOf (T := fun _ => True) (.refl _ _) trivial
  have hbounds (bounds : List Node) : (bounds.mapM (ctx.boundContext n).typeOf).value =
      bounds.map (ctx.boundContext n).type? :=
    Naming.value_mapM fun bound _ => hsame bound
  refine (Naming.value_mapM fun p _ => ?_).trans (List.map_congr_left fun p _ => ?_)
  · exact .bind (.mapM fun bound _ => hsame bound) fun _ => .pure
  change (⟨p.1, ((p.2.mapM (ctx.boundContext n).typeOf).value.head?.join).getD .objectClass⟩ :
    TypeParameter) = _
  rw [hbounds, List.head?_map, recordedBound]
  cases p.2.head? with
  | none => rfl
  | some bound => rfl

variable {ctx n}

/-- A variable of the section is found in it first. -/
theorem resolveSimple?_push {index : TypeIndex} {scope : TypeScope} {name : String}
    {bounds : List Node} (h : ctx.boundsOf? n name = some bounds) (f : List Node → GenericType) :
    (scope.push (.typeVars ((ctx.parameterNames n).map fun p => ⟨p.1, f p.2⟩))).resolveSimple? index
      name = some (.var ⟨name, f bounds⟩) := by
  obtain ⟨⟨name', bounds'⟩, hfind, rfl⟩ := Option.map_eq_some_iff.1 h
  obtain rfl : name' = name := by simpa using List.find?_some hfind
  rw [TypeScope.resolveSimple?_push_typeVars]
  simp only [List.find?_map, Function.comp_def, hfind, Option.map_some, Option.some_or]

/-- While bounds are read, the variables of the section have none. -/
theorem bound_of_type? {b : Node} {t : GenericType} {v : TypeParameter} {bounds : List Node}
    (h : (ctx.boundContext n).type? b = some t) (hv : t.typeVar? = some v)
    (hdeclared : ctx.boundsOf? n v.name = some bounds) : v.bound = .objectClass := by
  have hscoped := scoped_of_type? h v hv
  have hfound : (ctx.boundContext n).scope.resolveSimple? ctx.index v.name =
      some (.var ⟨v.name, .objectClass⟩) :=
    resolveSimple?_push hdeclared fun _ => .objectClass
  have heq := TypeBinding.var.inj (Option.some.inj (hscoped.symm.trans hfound))
  exact congrArg TypeParameter.bound heq

/-- A name that means a variable is read as this variable. -/
theorem type?_of_resolveSimple? {u : Node} {v : TypeParameter} (hkind : u.kind = .typeIdentifier)
    (hv : ctx.scope.resolveSimple? ctx.index (ctx.text u) = some (.var v)) :
    ctx.type? u = some v.var := by
  obtain ⟨kind, role, span, text, children⟩ := u
  cases hkind
  rw [type?, typeOf, Node.height, meaningWithin]
  change (ctx.simple _).value = _
  rw [simple]
  simp only [hv]
  rfl

/-! ## Leftmost bounds -/

/-- The first bound in a list of bounds, which comments may stand in front of. -/
def firstBound? (bounds : List Node) : Option Node := bounds.find? (!·.kind.isComment)

/-- What stands around a place: a section of type parameters, or another frame of its scope. -/
inductive Layer where
  | parameters (n : Node)
  | frame (f : TypeFrame)

variable (ctx) in
/-- The context inside some layers, the innermost first. -/
def within : List Layer → TypeContext
  | [] => ctx
  | .parameters n :: around => (within around).innerContext n
  | .frame f :: around =>
    { within around with scope := (within around).scope.push f }

theorem index_within (layers : List Layer) : (ctx.within layers).index = ctx.index := by
  induction layers with
  | nil => rfl
  | cons layer around ih => cases layer <;> exact ih

variable (ctx) in
/-- What a type erases to inside some layers, if each variable stands for its first bound. A name is
the variable of the innermost section that declares it, and the bounds of a section are read inside
the layers around it, where all its variables are known. What is recorded of a variable plays no
part. -/
inductive ErasesWithin : List Layer → GenericType → FieldType → Prop where
  | prim {layers : List Layer} (p : Primitive) : ErasesWithin layers (.prim p) (.prim p)
  | object {layers : List Layer} (binary : String) (args : List TypeArgument) :
    ErasesWithin layers (.object binary args) (.object binary)
  | array {layers : List Layer} {t : GenericType} {e : FieldType} :
    ErasesWithin layers t e → ErasesWithin layers (.array t) (.array e)
  | unbounded {n : Node} {around : List Layer} {name : String} {recorded : GenericType}
    {bounds : List Node} : (ctx.within around).boundsOf? n name = some bounds →
    firstBound? bounds = none →
    ErasesWithin (.parameters n :: around) (.var name recorded) (.object objectName)
  | bounded {n : Node} {around : List Layer} {name : String} {recorded t : GenericType}
    {bounds : List Node} {b : Node} {e : FieldType} :
    (ctx.within around).boundsOf? n name = some bounds → firstBound? bounds = some b →
    ((ctx.within around).boundContext n).type? b = some t →
    ErasesWithin (.parameters n :: around) t e →
    ErasesWithin (.parameters n :: around) (.var name recorded) e
  | enclosing {n : Node} {around : List Layer} {name : String} {recorded : GenericType}
    {e : FieldType} : (ctx.within around).boundsOf? n name = none →
    ErasesWithin around (.var name recorded) e →
    ErasesWithin (.parameters n :: around) (.var name recorded) e
  | beyond {f : TypeFrame} {around : List Layer} {name : String} {recorded : GenericType}
    {e : FieldType} : f.find? ctx.index name = none → ErasesWithin around (.var name recorded) e →
    ErasesWithin (.frame f :: around) (.var name recorded) e

/-- The variable that the first bound is, or is an array of. -/
def LeadsTo (ctx : TypeContext) (n : Node) (bounds : List Node) (v : TypeParameter) : Prop :=
  ∃ b t, firstBound? bounds = some b ∧ (ctx.boundContext n).type? b = some t ∧
    t.typeVar? = some v

variable (ctx) in
/-- Whether a variable is read with its leftmost bound. In the section that declares it, the first
bound stands in front of all comments, and if it leads to a variable, then to one of the same
section that erases to the root class, or to one of an enclosing section that is itself read with
its leftmost bound. A variable that erases to the root class is always read so. -/
def ReadsBound : List Layer → String → Prop
  | [], _ => False
  | .frame _ :: around, name => ReadsBound around name
  | .parameters n :: around, name =>
    ((ctx.within around).boundsOf? n name = none → ReadsBound around name) ∧
      ∀ bounds, (ctx.within around).boundsOf? n name = some bounds →
        ctx.ErasesWithin (.parameters n :: around) (.var name .objectClass) (.object objectName) ∨
          bounds.head? = firstBound? bounds ∧ ∀ v, (ctx.within around).LeadsTo n bounds v →
            if ((ctx.within around).boundsOf? n v.name).isSome then
              ctx.ErasesWithin (.parameters n :: around) v.var (.object objectName)
            else ReadsBound around v.name

namespace ErasesWithin

variable {layers : List Layer} {t : GenericType} {e e' : FieldType}

/-- What is recorded of a variable plays no part. -/
theorem recorded {name : String} {recorded : GenericType}
    (h : ctx.ErasesWithin layers (.var name recorded) e) (recorded' : GenericType) :
    ctx.ErasesWithin layers (.var name recorded') e := by
  induction layers with
  | nil => cases h
  | cons layer around ih =>
    cases h with
    | unbounded hbounds hnone => exact .unbounded hbounds hnone
    | bounded hbounds hb ht h => exact .bounded hbounds hb ht h
    | enclosing hnone h => exact .enclosing hnone (ih h)
    | beyond hnone h => exact .beyond hnone (ih h)

theorem unique (h : ctx.ErasesWithin layers t e) (h' : ctx.ErasesWithin layers t e') : e = e' := by
  induction h generalizing e' with
  | prim => cases h' with | prim => rfl
  | object => cases h' with | object => rfl
  | array _ ih => cases h' with | array h' => rw [ih h']
  | unbounded hbounds hnone =>
    cases h' with
    | unbounded => rfl
    | bounded hbounds' hb' =>
      cases hbounds.symm.trans hbounds'
      cases hnone.symm.trans hb'
    | enclosing hnone' => cases hbounds.symm.trans hnone'
  | bounded hbounds hb ht _ ih =>
    cases h' with
    | unbounded hbounds' hnone =>
      cases hbounds.symm.trans hbounds'
      cases hb.symm.trans hnone
    | bounded hbounds' hb' ht' h' =>
      cases hbounds.symm.trans hbounds'
      cases hb.symm.trans hb'
      cases ht.symm.trans ht'
      exact ih h'
    | enclosing hnone => cases hbounds.symm.trans hnone
  | enclosing hnone _ ih =>
    cases h' with
    | unbounded hbounds => cases hnone.symm.trans hbounds
    | bounded hbounds => cases hnone.symm.trans hbounds
    | enclosing _ h' => exact ih h'
  | beyond _ _ ih => cases h' with | beyond _ h' => exact ih h'

/-- A type that erases to the root class leads to variables that do. -/
theorem of_typeVar? {v : TypeParameter} (h : ctx.ErasesWithin layers t (.object objectName))
    (hv : t.typeVar? = some v) : ctx.ErasesWithin layers v.var (.object objectName) := by
  cases t with
  | prim p => cases hv
  | object binary args => cases hv
  | array element => cases h
  | var name bound =>
    cases hv
    exact h

/-- A type erases as it should if the variable that it is, or is an array of, does. -/
theorem erasure_eq_iff {p : TypeParameter → Prop} (h : ctx.ErasesWithin layers t e)
    (hvar : ∀ v e, t.typeVar? = some v → ctx.ErasesWithin layers v.var e →
      (v.bound.erasure = e ↔ p v)) :
    t.erasure = e ↔ ∀ v, t.typeVar? = some v → p v := by
  induction t using GenericType.typeVar?.induct generalizing e with
  | case1 p =>
    cases h
    exact iff_of_true rfl (by rintro v ⟨⟩)
  | case2 binary args =>
    cases h
    exact iff_of_true rfl (by rintro v ⟨⟩)
  | case3 element ih =>
    cases h with
    | array h =>
      rw [GenericType.erasure, FieldType.array.injEq]
      exact ih h hvar
  | case4 name bound =>
    rw [GenericType.erasure, hvar ⟨name, bound⟩ e rfl h]
    constructor
    · rintro hp v ⟨⟩
      exact hp
    · exact fun hp => hp _ rfl

end ErasesWithin

/-- A variable that erases to the root class is read so. -/
theorem ErasesWithin.readsBound {layers : List Layer} {name : String} {recorded : GenericType}
    (h : ctx.ErasesWithin layers (.var name recorded) (.object objectName)) :
    ctx.ReadsBound layers name := by
  induction layers with
  | nil => cases h
  | cons layer around ih =>
    cases layer with
    | frame f => cases h with | beyond _ h => exact ih h
    | parameters n =>
      refine ⟨fun hnone => ?_, fun _ _ => .inl (h.recorded _)⟩
      cases h with
      | unbounded hsome => cases hnone.symm.trans hsome
      | bounded hsome => cases hnone.symm.trans hsome
      | enclosing _ h => exact ih h

/-- A comment spells no type. -/
theorem type?_of_isComment {c : Node} (hc : c.kind.isComment = true) : ctx.type? c = none := by
  obtain ⟨kind, role, span, text, children⟩ := c
  rw [type?, typeOf, Node.height, meaningWithin]
  rcases NodeKind.isComment_cases hc with rfl | rfl <;> rfl

theorem recordedBound_of_comment {bounds : List Node} (hfirst : bounds.head? ≠ firstBound? bounds) :
    ctx.recordedBound n bounds = .objectClass := by
  cases bounds with
  | nil => exact absurd rfl hfirst
  | cons b rest =>
    have hcomment : b.kind.isComment = true := by
      by_contra hword
      refine hfirst ?_
      rw [List.head?_cons, firstBound?, List.find?_cons, Bool.not_eq_true _ |>.mp hword]
      rfl
    rw [recordedBound, List.head?_cons, Option.bind_some, type?_of_isComment hcomment,
      Option.getD_none]

/-- What a bound is read to hides no variable: one that its section does not declare is the one
that is known around the section. -/
theorem resolve_of_type? {b : Node} {t : GenericType} {v : TypeParameter}
    (h : (ctx.boundContext n).type? b = some t) (hv : t.typeVar? = some v)
    (hnone : ctx.boundsOf? n v.name = none) :
    ctx.scope.resolveSimple? ctx.index v.name = some (.var v) := by
  have hscoped := scoped_of_type? h v hv
  rw [boundContext, TypeScope.resolveSimple?_push_typeVars] at hscoped
  rw [boundsOf?, Option.map_eq_none_iff] at hnone
  simpa [List.find?_map, Function.comp_def, hnone] using hscoped

/-- In the section that declares it, how a variable is read depends on its first bound. -/
theorem readsBound_iff_of_declared {around : List Layer} {n : Node} {name : String}
    {bounds : List Node} {e : FieldType}
    (hdeclared : (ctx.within around).boundsOf? n name = some bounds)
    (he : ctx.ErasesWithin (.parameters n :: around) (.var name .objectClass) e) :
    ctx.ReadsBound (.parameters n :: around) name ↔ e = .object objectName ∨
      bounds.head? = firstBound? bounds ∧ ∀ v, (ctx.within around).LeadsTo n bounds v →
        if ((ctx.within around).boundsOf? n v.name).isSome then
          ctx.ErasesWithin (.parameters n :: around) v.var (.object objectName)
        else ctx.ReadsBound around v.name := by
  have hroot : ctx.ErasesWithin (.parameters n :: around) (.var name .objectClass)
      (.object objectName) ↔ e = .object objectName :=
    ⟨fun h => he.unique h, fun h => h ▸ he⟩
  rw [ReadsBound, hdeclared]
  simp [hroot]

/-- A bound is read with the variables of its section without bounds, and with those around the
section as they are read there. -/
theorem firstBound_erasure_iff {around : List Layer} {n b : Node} {t : GenericType} {e : FieldType}
    (haround : ∀ v e, (ctx.within around).scope.resolveSimple? ctx.index v.name = some (.var v) →
      ctx.ErasesWithin around v.var e → (v.bound.erasure = e ↔ ctx.ReadsBound around v.name))
    (ht : ((ctx.within around).boundContext n).type? b = some t)
    (he : ctx.ErasesWithin (.parameters n :: around) t e) :
    t.erasure = e ↔ ∀ v, t.typeVar? = some v →
      if ((ctx.within around).boundsOf? n v.name).isSome then
        ctx.ErasesWithin (.parameters n :: around) v.var (.object objectName)
      else ctx.ReadsBound around v.name := by
  refine he.erasure_eq_iff fun v e' hv he' => ?_
  cases hsection : (ctx.within around).boundsOf? n v.name with
  | some bounds' =>
    rw [bound_of_type? ht hv hsection]
    exact ⟨fun h => by rwa [← h] at he', fun h => h.unique he'⟩
  | none =>
    have hresolve := resolve_of_type? ht hv hsection
    rw [index_within] at hresolve
    cases he' with
    | unbounded hsome => cases hsection.symm.trans hsome
    | bounded hsome => cases hsection.symm.trans hsome
    | enclosing _ he' => exact haround v e' hresolve he'

/-- The bound that is recorded of a variable is its leftmost one exactly if it is read so. -/
theorem recordedBound_erasure_iff {around : List Layer} {n : Node} {name : String}
    {bounds : List Node} {e : FieldType}
    (haround : ∀ v e, (ctx.within around).scope.resolveSimple? ctx.index v.name = some (.var v) →
      ctx.ErasesWithin around v.var e → (v.bound.erasure = e ↔ ctx.ReadsBound around v.name))
    (hdeclared : (ctx.within around).boundsOf? n name = some bounds)
    (he : ctx.ErasesWithin (.parameters n :: around) (.var name .objectClass) e) :
    ((ctx.within around).recordedBound n bounds).erasure = e ↔
      ctx.ReadsBound (.parameters n :: around) name := by
  rw [readsBound_iff_of_declared hdeclared he]
  by_cases hfirst : bounds.head? = firstBound? bounds
  · cases he with
    | enclosing hnone => cases hdeclared.symm.trans hnone
    | unbounded hbounds' hnone =>
      cases hdeclared.symm.trans hbounds'
      rw [recordedBound, hfirst, hnone]
      exact iff_of_true rfl (.inl rfl)
    | @bounded _ _ _ _ t _ b _ hbounds' hb ht he =>
      cases hdeclared.symm.trans hbounds'
      rw [recordedBound, hfirst, hb, Option.bind_some, ht, Option.getD_some,
        firstBound_erasure_iff haround ht he]
      constructor
      · refine fun hleads => .inr ⟨hb ▸ rfl, ?_⟩
        rintro v ⟨b', t', hb', ht', hv⟩
        cases hb.symm.trans hb'
        cases ht.symm.trans ht'
        exact hleads v hv
      · rintro (rfl | ⟨-, hleads⟩) v hv
        · have hroot := he.of_typeVar? hv
          split
          · exact hroot
          · rename_i hsection
            have hnone := Option.not_isSome_iff_eq_none.1 hsection
            exact (show ctx.ReadsBound _ v.name from hroot.readsBound).1 hnone
        · exact hleads v ⟨b, t, hb, ht, hv⟩
  · rw [recordedBound_of_comment hfirst]
    simp only [hfirst, false_and, or_false]
    exact eq_comm

/-- A variable in scope is bound by what erases as its leftmost bound exactly if it is read so. -/
theorem bound_erasure_iff {layers : List Layer} {v : TypeParameter} {e : FieldType}
    (hv : (ctx.within layers).scope.resolveSimple? ctx.index v.name = some (.var v))
    (he : ctx.ErasesWithin layers v.var e) :
    v.bound.erasure = e ↔ ctx.ReadsBound layers v.name := by
  induction layers generalizing v e with
  | nil => cases he
  | cons layer around ih =>
    cases layer with
    | frame f =>
      cases he with
      | beyond hnone he =>
        refine ih ?_ he
        rwa [within, TypeScope.resolveSimple?, TypeScope.push, List.findSome?_cons, hnone] at hv
    | parameters n =>
      cases hdeclared : (ctx.within around).boundsOf? n v.name with
      | some bounds =>
        have hfound : (ctx.within (.parameters n :: around)).scope.resolveSimple? ctx.index v.name =
            some (.var ⟨v.name, (ctx.within around).recordedBound n bounds⟩) := by
          rw [within, innerContext, value_typeParameters]
          exact resolveSimple?_push hdeclared ((ctx.within around).recordedBound n)
        have hbound := congrArg TypeParameter.bound
          (TypeBinding.var.inj (Option.some.inj (hv.symm.trans hfound)))
        rw [hbound]
        exact recordedBound_erasure_iff (fun v e => ih) hdeclared (he.recorded _)
      | none =>
        have houter : (ctx.within around).scope.resolveSimple? ctx.index v.name =
            some (.var v) := by
          rw [within, innerContext, value_typeParameters,
            TypeScope.resolveSimple?_push_typeVars] at hv
          rw [boundsOf?, Option.map_eq_none_iff] at hdeclared
          simpa [List.find?_map, Function.comp_def, hdeclared] using hv
        cases he with
        | unbounded hsome => cases hdeclared.symm.trans hsome
        | bounded hsome => cases hdeclared.symm.trans hsome
        | enclosing _ he =>
          rw [ih houter he, ReadsBound, hdeclared]
          simp

theorem text_within (layers : List Layer) : (ctx.within layers).text = ctx.text := by
  induction layers with
  | nil => rfl
  | cons layer around ih => cases layer <;> exact ih

/-- A name that a section declares is a variable inside the section. -/
theorem ErasesWithin.exists_var {layers : List Layer} {name : String} {recorded : GenericType}
    {e : FieldType} (h : ctx.ErasesWithin layers (.var name recorded) e) :
    ∃ v, (ctx.within layers).scope.resolveSimple? ctx.index name = some (.var v) := by
  induction layers with
  | nil => cases h
  | cons layer around ih =>
    cases layer with
    | frame f =>
      cases h with
      | beyond hnone h =>
        obtain ⟨v, hv⟩ := ih h
        refine ⟨v, ?_⟩
        rwa [within, TypeScope.resolveSimple?, TypeScope.push, List.findSome?_cons, hnone]
    | parameters n =>
      rw [within, innerContext, value_typeParameters]
      cases hdeclared : (ctx.within around).boundsOf? n name with
      | some bounds =>
        exact ⟨_, resolveSimple?_push hdeclared ((ctx.within around).recordedBound n)⟩
      | none =>
        cases h with
        | unbounded hsome => cases hdeclared.symm.trans hsome
        | bounded hsome => cases hdeclared.symm.trans hsome
        | enclosing _ h =>
          obtain ⟨v, hv⟩ := ih h
          refine ⟨v, ?_⟩
          rw [boundsOf?, Option.map_eq_none_iff] at hdeclared
          simpa [TypeScope.resolveSimple?_push_typeVars, List.find?_map, Function.comp_def,
            hdeclared] using hv

/-- A name of a variable, in any section and inside any layers, is always read. What is read erases
to the leftmost bound of the variable exactly if the variable is read with it. -/
theorem erasure_variable_iff {layers : List Layer} {u : Node} {e : FieldType}
    (hkind : u.kind = .typeIdentifier)
    (he : ctx.ErasesWithin layers (.var (ctx.text u) .objectClass) e) :
    ∃ t, (ctx.within layers).type? u = some t ∧
      (t.erasure = e ↔ ctx.ReadsBound layers (ctx.text u)) := by
  obtain ⟨v, hv⟩ := he.exists_var
  have hfound : (ctx.within layers).scope.resolveSimple? (ctx.within layers).index (ctx.text u) =
      some (.var v) := by rw [index_within, hv]
  have hname := name_of_resolveSimple? hfound
  refine ⟨v.var, type?_of_resolveSimple? hkind ?_, ?_⟩
  · rw [text_within, index_within, hv]
  · rw [← hname] at hv he ⊢
    exact bound_erasure_iff hv (he.recorded v.bound)

/-! ## A chain of variables -/

/-- The section of a class, whose first variable is bounded by a known class and its second one by
the first, and the section of a method in the class, whose variables are bounded by these. -/
def chainContext : TypeContext where
  index := ({} : TypeIndex).insert { binary := "B", kind := .class_, origin := .source }
  source := .ofString "<T extends B, U extends T><V extends U, W extends T>"
  scope := { header := {} }

def letterAt (start : Nat) : Node := .mk .typeIdentifier none ⟨start, start + 1⟩ "" []

/-- The parameter whose name and whose bound stand at the given places. -/
def parameterAt (name bound : Nat) : Node :=
  .mk .typeParameter none ⟨name, bound + 1⟩ ""
    [letterAt name, .mk .typeBound none ⟨name + 2, bound + 1⟩ "" [letterAt bound]]

def classSection : Node :=
  .mk .typeParameters none ⟨0, 26⟩ "" [parameterAt 1 11, parameterAt 14 24]

def methodSection : Node :=
  .mk .typeParameters none ⟨26, 52⟩ "" [parameterAt 27 37, parameterAt 40 50]

/-- What stands around the parameters of the method. -/
def chainLayers : List Layer :=
  [.parameters methodSection, .frame (.classBody "A"), .parameters classSection]

/-- The variable of the method that is bounded by the first one of the class is read with its
leftmost bound. The one that is bounded by the second has the same leftmost bound, and is not read
with it. -/
theorem erasure_variable_iff_chain :
    (∃ t, (chainContext.within chainLayers).type? (letterAt 40) = some t ∧
      t.erasure = .object "B") ∧
    chainContext.ErasesWithin chainLayers (.var "V" .objectClass) (.object "B") ∧
    ∃ t, (chainContext.within chainLayers).type? (letterAt 27) = some t ∧
      t.erasure ≠ .object "B" := by
  have hfirst (r : GenericType) :
      chainContext.ErasesWithin [.parameters classSection] (.var "T" r) (.object "B") :=
    .bounded rfl rfl rfl (.object "B" [])
  have hsecond (r : GenericType) :
      chainContext.ErasesWithin [.parameters classSection] (.var "U" r) (.object "B") :=
    .bounded rfl rfl rfl (hfirst _)
  have hthird : chainContext.ErasesWithin chainLayers (.var "V" .objectClass) (.object "B") :=
    .bounded rfl rfl rfl (.enclosing rfl (.beyond rfl (hsecond _)))
  have hfourth : chainContext.ErasesWithin chainLayers (.var "W" .objectClass) (.object "B") :=
    .bounded rfl rfl rfl (.enclosing rfl (.beyond rfl (hfirst _)))
  have hroot : FieldType.object "B" ≠ .object objectName := by decide
  refine ⟨?_, hthird, ?_⟩
  · obtain ⟨t, ht, hiff⟩ := @erasure_variable_iff chainContext chainLayers (letterAt 40) _ rfl
      hfourth
    have hclass : chainContext.ReadsBound [.parameters classSection] "T" := by
      refine ⟨nofun, fun bounds hbounds => .inr ?_⟩
      cases hbounds
      refine ⟨rfl, ?_⟩
      rintro v ⟨b, t, hb, ht, hv⟩
      cases hb
      cases ht
      cases hv
    refine ⟨t, ht, hiff.2 ⟨nofun, fun bounds hbounds => .inr ?_⟩⟩
    cases hbounds
    refine ⟨rfl, ?_⟩
    rintro v ⟨b, t, hb, ht, hv⟩
    cases hb
    cases ht
    cases hv
    exact hclass
  · obtain ⟨t, ht, hiff⟩ := @erasure_variable_iff chainContext chainLayers (letterAt 27) _ rfl
      hthird
    refine ⟨t, ht, fun herasure => ?_⟩
    obtain herased | ⟨-, hleads⟩ := (hiff.1 herasure).2 [letterAt 37] rfl
    · exact hroot (hthird.unique herased)
    · have hclass : chainContext.ReadsBound [.parameters classSection] "U" :=
        hleads ⟨"U", .var "T" .objectClass⟩ ⟨letterAt 37, _, rfl, rfl, rfl⟩
      obtain herased | ⟨-, hleads⟩ := hclass.2 [letterAt 24] rfl
      · exact hroot ((hsecond _).unique herased)
      · have herased : chainContext.ErasesWithin _ (.var "T" .objectClass) _ :=
          hleads ⟨"T", .objectClass⟩ ⟨letterAt 24, _, rfl, rfl, rfl⟩
        exact hroot ((hfirst _).unique herased)

end TypeContext

/-- A parameter whose type is a variable has the bound of the variable in its method's signature,
but has it no more if the variable reaches the bound through another one of a section, be it its own
or one around it. -/
theorem chained_bound_lost :
    soleSignatures "class A { <T extends A, U extends A> void f(U u) { } }" =
        [["A", "A", "A", "A.f(LA;)V", "A.f(LA;)V#0"]] ∧
      soleSignatures "class A { <T extends A, U extends T> void f(U u) { } }" =
        [["A", "A", "A.f(Ljava/lang/Object;)V", "A.f(Ljava/lang/Object;)V#0"]] ∧
      soleSignatures
          "class A<T extends B, U extends T> { <V extends U> void f(V v) { } } class B { }" =
        [["A", "B", "A.f(Ljava/lang/Object;)V", "A.f(Ljava/lang/Object;)V#0", "B"]] := by
  refine ⟨?_, ?_, ?_⟩
  · decide +kernel
  · decide +kernel
  · decide +kernel

end Renaming.Java
