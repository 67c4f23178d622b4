import Mathlib.Order.Defs.Unbundled
import Renaming.Proofs.Java.Overload.Exact

/-!
# The order of types in calls without boxing

Among types whose classes are known, passing a value without boxing is a partial order: widening of
primitives, subtyping of classes, arrays that follow their elements, and the root class and the two
interfaces that take every array fit together. So two methods with different parameters are never
both more specific than each other.
-/

namespace Renaming

namespace Primitive

theorem mem_wider_trans {p q r : Primitive} (hpq : q ∈ p.wider) (hqr : r ∈ q.wider) :
    r ∈ p.wider := by
  have hclosed : ∀ q ∈ p.wider, ∀ r ∈ q.wider, r ∈ p.wider := by cases p <;> decide
  exact hclosed q hpq r hqr

theorem widensTo_iff {p q : Primitive} : p.widensTo q = true ↔ p = q ∨ q ∈ p.wider := by
  simp [widensTo]

theorem widensTo_trans {p q r : Primitive} (hpq : p.widensTo q = true)
    (hqr : q.widensTo r = true) : p.widensTo r = true := by
  rw [widensTo_iff] at *
  rcases hpq with rfl | hpq
  · exact hqr
  rcases hqr with rfl | hqr
  · exact .inr hpq
  · exact .inr (mem_wider_trans hpq hqr)

end Primitive

end Renaming

namespace Renaming.Java.TypeIndex

variable {index : TypeIndex} {a b c : String} {r s t : FieldType}

/-- The interfaces that arrays have. -/
def arrayInterfaces : List String := ["java.lang.Cloneable", "java.io.Serializable"]

/-! ## Classes -/

/-- Every other type is below the root class, which is thus below none. -/
theorem Acyclic.supertypes_root (hacyclic : index.Acyclic) : index.supertypes objectName = [] := by
  rw [List.eq_nil_iff_forall_not_mem]
  intro b hb
  obtain ⟨hne, -⟩ := mem_supertypes_iff.1 hb
  exact hacyclic objectName b hb (mem_supertypes_iff.2 ⟨hne.symm, .inr rfl⟩)

theorem Acyclic.isSubtype_trans (hacyclic : index.Acyclic) (hab : index.isSubtype a b = true)
    (hbc : index.isSubtype b c = true) : index.isSubtype a c = true := by
  rw [isSubtype_iff] at *
  rcases hab with rfl | hab
  · exact hbc
  rcases hbc with rfl | hbc
  · exact .inr hab
  · exact .inr (hacyclic.supertypes_subset hab hbc)

/-- What takes every array takes nothing more than the root class does. -/
theorem eq_or_root_of_isSubtype (hacyclic : index.Acyclic)
    (harrays : ∀ i ∈ arrayInterfaces, ∀ s ∈ index.supertypes i, s = objectName)
    (hb : b = objectName ∨ b ∈ arrayInterfaces) (hbc : index.isSubtype b c = true) :
    c = b ∨ c = objectName := by
  rcases isSubtype_iff.1 hbc with rfl | hbc
  · exact .inl rfl
  rcases hb with rfl | hb
  · rw [hacyclic.supertypes_root] at hbc
    cases hbc
  · exact .inr (harrays b hb c hbc)

/-! ## References -/

theorem referenceAssignable_root (s : FieldType) :
    index.referenceAssignable s (.object objectName) = true := by
  cases s <;> simp [referenceAssignable]

theorem referenceAssignable_object_iff (ha : index.contains a = true) :
    index.referenceAssignable (.object a) (.object b) = true ↔ index.isSubtype a b = true := by
  refine ⟨isSubtype_of_referenceAssignable ha, fun h => ?_⟩
  simp [referenceAssignable, h]

theorem referenceAssignable_array_object_iff :
    index.referenceAssignable (.array s) (.object b) = true ↔
      b = objectName ∨ b ∈ arrayInterfaces := by
  simp [referenceAssignable, arrayInterfaces, or_assoc]

/-- Only arrays may be passed where an array is expected. -/
theorem exists_array_of_referenceAssignable (h : index.referenceAssignable s (.array t) = true) :
    ∃ e, s = .array e := by
  cases s with
  | array e => exact ⟨e, rfl⟩
  | prim p => simp [referenceAssignable] at h
  | object a => simp [referenceAssignable] at h

theorem referenceAssignable_array_iff :
    index.referenceAssignable (.array s) (.array t) = true ↔
      if s.isPrimitive ∨ t.isPrimitive then s = t else index.referenceAssignable s t = true := by
  rw [referenceAssignable]
  simp only [Bool.or_eq_true]
  split <;> simp

/-- No reference becomes a primitive. -/
theorem isPrimitive_of_referenceAssignable (h : index.referenceAssignable s t = true) :
    t.isPrimitive = false := by
  cases t with
  | prim q => cases s <;> simp [referenceAssignable] at h
  | object b => rfl
  | array e => rfl

theorem erasedAssignable_prim {p q : Primitive} (h : p.widensTo q = true) :
    index.erasedAssignable (.prim p) (.prim q) false = true := by
  simp [erasedAssignable, h]

theorem erasedAssignable_of_referenceAssignable (hs : s.isPrimitive = false)
    (h : index.referenceAssignable s t = true) : index.erasedAssignable s t false = true := by
  cases t with
  | prim q => cases isPrimitive_of_referenceAssignable h
  | object b | array u =>
    cases s with
    | prim p => cases hs
    | object a | array e => simp [erasedAssignable, h]

section Composition

variable (hacyclic : index.Acyclic)
  (harrays : ∀ i ∈ arrayInterfaces, ∀ s ∈ index.supertypes i, s = objectName)

include hacyclic harrays

/-- From a class it only goes on to its supertypes. -/
theorem referenceAssignable_trans_object (hr : index.Knows r) (hb : index.contains b = true)
    (h : index.referenceAssignable r (.object b) = true)
    (h' : index.referenceAssignable (.object b) (.object c) = true) :
    index.referenceAssignable r (.object c) = true := by
  rw [referenceAssignable_object_iff hb] at h'
  have hup : b = objectName ∨ b ∈ arrayInterfaces → c = b ∨ c = objectName := fun htop =>
    eq_or_root_of_isSubtype hacyclic harrays htop h'
  cases r with
  | prim p =>
    have hroot : b = objectName := by simpa [referenceAssignable] using h
    rcases hup (.inl hroot) with rfl | rfl
    · exact h
    · exact referenceAssignable_root _
  | object a =>
    rw [referenceAssignable_object_iff (hr a rfl)] at h ⊢
    exact hacyclic.isSubtype_trans h h'
  | array e =>
    rcases hup (referenceAssignable_array_object_iff.1 h) with rfl | rfl
    · exact h
    · exact referenceAssignable_root _

theorem referenceAssignable_trans (hr : index.Knows r) (hs : index.Knows s)
    (h : index.referenceAssignable r s = true) (h' : index.referenceAssignable s t = true) :
    index.referenceAssignable r t = true := by
  induction s generalizing r t with
  | prim p => cases isPrimitive_of_referenceAssignable h
  | object b =>
    cases t with
    | prim q => cases isPrimitive_of_referenceAssignable h'
    | object c => exact referenceAssignable_trans_object hacyclic harrays hr (hs b rfl) h h'
    | array u =>
      obtain ⟨e, he⟩ := exists_array_of_referenceAssignable h'
      cases he
  | array e ih =>
    obtain ⟨d, rfl⟩ := exists_array_of_referenceAssignable h
    cases t with
    | prim q => cases isPrimitive_of_referenceAssignable h'
    | object c =>
      rw [referenceAssignable_array_object_iff] at h' ⊢
      exact h'
    | array u =>
      have hde := referenceAssignable_array_iff.1 h
      have heu := referenceAssignable_array_iff.1 h'
      by_cases hfirst : d.isPrimitive ∨ e.isPrimitive
      · rw [if_pos hfirst] at hde
        exact hde ▸ h'
      by_cases hsecond : e.isPrimitive ∨ u.isPrimitive
      · rw [if_pos hsecond] at heu
        exact heu ▸ h
      rw [if_neg hfirst] at hde
      rw [if_neg hsecond] at heu
      have hends : ¬ (d.isPrimitive ∨ u.isPrimitive) :=
        not_or.2 ⟨(not_or.1 hfirst).1, (not_or.1 hsecond).2⟩
      rw [referenceAssignable_array_iff, if_neg hends]
      exact ih hr hs hde heu

/-- Passing without boxing can be done in one step. -/
theorem erasedAssignable_trans (hr : index.Knows r) (hs : index.Knows s)
    (h : index.erasedAssignable r s false = true) (h' : index.erasedAssignable s t false = true) :
    index.erasedAssignable r t false = true := by
  obtain rfl | ⟨p, q, rfl, rfl, hpq⟩ | ⟨hrprim, hsprim, hrs⟩ := erasedAssignable_cases h
  · exact h'
  · obtain rfl | ⟨q', u, hq, rfl, hqu⟩ | ⟨hprim, -⟩ := erasedAssignable_cases h'
    · exact h
    · cases hq
      exact erasedAssignable_prim (Primitive.widensTo_trans hpq hqu)
    · cases hprim
  · obtain rfl | ⟨q, u, rfl, -⟩ | ⟨-, -, hst⟩ := erasedAssignable_cases h'
    · exact h
    · cases hsprim
    · exact erasedAssignable_of_referenceAssignable hrprim
        (referenceAssignable_trans hacyclic harrays hr hs hrs hst)

end Composition

/-! ## Methods -/

section Methods

variable {candidates : List MethodDeclaration} {arity i j : Nat} {phase : Phase}
  {m n : MethodDeclaration}

/-- Candidates of one arity whose parameters are known types, no two having the same ones. -/
structure ToldApart (index : TypeIndex) (candidates : List MethodDeclaration) (arity : Nat) :
    Prop where
  arity_eq : ∀ m ∈ candidates, m.descriptor.params.length = arity
  knows : ∀ m ∈ candidates, ∀ t ∈ m.descriptor.params, index.Knows t
  nodup : (candidates.map fun m => m.descriptor.params).Nodup

/-- Boxing plays no part in what is more specific. -/
theorem moreSpecific_of_ne_varargs (hphase : phase ≠ .varargs) (count : Nat) :
    index.moreSpecific m n count phase = index.moreSpecific m n count .strict := by
  cases phase with
  | strict => rfl
  | loose => rfl
  | varargs => exact absurd rfl hphase

/-- Candidates that are more specific than each other are at one place. -/
theorem ToldApart.eq_of_moreSpecific (h : index.ToldApart candidates arity)
    (hacyclic : index.Acyclic) (hphase : phase ≠ .varargs) (hm : candidates[i]? = some m)
    (hn : candidates[j]? = some n) (hmn : index.moreSpecific m n arity phase = true)
    (hnm : index.moreSpecific n m arity phase = true) : i = j := by
  have hmem := List.mem_of_getElem? hm
  have hmem' := List.mem_of_getElem? hn
  have hcount := h.arity_eq m hmem
  have hcount' := h.arity_eq n hmem'
  rw [moreSpecific_of_ne_varargs hphase] at hmn hnm
  have hparams : m.descriptor.params = n.descriptor.params :=
    ((moreSpecific_strict_iff hcount hcount').1 hmn).eq
      ((moreSpecific_strict_iff hcount' hcount).1 hnm) hacyclic (h.knows m hmem) (h.knows n hmem')
  have hi : (candidates.map fun m => m.descriptor.params)[i]? = some m.descriptor.params := by
    rw [List.getElem?_map, hm]
    rfl
  have hj : (candidates.map fun m => m.descriptor.params)[j]? = some m.descriptor.params := by
    rw [List.getElem?_map, hn, hparams]
    rfl
  obtain ⟨hlt, -⟩ := List.getElem?_eq_some_iff.1 hi
  exact (List.getElem?_inj hlt h.nodup).1 (hi.trans hj.symm)

/-- A candidate that is more specific than all the others is so for each of them. -/
theorem moreSpecific_of_isMaximal {places : List Nat} (hne : i ≠ j) (hj : j ∈ places)
    (hm : candidates[i]? = some m) (hn : candidates[j]? = some n)
    (h : index.isMaximal candidates places arity phase i = true) :
    index.moreSpecific m n arity phase = true := by
  have hstep := List.all_eq_true.1 h j hj
  simpa [hne, hm, hn] using hstep

end Methods

/-- Among known types in a hierarchy without cycles, in which the interfaces of arrays have no
supertype but the root class, passing a value without boxing is a partial order. Of candidates that
are told apart by known types, at most one is more specific than all the others. -/
theorem isPartialOrder_passing (hacyclic : index.Acyclic)
    (harrays : ∀ i ∈ arrayInterfaces, ∀ s ∈ index.supertypes i, s = objectName) :
    IsPartialOrder {t // index.Knows t}
        (fun s t => index.assignable (.erased s) t false = true) ∧
      ∀ (candidates : List MethodDeclaration) (arity : Nat), index.ToldApart candidates arity →
        ∀ phase, phase ≠ .varargs → ∀ (places : List Nat), (∀ i ∈ places, i < candidates.length) →
          ∀ i ∈ places, ∀ j ∈ places,
            index.isMaximal candidates places arity phase i = true →
            index.isMaximal candidates places arity phase j = true → i = j := by
  have hpasses : ∀ s t,
      index.assignable (.erased s) t false = index.erasedAssignable s t false := by
    intro s t
    simp [assignable, ExprType.erased]
  constructor
  · simp only [hpasses]
    exact
      { refl := fun t => (Interchangeable.refl t.1).1
        trans := fun r s t => erasedAssignable_trans hacyclic harrays r.2 s.2
        antisymm := fun s t h h' => Subtype.ext (Interchangeable.eq ⟨h, h'⟩ hacyclic s.2 t.2) }
  · intro candidates arity happart phase hphase places hplaces i hi j hj hmax hmax'
    by_contra hne
    have hm := List.getElem?_eq_getElem (hplaces i hi)
    have hn := List.getElem?_eq_getElem (hplaces j hj)
    exact hne (happart.eq_of_moreSpecific hacyclic hphase hm hn
      (moreSpecific_of_isMaximal hne hj hm hn hmax)
      (moreSpecific_of_isMaximal (Ne.symm hne) hi hn hm hmax'))

section Instances

/-- A class that can be cloned and a class below it, with the types above them. -/
def cloneableClasses : TypeIndex where
  types := .ofList [
    (objectName, { binary := objectName, kind := .class_, origin := .catalogue }),
    ("java.lang.Cloneable",
      { binary := "java.lang.Cloneable", kind := .interface, origin := .catalogue }),
    ("java.io.Serializable",
      { binary := "java.io.Serializable", kind := .interface, origin := .catalogue }),
    ("p.A", { binary := "p.A", kind := .class_, origin := .source, superclass := some objectName,
              interfaces := ["java.lang.Cloneable"] }),
    ("p.B", { binary := "p.B", kind := .class_, origin := .source, superclass := some "p.A" })]

/-- Methods that take arrays of arrays. -/
def arrayMethods : List MethodDeclaration :=
  takers [.array (.object "java.lang.Cloneable"), .array (.array (.object "p.B")),
    .array (.array (.object "p.A")), .array (.array (.prim .int))]

theorem isPartialOrder_passing_cloneableClasses :
    cloneableClasses.Acyclic ∧
      (∀ i ∈ arrayInterfaces, ∀ s ∈ cloneableClasses.supertypes i, s = objectName) ∧
      cloneableClasses.ToldApart arrayMethods 1 ∧
      cloneableClasses.assignable (.erased (.array (.array (.object "p.B"))))
        (.array (.object "java.lang.Cloneable")) false = true ∧
      cloneableClasses.isMaximal arrayMethods [0, 1, 2] 1 .loose 1 = true ∧
      ∀ j ∈ [0, 1, 2],
        cloneableClasses.isMaximal arrayMethods [0, 1, 2] 1 .loose j = true → 1 = j := by
  have hacyclic : cloneableClasses.Acyclic :=
    acyclic_of_rank (fun binary => if binary = "p.B" then 0 else if binary = "p.A" then 1 else 2)
      (by decide +kernel) (by decide +kernel)
  have harrays : ∀ i ∈ arrayInterfaces, ∀ s ∈ cloneableClasses.supertypes i, s = objectName := by
    decide +kernel
  have happart : cloneableClasses.ToldApart arrayMethods 1 :=
    ⟨by decide, by decide +kernel, by decide⟩
  have hmax : cloneableClasses.isMaximal arrayMethods [0, 1, 2] 1 .loose 1 = true := by
    decide +kernel
  obtain ⟨hpasses, hunique⟩ := isPartialOrder_passing hacyclic harrays
  refine ⟨hacyclic, harrays, happart, ?_, hmax, fun j hj => ?_⟩
  · exact hpasses.trans ⟨.array (.array (.object "p.B")), by decide +kernel⟩
      ⟨.array (.array (.object "p.A")), by decide +kernel⟩
      ⟨.array (.object "java.lang.Cloneable"), by decide +kernel⟩ (by decide +kernel)
      (by decide +kernel)
  · exact hunique arrayMethods 1 happart .loose (by decide) [0, 1, 2] (by decide) 1 (by decide) j
      hj hmax

end Instances

end Renaming.Java.TypeIndex
