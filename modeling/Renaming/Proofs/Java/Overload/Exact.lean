import Renaming.Proofs.Java.Hierarchy
import Renaming.Proofs.Java.Overload

/-!
# Exact overloads

A candidate whose parameters are the types of the arguments is always among the most specific ones.
It is chosen unless another candidate has parameters that may be passed on to it, one by one, and it
to them; among known classes in a hierarchy without cycles only equal types are interchangeable like
that.
-/

namespace Renaming

/-- The class of a type, or of the elements of an array in the end. -/
def FieldType.class? : FieldType → Option String
  | prim _ => none
  | object name => some name
  | array element => element.class?

theorem Primitive.eq_of_widensTo {p q : Primitive} (h : p.widensTo q = true)
    (h' : q.widensTo p = true) : p = q := by
  revert h h'
  cases p <;> cases q <;> decide

end Renaming

namespace Renaming.Java

namespace TypeIndex

variable {index : TypeIndex} {s t : FieldType}

theorem isSubtype_iff {a b : String} :
    index.isSubtype a b = true ↔ a = b ∨ b ∈ index.supertypes a := by
  simp only [isSubtype, Bool.or_eq_true, beq_iff_eq, List.contains_iff_mem, or_assoc]
  constructor
  · rintro (heq | rfl | hmem)
    · exact .inl heq
    · by_cases hroot : a = objectName
      · exact .inl hroot
      · exact .inr (mem_supertypes_iff.2 ⟨Ne.symm hroot, .inr rfl⟩)
    · exact .inr hmem
  · rintro (heq | hmem)
    · exact .inl heq
    · exact .inr (.inr hmem)

/-- Without boxing, a type may be passed for itself, a primitive for a wider one, and a reference
for another one. -/
theorem erasedAssignable_cases (h : index.erasedAssignable s t false = true) :
    s = t ∨ (∃ p q, s = .prim p ∧ t = .prim q ∧ p.widensTo q = true) ∨
      s.isPrimitive = false ∧ t.isPrimitive = false ∧ index.referenceAssignable s t = true := by
  rcases Bool.or_eq_true_iff.1 h with heq | h
  · exact .inl (beq_iff_eq.1 heq)
  cases s with
  | prim p =>
    cases t with
    | prim q => exact .inr (.inl ⟨p, q, rfl, rfl, h⟩)
    | object b => cases h
    | array b => cases h
  | object a =>
    cases t with
    | prim q => cases h
    | object b => exact .inr (.inr ⟨rfl, rfl, h⟩)
    | array b => exact .inr (.inr ⟨rfl, rfl, h⟩)
  | array a =>
    cases t with
    | prim q => cases h
    | object b => exact .inr (.inr ⟨rfl, rfl, h⟩)
    | array b => exact .inr (.inr ⟨rfl, rfl, h⟩)

/-- Types of which each may be passed where the other is expected, nothing being boxed. -/
def Interchangeable (index : TypeIndex) (s t : FieldType) : Prop :=
  index.erasedAssignable s t false = true ∧ index.erasedAssignable t s false = true

/-- Whether the class of a type is known; primitives have none. -/
def Knows (index : TypeIndex) (t : FieldType) : Prop := ∀ c ∈ t.class?, index.contains c = true

instance (index : TypeIndex) (t : FieldType) : Decidable (index.Knows t) :=
  inferInstanceAs (Decidable (∀ c ∈ t.class?, index.contains c = true))

theorem isSubtype_of_referenceAssignable {a b : String} (ha : index.contains a = true)
    (h : index.referenceAssignable (.object a) (.object b) = true) :
    index.isSubtype a b = true := by
  simp only [referenceAssignable, ha, Bool.not_true, Bool.or_false, Bool.or_eq_true] at h
  rcases h with hroot | hsub
  · rw [beq_iff_eq] at hroot
    simp [isSubtype, hroot]
  · exact hsub

theorem eq_of_referenceAssignable (hacyclic : index.Acyclic) (hs : index.Knows s)
    (ht : index.Knows t) (h : index.referenceAssignable s t = true)
    (h' : index.referenceAssignable t s = true) : s = t := by
  induction s generalizing t with
  | prim p =>
    cases t <;> simp [referenceAssignable] at h h'
  | object a =>
    cases t with
    | prim q => simp [referenceAssignable] at h
    | array element => simp [referenceAssignable] at h
    | object b =>
      have hab := isSubtype_iff.1 (isSubtype_of_referenceAssignable (hs a rfl) h)
      have hba := isSubtype_iff.1 (isSubtype_of_referenceAssignable (ht b rfl) h')
      rcases hab with rfl | hab
      · rfl
      rcases hba with rfl | hba
      · rfl
      exact absurd hba (hacyclic a b hab)
  | array a ih =>
    cases t with
    | prim q => simp [referenceAssignable] at h
    | object b => simp [referenceAssignable] at h'
    | array b =>
      rw [referenceAssignable] at h h'
      split at h
      · rw [beq_iff_eq.1 h]
      · rename_i hprim
        rw [Bool.or_comm] at hprim
        rw [if_neg hprim] at h'
        rw [@ih b hs ht h h']

namespace Interchangeable

theorem refl (t : FieldType) : index.Interchangeable t t := by
  simp [Interchangeable, erasedAssignable]

/-- Among known classes without cycles only equal types are interchangeable. -/
theorem eq (h : index.Interchangeable s t) (hacyclic : index.Acyclic) (hs : index.Knows s)
    (ht : index.Knows t) : s = t := by
  obtain heq | ⟨p, q, rfl, rfl, hpq⟩ | ⟨hprim, -, hst⟩ := erasedAssignable_cases h.1
  · exact heq
  · obtain heq | ⟨q', p', hq, hp, hqp⟩ | ⟨hprim, -⟩ := erasedAssignable_cases h.2
    · exact heq.symm
    · cases hq
      cases hp
      rw [Primitive.eq_of_widensTo hpq hqp]
    · cases hprim
  · obtain heq | ⟨q, p, -, rfl, -⟩ | ⟨-, -, hts⟩ := erasedAssignable_cases h.2
    · exact heq.symm
    · cases hprim
    · exact eq_of_referenceAssignable hacyclic hs ht hst hts

end Interchangeable

/-! ## Calls by subtyping alone -/

section Strict

variable {candidates : List MethodDeclaration} {types : List GenericType} {m n : MethodDeclaration}

@[simp] theorem receivingType?_strict (m : MethodDeclaration) (i : Nat) :
    m.receivingType? i .strict = m.descriptor.params[i]? := by
  simp [MethodDeclaration.receivingType?]

/-- Whether values of some types may be passed, one by one, where others are expected. -/
def Passes (index : TypeIndex) : List FieldType → List FieldType → Prop :=
  List.Forall₂ fun s t => index.erasedAssignable s t false = true

theorem passes_iff {ss ts : List FieldType} :
    index.Passes ss ts ↔ ss.length = ts.length ∧ ∀ (i : Nat) s t, ss[i]? = some s →
      ts[i]? = some t → index.erasedAssignable s t false = true := by
  rw [Passes, List.forall₂_iff_get]
  refine and_congr_right fun hlength => ⟨fun h i s t hs ht => ?_, fun h i hs ht => ?_⟩
  · obtain ⟨hi, rfl⟩ := List.getElem?_eq_some_iff.1 hs
    obtain ⟨hi', rfl⟩ := List.getElem?_eq_some_iff.1 ht
    exact h i hi hi'
  · exact h i _ _ (List.getElem?_eq_getElem hs) (List.getElem?_eq_getElem ht)

theorem applicable_strict_iff :
    index.applicable m (types.map .value) .strict = true ↔
      index.Passes (types.map GenericType.erasure) m.descriptor.params := by
  rw [passes_iff]
  simp only [applicable, MethodDeclaration.takes, Bool.and_eq_true, beq_iff_eq, List.length_map,
    List.all_eq_true]
  refine and_congr_right fun hlength => ⟨fun h i s t hs ht => ?_, fun h => ?_⟩
  · rw [List.getElem?_map, Option.map_eq_some_iff] at hs
    obtain ⟨u, hu, rfl⟩ := hs
    have hpassed := h (.value u, i) (by simp [List.mem_zipIdx_iff_getElem?, hu])
    simpa [ht, assignable] using hpassed
  · rintro ⟨arg, i⟩ hmem
    rw [List.mem_zipIdx_iff_getElem?, List.getElem?_map, Option.map_eq_some_iff] at hmem
    obtain ⟨u, hu, rfl⟩ := hmem
    obtain ⟨hi, -⟩ := List.getElem?_eq_some_iff.1 hu
    have ht := List.getElem?_eq_getElem (hlength ▸ hi : i < m.descriptor.params.length)
    have hpassed := h i u.erasure _ (by simp [hu]) ht
    simpa [ht, assignable] using hpassed

theorem moreSpecific_strict_iff {count : Nat} (hm : m.descriptor.params.length = count)
    (hn : n.descriptor.params.length = count) :
    index.moreSpecific m n count .strict = true ↔
      index.Passes m.descriptor.params n.descriptor.params := by
  rw [passes_iff]
  simp only [moreSpecific, hm, hn, true_and, List.all_eq_true, List.mem_range]
  refine ⟨fun h i s t hs ht => ?_, fun h i hi => ?_⟩
  · obtain ⟨hi, -⟩ := List.getElem?_eq_some_iff.1 hs
    have hpassed := h i (by simpa [hm] using hi)
    simpa [hs, ht, assignable, ExprType.erased] using hpassed
  · have hs := List.getElem?_eq_getElem (hm.symm ▸ hi : i < m.descriptor.params.length)
    have ht := List.getElem?_eq_getElem (hn.symm ▸ hi : i < n.descriptor.params.length)
    have hpassed := h i _ _ hs ht
    simpa [hs, ht, assignable, ExprType.erased] using hpassed

/-- Lists of known types that may be passed for each other are the same. -/
theorem Passes.eq {ss ts : List FieldType} (h : index.Passes ss ts) (h' : index.Passes ts ss)
    (hacyclic : index.Acyclic) (hss : ∀ s ∈ ss, index.Knows s) (hts : ∀ t ∈ ts, index.Knows t) :
    ss = ts := by
  rw [passes_iff] at h h'
  refine List.ext_getElem h.1 fun i hs ht => ?_
  have hi := List.getElem?_eq_getElem hs
  have hi' := List.getElem?_eq_getElem ht
  exact Interchangeable.eq ⟨h.2 i _ _ hi hi', h'.2 i _ _ hi' hi⟩ hacyclic
    (hss _ (List.getElem_mem hs)) (hts _ (List.getElem_mem ht))

end Strict

/-! ## The exact candidate -/

section Exact

variable {candidates : List MethodDeclaration} {types : List GenericType} {i : Nat}

/-- Whether the parameters of the candidate at a place are the erased types of the arguments. -/
def IsExact (candidates : List MethodDeclaration) (types : List GenericType) (i : Nat) : Prop :=
  ∃ m, candidates[i]? = some m ∧ m.descriptor.params = types.map GenericType.erasure

theorem passes_refl (ts : List FieldType) : index.Passes ts ts :=
  List.forall₂_same.2 fun t _ => (Interchangeable.refl t).1

theorem IsExact.appliesAt (h : IsExact candidates types i) :
    index.AppliesAt candidates (types.map .value) .strict i := by
  obtain ⟨m, hm, hparams⟩ := h
  exact ⟨m, hm, applicable_strict_iff.2 (hparams ▸ passes_refl _)⟩

/-- What takes the arguments can be passed the parameters of the exact candidate. -/
theorem IsExact.isMostSpecific (h : IsExact candidates types i) :
    index.IsMostSpecific candidates (types.map .value) .strict i := by
  refine ⟨h.appliesAt, ?_⟩
  rintro j ⟨n, hn, happlies⟩ -
  obtain ⟨m, hm, hparams⟩ := h
  have hpasses := applicable_strict_iff.1 happlies
  refine ⟨m, n, hm, hn, (moreSpecific_strict_iff ?_ ?_).2 (hparams ▸ hpasses)⟩
  · rw [hparams, List.length_map, List.length_map]
  · rw [← hpasses.length_eq, List.length_map, List.length_map]

/-- A candidate that is as specific takes the same arguments as the exact one, and the other way
round. -/
theorem IsExact.passes_of_isMostSpecific {j : Nat} (h : IsExact candidates types i) (hij : i ≠ j)
    (hj : index.IsMostSpecific candidates (types.map .value) .strict j) :
    ∃ n, candidates[j]? = some n ∧
      index.Passes (types.map GenericType.erasure) n.descriptor.params ∧
        index.Passes n.descriptor.params (types.map GenericType.erasure) := by
  obtain ⟨⟨n, hn, happlies⟩, hspecific⟩ := hj
  have hpasses := applicable_strict_iff.1 happlies
  obtain ⟨n', m, hn', hm, hmore⟩ := hspecific i h.appliesAt hij
  obtain ⟨m', hm', hparams⟩ := h
  obtain rfl : n = n' := Option.some.inj (hn.symm.trans hn')
  obtain rfl : m = m' := Option.some.inj (hm.symm.trans hm')
  refine ⟨n, hn, hpasses, ?_⟩
  rw [← hparams]
  refine (moreSpecific_strict_iff ?_ ?_).1 hmore
  · rw [← hpasses.length_eq, List.length_map, List.length_map]
  · rw [hparams, List.length_map, List.length_map]

theorem IsExact.selectOverload_eq_selectIn (h : IsExact candidates types i) :
    index.selectOverload candidates (types.map .value) =
      index.selectIn candidates (types.map .value) .strict :=
  selectOverload_of_isFirstPhase ⟨⟨i, h.appliesAt⟩, by simp [Phase.earlier]⟩

/-- An exact candidate is chosen unless the parameters of another one may be passed for the
arguments and the arguments for them. -/
theorem IsExact.selectOverload_eq_found (h : IsExact candidates types i)
    (hother : ∀ j n, candidates[j]? = some n → j ≠ i →
      ¬ (index.Passes (types.map GenericType.erasure) n.descriptor.params ∧
        index.Passes n.descriptor.params (types.map GenericType.erasure))) :
    index.selectOverload candidates (types.map .value) = .found i := by
  rw [h.selectOverload_eq_selectIn]
  refine selectIn_eq_found ⟨h.isMostSpecific, fun j hj => ?_⟩
  by_contra hij
  obtain ⟨n, hn, hpasses⟩ := h.passes_of_isMostSpecific (Ne.symm hij) hj
  exact hother j n hn hij hpasses

/-- If one candidate alone has the erased types of the arguments as its parameters, no other one is
ever chosen. It is chosen itself unless another one has parameters that may be passed for the
arguments and the arguments for them, so always if the classes of the parameters are known and the
hierarchy has no cycle. -/
theorem selectOverload_exact (index : TypeIndex) (candidates : List MethodDeclaration)
    (types : List GenericType) (i : Nat) (hexact : ∀ j, IsExact candidates types j ↔ j = i) :
    (index.selectOverload candidates (types.map .value) = .found i ∨
      ∃ places, index.selectOverload candidates (types.map .value) = .ambiguous places ∧
        i ∈ places) ∧
    ((∀ j n, candidates[j]? = some n → j ≠ i →
      ¬ (index.Passes (types.map GenericType.erasure) n.descriptor.params ∧
        index.Passes n.descriptor.params (types.map GenericType.erasure))) →
      index.selectOverload candidates (types.map .value) = .found i) ∧
    (index.Acyclic → (∀ n ∈ candidates, n.descriptor.params.length = types.length →
        ∀ p ∈ n.descriptor.params, index.Knows p) →
      index.selectOverload candidates (types.map .value) = .found i) := by
  have hi : IsExact candidates types i := (hexact i).2 rfl
  refine ⟨?_, hi.selectOverload_eq_found, fun hacyclic hknown => ?_⟩
  · rw [hi.selectOverload_eq_selectIn]
    obtain ⟨hnone, -⟩ | ⟨j, honly, heq⟩ | ⟨-, -, heq⟩ :=
      selectIn_cases index candidates (types.map .value) .strict
    · exact absurd ⟨i, hi.appliesAt⟩ hnone
    · exact .inl (heq.trans (congrArg _ (honly.2 i hi.isMostSpecific).symm))
    · exact .inr ⟨_, heq, mem_applicableIn_iff.2 hi.appliesAt⟩
  · refine hi.selectOverload_eq_found fun j n hn hij hpasses => hij ((hexact j).1 ⟨n, hn, ?_⟩)
    obtain ⟨m, hm, hparams⟩ := hi
    have hargs := hknown m (List.mem_of_getElem? hm) (by rw [hparams, List.length_map])
    rw [hparams] at hargs
    have hlength : n.descriptor.params.length = types.length := by
      rw [hpasses.2.length_eq, List.length_map]
    exact (hpasses.1.eq hpasses.2 hacyclic hargs
      (hknown n (List.mem_of_getElem? hn) hlength)).symm

end Exact

section Instances

/-- A class below another one, and the root class. -/
def parentAndChild : TypeIndex where
  types := .ofList [
    (objectName, { binary := objectName, kind := .class_, origin := .catalogue }),
    ("p.A", { binary := "p.A", kind := .class_, origin := .source, superclass := some objectName }),
    ("p.B", { binary := "p.B", kind := .class_, origin := .source, superclass := some "p.A" })]

/-- Methods of one name with one parameter each. -/
def takers (params : List FieldType) : List MethodDeclaration :=
  params.map fun p => { name := "f", descriptor := ⟨[p], none⟩ }

theorem isExact_takers_iff {params : List FieldType} {t : GenericType} {i : Nat} :
    IsExact (takers params) [t] i ↔ params[i]? = some t.erasure := by
  simp only [IsExact, takers, List.getElem?_map, Option.map_eq_some_iff]
  constructor
  · rintro ⟨m, ⟨p, hp, rfl⟩, hparams⟩
    rw [hp]
    exact congrArg some (List.singleton_inj.1 hparams)
  · intro hi
    exact ⟨_, ⟨_, hi, rfl⟩, rfl⟩

/-- The place of a type that is listed once. -/
theorem isExact_takers_iff_of_nodup {params : List FieldType} {t : GenericType} {i : Nat}
    (hnodup : params.Nodup) (hi : params[i]? = some t.erasure) (j : Nat) :
    IsExact (takers params) [t] j ↔ j = i := by
  rw [isExact_takers_iff]
  constructor
  · intro hj
    obtain ⟨hlt, -⟩ := List.getElem?_eq_some_iff.1 hj
    exact (List.getElem?_inj hlt hnodup).1 (hj.trans hi.symm)
  · rintro rfl
    exact hi

def arrayTakers : List MethodDeclaration :=
  takers [.object objectName, .array (.object "p.A"), .array (.object "p.B")]

theorem selectOverload_exact_arrayTakers :
    (∀ j, IsExact arrayTakers [.array (.raw "p.A")] j ↔ j = 1) ∧ parentAndChild.Acyclic ∧
      parentAndChild.selectOverload arrayTakers [.value (.array (.raw "p.A"))] = .found 1 := by
  have hexact : ∀ j, IsExact arrayTakers [.array (.raw "p.A")] j ↔ j = 1 :=
    isExact_takers_iff_of_nodup (by decide) rfl
  have hacyclic : parentAndChild.Acyclic :=
    acyclic_of_rank (fun binary => if binary = "p.B" then 0 else 1) (by decide +kernel)
      (by decide +kernel)
  have hknown : ∀ n ∈ arrayTakers, n.descriptor.params.length = 1 →
      ∀ p ∈ n.descriptor.params, parentAndChild.Knows p := by
    decide +kernel
  exact ⟨hexact, hacyclic, (selectOverload_exact _ _ _ 1 hexact).2.2 hacyclic hknown⟩

/-- Two classes that the index does not know may be passed for each other, so that the exact
candidate is not told from the other one. -/
theorem unknown_exact_ambiguous :
    (∀ j, IsExact (takers [.object "x.U", .object "y.V"]) [.raw "x.U"] j ↔ j = 0) ∧
      parentAndChild.selectOverload (takers [.object "x.U", .object "y.V"])
        [.value (.raw "x.U")] = .ambiguous [0, 1] :=
  ⟨isExact_takers_iff_of_nodup (by decide) rfl, by decide +kernel⟩

end Instances

end TypeIndex

end Renaming.Java
