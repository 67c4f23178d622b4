import Mathlib.Logic.Equiv.Fintype
import Mathlib.Data.List.Sort
import Mathlib.Data.Fin.Basic
import Renaming.Java.Overload

/-!
# The method that a call means

A selection is described by what it has to be: nothing if no candidate applies in any phase, and
otherwise, in the first phase in which some apply, the only most specific of them or all of them.
The description speaks of places in the list of candidates only through the candidates that stand
there, so that candidates in another order lead to the same choice.
-/

namespace Renaming.Java

/-- The phases that come before a phase. -/
def Phase.earlier : Phase → List Phase
  | .strict => []
  | .loose => [.strict]
  | .varargs => [.strict, .loose]

/-- A selection among the same candidates at other places. -/
def Selection.renamed (place : Nat → Nat) : Selection → Selection
  | .noMatch => .noMatch
  | .found i => .found (place i)
  | .ambiguous places => .ambiguous (places.map place).mergeSort

section Rearranged

variable {α : Type}

/-- The members of a list in the order that a permutation of their places gives. -/
def rearranged (l : List α) (σ : Equiv.Perm (Fin l.length)) : List α :=
  List.ofFn fun k => l.get (σ k)

/-- The place in the list of each place in the rearranged one. -/
def placesOf {n : Nat} (σ : Equiv.Perm (Fin n)) : Equiv.Perm Nat :=
  σ.extendDomain Fin.equivSubtype

theorem getElem?_rearranged {l : List α} (σ : Equiv.Perm (Fin l.length)) (i : Nat) :
    (rearranged l σ)[i]? = l[placesOf σ i]? := by
  by_cases hi : i < l.length
  · have hplace : placesOf σ i = σ ⟨i, hi⟩ :=
      σ.extendDomain_apply_subtype Fin.equivSubtype hi
    simp [rearranged, hplace, hi]
  · have hplace : placesOf σ i = i :=
      σ.extendDomain_apply_not_subtype Fin.equivSubtype hi
    simp [rearranged, hplace, hi]

end Rearranged

namespace TypeIndex

section Description

variable (index : TypeIndex) (candidates : List MethodDeclaration) (args : List ExprType)

/-- Whether the candidate at a place is applicable in a phase. -/
def AppliesAt (phase : Phase) (i : Nat) : Prop :=
  ∃ m, candidates[i]? = some m ∧ index.applicable m args phase = true

/-- Whether the candidate at one place is more specific than the one at another. -/
def MoreSpecificAt (phase : Phase) (i j : Nat) : Prop :=
  ∃ m n, candidates[i]? = some m ∧ candidates[j]? = some n ∧
    index.moreSpecific m n args.length phase = true

/-- Whether a phase is the first one in which a candidate applies. -/
def IsFirstPhase (phase : Phase) : Prop :=
  (∃ i, index.AppliesAt candidates args phase i) ∧
    ∀ p ∈ phase.earlier, ¬ ∃ i, index.AppliesAt candidates args p i

/-- Whether a candidate applies and is more specific than every other one that does. -/
def IsMostSpecific (phase : Phase) (i : Nat) : Prop :=
  index.AppliesAt candidates args phase i ∧
    ∀ j, index.AppliesAt candidates args phase j → j ≠ i →
      index.MoreSpecificAt candidates args phase i j

def IsOnlyMostSpecific (phase : Phase) (i : Nat) : Prop :=
  index.IsMostSpecific candidates args phase i ∧
    ∀ j, index.IsMostSpecific candidates args phase j → j = i

/-- What a selection has to be. -/
def Chooses : Selection → Prop
  | .noMatch => ∀ phase i, ¬ index.AppliesAt candidates args phase i
  | .found i => ∃ phase, index.IsFirstPhase candidates args phase ∧
      index.IsOnlyMostSpecific candidates args phase i
  | .ambiguous places => ∃ phase, index.IsFirstPhase candidates args phase ∧
      (∀ i, ¬ index.IsOnlyMostSpecific candidates args phase i) ∧ places.Pairwise (· < ·) ∧
        ∀ i, i ∈ places ↔ index.AppliesAt candidates args phase i

end Description

variable {index : TypeIndex} {candidates : List MethodDeclaration} {args : List ExprType}
  {phase : Phase} {i : Nat}

/-! ## One phase -/

theorem mem_applicableIn_iff :
    i ∈ index.applicableIn candidates args phase ↔ index.AppliesAt candidates args phase i := by
  simp [applicableIn, AppliesAt, List.mem_zipIdx_iff_getElem?]

theorem pairwise_applicableIn : (index.applicableIn candidates args phase).Pairwise (· < ·) := by
  have hsublist : (index.applicableIn candidates args phase).Sublist
      (List.range' 0 candidates.length) := by
    rw [← List.zipIdx_map_snd]
    exact List.filter_sublist.map Prod.snd
  exact List.Pairwise.sublist hsublist List.pairwise_lt_range'

theorem applicableIn_eq_nil_iff :
    index.applicableIn candidates args phase = [] ↔
      ¬ ∃ i, index.AppliesAt candidates args phase i := by
  simp [List.eq_nil_iff_forall_not_mem, mem_applicableIn_iff]

theorem isMaximal_iff (happlies : index.AppliesAt candidates args phase i) :
    index.isMaximal candidates (index.applicableIn candidates args phase) args.length phase i =
      true ↔ index.IsMostSpecific candidates args phase i := by
  obtain ⟨m, hm, -⟩ := id happlies
  simp only [isMaximal, List.all_eq_true, mem_applicableIn_iff, IsMostSpecific, happlies, true_and]
  refine forall₂_congr fun j hj => ?_
  obtain ⟨n, hn, -⟩ := hj
  by_cases hij : j = i
  · simp [hij]
  · have hne : (i == j) = false := beq_false_of_ne (Ne.symm hij)
    simp [hij, hne, hm, hn, MoreSpecificAt]

theorem filter_isMaximal_eq_singleton_iff :
    (index.applicableIn candidates args phase).filter (index.isMaximal candidates
      (index.applicableIn candidates args phase) args.length phase) = [i] ↔
        index.IsOnlyMostSpecific candidates args phase i := by
  have hmem : ∀ j, j ∈ (index.applicableIn candidates args phase).filter (index.isMaximal
      candidates (index.applicableIn candidates args phase) args.length phase) ↔
        index.IsMostSpecific candidates args phase j := by
    intro j
    rw [List.mem_filter, mem_applicableIn_iff]
    exact ⟨fun h => (isMaximal_iff h.1).1 h.2, fun h => ⟨h.1, (isMaximal_iff h.1).2 h⟩⟩
  -- The places differ from one another, so the list is settled by its members.
  rw [← List.perm_singleton,
    List.perm_ext_iff_of_nodup (pairwise_applicableIn.nodup.filter _) (List.nodup_singleton i)]
  simp only [hmem, List.mem_singleton, IsOnlyMostSpecific]
  exact ⟨fun h => ⟨(h i).2 rfl, fun j => (h j).1⟩, fun h j => ⟨h.2 j, fun hj => hj ▸ h.1⟩⟩

/-- One candidate that applies alone is the only most specific one. -/
theorem isOnlyMostSpecific_of_applicableIn
    (halone : index.applicableIn candidates args phase = [i]) :
    index.IsOnlyMostSpecific candidates args phase i := by
  rw [← filter_isMaximal_eq_singleton_iff, halone]
  simp [isMaximal]

theorem selectIn_cases (index : TypeIndex) (candidates : List MethodDeclaration)
    (args : List ExprType) (phase : Phase) :
    (¬ ∃ i, index.AppliesAt candidates args phase i) ∧
        index.selectIn candidates args phase = .noMatch ∨
      (∃ i, index.IsOnlyMostSpecific candidates args phase i ∧
        index.selectIn candidates args phase = .found i) ∨
      (∃ i, index.AppliesAt candidates args phase i) ∧
        (∀ i, ¬ index.IsOnlyMostSpecific candidates args phase i) ∧
        index.selectIn candidates args phase =
          .ambiguous (index.applicableIn candidates args phase) := by
  unfold selectIn
  split
  next hnone => exact .inl ⟨applicableIn_eq_nil_iff.1 hnone, rfl⟩
  next i halone => exact .inr (.inl ⟨i, isOnlyMostSpecific_of_applicableIn halone, rfl⟩)
  next hsome _ =>
    split
    next i hone => exact .inr (.inl ⟨i, filter_isMaximal_eq_singleton_iff.1 hone, rfl⟩)
    next hmany =>
      refine .inr (.inr ⟨not_not.1 (mt applicableIn_eq_nil_iff.2 hsome), fun i hi => ?_, rfl⟩)
      exact hmany i (filter_isMaximal_eq_singleton_iff.2 hi)

theorem selectIn_eq_noMatch_iff :
    index.selectIn candidates args phase = .noMatch ↔
      ¬ ∃ i, index.AppliesAt candidates args phase i := by
  obtain ⟨hnone, heq⟩ | ⟨i, honly, heq⟩ | ⟨hsome, -, heq⟩ :=
    selectIn_cases index candidates args phase
  · simp only [heq, hnone, not_false_eq_true]
  · have hsome : ∃ i, index.AppliesAt candidates args phase i := ⟨i, honly.1.1⟩
    simp [heq, hsome]
  · simp [heq, hsome]

theorem selectIn_eq_found (honly : index.IsOnlyMostSpecific candidates args phase i) :
    index.selectIn candidates args phase = .found i := by
  obtain ⟨hnone, -⟩ | ⟨j, hj, heq⟩ | ⟨-, hmany, -⟩ := selectIn_cases index candidates args phase
  · exact absurd ⟨i, honly.1.1⟩ hnone
  · rw [heq, hj.2 i honly.1]
  · exact absurd honly (hmany i)

theorem selectIn_eq_ambiguous (hsome : ∃ i, index.AppliesAt candidates args phase i)
    (hmany : ∀ i, ¬ index.IsOnlyMostSpecific candidates args phase i) :
    index.selectIn candidates args phase =
      .ambiguous (index.applicableIn candidates args phase) := by
  obtain ⟨hnone, -⟩ | ⟨i, honly, -⟩ | ⟨-, -, heq⟩ := selectIn_cases index candidates args phase
  · exact absurd hsome hnone
  · exact absurd honly (hmany i)
  · exact heq

/-! ## The first phase in which a candidate applies -/

theorem exists_isFirstPhase (happlies : index.AppliesAt candidates args phase i) :
    ∃ p, index.IsFirstPhase candidates args p := by
  by_cases hstrict : ∃ i, index.AppliesAt candidates args .strict i
  · exact ⟨.strict, hstrict, by simp [Phase.earlier]⟩
  by_cases hloose : ∃ i, index.AppliesAt candidates args .loose i
  · exact ⟨.loose, hloose, by simpa [Phase.earlier] using hstrict⟩
  have hearlier : ∀ p ∈ Phase.varargs.earlier, ¬ ∃ i, index.AppliesAt candidates args p i := by
    simpa only [Phase.earlier, List.forall_mem_cons, List.not_mem_nil, false_implies,
      implies_true, and_true] using ⟨hstrict, hloose⟩
  cases phase with
  | strict => exact absurd ⟨i, happlies⟩ hstrict
  | loose => exact absurd ⟨i, happlies⟩ hloose
  | varargs => exact ⟨.varargs, ⟨i, happlies⟩, hearlier⟩

theorem selectOverload_of_isFirstPhase (hfirst : index.IsFirstPhase candidates args phase) :
    index.selectOverload candidates args = index.selectIn candidates args phase := by
  have hchosen : index.selectIn candidates args phase ≠ .noMatch :=
    mt selectIn_eq_noMatch_iff.1 (not_not.2 hfirst.1)
  have hearlier : ∀ p ∈ phase.earlier, index.selectIn candidates args p = .noMatch :=
    fun p hp => selectIn_eq_noMatch_iff.2 (hfirst.2 p hp)
  cases phase with
  | strict =>
    unfold selectOverload
    split
    next h => exact absurd h hchosen
    next => rfl
  | loose =>
    have hstrict := hearlier .strict (by simp [Phase.earlier])
    unfold selectOverload
    rw [hstrict]
    dsimp only
    split
    next h => exact absurd h hchosen
    next => rfl
  | varargs =>
    have hstrict := hearlier .strict (by simp [Phase.earlier])
    have hloose := hearlier .loose (by simp [Phase.earlier])
    unfold selectOverload
    rw [hstrict, hloose]

theorem selectOverload_eq_noMatch
    (hnone : ∀ phase i, ¬ index.AppliesAt candidates args phase i) :
    index.selectOverload candidates args = .noMatch := by
  have hphase : ∀ phase, index.selectIn candidates args phase = .noMatch := fun phase =>
    selectIn_eq_noMatch_iff.2 fun ⟨i, happlies⟩ => hnone phase i happlies
  simp only [selectOverload, hphase]

theorem chooses_selectOverload :
    index.Chooses candidates args (index.selectOverload candidates args) := by
  by_cases hsome : ∃ phase i, index.AppliesAt candidates args phase i
  · obtain ⟨_, _, happlies⟩ := hsome
    obtain ⟨phase, hfirst⟩ := exists_isFirstPhase happlies
    rw [selectOverload_of_isFirstPhase hfirst]
    obtain ⟨hnone, -⟩ | ⟨i, honly, heq⟩ | ⟨-, hmany, heq⟩ :=
      selectIn_cases index candidates args phase
    · exact absurd hfirst.1 hnone
    · exact heq ▸ ⟨phase, hfirst, honly⟩
    · exact heq ▸ ⟨phase, hfirst, hmany, pairwise_applicableIn, fun i => mem_applicableIn_iff⟩
  · have hnone : ∀ phase i, ¬ index.AppliesAt candidates args phase i :=
      fun phase i happlies => hsome ⟨phase, i, happlies⟩
    exact selectOverload_eq_noMatch hnone ▸ hnone

theorem selectOverload_eq_of_chooses {s : Selection} (hs : index.Chooses candidates args s) :
    index.selectOverload candidates args = s := by
  cases s with
  | noMatch => exact selectOverload_eq_noMatch hs
  | found i =>
    obtain ⟨phase, hfirst, honly⟩ := hs
    rw [selectOverload_of_isFirstPhase hfirst, selectIn_eq_found honly]
  | ambiguous places =>
    obtain ⟨phase, hfirst, hmany, hordered, hmem⟩ := hs
    rw [selectOverload_of_isFirstPhase hfirst, selectIn_eq_ambiguous hfirst.1 hmany]
    congr 1
    exact pairwise_applicableIn.eq_of_mem_iff hordered fun {i} =>
      mem_applicableIn_iff.trans (hmem i).symm

/-! ## Candidates in another order -/

section Order

variable {shuffled : List MethodDeclaration} {place : Equiv.Perm Nat}

theorem pairwise_mergeSort_map {places : List Nat} (hordered : places.Pairwise (· < ·)) :
    (places.map place).mergeSort.Pairwise (· < ·) := by
  have hnodup : (places.map place).mergeSort.Nodup :=
    (List.mergeSort_perm _ _).nodup_iff.2 (hordered.nodup.map place.injective)
  exact ((List.pairwise_mergeSort' (· ≤ ·) _).and hnodup).imp fun h => lt_of_le_of_ne h.1 h.2

variable (hplace : ∀ i, shuffled[i]? = candidates[place i]?)
include hplace

theorem appliesAt_iff_of_getElem? :
    index.AppliesAt shuffled args phase i ↔ index.AppliesAt candidates args phase (place i) := by
  simp only [AppliesAt, hplace]

theorem isFirstPhase_iff_of_getElem? :
    index.IsFirstPhase shuffled args phase ↔ index.IsFirstPhase candidates args phase := by
  have hsome : ∀ p, (∃ i, index.AppliesAt shuffled args p i) ↔
      ∃ i, index.AppliesAt candidates args p i := fun p => by
    simp only [appliesAt_iff_of_getElem? hplace]
    exact place.surjective.exists.symm
  simp only [IsFirstPhase, hsome]

theorem isMostSpecific_iff_of_getElem? :
    index.IsMostSpecific shuffled args phase i ↔
      index.IsMostSpecific candidates args phase (place i) := by
  refine and_congr (appliesAt_iff_of_getElem? hplace) (place.forall_congr fun j => ?_)
  simp only [appliesAt_iff_of_getElem? hplace, MoreSpecificAt, hplace, place.injective.ne_iff]

theorem isOnlyMostSpecific_iff_of_getElem? :
    index.IsOnlyMostSpecific shuffled args phase i ↔
      index.IsOnlyMostSpecific candidates args phase (place i) := by
  refine and_congr (isMostSpecific_iff_of_getElem? hplace) (place.forall_congr fun j => ?_)
  simp only [isMostSpecific_iff_of_getElem? hplace, place.injective.eq_iff]

theorem Chooses.renamed {s : Selection} (hs : index.Chooses shuffled args s) :
    index.Chooses candidates args (s.renamed place) := by
  cases s with
  | noMatch =>
    intro phase i happlies
    apply hs phase (place.symm i)
    rwa [appliesAt_iff_of_getElem? hplace, place.apply_symm_apply]
  | found i =>
    obtain ⟨phase, hfirst, honly⟩ := hs
    exact ⟨phase, (isFirstPhase_iff_of_getElem? hplace).1 hfirst,
      (isOnlyMostSpecific_iff_of_getElem? hplace).1 honly⟩
  | ambiguous places =>
    obtain ⟨phase, hfirst, hmany, hordered, hmem⟩ := hs
    refine ⟨phase, (isFirstPhase_iff_of_getElem? hplace).1 hfirst, ?_,
      pairwise_mergeSort_map hordered, ?_⟩
    · refine place.surjective.forall.2 fun i honly => ?_
      exact hmany i ((isOnlyMostSpecific_iff_of_getElem? hplace).2 honly)
    · refine place.surjective.forall.2 fun i => ?_
      simp [hmem, appliesAt_iff_of_getElem? hplace]

end Order

/-- A selection is the one described, and the same whatever the order of the candidates. -/
theorem selectOverload_iff_chooses_and_rearranged (index : TypeIndex)
    (candidates : List MethodDeclaration) (args : List ExprType) :
    (∀ s, index.selectOverload candidates args = s ↔ index.Chooses candidates args s) ∧
      ∀ σ : Equiv.Perm (Fin candidates.length),
        index.selectOverload candidates args =
          (index.selectOverload (rearranged candidates σ) args).renamed (placesOf σ) := by
  refine ⟨fun s => ⟨fun heq => heq ▸ chooses_selectOverload, selectOverload_eq_of_chooses⟩, ?_⟩
  intro σ
  apply selectOverload_eq_of_chooses
  exact Chooses.renamed (getElem?_rearranged σ) chooses_selectOverload

example :
    let takes (ps : List Primitive) : MethodDeclaration :=
      { name := "m", descriptor := { params := ps.map .prim, ret := none } }
    selectOverload {} [takes [.long], takes [.byte], takes [.int]] [.prim .short] = .found 2 ∧
      selectOverload {} [takes [.int, .long], takes [.byte, .int], takes [.long, .int]]
        [.prim .int, .prim .int] = .ambiguous [0, 2] := by
  decide

end TypeIndex

end Renaming.Java
