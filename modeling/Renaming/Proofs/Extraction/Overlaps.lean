import Mathlib.Data.List.Nodup
import Renaming.Proofs.Extraction
import Renaming.Proofs.MemoryStore

/-!
# Overlaps sorted out

A resolver may report occurrences in any order and on top of each other. Extraction keeps those that
collide with none kept before; what it keeps is in order, and what it drops yields to something that
it keeps. So the map of an extraction can always be built, and the counters of an extraction that
worked are the totals of what was kept and dropped.
-/

namespace Renaming

/-- Whether an occurrence starts where a kept one starts, or behind its start and before its end. -/
def Occurrence.YieldsTo (o kept : Occurrence) : Prop :=
  kept.span.start ≤ o.span.start ∧
    (o.span.start = kept.span.start ∨ o.span.start < kept.span.stop)

/-! ## Kept and dropped occurrences -/

/-- Every occurrence is kept or dropped. -/
theorem separate_perm (last : Option Span) (os : List Occurrence) :
    ((separate last os).1 ++ (separate last os).2).Perm os := by
  induction os generalizing last with
  | nil => exact .nil
  | cons o rest ih =>
    unfold separate
    split
    · exact List.perm_middle.trans ((ih last).cons o)
    · exact (ih (some o.span)).cons o

theorem orderOccurrences_perm (os : List Occurrence) :
    ((orderOccurrences os).1 ++ (orderOccurrences os).2).Perm os :=
  (separate_perm none _).trans (List.mergeSort_perm os _)

/-- An occurrence is dropped for the one kept last before it, which was kept on this way or before
it. -/
theorem yields_separate {os : List Occurrence}
    (hsorted : os.Pairwise fun a b => a.span.start ≤ b.span.start) (last : Option Occurrence)
    (hlast : ∀ l ∈ last, ∀ o ∈ os, l.span.start ≤ o.span.start) :
    ∀ d ∈ (separate (last.map Occurrence.span) os).2,
      ∃ k, (k ∈ last ∨ k ∈ (separate (last.map Occurrence.span) os).1) ∧ d.YieldsTo k := by
  induction os generalizing last with
  | nil => simp [separate]
  | cons o rest ih =>
    obtain ⟨hfirst, hrest⟩ := List.pairwise_cons.1 hsorted
    intro d hd
    unfold separate at hd ⊢
    split at hd
    · rename_i hcollides
      rw [if_pos hcollides]
      rcases List.mem_cons.1 hd with rfl | hd
      · obtain ⟨l, hl, hcollides⟩ : ∃ l ∈ last, d.collides l.span = true := by
          simpa [Option.any_map, Option.any_eq_true] using hcollides
        have hstart := hlast l hl d List.mem_cons_self
        simp only [Occurrence.collides, Bool.or_eq_true, decide_eq_true_eq, beq_iff_eq]
          at hcollides
        exact ⟨l, .inl hl, hstart, hcollides.symm⟩
      · exact ih hrest last (fun l hl a ha => hlast l hl a (List.mem_cons_of_mem o ha)) d hd
    · rename_i hkept
      rw [if_neg hkept]
      -- from here on the one kept last is this one, which starts before all that follow
      have htail := ih hrest (some o) fun l hl => by
        cases hl
        exact hfirst
      obtain ⟨k, hk, hyields⟩ := htail d hd
      refine ⟨k, .inr ?_, hyields⟩
      rcases hk with hk | hk
      · cases hk
        exact List.mem_cons_self
      · exact List.mem_cons_of_mem o hk

/-- What is dropped yields to something that is kept. -/
theorem yields_orderOccurrences {os : List Occurrence} {d : Occurrence}
    (hd : d ∈ (orderOccurrences os).2) : ∃ k ∈ (orderOccurrences os).1, d.YieldsTo k := by
  have hsorted := (pairwise_mergeSort_span os).imp
    (S := fun a b => a.span.start ≤ b.span.start) fun h => by omega
  obtain ⟨k, hk, hyields⟩ := yields_separate hsorted none (by simp) d hd
  exact ⟨k, hk.resolve_left (by simp), hyields⟩

/-- Occurrences at different spans can be given in any order. -/
theorem orderOccurrences_eq_of_perm {os os' : List Occurrence} (hperm : os'.Perm os)
    (hnodup : (os.map Occurrence.span).Nodup) : orderOccurrences os' = orderOccurrences os := by
  have hsorted : (os'.mergeSort fun a b => !b.span.precedes a.span) =
      os.mergeSort fun a b => !b.span.precedes a.span := by
    refine List.Perm.eq_of_pairwise ?_ (pairwise_mergeSort_span os') (pairwise_mergeSort_span os)
      ((List.mergeSort_perm os' _).trans (hperm.trans (List.mergeSort_perm os _).symm))
    intro a b ha hb hab hba
    -- neither span precedes the other, so they are the same span
    have hspan : a.span = b.span := by
      cases hspans : a.span with
      | mk start stop =>
        rw [hspans] at hab hba
        cases hspans' : b.span with
        | mk start' stop' =>
          rw [hspans'] at hab hba
          rw [Span.mk.injEq]
          dsimp only at hab hba
          omega
    exact List.inj_on_of_nodup_map hnodup (hperm.mem_iff.1 (List.mem_mergeSort.1 ha))
      (List.mem_mergeSort.1 hb) hspan
  rw [orderOccurrences, orderOccurrences, hsorted]

/-! ## Counters -/

/-- What is kept of the units of a program. -/
def keptOccurrences (resolutions : List (String × UnitResolution)) : List Occurrence :=
  resolutions.flatMap fun r => (orderOccurrences r.2.occurrences).1

/-- What is dropped of the units of a program. -/
def droppedOccurrences (resolutions : List (String × UnitResolution)) : List Occurrence :=
  resolutions.flatMap fun r => (orderOccurrences r.2.occurrences).2

/-- A new unit adds its occurrences to those of a map. -/
theorem RangeMap.size_insert {m : RangeMap} {unit : String} (hnew : unit ∉ m.unitIds)
    (os : List Occurrence) : (⟨m.units.insert unit os⟩ : RangeMap).size = m.size + os.length := by
  have hperm := ((Entries.insert_perm (v := os) hnew).map Prod.snd).flatten.length_eq
  rw [List.map_cons, List.flatten_cons, List.length_append] at hperm
  rw [size, size, SortedMap.values, SortedMap.values, SortedMap.insert, hperm, Nat.add_comm]

namespace Extraction

variable {e e' : Extraction}

theorem addUnit_eq_ok {unit : String} {r : UnitResolution} (h : e.addUnit unit r = .ok e') :
    e'.stats.occurrences = e.stats.occurrences + (orderOccurrences r.occurrences).1.length ∧
      e'.stats.droppedOverlaps =
        e.stats.droppedOverlaps + (orderOccurrences r.occurrences).2.length ∧
      e'.rangeMap.size = e.rangeMap.size + (orderOccurrences r.occurrences).1.length := by
  simp only [addUnit] at h
  cases hinsert : e.rangeMap.insertUnit unit (orderOccurrences r.occurrences).1 with
  | error err =>
    rw [hinsert] at h
    cases h
  | ok m =>
    rw [hinsert] at h
    cases h
    obtain ⟨hnew, -, rfl⟩ := RangeMap.insertUnit_eq_ok_iff.1 hinsert
    exact ⟨rfl, rfl, RangeMap.size_insert hnew _⟩

theorem addUnits_eq_ok {resolutions : List (String × UnitResolution)}
    (h : e.addUnits resolutions = .ok e') :
    e'.stats.occurrences = e.stats.occurrences + (keptOccurrences resolutions).length ∧
      e'.stats.droppedOverlaps =
        e.stats.droppedOverlaps + (droppedOccurrences resolutions).length ∧
      e'.rangeMap.size = e.rangeMap.size + (keptOccurrences resolutions).length := by
  induction resolutions generalizing e with
  | nil =>
    cases h
    exact ⟨rfl, rfl, rfl⟩
  | cons added rest ih =>
    rw [addUnits, List.foldlM_cons] at h
    obtain ⟨e₁, hadd, hrest⟩ := exists_of_bind_eq_ok h
    obtain ⟨hkept, hdropped, hsize⟩ := addUnit_eq_ok hadd
    obtain ⟨hkept', hdropped', hsize'⟩ := ih hrest
    simp only [keptOccurrences, droppedOccurrences, List.flatMap_cons, List.length_append]
      at hkept' hdropped' hsize' ⊢
    omega

end Extraction

/-! ## Whole extractions -/

/-- Whether a resolver names the units that it was given, in any order. -/
def Resolver.ListsUnits (resolver : Resolver) : Prop :=
  ∀ units resolutions, resolver.resolve units = .ok resolutions →
    (resolutions.map Prod.fst).Perm (units.map SourceUnit.id)

section Extracting

variable {σ : Type} [SourceStore σ] {store : σ} {resolver : Resolver} {tolerance : Tolerance}

/-- A map that cannot be built comes from a unit that the resolver names twice. -/
theorem extractRangeMap_ne_rangeMap_error
    (hstore : ∀ ids, SourceStore.enumerate store = .ok ids → ids.Nodup)
    (hlists : resolver.ListsUnits) (cause : RangeMapError) :
    extractRangeMap store resolver tolerance ≠ .error (.rangeMap cause) := by
  intro herror
  cases hunits : readUnits store resolver.handles with
  | error err => simp [extractRangeMap, hunits] at herror
  | ok units =>
    cases hresolve : resolver.resolve units with
    | error message => simp [extractRangeMap, hunits, hresolve] at herror
    | ok resolutions =>
      obtain ⟨ids, henum, hids, -⟩ := readUnits_eq_ok hunits
      have hnodup : (resolutions.map Prod.fst).Nodup := by
        rw [(hlists units resolutions hresolve).nodup_iff, hids]
        exact (hstore ids henum).filter _
      obtain ⟨e, he⟩ := extractRangeMap_of_nodup hunits hresolve hnodup tolerance
      rw [he] at herror
      cases herror

/-- An extraction that worked counts what was kept and dropped of the units that were read. -/
theorem extractRangeMap_counts {e : Extraction}
    (h : extractRangeMap store resolver tolerance = .ok e) (hworked : e.worked = true) :
    ∃ units resolutions, readUnits store resolver.handles = .ok units ∧
      resolver.resolve units = .ok resolutions ∧
      e.stats.occurrences = (keptOccurrences resolutions).length ∧
      e.stats.droppedOverlaps = (droppedOccurrences resolutions).length ∧
      e.rangeMap.size = (keptOccurrences resolutions).length := by
  unfold extractRangeMap at h
  split at h
  · cases h
  · rename_i units hunits
    dsimp only at h
    split at h
    · cases h
      cases hworked
    · rename_i resolutions hresolve
      split at h
      · cases h
      · rename_i e₁ hadd
        split at h
        · cases h
          obtain ⟨hkept, hdropped, hsize⟩ := Extraction.addUnits_eq_ok hadd
          have hperm := List.mergeSort_perm resolutions fun a b => !decide (b.1 < a.1)
          refine ⟨units, resolutions, hunits, hresolve, ?_, ?_, ?_⟩
          · rw [hkept, keptOccurrences, (hperm.flatMap_right _).length_eq]
            exact Nat.zero_add _
          · rw [hdropped, droppedOccurrences, (hperm.flatMap_right _).length_eq]
            exact Nat.zero_add _
          · rw [hsize, keptOccurrences, (hperm.flatMap_right _).length_eq]
            exact Nat.zero_add _
        · cases h
          cases hworked

end Extracting

/-- Whatever is reported of a unit, what is kept is in order and accepted by every map without the
unit, and every other occurrence is dropped and yields to one that is kept; if the spans differ, the
order of the report does not matter. So an extraction from a store that lists no unit twice, by a
resolver that names the units it was given, never fails for its map, and when it works it counts the
occurrences of its map and those that were dropped. -/
theorem extraction_always_valid :
    (∀ os : List Occurrence,
      ((orderOccurrences os).1 ++ (orderOccurrences os).2).Perm os ∧
      InOrder (orderOccurrences os).1 ∧
      (∀ (m : RangeMap) unit, unit ∉ m.unitIds →
        ∃ m', m.insertUnit unit (orderOccurrences os).1 = .ok m' ∧
          m'.occurrences unit = (orderOccurrences os).1) ∧
      (∀ d ∈ (orderOccurrences os).2, ∃ k ∈ (orderOccurrences os).1, d.YieldsTo k) ∧
      ((os.map Occurrence.span).Nodup → ∀ os', os'.Perm os →
        orderOccurrences os' = orderOccurrences os)) ∧
    ∀ {σ : Type} [SourceStore σ] (store : σ) (resolver : Resolver) (tolerance : Tolerance),
      (∀ ids, SourceStore.enumerate store = .ok ids → ids.Nodup) → resolver.ListsUnits →
      (∀ cause, extractRangeMap store resolver tolerance ≠ .error (.rangeMap cause)) ∧
      ∀ e, extractRangeMap store resolver tolerance = .ok e → e.worked = true →
        ∃ units resolutions, readUnits store resolver.handles = .ok units ∧
          resolver.resolve units = .ok resolutions ∧
          e.stats.occurrences = (keptOccurrences resolutions).length ∧
          e.stats.droppedOverlaps = (droppedOccurrences resolutions).length ∧
          e.rangeMap.size = (keptOccurrences resolutions).length := by
  refine ⟨fun os => ?_, fun store resolver tolerance hstore hlists => ?_⟩
  · have horder := firstDisorder_orderOccurrences os
    refine ⟨orderOccurrences_perm os, firstDisorder_eq_none_iff.1 horder, ?_,
      fun d hd => yields_orderOccurrences hd,
      fun hnodup os' hperm => orderOccurrences_eq_of_perm hperm hnodup⟩
    intro m unit hnew
    refine ⟨_, RangeMap.insertUnit_eq_ok_iff.2 ⟨hnew, horder, rfl⟩, ?_⟩
    rw [RangeMap.occurrences, SortedMap.get?_insert_self, Option.getD_some]
  · exact ⟨fun cause => extractRangeMap_ne_rangeMap_error hstore hlists cause,
      fun e he hworked => extractRangeMap_counts he hworked⟩

/-- Occurrences in no order: one within another, two at one start, an empty one at an end. -/
def tangledReport : List Occurrence :=
  [⟨⟨4, 6⟩, "A.f", .field, []⟩, ⟨⟨0, 9⟩, "A", .type, []⟩, ⟨⟨9, 9⟩, "A.g", .field, []⟩,
    ⟨⟨9, 12⟩, "A.h", .field, []⟩]

def untangled : List Occurrence := [⟨⟨0, 9⟩, "A", .type, []⟩, ⟨⟨9, 9⟩, "A.g", .field, []⟩]

/-- Reports the same of every unit. -/
def tangledResolver : Resolver where
  handles _ := true
  resolve units := .ok (units.map fun u => (u.id, { occurrences := tangledReport }))

def tangledStore : MemoryStore := .ofTexts [("A.java", "class A")]

theorem extraction_always_valid_tangled :
    (orderOccurrences tangledReport).1 = untangled ∧
      orderOccurrences tangledReport.reverse = orderOccurrences tangledReport ∧
      ∃ e, extractRangeMap tangledStore tangledResolver {} = .ok e ∧ e.worked = true ∧
        e.rangeMap.size = 2 ∧ e.stats.occurrences = 2 ∧ e.stats.droppedOverlaps = 2 := by
  obtain ⟨horders, hextracts⟩ := extraction_always_valid
  have horder : orderOccurrences tangledReport =
      (untangled, [⟨⟨4, 6⟩, "A.f", .field, []⟩, ⟨⟨9, 12⟩, "A.h", .field, []⟩]) := by
    have hsorted : [⟨⟨0, 9⟩, "A", .type, []⟩, ⟨⟨4, 6⟩, "A.f", .field, []⟩,
        ⟨⟨9, 9⟩, "A.g", .field, []⟩, ⟨⟨9, 12⟩, "A.h", .field, []⟩].Perm tangledReport := by decide
    rw [← (horders tangledReport).2.2.2.2 (by decide) _ hsorted, orderOccurrences,
      List.mergeSort_of_pairwise (by decide)]
    decide +kernel
  have hreversed := (horders tangledReport).2.2.2.2 (by decide) _ (List.reverse_perm _)
  refine ⟨by rw [horder], hreversed, ?_⟩
  have hstore : ∀ ids, SourceStore.enumerate tangledStore = .ok ids → ids.Nodup := by
    intro ids hids
    rw [(MemoryStore.enumerate_eq_ok hids).2]
    exact SortedMap.nodup_keys _
  have hlists : tangledResolver.ListsUnits := by
    rintro units _ ⟨⟩
    rw [List.map_map]
    exact .refl _
  have hread : readUnits tangledStore tangledResolver.handles = .ok [⟨"A.java", "class A"⟩] := by
    decide +kernel
  have hreport : tangledResolver.resolve [⟨"A.java", "class A"⟩] =
      .ok [("A.java", { occurrences := tangledReport })] := rfl
  have hinsert : RangeMap.empty.insertUnit "A.java" untangled =
      .ok ⟨.ofList [("A.java", untangled)]⟩ := by decide +kernel
  have hratio : decide (Float.ofNat 0 / Float.ofNat 1 > 0.5) = false := by decide +kernel
  obtain ⟨e, hextract, hworked⟩ : ∃ e,
      extractRangeMap tangledStore tangledResolver {} = .ok e ∧ e.worked = true := by
    simp [extractRangeMap, hread, hreport, Extraction.addUnits, Extraction.addUnit, horder,
      hinsert, Except.map, Tolerance.exceeded, hratio, Extraction.worked]
  obtain ⟨units, resolutions, hunits, hresolve, hkept, hdropped, hsize⟩ :=
    (hextracts tangledStore tangledResolver {} hstore hlists).2 e hextract hworked
  rw [hread] at hunits
  cases hunits
  rw [hreport] at hresolve
  cases hresolve
  simp only [keptOccurrences, droppedOccurrences, List.flatMap_cons, List.flatMap_nil, horder]
    at hkept hdropped hsize
  exact ⟨e, hextract, hworked, hsize, hkept, hdropped⟩

end Renaming
