import Renaming.Extraction
import Renaming.Proofs.Occurrence
import Renaming.Proofs.RangeMap.Groups
import Renaming.Proofs.Splice

/-!
# What an extraction says of a store

The map of an extraction comes from the resolutions of units that were read from the store: each
unit of the map is one of them, and its occurrences are among those that the resolver found. If
these lie within the texts of the units, then the map fits the store. What is kept of a unit is in
order, so that nothing but a unit that is named twice keeps a map from being built.
-/

namespace Renaming

theorem exists_of_bind_eq_ok {ε α β : Type} {act : Except ε α} {next : α → Except ε β} {b : β}
    (h : act >>= next = .ok b) : ∃ a, act = .ok a ∧ next a = .ok b := by
  cases act with
  | error err => cases h
  | ok a => exact ⟨a, rfl, h⟩

/-! ## Occurrences -/

theorem separate_subset (last : Option Span) (os : List Occurrence) :
    (separate last os).1 ⊆ os := by
  induction os generalizing last with
  | nil => exact List.Subset.refl _
  | cons o rest ih =>
    unfold separate
    split
    · exact List.subset_cons_of_subset o (ih last)
    · exact List.cons_subset_cons o (ih (some o.span))

theorem orderOccurrences_subset (os : List Occurrence) : (orderOccurrences os).1 ⊆ os :=
  fun _ ho => List.mem_mergeSort.1 (separate_subset _ _ ho)

theorem Occurrence.follows_of_not_collides {o : Occurrence} {previous : Span}
    (hle : previous.start ≤ o.span.start) (h : o.collides previous = false) :
    o.follows previous = true := by
  simp only [collides, Bool.or_eq_false_iff, decide_eq_false_iff_not, beq_eq_false_iff_ne] at h
  simp only [follows, Span.overlaps, Bool.and_eq_true, Bool.not_eq_true', Bool.and_eq_false_iff,
    decide_eq_true_eq, decide_eq_false_iff_not]
  omega

/-- What is kept of sorted occurrences is in order. -/
theorem firstDisorder_separate {os : List Occurrence}
    (hsorted : os.Pairwise fun a b => a.span.start ≤ b.span.start) {last : Option Span}
    (hlast : ∀ l ∈ last, ∀ o ∈ os, l.start ≤ o.span.start) :
    firstDisorder last (separate last os).1 = none := by
  induction os generalizing last with
  | nil =>
    unfold separate firstDisorder
    rfl
  | cons o rest ih =>
    obtain ⟨hfirst, hrest⟩ := List.pairwise_cons.1 hsorted
    unfold separate
    split
    · exact ih hrest fun l hl a ha => hlast l hl a (by simp [ha])
    · rename_i hkept
      have htail : firstDisorder (some o.span) (separate (some o.span) rest).1 = none := by
        apply ih hrest
        intro l hl
        cases hl
        exact hfirst
      cases last with
      | none => exact htail
      | some l =>
        have hfollows : o.follows l = true :=
          Occurrence.follows_of_not_collides (hlast l rfl o (by simp)) (by simpa using hkept)
        simpa [firstDisorder, hfollows] using htail

theorem Span.not_precedes_iff {s t : Span} :
    (!t.precedes s) = true ↔ s.start < t.start ∨ s.start = t.start ∧ s.stop ≤ t.stop := by
  simp only [precedes, Bool.not_eq_true', Bool.or_eq_false_iff, Bool.and_eq_false_iff,
    decide_eq_false_iff_not, beq_eq_false_iff_ne]
  omega

/-- Sorting by spans puts no occurrence behind one that its span comes before. -/
theorem pairwise_mergeSort_span (os : List Occurrence) :
    (os.mergeSort fun a b => !b.span.precedes a.span).Pairwise fun a b =>
      a.span.start < b.span.start ∨ a.span.start = b.span.start ∧ a.span.stop ≤ b.span.stop := by
  refine List.Pairwise.imp Span.not_precedes_iff.1 (List.pairwise_mergeSort ?_ ?_ os)
  · intro a b c hab hbc
    rw [Span.not_precedes_iff] at hab hbc ⊢
    omega
  · intro a b
    rw [Bool.or_eq_true, Span.not_precedes_iff, Span.not_precedes_iff]
    omega

theorem firstDisorder_orderOccurrences (os : List Occurrence) :
    firstDisorder none (orderOccurrences os).1 = none := by
  refine firstDisorder_separate ((pairwise_mergeSort_span os).imp ?_) (by simp)
  intro a b hab
  omega

theorem Occurrence.not_collides_of_follows {o : Occurrence} {previous : Span}
    (h : o.follows previous = true) : o.collides previous = false := by
  simp only [follows, Bool.and_eq_true, decide_eq_true_eq] at h
  simp only [collides, Bool.or_eq_false_iff, decide_eq_false_iff_not, beq_eq_false_iff_ne]
  omega

theorem separate_of_ordered {last : Option Span} {os : List Occurrence}
    (h : firstDisorder last os = none) : separate last os = (os, []) := by
  induction os generalizing last with
  | nil => rfl
  | cons o rest ih =>
    obtain ⟨hfirst, hrest⟩ := firstDisorder_cons h
    have hkept : last.any o.collides = false := by
      rw [Option.any_eq_false]
      intro l hl
      simp [Occurrence.not_collides_of_follows (hfirst l hl)]
    rw [separate, hkept, ih hrest]
    rfl

/-- Occurrences that are in order are all kept. -/
theorem orderOccurrences_of_ordered {os : List Occurrence} (h : firstDisorder none os = none) :
    orderOccurrences os = (os, []) := by
  have hsorted : os.Pairwise fun a b => (!b.span.precedes a.span) = true := by
    refine (firstDisorder_eq_none_iff.1 h).imp fun hbefore => ?_
    rw [Span.not_precedes_iff]
    exact .inl hbefore.1
  rw [orderOccurrences, List.mergeSort_of_pairwise hsorted, separate_of_ordered h]

namespace Extraction

variable {e e' : Extraction}

theorem addUnit_rangeMap {unit : String} {r : UnitResolution} (h : e.addUnit unit r = .ok e') :
    e'.rangeMap = ⟨e.rangeMap.units.insert unit (orderOccurrences r.occurrences).1⟩ := by
  simp only [addUnit] at h
  cases hinsert : e.rangeMap.insertUnit unit (orderOccurrences r.occurrences).1 with
  | error err =>
    rw [hinsert] at h
    cases h
  | ok m =>
    rw [hinsert] at h
    cases h
    exact (RangeMap.insertUnit_eq_ok_iff.1 hinsert).2.2

theorem addUnit_of_new {unit : String} (hnew : unit ∉ e.rangeMap.unitIds) (r : UnitResolution) :
    ∃ e', e.addUnit unit r = .ok e' := by
  have hinsert : e.rangeMap.insertUnit unit (orderOccurrences r.occurrences).1 =
      .ok ⟨e.rangeMap.units.insert unit (orderOccurrences r.occurrences).1⟩ :=
    RangeMap.insertUnit_eq_ok_iff.2 ⟨hnew, firstDisorder_orderOccurrences _, rfl⟩
  simp only [addUnit, hinsert]
  exact ⟨_, rfl⟩

/-- Resolutions of different units can all be added. -/
theorem addUnits_of_nodup {resolutions : List (String × UnitResolution)}
    (hnodup : (resolutions.map Prod.fst).Nodup)
    (hnew : ∀ r ∈ resolutions, r.1 ∉ e.rangeMap.unitIds) :
    ∃ e', e.addUnits resolutions = .ok e' := by
  induction resolutions generalizing e with
  | nil => exact ⟨e, rfl⟩
  | cons added rest ih =>
    obtain ⟨hadded, hrest⟩ := List.nodup_cons.1 hnodup
    obtain ⟨e₁, hadd⟩ := addUnit_of_new (hnew added (by simp)) added.2
    have hnew' : ∀ r ∈ rest, r.1 ∉ e₁.rangeMap.unitIds := by
      intro r hr
      have hne : r.1 ≠ added.1 := by
        intro heq
        exact hadded (heq ▸ List.mem_map_of_mem hr)
      rw [addUnit_rangeMap hadd]
      exact RangeMap.not_mem_unitIds_insert (hnew r (by simp [hr])) hne _
    obtain ⟨e', he'⟩ := ih hrest hnew'
    refine ⟨e', ?_⟩
    rw [addUnits, List.foldlM_cons]
    change e.addUnit added.1 added.2 >>= _ = _
    rw [hadd]
    exact he'

/-- A unit of the map was there before or has been resolved. -/
theorem addUnits_cases {resolutions : List (String × UnitResolution)}
    (h : e.addUnits resolutions = .ok e') {unit : String} {os : List Occurrence}
    (hget : e'.rangeMap.units.get? unit = some os) :
    e.rangeMap.units.get? unit = some os ∨
      ∃ r, (unit, r) ∈ resolutions ∧ os = (orderOccurrences r.occurrences).1 := by
  induction resolutions generalizing e with
  | nil =>
    cases h
    exact .inl hget
  | cons added rest ih =>
    rw [addUnits, List.foldlM_cons] at h
    obtain ⟨e₁, hadd, hrest⟩ := exists_of_bind_eq_ok h
    rcases ih hrest with hbefore | ⟨r, hr, hos⟩
    · rw [addUnit_rangeMap hadd, SortedMap.get?_insert] at hbefore
      split at hbefore
      · rename_i hunit
        cases hbefore
        exact .inr ⟨added.2, by simp [eq_of_beq hunit], rfl⟩
      · exact .inl hbefore
    · exact .inr ⟨r, List.mem_cons_of_mem _ hr, hos⟩

end Extraction

/-! ## Units of a store -/

section Reading

variable {σ : Type} [SourceStore σ] {store : σ}

/-- The units that are read are the ids that are handled, each with the text that the store has. -/
theorem readUnits_eq_ok {handles : String → Bool} {units : List SourceUnit}
    (h : readUnits store handles = .ok units) :
    ∃ ids, SourceStore.enumerate store = .ok ids ∧
      units.map SourceUnit.id = ids.filter handles ∧
      ∀ u ∈ units, SourceStore.readText store u.id = .ok u.text := by
  obtain ⟨ids, hids, hunits⟩ := exists_of_bind_eq_ok h
  refine ⟨ids, hids, ?_⟩
  clear h
  generalize ids.filter handles = handled at hunits ⊢
  induction handled generalizing units with
  | nil =>
    cases hunits
    simp
  | cons id rest ih =>
    rw [List.mapM_cons] at hunits
    obtain ⟨unit, hunit, hunits⟩ := exists_of_bind_eq_ok hunits
    obtain ⟨text, htext, hunit⟩ := exists_of_bind_eq_ok hunit
    obtain ⟨others, hothers, hunits⟩ := exists_of_bind_eq_ok hunits
    cases hunit
    cases hunits
    obtain ⟨hmap, hread⟩ := ih hothers
    refine ⟨by rw [List.map_cons, hmap], fun u hu => ?_⟩
    rcases List.mem_cons.1 hu with rfl | hu
    · exact htext
    · exact hread u hu

/-- Whether a map names units of a list only, and each of its occurrences is `P` of the text that
its unit has in a store. -/
structure RangeMap.Describes (map : RangeMap) (store : σ) (ids : List String)
    (P : String → Occurrence → Prop) : Prop where
  present : ∀ unit ∈ map.unitIds, unit ∈ ids
  holds : ∀ unit text, SourceStore.readText store unit = .ok text →
    ∀ o ∈ map.occurrences unit, P text o

/-- Whether what a map says of the units of a store lies within their texts. -/
abbrev RangeMap.Fits (map : RangeMap) (store : σ) (ids : List String) : Prop :=
  map.Describes store ids fun text o => o.span.Within text

theorem RangeMap.describes_empty (ids : List String) (P : String → Occurrence → Prop) :
    empty.Describes store ids P where
  present := by simp
  holds := by simp [occurrences, empty]

/-- Each resolution is that of a unit that was given, and what is found there is `P` of its text. -/
def Resolver.Reports (resolver : Resolver) (P : String → Occurrence → Prop) : Prop :=
  ∀ units resolutions, resolver.resolve units = .ok resolutions → ∀ r ∈ resolutions,
    ∃ u ∈ units, u.id = r.1 ∧ ∀ o ∈ r.2.occurrences, P u.text o

/-- What is found in a unit lies within its text. -/
abbrev Resolver.Faithful (resolver : Resolver) : Prop :=
  resolver.Reports fun text o => o.span.Within text

theorem Extraction.addUnits_describes {units : List SourceUnit} {ids : List String}
    {P : String → Occurrence → Prop} (hids : ∀ u ∈ units, u.id ∈ ids)
    (hread : ∀ u ∈ units, SourceStore.readText store u.id = .ok u.text)
    {resolutions : List (String × UnitResolution)}
    (hfound : ∀ r ∈ resolutions, ∃ u ∈ units, u.id = r.1 ∧ ∀ o ∈ r.2.occurrences, P u.text o)
    {e e' : Extraction} (h : e.addUnits resolutions = .ok e') (hempty : e.rangeMap = .empty) :
    e'.rangeMap.Describes store ids P := by
  have hresolved : ∀ unit os, e'.rangeMap.units.get? unit = some os →
      ∃ u ∈ units, u.id = unit ∧ ∀ o ∈ os, P u.text o := by
    intro unit os hget
    rcases addUnits_cases h hget with hbefore | ⟨r, hr, rfl⟩
    · rw [hempty] at hbefore
      cases hbefore
    · obtain ⟨u, hu, hid, hholds⟩ := hfound _ hr
      exact ⟨u, hu, hid, fun o ho => hholds o (orderOccurrences_subset _ ho)⟩
  constructor
  · intro unit hunit
    obtain ⟨os, hget⟩ := SortedMap.mem_keys_iff.1 hunit
    obtain ⟨u, hu, rfl, -⟩ := hresolved unit os hget
    exact hids u hu
  · intro unit text htext o ho
    rw [RangeMap.occurrences] at ho
    cases hget : e'.rangeMap.units.get? unit with
    | none => simp [hget] at ho
    | some os =>
      obtain ⟨u, hu, rfl, hholds⟩ := hresolved unit os hget
      rw [hread u hu] at htext
      cases htext
      exact hholds o (by simpa [hget] using ho)

/-- A resolver that names no unit twice leads to an extraction, within the tolerance or not. -/
theorem extractRangeMap_of_nodup {resolver : Resolver} {units : List SourceUnit}
    (hunits : readUnits store resolver.handles = .ok units)
    {resolutions : List (String × UnitResolution)}
    (hresolve : resolver.resolve units = .ok resolutions)
    (hnodup : (resolutions.map Prod.fst).Nodup) (tolerance : Tolerance) :
    ∃ e, extractRangeMap store resolver tolerance = .ok e := by
  let start : Extraction := { stats := { units := units.length } }
  have hsorted := List.mergeSort_perm resolutions fun a b => !decide (b.1 < a.1)
  obtain ⟨e, hadd⟩ := start.addUnits_of_nodup ((hsorted.map Prod.fst).nodup_iff.2 hnodup)
    (by simp [start])
  simp only [start] at hadd
  simp only [extractRangeMap, hunits, hresolve, hadd]
  split <;> exact ⟨_, rfl⟩

/-- The map of an extraction is empty, or it has what was resolved in the units that were read. -/
theorem extractRangeMap_cases {resolver : Resolver} {tolerance : Tolerance} {e : Extraction}
    (h : extractRangeMap store resolver tolerance = .ok e) :
    ∃ units, readUnits store resolver.handles = .ok units ∧
      (e.rangeMap = .empty ∨ ∃ found sorted, resolver.resolve units = .ok found ∧
        sorted.Perm found ∧ ∃ e₁, e.rangeMap = e₁.rangeMap ∧
        Extraction.addUnits { stats := { units := units.length } } sorted = .ok e₁) := by
  unfold extractRangeMap at h
  split at h
  · cases h
  · rename_i units hunits
    refine ⟨units, hunits, ?_⟩
    dsimp only at h
    split at h
    · cases h
      exact .inl rfl
    · rename_i found hfound
      split at h
      · cases h
      · rename_i e₁ hadd
        split at h
        · cases h
          exact .inr ⟨found, _, hfound, List.mergeSort_perm _ _, e, rfl, hadd⟩
        · cases h
          exact .inl rfl

/-- The map of an extraction describes the units that the resolver handles, which are all texts. -/
theorem extractRangeMap_describes {resolver : Resolver} {P : String → Occurrence → Prop}
    (hreports : resolver.Reports P) {tolerance : Tolerance} {e : Extraction}
    (h : extractRangeMap store resolver tolerance = .ok e) :
    ∃ ids, SourceStore.enumerate store = .ok ids ∧
      e.rangeMap.Describes store (ids.filter resolver.handles) P ∧
      ∀ id ∈ ids, resolver.handles id = true →
        ∃ text, SourceStore.readText store id = .ok text := by
  obtain ⟨units, hunits, hmap⟩ := extractRangeMap_cases h
  obtain ⟨ids, henum, hids, hread⟩ := readUnits_eq_ok hunits
  refine ⟨ids, henum, ?_, fun id hid hhandles => ?_⟩
  · rw [← hids]
    rcases hmap with hempty | ⟨found, sorted, hfound, hperm, e₁, heq, hadd⟩
    · rw [hempty]
      exact RangeMap.describes_empty _ P
    · rw [heq]
      exact Extraction.addUnits_describes (fun u hu => List.mem_map_of_mem hu) hread
        (fun r hr => hreports units found hfound r (hperm.mem_iff.1 hr)) hadd rfl
  · have hmem : id ∈ units.map SourceUnit.id := by
      rw [hids, List.mem_filter]
      exact ⟨hid, hhandles⟩
    obtain ⟨u, hu, rfl⟩ := List.mem_map.1 hmem
    exact ⟨u.text, hread u hu⟩

/-- The map of an extraction fits the store that it was taken from, and all units that the resolver
handles are texts. -/
theorem extractRangeMap_fits {resolver : Resolver} (hfaithful : resolver.Faithful)
    {tolerance : Tolerance} {e : Extraction}
    (h : extractRangeMap store resolver tolerance = .ok e) :
    ∃ ids, SourceStore.enumerate store = .ok ids ∧ e.rangeMap.Fits store ids ∧
      ∀ id ∈ ids, resolver.handles id = true →
        ∃ text, SourceStore.readText store id = .ok text := by
  obtain ⟨ids, henum, hmap, htexts⟩ := extractRangeMap_describes hfaithful h
  refine ⟨ids, henum, ⟨fun unit hunit => ?_, hmap.holds⟩, htexts⟩
  exact (List.mem_filter.1 (hmap.present unit hunit)).1

/-- The occurrences of a unit in the map of an extraction are in order. -/
theorem extractRangeMap_ordered {resolver : Resolver} {tolerance : Tolerance} {e : Extraction}
    (h : extractRangeMap store resolver tolerance = .ok e) (unit : String) :
    firstDisorder none (e.rangeMap.occurrences unit) = none := by
  obtain ⟨units, -, hmap⟩ := extractRangeMap_cases h
  rw [RangeMap.occurrences]
  cases hget : e.rangeMap.units.get? unit with
  | none => rfl
  | some os =>
    rcases hmap with hempty | ⟨found, sorted, -, -, e₁, heq, hadd⟩
    · rw [hempty] at hget
      cases hget
    · rw [heq] at hget
      rcases Extraction.addUnits_cases hadd hget with hbefore | ⟨r, -, rfl⟩
      · cases hbefore
      · exact firstDisorder_orderOccurrences r.occurrences

end Reading

end Renaming
