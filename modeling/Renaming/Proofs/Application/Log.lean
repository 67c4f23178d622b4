import Renaming.Proofs.Application.Clean
import Renaming.Proofs.Application.InPlace

/-!
# What a run logs

With a map that fits the store, the log of a run has the substitutions that the table asks for in
the sources, and no others. A run that logs nothing leaves every unit as it was: in place nothing is
written but what was there, and another store is filled with what the store has.
-/

namespace Renaming

variable {store : MemoryStore} {map : RangeMap} {table : RenameTable} {options : ApplyOptions}

theorem RenameTable.substitution?_eq_some_iff {t : RenameTable} {unit : String} {text : List Char}
    {o : Occurrence} {entry : RenameEntry} :
    t.substitution? unit text o = some entry ↔
      entry.unit = unit ∧ entry.offset = o.span.start ∧
        entry.old = String.ofList (o.span.slice text) ∧
          replacement t o entry.old = some entry.new ∧ entry.new ≠ entry.old := by
  obtain ⟨old, new, unit', offset⟩ := entry
  simp only [substitution?, Option.map_eq_some_iff, Option.filter_eq_some_iff, decide_eq_true_eq,
    RenameEntry.mk.injEq]
  constructor
  · rintro ⟨_, ⟨hnew, hne⟩, rfl, rfl, rfl, rfl⟩
    exact ⟨rfl, rfl, rfl, hnew, hne⟩
  · rintro ⟨rfl, rfl, rfl, hnew, hne⟩
    exact ⟨new, ⟨hnew, hne⟩, rfl, rfl, rfl, rfl⟩

/-- A substitution that the table asks for in a source of the store. -/
def RenameEntry.Asked (store : MemoryStore) (map : RangeMap) (table : RenameTable)
    (options : ApplyOptions) (entry : RenameEntry) : Prop :=
  options.isSource entry.unit = true ∧
    ∃ text, SourceStore.readText store entry.unit = .ok text ∧
      ∃ o ∈ map.occurrences entry.unit,
        table.substitution? entry.unit text.toList o = some entry

/-- A map that fits a store, and has the occurrences of each unit in order. -/
structure RangeMap.Applies (map : RangeMap) (store : MemoryStore) : Prop where
  fits : map.Fits store store.units.keys
  spans : ∀ unit, ∀ o ∈ map.occurrences unit, o.span.start ≤ o.span.stop
  ordered : ∀ unit, firstDisorder none (map.occurrences unit) = none

/-! ## One unit -/

section Units

variable {unit : String} {content : Bytes}

/-- What one unit does to a run: it is a source that is spliced, and written unless nothing in it
changes in place, or it is carried over as it is. -/
theorem runUnit_cases (hmap : map.Applies store) (hget : store.units.get? unit = some content)
    (hvalid : UnitId.isValid unit = true) (target : ApplyTarget)
    (state : ApplyReport × MemoryStore) {state' : ApplyReport × MemoryStore}
    (h : runUnit target store map table options state unit = state') :
    (∃ text spliced, options.isSource unit = true ∧ content.text? = some text ∧
      spliceUnit table unit text (map.occurrences unit) = .ok spliced ∧
      state'.1.log = state.1.log ++ spliced.entries ∧
      (state'.2 = state.2.put unit (Bytes.ofText spliced.output) ∨
        target = .inPlace ∧ state'.2 = state.2 ∧ spliced.changed = false)) ∨
    (options.isSource unit = false ∨ content.text? = none) ∧ state'.1.log = state.1.log ∧
      (state'.2 = state.2.put unit content ∨ target = .inPlace ∧ state'.2 = state.2) := by
  obtain ⟨r, output⟩ := state
  subst h
  by_cases htext : options.isSource unit = true ∧ ∃ text, content.text? = some text
  · obtain ⟨hsource, text, htext⟩ := htext
    have hwithin := hmap.fits.holds unit text (MemoryStore.readText_of_get? hget htext)
    obtain ⟨spliced, hspliced⟩ := spliceUnit_of_within hwithin table unit
    refine .inl ⟨text, spliced, hsource, htext, hspliced, ?_⟩
    rw [runUnit, readJob_of_text target hsource hget htext]
    dsimp only
    by_cases hkeep : spliced.changed = false ∧ target = .inPlace ∧
        options.overwriteUnmapped = false
    · obtain ⟨hsame, rfl, hover⟩ := hkeep
      have hplan : r.plan .inPlace map table options ⟨unit, .text text⟩ =
          ({ r with log := r.log ++ spliced.entries, unchanged := r.unchanged + 1 }, none) := by
        simp [ApplyReport.plan, hspliced, hsame, hover]
      rw [runJob_of_plan_none output hplan]
      exact ⟨rfl, .inr ⟨rfl, rfl, hsame⟩⟩
    · have hplan : r.plan target map table options ⟨unit, .text text⟩ =
          ({ r with log := r.log ++ spliced.entries }, some (Bytes.ofText spliced.output)) := by
        simp only [ApplyReport.plan, hspliced]
        rw [if_neg]
        simpa [and_assoc] using hkeep
      rw [runJob_of_plan_some output hplan hvalid]
      exact ⟨rfl, .inl rfl⟩
  · have hraw : options.isSource unit = false ∨ content.text? = none := by
      cases hsource : options.isSource unit with
      | false => exact .inl rfl
      | true =>
        refine .inr (Option.eq_none_iff_forall_ne_some.2 fun text hcontent => ?_)
        exact htext ⟨hsource, text, hcontent⟩
    obtain ⟨errors, hseparate, hinPlace⟩ := readJob_of_raw hraw hget
    refine .inr ⟨hraw, ?_⟩
    cases target with
    | separate =>
      have hplan : r.plan .separate map table options ⟨unit, .raw content⟩ =
          ({ r with copied := r.copied + 1 }, some content) := rfl
      rw [runUnit, hseparate]
      dsimp only
      rw [runJob_of_plan_some output hplan hvalid]
      exact ⟨rfl, .inl rfl⟩
    | inPlace =>
      rw [runUnit, hinPlace]
      exact ⟨rfl, .inr ⟨rfl, rfl⟩⟩

/-- A unit adds to the log what the table asks for in it. -/
theorem mem_log_runUnit (hmap : map.Applies store) (hget : store.units.get? unit = some content)
    (hvalid : UnitId.isValid unit = true) (target : ApplyTarget)
    (state : ApplyReport × MemoryStore) (entry : RenameEntry) :
    entry ∈ (runUnit target store map table options state unit).1.log ↔
      entry ∈ state.1.log ∨ entry.unit = unit ∧ entry.Asked store map table options := by
  generalize hrun : runUnit target store map table options state unit = state'
  obtain ⟨text, spliced, hsource, htext, hspliced, hlog, -⟩ | ⟨hraw, hlog, -⟩ :=
    runUnit_cases hmap hget hvalid target state hrun
  · rw [hlog, List.mem_append, spliceUnit_entries (hmap.spans unit) (hmap.ordered unit) hspliced,
      List.mem_filterMap]
    refine or_congr_right ⟨?_, ?_⟩
    · rintro ⟨o, ho, hentry⟩
      obtain ⟨rfl, -⟩ := RenameTable.substitution?_eq_some_iff.1 hentry
      exact ⟨rfl, hsource, text, MemoryStore.readText_of_get? hget htext, o, ho, hentry⟩
    · rintro ⟨rfl, -, text', htext', hasked⟩
      rw [MemoryStore.readText_of_get? hget htext] at htext'
      cases htext'
      exact hasked
  · rw [hlog]
    refine (or_iff_left ?_).symm
    rintro ⟨rfl, hsource, text, htext, -⟩
    rcases hraw with hraw | hraw
    · rw [hraw] at hsource
      cases hsource
    · rw [MemoryStore.readText_of_not_text hget hraw] at htext
      cases htext

/-- A unit in which the table asks for nothing is left as it is. -/
theorem get?_runUnit (hmap : map.Applies store) (hget : store.units.get? unit = some content)
    (hvalid : UnitId.isValid unit = true) (target : ApplyTarget)
    (state : ApplyReport × MemoryStore)
    (hnone : ∀ entry : RenameEntry, entry.unit = unit → ¬ entry.Asked store map table options)
    (other : String) :
    (runUnit target store map table options state unit).2.units.get? other =
        store.units.get? other ∨
      (runUnit target store map table options state unit).2.units.get? other =
        state.2.units.get? other ∧ (other = unit → target = .inPlace) := by
  generalize hrun : runUnit target store map table options state unit = state'
  have hput (output : MemoryStore) : (output.put unit content).units.get? other =
      store.units.get? other ∨
        (output.put unit content).units.get? other = output.units.get? other ∧
          (other = unit → target = .inPlace) := by
    by_cases hother : other = unit
    · subst hother
      rw [MemoryStore.get?_put_self]
      exact .inl hget.symm
    · exact .inr ⟨MemoryStore.get?_put_of_ne _ _ hother, fun h => absurd h hother⟩
  obtain ⟨text, spliced, hsource, htext, hspliced, -, hwritten⟩ | ⟨-, -, hwritten⟩ :=
    runUnit_cases hmap hget hvalid target state hrun
  · have hentries : spliced.entries = [] := by
      rw [spliceUnit_entries (hmap.spans unit) (hmap.ordered unit) hspliced,
        List.filterMap_eq_nil_iff]
      intro o ho
      cases hentry : table.substitution? unit text.toList o with
      | none => rfl
      | some entry =>
        obtain ⟨rfl, -⟩ := RenameTable.substitution?_eq_some_iff.1 hentry
        exact absurd ⟨hsource, text, MemoryStore.readText_of_get? hget htext, o, ho, hentry⟩
          (hnone entry rfl)
    rcases hwritten with hwritten | ⟨rfl, hwritten, -⟩
    · have hsame : spliced.output = text :=
        spliceUnit_output_of_not_changed hspliced (by simp [SplicedUnit.changed, hentries])
      rw [hwritten, hsame, Bytes.ofText_of_text? htext]
      exact hput state.2
    · rw [hwritten]
      exact .inr ⟨rfl, fun _ => rfl⟩
  · rcases hwritten with hwritten | ⟨rfl, hwritten⟩
    · rw [hwritten]
      exact hput state.2
    · rw [hwritten]
      exact .inr ⟨rfl, fun _ => rfl⟩

end Units

/-! ## All units -/

theorem mem_log_foldl_runUnit (hmap : map.Applies store) (target : ApplyTarget)
    {units : List String} (hunits : units ⊆ store.units.keys)
    (hids : ∀ unit ∈ store.units.keys, UnitId.isValid unit = true)
    (state : ApplyReport × MemoryStore) (entry : RenameEntry) :
    entry ∈ (units.foldl (runUnit target store map table options) state).1.log ↔
      entry ∈ state.1.log ∨ entry.unit ∈ units ∧ entry.Asked store map table options := by
  induction units generalizing state with
  | nil => simp
  | cons unit rest ih =>
    obtain ⟨hunit, hrest⟩ := List.cons_subset.1 hunits
    obtain ⟨content, hget⟩ := SortedMap.mem_keys_iff.1 hunit
    rw [List.foldl_cons, ih hrest, mem_log_runUnit hmap hget (hids unit hunit), List.mem_cons]
    tauto

theorem get?_foldl_runUnit (hmap : map.Applies store) (target : ApplyTarget)
    {units : List String} (hunits : units ⊆ store.units.keys)
    (hids : ∀ unit ∈ store.units.keys, UnitId.isValid unit = true)
    (hnone : ∀ entry : RenameEntry, ¬ entry.Asked store map table options)
    (state : ApplyReport × MemoryStore) (other : String) :
    (units.foldl (runUnit target store map table options) state).2.units.get? other =
        store.units.get? other ∨
      (units.foldl (runUnit target store map table options) state).2.units.get? other =
        state.2.units.get? other ∧ (other ∈ units → target = .inPlace) := by
  induction units generalizing state with
  | nil => exact .inr ⟨rfl, by simp⟩
  | cons unit rest ih =>
    obtain ⟨hunit, hrest⟩ := List.cons_subset.1 hunits
    obtain ⟨content, hget⟩ := SortedMap.mem_keys_iff.1 hunit
    rw [List.foldl_cons]
    rcases ih hrest (runUnit target store map table options state unit) with h | ⟨h, hin⟩
    · exact .inl h
    · rw [h]
      rcases get?_runUnit hmap hget (hids unit hunit) target state (fun entry _ => hnone entry)
        other with h' | ⟨h', hin'⟩
      · exact .inl h'
      · refine .inr ⟨h', fun hother => ?_⟩
        exact (List.mem_cons.1 hother).elim hin' hin

/-- The log of a run has what the table asks for in the sources of the store. -/
theorem mem_log_applyTable (hmap : map.Applies store) (hopen : store.closed = false)
    (hids : ∀ unit ∈ store.units.keys, UnitId.isValid unit = true) {target : ApplyTarget}
    {output : MemoryStore} {done : ApplyReport × MemoryStore}
    (h : applyTable target store output map table options = .ok done) (entry : RenameEntry) :
    entry ∈ done.1.log ↔ entry.Asked store map table options := by
  rw [applyTable_eq_foldl (MemoryStore.enumerate_of_open hopen)] at h
  cases h
  rw [mem_log_foldl_runUnit hmap target (List.Subset.refl _) hids]
  refine ⟨fun hentry => ?_, fun hasked => .inr ⟨?_, hasked⟩⟩
  · exact (hentry.resolve_left (by simp)).2
  · obtain ⟨-, text, htext, o, ho, -⟩ := hasked
    exact hmap.fits.present entry.unit (RangeMap.mem_unitIds_of_mem_occurrences ho)

/-- A run that logs nothing leaves the store as it is in place, and fills an empty store with it. -/
theorem units_applyTable (hmap : map.Applies store) (hopen : store.closed = false)
    (hids : ∀ unit ∈ store.units.keys, UnitId.isValid unit = true) {target : ApplyTarget}
    {output : MemoryStore}
    (houtput : output = store ∨ target = .separate ∧ output.units = .empty)
    {done : ApplyReport × MemoryStore}
    (h : applyTable target store output map table options = .ok done)
    (hlog : done.1.log = []) : done.2.units = store.units := by
  have hnone : ∀ entry : RenameEntry, ¬ entry.Asked store map table options := by
    intro entry hasked
    have hmem := (mem_log_applyTable hmap hopen hids h entry).2 hasked
    rw [hlog] at hmem
    cases hmem
  rw [applyTable_eq_foldl (MemoryStore.enumerate_of_open hopen)] at h
  cases h
  apply SortedMap.ext_get?
  intro unit
  rcases get?_foldl_runUnit hmap target (List.Subset.refl _) hids hnone _ unit with
    hsame | ⟨hkept, hin⟩
  · exact hsame
  · rw [hkept]
    rcases houtput with rfl | ⟨rfl, hempty⟩
    · rfl
    · have hunit : unit ∉ store.units.keys := fun hunit => nomatch hin hunit
      rw [SortedMap.get?_eq_none_iff.2 hunit]
      dsimp only
      rw [hempty]
      rfl

end Renaming
