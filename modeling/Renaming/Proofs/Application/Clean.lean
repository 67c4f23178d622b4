import Renaming.Proofs.Application.Units
import Renaming.Proofs.Extraction

/-!
# Application without errors

A map that fits the units of a store in memory gives rise to no error. No unit is missing, all
sources are texts in which the occurrences lie, and ids that are valid can be written.
-/

namespace Renaming

variable {store : MemoryStore} {map : RangeMap} {options : ApplyOptions}

/-- A unit of a store that is a text, if it is a source, is read without errors. -/
theorem readJob_errors_eq_nil {unit : String} (hunit : unit ∈ store.units.keys)
    (htext : options.isSource unit = true → ∃ text, SourceStore.readText store unit = .ok text)
    (target : ApplyTarget) : (readJob store target options unit).1 = [] := by
  obtain ⟨content, hget⟩ := SortedMap.mem_keys_iff.1 hunit
  unfold readJob
  split
  · rename_i hsource
    obtain ⟨text, htext⟩ := htext hsource
    rw [htext]
  · rw [MemoryStore.readBytes_of_get? hget]
    split <;> rfl

theorem plan_errors_eq {job : Job} {r : ApplyReport}
    (h : ∀ text, job.content = .text text →
      ∀ o ∈ map.occurrences job.unit, o.span.Within text)
    (target : ApplyTarget) (table : RenameTable) :
    (r.plan target map table options job).1.errors = r.errors := by
  unfold ApplyReport.plan
  split
  · rfl
  · rename_i text htext
    obtain ⟨spliced, hspliced⟩ := spliceUnit_of_within (h text htext) table job.unit
    rw [hspliced]
    dsimp only
    split <;> rfl

/-- One unit adds no error. -/
theorem runUnit_errors_eq (hfits : map.Fits store store.units.keys) {unit : String}
    (hvalid : UnitId.isValid unit = true) (target : ApplyTarget) (table : RenameTable)
    (state : ApplyReport × MemoryStore) :
    (runUnit target store map table options state unit).1.errors = state.1.errors := by
  obtain ⟨r, output⟩ := state
  unfold runUnit
  split
  · rfl
  · rename_i job hjob
    obtain ⟨rfl, htext⟩ := readJob_eq_some hjob
    have hplan : (r.plan target map table options job).1.errors = r.errors :=
      plan_errors_eq (fun text hcontent => hfits.holds job.unit text (htext text hcontent))
        target table
    rcases heq : r.plan target map table options job with ⟨r', _ | content⟩
    · rw [runJob_of_plan_none output heq]
      rwa [heq] at hplan
    · rw [runJob_of_plan_some output heq hvalid]
      rwa [heq] at hplan

/-- Neither do all units of a run. -/
theorem foldl_runUnit_errors_eq (hfits : map.Fits store store.units.keys) {units : List String}
    (hvalid : ∀ unit ∈ units, UnitId.isValid unit = true) (target : ApplyTarget)
    (table : RenameTable) (state : ApplyReport × MemoryStore) :
    (units.foldl (runUnit target store map table options) state).1.errors = state.1.errors := by
  induction units generalizing state with
  | nil => rfl
  | cons unit rest ih =>
    rw [List.foldl_cons, ih fun u hu => hvalid u (by simp [hu]),
      runUnit_errors_eq hfits (hvalid unit (by simp))]

/-- Applying a table with a map that fits the store reports no errors. -/
theorem applyTable_clean (hopen : store.closed = false)
    (hids : ∀ unit ∈ store.units.keys, UnitId.isValid unit = true)
    (hfits : map.Fits store store.units.keys)
    (htexts : ∀ unit ∈ store.units.keys, options.isSource unit = true →
      ∃ text, SourceStore.readText store unit = .ok text)
    (target : ApplyTarget) (output : MemoryStore) (table : RenameTable) :
    ∃ done : ApplyReport × MemoryStore,
      applyTable target store output map table options = .ok done ∧ done.1.errors = [] := by
  refine ⟨_, applyTable_eq_foldl (MemoryStore.enumerate_of_open hopen) target output map table
    options, ?_⟩
  rw [foldl_runUnit_errors_eq hfits hids]
  have hmissing : missingUnits map store.units.keys = [] := by
    simpa [missingUnits] using hfits.present
  have hreads : (store.units.keys.map (readJob store target options)).flatMap Prod.fst = [] := by
    simp only [List.flatMap_eq_nil_iff, List.forall_mem_map]
    exact fun unit hunit => readJob_errors_eq_nil hunit (htexts unit hunit) target
  rw [hmissing, hreads, List.append_nil]

end Renaming
