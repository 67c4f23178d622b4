import Renaming.Application
import Renaming.Proofs.MemoryStore

/-!
# Application unit by unit

Reading comes before changing and writing, but what happens to a unit depends on that unit alone. A
run is therefore one fold over the units, and what holds of all runs follows from one unit.
-/

namespace Renaming

variable {ι ο : Type} [SourceStore ι] [SourceStore ο]

/-- The job of one unit, carried out if there is one. -/
def runUnit (target : ApplyTarget) (input : ι) (map : RangeMap) (table : RenameTable)
    (options : ApplyOptions) (state : ApplyReport × ο) (unit : String) : ApplyReport × ο :=
  match (readJob input target options unit).2 with
  | none => state
  | some job => runJob target map table options state job

/-- A job has the id of its unit, and a text only if that is the text of the unit. -/
theorem readJob_eq_some {input : ι} {target : ApplyTarget} {options : ApplyOptions}
    {unit : String} {job : Job} (h : (readJob input target options unit).2 = some job) :
    job.unit = unit ∧
      ∀ text, job.content = .text text → SourceStore.readText input unit = .ok text := by
  unfold readJob at h
  split at h
  · split at h
    · rename_i text htext
      cases h
      refine ⟨rfl, fun text' heq => ?_⟩
      cases heq
      exact htext
    · dsimp only at h
      split at h
      · cases h
      · unfold rawJob at h
        split at h
        · cases h
          exact ⟨rfl, by simp⟩
        · cases h
  · split at h
    · cases h
    · split at h
      · cases h
        exact ⟨rfl, by simp⟩
      · cases h

theorem foldl_runJob_eq_foldl_runUnit (target : ApplyTarget) (input : ι) (map : RangeMap)
    (table : RenameTable) (options : ApplyOptions) (units : List String)
    (state : ApplyReport × ο) :
    ((units.map (readJob input target options)).filterMap Prod.snd).foldl
        (runJob target map table options) state =
      units.foldl (runUnit target input map table options) state := by
  induction units generalizing state with
  | nil => rfl
  | cons unit rest ih =>
    rw [List.foldl_cons, ← ih, runUnit]
    cases h : (readJob input target options unit).2 with
    | none => simp [h]
    | some job => simp [h]

/-- A run as one fold over the units of the input. -/
theorem applyTable_eq_foldl {input : ι} {units : List String}
    (h : SourceStore.enumerate input = .ok units) (target : ApplyTarget) (output : ο)
    (map : RangeMap) (table : RenameTable) (options : ApplyOptions) :
    applyTable target input output map table options =
      .ok (units.foldl (runUnit target input map table options)
        ({ errors := missingUnits map units ++
          (units.map (readJob input target options)).flatMap Prod.fst }, output)) := by
  simp only [applyTable, readJobs, h]
  rw [foldl_runJob_eq_foldl_runUnit]

section Jobs

variable {target : ApplyTarget} {map : RangeMap} {table : RenameTable} {options : ApplyOptions}
  {r r' : ApplyReport} {job : Job}

theorem runJob_of_plan_none (output : MemoryStore)
    (h : r.plan target map table options job = (r', none)) :
    runJob target map table options (r, output) job = (r', output) := by
  simp only [runJob, h]

/-- A job on a store in memory: the plan, and the write that it asks for. -/
theorem runJob_of_plan_some {content : Bytes} (output : MemoryStore)
    (h : r.plan target map table options job = (r', some content))
    (hvalid : UnitId.isValid job.unit = true) :
    runJob target map table options (r, output) job =
      ({ r' with written := r'.written ++ [job.unit] }, output.put job.unit content) := by
  simp only [runJob, h, MemoryStore.writeBytes_of_valid output content hvalid]

end Jobs

end Renaming
