import Renaming.Proofs.Run.Steps
import Renaming.Proofs.Store.Archive

/-!
# What a failed run leaves behind

A run is a chain of steps, each of which may fail and leaves what was done before it. Until the range
map is handed on nothing is written; the hand-off writes the one file it is for; and the failures of
an application are of other kinds than those before it.
-/

namespace Renaming

namespace Run

variable {α β : Type} {t : FileTree} {config : RunConfig}

end Run

namespace RunError

/-- Failures of the steps up to the hand-off of the range map. -/
def precedesHandOff : RunError → Bool
  | invalidArguments _ | mappingFile _ _ | extractionFailed _ | internal _ => true
  | store _ | rangeMap _ | file _ | unitsFailed _ => false

/-- Failures of the steps up to the application of the table. -/
def precedesApplication : RunError → Bool
  | rangeMap _ => true
  | e => e.precedesHandOff

end RunError

namespace Run

/-- The run fails only as an application does. -/
def FailsLate (run : Run α) : Prop :=
  Ensures (fun _ => True) run (fun _ _ => True) fun e _ => e.precedesApplication = false

namespace FailsLate

theorem bind {run : Run α} {next : α → Run β} (h : FailsLate run) (hnext : ∀ a, FailsLate (next a)) :
    FailsLate (run >>= next) := Ensures.bind h hnext

theorem pure (a : α) : FailsLate (Pure.pure a) := fun _ _ => trivial

theorem tree : FailsLate tree := fun _ _ => trivial

theorem setTree (t : FileTree) : FailsLate (setTree t) := fun _ _ => trivial

theorem report (f : RunSummary → RunSummary) : FailsLate (report f) := fun _ _ => trivial

theorem ofStore (result : Except StoreError α) : FailsLate (Run.ofStore result) := by
  cases result with
  | ok a => exact pure a
  | error e => exact fun _ _ => rfl

theorem close (o : OpenedStore) : FailsLate (close o) :=
  (setTree _).bind fun _ => ofStore _

theorem leaveFile (path : Option String) (ending : String) (content : Bytes) :
    FailsLate (leaveFile path ending content .file) := by
  cases path with
  | none => exact pure _
  | some path =>
    apply tree.bind
    intro here
    split
    · exact (setTree _).bind fun _ => pure path
    · exact fun _ _ => rfl

end FailsLate

end Run

/-- The locations of the input and of a separate output: their own and all below. -/
def RunConfig.Covers (config : RunConfig) (l : Location) : Prop :=
  ∃ path ∈ config.input :: config.output.toList, ∃ root,
    Path.location? path = some root ∧ root <+: l

end Renaming
