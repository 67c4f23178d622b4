import Renaming.Run

/-!
# Steps of a run

What a step of a run ensures: how it leaves the files and the summary when it ends well, and how when
it fails. Steps one after the other ensure what the last one does, and fail as one of them fails.
-/

namespace Renaming.Run

variable {α β : Type}

/-- From a state with `Pre`, the run ends well in one with `Post` or fails in one with `Failed`. -/
def Ensures (Pre : RunState → Prop) (run : Run α) (Post : α → RunState → Prop)
    (Failed : RunError → RunState → Prop) : Prop :=
  ∀ s, Pre s →
    match (ExceptT.run run).run s with
    | (.ok a, s') => Post a s'
    | (.error e, s') => Failed e s'

namespace Ensures

variable {Pre : RunState → Prop} {run : Run α} {Post : α → RunState → Prop}
  {Failed : RunError → RunState → Prop}

theorem pure {a : α} (h : ∀ s, Pre s → Post a s) : Ensures Pre (Pure.pure a) Post Failed := h

theorem throw {e : RunError} (h : ∀ s, Pre s → Failed e s) :
    Ensures Pre (MonadExcept.throw e : Run α) Post Failed := h

theorem bind {next : α → Run β} {Then : β → RunState → Prop} (h : Ensures Pre run Post Failed)
    (hnext : ∀ a, Ensures (Post a) (next a) Then Failed) :
    Ensures Pre (run >>= next) Then Failed := by
  intro s hs
  have hfirst := h s hs
  rw [ExceptT.run_bind, StateT.run_bind]
  rcases hrun : (ExceptT.run run).run s with ⟨result, s'⟩
  rw [hrun] at hfirst
  cases result with
  | error e => exact hfirst
  | ok a => exact hnext a s' hfirst

theorem mono {Post' : α → RunState → Prop} {Failed' : RunError → RunState → Prop}
    (h : Ensures Pre run Post Failed) (hpost : ∀ a s, Post a s → Post' a s)
    (hfailed : ∀ e s, Failed e s → Failed' e s) : Ensures Pre run Post' Failed' := by
  intro s hs
  have hrun := h s hs
  split at hrun
  · exact hpost _ _ hrun
  · exact hfailed _ _ hrun

end Ensures

/-- The run keeps an invariant, whatever comes of it. -/
def Keeps (Inv : RunState → Prop) (run : Run α) : Prop :=
  Ensures Inv run (fun _ => Inv) fun _ => Inv

namespace Keeps

variable {Inv : RunState → Prop} {run : Run α}

theorem pure (a : α) : Keeps Inv (Pure.pure a) := fun _ hs => hs

theorem throw (e : RunError) : Keeps Inv (MonadExcept.throw e : Run α) := fun _ hs => hs

theorem bind {next : α → Run β} (h : Keeps Inv run) (hnext : ∀ a, Keeps Inv (next a)) :
    Keeps Inv (run >>= next) := Ensures.bind h hnext

theorem tree : Keeps Inv Run.tree := fun _ hs => hs

theorem setTree {t : FileTree} (h : ∀ s, Inv s → Inv { s with tree := t }) :
    Keeps Inv (Run.setTree t) := h

theorem report {f : RunSummary → RunSummary}
    (h : ∀ s, Inv s → Inv { s with summary := f s.summary }) : Keeps Inv (Run.report f) := h

/-- A step that only looks at the files. -/
theorem lift (result : Except RunError α) : Keeps Inv (liftM result) := by
  cases result with
  | ok a => exact pure a
  | error e => exact throw e

theorem ofStore (result : Except StoreError α) : Keeps Inv (Run.ofStore result) := by
  cases result with
  | ok a => exact pure a
  | error e => exact throw (.store e)

theorem close {o : OpenedStore} (h : ∀ s, Inv s → Inv { s with tree := o.close.2.tree }) :
    Keeps Inv (Run.close o) := by
  apply (Keeps.setTree h).bind
  intro _
  exact Keeps.ofStore _

end Keeps

end Renaming.Run
