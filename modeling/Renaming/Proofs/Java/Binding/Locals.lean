import Renaming.Java.Binding.State
import Renaming.Proofs.Java.Shape
import Renaming.Proofs.Signature

/-!
# Numbers of local variables

A walk numbers the local variables of one name in one method as it comes to them. Where a local is
found for the first time, it is declared; the locals that are found have the numbers that they are
declared under, and all locals in scope have been found.
-/

namespace Renaming.Java

/-! ## First occurrences -/

/-- The occurrences at which locals are found for the first time. The last ones come first. -/
def firstLocals : List Occurrence → List Occurrence
  | [] => []
  | o :: earlier =>
    if o.kind = .localVariable ∧ o.signature ∉ (firstLocals earlier).map Occurrence.signature then
      o :: firstLocals earlier
    else firstLocals earlier

theorem firstLocals_of_kind {o : Occurrence} (h : o.kind ≠ .localVariable)
    (earlier : List Occurrence) : firstLocals (o :: earlier) = firstLocals earlier := by
  rw [firstLocals, if_neg (by simp [h])]

theorem firstLocals_of_mem {o : Occurrence} {earlier : List Occurrence}
    (h : o.signature ∈ (firstLocals earlier).map Occurrence.signature) :
    firstLocals (o :: earlier) = firstLocals earlier := by
  rw [firstLocals, if_neg (fun ho => ho.2 h)]

/-! ## Numbers -/

/-- The signatures of locals that are declared with the given methods and names. The last ones come
first. -/
def numberedLocals : List (Signature × String) → List Signature
  | [] => []
  | e :: earlier => .ofLocal e.1 e.2 (earlier.count e) :: numberedLocals earlier

section Numbered

variable {locals : List (Signature × String)}

theorem mem_numberedLocals {s : Signature} (h : s ∈ numberedLocals locals) :
    ∃ e ∈ locals, ∃ k < locals.count e, s = .ofLocal e.1 e.2 k := by
  induction locals with
  | nil => cases h
  | cons e earlier ih =>
    rcases List.mem_cons.1 h with rfl | h
    · exact ⟨e, List.mem_cons_self, earlier.count e, by simp, rfl⟩
    · obtain ⟨e', he', k, hk, rfl⟩ := ih h
      refine ⟨e', List.mem_cons_of_mem e he', k, ?_, rfl⟩
      exact Nat.lt_of_lt_of_le hk (List.count_le_count_cons)

variable (hplain : ∀ e ∈ locals, '@' ∉ e.2.toList)

include hplain

/-- The next number of a local has not been given to another one. -/
theorem next_notMem_numberedLocals {method : Signature} {name : String}
    (hname : '@' ∉ name.toList) :
    .ofLocal method name (locals.count (method, name)) ∉ numberedLocals locals := by
  intro hmem
  obtain ⟨e, he, k, hk, heq⟩ := mem_numberedLocals hmem
  obtain ⟨rfl, rfl, rfl⟩ := Signature.ofLocal_inj hname (hplain e he) heq
  exact absurd hk (Nat.lt_irrefl _)

/-- The locals of one name in one method are numbered one after the other. -/
theorem filter_numberedLocals (method : Signature) (name : String) :
    (numberedLocals locals).filter (·.splitLocal == some (method, name)) =
      ((List.range (locals.count (method, name))).map (.ofLocal method name)).reverse := by
  induction locals with
  | nil => rfl
  | cons e earlier ih =>
    obtain ⟨he, hearlier⟩ := List.forall_mem_cons.1 hplain
    rw [numberedLocals, List.filter_cons, Signature.splitLocal_ofLocal he, ih hearlier]
    by_cases heq : e = (method, name)
    · subst heq
      simp [List.range_succ]
    · rw [if_neg (by simpa [Prod.ext_iff] using heq), List.count_cons_of_ne heq]

end Numbered

/-! ## States -/

def VariableFrame.variables : VariableFrame → List Variable
  | .block declared => declared
  | .classBody _ => []

/-- What holds of a variable and of all that are in scope holds of those in scope with it. -/
theorem forall_addVariable {P : Variable → Prop} {v : Variable} (hv : P v)
    {frames : List VariableFrame} (h : ∀ frame ∈ frames, ∀ v ∈ frame.variables, P v) :
    ∀ frame ∈ Binding.addVariable v frames, ∀ v ∈ frame.variables, P v := by
  induction frames with
  | nil => exact h
  | cons first rest ih =>
    obtain ⟨hfirst, hrest⟩ := List.forall_mem_cons.1 h
    cases first with
    | block declared =>
      exact List.forall_mem_cons.2 ⟨List.forall_mem_cons.2 ⟨hv, hfirst⟩, hrest⟩
    | classBody binary => exact List.forall_mem_cons.2 ⟨nofun, ih hrest⟩

namespace BindingState

/-- The locals that have been found, the last one first. -/
def foundLocals (s : BindingState) : List Signature :=
  (firstLocals s.occurrences).map Occurrence.signature

/-- A variable whose uses name nothing that has not been found. -/
def Knows (s : BindingState) (v : Variable) : Prop :=
  v.kind = .localVariable → ∀ signature ∈ v.signature, signature ∈ s.foundLocals

/-- A walk in which the locals that are declared have been found, and those in scope are among
them. -/
structure Numbered (s : BindingState) : Prop where
  plain : ∀ e ∈ s.locals, '@' ∉ e.2.toList
  found : s.foundLocals = numberedLocals s.locals
  inScope : ∀ frame ∈ s.frames, ∀ v ∈ frame.variables, s.Knows v

namespace Numbered

variable {s : BindingState}

theorem of_eq {s' : BindingState} (h : s.Numbered) (hlocals : s'.locals = s.locals)
    (hoccurrences : s'.occurrences = s.occurrences) (hframes : s'.frames = s.frames) :
    s'.Numbered := by
  obtain ⟨hplain, hfound, hscope⟩ := h
  simp only [Knows, foundLocals, ← hlocals, ← hoccurrences, ← hframes] at hplain hfound hscope
  exact ⟨hplain, hfound, hscope⟩

/-- What is found again, or is no local, leaves the locals as they are. -/
theorem find (h : s.Numbered) {o : Occurrence}
    (hsame : firstLocals (o :: s.occurrences) = firstLocals s.occurrences) :
    Numbered { s with occurrences := o :: s.occurrences } := by
  have hfound : foundLocals { s with occurrences := o :: s.occurrences } = s.foundLocals :=
    congrArg (List.map Occurrence.signature) hsame
  refine ⟨h.plain, hfound.trans h.found, ?_⟩
  intro frame hframe v hv hkind signature hsignature
  rw [hfound]
  exact h.inScope frame hframe v hv hkind signature hsignature

theorem enter (h : s.Numbered) {frame : VariableFrame} (hframe : frame.variables = []) :
    Numbered { s with frames := frame :: s.frames } := by
  refine ⟨h.plain, h.found, List.forall_mem_cons.2 ⟨?_, h.inScope⟩⟩
  rw [hframe]
  exact nofun

theorem leave (h : s.Numbered) : Numbered { s with frames := s.frames.tail } :=
  ⟨h.plain, h.found, fun frame hframe => h.inScope frame (List.mem_of_mem_tail hframe)⟩

theorem bind (h : s.Numbered) {v : Variable} (hv : s.Knows v) :
    Numbered { s with frames := Binding.addVariable v s.frames } :=
  ⟨h.plain, h.found, forall_addVariable hv h.inScope⟩

/-- A local is found where it is declared, with the next number. -/
theorem declare (h : s.Numbered) (method : Signature) {name : String}
    (hname : '@' ∉ name.toList) (span : Span) (fallbacks : List Signature) :
    let o : Occurrence :=
      ⟨span, .ofLocal method name (s.locals.count (method, name)), .localVariable, fallbacks⟩
    let s' := { s with
      locals := (method, name) :: s.locals
      occurrences := o :: s.occurrences }
    s'.Numbered ∧ firstLocals s'.occurrences = o :: firstLocals s.occurrences := by
  intro o s'
  have hnew : o.signature ∉ s.foundLocals := by
    rw [h.found]
    exact next_notMem_numberedLocals h.plain hname
  have hfirst : firstLocals s'.occurrences = o :: firstLocals s.occurrences := by
    change firstLocals (_ :: _) = _
    rw [firstLocals, if_pos ⟨rfl, hnew⟩]
  have hfound : s'.foundLocals = o.signature :: s.foundLocals := by
    rw [foundLocals, hfirst, List.map_cons]
    rfl
  refine ⟨⟨List.forall_mem_cons.2 ⟨hname, h.plain⟩, ?_, ?_⟩, hfirst⟩
  · rw [hfound, h.found]
    rfl
  · intro frame hframe v hv hkind t ht
    rw [hfound]
    exact List.mem_cons_of_mem _ (h.inScope frame hframe v hv hkind t ht)

end Numbered

end BindingState

end Renaming.Java
