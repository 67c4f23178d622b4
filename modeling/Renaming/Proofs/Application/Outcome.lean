import Mathlib.Data.List.Nodup
import Renaming.Proofs.Application.Units
import Renaming.Proofs.Octets
import Renaming.Proofs.Splice

/-!
# What becomes of a unit

What a run says of a unit and what it sends to the output for it depend on that unit alone. The
output only decides whether it takes what is sent. A run is therefore known unit by unit, up to the
answers of the output.
-/

namespace Renaming

/-! ## Stores that keep what they take -/

/-- What a store holds, where writing to it changes nothing but the unit that is written, and a
write that is refused changes nothing at all. -/
structure StoreView (σ : Type) [SourceStore σ] where
  held : σ → String → Option Bytes
  held_of_taken {s s' : σ} {unit : String} {content : Bytes}
    (h : SourceStore.writeBytes s unit content = (.ok (), s')) (other : String) :
    held s' other = if other = unit then some content else held s other
  held_of_refused {s s' : σ} {unit : String} {content : Bytes} {e : StoreError}
    (h : SourceStore.writeBytes s unit content = (.error e, s')) (other : String) :
    held s' other = held s other

def MemoryStore.view : StoreView MemoryStore where
  held s unit := s.units.get? unit
  held_of_taken {s s' unit content} h other := by
    change s.writeBytes unit content = _ at h
    unfold MemoryStore.writeBytes at h
    split at h
    · cases h
      simpa using SortedMap.get?_insert s.units unit other content
    · cases h
  held_of_refused {s s' unit content e} h other := by
    change s.writeBytes unit content = _ at h
    unfold MemoryStore.writeBytes at h
    split at h
    · cases h
    · cases h
      rfl

/-- A restricted store holds what the store below it holds. -/
def RestrictedStore.view {σ : Type} [SourceStore σ] (below : StoreView σ) :
    StoreView (RestrictedStore σ) where
  held s unit := below.held s.store unit
  held_of_taken {s s' unit content} h other := by
    simp only [SourceStore.writeBytes] at h
    split at h
    · cases h
    · rcases hbelow : SourceStore.writeBytes s.store unit content with ⟨result, store⟩
      rw [hbelow] at h
      cases h
      exact below.held_of_taken hbelow other
  held_of_refused {s s' unit content e} h other := by
    simp only [SourceStore.writeBytes] at h
    split at h
    · cases h
      rfl
    · rcases hbelow : SourceStore.writeBytes s.store unit content with ⟨result, store⟩
      rw [hbelow] at h
      cases h
      exact below.held_of_refused hbelow other

/-! ## Reports put together -/

namespace ApplyReport

instance : Append ApplyReport where
  append r s :=
    ⟨r.log ++ s.log, r.written ++ s.written, r.unchanged + s.unchanged, r.copied + s.copied,
      r.errors ++ s.errors⟩

def join (reports : List ApplyReport) : ApplyReport where
  log := reports.flatMap log
  written := reports.flatMap written
  unchanged := (reports.map unchanged).foldr (· + ·) 0
  copied := (reports.map copied).foldr (· + ·) 0
  errors := reports.flatMap errors

variable (r s t : ApplyReport)

@[simp] theorem log_append : (r ++ s).log = r.log ++ s.log := rfl

@[simp] theorem written_append : (r ++ s).written = r.written ++ s.written := rfl

@[simp] theorem unchanged_append : (r ++ s).unchanged = r.unchanged + s.unchanged := rfl

@[simp] theorem copied_append : (r ++ s).copied = r.copied + s.copied := rfl

@[simp] theorem errors_append : (r ++ s).errors = r.errors ++ s.errors := rfl

attribute [ext] ApplyReport

theorem append_empty : r ++ ({} : ApplyReport) = r := by
  ext1 <;> simp

theorem append_assoc : r ++ s ++ t = r ++ (s ++ t) := by
  ext1 <;> simp [Nat.add_assoc]

theorem join_cons (reports : List ApplyReport) : join (r :: reports) = r ++ join reports := by
  ext1 <;> simp [join]

/-- A plan adds to the report that it starts from. -/
theorem plan_eq_append (target : ApplyTarget) (map : RangeMap) (table : RenameTable)
    (options : ApplyOptions) (job : Job) :
    r.plan target map table options job =
      (r ++ (({} : ApplyReport).plan target map table options job).1,
        (({} : ApplyReport).plan target map table options job).2) := by
  unfold plan
  cases job.content with
  | raw content => exact Prod.ext (by ext1 <;> simp) rfl
  | text text =>
    dsimp only
    cases spliceUnit table job.unit text (map.occurrences job.unit) with
    | error span => exact Prod.ext (by ext1 <;> simp [addError]) rfl
    | ok spliced =>
      dsimp only
      split
      · exact Prod.ext (by ext1 <;> simp) rfl
      · exact Prod.ext (by ext1 <;> simp) rfl

end ApplyReport

/-! ## One unit -/

variable {ι ο : Type} [SourceStore ι] [SourceStore ο]

/-- What is noted of a unit before anything is written, and what is sent to the output for it. -/
def unitPlan (target : ApplyTarget) (input : ι) (map : RangeMap) (table : RenameTable)
    (options : ApplyOptions) (unit : String) : ApplyReport × Option Bytes :=
  match (readJob input target options unit).2 with
  | none => ({}, none)
  | some job => ({} : ApplyReport).plan target map table options job

/-- What is reported of a unit that was sent to the output. -/
def answerReport (unit : String) : Except StoreError Unit → ApplyReport
  | .ok () => { written := [unit] }
  | .error e => { errors := [.write unit e] }

/-- What is noted of a unit, and the answer of the output if anything was sent to it. -/
def ApplyReport.settle (noted : ApplyReport) (unit : String) (answer : Except StoreError Unit) :
    Option Bytes → ApplyReport
  | none => noted
  | some _ => noted ++ answerReport unit answer

/-- What is reported of a unit after it was read, given what the output answers if it is sent. -/
def unitReport (target : ApplyTarget) (input : ι) (map : RangeMap) (table : RenameTable)
    (options : ApplyOptions) (answer : Except StoreError Unit) (unit : String) : ApplyReport :=
  let plan := unitPlan target input map table options unit
  plan.1.settle unit answer plan.2

variable (target : ApplyTarget) (input : ι) (map : RangeMap) (table : RenameTable)
  (options : ApplyOptions)

/-- One unit adds its own report to that of the run, and touches no other unit of the output. -/
theorem runUnit_eq_append (state : ApplyReport × ο) (unit : String) :
    ∃ answer, (runUnit target input map table options state unit).1 =
        state.1 ++ unitReport target input map table options answer unit ∧
      ∀ view : StoreView ο,
        (∀ content, (unitPlan target input map table options unit).2 = some content →
          answer = .ok () →
            view.held (runUnit target input map table options state unit).2 unit = some content) ∧
        ∀ other, other ≠ unit →
          view.held (runUnit target input map table options state unit).2 other =
            view.held state.2 other := by
  obtain ⟨r, output⟩ := state
  unfold unitReport runUnit unitPlan
  cases hjob : (readJob input target options unit).2 with
  | none => exact ⟨.ok (), r.append_empty.symm, fun view => ⟨by simp, fun _ _ => rfl⟩⟩
  | some job =>
    obtain ⟨rfl, -⟩ := readJob_eq_some hjob
    rcases hplan : ({} : ApplyReport).plan target map table options job with ⟨noted, _ | content⟩
    · refine ⟨.ok (), ?_, fun view => ⟨by simp [hplan], fun other _ => ?_⟩⟩
      · simp only [runJob, r.plan_eq_append, hplan, ApplyReport.settle]
      · simp only [runJob, r.plan_eq_append, hplan]
    · rcases hwrite : SourceStore.writeBytes output job.unit content with ⟨answer, output'⟩
      refine ⟨answer, ?_, fun view => ?_⟩
      · cases answer with
        | ok =>
          simp only [runJob, r.plan_eq_append, hplan, hwrite, ApplyReport.settle, answerReport]
          ext1 <;> simp
        | error e =>
          simp only [runJob, r.plan_eq_append, hplan, hwrite, ApplyReport.settle, answerReport]
          ext1 <;> simp [ApplyReport.addError]
      · cases answer with
        | ok =>
          simp only [runJob, r.plan_eq_append, hplan, hwrite]
          refine ⟨?_, fun other hother => ?_⟩
          · rintro _ ⟨rfl⟩ -
            rw [view.held_of_taken hwrite, if_pos rfl]
          · rw [view.held_of_taken hwrite, if_neg hother]
        | error e =>
          simp only [runJob, r.plan_eq_append, hplan, hwrite]
          exact ⟨by simp, fun other _ => view.held_of_refused hwrite other⟩

/-! ## All units of a run -/

/-- A run reports of each unit what that unit brings about, and every unit that the output takes
is held by it as it was sent. -/
theorem foldl_runUnit_eq_append {units : List String} (hnodup : units.Nodup)
    (state : ApplyReport × ο) :
    ∃ answers : String → Except StoreError Unit,
      (units.foldl (runUnit target input map table options) state).1 = state.1 ++
        .join (units.map fun unit =>
          unitReport target input map table options (answers unit) unit) ∧
      ∀ view : StoreView ο,
        (∀ unit ∈ units, ∀ content,
          (unitPlan target input map table options unit).2 = some content →
            answers unit = .ok () →
              view.held (units.foldl (runUnit target input map table options) state).2 unit =
                some content) ∧
        ∀ other, other ∉ units →
          view.held (units.foldl (runUnit target input map table options) state).2 other =
            view.held state.2 other := by
  induction units generalizing state with
  | nil =>
    exact ⟨fun _ => .ok (), state.1.append_empty.symm, fun view => ⟨by simp, fun _ _ => rfl⟩⟩
  | cons unit rest ih =>
    obtain ⟨hunit, hrest⟩ := List.nodup_cons.1 hnodup
    obtain ⟨answer, hfirst, hheld⟩ :=
      runUnit_eq_append target input map table options state unit
    obtain ⟨answers, hlater, hheld'⟩ :=
      ih hrest (runUnit target input map table options state unit)
    -- the answers to the later units are not asked for the first one
    have hsame : ∀ other ∈ rest, Function.update answers unit answer other = answers other := by
      intro other hother
      have hne : other ≠ unit := fun heq => hunit (heq ▸ hother)
      exact Function.update_of_ne hne _ _
    refine ⟨Function.update answers unit answer, ?_, fun view => ?_⟩
    · rw [List.foldl_cons, hlater, hfirst, List.map_cons, ApplyReport.join_cons,
        ApplyReport.append_assoc, Function.update_self]
      congr 3
      exact List.map_congr_left fun other hother => by rw [hsame other hother]
    · obtain ⟨hsent, hframe⟩ := hheld view
      obtain ⟨hsent', hframe'⟩ := hheld' view
      rw [List.foldl_cons]
      refine ⟨fun other hother content hplan hanswer => ?_, fun other hother => ?_⟩
      · rcases List.mem_cons.1 hother with rfl | hother
        · rw [Function.update_self] at hanswer
          rw [hframe' other hunit, hsent content hplan hanswer]
        · rw [hsame other hother] at hanswer
          exact hsent' other hother content hplan hanswer
      · obtain ⟨hne, hother⟩ := List.ne_and_not_mem_of_not_mem_cons hother
        rw [hframe' other hother, hframe other hne]

/-! ## The ways of a unit -/

/-- The ways that a unit can take: what is reported when it is read, what is noted of it then, and
what is sent to the output for it. -/
inductive Course (target : ApplyTarget) (input : ι) (map : RangeMap) (table : RenameTable)
    (options : ApplyOptions) (unit : String) :
    List ApplyError → ApplyReport → Option Bytes → Prop where
  | ignored (htarget : target = .inPlace) (hsource : options.isSource unit = false) :
      Course target input map table options unit [] {} none
  /-- In place only texts are looked for, and in another store only contents are needed. -/
  | unread {e : StoreError} (htext : SourceStore.readText input unit = .error e)
      (hneeded : target = .inPlace ∧ options.isSource unit = true ∨
        target = .separate ∧ ∃ e, SourceStore.readBytes input unit = .error e) :
      Course target input map table options unit [.read unit e] {} none
  | carried {content : Bytes} {reads : List ApplyError} (htarget : target = .separate)
      (hcontent : SourceStore.readBytes input unit = .ok content)
      (hraw : options.isSource unit = false ∨ content.text? = none)
      (hreads : ∀ e ∈ reads, ∃ cause, e = .read unit cause) :
      Course target input map table options unit reads { copied := 1 } (some content)
  | failed {text : String} {span : Span} (hsource : options.isSource unit = true)
      (htext : SourceStore.readText input unit = .ok text)
      (hspliced : spliceUnit table unit text (map.occurrences unit) = .error span) :
      Course target input map table options unit []
        { errors := [.spanOutOfBounds unit span text.toList.length] }
        (if target = .inPlace then none else some (Bytes.ofText text))
  | kept {text : String} {spliced : SplicedUnit} (htarget : target = .inPlace)
      (hsource : options.isSource unit = true)
      (htext : SourceStore.readText input unit = .ok text)
      (hspliced : spliceUnit table unit text (map.occurrences unit) = .ok spliced)
      (hsame : spliced.changed = false) (hoverwrite : options.overwriteUnmapped = false) :
      Course target input map table options unit [] { unchanged := 1 } none
  | renamed {text : String} {spliced : SplicedUnit} (hsource : options.isSource unit = true)
      (htext : SourceStore.readText input unit = .ok text)
      (hspliced : spliceUnit table unit text (map.occurrences unit) = .ok spliced)
      (hwanted : target = .inPlace →
        spliced.changed = true ∨ options.overwriteUnmapped = true) :
      Course target input map table options unit [] { log := spliced.entries }
        (some (Bytes.ofText spliced.output))

theorem readBytes_of_readText {unit text : String}
    (h : SourceStore.readText input unit = .ok text) :
    SourceStore.readBytes input unit = .ok (Bytes.ofText text) := by
  unfold SourceStore.readText at h
  split at h
  · cases h
  · rename_i content hcontent
    split at h
    · rename_i htext
      cases h
      rw [hcontent, Bytes.ofText_of_text? htext]
    · cases h

theorem readText_of_readBytes_error {unit : String} {e : StoreError}
    (h : SourceStore.readBytes input unit = .error e) :
    SourceStore.readText input unit = .error e := by
  rw [SourceStore.readText, h]

theorem text?_of_readText_error {unit : String} {content : Bytes} {e : StoreError}
    (hcontent : SourceStore.readBytes input unit = .ok content)
    (htext : SourceStore.readText input unit = .error e) : content.text? = none := by
  rw [SourceStore.readText, hcontent] at htext
  dsimp only at htext
  split at htext
  · cases htext
  · assumption

/-- Every unit takes one of the ways. -/
theorem course (unit : String) :
    Course target input map table options unit (readJob input target options unit).1
      (unitPlan target input map table options unit).1
      (unitPlan target input map table options unit).2 := by
  unfold unitPlan
  cases hsource : options.isSource unit with
  | false =>
    cases target with
    | inPlace =>
      simp only [readJob, hsource]
      exact .ignored rfl hsource
    | separate =>
      cases hcontent : SourceStore.readBytes input unit with
      | ok content =>
        simp only [readJob, hsource, hcontent]
        exact .carried rfl hcontent (.inl hsource) (by simp)
      | error e =>
        simp only [readJob, hsource, hcontent]
        exact .unread (readText_of_readBytes_error input hcontent) (.inr ⟨rfl, e, hcontent⟩)
  | true =>
    cases htext : SourceStore.readText input unit with
    | error e =>
      cases target with
      | inPlace =>
        simp only [readJob, hsource, htext]
        exact .unread htext (.inl ⟨rfl, hsource⟩)
      | separate =>
        cases hcontent : SourceStore.readBytes input unit with
        | ok content =>
          simp only [readJob, hsource, htext, hcontent]
          exact .carried rfl hcontent (.inr (text?_of_readText_error input hcontent htext))
            (by simp)
        | error e' =>
          simp only [readJob, hsource, htext, hcontent]
          exact .unread htext (.inr ⟨rfl, e', hcontent⟩)
    | ok text =>
      simp only [readJob, hsource, htext, if_true]
      cases hspliced : spliceUnit table unit text (map.occurrences unit) with
      | error span =>
        simp only [ApplyReport.plan, hspliced]
        exact .failed hsource htext hspliced
      | ok spliced =>
        simp only [ApplyReport.plan, hspliced]
        split
        · rename_i hkept
          simp only [Bool.and_eq_true, Bool.not_eq_true', decide_eq_true_eq] at hkept
          have hentries : spliced.entries = [] := by
            simpa [SplicedUnit.changed] using hkept.1.1
          rw [hentries]
          exact .kept hkept.1.2 hsource htext hspliced hkept.1.1 hkept.2
        · rename_i hwanted
          refine .renamed hsource htext hspliced fun htarget => ?_
          simpa [htarget, ← Bool.not_eq_true, imp_iff_not_or] using hwanted

end Renaming
