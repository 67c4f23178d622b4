import Renaming.Proofs.Application.Units
import Renaming.Proofs.Octets
import Renaming.Proofs.Splice

/-!
# Application in place and into another store

The two targets differ in which units become jobs and in what is written for a unit that did not
change or failed. Run side by side on one store in memory, they agree after every unit: on the log,
on the errors, and on the content of each unit visited so far.
-/

namespace Renaming

section Reading

variable {store : MemoryStore} {unit : String} {content : Bytes} {options : ApplyOptions}

/-- A source unit with a text is a job of either target. -/
theorem readJob_of_text (target : ApplyTarget) (hsource : options.isSource unit = true)
    (hget : store.units.get? unit = some content) {text : String}
    (htext : content.text? = some text) :
    readJob store target options unit = ([], some ⟨unit, .text text⟩) := by
  simp only [readJob, hsource, if_true, MemoryStore.readText_of_get? hget htext]

/-- Any other unit is carried over into another store, and left alone in place. -/
theorem readJob_of_raw (hraw : options.isSource unit = false ∨ content.text? = none)
    (hget : store.units.get? unit = some content) :
    ∃ errors, readJob store .separate options unit = (errors, some ⟨unit, .raw content⟩) ∧
      readJob store .inPlace options unit = (errors, none) := by
  unfold readJob
  rw [MemoryStore.readBytes_of_get? hget]
  cases hsource : options.isSource unit with
  | false => exact ⟨[], rfl, rfl⟩
  | true =>
    have htext : content.text? = none := hraw.resolve_left (by simp [hsource])
    rw [MemoryStore.readText_of_not_text hget htext]
    exact ⟨[.read unit (.notText unit)], rfl, rfl⟩

theorem readJob_cases (options : ApplyOptions) (hget : store.units.get? unit = some content) :
    (∃ text, content.text? = some text ∧
        ∀ target, readJob store target options unit = ([], some ⟨unit, .text text⟩)) ∨
      ∃ errors, readJob store .separate options unit = (errors, some ⟨unit, .raw content⟩) ∧
        readJob store .inPlace options unit = (errors, none) := by
  cases hsource : options.isSource unit with
  | false => exact .inr (readJob_of_raw (.inl hsource) hget)
  | true =>
    cases htext : content.text? with
    | none => exact .inr (readJob_of_raw (.inr htext) hget)
    | some text =>
      exact .inl ⟨text, rfl, fun target => readJob_of_text target hsource hget htext⟩

theorem readJob_errors_eq (hget : store.units.get? unit = some content) :
    (readJob store .separate options unit).1 = (readJob store .inPlace options unit).1 := by
  obtain ⟨text, -, hread⟩ | ⟨errors, hseparate, hinPlace⟩ := readJob_cases options hget
  · rw [hread, hread]
  · rw [hseparate, hinPlace]

end Reading

/-- Two runs, one into another store and one in place, after the units of `done`. -/
structure RunsAgree (store : MemoryStore) (done : List String)
    (separate inPlace : ApplyReport × MemoryStore) : Prop where
  log : separate.1.log = inPlace.1.log
  errors : separate.1.errors = inPlace.1.errors
  visited : ∀ unit ∈ done, separate.2.units.get? unit = inPlace.2.units.get? unit
  absent : ∀ unit, unit ∉ done → separate.2.units.get? unit = none
  untouched : ∀ unit, unit ∉ done → inPlace.2.units.get? unit = store.units.get? unit

namespace RunsAgree

variable {store : MemoryStore} {done : List String}
  {r r' : ApplyReport} {separate inPlace : MemoryStore} {unit : String} {content : Bytes}

/-- The same content is written in both runs. -/
theorem write (h : RunsAgree store done (r, separate) (r', inPlace)) (unit : String)
    (content : Bytes) :
    RunsAgree store (unit :: done) (r, separate.put unit content)
      (r', inPlace.put unit content) where
  log := h.log
  errors := h.errors
  visited other hother := by
    by_cases hu : other = unit
    · subst hu
      simp
    · have hdone : other ∈ done := (List.mem_cons.1 hother).resolve_left hu
      simpa [MemoryStore.get?_put_of_ne _ _ hu] using h.visited other hdone
  absent other hother := by
    obtain ⟨hu, hdone⟩ := List.ne_and_not_mem_of_not_mem_cons hother
    simpa [MemoryStore.get?_put_of_ne _ _ hu] using h.absent other hdone
  untouched other hother := by
    obtain ⟨hu, hdone⟩ := List.ne_and_not_mem_of_not_mem_cons hother
    simpa [MemoryStore.get?_put_of_ne _ _ hu] using h.untouched other hdone

/-- The content that a unit has is carried over, and the unit is left alone in place. -/
theorem carry (h : RunsAgree store done (r, separate) (r', inPlace)) (hnew : unit ∉ done)
    (hget : store.units.get? unit = some content) :
    RunsAgree store (unit :: done) (r, separate.put unit content) (r', inPlace) where
  log := h.log
  errors := h.errors
  visited other hother := by
    by_cases hu : other = unit
    · subst hu
      simp [h.untouched other hnew, hget]
    · have hdone : other ∈ done := (List.mem_cons.1 hother).resolve_left hu
      simpa [MemoryStore.get?_put_of_ne _ _ hu] using h.visited other hdone
  absent other hother := by
    obtain ⟨hu, hdone⟩ := List.ne_and_not_mem_of_not_mem_cons hother
    simpa [MemoryStore.get?_put_of_ne _ _ hu] using h.absent other hdone
  untouched other hother := h.untouched other (List.ne_and_not_mem_of_not_mem_cons hother).2

theorem of_reports {separate' inPlace' : ApplyReport}
    (h : RunsAgree store done (r, separate) (r', inPlace)) (hlog : separate'.log = inPlace'.log)
    (herrors : separate'.errors = inPlace'.errors) :
    RunsAgree store done (separate', separate) (inPlace', inPlace) :=
  ⟨hlog, herrors, h.visited, h.absent, h.untouched⟩

end RunsAgree

section Steps

variable {store : MemoryStore} {done : List String} {r r' : ApplyReport}
  {separate inPlace : MemoryStore} {unit : String} {content : Bytes} (map : RangeMap)
  (table : RenameTable) (options : ApplyOptions)

/-- A unit that is no text to be changed is carried over as it is. -/
theorem RunsAgree.step_raw (h : RunsAgree store done (r, separate) (r', inPlace))
    (hnew : unit ∉ done) (hvalid : UnitId.isValid unit = true)
    (hget : store.units.get? unit = some content) :
    RunsAgree store (unit :: done)
      (runJob .separate map table options (r, separate) ⟨unit, .raw content⟩)
      (r', inPlace) := by
  have hplan : r.plan .separate map table options ⟨unit, .raw content⟩ =
      ({ r with copied := r.copied + 1 }, some content) := rfl
  rw [runJob_of_plan_some separate hplan hvalid]
  exact (h.carry hnew hget).of_reports h.log h.errors

/-- A text that reaches beyond its end fails in both runs, and stays as it is. -/
theorem RunsAgree.step_failed (h : RunsAgree store done (r, separate) (r', inPlace))
    (hnew : unit ∉ done) (hvalid : UnitId.isValid unit = true) {text : String} {span : Span}
    (hget : store.units.get? unit = some (Bytes.ofText text))
    (hsplice : spliceUnit table unit text (map.occurrences unit) = .error span) :
    RunsAgree store (unit :: done)
      (runJob .separate map table options (r, separate) ⟨unit, .text text⟩)
      (runJob .inPlace map table options (r', inPlace) ⟨unit, .text text⟩) := by
  let error := ApplyError.spanOutOfBounds unit span text.toList.length
  have hseparate : r.plan .separate map table options ⟨unit, .text text⟩ =
      (r.addError error, some (Bytes.ofText text)) := by
    simp [ApplyReport.plan, hsplice, error]
  have hinPlace : r'.plan .inPlace map table options ⟨unit, .text text⟩ =
      (r'.addError error, none) := by
    simp [ApplyReport.plan, hsplice, error]
  rw [runJob_of_plan_some separate hseparate hvalid, runJob_of_plan_none inPlace hinPlace]
  have herrors : r.errors ++ [error] = r'.errors ++ [error] := congrArg (· ++ [error]) h.errors
  exact (h.carry hnew hget).of_reports h.log herrors

/-- A text that splices is written in both runs, unless it did not change and is left in place. -/
theorem RunsAgree.step_spliced (h : RunsAgree store done (r, separate) (r', inPlace))
    (hnew : unit ∉ done) (hvalid : UnitId.isValid unit = true) {text : String}
    {spliced : SplicedUnit} (hget : store.units.get? unit = some (Bytes.ofText text))
    (hsplice : spliceUnit table unit text (map.occurrences unit) = .ok spliced) :
    RunsAgree store (unit :: done)
      (runJob .separate map table options (r, separate) ⟨unit, .text text⟩)
      (runJob .inPlace map table options (r', inPlace) ⟨unit, .text text⟩) := by
  have hlog : r.log ++ spliced.entries = r'.log ++ spliced.entries :=
    congrArg (· ++ spliced.entries) h.log
  have hseparate : r.plan .separate map table options ⟨unit, .text text⟩ =
      ({ r with log := r.log ++ spliced.entries }, some (Bytes.ofText spliced.output)) := by
    simp [ApplyReport.plan, hsplice]
  rw [runJob_of_plan_some separate hseparate hvalid]
  by_cases hkeep : spliced.changed = false ∧ options.overwriteUnmapped = false
  · have hinPlace : r'.plan .inPlace map table options ⟨unit, .text text⟩ =
        ({ r' with log := r'.log ++ spliced.entries, unchanged := r'.unchanged + 1 }, none) := by
      simp [ApplyReport.plan, hsplice, hkeep]
    rw [runJob_of_plan_none inPlace hinPlace, spliceUnit_output_of_not_changed hsplice hkeep.1]
    exact (h.carry hnew hget).of_reports hlog h.errors
  · have hinPlace : r'.plan .inPlace map table options ⟨unit, .text text⟩ =
        ({ r' with log := r'.log ++ spliced.entries }, some (Bytes.ofText spliced.output)) := by
      simp [ApplyReport.plan, hsplice, hkeep]
    rw [runJob_of_plan_some inPlace hinPlace hvalid]
    exact (h.write unit (Bytes.ofText spliced.output)).of_reports hlog h.errors

theorem RunsAgree.step {s s' : ApplyReport × MemoryStore} (h : RunsAgree store done s s')
    (hnew : unit ∉ done) (hvalid : UnitId.isValid unit = true)
    (hget : store.units.get? unit = some content) :
    RunsAgree store (unit :: done) (runUnit .separate store map table options s unit)
      (runUnit .inPlace store map table options s' unit) := by
  obtain ⟨r, output⟩ := s
  obtain ⟨r', output'⟩ := s'
  unfold runUnit
  obtain ⟨text, htext, hread⟩ | ⟨errors, hseparate, hinPlace⟩ := readJob_cases options hget
  · rw [hread, hread]
    rw [← Bytes.ofText_of_text? htext] at hget
    cases hsplice : spliceUnit table unit text (map.occurrences unit) with
    | error span => exact h.step_failed map table options hnew hvalid hget hsplice
    | ok spliced => exact h.step_spliced map table options hnew hvalid hget hsplice
  · rw [hseparate, hinPlace]
    exact h.step_raw map table options hnew hvalid hget

/-- Two runs over units that are all in the store and were not visited before. -/
theorem RunsAgree.foldl (units : List String) (hnodup : units.Nodup)
    (hvalid : ∀ unit ∈ units, UnitId.isValid unit = true)
    (hget : ∀ unit ∈ units, ∃ content, store.units.get? unit = some content)
    {s s' : ApplyReport × MemoryStore} (h : RunsAgree store done s s')
    (hnew : ∀ unit ∈ units, unit ∉ done) :
    RunsAgree store (units.reverse ++ done)
      (units.foldl (runUnit .separate store map table options) s)
      (units.foldl (runUnit .inPlace store map table options) s') := by
  induction units generalizing done s s' with
  | nil => exact h
  | cons unit rest ih =>
    obtain ⟨hunit, hrest⟩ := List.nodup_cons.1 hnodup
    obtain ⟨content, hcontent⟩ := hget unit (by simp)
    have hstep := h.step map table options (hnew unit (by simp)) (hvalid unit (by simp)) hcontent
    rw [List.reverse_cons, List.append_assoc]
    refine ih hrest (fun u hu => hvalid u (by simp [hu])) (fun u hu => hget u (by simp [hu]))
      hstep ?_
    intro u hu hmem
    rcases List.mem_cons.1 hmem with rfl | hmem
    · exact hunit hu
    · exact hnew u (by simp [hu]) hmem

end Steps

/-- Applying a table in place leaves a store in memory as applying it into an empty store fills
that one, with the same log and the same errors. -/
theorem applyTable_separate_agrees_inPlace (store : MemoryStore) (hopen : store.closed = false)
    (hids : ∀ unit ∈ store.units.keys, UnitId.isValid unit = true) (map : RangeMap)
    (table : RenameTable) (options : ApplyOptions) :
    ∃ separate inPlace : ApplyReport × MemoryStore,
      applyTable .separate store ({} : MemoryStore) map table options = .ok separate ∧
      applyInPlace store map table options = .ok inPlace ∧
      separate.2.units = inPlace.2.units ∧ separate.1.log = inPlace.1.log ∧
      separate.1.errors = inPlace.1.errors := by
  have henum := MemoryStore.enumerate_of_open hopen
  have hget : ∀ unit ∈ store.units.keys, ∃ content, store.units.get? unit = some content :=
    fun unit hunit => SortedMap.mem_keys_iff.1 hunit
  let reads (target : ApplyTarget) : ApplyReport :=
    { errors := missingUnits map store.units.keys ++
      (store.units.keys.map (readJob store target options)).flatMap Prod.fst }
  have hreads : reads .separate = reads .inPlace := by
    have hmap : (store.units.keys.map (readJob store .separate options)).map Prod.fst =
        (store.units.keys.map (readJob store .inPlace options)).map Prod.fst := by
      rw [List.map_map, List.map_map]
      apply List.map_congr_left
      intro unit hunit
      obtain ⟨content, hcontent⟩ := hget unit hunit
      exact readJob_errors_eq hcontent
    simp only [reads, List.flatMap_def, hmap]
  have hstart : RunsAgree store [] (reads .separate, {}) (reads .inPlace, store) :=
    ⟨by rw [hreads], by rw [hreads], by simp, fun _ _ => rfl, fun _ _ => rfl⟩
  have hrun := RunsAgree.foldl map table options store.units.keys store.units.nodup_keys hids hget
    hstart (by simp)
  refine ⟨_, _, applyTable_eq_foldl henum .separate _ map table options,
    applyTable_eq_foldl henum .inPlace store map table options, ?_, hrun.log, hrun.errors⟩
  apply SortedMap.ext_get?
  intro unit
  by_cases hunit : unit ∈ store.units.keys
  · exact hrun.visited unit (by simpa using hunit)
  · rw [hrun.absent unit (by simpa using hunit), hrun.untouched unit (by simpa using hunit),
      SortedMap.get?_eq_none_iff.2 hunit]

/-- A source with a text, one without, and a unit that is no source. -/
def mixedStore : MemoryStore where
  units := .ofList [("a/A.java", Bytes.ofText "class A {}"), ("a/B.java", [255]),
    ("a/notes.txt", [254])]

/-- An occurrence in a unit of the store, one beyond the end of its unit, and a unit that is not in
the store. -/
def mixedMap : RangeMap where
  units := .ofList [("a/A.java", [⟨⟨6, 7⟩, "A", .type, []⟩, ⟨⟨9, 99⟩, "A", .type, []⟩]),
    ("gone/C.java", [])]

def mixedTable : RenameTable := RenameTable.empty.insert (.symbol "A" "Z")

theorem applyTable_separate_agrees_inPlace_mixed :
    ∃ separate inPlace : ApplyReport × MemoryStore,
      applyTable .separate mixedStore ({} : MemoryStore) mixedMap mixedTable {} = .ok separate ∧
      applyInPlace mixedStore mixedMap mixedTable {} = .ok inPlace ∧
      separate.2.units = inPlace.2.units ∧ separate.1.log = inPlace.1.log ∧
      separate.1.errors = inPlace.1.errors :=
  applyTable_separate_agrees_inPlace mixedStore rfl (by decide +kernel) mixedMap mixedTable {}

end Renaming
