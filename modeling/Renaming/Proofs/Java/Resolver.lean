import Renaming.Java.Resolver
import Renaming.Proofs.Extraction.Overlaps
import Renaming.Proofs.Java.Spelling

/-!
# What the resolver finds

Indexing keeps units and their trees as they were read. Each resolution is therefore that of a unit
that was given. Whatever trees a parser reads, occurrences lie within the text of their unit as the
nodes of its tree do; in whole trees they have the names that are written there.
-/

namespace Renaming

/-- An occurrence within a text: what it covers there is the name that its signature has, if there
is one, and such a name is a single one. -/
structure Occurrence.Stands (o : Occurrence) (text : String) : Prop where
  within : o.span.Within text
  start_le_stop : o.span.start ≤ o.span.stop
  named : ∀ name ∈ o.name?, name = String.ofList (o.span.slice text.toList) ∧ '.' ∉ name.toList

namespace Java

theorem SourceText.slice_ofString (text : String) (span : Span) :
    (ofString text).slice span = String.ofList (span.slice text.toList) := by
  simp [slice, ofString, Span.slice, Span.length, List.extract_eq_take_drop]

/-- A parser that reads sound trees of whole texts, with errors or without. -/
def ReadsWhole (parse : String → Option Node) : Prop :=
  ∀ text root, parse text = some root → root.Whole (.ofString text)

/-- A parser of which no more is known than that the nodes of a tree lie within the text. -/
def ReadsWithin (parse : String → Option Node) : Prop :=
  ∀ text root, parse text = some root → ∀ n, root.Below n → n.span.Within text

theorem readsWhole_ofText? : ReadsWhole Node.ofText? :=
  fun _ _ h => (Node.ofText?_whole h).1

theorem ReadsWhole.within {parse : String → Option Node} (h : ReadsWhole parse) :
    ReadsWithin parse := by
  intro text root hroot n hn
  have hsound := (h text root hroot).sound.of_below hn
  have hstop : n.stop ≤ text.toList.length := hsound.holds.stop_le
  exact ⟨hsound.start_le_stop.trans hstop, hstop⟩

theorem Survey.Finding.named {S : Survey} [S.Covers] (ho : S.orderly) {o : Occurrence}
    (h : S.Finding o) : ∀ name ∈ o.name?, name = S.source.slice o.span ∧ '.' ∉ name.toList := by
  have hagrees := h.agrees ho
  have hfree : ∀ {n : Node}, S.T n → (S.orderly → n.kind.isName = true) →
      '.' ∉ (S.text n).toList :=
    fun hn hkind => notMem_text ho hn (hkind ho) (by decide)
  cases h with
  | type => simp [Occurrence.name?]
  | parameter => simp [Occurrence.name?]
  | field hn hname _ =>
    simp only [Occurrence.name?, Option.mem_def, Option.some.injEq, forall_eq']
    rw [hagrees.1 rfl]
    exact ⟨rfl, hfree hn hname⟩
  | method hn hname _ =>
    simp only [Occurrence.name?, Option.mem_def, Option.some.injEq, forall_eq']
    rw [hagrees.2.1 rfl _ (by simp)]
    exact ⟨rfl, hfree hn hname⟩
  | localVariable hn hname _ =>
    simp only [Occurrence.name?, Option.mem_def, Option.some.injEq, forall_eq']
    rw [hagrees.2.2 rfl]
    exact ⟨rfl, hfree hn hname⟩

namespace Program

/-- What is found in a unit is reported by the walk over its tree. -/
theorem mem_occurrences_resolveUnit {program : Program} {unit : DeclaredUnit} {o : Occurrence}
    (ho : o ∈ (program.resolveUnit unit).occurrences) :
    ∃ root, unit.unit.tree = some root ∧ o ∈ (bindUnit program.index unit root).1 := by
  unfold resolveUnit at ho
  split at ho
  · cases ho
  · rename_i root hroot
    dsimp only at ho
    split at ho
    · exact ⟨root, hroot, ho⟩
    · exact ⟨root, hroot, ho⟩

section Resolved

variable {parse : String → Option Node} {known : TypeIndex} {units : List SourceUnit}
  {unit : DeclaredUnit} {u : SourceUnit} {program : Program} {o : Occurrence}
  (hread : unit.unit = .read parse u.id u.text)
  (ho : o ∈ (program.resolveUnit unit).occurrences)
include hread ho

/-- What is found in a unit lies within its text. -/
theorem within_of_mem_resolveUnit (hparse : ReadsWithin parse) : o.span.Within u.text := by
  obtain ⟨root, hroot, hmem⟩ := mem_occurrences_resolveUnit ho
  have hwithin := hparse u.text root (by rw [← hroot, hread]; rfl)
  have : (Survey.unrestricted False program.index unit root).Covers :=
    Survey.covers_unrestricted False program.index nofun
  have hfound :=
    finding_of_mem_bindUnit (S := .unrestricted False program.index unit root) .self o hmem
  obtain ⟨⟨first, hfirst, hstart⟩, ⟨last, hlast, hstop⟩, -⟩ := hfound.spelled
  exact ⟨hstart ▸ (hwithin first hfirst).1, hstop ▸ (hwithin last hlast).2⟩

/-- In whole trees, what is found in a unit has the name that is written there. -/
theorem stands_of_mem_resolveUnit (hparse : ReadsWhole parse)
    (hunit : unit ∈ (ofUnits known (units.map fun u => .read parse u.id u.text)).units) :
    o.Stands u.text := by
  obtain ⟨root, hroot, hmem⟩ := mem_occurrences_resolveUnit ho
  have hwhole : ∀ p ∈ units.map fun u => ParsedUnit.read parse u.id u.text, p.Whole := by
    simp only [List.forall_mem_map]
    exact fun u _ root => hparse u.text root
  have := Survey.covers_unrestricted True program.index fun _ =>
    ⟨_, indexed_of_mem hwhole hunit hroot⟩
  have hfound :=
    finding_of_mem_bindUnit (S := .unrestricted True program.index unit root) .self o hmem
  refine ⟨within_of_mem_resolveUnit hread ho hparse.within,
    hfound.spelled.start_le_stop trivial, ?_⟩
  have hsource : unit.unit.source = .ofString u.text := by
    rw [hread]
    rfl
  rw [← SourceText.slice_ofString, ← hsource]
  exact hfound.named trivial

end Resolved

end Program

section Resolver

variable {parse : String → Option Node} (tree : FileTree) (classpath : List String)

/-- What holds of all that is found in the units of programs holds of what the resolver finds. -/
theorem resolverWith_reports {P : String → Occurrence → Prop}
    (h : ∀ {known : TypeIndex} {units : List SourceUnit} {unit : DeclaredUnit} {u : SourceUnit},
      unit ∈ (Program.ofUnits known (units.map fun u => .read parse u.id u.text)).units →
      unit.unit = .read parse u.id u.text → ∀ (program : Program),
      ∀ o ∈ (program.resolveUnit unit).occurrences, P u.text o) :
    (resolverWith parse tree classpath).Reports P := by
  intro units resolutions hresolve r hr
  simp only [resolverWith] at hresolve
  split at hresolve
  · cases hresolve
  · rename_i known _
    cases hresolve
    obtain ⟨unit, hunit, rfl⟩ := List.mem_map.1 hr
    have hparsed : unit.unit ∈ units.map fun u => ParsedUnit.read parse u.id u.text := by
      rw [← Program.map_unit_ofUnits known (units.map fun u => ParsedUnit.read parse u.id u.text)]
      exact List.mem_map_of_mem hunit
    obtain ⟨u, hu, heq⟩ := List.mem_map.1 hparsed
    exact ⟨u, hu, by rw [← heq]; rfl, h hunit heq.symm _⟩

/-- What the resolver finds in whole trees stands in the units that it is given. -/
theorem resolverWith_stands (hparse : ReadsWhole parse) :
    (resolverWith parse tree classpath).Reports fun text o => o.Stands text :=
  resolverWith_reports tree classpath fun hunit hread _ _ ho =>
    Program.stands_of_mem_resolveUnit hread ho hparse hunit

/-- The resolver finds nothing but what lies within the units that it is given. -/
theorem resolverWith_faithful (hparse : ReadsWithin parse) :
    (resolverWith parse tree classpath).Faithful :=
  resolverWith_reports tree classpath fun _ hread _ _ ho =>
    Program.within_of_mem_resolveUnit hread ho hparse

/-- The resolver accounts for the units that it is given, one by one. -/
theorem resolverWith_listsUnits : (resolverWith parse tree classpath).ListsUnits := by
  intro units resolutions hresolve
  simp only [resolverWith] at hresolve
  split at hresolve
  · cases hresolve
  · rename_i known _
    cases hresolve
    have hunits := Program.map_unit_ofUnits known
      (units.map fun u => ParsedUnit.read parse u.id u.text)
    have hids := congrArg (List.map ParsedUnit.id) hunits
    rw [List.map_map, List.map_map] at hids
    rw [Program.resolveUnits, List.map_map]
    exact .of_eq hids

end Resolver

end Java

end Renaming
