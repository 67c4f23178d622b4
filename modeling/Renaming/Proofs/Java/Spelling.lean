import Renaming.Extraction
import Renaming.Proofs.Java.Binding.Declarations
import Renaming.Proofs.Java.Declared.Units
import Renaming.Proofs.Symbol

/-!
# Tokens and signatures

Whatever index a unit of a program is walked against, the name of a field, a method or a local
variable stands where the variable, the method or the field is reported: the text at the span of an
occurrence is the name in its signature.
-/

namespace Renaming.Java

namespace Survey

variable {S : Survey} [S.Covers] {n : Node}

theorem methodName_of_names (ho : S.orderly) (hn : S.T n) (hkind : n.kind.isName = true)
    {s : Signature} (hs : S.Names (S.text n) s) : s.methodName = S.text n := by
  obtain ⟨owner, m, -, hname, rfl⟩ := hs
  rw [MethodDeclaration.signature, hname]
  exact Signature.methodName_ofMethod (notMem_text ho hn hkind (by decide))
    (notMem_text ho hn hkind (by decide))

/-- A finding has the name in its signatures. -/
theorem Finding.agrees (ho : S.orderly) {o : Occurrence} (h : S.Finding o) :
    (o.kind = .field → o.signature.fieldName = S.source.slice o.span) ∧
    (o.kind = .method → ∀ s ∈ o.signature :: o.fallbacks, s.methodName = S.source.slice o.span) ∧
    (o.kind = .localVariable → o.signature.localName = S.source.slice o.span) := by
  cases h with
  | type => exact ⟨nofun, nofun, nofun⟩
  | field hn hname _ =>
    exact ⟨fun _ => Signature.fieldName_ofField (notMem_text ho hn (hname ho) (by decide)), nofun,
      nofun⟩
  | method hn hname hmethods =>
    exact ⟨nofun, fun _ s hs => methodName_of_names ho hn (hname ho) (hmethods ho s hs), nofun⟩
  | parameter => exact ⟨nofun, nofun, nofun⟩
  | localVariable hn hname _ =>
    exact ⟨nofun, nofun, fun _ =>
      Signature.localName_ofLocal (notMem_text ho hn (hname ho) (by decide))⟩

end Survey

/-- What is reported where a field, a method or a local variable is named has that name in its
signature, and so have the methods that are asked about next. -/
theorem bindUnit_agrees {known : TypeIndex} {parsed : List ParsedUnit}
    (hparsed : ∀ p ∈ parsed, p.Whole) {unit : DeclaredUnit}
    (hunit : unit ∈ (Program.ofUnits known parsed).units) {root : Node}
    (htree : unit.unit.tree = some root) (index : TypeIndex) {o : Occurrence}
    (ho : o ∈ (bindUnit index unit root).1) :
    (o.kind = .field → o.signature.fieldName = unit.unit.source.slice o.span) ∧
    (o.kind = .method →
      ∀ s ∈ o.signature :: o.fallbacks, s.methodName = unit.unit.source.slice o.span) ∧
    (o.kind = .localVariable → o.signature.localName = unit.unit.source.slice o.span) := by
  have hindexed := Program.indexed_of_mem hparsed hunit htree
  have := Survey.covers_unrestricted True index fun _ => ⟨_, hindexed⟩
  exact (finding_of_mem_bindUnit (S := .unrestricted True index unit root) .self o ho).agrees
    trivial

/-- A unit that declares a field, a method, a parameter and a local variable. -/
def countingUnit : ParsedUnit :=
  .ofText "A.java" "class A { int f; void g(int x) { int y; } }"

def countingProgram : Program := .ofUnits {} [countingUnit]

theorem bindUnit_agrees_countingUnit : ∃ unit ∈ countingProgram.units, ∃ root,
    unit.unit.tree = some root ∧
    (bindUnit countingProgram.index unit root).1.map (fun o => (o.kind, o.signature)) =
      [(.type, "A"), (.field, "A.f"), (.method, "A.g(I)V"), (.parameter, "A.g(I)V#0"),
        (.localVariable, "A.g(I)V@y:0")] ∧
    ∀ o ∈ (bindUnit countingProgram.index unit root).1,
      (o.kind = .field → o.signature.fieldName = unit.unit.source.slice o.span) ∧
      (o.kind = .method →
        ∀ s ∈ o.signature :: o.fallbacks, s.methodName = unit.unit.source.slice o.span) ∧
      (o.kind = .localVariable → o.signature.localName = unit.unit.source.slice o.span) := by
  have hfound : countingProgram.units.map (fun unit => unit.unit.tree.map fun root =>
      (bindUnit countingProgram.index unit root).1.map fun o => (o.kind, o.signature)) =
      [some [(.type, "A"), (.field, "A.f"), (.method, "A.g(I)V"), (.parameter, "A.g(I)V#0"),
        (.localVariable, "A.g(I)V@y:0")]] := by
    decide +kernel
  obtain ⟨unit, hunits, hunit⟩ := List.map_eq_singleton_iff.1 hfound
  obtain ⟨root, htree, hroot⟩ := Option.map_eq_some_iff.1 hunit
  have hmem : unit ∈ countingProgram.units := by
    rw [hunits]
    exact List.mem_singleton_self unit
  have hwhole : ∀ p ∈ [countingUnit], p.Whole :=
    List.forall_mem_singleton.2 (ParsedUnit.whole_ofText _ _)
  exact ⟨unit, hmem, root, htree, hroot, fun o ho =>
    bindUnit_agrees hwhole hmem htree countingProgram.index ho⟩

end Renaming.Java
