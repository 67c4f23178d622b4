import Renaming.Java.Binding.State
import Renaming.Proofs.Java.Hierarchy
import Renaming.Splice

/-!
# Families of overriding methods

A method is asked about together with the methods that it overrides. In a hierarchy without cycles
the methods that an overridden method overrides are among those of the overriding one, so that a
table which gives one name to a family gives it to each of its members.
-/

namespace Renaming.Java

namespace TypeIndex

variable {index : TypeIndex} {owner sup : String} {m m' : MethodDeclaration}

/-- What can be overridden by a method depends on its name and parameters only. -/
theorem sameMethod_congr (h : sameMethod m m' = true) : sameMethod m' = sameMethod m := by
  unfold sameMethod at h
  simp only [Bool.and_eq_true, beq_iff_eq] at h
  obtain ⟨⟨⟨hname, -⟩, -⟩, hparams⟩ := h
  funext n
  rw [sameMethod, sameMethod, hname, hparams]

theorem mem_overridden_iff (hinstance : (m.isStatic || m.isPrivate || m.isConstructor) = false)
    {s : Signature} :
    s ∈ index.overridden owner m ↔ ∃ type ∈ index.supertypes owner, ∃ d, index.get? type = some d ∧
      ∃ n, d.methods.find? (sameMethod m) = some n ∧ n.signature type = s := by
  rw [overridden, hinstance]
  simp only [Bool.false_eq_true, if_false, List.mem_filterMap, Option.bind_eq_bind,
    Option.bind_eq_some_iff, Option.pure_def, Option.some.injEq]

/-- What an overridden method overrides is overridden by the method below it, too. -/
theorem Acyclic.overridden_subset (hacyclic : index.Acyclic)
    (hinstance : (m.isStatic || m.isPrivate || m.isConstructor) = false)
    (hsup : sup ∈ index.supertypes owner) (hsame : sameMethod m m' = true) :
    index.overridden sup m' ⊆ index.overridden owner m := by
  have hinstance' : (m'.isStatic || m'.isPrivate || m'.isConstructor) = false := by
    have hparts := hsame
    simp only [sameMethod, Bool.and_eq_true, beq_iff_eq, Bool.not_eq_true'] at hparts
    simp only [MethodDeclaration.isConstructor, Bool.or_eq_false_iff] at hinstance ⊢
    rw [hparts.1.1.1]
    exact ⟨⟨hparts.1.1.2, hparts.1.2⟩, hinstance.2⟩
  intro s hs
  obtain ⟨type, htype, hrest⟩ := (mem_overridden_iff hinstance').1 hs
  rw [sameMethod_congr hsame] at hrest
  exact (mem_overridden_iff hinstance).2 ⟨type, hacyclic.supertypes_subset hsup htype, hrest⟩

/-- The family of an overridden method is part of the family of the overriding one. -/
theorem family_subset (hacyclic : index.Acyclic)
    (hinstance : (m.isStatic || m.isPrivate || m.isConstructor) = false)
    (hsup : sup ∈ index.supertypes owner) {d : TypeDeclaration} (hget : index.get? sup = some d)
    (hfirst : d.methods.find? (sameMethod m) = some m') :
    m'.signature sup :: index.overridden sup m' ⊆ index.overridden owner m := by
  have hsame : sameMethod m m' = true := List.find?_some hfirst
  intro s hs
  rcases List.mem_cons.1 hs with rfl | hs
  · exact (mem_overridden_iff hinstance).2 ⟨sup, hsup, d, hget, m', hfirst, rfl⟩
  · exact hacyclic.overridden_subset hinstance hsup hsame hs

end TypeIndex

/-- What is reported of a method at a span. -/
def methodOccurrence (index : TypeIndex) (span : Span) (owner : String) (m : MethodDeclaration) :
    Occurrence :=
  ⟨span, m.signature owner, .method, index.overridden owner m⟩

theorem Binding.emitMethod_run (n : Node) (owner : String) (m : MethodDeclaration)
    (ctx : BindingContext) (s : BindingState) :
    (Binding.emitMethod n owner m).run ctx s = ((), { s with
      occurrences := methodOccurrence ctx.index n.span owner m :: s.occurrences }) := rfl

/-- A table that gives some of the signatures of a method a name, and all of these the same one,
gives that name to the method. -/
theorem replacement_methodOccurrence {index : TypeIndex} {table : RenameTable} {owner new : String}
    {m : MethodDeclaration}
    (hsame : ∀ s ∈ m.signature owner :: index.overridden owner m, ∀ name,
      table.symbol? s = some name → name = new)
    (hmapped : ∃ s ∈ m.signature owner :: index.overridden owner m, (table.symbol? s).isSome)
    (span : Span) (written : String) :
    replacement table (methodOccurrence index span owner m) written =
      some (Text.afterLast '.' new) := by
  have hfirst : table.firstOf (methodOccurrence index span owner m).signatures = some new := by
    obtain ⟨name, hname⟩ := Option.isSome_iff_exists.1 (List.findSome?_isSome_iff.2 hmapped)
    obtain ⟨s, hs, hsymbol⟩ := List.exists_of_findSome?_eq_some hname
    rw [hsame s hs name hsymbol] at hname
    exact hname
  have hown : table.ownParameter? (methodOccurrence index span owner m) = none := rfl
  rw [replacement, hown]
  simp only [memberReplacement, hfirst]
  rfl

/-- A method and a method that it overrides are renamed alike by a table that names one family
consistently. Where a type declares several methods of one name with the same parameters, the first
one is overridden. -/
theorem override_family_renamed {index : TypeIndex} (hacyclic : index.Acyclic)
    (table : RenameTable) {sub sup new : String} {m m' : MethodDeclaration}
    (hinstance : (m.isStatic || m.isPrivate || m.isConstructor) = false)
    (hsup : sup ∈ index.supertypes sub) {d : TypeDeclaration} (hget : index.get? sup = some d)
    (hfirst : d.methods.find? (TypeIndex.sameMethod m) = some m')
    (hsame : ∀ s ∈ m.signature sub :: index.overridden sub m, ∀ name,
      table.symbol? s = some name → name = new)
    (hmapped : ∃ s ∈ m'.signature sup :: index.overridden sup m', (table.symbol? s).isSome)
    (unit : DeclaredUnit) (state : BindingState) (n : Node) (written : String) :
    (∃ o, ((Binding.emitMethod n sub m).run ⟨index, unit⟩ state).2.occurrences =
        o :: state.occurrences ∧ replacement table o written = some (Text.afterLast '.' new)) ∧
      ∃ o, ((Binding.emitMethod n sup m').run ⟨index, unit⟩ state).2.occurrences =
        o :: state.occurrences ∧ replacement table o written = some (Text.afterLast '.' new) := by
  have hfamily := TypeIndex.family_subset hacyclic hinstance hsup hget hfirst
  obtain ⟨s, hs, hsymbol⟩ := hmapped
  constructor
  · refine ⟨_, congrArg (·.2.occurrences) (Binding.emitMethod_run n sub m ⟨index, unit⟩ state), ?_⟩
    exact replacement_methodOccurrence hsame ⟨s, List.mem_cons_of_mem _ (hfamily hs), hsymbol⟩ _ _
  · refine ⟨_, congrArg (·.2.occurrences) (Binding.emitMethod_run n sup m' ⟨index, unit⟩ state), ?_⟩
    refine replacement_methodOccurrence (fun r hr => ?_) ⟨s, hs, hsymbol⟩ _ _
    exact hsame r (List.mem_cons_of_mem _ (hfamily hr))

section Instances

/-- A unit and a state in which nothing was found yet. -/
def emptyUnit : DeclaredUnit := { unit := ⟨"p/C.java", ⟨#[]⟩, none⟩ }

def emptyState : BindingState := { scope := { header := {} } }

def nameNode : Node := .mk .identifier none ⟨0, 3⟩ "run" []

def runMethod : MethodDeclaration := { name := "run", descriptor := ⟨[], none⟩ }

def middle : TypeDeclaration where
  binary := "p.A"
  kind := .class_
  origin := .source
  superclass := some objectName
  interfaces := ["p.I"]
  methods := [runMethod]

/-- A diamond: two ways lead from the class at the bottom to the interface at the top. -/
def diamond : TypeIndex where
  types := .ofList [
    ("p.I", { binary := "p.I", kind := .interface, origin := .library, methods := [runMethod] }),
    ("p.J", { binary := "p.J", kind := .interface, origin := .library, interfaces := ["p.I"] }),
    ("p.A", middle),
    ("p.C", { binary := "p.C", kind := .class_, origin := .source,
              superclass := some "p.A", interfaces := ["p.J"], methods := [runMethod] })]

def topRenamed : RenameTable := RenameTable.empty.insert (.symbol "p.I.run()V" "p.I.go")

theorem override_family_renamed_diamond :
    (∃ o, ((Binding.emitMethod nameNode "p.C" runMethod).run ⟨diamond, emptyUnit⟩
        emptyState).2.occurrences = [o] ∧ replacement topRenamed o "run" = some "go") ∧
      ∃ o, ((Binding.emitMethod nameNode "p.A" runMethod).run ⟨diamond, emptyUnit⟩
        emptyState).2.occurrences = [o] ∧ replacement topRenamed o "run" = some "go" := by
  have hacyclic : diamond.Acyclic :=
    TypeIndex.acyclic_of_rank
      (fun binary => if binary = "p.C" then 0 else if binary = "p.I" then 2 else 1)
      (by decide +kernel) (by decide +kernel)
  have hget : diamond.get? "p.A" = some middle := by decide +kernel
  have hsame : ∀ s ∈ runMethod.signature "p.C" :: diamond.overridden "p.C" runMethod, ∀ name,
      topRenamed.symbol? s = some name → name = "p.I.go" := by
    intro s _ name hname
    have hentry := SortedMap.get?_eq_some_iff.1 hname
    rw [show topRenamed.symbols.entries = [("p.I.run()V", "p.I.go")] from rfl,
      List.mem_singleton] at hentry
    exact congrArg Prod.snd hentry
  have hfirst : middle.methods.find? (TypeIndex.sameMethod runMethod) = some runMethod := by
    decide +kernel
  have hnew : Text.afterLast '.' "p.I.go" = "go" := by decide +kernel
  have h := override_family_renamed hacyclic topRenamed (by decide) (by decide +kernel) hget hfirst
    hsame (by decide +kernel) emptyUnit emptyState nameNode "run"
  rwa [hnew] at h

def objectTwin : MethodDeclaration := { name := "m", descriptor := ⟨[], some (.object objectName)⟩ }

def stringTwin : MethodDeclaration :=
  { name := "m", descriptor := ⟨[], some (.object "java.lang.String")⟩ }

/-- A class with two methods of one name without parameters, and a class below it. -/
def twins : TypeIndex where
  types := .ofList [
    ("A", { binary := "A", kind := .class_, origin := .source, superclass := some objectName,
            methods := [objectTwin, stringTwin] }),
    ("C", { binary := "C", kind := .class_, origin := .source, superclass := some "A",
            methods := [stringTwin] })]

def twinsRenamed : RenameTable :=
  (RenameTable.empty.insert (.symbol "A.m()Ljava/lang/Object;" "y")).insert
    (.symbol "A.m()Ljava/lang/String;" "x")

/-- The second of the two methods is in no family but its own: all the names in the family of the
method below are `y`, and the second method becomes `x`. -/
theorem second_twin_renamed_apart :
    twins.Acyclic ∧ "A" ∈ twins.supertypes "C" ∧
      (∃ d, twins.get? "C" = some d ∧ stringTwin ∈ d.methods) ∧
      (∃ d, twins.get? "A" = some d ∧ stringTwin ∈ d.methods) ∧
      TypeIndex.sameMethod stringTwin stringTwin = true ∧ stringTwin.isConstructor = false ∧
      (stringTwin.signature "C" :: twins.overridden "C" stringTwin).filterMap
        twinsRenamed.symbol? = ["y"] ∧
      (stringTwin.signature "A" :: twins.overridden "A" stringTwin).filterMap
        twinsRenamed.symbol? = ["x"] ∧
      ((Binding.emitMethod nameNode "C" stringTwin).run ⟨twins, emptyUnit⟩
        emptyState).2.occurrences.map (replacement twinsRenamed · "m") = [some "y"] ∧
      ((Binding.emitMethod nameNode "A" stringTwin).run ⟨twins, emptyUnit⟩
        emptyState).2.occurrences.map (replacement twinsRenamed · "m") = [some "x"] := by
  refine ⟨?_, by decide +kernel, ⟨_, rfl, by decide +kernel⟩, ⟨_, rfl, by decide +kernel⟩, ?_⟩
  · exact TypeIndex.acyclic_of_rank (fun binary => if binary = "C" then 0 else 1)
      (by decide +kernel) (by decide +kernel)
  · decide +kernel

end Instances

end Renaming.Java
