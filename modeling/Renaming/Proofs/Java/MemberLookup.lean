import Mathlib.Data.List.Nodup
import Renaming.Proofs.Java.Overriding

/-!
# Looking members up

A type has the nearest method of each list of parameter types, and a method overrides one method of
each supertype that declares such a method. Methods are told apart by their parameters as they are
written in descriptors.
-/

namespace Renaming.Java

namespace TypeIndex

/-- Whether a type that is known declares a method. -/
def Declares (index : TypeIndex) (type : String) (m : MethodDeclaration) : Prop :=
  ∃ d, index.get? type = some d ∧ m ∈ d.methods

variable {index : TypeIndex} {owner type name : String} {m n : MethodDeclaration}
  {taken : List String} {e e' : String × MethodDeclaration}
  {l l' : List (String × MethodDeclaration)}

theorem mem_declaredMethods_iff :
    e ∈ index.declaredMethods type name ↔
      e.1 = type ∧ index.Declares type e.2 ∧ e.2.name = name := by
  obtain ⟨type', m⟩ := e
  unfold declaredMethods Declares
  cases index.get? type with
  | none => simp
  | some d =>
    simp only [TypeDeclaration.methodsNamed, List.mem_map, List.mem_filter, beq_iff_eq,
      Prod.mk.injEq, Option.some.injEq, exists_eq_left']
    constructor
    · rintro ⟨n, hn, rfl, rfl⟩
      exact ⟨rfl, hn⟩
    · rintro ⟨rfl, hm⟩
      exact ⟨m, hm, rfl, rfl⟩

/-! ## Methods that hide others -/

/-- Whether two methods take the same parameters, whatever types declare them. -/
def sameParams (e e' : String × MethodDeclaration) : Bool :=
  e'.2.descriptor.paramsText == e.2.descriptor.paramsText

theorem sameParams_congr (h : e.2.descriptor.paramsText = e'.2.descriptor.paramsText) :
    sameParams e = sameParams e' := by
  funext e''
  rw [sameParams, sameParams, h]

/-- What is kept is the first method with its parameters. -/
theorem mem_dropHidden_iff :
    e ∈ dropHidden taken l ↔
      e.2.descriptor.paramsText ∉ taken ∧ l.find? (sameParams e) = some e := by
  induction l generalizing taken with
  | nil => simp [dropHidden]
  | cons first rest ih =>
    obtain ⟨type, m⟩ := first
    rw [dropHidden, List.find?_cons]
    by_cases hsame : m.descriptor.paramsText = e.2.descriptor.paramsText
    · rw [show sameParams e (type, m) = true from beq_iff_eq.2 hsame, hsame]
      by_cases htaken : e.2.descriptor.paramsText ∈ taken
      · rw [if_pos (List.contains_iff_mem.2 htaken), ih]
        simp [htaken]
      · rw [if_neg (mt List.contains_iff_mem.1 htaken), List.mem_cons, ih]
        simp [htaken, eq_comm]
    · rw [show sameParams e (type, m) = false from beq_eq_false_iff_ne.2 hsame]
      have hne : e ≠ (type, m) := by
        rintro rfl
        exact hsame rfl
      split
      · rw [ih]
      · rw [List.mem_cons, ih, List.mem_cons, not_or]
        simp [hne, Ne.symm hsame]

theorem mem_dropHidden_append (h : e ∈ dropHidden taken l) : e ∈ dropHidden taken (l ++ l') := by
  obtain ⟨hfree, hfirst⟩ := mem_dropHidden_iff.1 h
  refine mem_dropHidden_iff.2 ⟨hfree, ?_⟩
  rw [List.find?_append, hfirst]
  rfl

/-- For every method, one that takes the same parameters is kept. -/
theorem exists_mem_dropHidden (h : e ∈ l) :
    ∃ e' ∈ dropHidden [] l, e'.2.descriptor.paramsText = e.2.descriptor.paramsText := by
  obtain ⟨e', hfirst⟩ : ∃ e', l.find? (sameParams e) = some e' :=
    Option.isSome_iff_exists.1 (List.find?_isSome.2 ⟨e, h, beq_self_eq_true _⟩)
  have hparams : e'.2.descriptor.paramsText = e.2.descriptor.paramsText :=
    beq_iff_eq.1 (show sameParams e e' = true from List.find?_some hfirst)
  refine ⟨e', mem_dropHidden_iff.2 ⟨List.not_mem_nil, ?_⟩, hparams⟩
  rw [sameParams_congr hparams, hfirst]

theorem nodup_params_dropHidden (taken : List String) (l : List (String × MethodDeclaration)) :
    ((dropHidden taken l).map (·.2.descriptor.paramsText)).Nodup := by
  induction l generalizing taken with
  | nil => exact List.nodup_nil
  | cons first rest ih =>
    rw [dropHidden]
    split
    · exact ih taken
    · rw [List.map_cons, List.nodup_cons]
      refine ⟨fun hmem => ?_, ih _⟩
      obtain ⟨e, he, hsame⟩ := List.mem_map.1 hmem
      exact (mem_dropHidden_iff.1 he).1 (hsame ▸ List.mem_cons_self)

/-- Of the methods with some parameters, one at most is kept. -/
theorem eq_of_mem_dropHidden (h : e ∈ dropHidden taken l) (h' : e' ∈ dropHidden taken l)
    (hsame : e'.2.descriptor.paramsText = e.2.descriptor.paramsText) : e' = e :=
  List.inj_on_of_nodup_map (nodup_params_dropHidden taken l) h' h hsame

/-- A type has each of its methods once. -/
theorem nodup_findMethods (index : TypeIndex) (owner name : String) :
    (index.findMethods owner name).Nodup :=
  List.Nodup.of_map _ (nodup_params_dropHidden [] _)

/-- The methods found in some types, nearest first: each is declared there, no two take the same
parameters, and for every one that is declared there is one that is as near and takes the same
parameters. -/
structure NearestFirst (index : TypeIndex) (types : List String) (name : String)
    (found : List (String × MethodDeclaration)) : Prop where
  declared : ∀ e ∈ found, e.1 ∈ types ∧ index.Declares e.1 e.2 ∧ e.2.name = name
  distinct : (found.map (·.2.descriptor.paramsText)).Nodup
  complete : ∀ before type after, types = before ++ type :: after →
    ∀ m, index.Declares type m → m.name = name →
      ∃ e ∈ found, e.1 ∈ before ++ [type] ∧
        e.2.descriptor.paramsText = m.descriptor.paramsText
  ordered : found.Sublist (types.flatMap fun type => index.declaredMethods type name)

theorem nearestFirst_dropHidden (index : TypeIndex) (types : List String) (name : String) :
    index.NearestFirst types name
      (dropHidden [] (types.flatMap fun type => index.declaredMethods type name)) := by
  have hmem {some : List String} {e : String × MethodDeclaration}
      (he : e ∈ some.flatMap fun type => index.declaredMethods type name) :
      e.1 ∈ some ∧ index.Declares e.1 e.2 ∧ e.2.name = name := by
    obtain ⟨type, htype, he⟩ := List.mem_flatMap.1 he
    obtain ⟨rfl, hdeclared⟩ := mem_declaredMethods_iff.1 he
    exact ⟨htype, hdeclared⟩
  refine ⟨fun e he => hmem ((dropHidden_sublist _ _).subset he), nodup_params_dropHidden _ _, ?_,
    dropHidden_sublist _ _⟩
  rintro before type after rfl m hm hname
  have hnear : (type, m) ∈ (before ++ [type]).flatMap fun type => index.declaredMethods type name :=
    List.mem_flatMap.2 ⟨type, by simp, mem_declaredMethods_iff.2 ⟨rfl, hm, hname⟩⟩
  obtain ⟨e, he, hparams⟩ := exists_mem_dropHidden hnear
  refine ⟨e, ?_, (hmem ((dropHidden_sublist _ _).subset he)).1, hparams⟩
  rw [← List.singleton_append, ← List.append_assoc, List.flatMap_append]
  exact mem_dropHidden_append he

/-! ## Methods that are overridden -/

/-- Whether an instance method `m` overrides `n` in a subtype of the type that declares `n`. -/
structure Overrides (m n : MethodDeclaration) : Prop where
  name : n.name = m.name
  isStatic : n.isStatic = false
  isPrivate : n.isPrivate = false
  params : n.descriptor.paramsText = m.descriptor.paramsText

theorem sameMethod_iff : sameMethod m n = true ↔ Overrides m n := by
  simp only [sameMethod, Bool.and_eq_true, beq_iff_eq, Bool.not_eq_true']
  constructor
  · rintro ⟨⟨⟨hname, hstatic⟩, hprivate⟩, hparams⟩
    exact ⟨hname, hstatic, hprivate, hparams⟩
  · rintro ⟨hname, hstatic, hprivate, hparams⟩
    exact ⟨⟨⟨hname, hstatic⟩, hprivate⟩, hparams⟩

/-- The method of a type that `m` overrides, the first one if there are several. -/
def overriddenMethod? (index : TypeIndex) (m : MethodDeclaration) (type : String) :
    Option MethodDeclaration := do
  let d ← index.get? type
  d.methods.find? (sameMethod m)

theorem overriddenMethod?_spec (h : index.overriddenMethod? m type = some n) :
    index.Declares type n ∧ Overrides m n := by
  obtain ⟨d, hd, hn⟩ := Option.bind_eq_some_iff.1 h
  exact ⟨⟨d, hd, List.mem_of_find?_eq_some hn⟩, sameMethod_iff.1 (List.find?_some hn)⟩

theorem isSome_overriddenMethod?_iff :
    (index.overriddenMethod? m type).isSome = true ↔
      ∃ n, index.Declares type n ∧ Overrides m n := by
  constructor
  · intro h
    obtain ⟨n, hn⟩ := Option.isSome_iff_exists.1 h
    exact ⟨n, overriddenMethod?_spec hn⟩
  · rintro ⟨n, ⟨d, hd, hn⟩, hover⟩
    rw [overriddenMethod?, hd, Option.bind_eq_bind, Option.bind_some, List.find?_isSome]
    exact ⟨n, hn, sameMethod_iff.2 hover⟩

theorem overridden_eq_filterMap
    (hinstance : (m.isStatic || m.isPrivate || m.isConstructor) = false) :
    index.overridden owner m = (index.supertypes owner).filterMap fun type =>
      (index.overriddenMethod? m type).map (·.signature type) := by
  rw [overridden, hinstance, if_neg Bool.false_ne_true]
  refine congrArg (List.filterMap · _) (funext fun type => ?_)
  unfold overriddenMethod?
  cases index.get? type with
  | none => rfl
  | some d =>
    simp only [Option.bind_eq_bind, Option.bind_some]
    cases d.methods.find? (sameMethod m) <;> rfl

theorem forall₂_filterMap {α β : Type} (f : α → Option β) (l : List α) :
    List.Forall₂ (fun a b => f a = some b) (l.filter fun a => (f a).isSome) (l.filterMap f) := by
  induction l with
  | nil => exact .nil
  | cons a rest ih =>
    cases ha : f a with
    | none => simpa [ha] using ih
    | some b => simpa [ha] using ih

/-- A type has the nearest method of each list of parameters, and a constructor of its own only. An
instance method overrides one method of each supertype that declares one with its name and
parameters, nearest supertype first, and in a hierarchy without cycles everything that a method
which it overrides does. -/
theorem lookup_nearest_first (index : TypeIndex) (owner : String) :
    (∀ name, name ≠ constructorName →
      index.NearestFirst (index.chain owner) name (index.findMethods owner name)) ∧
    index.NearestFirst [owner] constructorName (index.findMethods owner constructorName) ∧
    ∀ m : MethodDeclaration, m.isStatic = false → m.isPrivate = false → m.isConstructor = false →
      (∃ declaring : List String, declaring.Sublist (index.supertypes owner) ∧ declaring.Nodup ∧
        (∀ type, type ∈ declaring ↔
          type ∈ index.supertypes owner ∧ ∃ n, index.Declares type n ∧ Overrides m n) ∧
        List.Forall₂ (fun type s => ∃ n, index.Declares type n ∧ Overrides m n ∧
          s = n.signature type) declaring (index.overridden owner m)) ∧
      (index.Acyclic → ∀ sup ∈ index.supertypes owner, ∀ n, index.Declares sup n →
        Overrides m n → index.overridden sup n ⊆ index.overridden owner m) := by
  refine ⟨fun name hname => ?_, ?_, fun m hstatic hprivate hconstructor => ?_⟩
  · rw [findMethods, if_neg hname]
    exact index.nearestFirst_dropHidden _ name
  · rw [findMethods, if_pos rfl]
    exact index.nearestFirst_dropHidden _ constructorName
  have hinstance : (m.isStatic || m.isPrivate || m.isConstructor) = false := by
    rw [hstatic, hprivate, hconstructor]
    rfl
  constructor
  · refine ⟨(index.supertypes owner).filter fun type => (index.overriddenMethod? m type).isSome,
      List.filter_sublist, (nodup_supertypes index owner).filter _, fun type => ?_, ?_⟩
    · rw [List.mem_filter, isSome_overriddenMethod?_iff]
    · have hlists := forall₂_filterMap
        (fun type => (index.overriddenMethod? m type).map (·.signature type))
        (index.supertypes owner)
      simp only [Option.isSome_map] at hlists
      rw [overridden_eq_filterMap hinstance]
      refine hlists.imp fun type s hs => ?_
      obtain ⟨n, hn, rfl⟩ := Option.map_eq_some_iff.1 hs
      obtain ⟨hdeclares, hover⟩ := overriddenMethod?_spec hn
      exact ⟨n, hdeclares, hover, rfl⟩
  · intro hacyclic sup hsup n _ hover
    exact hacyclic.overridden_subset hinstance hsup (sameMethod_iff.2 hover)

section Instances

def countedRun : MethodDeclaration := { name := "run", descriptor := ⟨[.prim .int], none⟩ }

def timedRun : MethodDeclaration :=
  { name := "run", descriptor := ⟨[.prim .long], none⟩, isPrivate := true }

/-- A class below an interface that it reaches in two ways, and below a class that is not known. -/
def overloads : TypeIndex where
  types := .ofList [
    ("p.I", { binary := "p.I", kind := .interface, origin := .library,
              methods := [runMethod, countedRun] }),
    ("p.A", { binary := "p.A", kind := .class_, origin := .source, superclass := some "q.B",
              interfaces := ["p.I"],
              methods := [timedRun, { countedRun with isStatic := true }] }),
    ("p.C", { binary := "p.C", kind := .class_, origin := .source, superclass := some "p.A",
              interfaces := ["p.I"],
              methods := [runMethod, { name := constructorName, descriptor := ⟨[], none⟩ }] })]

theorem lookup_nearest_first_overloads :
    "run" ≠ constructorName ∧ overloads.chain "p.C" = ["p.C", "p.A", "p.I", "q.B", objectName] ∧
      overloads.NearestFirst (overloads.chain "p.C") "run" (overloads.findMethods "p.C" "run") ∧
      (overloads.findMethods "p.C" "run").map (fun e => e.2.signature e.1) =
        ["p.C.run()V", "p.A.run(J)V", "p.A.run(I)V"] ∧
      runMethod.isStatic = false ∧ runMethod.isPrivate = false ∧
      runMethod.isConstructor = false ∧ overloads.overridden "p.C" runMethod = ["p.I.run()V"] ∧
      (∃ declaring : List String, declaring.Sublist (overloads.supertypes "p.C") ∧
        declaring.Nodup ∧
        (∀ type, type ∈ declaring ↔ type ∈ overloads.supertypes "p.C" ∧
          ∃ n, overloads.Declares type n ∧ Overrides runMethod n) ∧
        List.Forall₂ (fun type s => ∃ n, overloads.Declares type n ∧ Overrides runMethod n ∧
          s = n.signature type) declaring (overloads.overridden "p.C" runMethod)) ∧
      overloads.Acyclic ∧ "p.I" ∈ overloads.supertypes "p.C" ∧
      overloads.Declares "p.I" runMethod ∧ Overrides runMethod runMethod ∧
      overloads.overridden "p.I" runMethod ⊆ overloads.overridden "p.C" runMethod := by
  obtain ⟨hmethods, -, hoverridden⟩ := lookup_nearest_first overloads "p.C"
  have hname : "run" ≠ constructorName := by decide
  have hacyclic : overloads.Acyclic :=
    acyclic_of_rank (fun binary => if binary = "p.C" then 0 else if binary = "p.A" then 1 else 2)
      (by decide +kernel) (by decide +kernel)
  have hsup : "p.I" ∈ overloads.supertypes "p.C" := by decide +kernel
  have hdeclares : overloads.Declares "p.I" runMethod := ⟨_, rfl, List.mem_cons_self⟩
  have hover : Overrides runMethod runMethod := ⟨rfl, rfl, rfl, rfl⟩
  obtain ⟨hlisted, hsubset⟩ := hoverridden runMethod rfl rfl (by decide)
  exact ⟨hname, by decide +kernel, hmethods "run" hname, by decide +kernel, rfl, rfl, by decide,
    by decide +kernel, hlisted, hacyclic, hsup, hdeclares, hover,
    hsubset hacyclic "p.I" hsup runMethod hdeclares hover⟩

end Instances

end TypeIndex

end Renaming.Java
