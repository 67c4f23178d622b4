import Renaming.Proofs.Java.Declared.Rounds
import Renaming.Proofs.Java.MemberLookup

/-!
# Private methods of supertypes

A private method is a member of the type that declares it only. The methods found in a type are its
members exactly if no private method of a supertype is the nearest one with its parameters. Such a
method is found although it is not inherited, and takes the place of the member with its parameters.
-/

namespace Renaming.Java

namespace TypeIndex

/-- The methods of a name in the types that are searched for it, nearest first. -/
def searchedMethods (index : TypeIndex) (owner name : String) : List (String × MethodDeclaration) :=
  (if name = constructorName then [owner] else index.chain owner).flatMap fun type =>
    index.declaredMethods type name

/-- Whether a method may be a member of `owner` if `owner` or a supertype declares it. -/
def mayBeMember (owner : String) (e : String × MethodDeclaration) : Bool :=
  e.1 == owner || !e.2.isPrivate

/-- The methods of a name that are members of `owner`: of those that are not private methods of
supertypes, the nearest ones with their parameters. -/
def memberMethods (index : TypeIndex) (owner name : String) : List (String × MethodDeclaration) :=
  dropHidden [] ((index.searchedMethods owner name).filter (mayBeMember owner))

/-- A private method of a supertype that no method before it hides. -/
structure Leaks (index : TypeIndex) (owner name : String) (e : String × MethodDeclaration) :
    Prop where
  isPrivate : e.2.isPrivate = true
  inherited : e.1 ≠ owner
  nearest : ∃ before after, index.searchedMethods owner name = before ++ e :: after ∧
    ∀ e' ∈ before, e'.2.descriptor.paramsText ≠ e.2.descriptor.paramsText

variable {index : TypeIndex} {owner name : String} {e e' : String × MethodDeclaration}
  {taken : List String} {l : List (String × MethodDeclaration)}
  {p : String × MethodDeclaration → Bool}

theorem mayBeMember_eq_false_iff :
    mayBeMember owner e = false ↔ e.2.isPrivate = true ∧ e.1 ≠ owner := by
  simp [mayBeMember, and_comm]

/-- Methods that are dropped from a list change what is kept only if one of them was kept. -/
theorem dropHidden_filter (h : ∀ e ∈ dropHidden taken l, p e = true) :
    dropHidden taken (l.filter p) = dropHidden taken l := by
  induction l generalizing taken with
  | nil => rfl
  | cons e rest ih =>
    obtain ⟨type, m⟩ := e
    rw [dropHidden] at h ⊢
    by_cases htaken : taken.contains m.descriptor.paramsText = true
    · rw [if_pos htaken] at h ⊢
      rw [← ih h, List.filter_cons]
      split
      · rw [dropHidden, if_pos htaken]
      · rfl
    · rw [if_neg htaken] at h ⊢
      rw [List.forall_mem_cons] at h
      rw [List.filter_cons_of_pos h.1, dropHidden, if_neg htaken, ih h.2]

theorem mem_findMethods_iff :
    e ∈ index.findMethods owner name ↔
      (index.searchedMethods owner name).find? (sameParams e) = some e :=
  mem_dropHidden_iff.trans (and_iff_right List.not_mem_nil)

theorem mem_memberMethods_iff :
    e ∈ index.memberMethods owner name ↔
      ((index.searchedMethods owner name).filter (mayBeMember owner)).find? (sameParams e) =
        some e :=
  mem_dropHidden_iff.trans (and_iff_right List.not_mem_nil)

theorem mayBeMember_of_mem (h : e ∈ index.memberMethods owner name) :
    e ∈ index.searchedMethods owner name ∧ mayBeMember owner e = true :=
  List.mem_filter.1 ((dropHidden_sublist _ _).subset h)

/-- Exactly the private methods of supertypes that are found leak. -/
theorem leaks_iff :
    index.Leaks owner name e ↔
      e ∈ index.findMethods owner name ∧ mayBeMember owner e = false := by
  rw [mem_findMethods_iff, List.find?_eq_some_iff_append, mayBeMember_eq_false_iff]
  constructor
  · rintro ⟨hprivate, hinherited, before, after, hsplit, hfree⟩
    refine ⟨⟨beq_self_eq_true _, before, after, hsplit, fun e' he' => ?_⟩, hprivate, hinherited⟩
    simpa [sameParams] using hfree e' he'
  · rintro ⟨⟨-, before, after, hsplit, hfree⟩, hprivate, hinherited⟩
    refine ⟨hprivate, hinherited, before, after, hsplit, fun e' he' => ?_⟩
    simpa [sameParams] using hfree e' he'

theorem memberMethods_of_found (h : e ∈ index.findMethods owner name)
    (hmember : mayBeMember owner e = true) : e ∈ index.memberMethods owner name := by
  rw [mem_findMethods_iff, List.find?_eq_some_iff_append] at h
  obtain ⟨hsame, before, after, hsplit, hfree⟩ := h
  rw [mem_memberMethods_iff, hsplit, List.filter_append, List.filter_cons_of_pos hmember,
    List.find?_append, List.find?_cons_of_pos hsame,
    List.find?_eq_none.2 fun e' he' => by simpa using hfree e' (List.mem_of_mem_filter he')]
  rfl

/-- A method is found in a type if it leaks, or if it is a member whose place no method takes that
leaks. So the methods found are the members exactly if no method leaks. -/
theorem findMethods_exact_iff (index : TypeIndex) (owner name : String) :
    (∀ e, e ∈ index.findMethods owner name ↔
      index.Leaks owner name e ∨ e ∈ index.memberMethods owner name ∧
        ∀ e', index.Leaks owner name e' →
          e'.2.descriptor.paramsText ≠ e.2.descriptor.paramsText) ∧
    (index.findMethods owner name = index.memberMethods owner name ↔
      ∀ e, ¬ index.Leaks owner name e) := by
  refine ⟨fun e => ⟨fun hfound => ?_, ?_⟩, fun heq e hleaks => ?_, fun hnone => ?_⟩
  · cases hmember : mayBeMember owner e with
    | false => exact .inl (leaks_iff.2 ⟨hfound, hmember⟩)
    | true =>
      refine .inr ⟨memberMethods_of_found hfound hmember, fun e' hleaks hsame => ?_⟩
      obtain ⟨hfound', hmember'⟩ := leaks_iff.1 hleaks
      obtain rfl := eq_of_mem_dropHidden hfound hfound' hsame
      rw [hmember] at hmember'
      cases hmember'
  · rintro (hleaks | ⟨hmember, hfree⟩)
    · exact (leaks_iff.1 hleaks).1
    · -- the nearest method with these parameters is a member, and so it is this one
      obtain ⟨e', hfound', hsame⟩ :
          ∃ e' ∈ index.findMethods owner name,
            e'.2.descriptor.paramsText = e.2.descriptor.paramsText :=
        exists_mem_dropHidden (mayBeMember_of_mem hmember).1
      have hmember' : mayBeMember owner e' = true :=
        eq_true_of_ne_false fun hout => hfree e' (leaks_iff.2 ⟨hfound', hout⟩) hsame
      obtain rfl :=
        eq_of_mem_dropHidden hmember (memberMethods_of_found hfound' hmember') hsame
      exact hfound'
  · obtain ⟨hfound, hout⟩ := leaks_iff.1 hleaks
    rw [heq] at hfound
    rw [(mayBeMember_of_mem hfound).2] at hout
    cases hout
  · refine (dropHidden_filter fun e he => ?_).symm
    exact eq_true_of_ne_false fun hout => hnone e (leaks_iff.2 ⟨he, hout⟩)

end TypeIndex

namespace Program

/-- A class that inherits from an interface the method that its superclass has as a private one. -/
def privateInSuperclass : List ParsedUnit :=
  [.ofText "A.java" ("interface I { default void m() { } } class B { private void m() { } } " ++
    "class C extends B implements I { }")]

/-- The private method is found instead of the one that is inherited. -/
theorem private_method_found :
    (∀ p ∈ privateInSuperclass, p.tree.isSome = true) ∧
    ((ofUnits {} privateInSuperclass).index.memberMethods "C" "m").map
      (fun e => e.2.signature e.1) = ["I.m()V"] ∧
    ((ofUnits {} privateInSuperclass).index.findMethods "C" "m").map
      (fun e => (e.2.signature e.1, e.2.isPrivate)) = [("B.m()V", true)] := by
  decide +kernel

end Program

end Renaming.Java
