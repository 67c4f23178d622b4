import Mathlib.Data.List.Duplicate
import Renaming.Java.Binding.Expressions
import Renaming.Proofs.Java.Comments
import Renaming.Proofs.Java.MemberLookup
import Renaming.Proofs.Java.Overload.Exact

/-!
# Methods that are imported more than once

A call without a qualifier that no class around it answers is looked up through the static imports.
A method that comes through two of them is a candidate twice, and of two copies none is the more
specific one. Only imports of one type that stand next to each other are taken together: any other
repetition makes a call ambiguous which had a meaning before.
-/

namespace Renaming.Java

theorem duplicate_iff_getElem? {α : Type} {l : List α} {a : α} :
    l.Duplicate a ↔ ∃ i j : Nat, i ≠ j ∧ l[i]? = some a ∧ l[j]? = some a := by
  rw [List.duplicate_iff_exists_distinct_get]
  constructor
  · rintro ⟨i, j, hij, hi, hj⟩
    refine ⟨i, j, fun heq => hij.ne (Fin.ext heq), ?_, ?_⟩
    · exact hi ▸ List.getElem?_eq_getElem i.isLt
    · exact hj ▸ List.getElem?_eq_getElem j.isLt
  · rintro ⟨i, j, hij, hi, hj⟩
    obtain ⟨hilt, hi⟩ := List.getElem?_eq_some_iff.1 hi
    obtain ⟨hjlt, hj⟩ := List.getElem?_eq_some_iff.1 hj
    rcases Nat.lt_or_gt_of_ne hij with hlt | hlt
    · exact ⟨⟨i, hilt⟩, ⟨j, hjlt⟩, hlt, hi.symm, hj.symm⟩
    · exact ⟨⟨j, hjlt⟩, ⟨i, hilt⟩, hlt, hj.symm, hi.symm⟩

/-- What is at most once in each of some lists is twice in all of them if it is in two. -/
theorem duplicate_flatMap_iff {α β : Type} {f : α → List β} (hnodup : ∀ a, (f a).Nodup) {b : β}
    {P : α → Prop} [DecidablePred P] (hP : ∀ a, P a ↔ b ∈ f a) (l : List α) :
    (l.flatMap f).Duplicate b ↔ 2 ≤ l.countP P := by
  classical
  have hcount : (l.flatMap f).count b = l.countP P := by
    induction l with
    | nil => rfl
    | cons a rest ih =>
      rw [List.flatMap_cons, List.count_append, ih, (hnodup a).count, List.countP_cons]
      simp [hP, Nat.add_comm]
  rw [List.duplicate_iff_two_le_count, hcount]

namespace TypeIndex

/-! ## Candidates that are repeated -/

section Repeated

variable {index : TypeIndex} {args : List ExprType} {phase : Phase}

theorem moreSpecific_refl (m : MethodDeclaration) (count : Nat) :
    index.moreSpecific m m count phase = true := by
  simp only [moreSpecific, List.all_eq_true]
  intro i _
  cases m.receivingType? i phase with
  | none => rfl
  | some p => simp [assignable, ExprType.erased, erasedAssignable]

variable (index args phase) in
/-- The method applies and is at least as specific as all the candidates that do. -/
def Dominates (candidates : List (String × MethodDeclaration)) (x : String × MethodDeclaration) :
    Prop :=
  index.applicable x.2 args phase = true ∧ ∀ y ∈ candidates,
    index.applicable y.2 args phase = true → index.moreSpecific x.2 y.2 args.length phase = true

variable {candidates repeated : List (String × MethodDeclaration)} {x : String × MethodDeclaration}

theorem appliesAt_map_iff {i : Nat} : index.AppliesAt (candidates.map Prod.snd) args phase i ↔
    ∃ x, candidates[i]? = some x ∧ index.applicable x.2 args phase = true := by
  simp only [AppliesAt, List.getElem?_map, Option.map_eq_some_iff]
  constructor
  · rintro ⟨_, ⟨x, hx, rfl⟩, happlies⟩
    exact ⟨x, hx, happlies⟩
  · rintro ⟨x, hx, happlies⟩
    exact ⟨x.2, ⟨x, hx, rfl⟩, happlies⟩

theorem isFirstPhase_map_iff : index.IsFirstPhase (candidates.map Prod.snd) args phase ↔
    (∃ x ∈ candidates, index.applicable x.2 args phase = true) ∧
      ∀ p ∈ phase.earlier, ¬ ∃ x ∈ candidates, index.applicable x.2 args p = true := by
  have hsome (p : Phase) : (∃ i, index.AppliesAt (candidates.map Prod.snd) args p i) ↔
      ∃ x ∈ candidates, index.applicable x.2 args p = true := by
    simp only [appliesAt_map_iff, List.mem_iff_getElem?]
    constructor
    · rintro ⟨i, x, hx, happlies⟩
      exact ⟨x, ⟨i, hx⟩, happlies⟩
    · rintro ⟨x, ⟨i, hx⟩, happlies⟩
      exact ⟨i, x, hx, happlies⟩
  simp only [IsFirstPhase, hsome]

/-- A method is as specific as itself, so that only the methods matter and not their places. -/
theorem isMostSpecific_map_iff {i : Nat} (hx : candidates[i]? = some x) :
    index.IsMostSpecific (candidates.map Prod.snd) args phase i ↔
      index.Dominates args phase candidates x := by
  constructor
  · rintro ⟨happlies, hbest⟩
    obtain ⟨x', hx', happlies⟩ := appliesAt_map_iff.1 happlies
    cases hx.symm.trans hx'
    refine ⟨happlies, fun y hy hyapplies => ?_⟩
    obtain ⟨j, hj⟩ := List.mem_iff_getElem?.1 hy
    by_cases hij : j = i
    · subst hij
      cases hx.symm.trans hj
      exact moreSpecific_refl x.2 args.length
    · obtain ⟨m, n, hm, hn, hspecific⟩ :=
        hbest j (appliesAt_map_iff.2 ⟨y, hj, hyapplies⟩) hij
      simp only [List.getElem?_map, hx, hj, Option.map_some, Option.some.injEq] at hm hn
      rwa [hm, hn]
  · rintro ⟨happlies, hbest⟩
    refine ⟨appliesAt_map_iff.2 ⟨x, hx, happlies⟩, fun j hj _ => ?_⟩
    obtain ⟨y, hy, hyapplies⟩ := appliesAt_map_iff.1 hj
    refine ⟨x.2, y.2, by simp [hx], by simp [hy], ?_⟩
    exact hbest y (List.mem_of_getElem? hy) hyapplies

variable (index) in
/-- The method that is called among candidates with the types that declare them. -/
def selected? (candidates : List (String × MethodDeclaration)) (args : List ExprType) :
    Option (String × MethodDeclaration) :=
  match index.selectOverload (candidates.map Prod.snd) args with
  | .found i => candidates[i]?
  | _ => none

theorem exists_of_selected? (h : index.selected? candidates args = some x) :
    x ∈ candidates ∧ ∃ phase, index.IsFirstPhase (candidates.map Prod.snd) args phase ∧
      index.Dominates args phase candidates x ∧
      ∀ y ∈ candidates, index.Dominates args phase candidates y → y = x := by
  have hchooses : index.Chooses (candidates.map Prod.snd) args _ := chooses_selectOverload
  unfold selected? at h
  split at h
  · rename_i i heq
    rw [heq] at hchooses
    obtain ⟨phase, hfirst, hbest, honly⟩ := hchooses
    refine ⟨List.mem_of_getElem? h, phase, hfirst, (isMostSpecific_map_iff h).1 hbest, ?_⟩
    intro y hy hdominates
    obtain ⟨j, hj⟩ := List.mem_iff_getElem?.1 hy
    obtain rfl := honly j ((isMostSpecific_map_iff hj).2 hdominates)
    exact Option.some.inj (hj.symm.trans h)
  · cases h

/-- Among the same candidates, some of them more than once, the choice is the same unless the method
that was chosen is there more than once; then there is none. -/
theorem selected?_of_repeated (hsame : ∀ y, y ∈ repeated ↔ y ∈ candidates)
    (h : index.selected? candidates args = some x) :
    (¬ repeated.Duplicate x → index.selected? repeated args = some x) ∧
      (repeated.Duplicate x → ∃ places,
        index.selectOverload (repeated.map Prod.snd) args = .ambiguous places) := by
  obtain ⟨hmem, phase, hfirst, hdominates, honly⟩ := exists_of_selected? h
  have hfirst' : index.IsFirstPhase (repeated.map Prod.snd) args phase := by
    rw [isFirstPhase_map_iff] at hfirst ⊢
    simpa only [hsame] using hfirst
  have hiff (y : String × MethodDeclaration) :
      index.Dominates args phase repeated y ↔ index.Dominates args phase candidates y := by
    simp only [Dominates, hsame]
  have hmost {j : Nat} (hj : index.IsMostSpecific (repeated.map Prod.snd) args phase j) :
      repeated[j]? = some x := by
    obtain ⟨y, hy, -⟩ := appliesAt_map_iff.1 hj.1
    have hydominates := (hiff y).1 ((isMostSpecific_map_iff hy).1 hj)
    rwa [honly y ((hsame y).1 (List.mem_of_getElem? hy)) hydominates] at hy
  have hplace {j : Nat} (hj : repeated[j]? = some x) :
      index.IsMostSpecific (repeated.map Prod.snd) args phase j :=
    (isMostSpecific_map_iff hj).2 ((hiff x).2 hdominates)
  obtain ⟨i, hi⟩ := List.mem_iff_getElem?.1 ((hsame x).2 hmem)
  constructor
  · intro honce
    have hfound : index.selectOverload (repeated.map Prod.snd) args = .found i := by
      refine selectOverload_eq_of_chooses ⟨phase, hfirst', hplace hi, fun j hj => ?_⟩
      by_contra hne
      exact honce (duplicate_iff_getElem?.2 ⟨j, i, hne, hmost hj, hi⟩)
    rw [selected?, hfound]
    exact hi
  · intro htwice
    obtain ⟨j, k, hne, hj, hk⟩ := duplicate_iff_getElem?.1 htwice
    refine ⟨_, selectOverload_eq_of_chooses (s := .ambiguous _) ⟨phase, hfirst', ?_,
      pairwise_applicableIn, fun _ => mem_applicableIn_iff⟩⟩
    rintro l ⟨-, honly'⟩
    exact hne ((honly' j (hplace hj)).trans (honly' k (hplace hk)).symm)

end Repeated

end TypeIndex

namespace Binding

/-! ## Owners next to each other -/

theorem mem_dropRepeated {a : String} {l : List String} : a ∈ dropRepeated l ↔ a ∈ l := by
  fun_induction dropRepeated l with
  | case1 b c rest heq ih =>
    obtain rfl : b = c := by simpa using heq
    simp [ih]
  | case2 b c rest hne ih => simp [ih]
  | case3 l => rfl

/-- The members of a list that have `P` are all the same, and stand next to each other. -/
def Together (P : String → Prop) (l : List String) : Prop :=
  ∃ before a count after, l = before ++ (List.replicate (count + 1) a ++ after) ∧ P a ∧
    ∀ b ∈ before ++ after, ¬ P b

section Together

variable {P : String → Prop} {a : String} {l : List String}

/-- A member with `P` in front starts the run. -/
theorem together_cons_iff_of_pos (ha : P a) : Together P (a :: l) ↔
    ∃ count after, l = List.replicate count a ++ after ∧ ∀ b ∈ after, ¬ P b := by
  constructor
  · rintro ⟨before, c, count, after, heq, hc, hfree⟩
    cases before with
    | nil =>
      rw [List.nil_append, List.replicate_succ, List.cons_append] at heq
      obtain ⟨rfl, rfl⟩ := List.cons.inj heq
      exact ⟨count, after, rfl, fun b hb => hfree b (by simpa using hb)⟩
    | cons b before =>
      obtain ⟨rfl, -⟩ := List.cons.inj heq
      exact absurd ha (hfree a (by simp))
  · rintro ⟨count, after, rfl, hfree⟩
    exact ⟨[], a, count, after, by simp [List.replicate_succ], ha, by simpa using hfree⟩

theorem together_cons_iff_of_neg (ha : ¬ P a) : Together P (a :: l) ↔ Together P l := by
  constructor
  · rintro ⟨before, c, count, after, heq, hc, hfree⟩
    cases before with
    | nil =>
      rw [List.nil_append, List.replicate_succ, List.cons_append] at heq
      obtain ⟨rfl, -⟩ := List.cons.inj heq
      exact absurd hc ha
    | cons b before =>
      obtain ⟨rfl, rfl⟩ := List.cons.inj heq
      exact ⟨before, c, count, after, rfl, hc, fun d hd => hfree d (by simp [List.mem_append.1 hd])⟩
  · rintro ⟨before, c, count, after, rfl, hc, hfree⟩
    refine ⟨a :: before, c, count, after, rfl, hc, ?_⟩
    rw [List.cons_append, List.forall_mem_cons]
    exact ⟨ha, hfree⟩

variable [DecidablePred P]

theorem countP_dropRepeated_cons (a : String) (l : List String) :
    (dropRepeated (a :: l)).countP P =
      (dropRepeated l).countP P + if P a ∧ l.head? ≠ some a then 1 else 0 := by
  cases l with
  | nil => simp [dropRepeated, List.countP_cons]
  | cons b rest =>
    rw [dropRepeated]
    by_cases heq : a = b
    · simp [heq]
    · have hne : b ≠ a := Ne.symm heq
      simp [heq, hne, List.countP_cons]

theorem countP_dropRepeated_eq_zero : (dropRepeated l).countP P = 0 ↔ ∀ b ∈ l, ¬ P b := by
  simp [List.countP_eq_zero, mem_dropRepeated]

theorem together_iff_countP : Together P l ↔ (dropRepeated l).countP P = 1 := by
  induction l with
  | nil =>
    refine iff_of_false ?_ (by simp [dropRepeated])
    rintro ⟨before, a, count, after, heq, -⟩
    simp [List.replicate_succ] at heq
  | cons a l ih =>
    rw [countP_dropRepeated_cons]
    by_cases ha : P a
    · by_cases hhead : l.head? = some a
      · obtain ⟨rest, rfl⟩ := List.head?_eq_some_iff.1 hhead
        rw [if_neg (by simp), Nat.add_zero, ← ih, together_cons_iff_of_pos ha,
          together_cons_iff_of_pos ha]
        constructor
        · rintro ⟨count, after, heq, hfree⟩
          cases count with
          | zero =>
            obtain rfl : a :: rest = after := heq
            exact absurd ha (hfree a List.mem_cons_self)
          | succ count => exact ⟨count, after, (List.cons.inj heq).2, hfree⟩
        · rintro ⟨count, after, rfl, hfree⟩
          exact ⟨count + 1, after, rfl, hfree⟩
      · rw [if_pos ⟨ha, hhead⟩, Nat.add_eq_right, countP_dropRepeated_eq_zero,
          together_cons_iff_of_pos ha]
        constructor
        · rintro ⟨count, after, rfl, hfree⟩
          cases count with
          | zero => exact hfree
          | succ count => exact absurd rfl hhead
        · intro hfree
          exact ⟨0, l, rfl, hfree⟩
    · rw [together_cons_iff_of_neg ha, ih]
      simp [ha]

end Together

/-! ## Candidates of a call -/

/-- What a call may mean through static imports. -/
def importedCandidates (index : TypeIndex) (imports : Imports) (method : String) :
    List (String × MethodDeclaration) :=
  (importedMethodOwners index imports method).flatMap fun owner => index.findMethods owner method

/-- The imported types with static methods of the name, in the order in which they are asked. -/
def methodOwners (index : TypeIndex) (imports : Imports) (method : String) : List String :=
  (staticOwners imports method).filter fun owner =>
    (index.findMethods owner method).any fun (_, m) => m.isStatic

/-- A method is a candidate once if the imports that it comes through stand together. -/
theorem not_duplicate_importedCandidates_iff {index : TypeIndex} {imports : Imports}
    {method : String} {x : String × MethodDeclaration}
    (hx : x ∈ importedCandidates index imports method) :
    ¬ (importedCandidates index imports method).Duplicate x ↔
      Together (fun owner => x ∈ index.findMethods owner method)
        (methodOwners index imports method) := by
  obtain ⟨owner, howner, hmethod⟩ := List.mem_flatMap.1 hx
  have hpos : 0 < (importedMethodOwners index imports method).countP
      fun owner => x ∈ index.findMethods owner method :=
    List.countP_pos_iff.2 ⟨owner, howner, by simpa using hmethod⟩
  rw [together_iff_countP, importedCandidates,
    duplicate_flatMap_iff (index.nodup_findMethods · method) (fun _ => Iff.rfl)]
  change _ ↔ (importedMethodOwners index imports method).countP _ = 1
  omega

/-! ## Imports as they are declared -/

/-- The type whose static members of a name an import declaration names. -/
def staticOwner? (index : TypeIndex) (name : String) (d : ImportDeclaration) : Option String :=
  match d.isStatic, d.onDemand with
  | true, false =>
    if d.segments.getLast? = some name then index.resolveQualified? d.segments.dropLast else none
  | true, true => index.resolveQualified? d.segments
  | _, _ => none

theorem mem_staticOwners_add {index : TypeIndex} {imports : Imports} {name a : String}
    (d : ImportDeclaration) : a ∈ staticOwners (imports.add index d) name ↔
      a ∈ staticOwners imports name ∨ staticOwner? index name d = some a := by
  obtain ⟨segments, isStatic, onDemand⟩ := d
  unfold Imports.add staticOwner?
  cases isStatic with
  | false =>
    cases onDemand with
    | false =>
      dsimp only
      split
      · simp
      · split <;> simp [staticOwners]
    | true => simp [staticOwners]
  | true =>
    cases onDemand with
    | false =>
      dsimp only
      cases segments.getLast? with
      | none => simp
      | some member =>
        cases index.resolveQualified? segments.dropLast with
        | none => simp
        | some binary =>
          by_cases hmember : member = name
          · simp [staticOwners, hmember, @eq_comm _ a, or_comm, or_assoc]
          · simp [staticOwners, hmember]
    | true =>
      dsimp only
      cases index.resolveQualified? segments with
      | none => simp
      | some binary => simp [staticOwners, or_assoc, @eq_comm _ a]

theorem mem_staticOwners_resolve {index : TypeIndex} {name a : String}
    (declarations : List ImportDeclaration) :
    a ∈ staticOwners (.resolve index declarations) name ↔
      ∃ d ∈ declarations, staticOwner? index name d = some a := by
  induction declarations using List.reverseRecOn with
  | nil => simp [Imports.resolve, staticOwners]
  | append_singleton declarations d ih =>
    rw [Imports.resolve, List.foldl_append, List.foldl_cons, List.foldl_nil, mem_staticOwners_add]
    change a ∈ staticOwners (.resolve index declarations) name ∨ _ ↔ _
    simp [ih, or_and_right, exists_or]

theorem mem_importedMethodOwners {index : TypeIndex} {imports : Imports} {method a : String} :
    a ∈ importedMethodOwners index imports method ↔ a ∈ staticOwners imports method ∧
      (index.findMethods a method).any (fun x => x.2.isStatic) = true := by
  rw [importedMethodOwners, mem_dropRepeated, List.mem_filter]

/-- A further import declaration takes no candidate away. -/
theorem importedCandidates_subset (index : TypeIndex) (before after : List ImportDeclaration)
    (d : ImportDeclaration) (method : String) :
    importedCandidates index (.resolve index (before ++ after)) method ⊆
      importedCandidates index (.resolve index (before ++ d :: after)) method := by
  intro x hx
  obtain ⟨owner, howner, hx⟩ := List.mem_flatMap.1 hx
  obtain ⟨himported, hstatic⟩ := mem_importedMethodOwners.1 howner
  obtain ⟨e, he, heowner⟩ := (mem_staticOwners_resolve _).1 himported
  refine List.mem_flatMap.2 ⟨owner, mem_importedMethodOwners.2 ⟨?_, hstatic⟩, hx⟩
  refine (mem_staticOwners_resolve _).2 ⟨e, ?_, heowner⟩
  rcases List.mem_append.1 he with he | he
  · exact List.mem_append_left _ he
  · exact List.mem_append_right _ (List.mem_cons_of_mem _ he)

/-! ## Calls through imports -/

section Calls

variable {sub : Task → Binding Meaning} {ctx : BindingContext} {s t : BindingState} {n name : Node}
  {explicit : List GenericType} {args : List ExprType}

theorem bind_apply {α β : Type} (act : Binding α) (next : α → Binding β) (ctx : BindingContext)
    (s : BindingState) : (act >>= next) ctx s = next (act ctx s).1 ctx (act ctx s).2 := rfl

theorem read_apply (ctx : BindingContext) (s : BindingState) :
    (read : Binding BindingContext) ctx s = (ctx, s) := rfl

theorem get_apply (ctx : BindingContext) (s : BindingState) :
    (get : Binding BindingState) ctx s = (s, s) := rfl

def argumentsOf (n : Node) : List Node := ((n.child? .arguments).map Node.namedChildren).getD []

/-- A call for which several methods of the name are found and none is the most specific one. -/
def ambiguousCall (sub : Task → Binding Meaning) (name : Node) (method : String)
    (places : List Nat) (lambdas : List (Node × Nat)) : Binding ExprType := do
  untypedLambdas sub lambdas
  diagnose name.start .ambiguous
    ("ambiguous call to " ++ method ++ " (" ++ toString places.length ++ " candidates)")
  return .unknown

/-- A call without a qualifier whose method no class around it has, walked up to its arguments. -/
structure ImportedCall (sub : Task → Binding Meaning) (ctx : BindingContext) (s : BindingState)
    (n name : Node) (method : String) (explicit : List GenericType) (args : List ExprType)
    (t : BindingState) : Prop where
  named : n.child? .name = some name
  text : ctx.unit.unit.source.text name = method
  unqualified : n.child? .object = none
  classes : ∀ c ∈ s.scope.enclosingClasses, ctx.index.findMethods c method = []
  arguments : ∃ u, explicitArguments n ctx s = (explicit, u) ∧
    argumentTypes sub (argumentsOf n) ctx u = (args, t)

namespace ImportedCall

variable {method : String} (h : ImportedCall sub ctx s n name method explicit args t)
include h

theorem unqualifiedTarget : unqualifiedTarget method ctx s =
    (⟨importedMethodOwners ctx.index s.scope.header.imports method, none⟩, s) := by
  have hnone : s.scope.enclosingClasses.find?
      (fun c => !(ctx.index.findMethods c method).isEmpty) = none := by
    rw [List.find?_eq_none]
    intro c hc
    simp [h.classes c hc]
  simp only [Binding.unqualifiedTarget, bind_apply, read_apply, get_apply, hnone]
  rfl

/-- A call goes on as the method that is selected through the imports, or is reported. -/
theorem methodInvocation_cases :
    (∀ x, ctx.index.selected? (importedCandidates ctx.index s.scope.header.imports method) args =
        some x → methodInvocation sub n ctx s =
          chosenCall sub name none x.1 x.2 explicit args (lambdasOf (argumentsOf n)) ctx t) ∧
    (∀ places, ctx.index.selectOverload ((importedCandidates ctx.index s.scope.header.imports
        method).map Prod.snd) args = .ambiguous places → methodInvocation sub n ctx s =
          ambiguousCall sub name method places (lambdasOf (argumentsOf n)) ctx t) := by
  obtain ⟨u, hexplicit, hargs⟩ := h.arguments
  have htext : Binding.text name ctx s = (method, s) := congrArg (·, s) h.text
  have htarget : callTarget sub method none ctx s =
      (some ⟨importedMethodOwners ctx.index s.scope.header.imports method, none⟩, s) :=
    congrArg (Prod.map some id) h.unqualifiedTarget
  change argumentTypes sub ((Option.map _ _).getD _) ctx u = _ at hargs
  simp only [methodInvocation, h.named, bind_apply, read_apply, htext, h.unqualified, htarget,
    hexplicit, hargs]
  constructor
  · intro x hx
    unfold TypeIndex.selected? at hx
    split at hx
    · rename_i i hfound
      unfold importedCandidates at hfound hx
      rw [hfound]
      dsimp only
      rw [hx]
      rfl
    · cases hx
  · intro places hambiguous
    unfold importedCandidates at hambiguous
    rw [hambiguous]
    rfl

end ImportedCall

/-- A further import through which a call may mean no more than before leaves its meaning as it was
exactly if the imports through which the method comes are of one type and stand together, types
without static methods of the name left aside. Otherwise the call becomes ambiguous. -/
theorem call_imported_again (before after : List ImportDeclaration) (d : ImportDeclaration)
    {method : String} {x : String × MethodDeclaration}
    (hselected : ctx.index.selected? (importedCandidates ctx.index
      (.resolve ctx.index (before ++ after)) method) args = some x)
    (hagain : importedCandidates ctx.index (.resolve ctx.index (before ++ d :: after)) method ⊆
      importedCandidates ctx.index (.resolve ctx.index (before ++ after)) method)
    (hcall : ImportedCall sub ctx s n name method explicit args t) :
    (s.scope.header.imports = .resolve ctx.index (before ++ after) →
      methodInvocation sub n ctx s =
        chosenCall sub name none x.1 x.2 explicit args (lambdasOf (argumentsOf n)) ctx t) ∧
    (s.scope.header.imports = .resolve ctx.index (before ++ d :: after) →
      (Together (fun owner => x ∈ ctx.index.findMethods owner method)
          (methodOwners ctx.index s.scope.header.imports method) → methodInvocation sub n ctx s =
            chosenCall sub name none x.1 x.2 explicit args (lambdasOf (argumentsOf n)) ctx t) ∧
      (¬ Together (fun owner => x ∈ ctx.index.findMethods owner method)
          (methodOwners ctx.index s.scope.header.imports method) →
        ∃ places, methodInvocation sub n ctx s =
          ambiguousCall sub name method places (lambdasOf (argumentsOf n)) ctx t)) := by
  obtain ⟨hchosen, hambiguous⟩ := hcall.methodInvocation_cases
  refine ⟨fun himports => hchosen x (himports ▸ hselected), fun himports => ?_⟩
  have hsame (y : String × MethodDeclaration) :
      y ∈ importedCandidates ctx.index s.scope.header.imports method ↔
        y ∈ importedCandidates ctx.index (.resolve ctx.index (before ++ after)) method := by
    rw [himports]
    exact ⟨fun hy => hagain hy, fun hy => importedCandidates_subset ctx.index before after d _ hy⟩
  obtain ⟨honce, htwice⟩ := TypeIndex.selected?_of_repeated hsame hselected
  have hx := (hsame x).2 (TypeIndex.exists_of_selected? hselected).1
  rw [← not_duplicate_importedCandidates_iff hx]
  refine ⟨fun hsingle => hchosen x (honce hsingle), fun hseveral => ?_⟩
  obtain ⟨places, hplaces⟩ := htwice (not_not.1 hseveral)
  exact ⟨places, hambiguous places hplaces⟩

end Calls

/-! ## Two types with methods of a name -/

/-- A class with one static method of one parameter. -/
def classTaking (binary : String) (param : Primitive) : TypeDeclaration where
  binary := binary
  kind := .class_
  origin := .library
  methods := [{ name := "m", descriptor := ⟨[.prim param], none⟩, isStatic := true }]

/-- The call `m(1)`, where two classes have a static method of the name. -/
def takersContext : BindingContext where
  index := ({} : TypeIndex).insertAll [classTaking "p.A" .int, classTaking "p.B" .boolean]
  unit := { unit := ⟨"C.java", .ofString "m(1)", none⟩ }

def nameNode : Node := .mk .identifier (some .name) ⟨0, 1⟩ "" []

def takersCall : Node :=
  .mk .methodInvocation none ⟨0, 4⟩ "" [nameNode, .mk .argumentList (some .arguments) ⟨1, 4⟩ ""
    [.mk .decimalInteger none ⟨2, 3⟩ "" []]]

def importOf (type : String) : ImportDeclaration where
  segments := ["p", type, "m"]
  isStatic := true
  onDemand := false

def takersState (imports : List ImportDeclaration) : BindingState where
  scope := { header := { imports := .resolve takersContext.index imports } }

def intTaker : String × MethodDeclaration :=
  ("p.A", { name := "m", descriptor := ⟨[.prim .int], none⟩, isStatic := true })

theorem importedCall_takers (imports : List ImportDeclaration) :
    ImportedCall (nested 1) takersContext (takersState imports) takersCall nameNode "m" []
      [.prim .int] (takersState imports) where
  named := rfl
  text := by decide +kernel
  unqualified := rfl
  classes := nofun
  arguments := ⟨_, rfl, rfl⟩

def takersCandidates (imports : List ImportDeclaration) : List (String × MethodDeclaration) :=
  importedCandidates takersContext.index (.resolve takersContext.index imports) "m"

theorem selected_intTaker : takersContext.index.selected?
    (takersCandidates [importOf "A", importOf "B"]) [.prim .int] = some intTaker := by
  decide +kernel

/-- A second import of the same method leaves the call as it was if it stands next to the first one,
and makes it ambiguous if it stands behind the import of another type. -/
theorem call_imported_again_takers :
    methodInvocation (nested 1) takersCall takersContext
        (takersState [importOf "A", importOf "A", importOf "B"]) =
      chosenCall (nested 1) nameNode none intTaker.1 intTaker.2 [] [.prim .int]
        (lambdasOf (argumentsOf takersCall)) takersContext
        (takersState [importOf "A", importOf "A", importOf "B"]) ∧
    ∃ places, methodInvocation (nested 1) takersCall takersContext
        (takersState [importOf "A", importOf "B", importOf "A"]) =
      ambiguousCall (nested 1) nameNode "m" places (lambdasOf (argumentsOf takersCall))
        takersContext (takersState [importOf "A", importOf "B", importOf "A"]) := by
  have hfirst : ∀ y ∈ takersCandidates [importOf "A", importOf "A", importOf "B"],
      y ∈ takersCandidates [importOf "A", importOf "B"] := by
    decide +kernel
  have hlast : ∀ y ∈ takersCandidates [importOf "A", importOf "B", importOf "A"],
      y ∈ takersCandidates [importOf "A", importOf "B"] := by
    decide +kernel
  constructor
  · refine ((call_imported_again [importOf "A"] [importOf "B"] (importOf "A") selected_intTaker
      (fun y hy => hfirst y hy) (importedCall_takers _)).2 rfl).1 (together_iff_countP.2 ?_)
    decide +kernel
  · refine ((call_imported_again [importOf "A", importOf "B"] [] (importOf "A") selected_intTaker
      (fun y hy => hlast y hy) (importedCall_takers _)).2 rfl).2 (mt together_iff_countP.1 ?_)
    decide +kernel

end Binding

/-- A unit with the given imports in which `m` is declared twice and called once. -/
def takersUnit (imports : String) : String :=
  "package p; " ++ imports ++ "class A { static void m() { } } " ++
    "class B { static void m(int i) { } } class C { C() { m(); } }"

/-- The same import once more, behind another one, and the call is found no more. -/
theorem repeated_import_ambiguous :
    soleSignatures (takersUnit "import static p.A.m; import static p.B.m; ") =
      [["p.A", "p.A.m()V", "p.B", "p.B.m(I)V", "p.A", "p.A.m()V", "p.B", "p.B.m(I)V", "p.B.m(I)V#0",
        "p.C", "p.C", "p.A.m()V"]] ∧
    soleSignatures
        (takersUnit "import static p.A.m; import static p.B.m; import static p.A.m; ") =
      [["p.A", "p.A.m()V", "p.B", "p.B.m(I)V", "p.A", "p.A.m()V", "p.A", "p.A.m()V", "p.B",
        "p.B.m(I)V", "p.B.m(I)V#0", "p.C", "p.C"]] := by
  constructor
  · decide +kernel
  · decide +kernel

end Renaming.Java
