import Renaming.Java.Grammar.Types
import Renaming.Proofs.Java.Phrases

/-!
# What the rules for types build

Each rule is put together as its phrase is, from what its parts build. Where a kind of node promises
something of its parts, it is read off the phrase.
-/

namespace Renaming.Java.Phrase

variable {source : SourceText}

/-- A node that plays a role only if its kind has `P`. -/
def InRole (role : Role) (P : NodeKind → Prop) (n : Node) : Prop := n.role = some role → P n.kind

section InRole

variable {role other : Role} {P : NodeKind → Prop} {a : Phrase}

theorem inRole_none {n : Node} (h : n.role = none) : InRole role P n := by
  intro hrole
  rw [h] at hrole
  cases hrole

theorem inRole_other {n : Node} (h : other ≠ role) : InRole role P (n.as other) := by
  cases n
  intro hrole
  cases hrole
  exact absurd rfl h

theorem yields_leaf {kind : NodeKind} {test : Token → Bool} :
    Yields (InRole role P) (leaf kind test) :=
  .leaf fun _ => inRole_none rfl

theorem yields_node {kind : NodeKind} {parts : List Phrase} :
    Yields (InRole role P) (node kind parts) :=
  .node fun _ => inRole_none rfl

theorem yields_sub {sub : Rule → Phrase} [Regular sub] (rule : Rule) :
    Yields (InRole role P) (sub rule) :=
  (Regular.yields rule).mono fun _ h => inRole_none h.1

theorem yields_other (h : other ≠ role) : Yields (InRole role P) (as a other) :=
  .as (fun _ _ _ _ => trivial) fun _ _ => inRole_other h

theorem yields_role (h : Yields (fun n => P n.kind) a) : Yields (InRole role P) (as a role) :=
  .as h fun n hn _ => by cases n; exact hn

/-- The promise of kinds whose parts play a role only if they are of some kinds. -/
theorem promise_of_yields (h : Yields (InRole role P) a) {ns : List Node} (hns : Taken a ns) :
    ∀ p ∈ ns.map Node.part, p.role = some role → P p.kind := by
  intro p hp
  obtain ⟨n, hn, rfl⟩ := List.mem_map.1 hp
  exact h ns hns n hn

/-- The promise of kinds whose parts have single words for names. -/
theorem named_of_yields (h : Yields (InRole .name (·.isName = true)) a) {ns : List Node}
    (hns : Taken a ns) : ∀ p ∈ ns.map Node.part, p.role = some .name → p.kind.isName = true :=
  promise_of_yields h hns

end InRole

/-- A word in the role of a name. -/
theorem yields_word {kind : NodeKind} {test : Token → Bool} (h : kind.isName = true) :
    Yields (InRole .name (·.isName = true)) (as (leaf kind test) .name) :=
  yields_role (.leaf fun _ => h)

/-- The promise of declarations, and of what they open with. -/
theorem opening_of_opens {a : Phrase} (h : Opens (fun n => n.kind.isOpening = true) a)
    {ns : List Node} (hns : Taken a ns) :
    ∀ first ∈ (ns.map Node.part).head?, first.kind.isOpening = true := by
  intro first hfirst
  rw [List.head?_map] at hfirst
  obtain ⟨n, hn, rfl⟩ := Option.map_eq_some_iff.1 hfirst
  exact h ns hns n hn

theorem opens_leaf {test : Token → Bool} : Opens (fun n => n.kind.isOpening = true)
    (leaf .token test) :=
  .of_yields (.leaf fun _ => rfl)

/-! ## Names -/

theorem builds_name : Builds source [] name :=
  .word rfl fun _ t ht => by
    simp only [isName, Bool.and_eq_true, beq_iff_eq] at ht
    exact ht.1.1

instance : Solid name := Solid.leaf

theorem builds_dottedName : Builds source [] dottedName :=
  .growing .identifier fun _ =>
    .node rfl <| .cons (.given fun _ _ h => h.as_head trivial) <| .cons .symbol <|
      .cons (.as rfl .identifier) .nil

instance : Solid dottedName := Solid.growing

theorem builds_declaredName : Builds source [] declaredName :=
  .either (.word rfl fun _ t ht => by
    simp only [Token.isWord, Bool.and_eq_true, beq_iff_eq] at ht
    exact ht.1) .identifier

/-- Two tokens that touch are one. -/
theorem laid_joined {t u : Token} {ts : List Token} {p q : Nat} (hpq : p ≤ q)
    (hts : Token.Row source q (t :: u :: ts)) :
    ∃ r, Node.Laid source p [.leaf .token (t.join u)] r ∧ Token.Row source r ts := by
  have ht := hts.head
  have hu := hts.tail.head
  have hstart := ht.1.start_lt_stop
  have hstop := hu.1.start_lt_stop
  have hspan : (t.join u).span = ⟨t.span.start, u.span.stop⟩ := rfl
  refine ⟨u.span.stop, .one (.leaf rfl ?_ ?_ nofun) ?_ ?_ ?_, hts.tail.tail⟩
  · rw [hspan]
    dsimp only
    omega
  · exact hu.1.stop_le
  · change p ≤ t.span.start
    omega
  · change t.span.start < u.span.stop
    omega
  · exact Nat.le_refl _

theorem builds_atInterface : Builds source [] atInterface := by
  intro ts ns rest htaken p q hfront hts
  unfold atInterface at htaken
  split at htaken
  · split at htaken
    · cases htaken
      exact laid_joined hfront.le hts
    · cases htaken
  · cases htaken

theorem taken_atInterface {ns : List Node} (h : Taken atInterface ns) :
    ∃ t, ns = [.leaf .token t] := by
  obtain ⟨ts, rest, h⟩ := h
  unfold atInterface at h
  split at h
  · split at h
    · cases h
      exact ⟨_, rfl⟩
    · cases h
  · cases h

instance : Solid atInterface where
  ne_nil h := by
    obtain ⟨t, rfl⟩ := taken_atInterface h
    simp

theorem builds_nonSealed : Builds source [] nonSealed := by
  intro ts ns rest htaken p q hfront hts
  unfold nonSealed at htaken
  split at htaken
  · rename_i t u v rest'
    split at htaken
    · cases htaken
      have ht := hts.head
      have hu := hts.tail.head
      have hv := hts.tail.tail.head
      have hpq := hfront.le
      have ht' := ht.1.start_lt_stop
      have hu' := hu.1.start_lt_stop
      have hv' := hv.1.start_lt_stop
      have hspan : ((t.join u).join v).span = ⟨t.span.start, v.span.stop⟩ := rfl
      refine ⟨v.span.stop, .one (.leaf rfl ?_ ?_ nofun) ?_ ?_ ?_, hts.tail.tail.tail⟩
      · rw [hspan]
        dsimp only
        omega
      · exact hv.1.stop_le
      · change p ≤ t.span.start
        omega
      · change t.span.start < v.span.stop
        omega
      · exact Nat.le_refl _
    · cases htaken
  · cases htaken

theorem taken_nonSealed {ns : List Node} (h : Taken nonSealed ns) :
    ∃ t, ns = [.leaf .token t] := by
  obtain ⟨ts, rest, h⟩ := h
  unfold nonSealed at h
  split at h
  · split at h
    · cases h
      exact ⟨_, rfl⟩
    · cases h
  · cases h

theorem builtInType?_isPlainType {text : String} {kind : NodeKind}
    (h : builtInType? text = some kind) : kind.isPlainType = true ∧ kind.isBare = true := by
  unfold builtInType? at h
  split at h <;> cases h <;> exact ⟨rfl, rfl⟩

theorem builtInType?_isName {text : String} {kind : NodeKind}
    (h : builtInType? text = some kind) : kind.isName = false := by
  unfold builtInType? at h
  split at h <;> cases h <;> rfl

theorem builds_builtInType : Builds source [] builtInType := by
  intro ts ns rest htaken p q hfront hts
  unfold builtInType at htaken
  split at htaken
  · split at htaken
    · obtain ⟨kind, hkind, heq⟩ := Option.map_eq_some_iff.1 htaken
      cases heq
      refine Builds.laid_leaf hfront.le hts (builtInType?_isPlainType hkind).2 fun h => ?_
      rw [builtInType?_isName hkind] at h
      cases h
    · cases htaken
  · cases htaken

theorem taken_builtInType {ns : List Node} (h : Taken builtInType ns) :
    ∃ kind t, ns = [.leaf kind t] ∧ kind.isPlainType = true := by
  obtain ⟨ts, rest, h⟩ := h
  unfold builtInType at h
  split at h
  · split at h
    · obtain ⟨kind, hkind, heq⟩ := Option.map_eq_some_iff.1 h
      cases heq
      exact ⟨kind, _, rfl, (builtInType?_isPlainType hkind).1⟩
    · cases h
  · cases h

instance : Solid builtInType where
  ne_nil h := by
    obtain ⟨kind, t, rfl, -⟩ := taken_builtInType h
    simp

/-! ## Annotations -/

variable {sub : Rule → Phrase} (hsub : ∀ rule, Builds source [] (sub rule))
include hsub

theorem builds_annotations : Builds source [] (annotations sub) := (hsub _).many

omit hsub in
theorem yields_annotations [Regular sub] {role : Role} {P : NodeKind → Prop} :
    Yields (InRole role P) (annotations sub) :=
  (yields_sub _).many

theorem builds_elementArray : Builds source [] (elementArray sub) :=
  .node rfl <| .cons .symbol <| .cons (.commas (hsub _)) <| .cons (.optional .symbol) <|
    .cons .symbol .nil

theorem builds_elementValue : Builds source [] (elementValue sub) :=
  .or (builds_elementArray hsub) <| .or (hsub _) <| .or (hsub _) .none

theorem builds_elementList [Regular sub] : Builds source [] (elementList sub) :=
  have hkey : Builds source [] (as identifier .key) :=
    .asKind .identifier fun ns hns n hn => by
      obtain ⟨t, -, rfl⟩ := taken_leaf hns
      rw [List.mem_singleton.1 hn]
      rfl
  have hpair : Builds source [] (elementPair sub) :=
    .node rfl <| .cons hkey <| .cons .symbol <| .cons (.as rfl (hsub _)) .nil
  .node rfl <| .cons .symbol <|
    .cons (.either (.followedBy (.ahead _) (.separated .symbol hpair)) (.optional (hsub _))) <|
    .cons .symbol .nil

theorem builds_annotated [Regular sub] : Builds source [] (annotated sub) := by
  refine .andThen (.cons (.notAhead _) <| .cons .symbol <| .cons (.as rfl builds_dottedName) .nil)
    fun named hnamed => ?_
  have : Solid (given named) := .of_ne_nil (Solid.ne_nil hnamed)
  have hopens : Opens (fun n => n.kind.isOpening = true) (given named) := by
    intro ns hns
    rw [taken_given hns]
    exact (Opens.cons (.of_yields .notAhead) (.first opens_leaf)) named hnamed
  refine .either (.shaped rfl ?_ fun ns hns => .one rfl ?_)
    (.shaped rfl ?_ fun ns hns => .one rfl ?_)
  · exact .cons .same <| .cons (.as rfl (builds_elementList hsub)) .nil
  · exact opening_of_opens (.first hopens) hns
  · exact .cons .same .nil
  · exact opening_of_opens (.first hopens) hns

/-! ## Types -/

theorem builds_wildcard : Builds source [] (wildcard sub) :=
  .node rfl <| .cons (builds_annotations hsub) <| .cons .symbol <|
    .cons (.optional (.either (.cons .keyword <| .cons (hsub _) .nil)
      (.cons (.leaf rfl) <| .cons (hsub _) .nil))) .nil

theorem builds_typeArguments : Builds source [] (typeArguments sub) :=
  .node rfl <| .cons .symbol <| .cons (.commas (.either (builds_wildcard hsub) (hsub _))) <|
    .cons .symbol .nil

omit hsub in
theorem isOpening_of_isPlainType {k : NodeKind} (h : k.isPlainType = true) :
    k.isOpening = true := by
  cases k <;> first | rfl | cases h

omit hsub in
theorem opens_given {n : Node} {parts : List Phrase} (h : n.kind.isOpening = true) :
    Opens (fun n => n.kind.isOpening = true) (sequence (given [n] :: parts)) :=
  .first (.of_yields (.given (by simpa using h)))

theorem builds_typeStep {n : Node} (hn : n.kind.isPlainType = true) :
    Builds source [n] (typeStep sub n) := by
  have hopening := isOpening_of_isPlainType hn
  refine .either (.shaped rfl ?_ fun ns hns => .one rfl ?_) ?_
  · exact .cons .same <| .cons .symbol <| .cons (builds_annotations hsub) <|
      .cons (.notAhead _) <| .cons (.leaf rfl) .nil
  · exact opening_of_opens (opens_given hopening) hns
  · split
    · exact .refuse
    · refine .shaped rfl (.cons .same <| .cons (builds_typeArguments hsub) .nil) fun ns hns =>
        .one rfl ?_
      exact opening_of_opens (opens_given hopening) hns

/-- Types that are no annotated types, and play no role yet. -/
def PlainType (n : Node) : Prop := n.role = none ∧ n.kind.isPlainType = true

omit hsub in
theorem gives_typeStep (n : Node) : Gives PlainType (typeStep sub n) := by
  refine .either (.node fun _ => ⟨rfl, rfl⟩) ?_
  split
  · exact .refuse
  · exact .node fun _ => ⟨rfl, rfl⟩

theorem builds_simpleType : Builds source [] (simpleType sub) := by
  refine .either builds_builtInType (.growingWith (K := PlainType) (.leaf rfl) (fun n hn => ?_)
    (fun n hn => builds_typeStep hsub hn.2) fun n m _ hm => ?_)
  · exact (Yields.leaf fun _ => ⟨rfl, rfl⟩ : Yields PlainType _) _ hn n (by simp)
  · exact (gives_typeStep n).yields _ hm m (by simp)

instance : Solid (simpleType sub) := inferInstanceAs (Solid (either _ (growing _ _)))

omit hsub in
theorem gives_simpleType : Gives PlainType (simpleType sub) := by
  refine .either (fun ns hns => ?_) (.growing (.leaf fun _ => ⟨rfl, rfl⟩) gives_typeStep)
  obtain ⟨kind, t, rfl, hkind⟩ := taken_builtInType hns
  exact ⟨_, rfl, rfl, hkind⟩

theorem builds_dimensions : Builds source [] (dimensions sub) :=
  .node rfl <| .cons (.atLeastOne (.cons (builds_annotations hsub) <| .cons .symbol <|
    .cons .symbol .nil)) .nil

omit hsub in
theorem gives_plainType : Gives PlainType (plainType sub) := by
  refine .growing gives_simpleType fun n => ?_
  split
  · exact .refuse
  · exact .node fun _ => ⟨rfl, rfl⟩

theorem builds_plainType : Builds source [] (plainType sub) := by
  refine .growingWith (K := PlainType) (builds_simpleType hsub)
    (fun n hn => gives_simpleType.yields _ hn n (by simp)) (fun n hn => ?_) fun n m _ hm => ?_
  · split
    · exact .refuse
    · refine .shaped rfl (.cons (.given fun _ _ h => h.as_head trivial) <|
        .cons (.as rfl (builds_dimensions hsub)) .nil) fun ns hns => .one rfl ?_
      refine opening_of_opens (opens_given ?_) hns
      cases n
      exact isOpening_of_isPlainType hn.2
  · split at hm
    · exact (taken_refuse hm).elim
    · exact (Yields.node fun _ => ⟨rfl, rfl⟩ : Yields PlainType _) _ hm m (by simp)

theorem builds_type [Regular sub] : Builds source [] (type sub) :=
  .either (.node rfl <| .cons (.atLeastOne (hsub _)) <| .cons (hsub _) .nil) (hsub _)

theorem builds_typeList [Regular sub] : Builds source [] (typeList sub) :=
  .node rfl <| .cons (.separated .symbol (hsub _)) .nil

theorem builds_typeParameters [Regular sub] : Builds source [] (typeParameters sub) := by
  have hbound : Builds source [] (typeBound sub) :=
    .node rfl <| .cons .keyword <| .cons (.separated .symbol (hsub _)) .nil
  have hparameter : Builds source [] (typeParameter sub) :=
    .node rfl <| .cons (builds_annotations hsub) <| .cons (.leaf rfl) <|
      .cons (.optional hbound) .nil
  refine .shaped rfl ?_ fun ns hns => .one rfl (opening_of_opens (.first opens_leaf) hns)
  exact .cons .symbol <| .cons (.separated .symbol hparameter) <| .cons .symbol .nil

/-! ## Declarators and parameters -/

theorem builds_declaratorName : Builds source [] (declaratorName sub) :=
  .cons (.as rfl builds_declaredName) <| .cons (.optional (.as rfl (builds_dimensions hsub))) .nil

instance : Solid (declaratorName sub) :=
  inferInstanceAs (Solid (sequence [as (either (leaf _ _) identifier) _, optional _]))

omit hsub in
theorem yields_declaratorName :
    Yields (InRole .name (·.isName = true)) (declaratorName sub) :=
  .cons (yields_role (.either (.leaf fun _ => rfl) (.leaf fun _ => rfl))) <|
    .cons (.optional (yields_other (by simp))) .nil

theorem builds_variableDeclarator : Builds source [] (variableDeclarator sub) := by
  refine .shaped rfl (.cons (builds_declaratorName hsub) <|
    .cons (.optional (.cons .symbol <| .cons (.as rfl (hsub _)) .nil)) .nil) fun ns hns =>
      .one rfl (named_of_yields ?_ hns)
  exact .cons yields_declaratorName <|
    .cons (.optional (.cons yields_leaf <| .cons (yields_other (by simp)) .nil)) .nil

theorem builds_declarators : Builds source [] (declarators sub) := by
  refine .separated .symbol (.asKind (builds_variableDeclarator hsub) fun ns hns n hn => ?_)
  obtain ⟨x, -, rfl⟩ := taken_node hns
  rw [List.mem_singleton.1 hn]
  rfl

theorem builds_modifiers [Regular sub] : Builds source [] (modifiers sub) := by
  have hannotated : Yields (fun n => n.kind.isOpening = true) (sub .annotated) := by
    refine (Regular.yields _).mono fun n hn => ?_
    have hkind : n.kind.isAnnotated = true := hn.2
    simp only [NodeKind.isAnnotated, Bool.or_eq_true, beq_iff_eq] at hkind
    rcases hkind with h | h <;> rw [h] <;> rfl
  have hsealed : Yields (fun n => n.kind.isOpening = true) nonSealed := by
    intro ns hns n hn
    obtain ⟨t, rfl⟩ := taken_nonSealed hns
    rw [List.mem_singleton.1 hn]
    rfl
  have : Solid (oneOf [sub .annotated, nonSealed,
      leaf .token fun t => t.kind == .word && modifierWords.contains t.text]) := by
    constructor
    intro ns hns
    obtain ⟨a, ha, hns⟩ := taken_oneOf hns
    simp only [List.mem_cons, List.not_mem_nil, or_false] at ha
    rcases ha with rfl | rfl | rfl
    · exact Solid.ne_nil hns
    · obtain ⟨t, rfl⟩ := taken_nonSealed hns
      simp
    · exact Solid.ne_nil hns
  refine .optional (.shaped rfl (.cons (.atLeastOne (.or (hsub _) <| .or builds_nonSealed <|
    .or (.leaf rfl) .none)) .nil) fun ns hns =>
      .one rfl (opening_of_opens (.of_yields ?_) hns))
  refine .cons (.atLeastOne (.oneOf ?_)) .nil
  simp only [List.forall_mem_cons, List.not_mem_nil, false_implies, implies_true, and_true]
  exact ⟨hannotated, hsealed, .leaf fun _ => rfl⟩

omit hsub in
theorem taken_modifiers {ms : List Node} (h : Taken (modifiers sub) ms) :
    ∀ m ∈ ms, m.role = none ∧ m.kind = .modifiers := by
  rcases taken_optional h with h | rfl
  · obtain ⟨x, -, rfl⟩ := taken_node h
    simpa using ⟨rfl, rfl⟩
  · simp

omit hsub in
theorem yields_modifiers {role : Role} {P : NodeKind → Prop} :
    Yields (InRole role P) (modifiers sub) :=
  fun _ hns n hn => inRole_none (taken_modifiers hns n hn).1

theorem builds_receiverParameter [Regular sub] : Builds source [] (receiverParameter sub) := by
  refine .shaped rfl (.cons (builds_annotations hsub) <| .cons (hsub _) <|
    .cons (.many (.cons (.notAhead _) <| .cons .identifier <| .cons .symbol .nil)) <|
    .cons (.leaf rfl) .nil) fun ns hns => .one rfl fun p hp => ?_
  obtain ⟨n, hn, rfl⟩ := List.mem_map.1 hp
  have hnone : Yields (fun n => n.role = none) (sequence [annotations sub, sub .plainType,
      many (sequence [notAhead (keyword "this"), identifier, symbol "."]),
      leaf .this (·.isWord "this")]) := by
    refine .cons (.many ((Regular.yields _).mono fun _ h => h.1)) <|
      .cons ((Regular.yields _).mono fun _ h => h.1) <|
      .cons (.many (.cons .notAhead <| .cons (.leaf fun _ => rfl) <|
        .cons (.leaf fun _ => rfl) .nil)) <| .cons (.leaf fun _ => rfl) .nil
  change n.role ≠ _
  rw [hnone ns hns n hn]
  simp

theorem builds_formalParameter [Regular sub] : Builds source [] (formalParameter sub) := by
  refine .andThen (builds_modifiers hsub) fun ms hms => .andThen (hsub _) fun type htype => ?_
  have hmodifiers : ∀ m ∈ ms, m.role = none := fun m hm => (taken_modifiers hms m hm).1
  have hplain : ∀ n ∈ type, PlainType n := (Regular.yields .plainType) type htype
  obtain ⟨t, ht⟩ := List.exists_mem_of_ne_nil type (Solid.ne_nil htype)
  have hisType : t.kind.isType = true := by
    have hkind := (hplain t ht).2
    simp only [NodeKind.isPlainType, Bool.and_eq_true] at hkind
    exact hkind.1
  refine .either (.shaped rfl (.givens ?_) fun ns hns => .two rfl ?_ ?_)
    (.shaped rfl (.givens ?_) fun ns hns => .two rfl (named_of_yields ?_ hns) ?_)
  · exact .cons .same <| .cons .symbol <| .cons (builds_annotations hsub) <|
      .cons (builds_variableDeclarator hsub) .nil
  · obtain ⟨x, y, hx, hy, rfl⟩ := taken_cons hns
    obtain ⟨x', y', hx', -, rfl⟩ := taken_cons hy
    rw [taken_given hx']
    exact ⟨t.part, List.mem_map.2 ⟨t, by simp [ht], rfl⟩, hisType⟩
  · intro p hp
    obtain ⟨n, hn, rfl⟩ := List.mem_map.1 hp
    have hnone : Yields (fun n => n.role = none) (sequence [given ms, given type, symbol "...",
        annotations sub, variableDeclarator sub]) :=
      .cons (.given hmodifiers) <| .cons (.given fun n hn => (hplain n hn).1) <|
        .cons (.leaf fun _ => rfl) <| .cons (.many ((Regular.yields _).mono fun _ h => h.1)) <|
        .cons (.node fun _ => rfl) .nil
    change n.role ≠ _
    rw [hnone ns hns n hn]
    simp
  · exact .cons (.given fun p q h => h.as_tail fun _ _ => trivial) <|
      .cons (builds_declaratorName hsub) .nil
  · exact .cons (.given fun m hm => inRole_none (hmodifiers m hm)) <|
      .cons (.given (by
        intro n hn
        obtain ⟨m, -, rfl⟩ := List.mem_map.1 hn
        exact inRole_other (by simp))) <| .cons yields_declaratorName .nil
  · obtain ⟨x, y, hx, hy, rfl⟩ := taken_cons hns
    obtain ⟨x', y', hx', -, rfl⟩ := taken_cons hy
    rw [taken_given hx']
    refine ⟨(t.as .type).part, ?_, ?_⟩
    · simp only [List.map_append, List.mem_append]
      exact .inr (.inl (List.mem_map.2 ⟨_, List.mem_map_of_mem ht, rfl⟩))
    · cases t
      exact ⟨rfl, hisType⟩

theorem builds_formalParameters [Regular sub] : Builds source [] (formalParameters sub) := by
  refine .shaped rfl (.cons .symbol <|
    .cons (.either (.cons (builds_receiverParameter hsub) <| .cons (.ahead _) .nil)
      (.cons (.optional (.cons (builds_receiverParameter hsub) <| .cons .symbol .nil)) <|
        .cons (.commas (builds_formalParameter hsub)) .nil)) <|
    .cons .symbol .nil) fun ns hns => .one rfl fun p hp => ?_
  obtain ⟨n, hn, rfl⟩ := List.mem_map.1 hp
  have htoken (text : String) :
      Yields (fun n => n.kind ≠ .token → n.kind.isParameter = true) (symbol text) :=
    .leaf fun _ h => absurd rfl h
  have hreceiver : Yields (fun n => n.kind ≠ .token → n.kind.isParameter = true)
      (receiverParameter sub) := .node fun _ _ => rfl
  have hformal : Yields (fun n => n.kind ≠ .token → n.kind.isParameter = true)
      (formalParameter sub) :=
    .andThen fun _ _ => .andThen fun _ _ => .either (.node fun _ _ => rfl) (.node fun _ _ => rfl)
  have hlist := Yields.cons (htoken "(") <|
    .cons (.either (.cons hreceiver <| .cons (.ahead (a := symbol ")")) .nil)
      (.cons (.optional (.cons hreceiver <| .cons (htoken ",") .nil)) <|
        .cons (.optional (.separated (htoken ",") hformal)) .nil)) <|
    .cons (htoken ")") .nil
  exact hlist ns hns n hn

end Renaming.Java.Phrase
