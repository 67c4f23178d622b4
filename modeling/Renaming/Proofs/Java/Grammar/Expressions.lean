import Renaming.Java.Grammar.Expressions
import Renaming.Proofs.Java.Grammar.Types

/-!
# What the rules for expressions build

Operators that start with `>` are the only tokens put together here.
-/

namespace Renaming.Java.Phrase

variable {source : SourceText}

/-! ## Operators -/

/-- Tokens that are put together lie where the first of them starts. -/
theorem joinAngles_row {n : Nat} {t u : Token} {ts rest : List Token}
    (h : joinAngles n t ts = (u, rest)) (hspan : t.span.start < t.span.stop)
    (hstop : t.span.stop ≤ source.chars.size) (hts : Token.Row source t.span.stop ts) :
    u.span.start = t.span.start ∧ u.span.start < u.span.stop ∧ u.span.stop ≤ source.chars.size ∧
      Token.Row source u.span.stop rest := by
  have hjoin (t v : Token) : (t.join v).span = ⟨t.span.start, v.span.stop⟩ := rfl
  fun_induction joinAngles n t ts with
  | case1 n t v rest' =>
    cases h
    have hv := hts.head
    have hv' := hv.1.start_lt_stop
    rw [hjoin]
    exact ⟨rfl, by dsimp only; omega, hv.1.stop_le, hts.tail⟩
  | case3 t v rest' _ _ _ n ih =>
    have hv := hts.head
    have hv' := hv.1.start_lt_stop
    exact ih h (by rw [hjoin]; dsimp only; omega) hv.1.stop_le hts.tail
  | case2 | case4 | case5 | case6 =>
    cases h
    exact ⟨rfl, hspan, hstop, hts⟩

theorem operatorToken_row {t : Token} {q : Nat} {ts rest : List Token}
    (h : operatorToken ts = some (t, rest)) (hts : Token.Row source q ts) :
    q ≤ t.span.start ∧ t.span.start < t.span.stop ∧ t.span.stop ≤ source.chars.size ∧
      Token.Row source t.span.stop rest := by
  cases ts with
  | nil => cases h
  | cons first ts =>
    obtain ⟨hplaced, hq⟩ := hts.head
    simp only [operatorToken] at h
    split at h
    · obtain ⟨hstart, hrest⟩ := joinAngles_row (Option.some.inj h) hplaced.start_lt_stop
        hplaced.stop_le hts.tail
      exact ⟨by omega, hrest⟩
    · split at h
      · cases h
        exact ⟨hq, hplaced.start_lt_stop, hplaced.stop_le, hts.tail⟩
      · cases h

theorem builds_operator {test : String → Bool} : Builds source [] (operator test) := by
  intro ts ns rest htaken p q hfront hts
  obtain ⟨⟨t, mid⟩, htoken, htaken⟩ := Option.bind_eq_some_iff.1 htaken
  obtain ⟨hq, hspan, hstop, hmid⟩ := operatorToken_row htoken hts
  have hgrown : Node.Grown source (.leaf .token t) := .leaf rfl hspan hstop nofun
  dsimp only at htaken
  split at htaken
  · cases htaken
    exact ⟨_, .one (hgrown.as trivial) (Nat.le_trans hfront.le hq) hspan (Nat.le_refl _), hmid⟩
  · cases htaken

variable {sub : Rule → Phrase} (hsub : ∀ rule, Builds source [] (sub rule))
include hsub

instance [Regular sub] : Solid (expression sub) := (Regular.gives _).solid

theorem builds_argumentList : Builds source [] (argumentList sub) :=
  .node rfl <| .cons .symbol <| .cons (.commas (hsub _)) <| .cons .symbol .nil

theorem builds_parenthesized : Builds source [] (parenthesized sub) :=
  .node rfl <| .cons .symbol <| .cons (hsub _) <| .cons .symbol .nil

theorem builds_arrayInitializer : Builds source [] (arrayInitializer sub) :=
  .node rfl <| .cons .symbol <| .cons (.commas (hsub _)) <| .cons (.optional .symbol) <|
    .cons .symbol .nil

theorem builds_initializer : Builds source [] (initializer sub) :=
  .either (builds_arrayInitializer hsub) (hsub _)

/-! ## Creation -/

theorem builds_arrayShape : Builds source [] (arrayShape sub) :=
  have hexpression : Builds source [] (dimensionsExpression sub) :=
    .node rfl <| .cons (builds_annotations hsub) <| .cons .symbol <| .cons (hsub _) <|
      .cons .symbol .nil
  .either
    (.cons (.atLeastOne (.as rfl hexpression)) <|
      .cons (.optional (.as rfl (builds_dimensions hsub))) .nil)
    (.cons (.as rfl (builds_dimensions hsub)) <|
      .cons (.as rfl (builds_arrayInitializer hsub)) .nil)

theorem builds_objectCreation {qualifier : List Node} :
    Builds source qualifier (objectCreation sub qualifier) :=
  .node rfl <| .cons .same <| .cons .keyword <| .cons (builds_annotations hsub) <|
    .cons (.optional (.cons (.as rfl (builds_typeArguments hsub)) <|
      .cons (builds_annotations hsub) .nil)) <|
    .cons (.as rfl (builds_simpleType hsub)) <| .cons (.as rfl (builds_argumentList hsub)) <|
    .cons (.optional (hsub _)) .nil

theorem builds_creation : Builds source [] (creation sub) :=
  .either (builds_objectCreation hsub) <|
    .node rfl <| .cons .keyword <| .cons (builds_annotations hsub) <|
      .cons (.as rfl (builds_simpleType hsub)) <| .cons (builds_arrayShape hsub) .nil

/-! ## Primary expressions -/

omit hsub in
theorem builds_field :
    Builds source [] (as (either (leaf .this (·.isWord "this")) identifier) .field) := by
  refine .asKind (.either (.leaf rfl) .identifier) fun ns hns n hn => ?_
  rcases taken_either hns with h | h
  · obtain ⟨t, -, rfl⟩ := taken_leaf h
    rw [List.mem_singleton.1 hn]
    exact .inl rfl
  · obtain ⟨t, -, rfl⟩ := taken_leaf h
    rw [List.mem_singleton.1 hn]
    exact .inr rfl

omit hsub in
/-- Nothing but the first node in front of a dot is what is accessed. -/
theorem accessed_of_taken {nodes ns : List Node}
    (hnodes : ∀ n ∈ nodes.tail, InRole .object (fun _ => False) n)
    (h : Taken (sequence [given nodes, notAhead (atWord ["super"]),
      (either (leaf .this (·.isWord "this")) identifier).as .field]) ns) :
    ∀ p ∈ (ns.map Node.part).tail, p.role ≠ some .object := by
  obtain ⟨x, rest, hx, hrest, rfl⟩ := taken_cons h
  rw [taken_given hx]
  have hfield : Yields (InRole .object fun _ => False) (sequence [notAhead (atWord ["super"]),
      (either (leaf .this (·.isWord "this")) identifier).as .field]) :=
    .cons .notAhead <| .cons (yields_other (by simp)) .nil
  intro p hp hrole
  rw [← List.map_tail] at hp
  obtain ⟨n, hn, rfl⟩ := List.mem_map.1 hp
  have hmem : n ∈ nodes.tail ∨ n ∈ rest := by
    cases nodes with
    | nil => exact .inr (List.mem_of_mem_tail hn)
    | cons first others => exact List.mem_append.1 hn
  rcases hmem with hn | hn
  · exact hnodes n hn hrole
  · exact hfield rest hrest n hn hrole

theorem builds_selected {front nodes : List Node}
    (hnodes : ∀ p q, Node.Laid source p front q → Node.Laid source p nodes q)
    (hnamed : ∀ n ∈ nodes, InRole .name (·.isName = true) n)
    (hobject : ∀ n ∈ nodes.tail, InRole .object (fun _ => False) n) :
    Builds source front (selected sub nodes) := by
  refine .either (.shaped rfl (.cons (.given hnodes) <|
    .cons (.optional (.as rfl (builds_typeArguments hsub))) <| .cons (.notAhead _) <|
    .cons (.as rfl .identifier) <| .cons (.as rfl (builds_argumentList hsub)) .nil) fun ns hns =>
      .one rfl (named_of_yields ?_ hns))
    (.shaped rfl (.cons (.given hnodes) <| .cons (.notAhead _) <| .cons builds_field .nil)
      fun ns hns => .one rfl (accessed_of_taken hobject hns))
  exact .cons (.given hnamed) <| .cons (.optional (yields_other (by simp))) <| .cons .notAhead <|
    .cons (yields_word rfl) <| .cons (yields_other (by simp)) .nil

theorem builds_methodReference {n : Node} : Builds source [n] (methodReference sub n) :=
  .node rfl <| .cons .same <| .cons .symbol <| .cons (.optional (builds_typeArguments hsub)) <|
    .cons (.either .keyword .identifier) .nil

theorem builds_primaryStep (n : Node) : Builds source [n] (primaryStep sub n) := by
  refine .or (.andThen .symbol fun dot hdot => ?_) <| .or ?_ <|
    .or (builds_methodReference hsub) .none
  · have hdot' {role : Role} {P : NodeKind → Prop} : ∀ m ∈ dot, InRole role P m :=
      yields_leaf dot hdot
    refine .or (builds_objectCreation hsub) <| .or ?_ <| .or ?_ <| .or ?_ .none
    · refine .andThen (.cons (.leaf rfl) <| .cons .symbol .nil) fun outer houter => ?_
      have hfront {role : Role} {P : NodeKind → Prop} : ∀ m ∈ dot ++ outer, InRole role P m :=
        List.forall_mem_append.2
          ⟨hdot', (Yields.cons yields_leaf <| .cons yields_leaf .nil) outer houter⟩
      exact builds_selected hsub (fun _ _ h => h.as_head trivial)
        (List.forall_mem_cons.2 ⟨inRole_other (by simp), hfront⟩) hfront
    · exact .node rfl <| .cons (.given fun _ _ h => h.as_head trivial) <|
        .cons (.as rfl (.leaf rfl)) .nil
    · exact builds_selected hsub (fun _ _ h => h.as_head trivial)
        (List.forall_mem_cons.2 ⟨inRole_other (by simp), hdot'⟩) hdot'
  · exact .node rfl <| .cons (.given fun _ _ h => h.as_head trivial) <| .cons .symbol <|
      .cons (.as rfl (hsub _)) <| .cons .symbol .nil

theorem builds_typeHeaded : Builds source [] (typeHeaded sub) := by
  refine .andThen (hsub _) fun types htypes => ?_
  split
  · refine .either (.node rfl <| .cons .same <| .cons .symbol <| .cons .keyword .nil) ?_
    split
    · exact .refuse
    · exact builds_methodReference hsub
  · exact .refuse

omit hsub in
theorem isBare_of_isLiteral {k : NodeKind} (h : k.isLiteral = true) :
    k.isBare = true ∧ k.isName = false := by
  unfold NodeKind.isLiteral at h
  split at h <;> first | exact ⟨rfl, rfl⟩ | cases h

omit hsub in
theorem builds_literal : Builds source [] literal := by
  intro ts ns rest htaken p q hfront hts
  unfold literal at htaken
  split at htaken
  · rename_i t rest'
    have hleaf (kind : NodeKind) (hkind : kind.isBare = true ∧ kind.isName = false)
        (h : some ([Node.leaf kind t], rest') = some (ns, rest)) :
        ∃ r, Node.Laid source p ns r ∧ Token.Row source r rest := by
      cases h
      refine Builds.laid_leaf hfront.le hts hkind.1 fun hname => ?_
      rw [hkind.2] at hname
      cases hname
    split at htaken
    · rename_i kind hkind
      have htells := hts.head.1.tells
      rw [hkind] at htells
      exact hleaf kind (isBare_of_isLiteral htells) htaken
    · exact hleaf _ ⟨rfl, rfl⟩ htaken
    · exact hleaf _ ⟨rfl, rfl⟩ htaken
    · exact hleaf _ ⟨rfl, rfl⟩ htaken
    · exact hleaf _ ⟨rfl, rfl⟩ htaken
    · cases htaken
  · cases htaken

omit hsub in
theorem taken_literal {ns : List Node} (h : Taken literal ns) : ∃ kind t, ns = [.leaf kind t] := by
  obtain ⟨ts, rest, h⟩ := h
  unfold literal at h
  split at h
  · split at h <;> cases h <;> exact ⟨_, _, rfl⟩
  · cases h

theorem builds_primary : Builds source [] (primary sub) := by
  have hcall : Builds source [] (node .methodInvocation
      [name.as .name, (argumentList sub).as .arguments]) := by
    refine .shaped rfl (.cons (.as rfl builds_name) <|
      .cons (.as rfl (builds_argumentList hsub)) .nil) fun ns hns =>
        .one rfl (named_of_yields ?_ hns)
    exact .cons (yields_word rfl) <| .cons (yields_other (by simp)) .nil
  have hstart : Builds source [] (primaryStart sub) :=
    .or builds_literal <| .or (builds_parenthesized hsub) <| .or (builds_creation hsub) <|
      .or (.cons (.leaf rfl) <| .cons (.ahead _) .nil) <| .or (builds_typeHeaded hsub) <|
      .or hcall <| .or builds_name .none
  refine .andThen (.growing hstart (builds_primaryStep hsub)) fun ns _ => ?_
  split
  · exact .refuse
  · exact .same

/-! ## Operators -/

theorem builds_binaryTail [Regular sub] (level : Nat) (arrows : Bool) (left : Node) :
    Builds source [left] (binaryTail sub level arrows left) := by
  intro ts ns rest htaken
  obtain ⟨⟨t, _⟩, -, htaken⟩ := Option.bind_eq_some_iff.1 htaken
  obtain ⟨own, -, htaken⟩ := Option.bind_eq_some_iff.1 htaken
  have hnode : Builds source [left] (node .binaryExpression
      [given [left.as .left], operator fun _ => true,
        (sub (.expression (own + 1) arrows)).as .right]) :=
    .node rfl <| .cons (.given fun _ _ h => h.as_head trivial) <| .cons builds_operator <|
      .cons (.as rfl (hsub _)) .nil
  split at htaken
  · cases htaken
  · exact hnode ts ns rest htaken

theorem builds_instanceofTail [Regular sub] (level : Nat) (left : Node) :
    Builds source [left] (instanceofTail sub level left) := by
  unfold instanceofTail
  split
  · exact .refuse
  · refine .shaped rfl (.cons (.given fun _ _ h => h.as_head trivial) <| .cons .keyword <|
      .cons (.optional .keyword) <|
      .cons (.either (.as rfl (hsub _))
        (.cons (.as rfl (hsub _)) <| .cons (.optional (.as rfl .identifier)) .nil)) .nil)
        fun ns hns => .one rfl (named_of_yields ?_ hns)
    exact .cons (.given (by simpa using inRole_other (by simp))) <| .cons yields_leaf <|
      .cons (.optional yields_leaf) <|
      .cons (.either (yields_other (by simp))
        (.cons (yields_other (by simp)) <| .cons (.optional (yields_word rfl)) .nil)) .nil

theorem builds_conditionalTail [Regular sub] (level : Nat) (arrows : Bool) (condition : Node) :
    Builds source [condition] (conditionalTail sub level arrows condition) := by
  unfold conditionalTail
  split
  · exact .refuse
  · exact .node rfl <| .cons (.given fun _ _ h => h.as_head trivial) <| .cons .symbol <|
      .cons (.as rfl (hsub _)) <| .cons .symbol <| .cons (.as rfl (hsub _)) .nil

omit hsub in
theorem builds_updateTail (level : Nat) (n : Node) : Builds source [n] (updateTail level n) := by
  unfold updateTail
  split
  · exact .refuse
  · exact .node rfl <| .cons .same <| .cons (.either .symbol .symbol) .nil

theorem builds_assignmentTail [Regular sub] (arrows : Bool) (left : Node) :
    Builds source [left] (assignmentTail sub arrows left) := by
  unfold assignmentTail
  split
  · exact .node rfl <| .cons (.given fun _ _ h => h.as_head trivial) <| .cons builds_operator <|
      .cons (.as rfl (hsub _)) .nil
  · exact .refuse

/-! ## Lambdas, casts, patterns and switches -/

theorem builds_lambda [Regular sub] (arrows : Bool) : Builds source [] (lambda sub arrows) := by
  have hinferred : Builds source [] inferredParameters :=
    .node rfl <| .cons .symbol <| .cons (.separated .symbol .identifier) <| .cons .symbol .nil
  unfold lambda
  split
  · exact .refuse
  · refine .andThen (.cons (.as rfl (.or builds_name <| .or hinferred <|
      .or (builds_formalParameters hsub) .none)) <| .cons .symbol .nil) fun front _ => ?_
    exact .node rfl <| .cons .same <| .cons (.as rfl (.either (hsub _) (hsub _))) .nil

theorem builds_cast [Regular sub] (arrows : Bool) : Builds source [] (cast sub arrows) := by
  have htypes : Builds source [] (castTypes sub) :=
    .cons .symbol <| .cons (.separated .symbol (.as rfl (hsub _))) <| .cons .symbol .nil
  refine .andThen htypes fun front _ => .node rfl <| .cons .same <| .cons ?_ <|
    .cons (.as rfl (hsub _)) .nil
  split
  · exact .ahead _
  · exact .nothing

instance : Solid underscore := Solid.leaf

instance {parts : Phrase → Phrase} : Solid (recordPatternBody sub parts) := Solid.node

omit hsub in
theorem builds_underscore : Builds source [] underscore :=
  .word rfl fun _ t ht => by
    simp only [Token.isWord, Bool.and_eq_true, beq_iff_eq] at ht
    exact ht.1

theorem builds_recordPatternBody {parts : Phrase → Phrase}
    (hparts : ∀ a, Builds source [] a → Builds source [] (parts a)) :
    Builds source [] (recordPatternBody sub parts) :=
  have hcomponent : Builds source [] (recordPatternComponent sub) :=
    .node rfl <| .cons (.either (.cons builds_underscore <| .cons (.ahead _) .nil)
      (.cons (hsub _) <| .cons .identifier .nil)) .nil
  .node rfl <| .cons .symbol <| .cons (hparts _ (.either (hsub _) hcomponent)) <| .cons .symbol .nil

theorem builds_recordPatternHead : Builds source [] (recordPatternHead sub) := by
  refine .either (.andThen (builds_simpleType hsub) fun ns _ => ?_) builds_name
  split
  · exact .same
  · exact .refuse

theorem builds_recordPattern : Builds source [] (recordPattern sub) :=
  .node rfl <| .cons (builds_recordPatternHead hsub) <|
    .cons (builds_recordPatternBody hsub fun _ => .commas) .nil

theorem builds_pattern : Builds source [] (pattern sub) :=
  .node rfl <| .cons (.either
    (.node rfl <| .cons (hsub _) <| .cons (.notAhead _) <| .cons .identifier .nil)
    (.node rfl <| .cons (builds_recordPatternHead hsub) <|
      .cons (builds_recordPatternBody hsub fun _ => .separated .symbol) .nil)) .nil

theorem builds_switchLabel [Regular sub] : Builds source [] (switchLabel sub) :=
  have hguard : Builds source [] (guard sub) := .node rfl <| .cons .keyword <| .cons (hsub _) .nil
  .node rfl <| .cons (.either
    (.cons .keyword <|
      .cons (.either
        (.cons (builds_pattern hsub) <| .cons (.either (.ahead _) (.ahead _)) .nil)
        (.separated .symbol (hsub _))) <|
      .cons (.optional hguard) .nil)
    .keyword) .nil

theorem builds_expressionStatement : Builds source [] (expressionStatement sub) :=
  .node rfl <| .cons (hsub _) <| .cons .symbol .nil

theorem builds_throwStatement : Builds source [] (throwStatement sub) :=
  .node rfl <| .cons .keyword <| .cons (hsub _) <| .cons .symbol .nil

theorem builds_switchExpression [Regular sub] : Builds source [] (switchExpression sub) :=
  have hrule : Builds source [] (switchRule sub) :=
    .node rfl <| .cons (builds_switchLabel hsub) <| .cons .symbol <|
      .cons (.or (hsub _) <| .or (builds_throwStatement hsub) <|
        .or (builds_expressionStatement hsub) .none) .nil
  have hgroup : Builds source [] (switchGroup sub) :=
    .node rfl <| .cons (builds_switchLabel hsub) <| .cons .symbol <|
      .cons (.many (.cons (.notAhead _) <| .cons (hsub _) .nil)) .nil
  have hblock : Builds source [] (switchBlock sub) :=
    .either (.node rfl <| .cons .symbol <| .cons hrule.many <| .cons .symbol .nil)
      (.node rfl <| .cons .symbol <| .cons hgroup.many <| .cons .symbol .nil)
  .node rfl <| .cons .keyword <| .cons (.as rfl (builds_parenthesized hsub)) <|
    .cons (.as rfl hblock) .nil

/-! ## Expressions -/

theorem builds_unary [Regular sub] (arrows : Bool) : Builds source [] (unary sub arrows) :=
  .either
    (.node rfl <| .cons (.ahead _) <| .cons builds_operator <| .cons (.as rfl (hsub _)) .nil)
    (.node rfl <| .cons (.either .symbol .symbol) <| .cons (hsub _) .nil)

theorem builds_assigned [Regular sub] (arrows : Bool) : Builds source [] (assigned sub arrows) := by
  refine .andThen (hsub _) fun ns _ => ?_
  split
  · exact .either (builds_assignmentTail hsub arrows _) .same
  · exact .refuse

theorem builds_expressionAt [Regular sub] (level : Nat) (arrows : Bool) :
    Builds source [] (expressionAt sub level arrows) :=
  have hoperand : Builds source [] (operand sub arrows) :=
    .or (builds_unary hsub arrows) <| .or (builds_lambda hsub arrows) <|
      .or (builds_cast hsub arrows) <| .or (builds_switchExpression hsub) <|
      .or (builds_assigned hsub arrows) .none
  .growing hoperand fun n =>
    .or (builds_binaryTail hsub level arrows n) <| .or (builds_instanceofTail hsub level n) <|
      .or (builds_conditionalTail hsub level arrows n) <| .or (builds_updateTail level n) .none

/-! ## Single nodes -/

omit hsub

/-- Nodes that play no role yet. -/
def Roleless (n : Node) : Prop := n.role = none

theorem gives_node {kind : NodeKind} {parts : List Phrase} : Gives Roleless (node kind parts) :=
  .node fun _ => rfl

theorem gives_sub [Regular sub] (rule : Rule) : Gives Roleless (sub rule) := by
  intro ns hns
  obtain ⟨n, rfl, hn⟩ := Regular.gives rule ns hns
  exact ⟨n, rfl, hn.1⟩

theorem gives_literal : Gives Roleless literal := by
  intro ns hns
  obtain ⟨kind, t, rfl⟩ := taken_literal hns
  exact ⟨_, rfl, rfl⟩

theorem gives_typeHeaded : Gives Roleless (typeHeaded sub) := by
  refine .andThen fun types _ => ?_
  split
  · refine .either gives_node ?_
    split
    · exact .refuse
    · exact gives_node
  · exact .refuse

theorem gives_selected {nodes : List Node} : Gives Roleless (selected sub nodes) :=
  .either gives_node gives_node

theorem gives_primaryStep (n : Node) : Gives Roleless (primaryStep sub n) :=
  .or (.andThen fun _ _ => .or gives_node <| .or (.andThen fun _ _ => gives_selected) <|
      .or gives_node <| .or gives_selected .none) <|
    .or gives_node <| .or gives_node .none

theorem gives_primary : Gives Roleless (primary sub) := by
  have hstart : Gives Roleless (primaryStart sub) :=
    .or gives_literal <| .or gives_node <| .or (.either gives_node gives_node) <|
      .or (.before (fun _ => taken_ahead) (.leaf fun _ => rfl)) <| .or gives_typeHeaded <|
      .or gives_node <| .or (.leaf fun _ => rfl) .none
  refine .andThen fun ns hns => ?_
  split
  · exact .refuse
  · exact .again (hstart.growing gives_primaryStep) hns

theorem gives_assigned [Regular sub] (arrows : Bool) : Gives Roleless (assigned sub arrows) := by
  refine .andThen fun ns hns => ?_
  split
  · refine .either ?_ (.again (gives_sub _) hns)
    unfold assignmentTail
    split
    · exact gives_node
    · exact .refuse
  · exact .refuse

theorem gives_binaryTail (level : Nat) (arrows : Bool) (left : Node) :
    Gives Roleless (binaryTail sub level arrows left) := by
  rintro ns ⟨ts, rest, hns⟩
  obtain ⟨⟨t, _⟩, -, hns⟩ := Option.bind_eq_some_iff.1 hns
  obtain ⟨own, -, hns⟩ := Option.bind_eq_some_iff.1 hns
  split at hns
  · cases hns
  · exact gives_node ns ⟨ts, rest, hns⟩

/-- A node unless a test refuses it. -/
theorem gives_unless {kind : NodeKind} {parts : List Phrase} {refused : Prop} [Decidable refused] :
    Gives Roleless (if refused then refuse else node kind parts) := by
  split
  · exact .refuse
  · exact gives_node

theorem gives_expressionAt [Regular sub] (level : Nat) (arrows : Bool) :
    Gives Roleless (expressionAt sub level arrows) := by
  have hlambda : Gives Roleless (lambda sub arrows) := by
    unfold lambda
    split
    · exact .refuse
    · exact .andThen fun _ _ => gives_node
  refine .growing ?_ fun n => ?_
  · exact .or (.either gives_node gives_node) <| .or hlambda <|
      .or (.andThen fun _ _ => gives_node) <| .or gives_node <| .or (gives_assigned arrows) .none
  · exact .or (gives_binaryTail level arrows n) <| .or gives_unless <| .or gives_unless <|
      .or gives_unless .none

end Renaming.Java.Phrase
