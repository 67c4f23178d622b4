import Renaming.Java.Grammar.Expressions
import Renaming.Proofs.Java.Comments.Phrases

/-!
# Types and expressions in other places

No rule asks where a token stands, apart from the few that read two tokens as one. What a rule takes
from alike lists of tokens is therefore the same, if that is so of the rules inside it.
-/

namespace Renaming.Java.Phrase

variable {i : Insertion}

/-! ## Single tokens -/

theorem alike_atInterface : Alike i atInterface atInterface := by
  intro ts ts' hts
  cases hts with
  | nil => exact .none
  | @cons kind text span _ _ htouch hrest =>
    cases hrest with
    | nil => exact .none
    | @cons kind₂ text₂ span₂ ts ts' _ hrest =>
      have htouch := htouch _ rfl _ rfl
      by_cases hword : Token.isSymbol "@" ⟨kind, text, span⟩ = true ∧
          Token.isWord "interface" ⟨kind₂, text₂, span₂⟩ = true
      · have htouch := htouch (by simp [Token.glues, hword])
        simp only [Token.isSymbol, Token.isWord] at hword
        simp only [atInterface, Token.isSymbol, Token.isWord, hword, Bool.true_and, htouch]
        split
        · exact .some rfl hrest
        · exact .none
      · simp only [Token.isSymbol, Token.isWord, ← Bool.and_eq_true] at hword
        simp only [atInterface, Token.isSymbol, Token.isWord, hword, Bool.false_and]
        exact .none

theorem alike_nonSealed : Alike i nonSealed nonSealed := by
  intro ts ts' hts
  cases hts with
  | nil => exact .none
  | @cons kind text span _ _ htouch hrest =>
    cases hrest with
    | nil => exact .none
    | @cons kind₂ text₂ span₂ _ _ htouch₂ hrest =>
      cases hrest with
      | nil => exact .none
      | @cons kind₃ text₃ span₃ ts ts' _ hrest =>
        have htouch := htouch _ rfl _ rfl
        have htouch₂ := htouch₂ _ rfl _ rfl
        by_cases hword : (Token.isWord "non" ⟨kind, text, span⟩ = true ∧
            Token.isSymbol "-" ⟨kind₂, text₂, span₂⟩ = true) ∧
              Token.isWord "sealed" ⟨kind₃, text₃, span₃⟩ = true
        · have htouch := htouch (by simp [Token.glues, hword])
          have htouch₂ := htouch₂ (by simp [Token.glues, hword])
          simp only [Token.isSymbol, Token.isWord] at hword
          simp only [nonSealed, Token.isSymbol, Token.isWord, hword, Bool.true_and, htouch,
            htouch₂]
          split
          · exact .some rfl hrest
          · exact .none
        · simp only [Token.isSymbol, Token.isWord, ← Bool.and_eq_true] at hword
          simp only [nonSealed, Token.isSymbol, Token.isWord, hword, Bool.false_and]
          exact .none

theorem alike_builtInType : Alike i builtInType builtInType := by
  intro ts ts' hts
  cases hts with
  | nil => exact .none
  | @cons kind text span ts ts' _ hrest =>
    unfold builtInType
    dsimp only
    split
    · cases builtInType? text with
      | none => exact .none
      | some kind => exact .some rfl hrest
    · exact .none

theorem alike_literal : Alike i literal literal := by
  intro ts ts' hts
  cases hts with
  | nil => exact .none
  | @cons kind text span ts ts' _ hrest =>
    unfold literal
    dsimp only
    split <;> first | exact .some rfl hrest | exact .none

theorem joinAngles_nil (n : Nat) (t : Token) : joinAngles n t [] = (t, []) := by
  unfold joinAngles
  rfl

theorem joinAngles_cons (n : Nat) (t u : Token) (rest : List Token) :
    joinAngles n t (u :: rest) =
      if t.touches u = true then
        if u.isSymbol "=" = true then (t.join u, rest)
        else if u.isSymbol ">" = true then
          match n with
          | 0 => (t, u :: rest)
          | n + 1 => joinAngles n (t.join u) rest
        else (t, u :: rest)
      else (t, u :: rest) :=
  joinAngles.eq_def n t (u :: rest)

/-- Joining depends on what follows, as far as it may be joined. -/
theorem joinAngles_alike (n : Nat) (t : Token) {ts ts' : List Token} (hts : Token.Alike i ts ts')
    (htouch : ∀ u ∈ ts.head?, ∀ u' ∈ ts'.head?, (u.isSymbol ">" || u.isSymbol "=") = true →
      t.touches u = (i.token t).touches u') :
    (joinAngles n (i.token t) ts').1 = i.token (joinAngles n t ts).1 ∧
      Token.Alike i (joinAngles n t ts).2 (joinAngles n (i.token t) ts').2 := by
  induction n using Nat.strongRecOn generalizing t ts ts' with
  | ind n ih =>
  cases hts with
  | nil =>
    rw [joinAngles_nil, joinAngles_nil]
    exact ⟨rfl, .nil⟩
  | @cons kind text span us us' hnext hrest =>
    have hkept := Token.Alike.cons hnext hrest
    have hequal : Token.isSymbol "=" ⟨kind, text, i.span span⟩ =
      Token.isSymbol "=" ⟨kind, text, span⟩ := rfl
    have hangle : Token.isSymbol ">" ⟨kind, text, i.span span⟩ =
      Token.isSymbol ">" ⟨kind, text, span⟩ := rfl
    have htouch := htouch _ rfl _ rfl
    rw [joinAngles_cons, joinAngles_cons, hequal, hangle]
    by_cases hjoins : (Token.isSymbol ">" ⟨kind, text, span⟩ ||
        Token.isSymbol "=" ⟨kind, text, span⟩) = true
    · rw [← htouch hjoins]
      split
      · split
        · exact ⟨rfl, hrest⟩
        · split
          · rename_i hmark
            cases n with
            | zero => exact ⟨rfl, hkept⟩
            | succ n =>
              refine ih n (Nat.lt_succ_self n) (t.join ⟨kind, text, span⟩) hrest
                fun v hv v' hv' hglues => ?_
              exact hnext v hv v' hv' (by simp [Token.glues, hmark, hglues])
          · exact ⟨rfl, hkept⟩
      · exact ⟨rfl, hkept⟩
    · rw [Bool.or_eq_true, not_or] at hjoins
      simp only [if_neg hjoins.1, if_neg hjoins.2, ite_self]
      exact ⟨trivial, hkept⟩

theorem operatorToken_alike {ts ts' : List Token} (hts : Token.Alike i ts ts') :
    (operatorToken ts = none ∧ operatorToken ts' = none) ∨
      ∃ t rest rest', operatorToken ts = some (t, rest) ∧
        operatorToken ts' = some (i.token t, rest') ∧ Token.Alike i rest rest' := by
  cases hts with
  | nil => exact .inl ⟨rfl, rfl⟩
  | @cons kind text span us us' hnext hrest =>
    have hangle : Token.isSymbol ">" ⟨kind, text, i.span span⟩ =
      Token.isSymbol ">" ⟨kind, text, span⟩ := rfl
    unfold operatorToken
    dsimp only
    rw [hangle]
    split
    · rename_i hmark
      obtain ⟨htoken, halike⟩ :=
        joinAngles_alike 2 ⟨kind, text, span⟩ hrest fun v hv v' hv' hglues =>
          hnext v hv v' hv' (by simp [Token.glues, hmark, hglues])
      exact .inr ⟨_, _, _, rfl, congrArg some (Prod.ext htoken rfl), halike⟩
    · split
      · exact .inr ⟨_, _, _, rfl, rfl, hrest⟩
      · exact .inl ⟨rfl, rfl⟩

theorem alike_operator {test : String → Bool} : Alike i (operator test) (operator test) := by
  intro ts ts' hts
  unfold operator
  rcases operatorToken_alike hts with ⟨hnone, hnone'⟩ | ⟨t, rest, rest', hsome, hsome', hrest⟩
  · rw [hnone, hnone']
    exact .none
  · have htext : (i.token t).text = t.text := rfl
    simp only [hsome, hsome', Option.bind_eq_bind, Option.bind_some, htext]
    split
    · exact .some rfl hrest
    · exact .none

theorem alike_name : Alike i name name := .leaf fun _ _ _ _ => rfl

theorem alike_declaredName : Alike i declaredName declaredName :=
  .either (.leaf fun _ _ _ _ => rfl) .identifier

theorem alike_dottedName : Alike i dottedName dottedName :=
  .growing .identifier fun _ _ h =>
    .node <| .cons (.given (h.as _)) <| .cons .symbol <| .cons (.as .identifier) .nil

/-! ## Types -/

section Rules

variable {sub : Rule → Phrase} (hsub : ∀ rule, Alike i (sub rule) (sub rule))
include hsub

theorem alike_annotations : Alike i (annotations sub) (annotations sub) := (hsub _).many

theorem alike_elementPair : Alike i (elementPair sub) (elementPair sub) :=
  .node <| .cons (.as .identifier) <| .cons .symbol <| .cons (.as (hsub _)) .nil

theorem alike_elementArray : Alike i (elementArray sub) (elementArray sub) :=
  .node <| .cons .symbol <| .cons (.commas (hsub _)) <| .cons (.optional .symbol) <|
    .cons .symbol .nil

theorem alike_elementValue : Alike i (elementValue sub) (elementValue sub) :=
  .or (alike_elementArray hsub) <| .or (hsub _) <| .or (hsub _) .last

theorem alike_elementList : Alike i (elementList sub) (elementList sub) :=
  .node <| .cons .symbol <|
    .cons (.either
      (.followedBy (.ahead (.followedBy .identifier .symbol))
        (.separated .symbol (alike_elementPair hsub)))
      (.optional (hsub _))) <|
    .cons .symbol .nil

theorem alike_annotated : Alike i (annotated sub) (annotated sub) :=
  .andThen (.cons (.notAhead alike_atInterface) <| .cons .symbol <|
      .cons (.as alike_dottedName) .nil) fun _ _ h =>
    .either (.node <| .cons (.given h) <| .cons (.as (alike_elementList hsub)) .nil)
      (.node <| .cons (.given h) .nil)

theorem alike_wildcard : Alike i (wildcard sub) (wildcard sub) :=
  .node <| .cons (alike_annotations hsub) <| .cons .symbol <|
    .cons (.optional (.either (.cons .keyword <| .cons (hsub _) .nil)
      (.cons (.leaf fun _ _ _ _ => rfl) <| .cons (hsub _) .nil))) .nil

theorem alike_typeArguments : Alike i (typeArguments sub) (typeArguments sub) :=
  .node <| .cons .symbol <| .cons (.commas (.either (alike_wildcard hsub) (hsub _))) <|
    .cons .symbol .nil

theorem alike_typeStep {n n' : Node} (h : Node.Alike i [n] [n']) :
    Alike i (typeStep sub n) (typeStep sub n') :=
  .either
    (.node <| .cons (.given h) <| .cons .symbol <| .cons (alike_annotations hsub) <|
      .cons (.notAhead .atWord) <| .cons (.leaf fun _ _ _ _ => rfl) .nil)
    (.ite (by rw [h.kind_eq]) .refuse <|
      .node <| .cons (.given h) <| .cons (alike_typeArguments hsub) .nil)

theorem alike_simpleType : Alike i (simpleType sub) (simpleType sub) :=
  .either alike_builtInType <|
    .growing (.leaf fun _ _ _ _ => rfl) fun _ _ => alike_typeStep hsub

theorem alike_dimensions : Alike i (dimensions sub) (dimensions sub) :=
  .node <| .cons (.atLeastOne <| .cons (alike_annotations hsub) <| .cons .symbol <|
    .cons .symbol .nil) .nil

theorem alike_plainType : Alike i (plainType sub) (plainType sub) :=
  .growing (alike_simpleType hsub) fun _ _ h =>
    .ite (by rw [h.kind_eq]) .refuse <|
      .node <| .cons (.given (h.as _)) <| .cons (.as (alike_dimensions hsub)) .nil

theorem alike_type : Alike i (type sub) (type sub) :=
  .either (.node <| .cons (.atLeastOne (hsub _)) <| .cons (hsub _) .nil) (hsub _)

theorem alike_typeList : Alike i (typeList sub) (typeList sub) :=
  .node <| .cons (.separated .symbol (hsub _)) .nil

theorem alike_typeBound : Alike i (typeBound sub) (typeBound sub) :=
  .node <| .cons .keyword <| .cons (.separated .symbol (hsub _)) .nil

theorem alike_typeParameter : Alike i (typeParameter sub) (typeParameter sub) :=
  .node <| .cons (alike_annotations hsub) <| .cons (.leaf fun _ _ _ _ => rfl) <|
    .cons (.optional (alike_typeBound hsub)) .nil

theorem alike_typeParameters : Alike i (typeParameters sub) (typeParameters sub) :=
  .node <| .cons .symbol <| .cons (.separated .symbol (alike_typeParameter hsub)) <|
    .cons .symbol .nil

theorem alike_declaratorName : Alike i (declaratorName sub) (declaratorName sub) :=
  .cons (.as alike_declaredName) <| .cons (.optional (.as (alike_dimensions hsub))) .nil

theorem alike_variableDeclarator : Alike i (variableDeclarator sub) (variableDeclarator sub) :=
  .node <| .cons (alike_declaratorName hsub) <|
    .cons (.optional (.cons .symbol <| .cons (.as (hsub _)) .nil)) .nil

theorem alike_declarators : Alike i (declarators sub) (declarators sub) :=
  .separated .symbol (.as (alike_variableDeclarator hsub))

theorem alike_modifiers : Alike i (modifiers sub) (modifiers sub) :=
  .optional <| .node <| .cons (.atLeastOne <| .or (hsub _) <| .or alike_nonSealed <|
    .or (.leaf fun _ _ _ _ => rfl) .last) .nil

theorem alike_receiverParameter : Alike i (receiverParameter sub) (receiverParameter sub) :=
  .node <| .cons (alike_annotations hsub) <| .cons (hsub _) <|
    .cons (.many <| .cons (.notAhead .keyword) <| .cons .identifier <| .cons .symbol .nil) <|
    .cons (.leaf fun _ _ _ _ => rfl) .nil

theorem alike_formalParameter : Alike i (formalParameter sub) (formalParameter sub) :=
  .andThen (alike_modifiers hsub) fun _ _ hms => .andThen (hsub _) fun _ _ htype =>
    .either
      (.node <| .cons (.given hms) <| .cons (.given htype) <| .cons .symbol <|
        .cons (alike_annotations hsub) <| .cons (alike_variableDeclarator hsub) .nil)
      (.node <| .cons (.given hms) <| .cons (.given (htype.as _)) <|
        .cons (alike_declaratorName hsub) .nil)

theorem alike_formalParameters : Alike i (formalParameters sub) (formalParameters sub) :=
  .node <| .cons .symbol <|
    .cons (.either
      (.cons (alike_receiverParameter hsub) <| .cons (.ahead .symbol) .nil)
      (.cons (.optional <| .cons (alike_receiverParameter hsub) <| .cons .symbol .nil) <|
        .cons (.commas (alike_formalParameter hsub)) .nil)) <|
    .cons .symbol .nil

/-! ## Expressions -/

theorem alike_argumentList : Alike i (argumentList sub) (argumentList sub) :=
  .node <| .cons .symbol <| .cons (.commas (hsub _)) <| .cons .symbol .nil

theorem alike_parenthesized : Alike i (parenthesized sub) (parenthesized sub) :=
  .node <| .cons .symbol <| .cons (hsub _) <| .cons .symbol .nil

theorem alike_arrayInitializer : Alike i (arrayInitializer sub) (arrayInitializer sub) :=
  .node <| .cons .symbol <| .cons (.commas (hsub _)) <| .cons (.optional .symbol) <|
    .cons .symbol .nil

theorem alike_initializer : Alike i (initializer sub) (initializer sub) :=
  .either (alike_arrayInitializer hsub) (hsub _)

theorem alike_dimensionsExpression :
    Alike i (dimensionsExpression sub) (dimensionsExpression sub) :=
  .node <| .cons (alike_annotations hsub) <| .cons .symbol <| .cons (hsub _) <| .cons .symbol .nil

theorem alike_arrayShape : Alike i (arrayShape sub) (arrayShape sub) :=
  .either
    (.cons (.atLeastOne (.as (alike_dimensionsExpression hsub))) <|
      .cons (.optional (.as (alike_dimensions hsub))) .nil)
    (.cons (.as (alike_dimensions hsub)) <| .cons (.as (alike_arrayInitializer hsub)) .nil)

theorem alike_objectCreation {ns ns' : List Node} (h : Node.Alike i ns ns') :
    Alike i (objectCreation sub ns) (objectCreation sub ns') :=
  .node <| .cons (.given h) <| .cons .keyword <| .cons (alike_annotations hsub) <|
    .cons (.optional (.cons (.as (alike_typeArguments hsub)) <|
      .cons (alike_annotations hsub) .nil)) <|
    .cons (.as (alike_simpleType hsub)) <| .cons (.as (alike_argumentList hsub)) <|
    .cons (.optional (hsub _)) .nil

theorem alike_arrayCreation : Alike i (arrayCreation sub) (arrayCreation sub) :=
  .node <| .cons .keyword <| .cons (alike_annotations hsub) <|
    .cons (.as (alike_simpleType hsub)) <| .cons (alike_arrayShape hsub) .nil

theorem alike_selected {ns ns' : List Node} (h : Node.Alike i ns ns') :
    Alike i (selected sub ns) (selected sub ns') :=
  .either
    (.node <| .cons (.given h) <| .cons (.optional (.as (alike_typeArguments hsub))) <|
      .cons (.notAhead .atWord) <| .cons (.as .identifier) <|
      .cons (.as (alike_argumentList hsub)) .nil)
    (.node <| .cons (.given h) <| .cons (.notAhead .atWord) <|
      .cons (.as (.either (.leaf fun _ _ _ _ => rfl) .identifier)) .nil)

theorem alike_methodReference {n n' : Node} (h : Node.Alike i [n] [n']) :
    Alike i (methodReference sub n) (methodReference sub n') :=
  .node <| .cons (.given h) <| .cons .symbol <| .cons (.optional (alike_typeArguments hsub)) <|
    .cons (.either .keyword .identifier) .nil

theorem alike_primaryStep {n n' : Node} (h : Node.Alike i [n] [n']) :
    Alike i (primaryStep sub n) (primaryStep sub n') :=
  .or
    (.andThen .symbol fun _ _ hdot =>
      .or (alike_objectCreation hsub (h.append hdot)) <|
      .or (.andThen (.cons (.leaf fun _ _ _ _ => rfl) <| .cons .symbol .nil) fun _ _ houter =>
        alike_selected hsub (((h.as _).append hdot).append houter)) <|
      .or (.node <| .cons (.given ((h.as _).append hdot)) <|
        .cons (.as (.leaf fun _ _ _ _ => rfl)) .nil) <|
      .or (alike_selected hsub ((h.as _).append hdot)) .last) <|
  .or (.node <| .cons (.given (h.as _)) <| .cons .symbol <| .cons (.as (hsub _)) <|
    .cons .symbol .nil) <|
  .or (alike_methodReference hsub h) .last

omit hsub in
theorem isDotted_moved (n : Node) : isDotted (n.moved i) = isDotted n := by
  fun_induction isDotted n with
  | case1 => rfl
  | case2 role span text n dot m ih =>
    simp only [Node.moved, Node.movedAll, isDotted, ih, Node.kind_moved]
  | case3 n hname hscoped =>
    obtain ⟨kind, role, span, text, children⟩ := n
    rw [Node.moved]
    unfold isDotted
    split
    · rename_i heq
      cases heq
      exact (hname _ _ _ _ rfl).elim
    · rename_i heq
      simp only [Node.mk.injEq, Node.movedAll_eq_map, List.map_eq_cons_iff,
        List.map_eq_nil_iff] at heq
      obtain ⟨rfl, -, -, -, c, _, rfl, -, d, _, rfl, -, m, _, rfl, -, rfl⟩ := heq
      exact (hscoped _ _ _ _ _ _ rfl).elim
    · rfl

omit hsub in
theorem isDotted_eq {n n' : Node} (h : Node.Alike i [n] [n']) : isDotted n = isDotted n' := by
  rw [← List.head_eq_of_cons_eq h, isDotted_moved]

theorem alike_typeHeaded : Alike i (typeHeaded sub) (typeHeaded sub) := by
  refine .andThen (hsub _) fun ns ns' h => ?_
  rcases h.single_cases with ⟨n, n', rfl, rfl, hn⟩ | hmany
  · exact .either (.node <| .cons (.given hn) <| .cons .symbol <| .cons .keyword .nil)
      (.ite (by rw [isDotted_eq hn]) .refuse (alike_methodReference hsub hn))
  · split
    · exact absurd rfl (hmany _).1
    · split
      · exact absurd rfl (hmany _).2
      · exact .refuse

theorem alike_primaryStart : Alike i (primaryStart sub) (primaryStart sub) :=
  .or alike_literal <| .or (alike_parenthesized hsub) <|
    .or (.either (alike_objectCreation hsub .nil) (alike_arrayCreation hsub)) <|
    .or (.cons (.leaf fun _ _ _ _ => rfl) <| .cons .atSymbol .nil) <|
    .or (alike_typeHeaded hsub) <|
    .or (.node <| .cons (.as alike_name) <| .cons (.as (alike_argumentList hsub)) .nil) <|
    .or alike_name .last

theorem alike_primary : Alike i (primary sub) (primary sub) :=
  .andThen (.growing (alike_primaryStart hsub) fun _ _ => alike_primaryStep hsub) fun _ _ h =>
    .ite (by rw [h.any_eq fun n => by rw [Node.kind_moved]]) .refuse (.given h)

theorem alike_binaryTail (level : Nat) (arrows : Bool) {n n' : Node} (h : Node.Alike i [n] [n']) :
    Alike i (binaryTail sub level arrows n) (binaryTail sub level arrows n') := by
  intro ts ts' hts
  unfold binaryTail
  rcases operatorToken_alike hts with
    ⟨hnone, hnone'⟩ | ⟨t, rest, rest', hsome, hsome', hrest⟩
  · rw [hnone, hnone']
    exact .none
  · have htext : (i.token t).text = t.text := rfl
    simp only [hsome, hsome', Option.bind_eq_bind, Option.bind_some, htext]
    cases operatorLevel? t.text with
    | none => exact .none
    | some own =>
      dsimp only [Option.bind_some]
      split
      · exact .none
      · exact Alike.node (.cons (.given (h.as _)) <| .cons alike_operator <|
          .cons (.as (hsub _)) .nil) _ _ hts

theorem alike_instanceofTail (level : Nat) {n n' : Node} (h : Node.Alike i [n] [n']) :
    Alike i (instanceofTail sub level n) (instanceofTail sub level n') :=
  .ite Iff.rfl .refuse <|
    .node <| .cons (.given (h.as _)) <| .cons .keyword <| .cons (.optional .keyword) <|
      .cons (.either (.as (hsub _))
        (.cons (.as (hsub _)) <| .cons (.optional (.as .identifier)) .nil)) .nil

theorem alike_conditionalTail (level : Nat) (arrows : Bool) {n n' : Node}
    (h : Node.Alike i [n] [n']) :
    Alike i (conditionalTail sub level arrows n) (conditionalTail sub level arrows n') :=
  .ite Iff.rfl .refuse <|
    .node <| .cons (.given (h.as _)) <| .cons .symbol <| .cons (.as (hsub _)) <| .cons .symbol <|
      .cons (.as (hsub _)) .nil

omit hsub in
theorem alike_updateTail (level : Nat) {n n' : Node} (h : Node.Alike i [n] [n']) :
    Alike i (updateTail level n) (updateTail level n') :=
  .ite Iff.rfl .refuse <| .node <| .cons (.given h) <| .cons (.either .symbol .symbol) .nil

theorem alike_assignmentTail (arrows : Bool) {n n' : Node} (h : Node.Alike i [n] [n']) :
    Alike i (assignmentTail sub arrows n) (assignmentTail sub arrows n') :=
  .ite (by rw [h.kind_eq])
    (.node <| .cons (.given (h.as _)) <| .cons alike_operator <| .cons (.as (hsub _)) .nil)
    .refuse

theorem alike_lambda (arrows : Bool) : Alike i (lambda sub arrows) (lambda sub arrows) :=
  .ite Iff.rfl .refuse <|
    .andThen (.cons (.as <| .or alike_name <| .or
        (.node <| .cons .symbol <| .cons (.separated .symbol .identifier) <| .cons .symbol .nil) <|
        .or (alike_formalParameters hsub) .last) <| .cons .symbol .nil) fun _ _ h =>
      .node <| .cons (.given h) <| .cons (.as (.either (hsub _) (hsub _))) .nil

omit hsub in
theorem alike_startsOperand : Alike i startsOperand startsOperand :=
  .ahead <| .or (.leaf fun _ _ _ _ => rfl) <| .or alike_literal <|
    .or (.or .symbol <| .or .symbol <| .or .symbol .last) <|
    .or (.cons (.either .symbol .symbol) <|
      .cons (.or (.leaf fun _ _ _ _ => rfl) <| .or .symbol .last) .nil) .last

theorem alike_castTypes : Alike i (castTypes sub) (castTypes sub) :=
  .cons .symbol <| .cons (.separated .symbol (.as (hsub _))) <| .cons .symbol .nil

theorem alike_cast (arrows : Bool) : Alike i (cast sub arrows) (cast sub arrows) := by
  refine .andThen (alike_castTypes hsub) fun ns ns' h => ?_
  have hnames : (ns.filter Node.isNamed).all isDotted = (ns'.filter Node.isNamed).all isDotted := by
    simp only [List.all_filter]
    refine h.all_eq fun n => ?_
    rw [isDotted_moved, Node.isNamed, Node.isNamed, Node.kind_moved]
  exact .node <| .cons (.given h) <|
    .cons (.ite (by rw [hnames]) alike_startsOperand .nothing) <| .cons (.as (hsub _)) .nil

theorem alike_recordPatternComponent :
    Alike i (recordPatternComponent sub) (recordPatternComponent sub) :=
  .node <| .cons (.either (.cons (.leaf fun _ _ _ _ => rfl) <| .cons .atSymbol .nil)
    (.cons (hsub _) <| .cons .identifier .nil)) .nil

theorem alike_recordPatternHead : Alike i (recordPatternHead sub) (recordPatternHead sub) :=
  .either (.andThen (alike_simpleType hsub) fun _ _ h =>
    .ite (by rw [h.any_eq fun n => by rw [Node.kind_moved]]) (.given h) .refuse) alike_name

theorem alike_recordPattern : Alike i (recordPattern sub) (recordPattern sub) :=
  .node <| .cons (alike_recordPatternHead hsub) <|
    .cons (.node <| .cons .symbol <|
      .cons (.commas (.either (hsub _) (alike_recordPatternComponent hsub))) <|
      .cons .symbol .nil) .nil

theorem alike_pattern : Alike i (pattern sub) (pattern sub) :=
  .node <| .cons (.either
    (.node <| .cons (hsub _) <| .cons (.notAhead .atWord) <| .cons .identifier .nil)
    (.node <| .cons (alike_recordPatternHead hsub) <|
      .cons (.node <| .cons .symbol <|
        .cons (.separated .symbol (.either (hsub _) (alike_recordPatternComponent hsub))) <|
        .cons .symbol .nil) .nil)) .nil

theorem alike_switchLabel : Alike i (switchLabel sub) (switchLabel sub) :=
  .node <| .cons (.either
    (.cons .keyword <|
      .cons (.either (.cons (alike_pattern hsub) <| .cons (.either .atSymbol .atWord) .nil)
        (.separated .symbol (hsub _))) <|
      .cons (.optional (.node <| .cons .keyword <| .cons (hsub _) .nil)) .nil) .keyword) .nil

omit hsub in
theorem alike_atLabel : Alike i atLabel atLabel :=
  .ahead (.either .keyword (.cons .keyword <| .cons .atSymbol .nil))

theorem alike_switchGroup : Alike i (switchGroup sub) (switchGroup sub) :=
  .node <| .cons (alike_switchLabel hsub) <| .cons .symbol <|
    .cons (.many <| .cons (.notAhead alike_atLabel) <| .cons (hsub _) .nil) .nil

theorem alike_expressionStatement : Alike i (expressionStatement sub) (expressionStatement sub) :=
  .node <| .cons (hsub _) <| .cons .symbol .nil

theorem alike_throwStatement : Alike i (throwStatement sub) (throwStatement sub) :=
  .node <| .cons .keyword <| .cons (hsub _) <| .cons .symbol .nil

theorem alike_switchRule : Alike i (switchRule sub) (switchRule sub) :=
  .node <| .cons (alike_switchLabel hsub) <| .cons .symbol <|
    .cons (.or (hsub _) <| .or (alike_throwStatement hsub) <|
      .or (alike_expressionStatement hsub) .last) .nil

theorem alike_switchBlock : Alike i (switchBlock sub) (switchBlock sub) :=
  .either (.node <| .cons .symbol <| .cons (.many (alike_switchRule hsub)) <| .cons .symbol .nil)
    (.node <| .cons .symbol <| .cons (.many (alike_switchGroup hsub)) <| .cons .symbol .nil)

theorem alike_switchExpression : Alike i (switchExpression sub) (switchExpression sub) :=
  .node <| .cons .keyword <| .cons (.as (alike_parenthesized hsub)) <|
    .cons (.as (alike_switchBlock hsub)) .nil

theorem alike_unary (arrows : Bool) : Alike i (unary sub arrows) (unary sub arrows) :=
  .either
    (.node <| .cons (.ahead <| .or .symbol <| .or .symbol <| .or .symbol <| .or .symbol .last) <|
      .cons alike_operator <| .cons (.as (hsub _)) .nil)
    (.node <| .cons (.either .symbol .symbol) <| .cons (hsub _) .nil)

theorem alike_assigned (arrows : Bool) : Alike i (assigned sub arrows) (assigned sub arrows) := by
  refine .andThen (hsub _) fun ns ns' h => ?_
  rcases h.single_cases with ⟨n, n', rfl, rfl, hn⟩ | hmany
  · exact .either (alike_assignmentTail hsub arrows hn) (.given hn)
  · split
    · exact absurd rfl (hmany _).1
    · split
      · exact absurd rfl (hmany _).2
      · exact .refuse

theorem alike_operand (arrows : Bool) : Alike i (operand sub arrows) (operand sub arrows) :=
  .or (alike_unary hsub arrows) <| .or (alike_lambda hsub arrows) <|
    .or (alike_cast hsub arrows) <| .or (alike_switchExpression hsub) <|
    .or (alike_assigned hsub arrows) .last

theorem alike_expressionAt (level : Nat) (arrows : Bool) :
    Alike i (expressionAt sub level arrows) (expressionAt sub level arrows) :=
  .growing (alike_operand hsub arrows) fun _ _ h =>
    .or (alike_binaryTail hsub level arrows h) <| .or (alike_instanceofTail hsub level h) <|
    .or (alike_conditionalTail hsub level arrows h) <| .or (alike_updateTail level h) .last

end Rules

end Renaming.Java.Phrase
