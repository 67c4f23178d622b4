import Renaming.Java.Grammar.Statements
import Renaming.Proofs.Java.Grammar.Expressions

/-!
# What the rules for statements build

The word in front decides which rule it is.
-/

namespace Renaming.Java.Phrase

variable {source : SourceText}
variable {sub : Rule → Phrase} (hsub : ∀ rule, Builds source [] (sub rule))
include hsub

theorem builds_block : Builds source [] (block sub) :=
  .node rfl <| .cons .symbol <| .cons (hsub _).many <| .cons .symbol .nil

theorem builds_condition : Builds source [] (condition sub) := .as rfl (builds_parenthesized hsub)

theorem builds_body : Builds source [] (body sub) := .as rfl (hsub _)

theorem builds_blockBody : Builds source [] (blockBody sub) := .as rfl (hsub _)

theorem builds_localVariables [Regular sub] : Builds source [] (localVariables sub) :=
  .node rfl <| .cons (builds_modifiers hsub) <| .cons (.as rfl (hsub _)) <| .cons (.notAhead _) <|
    .cons (builds_declarators hsub) <| .cons .symbol .nil

theorem builds_labeledStatement [Regular sub] : Builds source [] (labeledStatement sub) :=
  .node rfl <| .cons .identifier <| .cons .symbol <| .cons (hsub _) .nil

theorem builds_ifStatement [Regular sub] : Builds source [] (ifStatement sub) :=
  .node rfl <| .cons .keyword <| .cons (builds_condition hsub) <| .cons (.as rfl (hsub _)) <|
    .cons (.optional (.cons .keyword <| .cons (.as rfl (hsub _)) .nil)) .nil

theorem builds_whileStatement : Builds source [] (whileStatement sub) :=
  .node rfl <| .cons .keyword <| .cons (builds_condition hsub) <| .cons (builds_body hsub) .nil

theorem builds_doStatement : Builds source [] (doStatement sub) :=
  .node rfl <| .cons .keyword <| .cons (builds_body hsub) <| .cons .keyword <|
    .cons (builds_condition hsub) <| .cons .symbol .nil

theorem builds_enhancedFor [Regular sub] : Builds source [] (enhancedFor sub) := by
  refine .shaped rfl (.cons .keyword <| .cons .symbol <| .cons (builds_modifiers hsub) <|
    .cons (.as rfl (hsub _)) <| .cons (builds_declaratorName hsub) <| .cons .symbol <|
    .cons (.as rfl (hsub _)) <| .cons .symbol <| .cons (builds_body hsub) .nil) fun ns hns =>
      .one rfl (named_of_yields ?_ hns)
  exact .cons yields_leaf <| .cons yields_leaf <| .cons yields_modifiers <|
    .cons (yields_other (by simp)) <| .cons yields_declaratorName <| .cons yields_leaf <|
    .cons (yields_other (by simp)) <| .cons yields_leaf <| .cons (yields_other (by simp)) .nil

theorem builds_forStatement [Regular sub] : Builds source [] (forStatement sub) :=
  .node rfl <| .cons .keyword <| .cons .symbol <|
    .cons (.either (.as rfl (builds_localVariables hsub))
      (.cons (.commas (.as rfl (hsub _))) <| .cons .symbol .nil)) <|
    .cons (.optional (.as rfl (hsub _))) <| .cons .symbol <| .cons (.commas (.as rfl (hsub _))) <|
    .cons .symbol <| .cons (builds_body hsub) .nil

theorem builds_assertStatement : Builds source [] (assertStatement sub) :=
  .node rfl <| .cons .keyword <| .cons (hsub _) <|
    .cons (.optional (.cons .symbol <| .cons (hsub _) .nil)) <| .cons .symbol .nil

omit hsub in
theorem builds_jump {kind : NodeKind} (word : String)
    (hkind : kind = .breakStatement ∨ kind = .continueStatement) :
    Builds source [] (jump kind word) := by
  have hparts : Builds source [] (sequence [keyword word, optional identifier, symbol ";"]) :=
    .cons .keyword <| .cons (.optional .identifier) <| .cons .symbol .nil
  rcases hkind with rfl | rfl
  · exact .node rfl hparts
  · exact .node rfl hparts

theorem builds_returnStatement : Builds source [] (returnStatement sub) :=
  .node rfl <| .cons .keyword <| .cons (.optional (hsub _)) <| .cons .symbol .nil

theorem builds_yieldStatement : Builds source [] (yieldStatement sub) :=
  .node rfl <| .cons .keyword <| .cons (hsub _) <| .cons .symbol .nil

theorem builds_synchronizedStatement : Builds source [] (synchronizedStatement sub) :=
  .node rfl <| .cons .keyword <| .cons (builds_parenthesized hsub) <|
    .cons (builds_blockBody hsub) .nil

theorem builds_catchClause [Regular sub] : Builds source [] (catchClause sub) := by
  have hparameter : Builds source [] (node .catchParameter
      [modifiers sub, node .catchType [separated (symbol "|") (sub .plainType)],
        declaratorName sub]) := by
    refine .shaped rfl (.cons (builds_modifiers hsub) <|
      .cons (.node rfl <| .cons (.separated .symbol (hsub _)) .nil) <|
      .cons (builds_declaratorName hsub) .nil) fun ns hns =>
        .one rfl (named_of_yields ?_ hns)
    exact .cons yields_modifiers <| .cons yields_node <| .cons yields_declaratorName .nil
  exact .node rfl <| .cons .keyword <| .cons .symbol <| .cons hparameter <| .cons .symbol <|
    .cons (builds_blockBody hsub) .nil

theorem builds_finallyClause [Regular sub] : Builds source [] (finallyClause sub) :=
  .node rfl <| .cons .keyword <| .cons (hsub _) .nil

theorem builds_resource [Regular sub] : Builds source [] (resource sub) := by
  refine .either (.shaped rfl (.cons (builds_modifiers hsub) <| .cons (.as rfl (hsub _)) <|
    .cons (builds_declaratorName hsub) <| .cons .symbol <| .cons (.as rfl (hsub _)) .nil)
    fun ns hns => .one rfl (named_of_yields ?_ hns)) ?_
  · exact .cons yields_modifiers <| .cons (yields_other (by simp)) <|
      .cons yields_declaratorName <| .cons yields_leaf <| .cons (yields_other (by simp)) .nil
  · -- What is named already has its name inside.
    have htaken {ns : List Node} (hns : Taken (andThen (sub .primary) fun ns =>
        if ns.all fun n => [.identifier, .fieldAccess].contains n.kind then given ns
        else refuse) ns) : Taken (sub .primary) ns := by
      obtain ⟨x, hx, hns⟩ := taken_andThen hns
      split at hns
      · rw [taken_given hns]
        exact hx
      · exact (taken_refuse hns).elim
    have : Solid (andThen (sub .primary) fun ns =>
        if ns.all fun n => [.identifier, .fieldAccess].contains n.kind then given ns
        else refuse) := ⟨fun hns => Solid.ne_nil (htaken hns)⟩
    refine .shaped rfl (.cons (.andThen (hsub _) fun ns _ => ?_) .nil) fun ns hns =>
      .one rfl (named_of_yields ?_ hns)
    · split
      · exact .same
      · exact .refuse
    · exact .cons (fun ns hns => yields_sub _ ns (htaken hns)) .nil

theorem builds_tryStatement [Regular sub] : Builds source [] (tryStatement sub) :=
  have hresources : Builds source [] (resourceSpecification sub) :=
    .node rfl <| .cons .symbol <| .cons (.separated .symbol (builds_resource hsub)) <|
      .cons (.optional .symbol) <| .cons .symbol .nil
  .either
    (.node rfl <| .cons .keyword <| .cons (.as rfl hresources) <| .cons (builds_blockBody hsub) <|
      .cons (builds_catchClause hsub).many <| .cons (.optional (builds_finallyClause hsub)) .nil)
    (.node rfl <| .cons .keyword <| .cons (builds_blockBody hsub) <|
      .cons (.either
        (.cons (builds_catchClause hsub).many <| .cons (builds_finallyClause hsub) .nil)
        (builds_catchClause hsub).atLeastOne) .nil)

theorem builds_packageDeclaration : Builds source [] (packageDeclaration sub) :=
  .node rfl <| .cons (builds_annotations hsub) <| .cons .keyword <| .cons builds_dottedName <|
    .cons .symbol .nil

omit hsub in
theorem builds_importDeclaration : Builds source [] importDeclaration :=
  .node rfl <| .cons .keyword <| .cons (.optional .keyword) <| .cons builds_dottedName <|
    .cons (.optional (.cons .symbol <| .cons (.leaf rfl) .nil)) <| .cons .symbol .nil

omit hsub in
theorem builds_moduleDirective : Builds source [] moduleDirective :=
  have hnames : Builds source [] moduleNames := .separated .symbol builds_dottedName
  have hmodifier : Builds source [] requiresModifier :=
    .node rfl <| .cons (.either .keyword .keyword) .nil
  .node rfl <|
    .cons (.or (.cons .keyword <| .cons hmodifier.many <| .cons builds_dottedName .nil) <|
      .or (.cons (.either .keyword .keyword) <| .cons builds_dottedName <|
        .cons (.optional (.cons .keyword <| .cons hnames .nil)) .nil) <|
      .or (.cons .keyword <| .cons builds_dottedName .nil) <|
      .or (.cons .keyword <| .cons builds_dottedName <| .cons .keyword <| .cons hnames .nil)
        .none) <|
    .cons .symbol .nil

theorem builds_moduleDeclaration : Builds source [] (moduleDeclaration sub) :=
  .node rfl <| .cons (builds_annotations hsub) <| .cons (.optional .keyword) <| .cons .keyword <|
    .cons (.as rfl builds_dottedName) <|
    .cons (.as rfl (.node rfl <| .cons .symbol <| .cons builds_moduleDirective.many <|
      .cons .symbol .nil)) .nil

theorem builds_plainStatement [Regular sub] : Builds source [] (plainStatement sub) :=
  .or (builds_localVariables hsub) <|
    .or (.cons (.notAhead _) <| .cons (builds_labeledStatement hsub) .nil) <|
    .or (.cons (.notAhead _) <| .cons (builds_expressionStatement hsub) .nil) .none

theorem builds_declarationStatement [Regular sub] : Builds source [] (declarationStatement sub) :=
  .or (hsub _) <| .or (builds_packageDeclaration hsub) <| .or (builds_moduleDeclaration hsub) <|
    .or (builds_plainStatement hsub) .none

theorem builds_statementOf [Regular sub] (word : String) :
    Builds source [] (statementOf sub word) := by
  unfold statementOf
  split
  · exact builds_ifStatement hsub
  · exact builds_whileStatement hsub
  · exact builds_doStatement hsub
  · exact .either (builds_enhancedFor hsub) (builds_forStatement hsub)
  · exact builds_switchExpression hsub
  · exact builds_returnStatement hsub
  · exact builds_throwStatement hsub
  · exact builds_jump _ (.inl rfl)
  · exact builds_jump _ (.inr rfl)
  · exact builds_assertStatement hsub
  · exact builds_tryStatement hsub
  · exact .either (builds_synchronizedStatement hsub) (builds_declarationStatement hsub)
  · exact .either (builds_yieldStatement hsub) (builds_plainStatement hsub)
  · exact hsub _
  · exact hsub _
  · exact hsub _
  · exact builds_packageDeclaration hsub
  · exact builds_importDeclaration
  · exact builds_declarationStatement hsub
  · exact builds_declarationStatement hsub
  · exact builds_declarationStatement hsub
  · exact builds_declarationStatement hsub
  · split
    · exact builds_declarationStatement hsub
    · exact builds_plainStatement hsub

theorem builds_statement [Regular sub] : Builds source [] (statement sub) := by
  intro ts ns rest htaken
  unfold statement at htaken
  split at htaken
  · split at htaken
    · exact builds_statementOf hsub _ _ _ _ htaken
    · exact Builds.symbol _ _ _ htaken
    · exact hsub _ _ _ _ htaken
    · exact builds_declarationStatement hsub _ _ _ htaken
    · exact builds_expressionStatement hsub _ _ _ htaken
  · cases htaken

/-! ## Single nodes -/

omit hsub

theorem gives_plainStatement : Gives Roleless (plainStatement sub) :=
  .or gives_node <| .or (.behind (fun _ => taken_notAhead) gives_node) <|
    .or (.behind (fun _ => taken_notAhead) gives_node) .none

theorem gives_declarationStatement [Regular sub] : Gives Roleless (declarationStatement sub) :=
  .or (gives_sub _) <| .or gives_node <| .or gives_node <| .or gives_plainStatement .none

theorem gives_statementOf [Regular sub] (word : String) :
    Gives Roleless (statementOf sub word) := by
  unfold statementOf
  split
  · exact gives_node
  · exact gives_node
  · exact gives_node
  · exact .either gives_node gives_node
  · exact gives_node
  · exact gives_node
  · exact gives_node
  · exact gives_node
  · exact gives_node
  · exact gives_node
  · exact .either gives_node gives_node
  · exact .either gives_node gives_declarationStatement
  · exact .either gives_node gives_plainStatement
  · exact gives_sub _
  · exact gives_sub _
  · exact gives_sub _
  · exact gives_node
  · exact gives_node
  · exact gives_declarationStatement
  · exact gives_declarationStatement
  · exact gives_declarationStatement
  · exact gives_declarationStatement
  · split
    · exact gives_declarationStatement
    · exact gives_plainStatement

theorem gives_statement [Regular sub] : Gives Roleless (statement sub) := by
  rintro ns ⟨ts, rest, hns⟩
  unfold statement at hns
  split at hns
  · split at hns
    · exact gives_statementOf _ ns ⟨_, _, hns⟩
    · exact (Gives.leaf fun _ => rfl : Gives Roleless (symbol ";")) ns ⟨_, _, hns⟩
    · exact gives_sub _ ns ⟨_, _, hns⟩
    · exact gives_declarationStatement ns ⟨_, _, hns⟩
    · exact gives_node ns ⟨_, _, hns⟩
  · cases hns

end Renaming.Java.Phrase
