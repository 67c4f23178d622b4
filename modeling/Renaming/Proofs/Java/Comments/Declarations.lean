import Renaming.Java.Grammar
import Renaming.Proofs.Java.Comments.Expressions

/-!
# Statements and declarations in other places

The first token of a statement decides which rule it is, and by its kind and text alone. With all
rules, what a whole list of tokens is read as does not depend on places.
-/

namespace Renaming.Java.Phrase

section Rules

variable {i : Insertion} {sub : Rule → Phrase} (hsub : ∀ rule, Alike i (sub rule) (sub rule))
include hsub

/-! ## Statements -/

theorem alike_block : Alike i (block sub) (block sub) :=
  .node <| .cons .symbol <| .cons (.many (hsub _)) <| .cons .symbol .nil

theorem alike_condition : Alike i (condition sub) (condition sub) :=
  .as (alike_parenthesized hsub)

theorem alike_localVariables : Alike i (localVariables sub) (localVariables sub) :=
  .node <| .cons (alike_modifiers hsub) <| .cons (.as (hsub _)) <| .cons (.notAhead .atWord) <|
    .cons (alike_declarators hsub) <| .cons .symbol .nil

theorem alike_labeledStatement : Alike i (labeledStatement sub) (labeledStatement sub) :=
  .node <| .cons .identifier <| .cons .symbol <| .cons (hsub _) .nil

theorem alike_ifStatement : Alike i (ifStatement sub) (ifStatement sub) :=
  .node <| .cons .keyword <| .cons (alike_condition hsub) <| .cons (.as (hsub _)) <|
    .cons (.optional (.cons .keyword <| .cons (.as (hsub _)) .nil)) .nil

theorem alike_whileStatement : Alike i (whileStatement sub) (whileStatement sub) :=
  .node <| .cons .keyword <| .cons (alike_condition hsub) <| .cons (.as (hsub _)) .nil

theorem alike_doStatement : Alike i (doStatement sub) (doStatement sub) :=
  .node <| .cons .keyword <| .cons (.as (hsub _)) <| .cons .keyword <|
    .cons (alike_condition hsub) <| .cons .symbol .nil

theorem alike_enhancedFor : Alike i (enhancedFor sub) (enhancedFor sub) :=
  .node <| .cons .keyword <| .cons .symbol <| .cons (alike_modifiers hsub) <|
    .cons (.as (hsub _)) <| .cons (alike_declaratorName hsub) <| .cons .symbol <|
    .cons (.as (hsub _)) <| .cons .symbol <| .cons (.as (hsub _)) .nil

theorem alike_forStatement : Alike i (forStatement sub) (forStatement sub) :=
  .node <| .cons .keyword <| .cons .symbol <|
    .cons (.either (.as (alike_localVariables hsub))
      (.cons (.commas (.as (hsub _))) <| .cons .symbol .nil)) <|
    .cons (.optional (.as (hsub _))) <| .cons .symbol <| .cons (.commas (.as (hsub _))) <|
    .cons .symbol <| .cons (.as (hsub _)) .nil

theorem alike_assertStatement : Alike i (assertStatement sub) (assertStatement sub) :=
  .node <| .cons .keyword <| .cons (hsub _) <|
    .cons (.optional (.cons .symbol <| .cons (hsub _) .nil)) <| .cons .symbol .nil

omit hsub in
theorem alike_jump (kind : NodeKind) (word : String) : Alike i (jump kind word) (jump kind word) :=
  .node <| .cons .keyword <| .cons (.optional .identifier) <| .cons .symbol .nil

theorem alike_returnStatement : Alike i (returnStatement sub) (returnStatement sub) :=
  .node <| .cons .keyword <| .cons (.optional (hsub _)) <| .cons .symbol .nil

theorem alike_yieldStatement : Alike i (yieldStatement sub) (yieldStatement sub) :=
  .node <| .cons .keyword <| .cons (hsub _) <| .cons .symbol .nil

theorem alike_synchronizedStatement :
    Alike i (synchronizedStatement sub) (synchronizedStatement sub) :=
  .node <| .cons .keyword <| .cons (alike_parenthesized hsub) <| .cons (.as (hsub _)) .nil

theorem alike_catchClause : Alike i (catchClause sub) (catchClause sub) :=
  .node <| .cons .keyword <| .cons .symbol <|
    .cons (.node <| .cons (alike_modifiers hsub) <|
      .cons (.node <| .cons (.separated .symbol (hsub _)) .nil) <|
      .cons (alike_declaratorName hsub) .nil) <|
    .cons .symbol <| .cons (.as (hsub _)) .nil

theorem alike_finallyClause : Alike i (finallyClause sub) (finallyClause sub) :=
  .node <| .cons .keyword <| .cons (hsub _) .nil

theorem alike_resource : Alike i (resource sub) (resource sub) :=
  .either
    (.node <| .cons (alike_modifiers hsub) <| .cons (.as (hsub _)) <|
      .cons (alike_declaratorName hsub) <| .cons .symbol <| .cons (.as (hsub _)) .nil)
    (.node <| .cons (.andThen (hsub _) fun _ _ h =>
      .ite (by rw [h.all_eq fun n => by rw [Node.kind_moved]]) (.given h) .refuse) .nil)

theorem alike_tryStatement : Alike i (tryStatement sub) (tryStatement sub) :=
  .either
    (.node <| .cons .keyword <|
      .cons (.as (.node <| .cons .symbol <| .cons (.separated .symbol (alike_resource hsub)) <|
        .cons (.optional .symbol) <| .cons .symbol .nil)) <|
      .cons (.as (hsub _)) <| .cons (.many (alike_catchClause hsub)) <|
      .cons (.optional (alike_finallyClause hsub)) .nil)
    (.node <| .cons .keyword <| .cons (.as (hsub _)) <|
      .cons (.either
        (.cons (.many (alike_catchClause hsub)) <| .cons (alike_finallyClause hsub) .nil)
        (.atLeastOne (alike_catchClause hsub))) .nil)

theorem alike_packageDeclaration : Alike i (packageDeclaration sub) (packageDeclaration sub) :=
  .node <| .cons (alike_annotations hsub) <| .cons .keyword <| .cons alike_dottedName <|
    .cons .symbol .nil

omit hsub in
theorem alike_importDeclaration : Alike i importDeclaration importDeclaration :=
  .node <| .cons .keyword <| .cons (.optional .keyword) <| .cons alike_dottedName <|
    .cons (.optional (.cons .symbol <| .cons (.leaf fun _ _ _ _ => rfl) .nil)) <|
    .cons .symbol .nil

omit hsub in
theorem alike_moduleNames : Alike i moduleNames moduleNames := .separated .symbol alike_dottedName

omit hsub in
theorem alike_moduleDirective : Alike i moduleDirective moduleDirective :=
  .node <| .cons (
    .or (.cons .keyword <|
      .cons (.many (.node <| .cons (.either .keyword .keyword) .nil)) <|
      .cons alike_dottedName .nil) <|
    .or (.cons (.either .keyword .keyword) <| .cons alike_dottedName <|
      .cons (.optional (.cons .keyword <| .cons alike_moduleNames .nil)) .nil) <|
    .or (.cons .keyword <| .cons alike_dottedName .nil) <|
    .or (.cons .keyword <| .cons alike_dottedName <| .cons .keyword <|
      .cons alike_moduleNames .nil) .last) <|
    .cons .symbol .nil

theorem alike_moduleDeclaration : Alike i (moduleDeclaration sub) (moduleDeclaration sub) :=
  .node <| .cons (alike_annotations hsub) <| .cons (.optional .keyword) <| .cons .keyword <|
    .cons (.as alike_dottedName) <|
    .cons (.as (.node <| .cons .symbol <| .cons (.many alike_moduleDirective) <|
      .cons .symbol .nil)) .nil

theorem alike_plainStatement : Alike i (plainStatement sub) (plainStatement sub) :=
  .or (alike_localVariables hsub) <|
    .or (.cons (.notAhead .atWord) <| .cons (alike_labeledStatement hsub) .nil) <|
    .or (.cons (.notAhead .atWord) <| .cons (alike_expressionStatement hsub) .nil) .last

theorem alike_declarationStatement :
    Alike i (declarationStatement sub) (declarationStatement sub) :=
  .or (hsub _) <| .or (alike_packageDeclaration hsub) <| .or (alike_moduleDeclaration hsub) <|
    .or (alike_plainStatement hsub) .last

theorem alike_statementOf (word : String) :
    Alike i (statementOf sub word) (statementOf sub word) := by
  unfold statementOf
  split
  · exact alike_ifStatement hsub
  · exact alike_whileStatement hsub
  · exact alike_doStatement hsub
  · exact .either (alike_enhancedFor hsub) (alike_forStatement hsub)
  · exact alike_switchExpression hsub
  · exact alike_returnStatement hsub
  · exact alike_throwStatement hsub
  · exact alike_jump _ _
  · exact alike_jump _ _
  · exact alike_assertStatement hsub
  · exact alike_tryStatement hsub
  · exact .either (alike_synchronizedStatement hsub) (alike_declarationStatement hsub)
  · exact .either (alike_yieldStatement hsub) (alike_plainStatement hsub)
  · exact hsub _
  · exact hsub _
  · exact hsub _
  · exact alike_packageDeclaration hsub
  · exact alike_importDeclaration
  · exact alike_declarationStatement hsub
  · exact alike_declarationStatement hsub
  · exact alike_declarationStatement hsub
  · exact alike_declarationStatement hsub
  · exact .ite Iff.rfl (alike_declarationStatement hsub) (alike_plainStatement hsub)

theorem alike_statement : Alike i (statement sub) (statement sub) := by
  intro ts ts' hts
  have hfront := hts
  cases hts with
  | nil => exact .none
  | @cons kind text span ts ts' _ hrest =>
    unfold statement
    dsimp only
    split
    · exact alike_statementOf hsub _ _ _ hfront
    · exact Alike.symbol _ _ hfront
    · exact hsub _ _ _ hfront
    · exact alike_declarationStatement hsub _ _ hfront
    · exact alike_expressionStatement hsub _ _ hfront

/-! ## Declarations -/

theorem alike_throwsClause : Alike i (throwsClause sub) (throwsClause sub) :=
  .node <| .cons .keyword <| .cons (.separated .symbol (hsub _)) .nil

theorem alike_methodDeclaration {ms ms' : List Node} (h : Node.Alike i ms ms') :
    Alike i (methodDeclaration sub ms) (methodDeclaration sub ms') :=
  .node <| .cons (.given h) <|
    .cons (.optional (.cons (.as (alike_typeParameters hsub)) <|
      .cons (alike_annotations hsub) .nil)) <|
    .cons (.as (hsub _)) <| .cons (.as .identifier) <| .cons (.as (alike_formalParameters hsub)) <|
    .cons (.optional (.as (alike_dimensions hsub))) <|
    .cons (.optional (alike_throwsClause hsub)) <| .cons (.either (.as (hsub _)) .symbol) .nil

theorem alike_explicitConstructorCall :
    Alike i (explicitConstructorCall sub) (explicitConstructorCall sub) := by
  have hcall {front front' : Phrase} (h : Alike i front front') :
      Alike i (node .explicitConstructorCall
          [front, optional ((typeArguments sub).as .typeArguments), constructorWord,
            (argumentList sub).as .arguments, symbol ";"])
        (node .explicitConstructorCall
          [front', optional ((typeArguments sub).as .typeArguments), constructorWord,
            (argumentList sub).as .arguments, symbol ";"]) :=
    .node <| .cons h <| .cons (.optional (.as (alike_typeArguments hsub))) <|
      .cons (.as (.either (.leaf fun _ _ _ _ => rfl) (.leaf fun _ _ _ _ => rfl))) <|
      .cons (.as (alike_argumentList hsub)) <| .cons .symbol .nil
  exact .either (hcall .nothing) (hcall (.cons (.as (hsub _)) <| .cons .symbol .nil))

theorem alike_constructorDeclaration {ms ms' : List Node} (h : Node.Alike i ms ms') :
    Alike i (constructorDeclaration sub ms) (constructorDeclaration sub ms') :=
  .node <| .cons (.given h) <| .cons (.optional (.as (alike_typeParameters hsub))) <|
    .cons (.as alike_name) <| .cons (.as (alike_formalParameters hsub)) <|
    .cons (.optional (alike_throwsClause hsub)) <|
    .cons (.as (.node <| .cons .symbol <|
      .cons (.optional (alike_explicitConstructorCall hsub)) <| .cons (.many (hsub _)) <|
      .cons .symbol .nil)) .nil

theorem alike_compactConstructor {ms ms' : List Node} (h : Node.Alike i ms ms') :
    Alike i (compactConstructor sub ms) (compactConstructor sub ms') :=
  .node <| .cons (.given h) <| .cons (.as alike_name) <| .cons (.as (hsub _)) .nil

theorem alike_valueMember (kind : NodeKind) {ms ms' : List Node} (h : Node.Alike i ms ms') :
    Alike i (valueMember sub kind ms) (valueMember sub kind ms') :=
  .node <| .cons (.given h) <| .cons (.as (hsub _)) <| .cons (alike_declarators hsub) <|
    .cons .symbol .nil

theorem alike_annotationElement {ms ms' : List Node} (h : Node.Alike i ms ms') :
    Alike i (annotationElement sub ms) (annotationElement sub ms') :=
  .node <| .cons (.given h) <| .cons (.as (hsub _)) <| .cons (.as .identifier) <| .cons .symbol <|
    .cons .symbol <| .cons (.optional (.as (alike_dimensions hsub))) <|
    .cons (.optional (.cons .keyword <| .cons (.as (hsub _)) .nil)) <| .cons .symbol .nil

omit hsub in
theorem alike_opensType : Alike i opensType opensType := .either .atWord (.ahead alike_atInterface)

/-- Members, given what may stand in a body before and after modifiers. -/
theorem alike_member {form : BodyForm}
    (hstart : Alike i (oneOf form.initializers) (oneOf form.initializers))
    (hmembers : ∀ ms ms', Node.Alike i ms ms' →
      Alike i (oneOf (form.members.map (· ms))) (oneOf (form.members.map (· ms')))) :
    Alike i (member sub form) (member sub form) :=
  .or .symbol <| .orAll hstart <|
    .or (.cons (.ahead (.cons (alike_modifiers hsub) <| .cons alike_opensType .nil)) <|
      .cons (hsub _) .nil) <|
    .or (.andThen (alike_modifiers hsub) fun ms ms' h =>
      .cons (.notAhead alike_opensType) <| .cons (hmembers ms ms' h) .nil) .last

theorem alike_classMember : Alike i (member sub (classForm sub)) (member sub (classForm sub)) :=
  alike_member hsub
    (.or (hsub _) <| .or (.node <| .cons .keyword <| .cons (hsub _) .nil) .last) fun _ _ h =>
      .or (alike_constructorDeclaration hsub h) <| .or (alike_compactConstructor hsub h) <|
      .or (alike_methodDeclaration hsub h) <| .or (alike_valueMember hsub _ h) .last

omit hsub in
theorem alike_bodyOf {form : BodyForm} (h : Alike i (member sub form) (member sub form)) :
    Alike i (bodyOf sub form) (bodyOf sub form) :=
  .node <| .cons .symbol <| .cons h.many <| .cons .symbol .nil

theorem alike_interfaceBody :
    Alike i (bodyOf sub (interfaceForm sub)) (bodyOf sub (interfaceForm sub)) :=
  alike_bodyOf <| alike_member hsub .last fun _ _ h =>
    .or (alike_methodDeclaration hsub h) <| .or (alike_valueMember hsub _ h) .last

theorem alike_annotationBody :
    Alike i (bodyOf sub (annotationForm sub)) (bodyOf sub (annotationForm sub)) :=
  alike_bodyOf <| alike_member hsub .last fun _ _ h =>
    .or (alike_annotationElement hsub h) <| .or (alike_valueMember hsub _ h) .last

theorem alike_classBody : Alike i (classBody sub) (classBody sub) :=
  alike_bodyOf (alike_classMember hsub)

theorem alike_superInterfaces : Alike i (superInterfaces sub) (superInterfaces sub) :=
  .as (.node <| .cons .keyword <| .cons (alike_typeList hsub) .nil)

theorem alike_permits : Alike i (permits sub) (permits sub) :=
  .as (.node <| .cons .keyword <| .cons (alike_typeList hsub) .nil)

theorem alike_classDeclaration {ms ms' : List Node} (h : Node.Alike i ms ms') :
    Alike i (classDeclaration sub ms) (classDeclaration sub ms') :=
  .node <| .cons (.given h) <| .cons .keyword <| .cons (.as .identifier) <|
    .cons (.optional (.as (alike_typeParameters hsub))) <|
    .cons (.optional (.as (.node <| .cons .keyword <| .cons (hsub _) .nil))) <|
    .cons (.optional (alike_superInterfaces hsub)) <| .cons (.optional (alike_permits hsub)) <|
    .cons (.as (alike_classBody hsub)) .nil

theorem alike_interfaceDeclaration {ms ms' : List Node} (h : Node.Alike i ms ms') :
    Alike i (interfaceDeclaration sub ms) (interfaceDeclaration sub ms') :=
  .node <| .cons (.given h) <| .cons .keyword <| .cons (.as .identifier) <|
    .cons (.optional (.as (alike_typeParameters hsub))) <|
    .cons (.optional (.node <| .cons .keyword <| .cons (alike_typeList hsub) .nil)) <|
    .cons (.optional (alike_permits hsub)) <| .cons (.as (alike_interfaceBody hsub)) .nil

theorem alike_enumConstant : Alike i (enumConstant sub) (enumConstant sub) :=
  .node <| .cons (alike_modifiers hsub) <| .cons (.as .identifier) <|
    .cons (.optional (.as (alike_argumentList hsub))) <|
    .cons (.optional (.as (alike_classBody hsub))) .nil

theorem alike_enumDeclaration {ms ms' : List Node} (h : Node.Alike i ms ms') :
    Alike i (enumDeclaration sub ms) (enumDeclaration sub ms') :=
  .node <| .cons (.given h) <| .cons .keyword <| .cons (.as .identifier) <|
    .cons (.optional (alike_superInterfaces hsub)) <|
    .cons (.as (.node <| .cons .symbol <| .cons (.commas (alike_enumConstant hsub)) <|
      .cons (.optional .symbol) <|
      .cons (.optional (.node <| .cons .symbol <| .cons (.many (alike_classMember hsub)) .nil)) <|
      .cons .symbol .nil)) .nil

theorem alike_recordDeclaration {ms ms' : List Node} (h : Node.Alike i ms ms') :
    Alike i (recordDeclaration sub ms) (recordDeclaration sub ms') :=
  .node <| .cons (.given h) <| .cons .keyword <| .cons (.as .identifier) <|
    .cons (.optional (.as (alike_typeParameters hsub))) <|
    .cons (.as (alike_formalParameters hsub)) <| .cons (.optional (alike_superInterfaces hsub)) <|
    .cons (.as (alike_classBody hsub)) .nil

theorem alike_annotationTypeDeclaration {ms ms' : List Node} (h : Node.Alike i ms ms') :
    Alike i (annotationTypeDeclaration sub ms) (annotationTypeDeclaration sub ms') :=
  .node <| .cons (.given h) <| .cons alike_atInterface <| .cons (.as .identifier) <|
    .cons (.as (alike_annotationBody hsub)) .nil

theorem alike_typeDeclaration : Alike i (typeDeclaration sub) (typeDeclaration sub) :=
  .andThen (alike_modifiers hsub) fun _ _ h =>
    .or (alike_classDeclaration hsub h) <| .or (alike_interfaceDeclaration hsub h) <|
    .or (alike_enumDeclaration hsub h) <| .or (alike_recordDeclaration hsub h) <|
    .or (alike_annotationTypeDeclaration hsub h) .last

/-! ## All rules -/

theorem alike_ofRule (rule : Rule) : Alike i (ofRule sub rule) (ofRule sub rule) := by
  cases rule with
  | expression level arrows => exact alike_expressionAt hsub level arrows
  | primary => exact alike_primary hsub
  | initializer => exact alike_initializer hsub
  | elementValue => exact alike_elementValue hsub
  | annotated => exact alike_annotated hsub
  | type => exact alike_type hsub
  | plainType => exact alike_plainType hsub
  | recordPattern => exact alike_recordPattern hsub
  | statement => exact alike_statement hsub
  | block => exact alike_block hsub
  | typeDeclaration => exact alike_typeDeclaration hsub
  | classBody => exact alike_classBody hsub

theorem alike_program : Alike i (program sub) (program sub) := by
  intro ts ts' hts
  have hmembers : Alike i
      (many (either (sub .statement) (andThen (modifiers sub) (methodDeclaration sub))))
      (many (either (sub .statement) (andThen (modifiers sub) (methodDeclaration sub)))) :=
    .many <| .either (hsub _) <| .andThen (alike_modifiers hsub) fun _ _ =>
      alike_methodDeclaration hsub
  have htaken := hmembers ts ts' hts
  unfold program
  generalize many _ ts = x, many _ ts' = x' at htaken
  cases htaken with
  | none => exact .none
  | some hns hrest =>
    cases hrest with
    | nil => exact .some (hns.branch .program) .nil
    | cons => exact .none

end Rules

/-- What rules take from alike lists does not depend on how deep they nest. -/
theorem alike_nested (depth : Nat) (rule : Rule) :
    Alike i (nested depth rule) (nested depth rule) := by
  induction depth generalizing rule with
  | zero => exact .refuse
  | succ depth ih => exact alike_ofRule ih rule

end Renaming.Java.Phrase
