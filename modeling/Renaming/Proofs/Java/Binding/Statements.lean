import Renaming.Java.Binding.Statements
import Renaming.Proofs.Java.Binding.Expressions

/-!
# Walks over statements

Blocks are walked statement by statement, and variables are declared where their names stand.
-/

namespace Renaming.Java.Binding

variable {S : Survey} [S.Covers] {sub : Task → Binding Meaning}
  (hsub : ∀ task, task.In S → Walks S (task.Answers S) (sub task))
include hsub

omit [S.Covers] in
theorem walks_statement? {n : Option Node} (h : ∀ c ∈ n, S.T c) :
    Walks S Any (statement? sub n) := by
  cases n with
  | none => exact .done
  | some n => exact .discard (hsub _ (h n rfl))

omit [S.Covers] in
theorem walks_statements {nodes : List Node} (h : ∀ n ∈ nodes, S.T n) :
    Walks S Any (statements sub nodes) :=
  .forM fun n hn => .discard (hsub _ (h n hn))

omit hsub in
theorem walks_writtenType {type : Option Node} (h : ∀ c ∈ type, S.T c) :
    Walks S Any (writtenType type) := by
  cases type with
  | none => exact .done
  | some t =>
    refine .bind walks_isInferred fun inferred _ => ?_
    split
    · exact .done
    · exact .bind (walks_typeNode (h t rfl)) fun _ _ => .done

omit hsub in
theorem walks_declareNamed {n : Node} {type : ExprType} (hn : S.T n)
    (hkind : S.orderly → n.kind.namesParts = true) : Walks S Any (declareNamed n type) := by
  unfold declareNamed
  split
  · exact .done
  · rename_i name hname
    have hword (ho : S.orderly) := (Survey.Covers.sound ho hn).isName_child (hkind ho) hname
    exact walks_declareLocal (Descends.child hn _ name hname) hword

theorem walks_localVariables {n : Node} (hn : S.T n) : Walks S Any (localVariables sub n) := by
  refine .bind (walks_annotations hsub hn) fun _ _ => ?_
  refine .bind (walks_writtenType (Descends.child hn _)) fun written _ => .forM fun d hd => ?_
  have hd' : S.T d := Descends.inRole hn _ d hd
  refine .bind walks_dims fun _ _ => ?_
  extract_lets expected declare
  have hkind (ho : S.orderly) := (Survey.Covers.sound ho hn).kind_declarator hd
  have hdeclare : ∀ value, Walks S Any (declare value) :=
    fun value => walks_declareNamed hd' fun ho => by rw [hkind ho]; rfl
  split
  · exact .bind .done fun value _ => hdeclare value
  · rename_i v hv
    exact .bind (hsub _ (Descends.child hd' _ v hv)) fun _ _ =>
      .bind .done fun value _ => hdeclare value

theorem walks_enhancedFor {n : Node} (hn : S.T n) (hkind : n.kind = .enhancedFor) :
    Walks S Any (enhancedFor sub n) := by
  refine walks_withBlock ?_
  refine .bind (walks_expression? hsub (Descends.child hn _)) fun iterable _ => ?_
  refine .bind (walks_annotations hsub hn) fun _ _ => ?_
  refine .bind (walks_writtenType (Descends.child hn _)) fun written _ => .bind .read fun _ _ => ?_
  exact .bind (walks_declareNamed hn fun _ => by rw [hkind]; rfl) fun _ _ =>
    walks_statement? hsub (Descends.child hn _)

theorem walks_catchClause {n : Node} (hn : S.T n) : Walks S Any (catchClause sub n) := by
  refine walks_withBlock ?_
  extract_lets body
  have hbody : ∀ u, Walks S Any (body u) := fun _ => walks_statement? hsub (Descends.child hn _)
  split
  · exact hbody ()
  · rename_i param hparam
    have hparam' : S.T param := Descends.ofKind hn _ param hparam
    have htypes := Descends.grandchildren (Descends.ofKind hparam' .catchType)
    refine .bind (walks_annotations hsub hparam') fun _ _ => ?_
    refine .bind (.mapM fun c hc => walks_typeNode (htypes c hc)) fun _ _ => ?_
    have hkind : param.kind = .catchParameter := by simpa using List.find?_some hparam
    exact .bind (walks_declareNamed hparam' fun _ => by rw [hkind]; rfl) fun u _ => hbody u

theorem walks_resource {n : Node} (hn : S.T n) : Walks S Any (resource sub n) := by
  unfold resource
  split
  · exact .discard (walks_expression hsub hn)
  · rename_i hresource
    have hkind : n.kind = .resource := by simpa using hresource
    split
    · exact .discard (walks_expressions hsub (Descends.named hn))
    · rename_i name hname
      have hword (ho : S.orderly) :=
        (Survey.Covers.sound ho hn).isName_child (by rw [hkind]; rfl) hname
      refine .bind (walks_annotations hsub hn) fun _ _ => ?_
      refine .bind (walks_writtenType (Descends.child hn _)) fun written _ => ?_
      refine .bind (walks_expression? hsub (Descends.child hn _)) fun value _ => ?_
      exact walks_declareLocal (Descends.child hn _ name hname) hword

theorem walks_tryWithResources {n : Node} (hn : S.T n) : Walks S Any (tryWithResources sub n) := by
  refine walks_withBlock (.forM fun c hc => ?_)
  have hc' : S.T c := Descends.named hn c hc
  split
  · exact .forM fun r hr => walks_resource hsub (Descends.named hc' r hr)
  · exact .discard (hsub _ hc')

theorem walks_forStatement {n : Node} (hn : S.T n) : Walks S Any (forStatement sub n) :=
  walks_withBlock <| .bind (walks_statements hsub (Descends.inRole hn _)) fun _ _ =>
    .bind (.discard (walks_expression? hsub (Descends.child hn _))) fun _ _ =>
      .bind (.discard (walks_expressions hsub (Descends.inRole hn _))) fun _ _ =>
        walks_statement? hsub (Descends.child hn _)

theorem walks_ifStatement {n : Node} (hn : S.T n) : Walks S Any (ifStatement sub n) :=
  .bind (.discard (walks_expression? hsub (Descends.child hn _))) fun _ _ =>
    .bind (walks_statement? hsub (Descends.child hn _)) fun _ _ =>
      walks_statement? hsub (Descends.child hn _)

theorem walks_explicitConstructorCall {n : Node} (hn : S.T n) :
    Walks S Any (explicitConstructorCall sub n) :=
  .bind (.discard (walks_expression? hsub (Descends.child hn _))) fun _ _ =>
    .discard (walks_arguments hsub (Descends.child hn _))

theorem walks_statement {n : Node} (hn : S.T n) : Walks S Any (statement sub n) := by
  have hnamed := Descends.named hn
  have heach : Walks S Any (n.namedChildren.forM (statementOrExpression sub)) :=
    .forM fun c hc => walks_statementOrExpression hsub (hnamed c hc)
  unfold statement
  split
  · exact walks_withBlock (walks_statements hsub hnamed)
  · exact walks_withBlock (walks_statements hsub hnamed)
  · exact walks_localVariables hsub hn
  · exact .discard (walks_expressions hsub hnamed)
  · exact .discard (walks_expressions hsub hnamed)
  · exact walks_ifStatement hsub hn
  · exact walks_forStatement hsub hn
  · rename_i hkind
    exact walks_enhancedFor hsub hn hkind
  · exact walks_catchClause hsub hn
  · exact walks_tryWithResources hsub hn
  · exact walks_statements hsub fun c hc => hnamed c (List.mem_filter.1 hc).1
  · exact .done
  · exact .done
  · exact walks_explicitConstructorCall hsub hn
  · exact heach
  · exact heach
  · exact heach
  · exact heach
  · exact heach
  · exact heach
  · exact heach
  · exact heach
  · exact heach
  · split
    · rename_i hkind
      exact .discard (hsub _ ⟨hn, hkind⟩)
    · exact .discard (walks_expression hsub hn)

end Renaming.Java.Binding
