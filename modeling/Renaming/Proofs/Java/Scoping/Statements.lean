import Renaming.Java.Binding.Statements
import Renaming.Proofs.Java.Scoping.Expressions

/-!
# Blind walks over statements

Statements that open a block leave nothing. All other statements leave what their parts leave: the
condition of a loop or of an `if`, too, is no block.
-/

namespace Renaming.Java.Binding

variable {V : View} {left : String → Prop} {sub : Task → Binding Meaning}
  (hsub : ∀ left task, task.Lets V left → Blind V left (sub task))
include hsub

theorem blind_statement? {n : Option Node} (h : ∀ c ∈ n, Task.Lets V left (.statement c)) :
    Blind V left (statement? sub n) := by
  cases n with
  | none => exact .pure
  | some n => exact .discard (hsub _ _ (h n rfl))

theorem blind_statements {nodes : List Node} (h : ∀ n ∈ nodes, Task.Lets V left (.statement n)) :
    Blind V left (statements sub nodes) :=
  .forM fun n hn => .discard (hsub _ _ (h n hn))

omit hsub in
/-- A statement inside of a block. -/
theorem lets_statement_all {n : Node} (hn : V.T n) :
    Task.Lets V (fun _ => True) (.statement n) := ⟨hn, fun _ => .all hn⟩

omit hsub in
/-- A child that is walked as a statement. -/
theorem lets_statement_child {n c : Node} (hn : V.Fits left n) (hc : c ∈ n.children)
    (hkind : n.kind ≠ .lambda ∧ n.kind ≠ .switchExpression) :
    Task.Lets V left (.statement c) :=
  ⟨V.children hn.mem c hc, fun hopen =>
    hn.inside hc (Node.encloses_of_not_opensBlock hkind hopen)⟩

omit hsub in
theorem blind_writtenType {type : Option Node} : Blind V left (writtenType type) := by
  cases type with
  | none => exact .pure
  | some t =>
    refine .bind blind_isInferred fun inferred => ?_
    split
    · exact .pure
    · exact .bind blind_typeNode fun _ => .pure

omit hsub in
theorem blind_declareNamed {n : Node} {type : ExprType}
    (h : ∀ name ∈ n.child? .name, left (V.text name)) : Blind V left (declareNamed n type) := by
  unfold declareNamed
  split
  · exact .pure
  · rename_i name hname
    exact blind_declareLocal (h name hname)

theorem blind_localVariables {n : Node} (hn : V.Fits left n) (hkind : n.kind = .localVariables) :
    Blind V left (localVariables sub n) := by
  refine .bind (blind_annotations hsub hn) fun _ => .bind blind_writtenType fun written => ?_
  refine .forM fun d hd => .bind blind_dims fun dims => ?_
  have hrole : d.role = some .declarator := by simpa using (List.mem_filter.1 hd).2
  have hd' := (hn.inRole (by rw [hkind]; rfl) _ d hd).entries rfl hrole
  extract_lets expected declare
  have hdeclare : ∀ value, Blind V left (declare value) := fun _ =>
    blind_declareNamed fun name hname => hn.leaves name (.declared hkind hd hname)
  split
  · exact .bind .pure hdeclare
  · rename_i value hvalue
    have hvalue' : V.Fits left value := hd' value (List.mem_of_find?_eq_some hvalue)
    exact .bind (hsub _ _ hvalue') fun _ => .bind .pure hdeclare

theorem blind_enhancedFor {n : Node} (hn : V.T n) : Blind V left (enhancedFor sub n) := by
  refine blind_withBlock ?_
  refine .bind (blind_expression? hsub fun c hc => .all (Descends.child hn _ c hc)) fun _ => ?_
  refine .bind (blind_annotations hsub (.all hn)) fun _ => .bind blind_writtenType fun _ => ?_
  refine .read (.bind (blind_declareNamed fun _ _ => trivial) fun _ => ?_)
  exact blind_statement? hsub fun c hc => lets_statement_all (Descends.child hn _ c hc)

theorem blind_catchClause {n : Node} (hn : V.T n) : Blind V left (catchClause sub n) := by
  refine blind_withBlock ?_
  extract_lets body
  have hbody : ∀ u, Blind V (fun _ => True) (body u) := fun _ =>
    blind_statement? hsub fun c hc => lets_statement_all (Descends.child hn _ c hc)
  split
  · exact hbody ()
  · rename_i param hparam
    refine .bind (blind_annotations hsub (.all (Descends.ofKind hn _ param hparam))) fun _ => ?_
    refine .bind (.mapM fun _ _ => blind_typeNode) fun types => ?_
    exact .bind (blind_declareNamed fun _ _ => trivial) hbody

theorem blind_resource {n : Node} (hn : V.T n) :
    Blind V (fun _ => True) (resource sub n) := by
  unfold resource
  split
  · exact .discard (blind_expression hsub (.all hn))
  · split
    · exact .discard (blind_expressions hsub fun c hc => .all (Descends.named hn c hc))
    · refine .bind (blind_annotations hsub (.all hn)) fun _ => .bind blind_writtenType fun _ => ?_
      refine .bind (blind_expression? hsub fun c hc => .all (Descends.child hn _ c hc)) fun _ => ?_
      exact blind_declareLocal trivial

theorem blind_tryWithResources {n : Node} (hn : V.T n) :
    Blind V left (tryWithResources sub n) := by
  refine blind_withBlock (.forM fun c hc => ?_)
  have hc' : V.T c := Descends.named hn c hc
  split
  · exact .forM fun r hr => blind_resource hsub (Descends.named hc' r hr)
  · exact .discard (hsub _ _ (lets_statement_all hc'))

theorem blind_forStatement {n : Node} (hn : V.T n) : Blind V left (forStatement sub n) := by
  have hchild (role : Role) : ∀ c ∈ n.childrenIn role, V.T c := Descends.inRole hn role
  refine blind_withBlock ?_
  refine .bind (blind_statements hsub fun c hc => lets_statement_all (hchild _ c hc)) fun _ => ?_
  refine .bind (.discard (blind_expression? hsub fun c hc =>
    .all (Descends.child hn _ c hc))) fun _ => ?_
  refine .bind (.discard (blind_expressions hsub fun c hc => .all (hchild _ c hc))) fun _ => ?_
  exact blind_statement? hsub fun c hc => lets_statement_all (Descends.child hn _ c hc)

theorem blind_ifStatement {n : Node} (hn : V.Fits left n) (hkind : n.kind = .ifStatement) :
    Blind V left (ifStatement sub n) := by
  have hbranch (role : Role) : ∀ c ∈ n.child? role, Task.Lets V left (.statement c) :=
    fun c hc => lets_statement_child hn (List.mem_of_find?_eq_some hc) (by simp [hkind])
  refine .bind (.discard (blind_expression? hsub (hn.part rfl nofun))) fun _ => ?_
  exact .bind (blind_statement? hsub (hbranch _)) fun _ => blind_statement? hsub (hbranch _)

theorem blind_explicitConstructorCall {n : Node} (hn : V.Fits left n)
    (hkind : n.kind.shields = false) : Blind V left (explicitConstructorCall sub n) :=
  .bind (.discard (blind_expression? hsub (hn.child hkind _))) fun _ =>
    .discard (blind_arguments hsub hn hkind)

/-- The parts of a statement that opens no block. -/
theorem blind_parts {n : Node} (hn : V.Fits left n) (hkind : n.kind.isStatement = true) :
    Blind V left (n.namedChildren.forM (statementOrExpression sub)) := by
  refine .forM fun c hc => ?_
  have hmem := (List.mem_filter.1 hc).1
  refine blind_statementOrExpression hsub (V.children hn.mem c hmem) (fun _ hopen => ?_) fun h => ?_
  · have hplain : n.kind ≠ .lambda ∧ n.kind ≠ .switchExpression := by
      constructor
      · intro heq
        rw [heq] at hkind
        cases hkind
      · intro heq
        rw [heq] at hkind
        cases hkind
    exact hn.inside hmem (Node.encloses_of_not_opensBlock hplain hopen)
  · exact hn.inside hmem (Node.encloses_of_not_isStatement hkind h)

theorem blind_statement {n : Node} (hn : Task.Lets V left (.statement n)) :
    Blind V left (statement sub n) := by
  obtain ⟨hmem, hfits⟩ := hn
  have hblock : Blind V left (withBlock (statements sub n.namedChildren)) :=
    blind_withBlock (blind_statements hsub fun c hc =>
      lets_statement_all (Descends.named hmem c hc))
  have hopen {kind : NodeKind} (hkind : n.kind = kind) (h : kind.opensBlock = false) :
      V.Fits left n := hfits (hkind ▸ h)
  have hexpressions {kind : NodeKind} (hkind : n.kind = kind) (h : kind.opensBlock = false)
      (hshields : kind.shields = false) :
      Blind V left (discard (expressions sub n.namedChildren)) :=
    .discard (blind_expressions hsub ((hopen hkind h).named (hkind ▸ hshields)))
  have hparts {kind : NodeKind} (hkind : n.kind = kind) (h : kind.opensBlock = false)
      (hstatement : kind.isStatement = true) :
      Blind V left (n.namedChildren.forM (statementOrExpression sub)) :=
    blind_parts hsub (hopen hkind h) (hkind ▸ hstatement)
  unfold statement
  split <;> rename_i hkind
  · exact hblock
  · exact hblock
  · exact blind_localVariables hsub (hopen hkind rfl) hkind
  · exact hexpressions hkind rfl rfl
  · exact hexpressions hkind rfl rfl
  · exact blind_ifStatement hsub (hopen hkind rfl) hkind
  · exact blind_forStatement hsub hmem
  · exact blind_enhancedFor hsub hmem
  · exact blind_catchClause hsub hmem
  · exact blind_tryWithResources hsub hmem
  · refine blind_statements hsub fun c hc => ?_
    have hc' := (List.mem_filter.1 (List.mem_filter.1 hc).1).1
    exact lets_statement_child (hopen hkind rfl) hc' (by simp [hkind])
  · exact .pure
  · exact .pure
  · exact blind_explicitConstructorCall hsub (hopen hkind rfl) (by rw [hkind]; rfl)
  · exact hparts hkind rfl rfl
  · exact hparts hkind rfl rfl
  · exact hparts hkind rfl rfl
  · exact hparts hkind rfl rfl
  · exact hparts hkind rfl rfl
  · exact hparts hkind rfl rfl
  · exact hparts hkind rfl rfl
  · exact hparts hkind rfl rfl
  · exact hparts hkind rfl rfl
  · have hfits' : V.Fits left n := by
      refine hfits ?_
      unfold NodeKind.opensBlock
      split <;> simp_all
    split
    · exact .discard (hsub _ _ ⟨hfits', ‹_›⟩)
    · exact .discard (blind_expression hsub hfits')

end Renaming.Java.Binding
