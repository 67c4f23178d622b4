import Renaming.Proofs.Java.Comments.Walks.Expressions

/-!
# Statements around a comment

What a statement declares is declared under the same name, with a comment put in. Among statements
a comment is none.
-/

namespace Renaming.Java.Binding

open Node (Echo Respelled Component)

variable {V : Rebinding} {sub sub' : Task → Binding Meaning}
  (hsub : ∀ {task task'}, Task.Echo V.toRereading task task' →
    Follows V (MeaningEcho V) (sub task) (sub' task'))
  (hidle : ∀ {task'}, Task.Added V.toInsertion task' → Idle V.ctx' .done (sub' task'))

section Parts

include hsub

theorem follows_statement? {x x' : Option Node} (h : Option.Rel (Echo V.toInsertion) x x') :
    Follows V Eq (statement? sub x) (statement? sub' x') := by
  cases h with
  | none => exact .pure rfl
  | some hc => exact .discard (hsub (.statement hc))

include hidle in
theorem follows_statements {ns ns' : List Node}
    (h : Joined V.toInsertion (Echo V.toInsertion) ns ns') :
    Follows V Eq (statements sub ns) (statements sub' ns') :=
  .forM_joined h (fun _ _ hc => .discard (hsub (.statement hc))) fun _ hc =>
    .discard (hidle (.statement hc))

end Parts

theorem follows_writtenType {x x' : Option Node} (h : Option.Rel (Echo V.toInsertion) x x') :
    Follows V Eq (writtenType x) (writtenType x') := by
  cases h with
  | none => exact .pure rfl
  | some hc =>
    refine .bind (follows_isInferred hc) fun inferred inferred' hinferred => ?_
    subst hinferred
    split
    · exact .pure rfl
    · exact .bind (follows_typeNode hc) fun _ _ htype => .pure (by rw [htype])

theorem follows_declareNamed {n n' : Node}
    (h : Option.Rel (Respelled V.toRereading) (n.child? .name) (n'.child? .name))
    {type : ExprType} : Follows V Eq (declareNamed n type) (declareNamed n' type) := by
  unfold declareNamed
  generalize n.child? .name = x, n'.child? .name = x' at h
  cases h with
  | none => exact .pure rfl
  | some hc => exact follows_declareLocal hc type

/-- Comments among the types that are caught are none of them. -/
theorem follows_caughtTypes {ns ns' : List Node}
    (h : Joined V.toInsertion (Echo V.toInsertion) ns ns') :
    Follows V (fun types types' => types'.findSome? id = types.findSome? id)
      (ns.mapM typeNode) (ns'.mapM typeNode) := by
  refine .mapM_joined (R := Eq) (b := none) h (fun types types' =>
    types'.findSome? id = types.findSome? id) rfl ?_ ?_ (fun _ _ => follows_typeNode)
    fun _ => idle_typeNode
  · rintro type _ types types' rfl htypes
    rw [List.findSome?_cons, List.findSome?_cons, htypes]
  · intro types types' htypes
    rw [List.findSome?_cons, ← htypes]
    rfl

include hsub hidle

omit hidle in
theorem follows_localVariables {n n' : Node} (h : Echo V.toInsertion n n') :
    Follows V Eq (localVariables sub n) (localVariables sub' n') := by
  refine .andThen (follows_annotations hsub h) ?_
  refine .bind (follows_writtenType (h.child? _)) fun written written' hwritten => ?_
  subst hwritten
  refine .forM (h.readChildrenIn _) fun d d' ⟨hd, hrole, _⟩ => ?_
  rw [hd.role_eq] at hrole
  refine follows_dims hd hrole fun dims => ?_
  have hvalue := hd.child? .value
  extract_lets expected declare declare'
  have hdeclare : ∀ value, Follows V Eq (declare value) (declare' value) := fun _ =>
    follows_declareNamed (hd.name? (.inr hrole))
  generalize d.child? .value = x, d'.child? .value = x' at hvalue
  cases hvalue with
  | none => exact .bind (.pure rfl) fun _ _ hv => hv ▸ hdeclare _
  | some hc =>
    refine .bind (hsub (.initializer hc)) fun m m' hm => ?_
    subst hm
    exact .bind (.pure (congrArg some (exprType_moved m _).symm)) fun _ _ hv => hv ▸ hdeclare _

omit hidle in
theorem follows_enhancedFor {n n' : Node} (h : Echo V.toInsertion n n')
    (hkind : n.kind = .enhancedFor) :
    Follows V Eq (enhancedFor sub n) (enhancedFor sub' n') := by
  refine follows_withBlock ?_
  refine .bind (follows_expression? hsub (h.child? _)) fun iterable iterable' hiterable => ?_
  subst hiterable
  refine .andThen (follows_annotations hsub h) ?_
  refine .bind (follows_writtenType (h.child? _)) fun written written' hwritten => ?_
  subst hwritten
  refine .read ?_
  rw [V.index_eq]
  exact .andThen (follows_declareNamed (h.name? (.inl (by rw [hkind]; rfl))))
    (follows_statement? hsub (h.child? _))

omit hidle in
theorem follows_catchClause {n n' : Node} (h : Echo V.toInsertion n n') :
    Follows V Eq (catchClause sub n) (catchClause sub' n') := by
  have hparam := h.childOfKind? .catchParameter rfl
  refine follows_withBlock ?_
  extract_lets body body'
  have hbody : Follows V Eq (body ()) (body' ()) := follows_statement? hsub (h.child? _)
  have hkind : ∀ param ∈ n.childOfKind? .catchParameter, param.kind = .catchParameter :=
    fun param hp => by simpa using List.find?_some hp
  generalize n.childOfKind? .catchParameter = x, n'.childOfKind? .catchParameter = x'
    at hparam hkind
  cases hparam with
  | none => exact hbody
  | @some param param' hp =>
    refine .andThen (follows_annotations hsub hp) ?_
    have hlist : Joined V.toInsertion (Echo V.toInsertion)
        (((param.childOfKind? .catchType).map Node.namedChildren).getD [])
        (((param'.childOfKind? .catchType).map Node.namedChildren).getD []) := by
      have hcaught := hp.childOfKind? .catchType rfl
      generalize param.childOfKind? .catchType = y, param'.childOfKind? .catchType = y' at hcaught
      cases hcaught with
      | none => exact .nil
      | some hc => exact hc.named
    refine .bind (follows_caughtTypes hlist) fun types types' htypes => ?_
    rw [htypes]
    exact .andThen (follows_declareNamed (hp.name? (.inl (by rw [hkind param rfl]; rfl)))) hbody

theorem follows_resource {n n' : Node} (h : Echo V.toInsertion n n') :
    Follows V Eq (resource sub n) (resource sub' n') := by
  unfold resource
  rw [h.kind_eq]
  split
  · exact .discard (follows_expression hsub h)
  · rename_i hkind
    have hname := h.name? (.inl (by
      rw [show n.kind = .resource by simpa using hkind]
      rfl))
    generalize n.child? .name = x, n'.child? .name = x' at hname
    cases hname with
    | none => exact .discard (follows_expressions hsub hidle h.named)
    | some hc =>
      refine .andThen (follows_annotations hsub h) ?_
      refine .bind (follows_writtenType (h.child? _)) fun written written' hwritten => ?_
      subst hwritten
      refine .bind (follows_expression? hsub (h.child? _)) fun value value' hvalue => ?_
      subst hvalue
      exact follows_declareLocal hc _

omit hsub in
theorem idle_resource {c : Node} (hc : V.adds c = true) :
    Idle V.ctx' () (resource sub' c) := by
  unfold resource
  rw [bne, Insertion.kind_beq_of_adds hc rfl]
  exact (idle_expression hidle hc).discard

theorem follows_tryWithResources {n n' : Node} (h : Echo V.toInsertion n n') :
    Follows V Eq (tryWithResources sub n) (tryWithResources sub' n') := by
  refine follows_withBlock (.forM_joined h.named (fun c c' hc => ?_) fun c hc => ?_)
  · rw [hc.kind_eq]
    split
    · exact .forM_joined hc.named (fun _ _ hr => follows_resource hsub hidle hr) fun _ hr =>
        idle_resource hidle hr
    · exact .discard (hsub (.statement hc))
  · rw [Insertion.kind_beq_of_adds hc rfl]
    exact .discard (hidle (.statement hc))

theorem follows_forStatement {n n' : Node} (h : Echo V.toInsertion n n') :
    Follows V Eq (forStatement sub n) (forStatement sub' n') :=
  follows_withBlock <|
    .andThen (follows_statements hsub hidle (.of_forall₂ (h.childrenIn _))) <|
    .andThen (.discard (follows_expression? hsub (h.child? _))) <|
    .andThen (.discard (follows_expressions hsub hidle (.of_forall₂ (h.childrenIn _)))) <|
    follows_statement? hsub (h.child? _)

omit hidle in
theorem follows_ifStatement {n n' : Node} (h : Echo V.toInsertion n n') :
    Follows V Eq (ifStatement sub n) (ifStatement sub' n') :=
  .andThen (.discard (follows_expression? hsub (h.child? _))) <|
    .andThen (follows_statement? hsub (h.child? _)) (follows_statement? hsub (h.child? _))

theorem follows_explicitConstructorCall {n n' : Node} (h : Echo V.toInsertion n n') :
    Follows V Eq (explicitConstructorCall sub n) (explicitConstructorCall sub' n') :=
  .andThen (.discard (follows_expression? hsub (h.child? _)))
    (follows_arguments hsub hidle (h.child? _))

theorem follows_statement {n n' : Node} (h : Echo V.toInsertion n n') :
    Follows V Eq (statement sub n) (statement sub' n') := by
  have hblock : Follows V Eq (withBlock (statements sub n.namedChildren))
      (withBlock (statements sub' n'.namedChildren)) :=
    follows_withBlock (follows_statements hsub hidle h.named)
  have hexpressions : Follows V Eq (discard (expressions sub n.namedChildren))
      (discard (expressions sub' n'.namedChildren)) :=
    .discard (follows_expressions hsub hidle h.named)
  have hparts : Follows V Eq (n.namedChildren.forM (statementOrExpression sub))
      (n'.namedChildren.forM (statementOrExpression sub')) :=
    .forM_joined h.named (fun _ _ hc => follows_statementOrExpression hsub hc) fun _ hc =>
      idle_statementOrExpression hidle hc
  unfold statement
  rw [h.kind_eq]
  split <;> rename_i hkind
  · exact hblock
  · exact hblock
  · exact follows_localVariables hsub h
  · exact hexpressions
  · exact hexpressions
  · exact follows_ifStatement hsub h
  · exact follows_forStatement hsub hidle h
  · exact follows_enhancedFor hsub h hkind
  · exact follows_catchClause hsub h
  · exact follows_tryWithResources hsub hidle h
  · exact follows_statements hsub hidle
      (h.named.filter fun _ _ hc => hc.kindTest (· != .identifier))
  · exact .pure rfl
  · exact .pure rfl
  · exact follows_explicitConstructorCall hsub hidle h
  · exact hparts
  · exact hparts
  · exact hparts
  · exact hparts
  · exact hparts
  · exact hparts
  · exact hparts
  · exact hparts
  · exact hparts
  · split
    · exact .discard (hsub (.typeDeclaration h ‹_›))
    · exact .discard (follows_expression hsub h)

omit hsub in
theorem idle_statement {c : Node} (hc : V.adds c = true) : Idle V.ctx' () (statement sub' c) := by
  have hvalue := (idle_expression hidle hc).discard
  obtain ⟨kind, text, rfl, hkind⟩ := Insertion.adds_iff.1 hc
  rcases NodeKind.isComment_cases hkind with rfl | rfl <;> exact hvalue

end Renaming.Java.Binding
