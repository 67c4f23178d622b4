import Renaming.Proofs.Java.Comments.Steps

/-!
# Expressions around a comment

Each function of the walk finds the same with a comment put in, provided that the walks inside it do
so, and that they find nothing in a comment.
-/

namespace Renaming.Java

open Node (Echo Respelled Component)

/-- A step on a tree with a comment put in. -/
inductive Task.Echo (r : Rereading) : Task → Task → Prop where
  | expression {n n' : Node} (h : Node.Echo r.toInsertion n n') :
      Task.Echo r (.expression n) (.expression n')
  | name {n n' : Node} (h : Node.Echo r.toInsertion n n') : Task.Echo r (.name n) (.name n')
  | statement {n n' : Node} (h : Node.Echo r.toInsertion n n') :
      Task.Echo r (.statement n) (.statement n')
  | initializer {n n' : Node} {expected : Option GenericType}
      (h : Node.Echo r.toInsertion n n') :
      Task.Echo r (.initializer n expected) (.initializer n' expected)
  | lambda {n n' : Node} {params : List GenericType} (h : Node.Echo r.toInsertion n n') :
      Task.Echo r (.lambda n params) (.lambda n' params)
  | annotated {n n' : Node} (h : Node.Echo r.toInsertion n n') :
      Task.Echo r (.annotated n) (.annotated n')
  | elementValue {n n' : Node} (h : Node.Echo r.toInsertion n n') :
      Task.Echo r (.elementValue n) (.elementValue n')
  | pattern {n n' : Node} (h : Node.Echo r.toInsertion n n') :
      Task.Echo r (.pattern n) (.pattern n')
  | typeDeclaration {n n' : Node} {inBlock : Bool} (h : Node.Echo r.toInsertion n n')
      (hkind : n.kind.isTypeDeclaration = true) :
      Task.Echo r (.typeDeclaration n inBlock) (.typeDeclaration n' inBlock)
  | classBody {n n' : Node} {binary : String} {components components' : Option Node}
      (h : Node.Echo r.toInsertion n n')
      (hcomponents : Joined r.toInsertion (Node.Component r)
        ((components.map Node.namedChildren).getD [])
        ((components'.map Node.namedChildren).getD [])) :
      Task.Echo r (.classBody n binary components) (.classBody n' binary components')

/-- A step on a comment that was put in. -/
inductive Task.Added (i : Insertion) : Task → Prop where
  | expression {c : Node} (h : i.adds c = true) : Task.Added i (.expression c)
  | statement {c : Node} (h : i.adds c = true) : Task.Added i (.statement c)
  | initializer {c : Node} {expected : Option GenericType} (h : i.adds c = true) :
      Task.Added i (.initializer c expected)
  | elementValue {c : Node} (h : i.adds c = true) : Task.Added i (.elementValue c)
  | pattern {c : Node} (h : i.adds c = true) : Task.Added i (.pattern c)

namespace Binding

variable {V : Rebinding}

/-- Meanings that correspond. -/
def MeaningEcho (V : Rebinding) (m m' : Meaning) : Prop := m' = m.moved V.toInsertion

theorem exprType_moved (m : Meaning) (i : Insertion) : (m.moved i).exprType = m.exprType := by
  cases m <;> rfl

/-! ## Names and accesses -/

theorem follows_simpleName {n n' : Node} (h : Echo V.toInsertion n n')
    (hkind : n.kind = .identifier) :
    Follows V (MeaningEcho V) (simpleName n) (simpleName n') := by
  have htext : V.source'.text n' = V.source.text n := h.spelled (by rw [hkind]; rfl)
  refine follows_spelled htext (.bind follows_variableNamed? fun v v' hv => ?_)
  subst hv
  cases v with
  | some v => exact .bind (follows_useVariable ⟨h, htext⟩ v) fun t t' ht => .pure (by rw [ht]; rfl)
  | none =>
    refine .read (.get fun s ds => ?_)
    rw [V.index_eq, show (s.moved V.toInsertion ds).scope = s.scope from rfl]
    split
    · exact .andThen (follows_emit h) (.pure rfl)
    · split
      · exact .pure (congrArg _ h.start_eq)
      · exact .andThen follows_unresolved (.pure rfl)

theorem follows_fieldOfValue {type : ExprType} {field field' : Node}
    (h : Echo V.toInsertion field field') {name : String} :
    Follows V (MeaningEcho V) (fieldOfValue type field name) (fieldOfValue type field' name) := by
  refine .read ?_
  rw [V.index_eq]
  dsimp only
  split
  · split
    · exact .pure rfl
    · split
      · exact .pure rfl
      · split
        · exact .andThen (follows_emit h) (.pure rfl)
        · exact .andThen follows_unresolved (.pure rfl)
  · exact .pure rfl

theorem follows_memberOfType {owner : String} {field field' : Node}
    (h : Echo V.toInsertion field field') {name : String} :
    Follows V (MeaningEcho V) (memberOfType owner field name) (memberOfType owner field' name) := by
  refine .read ?_
  rw [V.index_eq]
  dsimp only
  split
  · exact .andThen (follows_emit h) (.pure rfl)
  · split
    · exact .andThen (follows_emit h) (.pure rfl)
    · exact .andThen follows_unresolved (.pure rfl)

theorem follows_memberOfPackage {package : String} {start : Nat} {field field' : Node}
    (h : Echo V.toInsertion field field') {name : String} :
    Follows V (MeaningEcho V) (memberOfPackage package start field name)
      (memberOfPackage package (V.start start) field' name) := by
  refine .read ?_
  rw [V.index_eq]
  dsimp only
  split
  · refine .andThen (follows_emitWith ?_) (.pure rfl)
    rw [h.stop_eq]
    rfl
  · split
    · exact .pure rfl
    · exact .andThen follows_diagnose (.pure rfl)

section Inside

variable {sub sub' : Task → Binding Meaning}
  (hsub : ∀ {task task'}, Task.Echo V.toRereading task task' →
    Follows V (MeaningEcho V) (sub task) (sub' task'))
  (hidle : ∀ {task'}, Task.Added V.toInsertion task' → Idle V.ctx' .done (sub' task'))
include hsub

theorem follows_expression {n n' : Node} (h : Echo V.toInsertion n n') :
    Follows V Eq (expression sub n) (expression sub' n') :=
  .bind (hsub (.expression h)) fun m m' hm => .pure (by rw [hm, exprType_moved])

theorem follows_expression? {x x' : Option Node} (h : Option.Rel (Echo V.toInsertion) x x') :
    Follows V Eq (expression? sub x) (expression? sub' x') := by
  cases h with
  | none => exact .pure rfl
  | some hc => exact follows_expression hsub hc

omit hsub in
include hidle in
theorem idle_expression {c : Node} (hc : V.adds c = true) :
    Idle V.ctx' .unknown (expression sub' c) :=
  .bind (hidle (.expression hc)) .pure

include hidle in
/-- Expressions of which nothing is taken. -/
theorem follows_expressions {ns ns' : List Node}
    (h : Joined V.toInsertion (Echo V.toInsertion) ns ns') :
    Follows V (fun _ _ => True) (expressions sub ns) (expressions sub' ns') :=
  .mapM_joined h (R := Eq) _ trivial (fun _ _ _ _ _ _ => trivial) (fun _ _ _ => trivial)
    (fun _ _ => follows_expression hsub) fun _ => idle_expression hidle

include hidle in
theorem follows_arguments {x x' : Option Node} (h : Option.Rel (Echo V.toInsertion) x x') :
    Follows V Eq (discard (arguments sub x)) (discard (arguments sub' x')) := by
  refine .discard (follows_expressions hsub hidle ?_)
  cases h with
  | none => exact .nil
  | some hc => exact hc.named

include hidle in
/-- The last of some expressions, unless it was put in. -/
theorem follows_lastOf {ns ns' : List Node} (h : Joined V.toInsertion (Echo V.toInsertion) ns ns')
    (hkept : ∀ c ∈ ns'.getLast?, V.adds c = false) :
    Follows V (fun types types' => types'.getLast? = types.getLast?) (expressions sub ns)
      (expressions sub' ns') := by
  rcases h.last_cases hkept with ⟨rfl, rfl⟩ | ⟨n, n', ms, ms', rfl, rfl, hn, hms⟩
  · exact .pure rfl
  · unfold expressions
    rw [List.mapM_append, List.mapM_append]
    refine .bind (follows_expressions hsub hidle hms) fun types types' _ => ?_
    refine .bind (R := fun types types' => ∃ t, types = [t] ∧ types' = [t]) ?_
      fun last last' ⟨t, hlast, hlast'⟩ => .pure (by simp [hlast, hlast'])
    rw [List.mapM_cons, List.mapM_cons]
    exact .bind (follows_expression hsub hn) fun t t' ht => .pure ⟨t, rfl, by rw [ht]; rfl⟩

theorem follows_annotations {n n' : Node} (h : Echo V.toInsertion n n') :
    Follows V Eq (annotations sub n) (annotations sub' n') := by
  refine .forM_joined h.named (fun c c' hc => ?_) fun c hc => ?_
  · rw [hc.kind_eq]
    split
    · exact .forM (hc.allNamedWith _ fun _ => NodeKind.isAnnotated_eq_false) fun a a' ha =>
        .discard (hsub (.annotated ha))
    · split
      · exact .discard (hsub (.annotated hc))
      · exact .pure rfl
  · rw [Insertion.kind_beq_of_adds hc rfl, NodeKind.isAnnotated_eq_false
      (Insertion.isComment_of_adds hc)]
    exact .pure

theorem follows_outerThis {object object' : Node} (h : Echo V.toInsertion object object') :
    Follows V (MeaningEcho V) (outerThis sub object) (outerThis sub' object') := by
  refine .bind (hsub (.name h)) fun m m' hm => ?_
  subst hm
  cases m with
  | type outer =>
    refine .read ?_
    rw [V.index_eq]
    exact .pure rfl
  | _ => exact .pure rfl

theorem follows_fieldAccess {n n' : Node} (h : Echo V.toInsertion n n') :
    Follows V (MeaningEcho V) (fieldAccess sub n) (fieldAccess sub' n') := by
  have hobject := h.child? .object
  have hfield := h.readChild? .field fun c' hc' => by simp [Node.reads, hc']
  unfold fieldAccess
  generalize n.child? .object = x, n'.child? .object = x' at hobject
  generalize n.child? .field = y, n'.child? .field = y' at hfield
  cases hobject with
  | none => exact .pure rfl
  | some hobject =>
    cases hfield with
    | none => exact .pure rfl
    | some hfield =>
      dsimp only
      rw [hfield.echo.kind_eq]
      split
      · exact follows_outerThis hsub hobject
      · refine follows_spelled hfield.text_eq (.bind (hsub (.name hobject)) fun m m' hm => ?_)
        subst hm
        cases m with
        | value type => exact follows_fieldOfValue hfield.echo
        | type owner => exact follows_memberOfType hfield.echo
        | package package start => exact follows_memberOfPackage hfield.echo
        | unknown => exact .pure rfl

theorem follows_nameOf {n n' : Node} (h : Echo V.toInsertion n n') :
    Follows V (MeaningEcho V) (nameOf sub n) (nameOf sub' n') := by
  unfold nameOf
  rw [h.kind_eq]
  split
  · rename_i hkind
    exact follows_simpleName h hkind
  · exact follows_fieldAccess hsub h
  · exact .bind (follows_expression hsub h) fun t t' ht => .pure (by rw [ht]; rfl)

/-! ## Calls -/

omit hsub in
theorem follows_unqualifiedTarget {method : String} :
    Follows V Eq (unqualifiedTarget method) (unqualifiedTarget method) := by
  refine .read (.get fun s ds => ?_)
  rw [V.index_eq, show (s.moved V.toInsertion ds).scope = s.scope from rfl]
  dsimp only
  split
  · exact .pure rfl
  · exact .pure rfl

theorem follows_callTarget {method : String} {x x' : Option Node}
    (h : Option.Rel (Echo V.toInsertion) x x') :
    Follows V Eq (callTarget sub method x) (callTarget sub' method x') := by
  cases h with
  | none => exact .bind follows_unqualifiedTarget fun t t' ht => .pure (by rw [ht])
  | some hobject =>
    unfold callTarget
    dsimp only
    rw [hobject.kind_eq]
    split
    · refine .read ?_
      rw [V.index_eq]
      exact .bind follows_currentClass? fun c c' hc => .pure (by rw [hc])
    · refine .bind (hsub (.name hobject)) fun m m' hm => ?_
      subst hm
      cases m with
      | value t => exact .pure rfl
      | type owner => exact .pure rfl
      | package package start => exact .andThen follows_unresolved (.pure rfl)
      | unknown => exact .pure rfl

omit hsub in
theorem follows_explicitArguments {n n' : Node} (h : Echo V.toInsertion n n') :
    Follows V Eq (explicitArguments n) (explicitArguments n') := by
  have harguments := h.child? .typeArguments
  unfold explicitArguments
  generalize n.child? .typeArguments = x, n'.child? .typeArguments = x' at harguments
  cases harguments with
  | none => exact .pure rfl
  | some hc =>
    exact .bind (follows_naming fun _ => TypeContext.follows_typeArguments hc) fun a a' ha =>
      .pure (by rw [ha])

theorem follows_argumentTypes {ns ns' : List Node} (h : List.Forall₂ (Echo V.toInsertion) ns ns') :
    Follows V Eq (argumentTypes sub ns) (argumentTypes sub' ns') := by
  refine (Follows.mapM (R := Eq) h fun c c' hc => ?_).imp fun _ _ hall =>
    List.forall₂_eq_eq_eq ▸ hall
  rw [hc.kind_eq]
  split
  · exact .pure rfl
  · exact follows_expression hsub hc

/-- Items at the same places of two lists. -/
def Numbered {α β : Type} (R : α → β → Prop) (p : α × Nat) (p' : β × Nat) : Prop :=
  R p.1 p'.1 ∧ p'.2 = p.2

omit hsub in
theorem forall₂_zipIdx {α β : Type} {R : α → β → Prop} {as : List α} {bs : List β}
    (h : List.Forall₂ R as bs) : List.Forall₂ (Numbered R) as.zipIdx bs.zipIdx := by
  have hfrom (k : Nat) : List.Forall₂ (Numbered R) (as.zipIdx k) (bs.zipIdx k) := by
    induction h generalizing k with
    | nil => exact .nil
    | cons hab _ ih =>
      rw [List.zipIdx_cons, List.zipIdx_cons]
      exact .cons ⟨hab, rfl⟩ (ih (k + 1))
  exact hfrom 0

omit hsub in
theorem lambdasOf_forall₂ {ns ns' : List Node} (h : List.Forall₂ (Echo V.toInsertion) ns ns') :
    List.Forall₂ (Numbered (Echo V.toInsertion)) (lambdasOf ns) (lambdasOf ns') := by
  have hall := forall₂_zipIdx h
  unfold lambdasOf
  generalize ns.zipIdx = ps, ns'.zipIdx = ps' at hall
  induction hall with
  | nil => exact .nil
  | @cons p p' _ _ hp _ ih =>
    have hkind : p'.1.kind = p.1.kind := hp.1.kind_eq
    simp only [List.filter_cons, hkind]
    split
    · exact .cons hp ih
    · exact ih

section Lambdas

variable {ls ls' : List (Node × Nat)} (h : List.Forall₂ (Numbered (Echo V.toInsertion)) ls ls')

include h in
theorem follows_untypedLambdas :
    Follows V Eq (untypedLambdas sub ls) (untypedLambdas sub' ls') :=
  .forM h fun _ _ hl => .discard (hsub (.lambda hl.1))

theorem follows_typedLambda {m : MethodDeclaration} {bindings : Bindings} {l l' : Node × Nat}
    (hl : Numbered (Echo V.toInsertion) l l') :
    Follows V Eq (typedLambda sub m bindings l) (typedLambda sub' m bindings l') := by
  refine .read ?_
  rw [V.index_eq, hl.2]
  dsimp only
  refine .bind (hsub (.lambda hl.1)) fun body body' hbody => ?_
  rw [hbody, exprType_moved]
  split
  · exact .pure rfl
  · exact .pure rfl

include h in
theorem follows_chosenCall {name name' : Node} (hname : Echo V.toInsertion name name')
    {receiver : Option GenericType} {owner : String} {m : MethodDeclaration}
    {explicit : List GenericType} {args : List ExprType} :
    Follows V Eq (chosenCall sub name receiver owner m explicit args ls)
      (chosenCall sub' name' receiver owner m explicit args ls') := by
  refine .andThen (follows_emitMethod hname) (.read ?_)
  rw [V.index_eq]
  refine .bind (.foldlM h fun b l l' hl => follows_typedLambda hsub hl) fun b b' hb => ?_
  rw [hb]
  exact .pure rfl

end Lambdas

omit hsub in
/-- No argument of a call was put in. -/
theorem arguments_forall₂ {n n' : Node} (h : Echo V.toInsertion n n')
    (hkind : n.kind = .methodInvocation) : List.Forall₂ (Echo V.toInsertion)
      (((n.child? .arguments).map Node.namedChildren).getD [])
      (((n'.child? .arguments).map Node.namedChildren).getD []) := by
  have hover := h.overlooksHere
  simp only [Node.overlooksHere, Node.keepsArguments, h.kind_eq, hkind, Bool.and_eq_true] at hover
  have hkept := hover.1.1.2
  have hlist := h.child? .arguments
  generalize n.child? .arguments = x, n'.child? .arguments = x' at hlist hkept
  cases hlist with
  | none => exact .nil
  | @some list list' hc =>
    refine hc.named.forall₂ fun c hc' => ?_
    have hnone : list'.children.any V.adds = false := by simpa using hkept
    simpa using List.any_eq_false.1 hnone c (List.mem_filter.1 hc').1

theorem follows_methodInvocation {n n' : Node} (h : Echo V.toInsertion n n')
    (hkind : n.kind = .methodInvocation) :
    Follows V Eq (methodInvocation sub n) (methodInvocation sub' n') := by
  have hname := h.name? (.inl (by rw [hkind]; rfl))
  have hnodes := arguments_forall₂ h hkind
  have hlambdas := lambdasOf_forall₂ hnodes
  unfold methodInvocation
  generalize n.child? .name = x, n'.child? .name = x' at hname
  cases hname with
  | none => exact .pure rfl
  | some hname =>
    refine .read (follows_spelled hname.text_eq
      (.bind (follows_callTarget hsub (h.child? _)) fun target target' htarget => ?_))
    rw [V.index_eq]
    subst htarget
    refine .bind (follows_explicitArguments h) fun explicit explicit' hexplicit => ?_
    subst hexplicit
    refine .bind (follows_argumentTypes hsub hnodes) fun args args' hargs => ?_
    subst hargs
    dsimp only
    split
    · exact .andThen (follows_untypedLambdas hsub hlambdas) (.pure rfl)
    · split
      · split
        · exact follows_chosenCall hsub hlambdas hname.echo
        · exact .pure rfl
      · exact .andThen (follows_untypedLambdas hsub hlambdas)
          (.andThen follows_diagnose (.pure rfl))
      · exact .andThen (follows_untypedLambdas hsub hlambdas)
          (.andThen follows_unresolved (.pure rfl))

/-! ## Creation, lambdas and references to methods -/

theorem follows_anonymousBody {body body' : Node} (h : Echo V.toInsertion body body') :
    Follows V Eq (anonymousBody sub body) (anonymousBody sub' body') := by
  refine .read ?_
  rw [h.start_eq, V.unit.types]
  split
  · exact .pure rfl
  · exact .bind (follows_withClass (.discard (hsub (.classBody h .nil))) _) fun _ _ _ => .pure rfl

include hidle in
omit hsub in
theorem idle_expressions {ns : List Node} (h : ∀ c ∈ ns, V.adds c = true) :
    Idle V.ctx' (ns.map fun _ => .unknown) (expressions sub' ns) := by
  unfold expressions
  induction ns with
  | nil => exact .pure
  | cons c rest ih =>
    rw [List.mapM_cons]
    exact .bind (idle_expression hidle (h c (by simp)))
      (.bind (ih fun d hd => h d (by simp [hd])) .pure)

include hidle in
/-- In front of a type a comment has no type, as nothing has. -/
theorem follows_creationQualifier {n n' : Node} (h : Echo V.toInsertion n n')
    (hkind : n.kind = .objectCreation) :
    Follows V (fun q q' => q'.bind ExprType.className? = q.bind ExprType.className?)
      (creationQualifier sub n) (creationQualifier sub' n') := by
  have hjoined := h.joined_front
  change Follows V _ (do return (← expressions sub n.creationFront).getLast?)
    (do return (← expressions sub' n'.creationFront).getLast?)
  rcases h.kept_front hkind with hnone | hkept
  · rw [hnone] at hjoined ⊢
    have hidle' := idle_expressions hidle hjoined.adds_of_nil
    refine .idle (.bind .pure .pure) (.bind hidle' .pure) ?_
    rw [List.getLast?_map]
    cases n'.creationFront.getLast? <;> rfl
  · exact .bind (follows_lastOf hsub hidle hjoined hkept) fun types types' htypes =>
      .pure (by rw [htypes])

omit hsub in
theorem follows_createdType {type type' : Node} (h : Echo V.toInsertion type type')
    {q q' : Option ExprType} (hq : q'.bind ExprType.className? = q.bind ExprType.className?) :
    Follows V Eq (createdType type q) (createdType type' q') := by
  refine .read (follows_text ?_)
  rw [V.index_eq, h.kind_eq, hq]
  by_cases hkind : type.kind = .typeIdentifier
  · rw [h.spelled (by rw [hkind]; rfl)]
    dsimp only
    split
    · exact .andThen (follows_emit h) (.pure rfl)
    · exact follows_typeNode h
  · simp only [hkind, beq_iff_eq, if_false]
    exact follows_typeNode h

include hidle in
theorem follows_objectCreation {n n' : Node} (h : Echo V.toInsertion n n')
    (hkind : n.kind = .objectCreation) :
    Follows V Eq (objectCreation sub n) (objectCreation sub' n') := by
  have htype := h.child? .type
  have hbody := h.childOfKind? .classBody rfl
  have harguments := follows_arguments hsub hidle (h.child? .arguments)
  unfold objectCreation
  generalize n.child? .type = x, n'.child? .type = x' at htype
  generalize n.childOfKind? .classBody = y, n'.childOfKind? .classBody = y' at hbody
  refine .bind (follows_creationQualifier hsub hidle h hkind) fun q q' hq => ?_
  extract_lets andThen andThen'
  have hthen : ∀ created, Follows V Eq (andThen created) (andThen' created) := by
    intro created
    refine .andThen harguments ?_
    extract_lets result
    have hresult : ∀ anonymous, Follows V Eq (result anonymous) (result anonymous) := by
      intro anonymous
      cases anonymous with
      | none => exact .pure rfl
      | some binary => exact .pure rfl
    cases hbody with
    | none => exact hresult none
    | some hc => exact .bind (follows_anonymousBody hsub hc) fun a a' ha => ha ▸ hresult a
  cases htype with
  | none => exact hthen none
  | some hc => exact .bind (follows_createdType hc hq) fun t t' ht => ht ▸ hthen t

theorem follows_lambdaParameters {n n' : Node} (h : Echo V.toInsertion n n')
    {params : List GenericType} :
    Follows V Eq (lambdaParameters sub n params) (lambdaParameters sub' n' params) := by
  unfold lambdaParameters
  rw [h.kind_eq]
  extract_lets known
  split
  · rename_i hkind
    exact follows_declareLocal ⟨h, h.spelled (by rw [hkind]; rfl)⟩ _
  · refine .forM (forall₂_zipIdx (h.allOfKind _ rfl))
      fun ⟨p, i⟩ ⟨p', i'⟩ ⟨⟨hp, hkind⟩, hplace⟩ => ?_
    obtain rfl : i' = i := hplace
    exact follows_declareLocal ⟨hp, hp.spelled (by rw [hkind]; rfl)⟩ _
  · refine .forM (forall₂_zipIdx (h.allOfKind _ rfl))
      fun ⟨p, i⟩ ⟨p', i'⟩ ⟨⟨hp, hkind⟩, hplace⟩ => ?_
    obtain rfl : i' = i := hplace
    replace hp : Echo V.toInsertion p p' := hp
    have hname := hp.name? (.inl (by rw [show p.kind = .formalParameter from hkind]; rfl))
    have htype := hp.child? .type
    refine .andThen (follows_annotations hsub hp) ?_
    extract_lets declare declare'
    have hdeclare : ∀ type, Follows V Eq (declare type) (declare' type) := by
      intro type
      simp only [declare, declare']
      generalize p.child? .name = x, p'.child? .name = x' at hname
      cases hname with
      | none => exact .pure rfl
      | some hc => exact follows_declareLocal hc _
    generalize p.child? .type = x, p'.child? .type = x' at htype
    cases htype with
    | none => exact hdeclare _
    | some hc =>
      refine .bind (follows_isInferred hc) fun b b' hb => ?_
      subst hb
      split
      · exact hdeclare _
      · refine .bind (follows_typeNode hc) fun t t' ht => ?_
        subst ht
        exact hdeclare _

theorem follows_lambda {n n' : Node} (h : Echo V.toInsertion n n') {params : List GenericType} :
    Follows V Eq (lambda sub n params) (lambda sub' n' params) := by
  have hbody := h.child? .body
  have hlist := h.child? .parameters
  refine follows_withBlock ?_
  extract_lets body body'
  have hthen : Follows V Eq (body ()) (body' ()) := by
    simp only [body, body']
    generalize n.child? .body = x, n'.child? .body = x' at hbody
    cases hbody with
    | none => exact .pure rfl
    | some hc =>
      dsimp only
      rw [hc.kind_eq]
      split
      · exact .andThen (.discard (hsub (.statement hc))) (.pure rfl)
      · exact follows_expression hsub hc
  generalize n.child? .parameters = x, n'.child? .parameters = x' at hlist
  cases hlist with
  | none => exact hthen
  | some hc => exact .andThen (follows_lambdaParameters hsub hc) hthen

theorem follows_referenceOwner {n n' : Node} (h : Echo V.toInsertion n n') :
    Follows V Eq (referenceOwner sub n) (referenceOwner sub' n') := by
  unfold referenceOwner
  rw [h.kind_eq]
  split
  · refine .read ?_
    rw [V.index_eq]
    exact .bind follows_currentClass? fun c c' hc => .pure (by rw [hc])
  · split
    · refine .bind (follows_typeNode h) fun t t' ht => ?_
      subst ht
      split
      · exact .pure rfl
      · exact .pure rfl
    · refine .bind (hsub (.name h)) fun m m' hm => ?_
      subst hm
      cases m with
      | value t => exact .pure rfl
      | type binary => exact .pure rfl
      | package package start => exact .pure rfl
      | unknown => exact .pure rfl

theorem follows_methodReference {n n' : Node} (h : Echo V.toInsertion n n')
    (hkind : n.kind = .methodReference) :
    Follows V Eq (methodReference sub n) (methodReference sub' n') := by
  have hkept := h.kept_head (by rw [hkind]; exact fun _ _ => rfl)
  unfold methodReference
  rcases h.named.head_cases hkept with ⟨hnone, hnone'⟩ |
    ⟨target, target', rest, rest', hsome, hsome', htarget, hrest⟩
  · rw [hnone, hnone']
    exact .pure rfl
  · rw [hsome, hsome']
    have hname := Echo.lastIdentifier? (r := V.toRereading) hrest
    refine .bind (follows_referenceOwner hsub htarget) fun owner owner' howner => ?_
    subst howner
    generalize rest.reverse.find? _ = x, rest'.reverse.find? _ = x' at hname
    cases hname with
    | none => exact .pure rfl
    | some hname =>
      cases owner with
      | none => exact .pure rfl
      | some owner =>
        refine follows_spelled hname.text_eq (.read ?_)
        rw [V.index_eq]
        split
        · exact follows_emitMethod hname.echo
        · exact follows_unresolved
        · exact follows_diagnose

/-! ## Switches and patterns -/

include hidle in
theorem follows_switchLabelPart {n n' : Node} (h : Echo V.toInsertion n n') {enum : Option String} :
    Follows V Eq (switchLabelPart sub enum n) (switchLabelPart sub' enum n') := by
  unfold switchLabelPart
  rw [h.kind_eq]
  split
  · rename_i hkind
    refine .read (follows_spelled (h.spelled (by rw [hkind]; rfl)) ?_)
    rw [V.index_eq]
    split
    · exact follows_emit h
    · exact .discard (follows_expression hsub h)
  · exact .discard (hsub (.pattern h))
  · exact .discard (hsub (.pattern h))
  · exact .discard (hsub (.pattern h))
  · exact .discard (follows_expressions hsub hidle h.named)
  · exact .discard (follows_expression hsub h)

include hidle in
omit hsub in
theorem idle_switchLabelPart {c : Node} (hc : V.adds c = true) {enum : Option String} :
    Idle V.ctx' () (switchLabelPart sub' enum c) := by
  have hvalue := (idle_expression hidle hc).discard
  obtain ⟨kind, text, rfl, hkind⟩ := Insertion.adds_iff.1 hc
  rcases NodeKind.isComment_cases hkind with rfl | rfl <;> exact hvalue

theorem follows_statementOrExpression {n n' : Node} (h : Echo V.toInsertion n n') :
    Follows V Eq (statementOrExpression sub n) (statementOrExpression sub' n') := by
  unfold statementOrExpression
  rw [h.kind_eq]
  split
  · exact .discard (hsub (.statement h))
  · exact .discard (follows_expression hsub h)

include hidle in
omit hsub in
theorem idle_statementOrExpression {c : Node} (hc : V.adds c = true) :
    Idle V.ctx' () (statementOrExpression sub' c) := by
  unfold statementOrExpression
  rw [NodeKind.isStatement_eq_false (Insertion.isComment_of_adds hc)]
  exact (idle_expression hidle hc).discard

include hidle in
theorem follows_switch {n n' : Node} (h : Echo V.toInsertion n n') :
    Follows V Eq (switch sub n) (switch sub' n') := by
  have hbody := h.child? .body
  refine .bind (follows_expression? hsub (h.child? _)) fun selector selector' hselector => ?_
  subst hselector
  refine .read ?_
  rw [V.index_eq]
  dsimp only
  generalize n.child? .body = x, n'.child? .body = x' at hbody
  cases hbody with
  | none => exact .pure rfl
  | some hc =>
    refine .forM_joined hc.named (fun group group' hgroup => follows_withBlock ?_) fun c hc => ?_
    · refine .forM_joined hgroup.named (fun c c' hc => ?_) fun c hc => ?_
      · rw [hc.kind_eq]
        split
        · exact .forM_joined hc.named (fun _ _ hpart => follows_switchLabelPart hsub hidle hpart)
            fun _ hpart => idle_switchLabelPart hidle hpart
        · exact follows_statementOrExpression hsub hc
      · rw [Insertion.kind_beq_of_adds hc rfl]
        exact idle_statementOrExpression hidle hc
    · rw [Insertion.namedChildren_of_adds hc]
      exact .withBlock .pure

omit hsub in
theorem follows_typePattern {n n' : Node} (h : Echo V.toInsertion n n') :
    Follows V Eq (typePattern n) (typePattern n') := by
  have hname := Echo.lastIdentifier? (r := V.toRereading) h.named
  have htype := h.namedWith? fun _ => NodeKind.isType_eq_false
  refine .bind (follows_typeNode? htype) fun type type' heq => ?_
  subst heq
  generalize n.namedChildren.reverse.find? _ = x, n'.namedChildren.reverse.find? _ = x' at hname
  cases hname with
  | none => exact .pure rfl
  | some hc => exact follows_declareLocal hc _

include hidle in
theorem follows_patterns {ns ns' : List Node}
    (h : Joined V.toInsertion (Echo V.toInsertion) ns ns') :
    Follows V Eq (patterns sub ns) (patterns sub' ns') :=
  .forM_joined h (fun _ _ hc => .discard (hsub (.pattern hc))) fun _ hc =>
    .discard (hidle (.pattern hc))

theorem follows_recordPatternPart {n n' : Node} (h : Echo V.toInsertion n n') :
    Follows V Eq (recordPatternPart sub n) (recordPatternPart sub' n') := by
  unfold recordPatternPart
  rw [h.kind_eq]
  split
  · refine .bind (follows_nameAsType h) fun t t' ht => ?_
    subst ht
    cases t with
    | none => exact follows_text follows_unresolved
    | some t => exact .pure rfl
  · split
    · exact .discard (follows_typeNode h)
    · exact .discard (hsub (.pattern h))

include hidle in
omit hsub in
theorem idle_recordPatternPart {c : Node} (hc : V.adds c = true) :
    Idle V.ctx' () (recordPatternPart sub' c) := by
  unfold recordPatternPart
  rw [Insertion.kind_beq_of_adds hc rfl, NodeKind.isType_eq_false (Insertion.isComment_of_adds hc)]
  exact .discard (hidle (.pattern hc))

include hidle in
theorem follows_pattern {n n' : Node} (h : Echo V.toInsertion n n') :
    Follows V Eq (pattern sub n) (pattern sub' n') := by
  have hrecord :
      (n'.childOfKind? .recordPattern).isSome = (n.childOfKind? .recordPattern).isSome := by
    have hchild := h.childOfKind? .recordPattern rfl
    generalize n.childOfKind? .recordPattern = x, n'.childOfKind? .recordPattern = x' at hchild
    cases hchild <;> rfl
  unfold pattern
  rw [h.kind_eq, hrecord]
  split
  · exact follows_patterns hsub hidle h.named
  · exact follows_patterns hsub hidle h.named
  · split
    · exact follows_patterns hsub hidle h.named
    · exact follows_typePattern h
  · exact follows_typePattern h
  · exact .forM_joined h.named (fun _ _ hc => follows_recordPatternPart hsub hc) fun _ hc =>
      idle_recordPatternPart hidle hc
  · split
    · exact .discard (follows_typeNode h)
    · exact .pure rfl

omit hsub in
/-- A comment is no pattern. -/
theorem idle_pattern {c : Node} (hc : V.adds c = true) : Idle V.ctx' () (pattern sub' c) := by
  obtain ⟨kind, text, rfl, hkind⟩ := Insertion.adds_iff.1 hc
  rcases NodeKind.isComment_cases hkind with rfl | rfl <;> exact .pure

/-! ## Expressions -/

theorem follows_castExpression {n n' : Node} (h : Echo V.toInsertion n n') :
    Follows V Eq (castExpression sub n) (castExpression sub' n') := by
  refine .bind (.mapM (h.childrenIn _) fun _ _ => follows_typeNode) fun types types' htypes => ?_
  rw [List.forall₂_eq_eq_eq] at htypes
  subst htypes
  exact .andThen (.discard (follows_expression? hsub (h.child? _))) (.pure rfl)

theorem follows_instanceofExpression {n n' : Node} (h : Echo V.toInsertion n n')
    (hkind : n.kind = .instanceofExpression) :
    Follows V Eq (instanceofExpression sub n) (instanceofExpression sub' n') := by
  have hname := h.name? (.inl (by rw [hkind]; rfl))
  have hpattern := h.child? .pattern
  refine .andThen (.discard (follows_expression? hsub (h.child? _))) ?_
  refine .bind (follows_typeNode? (h.child? _)) fun type type' htype => ?_
  subst htype
  extract_lets result inner inner'
  have hinner : Follows V Eq (inner ()) (inner' ()) := by
    simp only [inner, inner']
    generalize n.child? .pattern = x, n'.child? .pattern = x' at hpattern
    cases hpattern with
    | none => exact .pure rfl
    | some hc => exact .andThen (.discard (hsub (.pattern hc))) (.pure rfl)
  generalize n.child? .name = x, n'.child? .name = x' at hname
  cases hname with
  | none => exact hinner
  | some hc => exact .andThen (follows_declareLocal hc _) hinner

theorem follows_arrayAccess {n n' : Node} (h : Echo V.toInsertion n n') :
    Follows V Eq (arrayAccess sub n) (arrayAccess sub' n') := by
  refine .bind (follows_expression? hsub (h.child? _)) fun array array' harray => ?_
  subst harray
  refine .andThen (.discard (follows_expression? hsub (h.child? _))) ?_
  split
  · exact .pure rfl
  · exact .pure rfl

include hidle in
theorem follows_arrayCreation {n n' : Node} (h : Echo V.toInsertion n n') :
    Follows V Eq (arrayCreation sub n) (arrayCreation sub' n') := by
  have hvalue := h.child? .value
  refine .bind (follows_typeNode? (h.child? _)) fun element element' helement => ?_
  subst helement
  refine .bind (.mapM (R := Eq) (h.readChildrenIn _) fun d d' ⟨hd, hrole, hread⟩ => ?_)
    fun counts counts' hcounts => ?_
  · rw [hd.kind_eq]
    split
    · exact .andThen (.discard (follows_expressions hsub hidle hd.named)) (.pure rfl)
    · rename_i hsized
      refine .read (.pure ?_)
      have hsized' : d'.kind ≠ .dimensionsExpression := by
        rw [hd.kind_eq]
        simpa using hsized
      have htext := hread (by simp [Node.reads, hrole, hsized'])
      rw [source_eq, source'_eq, SourceText.dimensionCount, SourceText.dimensionCount, htext]
  · rw [List.forall₂_eq_eq_eq] at hcounts
    subst hcounts
    dsimp only
    generalize n.child? .value = x, n'.child? .value = x' at hvalue
    cases hvalue with
    | none => exact .pure rfl
    | some hc => exact .andThen (.discard (hsub (.initializer hc))) (.pure rfl)

include hidle in
theorem follows_lastExpression {n n' : Node} (h : Echo V.toInsertion n n')
    (hkind : ∀ before after, n.kind.overlooks before after = after.any Node.isNamed) :
    Follows V Eq (lastExpression sub n.namedChildren) (lastExpression sub' n'.namedChildren) :=
  .bind (follows_lastOf hsub hidle h.named (h.kept_last hkind)) fun _ _ htypes =>
    .pure (by rw [htypes])

omit hsub in
theorem operator_eq {n n' : Node} (h : Echo V.toInsertion n n') :
    ((n'.child? .operator).map Node.leafText).getD "" =
      ((n.child? .operator).map Node.leafText).getD "" := by
  have hchild := h.child? .operator
  generalize n.child? .operator = x, n'.child? .operator = x' at hchild
  cases hchild with
  | none => rfl
  | some hc => exact hc.leafText_eq

theorem follows_binaryExpression {n n' : Node} (h : Echo V.toInsertion n n') :
    Follows V Eq (binaryExpression sub n) (binaryExpression sub' n') :=
  .bind (follows_expression? hsub (h.child? _)) fun a a' ha =>
    .bind (follows_expression? hsub (h.child? _)) fun b b' hb =>
      .pure (by rw [operator_eq h, ha, hb])

theorem follows_unaryExpression {n n' : Node} (h : Echo V.toInsertion n n') :
    Follows V Eq (unaryExpression sub n) (unaryExpression sub' n') :=
  .bind (follows_expression? hsub (h.child? _)) fun a a' ha =>
    .pure (by rw [operator_eq h, ha])

theorem follows_conditionalExpression {n n' : Node} (h : Echo V.toInsertion n n') :
    Follows V Eq (conditionalExpression sub n) (conditionalExpression sub' n') :=
  .andThen (.discard (follows_expression? hsub (h.child? _))) <|
    .bind (follows_expression? hsub (h.child? _)) fun a a' ha =>
      .bind (follows_expression? hsub (h.child? _)) fun b b' hb => .pure (by rw [ha, hb])

theorem follows_assignment {n n' : Node} (h : Echo V.toInsertion n n') :
    Follows V Eq (assignment sub n) (assignment sub' n') :=
  .bind (follows_expression? hsub (h.child? _)) fun _ _ ha =>
    .andThen (.discard (follows_expression? hsub (h.child? _))) (.pure ha)

omit hsub in
theorem follows_variableName {n n' : Node} (h : Echo V.toInsertion n n')
    (hkind : n.kind = .identifier) :
    Follows V Eq (variableName n) (variableName n') := by
  have htext : V.source'.text n' = V.source.text n := h.spelled (by rw [hkind]; rfl)
  refine follows_spelled htext (.bind follows_variableNamed? fun v v' hv => ?_)
  subst hv
  cases v with
  | some v => exact follows_useVariable ⟨h, htext⟩ v
  | none => exact .andThen follows_unresolved (.pure rfl)

omit hsub in
theorem follows_literal {n n' : Node} (h : Echo V.toInsertion n n')
    (hkind : n.kind.isSpelled = true) (isInteger : Bool) :
    Follows V Eq (do return ExprType.ofLiteral isInteger (← text n))
      (do return ExprType.ofLiteral isInteger (← text n')) :=
  follows_spelled (h.spelled hkind) (.pure rfl)

include hidle in
theorem follows_expressionType {n n' : Node} (h : Echo V.toInsertion n n') :
    Follows V Eq (expressionType sub n) (expressionType sub' n') := by
  refine .read ?_
  rw [V.index_eq, h.kind_eq]
  extract_lets index
  split <;> rename_i hkind
  · exact follows_variableName h hkind
  · exact .bind follows_currentClass? fun c c' hc => .pure (by rw [hc])
  · exact .bind follows_currentClass? fun c c' hc => .pure (by rw [hc])
  · exact .bind (hsub (.name h)) fun m m' hm => .pure (by rw [hm, exprType_moved])
  · exact follows_methodInvocation hsub h hkind
  · exact follows_objectCreation hsub hidle h hkind
  · exact follows_literal h (by rw [hkind]; rfl) true
  · exact follows_literal h (by rw [hkind]; rfl) true
  · exact follows_literal h (by rw [hkind]; rfl) true
  · exact follows_literal h (by rw [hkind]; rfl) true
  · exact follows_literal h (by rw [hkind]; rfl) false
  · exact follows_literal h (by rw [hkind]; rfl) false
  · exact .pure rfl
  · exact .pure rfl
  · exact .pure rfl
  · exact .pure rfl
  · exact .pure rfl
  · exact follows_lastExpression hsub hidle h (by rw [hkind]; exact fun _ _ => rfl)
  · exact follows_lastExpression hsub hidle h (by rw [hkind]; exact fun _ _ => rfl)
  · exact follows_binaryExpression hsub h
  · exact follows_unaryExpression hsub h
  · exact follows_assignment hsub h
  · exact follows_castExpression hsub h
  · exact follows_instanceofExpression hsub h hkind
  · exact follows_conditionalExpression hsub h
  · exact follows_arrayAccess hsub h
  · exact follows_arrayCreation hsub hidle h
  · exact .bind (hsub (.initializer h)) fun m m' hm => .pure (by rw [hm, exprType_moved])
  · exact .andThen (.discard (follows_typeNode? (h.namedWith? fun _ => NodeKind.isType_eq_false)))
      (.pure rfl)
  · exact .andThen (.discard (hsub (.lambda h))) (.pure rfl)
  · exact .andThen (follows_methodReference hsub h hkind) (.pure rfl)
  · exact .andThen (follows_switch hsub hidle h) (.pure rfl)
  · split
    · exact .andThen (.discard (follows_typeNode h)) (.pure rfl)
    · exact .andThen (.forM_joined h.named (fun _ _ hc => .discard (hsub (.statement hc)))
        fun _ hc => .discard (hidle (.statement hc))) (.pure rfl)

omit hsub in
/-- A comment is no expression. -/
theorem idle_expressionType {c : Node} (hc : V.adds c = true) :
    Idle V.ctx' .unknown (expressionType sub' c) := by
  obtain ⟨kind, text, rfl, hkind⟩ := Insertion.adds_iff.1 hc
  rcases NodeKind.isComment_cases hkind with rfl | rfl <;> exact .pure

include hidle in
theorem follows_initializer {n n' : Node} (h : Echo V.toInsertion n n')
    {expected : Option GenericType} :
    Follows V Eq (initializer sub n expected) (initializer sub' n' expected) := by
  unfold initializer
  rw [h.kind_eq]
  split
  · refine .read ?_
    rw [V.index_eq]
    exact .andThen (.discard (hsub (.lambda h))) (.pure rfl)
  · extract_lets inner
    exact .andThen (.forM_joined h.named (fun _ _ hc => .discard (hsub (.initializer hc)))
      fun _ hc => .discard (hidle (.initializer hc))) (.pure rfl)
  · exact follows_expression hsub h

include hidle in
omit hsub in
theorem idle_initializer {c : Node} (hc : V.adds c = true) {expected : Option GenericType} :
    Idle V.ctx' .unknown (initializer sub' c expected) := by
  have hvalue := idle_expression hidle hc
  obtain ⟨kind, text, rfl, hkind⟩ := Insertion.adds_iff.1 hc
  rcases NodeKind.isComment_cases hkind with rfl | rfl <;> exact hvalue

end Inside

end Binding

end Renaming.Java
