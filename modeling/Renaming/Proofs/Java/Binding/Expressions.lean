import Renaming.Java.Binding.Expressions
import Renaming.Proofs.Java.Binding.Steps

/-!
# Walks over expressions

Each function of the walk keeps what the steps keep, provided that the walks inside it do. Only the
meaning of a package carries a place along, one before the end of the name that means the package.
-/

namespace Renaming.Java

/-- What a step is taken on. -/
def Task.In (S : Survey) : Task → Prop
  | .expression n | .name n | .statement n | .initializer n _ | .lambda n _ | .annotated n
  | .elementValue n | .pattern n => S.T n
  | .typeDeclaration n _ => S.T n ∧ n.kind.isTypeDeclaration = true
  | .classBody n binary components => S.Body binary components n

/-- A package is spelled up to the end of a node. -/
def Meaning.EndsWith (S : Survey) (n : Node) : Meaning → Prop
  | .package _ start => Spelled S.orderly S.T ⟨start, n.stop⟩
  | _ => True

/-- Only names mean packages. -/
def Task.Answers (S : Survey) : Task → Meaning → Prop
  | .name n => Meaning.EndsWith S n
  | _ => fun _ => True

namespace Binding

variable {S : Survey} [S.Covers]

/-! ## Names and accesses -/

theorem walks_simpleName {n : Node} (hn : S.T n) (hkind : S.orderly → n.kind.isName = true) :
    Walks S (Meaning.EndsWith S n) (simpleName n) := by
  refine .bind walks_text fun name hname => ?_
  subst hname
  refine walks_variableNamed? hn hkind (fun _ => rfl) (fun _ => .pure trivial) ?_
  refine .bind .read fun ctx hctx => .bind .get fun s hs => ?_
  subst hctx
  split
  · rename_i binary hbinary
    exact .bind (walks_emitType hn (hs.leads.simple hbinary)) fun _ _ => .pure trivial
  · split
    · exact .pure (Survey.spelled hn)
    · exact .bind walks_unresolved fun _ _ => .pure trivial

theorem walks_fieldOfValue {type : ExprType} {field n : Node} (hfield : S.T field)
    (hkind : S.orderly → field.kind.isName = true) :
    Walks S (Meaning.EndsWith S n) (fieldOfValue type field (S.text field)) := by
  refine .bind .read fun ctx hctx => ?_
  subst hctx
  dsimp only
  split
  · split
    · exact .pure trivial
    · split
      · exact .pure trivial
      · split
        · rename_i hfound
          exact .bind (walks_emitField hfield hkind rfl (Survey.field_of_findField? hfound))
            fun _ _ => .pure trivial
        · exact .bind walks_unresolved fun _ _ => .pure trivial
  · exact .pure trivial

theorem walks_memberOfType {owner : String} {field n : Node} (hfield : S.T field)
    (hkind : S.orderly → field.kind.isName = true) :
    Walks S (Meaning.EndsWith S n) (memberOfType owner field (S.text field)) := by
  refine .bind .read fun ctx hctx => ?_
  subst hctx
  dsimp only
  split
  · rename_i hfound
    exact .bind (walks_emitField hfield hkind rfl (Survey.field_of_findField? hfound))
      fun _ _ => .pure trivial
  · split
    · rename_i hmember
      exact .bind (walks_emitType hfield (Survey.Covers.memberType hmember))
        fun _ _ => .pure trivial
    · exact .bind walks_unresolved fun _ _ => .pure trivial

theorem walks_memberOfPackage {package : String} {start : Nat} {field n : Node} {name : String}
    (hstart : Spelled S.orderly S.T ⟨start, field.stop⟩) (hn : S.T n)
    (hstop : S.orderly → field.stop ≤ n.stop) :
    Walks S (Meaning.EndsWith S n) (memberOfPackage package start field name) := by
  refine .bind .read fun ctx hctx => ?_
  subst hctx
  dsimp only
  split
  · rename_i htop
    exact .bind (walks_emitWith (.type hstart (Survey.Covers.topLevel htop)))
      fun _ _ => .pure trivial
  · split
    · exact .pure (hstart.extend hn hstop)
    · exact .bind walks_diagnose fun _ _ => .pure trivial

section Inside

variable {sub : Task → Binding Meaning}
  (hsub : ∀ task, task.In S → Walks S (task.Answers S) (sub task))
include hsub

omit [S.Covers] in
theorem walks_expression {n : Node} (hn : S.T n) : Walks S Any (expression sub n) :=
  .bind (hsub _ hn) fun _ _ => .done

omit [S.Covers] in
theorem walks_expression? {n : Option Node} (h : ∀ c ∈ n, S.T c) :
    Walks S Any (expression? sub n) := by
  cases n with
  | none => exact .done
  | some n => exact walks_expression hsub (h n rfl)

omit [S.Covers] in
theorem walks_expressions {nodes : List Node} (h : ∀ n ∈ nodes, S.T n) :
    Walks S Any (expressions sub nodes) :=
  .mapM fun n hn => walks_expression hsub (h n hn)

theorem walks_arguments {n : Option Node} (h : ∀ c ∈ n, S.T c) : Walks S Any (arguments sub n) :=
  walks_expressions hsub (Descends.grandchildren h)

theorem walks_annotations {n : Node} (hn : S.T n) : Walks S Any (annotations sub n) := by
  refine .forM fun c hc => ?_
  have hc' : S.T c := Descends.named hn c hc
  split
  · refine .forM fun a ha => .discard (hsub _ ?_)
    exact Descends.named hc' a (List.mem_filter.1 ha).1
  · split
    · exact .discard (hsub _ hc')
    · exact .done

omit [S.Covers] in
theorem walks_outerThis {object n : Node} (hobject : S.T object) :
    Walks S (Meaning.EndsWith S n) (outerThis sub object) := by
  refine .bind (hsub _ hobject) fun m _ => ?_
  split
  · exact .bind .read fun _ _ => .pure trivial
  · exact .pure trivial

theorem walks_fieldAccess {n : Node} (hn : S.T n) (hkind : n.kind = .fieldAccess) :
    Walks S (Meaning.EndsWith S n) (fieldAccess sub n) := by
  unfold fieldAccess
  split
  · rename_i object field hobject hfield
    have hobject' : S.T object := Descends.child hn _ object hobject
    have hfield' : S.T field := Descends.child hn _ field hfield
    have hbefore (ho : S.orderly) :=
      (Survey.Covers.sound ho hn).stop_le_of_access hkind hobject hfield
    split
    · exact walks_outerThis hsub hobject'
    · rename_i hthis
      have hname (ho : S.orderly) : field.kind.isName = true := by
        have hrole := ((Survey.Covers.sound ho hn).child_spec hfield).2
        rcases (Survey.Covers.sound ho hfield').fits_role hrole with hkind | hkind
        · simp [hkind] at hthis
        · rw [hkind]
          rfl
      refine .bind walks_text fun name htext => .bind (hsub _ hobject') fun m hm => ?_
      subst htext
      split
      · exact walks_fieldOfValue hfield' hname
      · exact walks_memberOfType hfield' hname
      · exact walks_memberOfPackage (Spelled.extend hm hfield' fun ho => (hbefore ho).1) hn
          fun ho => (hbefore ho).2
      · exact .pure trivial
  · exact .pure trivial

theorem walks_nameOf {n : Node} (hn : S.T n) :
    Walks S (Meaning.EndsWith S n) (nameOf sub n) := by
  unfold nameOf
  split
  · rename_i hkind
    exact walks_simpleName hn fun _ => by rw [hkind]; rfl
  · rename_i hkind
    exact walks_fieldAccess hsub hn hkind
  · exact .bind (walks_expression hsub hn) fun _ _ => .pure trivial

/-! ## Calls -/

omit hsub [S.Covers] in
theorem walks_unqualifiedTarget {method : String} : Walks S Any (unqualifiedTarget method) := by
  refine .bind .read fun _ _ => .bind .get fun _ _ => ?_
  dsimp only
  split
  · exact .done
  · exact .done

omit [S.Covers] in
theorem walks_callTarget {method : String} {object : Option Node} (h : ∀ c ∈ object, S.T c) :
    Walks S Any (callTarget sub method object) := by
  unfold callTarget
  split
  · exact .bind walks_unqualifiedTarget fun _ _ => .done
  · rename_i object
    split
    · exact .bind .read fun _ _ => .bind walks_currentClass? fun _ _ => .done
    · refine .bind (hsub _ (h object rfl)) fun m _ => ?_
      split
      · exact .done
      · exact .done
      · exact .bind walks_unresolved fun _ _ => .done
      · exact .done

omit hsub in
theorem walks_explicitArguments {n : Node} (hn : S.T n) : Walks S Any (explicitArguments n) := by
  unfold explicitArguments
  split
  · exact .done
  · rename_i arguments harguments
    refine .bind (walks_naming fun ctx hctx => ?_) fun _ _ => .done
    exact TypeContext.mentions_typeArguments (fun ho => Survey.Covers.sound ho) hctx
      (Descends.child hn _ arguments harguments)

omit [S.Covers] in
theorem walks_argumentTypes {nodes : List Node} (h : ∀ n ∈ nodes, S.T n) :
    Walks S Any (argumentTypes sub nodes) := by
  refine .mapM fun n hn => ?_
  split
  · exact .done
  · exact walks_expression hsub (h n hn)

omit hsub [S.Covers] in
theorem mem_lambdasOf {nodes : List Node} (h : ∀ n ∈ nodes, S.T n) :
    ∀ l ∈ lambdasOf nodes, S.T l.1 :=
  fun l hl => h l.1 (List.fst_mem_of_mem_zipIdx (List.mem_filter.1 hl).1)

omit [S.Covers] in
theorem walks_untypedLambdas {lambdas : List (Node × Nat)} (h : ∀ l ∈ lambdas, S.T l.1) :
    Walks S Any (untypedLambdas sub lambdas) :=
  .forM fun l hl => .discard (hsub _ (h l hl))

omit [S.Covers] in
theorem walks_typedLambda {m : MethodDeclaration} {bindings : Bindings} {l : Node × Nat}
    (hl : S.T l.1) : Walks S Any (typedLambda sub m bindings l) := by
  refine .bind .read fun _ _ => ?_
  dsimp only
  refine .bind (hsub _ hl) fun _ _ => ?_
  split
  · exact .done
  · exact .done

theorem walks_chosenCall {name : Node} {receiver : Option GenericType} {owner : String}
    {m : MethodDeclaration} {explicit : List GenericType} {args : List ExprType}
    {lambdas : List (Node × Nat)} {type : String} (hname : S.T name)
    (hkind : S.orderly → name.kind.isName = true)
    (hfound : (owner, m) ∈ S.ctx.index.findMethods type (S.text name))
    (hlambdas : ∀ l ∈ lambdas, S.T l.1) :
    Walks S Any (chosenCall sub name receiver owner m explicit args lambdas) := by
  refine .bind (walks_emitFound hname hkind hfound) fun _ _ => .bind .read fun _ _ => ?_
  refine .bind (.foldlM fun b l hl => ?_) fun _ _ => .done
  exact walks_typedLambda hsub (hlambdas l hl)

theorem walks_methodInvocation {n : Node} (hn : S.T n) (hkind : n.kind.namesParts = true) :
    Walks S Any (methodInvocation sub n) := by
  unfold methodInvocation
  split
  · exact .done
  · rename_i name hname
    have hname' : S.T name := Descends.child hn _ name hname
    have hnodes := Descends.grandchildren (Descends.child hn .arguments)
    have hlambdas := mem_lambdasOf hnodes
    refine .bind .read fun ctx hctx => .bind walks_text fun method hmethod => ?_
    subst hctx hmethod
    refine .bind (walks_callTarget hsub (Descends.child hn _)) fun target _ => ?_
    refine .bind (walks_explicitArguments hn) fun explicit _ => ?_
    refine .bind (walks_argumentTypes hsub hnodes) fun args _ => ?_
    dsimp only
    split
    · exact .bind (walks_untypedLambdas hsub hlambdas) fun _ _ => .done
    · split
      · split
        · rename_i hchosen
          obtain ⟨type, -, hfound⟩ := List.mem_flatMap.1 (List.mem_of_getElem? hchosen)
          have hword (ho : S.orderly) := (Survey.Covers.sound ho hn).isName_child hkind hname
          exact walks_chosenCall hsub hname' hword hfound hlambdas
        · exact .done
      · exact .bind (walks_untypedLambdas hsub hlambdas) fun _ _ =>
          .bind walks_diagnose fun _ _ => .done
      · exact .bind (walks_untypedLambdas hsub hlambdas) fun _ _ =>
          .bind walks_unresolved fun _ _ => .done

/-! ## Creation, lambdas and references to methods -/

omit [S.Covers] in
theorem walks_anonymousBody {body : Node} (hbody : S.T body)
    (hkind : S.orderly → body.kind = .classBody) :
    Walks S Any (anonymousBody sub body) := by
  refine .bind .read fun ctx hctx => ?_
  subst hctx
  split
  · exact .done
  · rename_i binary hbegins
    have hbody' : S.Body binary none body := .anonymous hbody hkind hbegins
    exact .bind (walks_withClass (.discard (hsub _ hbody'))) fun _ _ => .done

theorem walks_creationQualifier {n : Node} (hn : S.T n) :
    Walks S Any (creationQualifier sub n) := by
  refine .bind (walks_expressions hsub fun c hc => ?_) fun _ _ => .done
  have hfront := (List.takeWhile_sublist _).mem (List.mem_filter.1 hc).1
  exact Descends.named hn c hfront

omit hsub in
theorem walks_createdType {type : Node} {qualifier : Option ExprType} (htype : S.T type) :
    Walks S Any (createdType type qualifier) := by
  refine .bind .read fun ctx hctx => .bind walks_text fun _ _ => ?_
  subst hctx
  dsimp only
  split
  · rename_i binary hinner
    split at hinner
    · obtain ⟨owner, -, hmember⟩ := Option.bind_eq_some_iff.1 hinner
      exact .bind (walks_emitType htype (Survey.Covers.memberType hmember)) fun _ _ => .done
    · cases hinner
  · exact walks_typeNode htype

theorem walks_objectCreation {n : Node} (hn : S.T n) : Walks S Any (objectCreation sub n) := by
  refine .bind (walks_creationQualifier hsub hn) fun qualifier _ => ?_
  extract_lets andThen
  have hthen : ∀ created, Walks S Any (andThen created) := by
    intro created
    refine .bind (.discard (walks_arguments hsub (Descends.child hn _))) fun _ _ => ?_
    extract_lets result
    have hresult : ∀ anonymous, Walks S Any (result anonymous) := by
      intro anonymous
      cases anonymous with
      | none => exact .done
      | some binary => exact .done
    split
    · exact .bind .done fun anonymous _ => hresult anonymous
    · rename_i body hbody
      have hkind : body.kind = .classBody := by simpa using List.find?_some hbody
      exact .bind (walks_anonymousBody hsub (Descends.ofKind hn _ body hbody) fun _ => hkind)
        fun anonymous _ => hresult anonymous
  split
  · exact .bind .done fun created _ => hthen created
  · rename_i type htype
    exact .bind (walks_createdType (Descends.child hn _ type htype)) fun created _ => hthen created

theorem walks_lambdaParameters {n list : Node} {params : List GenericType} (hn : S.T n)
    (hlist : n.child? .parameters = some list) :
    Walks S Any (lambdaParameters sub list params) := by
  have hlist' : S.T list := Descends.child hn _ list hlist
  have hchildren (kind : NodeKind) : ∀ p ∈ (list.namedChildren.filter (·.kind == kind)).zipIdx,
      p.1 ∈ list.namedChildren ∧ p.1.kind = kind := by
    intro p hp
    obtain ⟨hmem, hkind⟩ := List.mem_filter.1 (List.fst_mem_of_mem_zipIdx hp)
    exact ⟨hmem, by simpa using hkind⟩
  unfold lambdaParameters
  extract_lets known
  split
  · rename_i hkind
    exact walks_declareLocal hlist' fun _ => by rw [hkind]; rfl
  · refine .forM fun p hp => ?_
    obtain ⟨hmem, hkind⟩ := hchildren _ p hp
    exact walks_declareLocal (Descends.named hlist' p.1 hmem) fun _ => by rw [hkind]; rfl
  · refine .forM fun p hp => ?_
    obtain ⟨hmem, hkind⟩ := hchildren _ p hp
    have hp' : S.T p.1 := Descends.named hlist' p.1 hmem
    refine .bind (walks_annotations hsub hp') fun _ _ => ?_
    extract_lets declare
    have hdeclare : ∀ type, Walks S Any (declare type) := by
      intro type
      simp only [declare]
      split
      · rename_i name hname
        have hword (ho : S.orderly) :=
          (Survey.Covers.sound ho hp').isName_child (by rw [hkind]; rfl) hname
        exact walks_declareLocal (Descends.child hp' _ name hname) hword
      · exact .done
    split
    · exact .bind .done fun type _ => hdeclare type
    · rename_i t ht
      refine .bind walks_isInferred fun inferred _ => ?_
      split
      · exact .bind .done fun type _ => hdeclare type
      · exact .bind (walks_typeNode (Descends.child hp' _ t ht)) fun _ _ =>
          .bind .done fun type _ => hdeclare type

theorem walks_lambda {n : Node} {params : List GenericType} (hn : S.T n) :
    Walks S Any (lambda sub n params) := by
  refine walks_withBlock ?_
  extract_lets body
  have hbody : ∀ u, Walks S Any (body u) := by
    intro u
    simp only [body]
    split
    · exact .done
    · rename_i inner hinner
      have hinner' : S.T inner := Descends.child hn _ inner hinner
      split
      · exact .bind (.discard (hsub _ hinner')) fun _ _ => .done
      · exact walks_expression hsub hinner'
  split
  · rename_i list hlist
    exact .bind (walks_lambdaParameters hsub hn hlist) fun u _ => hbody u
  · exact hbody ()

theorem walks_referenceOwner {target : Node} (htarget : S.T target) :
    Walks S Any (referenceOwner sub target) := by
  unfold referenceOwner
  split
  · exact .bind .read fun _ _ => .bind walks_currentClass? fun _ _ => .done
  · split
    · refine .bind (walks_typeNode htarget) fun t _ => ?_
      split
      · exact .done
      · exact .done
    · refine .bind (hsub _ htarget) fun m _ => ?_
      split
      · exact .done
      · exact .done
      · exact .done

theorem walks_methodReference {n : Node} (hn : S.T n) : Walks S Any (methodReference sub n) := by
  have hnamed := Descends.named hn
  unfold methodReference
  split
  · exact .done
  · rename_i target rest hchildren
    rw [hchildren] at hnamed
    refine .bind (walks_referenceOwner hsub (hnamed target (by simp))) fun owner _ => ?_
    split
    · rename_i name owner hname _
      have hmem : name ∈ rest := List.mem_reverse.1 (List.mem_of_find?_eq_some hname)
      have hkind : name.kind = .identifier := by simpa using List.find?_some hname
      refine .bind walks_text fun method hmethod => .bind .read fun ctx hctx => ?_
      subst hmethod hctx
      split
      · rename_i hfound
        exact walks_emitFound (hnamed name (by simp [hmem])) (fun _ => by rw [hkind]; rfl)
          (by rw [hfound]; simp)
      · exact walks_unresolved
      · exact walks_diagnose
    · exact .done

/-! ## Switches and patterns -/

theorem walks_switchLabelPart {enum : Option String} {n : Node} (hn : S.T n) :
    Walks S Any (switchLabelPart sub enum n) := by
  unfold switchLabelPart
  split
  · rename_i hkind
    refine .bind .read fun ctx hctx => .bind walks_text fun name hname => ?_
    subst hctx hname
    split
    · rename_i hfound
      obtain ⟨owner, -, hfield⟩ := Option.bind_eq_some_iff.1 hfound
      exact walks_emitField hn (fun _ => by rw [hkind]; rfl) rfl (Survey.field_of_findField? hfield)
    · exact .discard (walks_expression hsub hn)
  · exact .discard (hsub _ hn)
  · exact .discard (hsub _ hn)
  · exact .discard (hsub _ hn)
  · exact .discard (walks_expressions hsub (Descends.named hn))
  · exact .discard (walks_expression hsub hn)

omit [S.Covers] in
theorem walks_statementOrExpression {n : Node} (hn : S.T n) :
    Walks S Any (statementOrExpression sub n) := by
  unfold statementOrExpression
  split
  · exact .discard (hsub _ hn)
  · exact .discard (walks_expression hsub hn)

theorem walks_switch {n : Node} (hn : S.T n) : Walks S Any (switch sub n) := by
  refine .bind (walks_expression? hsub (Descends.child hn _)) fun selector _ => ?_
  refine .bind .read fun _ _ => ?_
  dsimp only
  split
  · exact .done
  · rename_i body hbody
    refine .forM fun group hgroup => walks_withBlock (.forM fun c hc => ?_)
    have hgroup' : S.T group := Descends.named (Descends.child hn _ body hbody) group hgroup
    have hc' : S.T c := Descends.named hgroup' c hc
    split
    · exact .forM fun part hpart => walks_switchLabelPart hsub (Descends.named hc' part hpart)
    · exact walks_statementOrExpression hsub hc'

omit hsub in
theorem walks_typePattern {n : Node} (hn : S.T n) : Walks S Any (typePattern n) := by
  have htype : ∀ c ∈ n.namedChildren.find? (·.kind.isType), S.T c :=
    fun c hc => Descends.named hn c (List.mem_of_find?_eq_some hc)
  refine .bind (walks_typeNode? htype) fun type _ => ?_
  split
  · rename_i name hname
    have hmem := List.mem_reverse.1 (List.mem_of_find?_eq_some hname)
    have hkind : name.kind = .identifier := by simpa using List.find?_some hname
    exact walks_declareLocal (Descends.named hn name hmem) fun _ => by rw [hkind]; rfl
  · exact .done

omit [S.Covers] in
theorem walks_patterns {nodes : List Node} (h : ∀ n ∈ nodes, S.T n) :
    Walks S Any (patterns sub nodes) :=
  .forM fun n hn => .discard (hsub _ (h n hn))

theorem walks_recordPatternPart {n : Node} (hn : S.T n) :
    Walks S Any (recordPatternPart sub n) := by
  unfold recordPatternPart
  split
  · refine .bind (walks_nameAsType hn) fun _ _ => ?_
    split
    · exact .done
    · exact .bind walks_text fun _ _ => walks_unresolved
  · split
    · exact .discard (walks_typeNode hn)
    · exact .discard (hsub _ hn)

theorem walks_pattern {n : Node} (hn : S.T n) : Walks S Any (pattern sub n) := by
  have hnamed := Descends.named hn
  unfold pattern
  split
  · exact walks_patterns hsub hnamed
  · exact walks_patterns hsub hnamed
  · split
    · exact walks_patterns hsub hnamed
    · exact walks_typePattern hn
  · exact walks_typePattern hn
  · exact .forM fun part hpart => walks_recordPatternPart hsub (hnamed part hpart)
  · split
    · exact .discard (walks_typeNode hn)
    · exact .done

/-! ## Expressions -/

theorem walks_castExpression {n : Node} (hn : S.T n) : Walks S Any (castExpression sub n) := by
  refine .bind (.mapM fun c hc => walks_typeNode (Descends.inRole hn _ c hc)) fun _ _ => ?_
  exact .bind (.discard (walks_expression? hsub (Descends.child hn _))) fun _ _ => .done

theorem walks_instanceofExpression {n : Node} (hn : S.T n)
    (hkind : n.kind = .instanceofExpression) : Walks S Any (instanceofExpression sub n) := by
  refine .bind (.discard (walks_expression? hsub (Descends.child hn _))) fun _ _ => ?_
  refine .bind (walks_typeNode? (Descends.child hn _)) fun type _ => ?_
  extract_lets result inner
  have hinner : ∀ u, Walks S Any (inner u) := by
    intro u
    simp only [inner]
    split
    · rename_i p hp
      exact .bind (.discard (hsub _ (Descends.child hn _ p hp))) fun _ _ => .done
    · exact .done
  split
  · rename_i name hname
    have hword (ho : S.orderly) :=
      (Survey.Covers.sound ho hn).isName_child (by rw [hkind]; rfl) hname
    exact .bind (walks_declareLocal (Descends.child hn _ name hname) hword) fun u _ => hinner u
  · exact hinner ()

theorem walks_arrayAccess {n : Node} (hn : S.T n) : Walks S Any (arrayAccess sub n) := by
  refine .bind (walks_expression? hsub (Descends.child hn _)) fun array _ => ?_
  refine .bind (.discard (walks_expression? hsub (Descends.child hn _))) fun _ _ => ?_
  split
  · exact .done
  · exact .done

theorem walks_arrayCreation {n : Node} (hn : S.T n) : Walks S Any (arrayCreation sub n) := by
  refine .bind (walks_typeNode? (Descends.child hn _)) fun element _ => ?_
  refine .bind (.mapM fun d hd => ?_) fun counts _ => ?_
  · split
    · have hd' : S.T d := Descends.inRole hn _ d hd
      exact .bind (.discard (walks_expressions hsub (Descends.named hd'))) fun _ _ => .done
    · exact .bind .read fun _ _ => .done
  · dsimp only
    split
    · rename_i value hvalue
      exact .bind (.discard (hsub _ (Descends.child hn _ value hvalue))) fun _ _ => .done
    · exact .done

omit [S.Covers] in
theorem walks_lastExpression {nodes : List Node} (h : ∀ n ∈ nodes, S.T n) :
    Walks S Any (lastExpression sub nodes) :=
  .bind (walks_expressions hsub h) fun _ _ => .done

theorem walks_binaryExpression {n : Node} (hn : S.T n) : Walks S Any (binaryExpression sub n) :=
  .bind (walks_expression? hsub (Descends.child hn _)) fun _ _ =>
    .bind (walks_expression? hsub (Descends.child hn _)) fun _ _ => .done

theorem walks_unaryExpression {n : Node} (hn : S.T n) : Walks S Any (unaryExpression sub n) :=
  .bind (walks_expression? hsub (Descends.child hn _)) fun _ _ => .done

theorem walks_conditionalExpression {n : Node} (hn : S.T n) :
    Walks S Any (conditionalExpression sub n) :=
  .bind (.discard (walks_expression? hsub (Descends.child hn _))) fun _ _ =>
    .bind (walks_expression? hsub (Descends.child hn _)) fun _ _ =>
      .bind (walks_expression? hsub (Descends.child hn _)) fun _ _ => .done

theorem walks_assignment {n : Node} (hn : S.T n) : Walks S Any (assignment sub n) :=
  .bind (walks_expression? hsub (Descends.child hn _)) fun _ _ =>
    .bind (.discard (walks_expression? hsub (Descends.child hn _))) fun _ _ => .done

omit hsub in
theorem walks_variableName {n : Node} (hn : S.T n) (hkind : n.kind.isName = true) :
    Walks S Any (variableName n) := by
  refine .bind walks_text fun name hname => ?_
  subst hname
  refine walks_variableNamed? hn (fun _ => hkind) (fun _ => (bind_pure _).symm) (fun _ => .done) ?_
  exact .bind walks_unresolved fun _ _ => .done

theorem walks_expressionType {n : Node} (hn : S.T n) : Walks S Any (expressionType sub n) := by
  have hnamed := Descends.named hn
  have hliteral (isInteger : Bool) :
      Walks S Any (do return ExprType.ofLiteral isInteger (← text n)) :=
    .bind walks_text fun _ _ => .done
  refine .bind .read fun _ _ => ?_
  extract_lets index
  split
  · rename_i hkind
    exact walks_variableName hn (by rw [hkind]; rfl)
  · exact .bind walks_currentClass? fun _ _ => .done
  · exact .bind walks_currentClass? fun _ _ => .done
  · exact .bind (hsub _ hn) fun _ _ => .done
  · rename_i hkind
    exact walks_methodInvocation hsub hn (by rw [hkind]; rfl)
  · exact walks_objectCreation hsub hn
  · exact hliteral true
  · exact hliteral true
  · exact hliteral true
  · exact hliteral true
  · exact hliteral false
  · exact hliteral false
  · exact .done
  · exact .done
  · exact .done
  · exact .done
  · exact .done
  · exact walks_lastExpression hsub hnamed
  · exact walks_lastExpression hsub hnamed
  · exact walks_binaryExpression hsub hn
  · exact walks_unaryExpression hsub hn
  · exact walks_assignment hsub hn
  · exact walks_castExpression hsub hn
  · rename_i hkind
    exact walks_instanceofExpression hsub hn hkind
  · exact walks_conditionalExpression hsub hn
  · exact walks_arrayAccess hsub hn
  · exact walks_arrayCreation hsub hn
  · exact .bind (hsub _ hn) fun _ _ => .done
  · have htype : ∀ c ∈ n.namedChildren.find? (·.kind.isType), S.T c :=
      fun c hc => hnamed c (List.mem_of_find?_eq_some hc)
    exact .bind (.discard (walks_typeNode? htype)) fun _ _ => .done
  · exact .bind (.discard (hsub _ hn)) fun _ _ => .done
  · exact .bind (walks_methodReference hsub hn) fun _ _ => .done
  · exact .bind (walks_switch hsub hn) fun _ _ => .done
  · split
    · exact .bind (.discard (walks_typeNode hn)) fun _ _ => .done
    · exact .bind (.forM fun c hc => .discard (hsub _ (hnamed c hc))) fun _ _ => .done

theorem walks_initializer {n : Node} {expected : Option GenericType} (hn : S.T n) :
    Walks S Any (initializer sub n expected) := by
  unfold initializer
  split
  · exact .bind .read fun _ _ => .bind (.discard (hsub _ hn)) fun _ _ => .done
  · extract_lets inner
    exact .bind (.forM fun c hc => .discard (hsub _ (Descends.named hn c hc))) fun _ _ => .done
  · exact walks_expression hsub hn

end Inside

end Binding

end Renaming.Java
