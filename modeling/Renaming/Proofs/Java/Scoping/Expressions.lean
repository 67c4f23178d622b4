import Renaming.Java.Binding.Expressions
import Renaming.Proofs.Java.Scoping.Steps

/-!
# Blind walks over expressions

Each function of the walk is blind to hidden names and leaves the names that leave its node,
provided that the walks inside it do so. Variables of lambdas and of the groups of a switch are
declared in blocks.
-/

namespace Renaming.Java

/-- What a step is taken on, where it leaves some names only. -/
def Task.Lets (V : View) (left : String → Prop) : Task → Prop
  | .expression n | .name n | .initializer n _ | .elementValue n | .pattern n => V.Fits left n
  | .statement n => V.T n ∧ (n.kind.opensBlock = false → V.Fits left n)
  | .lambda n _ => V.T n
  | .annotated n => V.Fits left n ∧ n.kind.isAnnotated = true
  | .typeDeclaration n _ => V.Fits left n ∧ n.kind.isTypeDeclaration = true
  | .classBody n _ _ => V.T n ∧ ∀ c ∈ n.children, c.kind.opensBlock = false → V.Fits left c

namespace Binding

variable {V : View} {left : String → Prop}

/-! ## Names and accesses -/

theorem blind_simpleName {n : Node} (hn : V.T n) (hkind : n.kind = .identifier) :
    Blind V left (simpleName n) := by
  refine blind_text (.bind (blind_variableNamed? (V.seen hn hkind)) fun v => ?_)
  cases v with
  | some v => exact .bind blind_useVariable fun _ => .pure
  | none =>
    refine .read (.get (fun _ _ => rfl) fun s => ?_)
    split
    · exact .bind blind_emitWith fun _ => .pure
    · split
      · exact .pure
      · exact .bind blind_unresolved fun _ => .pure

theorem blind_fieldOfValue {type : ExprType} {field : Node} {name : String} :
    Blind V left (fieldOfValue type field name) := by
  refine .read ?_
  dsimp only
  split
  · split
    · exact .pure
    · split
      · exact .pure
      · split
        · exact .bind blind_emitWith fun _ => .pure
        · exact .bind blind_unresolved fun _ => .pure
  · exact .pure

theorem blind_memberOfType {owner : String} {field : Node} {name : String} :
    Blind V left (memberOfType owner field name) := by
  refine .read ?_
  dsimp only
  split
  · exact .bind blind_emitWith fun _ => .pure
  · split
    · exact .bind blind_emitWith fun _ => .pure
    · exact .bind blind_unresolved fun _ => .pure

theorem blind_memberOfPackage {package : String} {start : Nat} {field : Node} {name : String} :
    Blind V left (memberOfPackage package start field name) := by
  refine .read ?_
  dsimp only
  split
  · exact .bind blind_emitWith fun _ => .pure
  · split
    · exact .pure
    · exact .bind blind_diagnose fun _ => .pure

section Inside

variable {sub : Task → Binding Meaning}
  (hsub : ∀ left task, task.Lets V left → Blind V left (sub task))
include hsub

theorem blind_expression {n : Node} (hn : V.Fits left n) : Blind V left (expression sub n) :=
  .bind (hsub _ _ hn) fun _ => .pure

theorem blind_expression? {n : Option Node} (h : ∀ c ∈ n, V.Fits left c) :
    Blind V left (expression? sub n) := by
  cases n with
  | none => exact .pure
  | some n => exact blind_expression hsub (h n rfl)

theorem blind_expressions {nodes : List Node} (h : ∀ n ∈ nodes, V.Fits left n) :
    Blind V left (expressions sub nodes) :=
  .mapM fun n hn => blind_expression hsub (h n hn)

theorem blind_arguments {n : Node} (hn : V.Fits left n) (hkind : n.kind.shields = false) :
    Blind V left (arguments sub (n.child? .arguments)) :=
  blind_expressions hsub (.listed (hn.child hkind _) rfl)

theorem blind_annotations {n : Node} (hn : V.Fits left n) : Blind V left (annotations sub n) := by
  refine .forM fun c hc => ?_
  have hmem := (List.mem_filter.1 hc).1
  split
  · rename_i hmodifiers
    have hc' : V.Fits left c :=
      hn.inside hmem (Node.encloses_of_looksThrough (by simp [Node.looksThrough, hmodifiers]))
    refine .forM fun a ha => .discard (hsub _ _ ⟨?_, (List.mem_filter.1 ha).2⟩)
    exact hc'.named (by rw [beq_iff_eq.1 hmodifiers]; rfl) a (List.mem_filter.1 ha).1
  · split
    · rename_i hannotated
      have hc' : V.Fits left c :=
        hn.inside hmem (Node.encloses_of_looksThrough (by simp [Node.looksThrough, hannotated]))
      exact .discard (hsub _ _ ⟨hc', hannotated⟩)
    · exact .pure

theorem blind_outerThis {object : Node} (hobject : V.Fits left object) :
    Blind V left (outerThis sub object) := by
  refine .bind (hsub _ _ hobject) fun m => ?_
  split
  · exact .read .pure
  · exact .pure

theorem blind_fieldAccess {n : Node} (hn : V.Fits left n) (hkind : n.kind = .fieldAccess) :
    Blind V left (fieldAccess sub n) := by
  unfold fieldAccess
  split
  · rename_i object field hobject _
    have hobject' : V.Fits left object := hn.child (by rw [hkind]; rfl) _ object hobject
    split
    · exact blind_outerThis hsub hobject'
    · refine blind_text (.bind (hsub _ _ hobject') fun m => ?_)
      split
      · exact blind_fieldOfValue
      · exact blind_memberOfType
      · exact blind_memberOfPackage
      · exact .pure
  · exact .pure

theorem blind_nameOf {n : Node} (hn : V.Fits left n) : Blind V left (nameOf sub n) := by
  unfold nameOf
  split
  · rename_i hkind
    exact blind_simpleName hn.mem hkind
  · rename_i hkind
    exact blind_fieldAccess hsub hn hkind
  · exact .bind (blind_expression hsub hn) fun _ => .pure

/-! ## Calls -/

omit hsub in
theorem blind_unqualifiedTarget {method : String} : Blind V left (unqualifiedTarget method) := by
  refine .read (.get (fun _ _ => rfl) fun _ => ?_)
  dsimp only
  split
  · exact .pure
  · exact .pure

theorem blind_callTarget {method : String} {object : Option Node}
    (h : ∀ c ∈ object, V.Fits left c) : Blind V left (callTarget sub method object) := by
  unfold callTarget
  split
  · exact .bind blind_unqualifiedTarget fun _ => .pure
  · rename_i object
    split
    · exact .read (.bind blind_currentClass? fun _ => .pure)
    · refine .bind (hsub _ _ (h object rfl)) fun m => ?_
      split
      · exact .pure
      · exact .pure
      · exact .bind blind_unresolved fun _ => .pure
      · exact .pure

omit hsub in
theorem blind_explicitArguments {n : Node} : Blind V left (explicitArguments n) := by
  unfold explicitArguments
  split
  · exact .pure
  · exact .bind blind_naming fun _ => .pure

theorem blind_argumentTypes {nodes : List Node} (h : ∀ n ∈ nodes, V.Fits left n) :
    Blind V left (argumentTypes sub nodes) := by
  refine .mapM fun n hn => ?_
  split
  · exact .pure
  · exact blind_expression hsub (h n hn)

omit hsub in
theorem mem_of_mem_lambdasOf {nodes : List Node} (h : ∀ n ∈ nodes, V.Fits left n) :
    ∀ l ∈ lambdasOf nodes, V.T l.1 :=
  fun l hl => (h l.1 (List.fst_mem_of_mem_zipIdx (List.mem_filter.1 hl).1)).mem

theorem blind_untypedLambdas {lambdas : List (Node × Nat)} (h : ∀ l ∈ lambdas, V.T l.1) :
    Blind V left (untypedLambdas sub lambdas) :=
  .forM fun l hl => .discard (hsub _ _ (h l hl))

theorem blind_typedLambda {m : MethodDeclaration} {bindings : Bindings} {l : Node × Nat}
    (hl : V.T l.1) : Blind V left (typedLambda sub m bindings l) := by
  refine .read ?_
  dsimp only
  refine .bind (hsub _ _ hl) fun _ => ?_
  split
  · exact .pure
  · exact .pure

theorem blind_chosenCall {name : Node} {receiver : Option GenericType} {owner : String}
    {m : MethodDeclaration} {explicit : List GenericType} {args : List ExprType}
    {lambdas : List (Node × Nat)} (hlambdas : ∀ l ∈ lambdas, V.T l.1) :
    Blind V left (chosenCall sub name receiver owner m explicit args lambdas) := by
  refine .bind blind_emitMethod fun _ => .read (.bind (.foldlM fun b l hl => ?_) fun _ => .pure)
  exact blind_typedLambda hsub (hlambdas l hl)

theorem blind_methodInvocation {n : Node} (hn : V.Fits left n) (hkind : n.kind.shields = false) :
    Blind V left (methodInvocation sub n) := by
  have hnodes : ∀ c ∈ ((n.child? .arguments).map Node.namedChildren).getD [], V.Fits left c :=
    .listed (hn.child hkind _) rfl
  have hlambdas := mem_of_mem_lambdasOf hnodes
  unfold methodInvocation
  split
  · exact .pure
  · refine .read (blind_text (.bind (blind_callTarget hsub (hn.child hkind _)) fun target => ?_))
    refine .bind blind_explicitArguments fun explicit => ?_
    refine .bind (blind_argumentTypes hsub hnodes) fun args => ?_
    dsimp only
    split
    · exact .bind (blind_untypedLambdas hsub hlambdas) fun _ => .pure
    · split
      · split
        · exact blind_chosenCall hsub hlambdas
        · exact .pure
      · exact .bind (blind_untypedLambdas hsub hlambdas) fun _ =>
          .bind blind_diagnose fun _ => .pure
      · exact .bind (blind_untypedLambdas hsub hlambdas) fun _ =>
          .bind blind_unresolved fun _ => .pure

/-! ## Creation, lambdas and references to methods -/

theorem blind_anonymousBody {body : Node} (hbody : V.T body)
    (hmembers : ∀ c ∈ body.children, c.kind.opensBlock = false → V.Fits left c) :
    Blind V left (anonymousBody sub body) := by
  refine .read ?_
  split
  · exact .pure
  · rename_i binary _
    have hlets : Task.Lets V left (.classBody body binary none) := ⟨hbody, hmembers⟩
    exact .bind (blind_withClass (.discard (hsub _ _ hlets))) fun _ => .pure

theorem blind_creationQualifier {n : Node} (hn : V.Fits left n) (hkind : n.kind.shields = false) :
    Blind V left (creationQualifier sub n) := by
  refine .bind (blind_expressions hsub fun c hc => ?_) fun _ => .pure
  have hfront := (List.takeWhile_sublist _).mem (List.mem_filter.1 hc).1
  exact hn.named hkind c hfront

omit hsub in
theorem blind_createdType {type : Node} {qualifier : Option ExprType} :
    Blind V left (createdType type qualifier) := by
  refine .read (blind_text ?_)
  dsimp only
  split
  · exact .bind blind_emitWith fun _ => .pure
  · exact blind_typeNode

theorem blind_objectCreation {n : Node} (hn : V.Fits left n) (hkind : n.kind.shields = false) :
    Blind V left (objectCreation sub n) := by
  refine .bind (blind_creationQualifier hsub hn hkind) fun qualifier => ?_
  extract_lets andThen
  have hthen : ∀ created, Blind V left (andThen created) := by
    intro created
    refine .bind (.discard (blind_arguments hsub hn hkind)) fun _ => ?_
    extract_lets result
    have hresult : ∀ anonymous, Blind V left (result anonymous) := by
      intro anonymous
      cases anonymous with
      | none => exact .pure
      | some binary => exact .pure
    split
    · exact .bind .pure hresult
    · rename_i body hbody
      have hclass : body.kind = .classBody := by simpa using List.find?_some hbody
      have hbody' := hn.named hkind body (List.mem_of_find?_eq_some hbody)
      refine .bind (blind_anonymousBody hsub hbody'.mem fun c hc hopen => ?_) hresult
      exact hbody'.inside hc (Node.encloses_of_not_opensBlock (by simp [hclass]) hopen)
  split
  · exact .bind .pure hthen
  · exact .bind blind_createdType hthen

theorem blind_lambdaParameters {list : Node} {params : List GenericType} (hlist : V.T list) :
    Blind V (fun _ => True) (lambdaParameters sub list params) := by
  unfold lambdaParameters
  extract_lets known
  split
  · exact blind_declareLocal trivial
  · exact .forM fun p _ => blind_declareLocal trivial
  · refine .forM fun p hp => ?_
    have hmem := (List.mem_filter.1 (List.fst_mem_of_mem_zipIdx hp)).1
    refine .bind (blind_annotations hsub (.all (Descends.named hlist p.1 hmem))) fun _ => ?_
    extract_lets declare
    have hdeclare : ∀ type, Blind V (fun _ => True) (declare type) := by
      intro type
      simp only [declare]
      split
      · exact blind_declareLocal trivial
      · exact .pure
    split
    · exact .bind .pure hdeclare
    · refine .bind blind_isInferred fun inferred => ?_
      split
      · exact .bind .pure hdeclare
      · exact .bind blind_typeNode fun _ => .bind .pure hdeclare

theorem blind_lambda {n : Node} {params : List GenericType} (hn : V.T n) :
    Blind V left (lambda sub n params) := by
  refine blind_withBlock ?_
  extract_lets body
  have hbody : ∀ u, Blind V (fun _ => True) (body u) := by
    intro u
    simp only [body]
    split
    · exact .pure
    · rename_i inner hinner
      have hinner' : V.Fits (fun _ => True) inner := .all (Descends.child hn _ inner hinner)
      split
      · exact .bind (.discard (hsub _ _ ⟨hinner'.mem, fun _ => hinner'⟩)) fun _ => .pure
      · exact blind_expression hsub hinner'
  split
  · rename_i list hlist
    exact .bind (blind_lambdaParameters hsub (Descends.child hn _ list hlist)) hbody
  · exact hbody ()

theorem blind_referenceOwner {target : Node} (htarget : V.Fits left target) :
    Blind V left (referenceOwner sub target) := by
  unfold referenceOwner
  split
  · exact .read (.bind blind_currentClass? fun _ => .pure)
  · split
    · refine .bind blind_typeNode fun t => ?_
      split
      · exact .pure
      · exact .pure
    · refine .bind (hsub _ _ htarget) fun m => ?_
      split
      · exact .pure
      · exact .pure
      · exact .pure

theorem blind_methodReference {n : Node} (hn : V.Fits left n) (hkind : n.kind.shields = false) :
    Blind V left (methodReference sub n) := by
  have hnamed := hn.named hkind
  unfold methodReference
  split
  · exact .pure
  · rename_i target rest hchildren
    rw [hchildren] at hnamed
    refine .bind (blind_referenceOwner hsub (hnamed target (by simp))) fun owner => ?_
    split
    · refine blind_text (.read ?_)
      split
      · exact blind_emitMethod
      · exact blind_unresolved
      · exact blind_diagnose
    · exact .pure

/-! ## Switches and patterns -/

theorem blind_switchLabelPart {enum : Option String} {n : Node} (hn : V.T n) :
    Blind V (fun _ => True) (switchLabelPart sub enum n) := by
  unfold switchLabelPart
  split
  · refine .read (blind_text ?_)
    split
    · exact blind_emitWith
    · exact .discard (blind_expression hsub (.all hn))
  · exact .discard (hsub _ _ (.all hn))
  · exact .discard (hsub _ _ (.all hn))
  · exact .discard (hsub _ _ (.all hn))
  · exact .discard (blind_expressions hsub fun c hc => .all (Descends.named hn c hc))
  · exact .discard (blind_expression hsub (.all hn))

theorem blind_statementOrExpression {n : Node} (hn : V.T n)
    (hleft : n.kind.isStatement = true → n.kind.opensBlock = false → V.Fits left n)
    (hvalue : n.kind.isStatement = false → V.Fits left n) :
    Blind V left (statementOrExpression sub n) := by
  unfold statementOrExpression
  split
  · rename_i hkind
    exact .discard (hsub _ _ ⟨hn, hleft hkind⟩)
  · rename_i hkind
    exact .discard (blind_expression hsub (hvalue (by simpa using hkind)))

theorem blind_switch {n : Node} (hn : V.Fits left n) : Blind V left (switch sub n) := by
  refine .bind (blind_expression? hsub (hn.part rfl nofun)) fun selector => .read ?_
  dsimp only
  split
  · exact .pure
  · rename_i body hbody
    refine .forM fun group hgroup => blind_withBlock (.forM fun c hc => ?_)
    have hgroup' : V.T group := Descends.named (Descends.child hn.mem _ body hbody) group hgroup
    have hc' : V.T c := Descends.named hgroup' c hc
    split
    · exact .forM fun part hpart => blind_switchLabelPart hsub (Descends.named hc' part hpart)
    · exact blind_statementOrExpression hsub hc' (fun _ _ => .all hc') fun _ => .all hc'

omit hsub in
theorem blind_typePattern {n : Node} (hn : V.Fits left n)
    (hpattern : n.kind = .typePattern ∨ n.kind = .recordPatternComponent) :
    Blind V left (typePattern n) := by
  refine .bind blind_typeNode? fun type => ?_
  split
  · rename_i name hname
    have hmem := List.mem_reverse.1 (List.mem_of_find?_eq_some hname)
    have hkind : name.kind = .identifier := by simpa using List.find?_some hname
    exact blind_declareLocal (hn.leaves name (.pattern hpattern hmem hkind))
  · exact .pure

theorem blind_patterns {nodes : List Node} (h : ∀ n ∈ nodes, V.Fits left n) :
    Blind V left (patterns sub nodes) :=
  .forM fun n hn => .discard (hsub _ _ (h n hn))

theorem blind_recordPatternPart {n : Node} (hn : V.Fits left n) :
    Blind V left (recordPatternPart sub n) := by
  unfold recordPatternPart
  split
  · refine .bind blind_nameAsType fun _ => ?_
    split
    · exact .pure
    · exact blind_text blind_unresolved
  · split
    · exact .discard blind_typeNode
    · exact .discard (hsub _ _ hn)

theorem blind_pattern {n : Node} (hn : V.Fits left n) : Blind V left (pattern sub n) := by
  unfold pattern
  split
  · rename_i hkind
    exact blind_patterns hsub (hn.named (by rw [hkind]; rfl))
  · rename_i hkind
    exact blind_patterns hsub (hn.named (by rw [hkind]; rfl))
  · rename_i hkind
    split
    · exact blind_patterns hsub (hn.named (by rw [hkind]; rfl))
    · exact blind_typePattern hn (.inr hkind)
  · rename_i hkind
    exact blind_typePattern hn (.inl hkind)
  · rename_i hkind
    exact .forM fun part hpart =>
      blind_recordPatternPart hsub (hn.named (by rw [hkind]; rfl) part hpart)
  · split
    · exact .discard blind_typeNode
    · exact .pure

/-! ## Expressions -/

theorem blind_castExpression {n : Node} (hn : V.Fits left n) (hkind : n.kind.shields = false) :
    Blind V left (castExpression sub n) := by
  refine .bind (.mapM fun _ _ => blind_typeNode) fun _ => ?_
  exact .bind (.discard (blind_expression? hsub (hn.child hkind _))) fun _ => .pure

theorem blind_instanceofExpression {n : Node} (hn : V.Fits left n)
    (hkind : n.kind = .instanceofExpression) : Blind V left (instanceofExpression sub n) := by
  have hchild := hn.child (by rw [hkind]; rfl)
  refine .bind (.discard (blind_expression? hsub (hchild _))) fun _ => ?_
  refine .bind blind_typeNode? fun type => ?_
  extract_lets result inner
  have hinner : ∀ u, Blind V left (inner u) := by
    intro u
    simp only [inner]
    split
    · rename_i p hp
      exact .bind (.discard (hsub _ _ (hchild _ p hp))) fun _ => .pure
    · exact .pure
  split
  · rename_i name hname
    exact .bind (blind_declareLocal (hn.leaves name (.instanceOf hkind hname))) hinner
  · exact hinner ()

theorem blind_arrayAccess {n : Node} (hn : V.Fits left n) (hkind : n.kind.shields = false) :
    Blind V left (arrayAccess sub n) := by
  refine .bind (blind_expression? hsub (hn.child hkind _)) fun array => ?_
  refine .bind (.discard (blind_expression? hsub (hn.child hkind _))) fun _ => ?_
  split
  · exact .pure
  · exact .pure

theorem blind_arrayCreation {n : Node} (hn : V.Fits left n) (hkind : n.kind.shields = false) :
    Blind V left (arrayCreation sub n) := by
  refine .bind blind_typeNode? fun element => .bind (.mapM fun d hd => ?_) fun counts => ?_
  · split
    · rename_i hsized
      have hd' := (hn.inRole hkind _ d hd).named (by rw [beq_iff_eq.1 hsized]; rfl)
      exact .bind (.discard (blind_expressions hsub hd')) fun _ => .pure
    · exact .read .pure
  · dsimp only
    split
    · rename_i value hvalue
      exact .bind (.discard (hsub _ _ (hn.child hkind _ value hvalue))) fun _ => .pure
    · exact .pure

theorem blind_lastExpression {nodes : List Node} (h : ∀ n ∈ nodes, V.Fits left n) :
    Blind V left (lastExpression sub nodes) :=
  .bind (blind_expressions hsub h) fun _ => .pure

theorem blind_binaryExpression {n : Node} (hn : V.Fits left n) (hkind : n.kind.shields = false) :
    Blind V left (binaryExpression sub n) :=
  .bind (blind_expression? hsub (hn.child hkind _)) fun _ =>
    .bind (blind_expression? hsub (hn.child hkind _)) fun _ => .pure

theorem blind_unaryExpression {n : Node} (hn : V.Fits left n) (hkind : n.kind.shields = false) :
    Blind V left (unaryExpression sub n) :=
  .bind (blind_expression? hsub (hn.child hkind _)) fun _ => .pure

theorem blind_conditionalExpression {n : Node} (hn : V.Fits left n)
    (hkind : n.kind.shields = false) : Blind V left (conditionalExpression sub n) :=
  .bind (.discard (blind_expression? hsub (hn.child hkind _))) fun _ =>
    .bind (blind_expression? hsub (hn.child hkind _)) fun _ =>
      .bind (blind_expression? hsub (hn.child hkind _)) fun _ => .pure

theorem blind_assignment {n : Node} (hn : V.Fits left n) (hkind : n.kind.shields = false) :
    Blind V left (assignment sub n) :=
  .bind (blind_expression? hsub (hn.child hkind _)) fun _ =>
    .bind (.discard (blind_expression? hsub (hn.child hkind _))) fun _ => .pure

omit hsub in
theorem blind_variableName {n : Node} (hn : V.T n) (hkind : n.kind = .identifier) :
    Blind V left (variableName n) := by
  refine blind_text (.bind (blind_variableNamed? (V.seen hn hkind)) fun v => ?_)
  cases v with
  | some v => exact blind_useVariable
  | none => exact .bind blind_unresolved fun _ => .pure

theorem blind_expressionType {n : Node} (hn : V.Fits left n) :
    Blind V left (expressionType sub n) := by
  have hliteral (isInteger : Bool) :
      Blind V left (do return ExprType.ofLiteral isInteger (← text n)) := blind_text .pure
  refine .read ?_
  extract_lets index
  split <;> rename_i hkind
  · exact blind_variableName hn.mem hkind
  · exact .bind blind_currentClass? fun _ => .pure
  · exact .bind blind_currentClass? fun _ => .pure
  · exact .bind (hsub _ _ hn) fun _ => .pure
  · exact blind_methodInvocation hsub hn (by rw [hkind]; rfl)
  · exact blind_objectCreation hsub hn (by rw [hkind]; rfl)
  · exact hliteral true
  · exact hliteral true
  · exact hliteral true
  · exact hliteral true
  · exact hliteral false
  · exact hliteral false
  · exact .pure
  · exact .pure
  · exact .pure
  · exact .pure
  · exact .pure
  · exact blind_lastExpression hsub (hn.named (by rw [hkind]; rfl))
  · exact blind_lastExpression hsub (hn.named (by rw [hkind]; rfl))
  · exact blind_binaryExpression hsub hn (by rw [hkind]; rfl)
  · exact blind_unaryExpression hsub hn (by rw [hkind]; rfl)
  · exact blind_assignment hsub hn (by rw [hkind]; rfl)
  · exact blind_castExpression hsub hn (by rw [hkind]; rfl)
  · exact blind_instanceofExpression hsub hn hkind
  · exact blind_conditionalExpression hsub hn (by rw [hkind]; rfl)
  · exact blind_arrayAccess hsub hn (by rw [hkind]; rfl)
  · exact blind_arrayCreation hsub hn (by rw [hkind]; rfl)
  · exact .bind (hsub _ _ hn) fun _ => .pure
  · exact .bind (.discard blind_typeNode?) fun _ => .pure
  · exact .bind (.discard (hsub _ (.lambda n []) hn.mem)) fun _ => .pure
  · exact .bind (blind_methodReference hsub hn (by rw [hkind]; rfl)) fun _ => .pure
  · exact .bind (blind_switch hsub hn) fun _ => .pure
  · split
    · exact .bind (.discard blind_typeNode) fun _ => .pure
    · refine .bind (.forM fun c hc => .discard (hsub _ _ ⟨?_, fun hopen => ?_⟩)) fun _ => .pure
      · exact Descends.named hn.mem c hc
      · exact hn.inside (List.mem_filter.1 hc).1
          (Node.encloses_of_not_opensBlock ⟨‹_›, ‹_›⟩ hopen)

theorem blind_initializer {n : Node} {expected : Option GenericType} (hn : V.Fits left n) :
    Blind V left (initializer sub n expected) := by
  unfold initializer
  split
  · exact .read (.bind (.discard (hsub _ (.lambda n _) hn.mem)) fun _ => .pure)
  · rename_i hkind
    extract_lets inner
    refine .bind (.forM fun c hc => .discard (hsub _ _ ?_)) fun _ => .pure
    exact hn.named (by rw [hkind]; rfl) c hc
  · exact blind_expression hsub hn

end Inside

end Binding

end Renaming.Java
