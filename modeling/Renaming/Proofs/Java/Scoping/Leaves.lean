import Renaming.Proofs.Java.Descent

/-!
# Names that leave a node

A variable goes to the innermost block that is open where it is declared. Some nodes open a block
for a part of them, and some parts open one themselves; whatever a node declares elsewhere is still
in scope after it. The names of such variables leave the node.

Nodes are taken as they come here, also where no text has such a tree.
-/

namespace Renaming.Java

namespace NodeKind

/-- Statements that open a block around all that they hold. -/
def opensBlock : NodeKind → Bool
  | block | constructorBody | forStatement | enhancedFor | catchClause | tryWithResources => true
  | _ => false

/-- Kinds in which a block may stand as a statement or as a member. -/
def holdsBlocks : NodeKind → Bool
  | labeledStatement | ifStatement | whileStatement | doStatement | synchronizedStatement
  | tryStatement | finallyClause | staticInitializer => true
  | k => k.holdsMembers

/-- Kinds that open a block for a part, or have parts that do. -/
def shields : NodeKind → Bool
  | lambda | switchExpression | methodDeclaration | constructorDeclaration | compactConstructor =>
    true
  | k => k.holdsBlocks

theorem shields_of_isAnnotated {k : NodeKind} (h : k.isAnnotated = true) : k.shields = false := by
  rcases isAnnotated_cases h with rfl | rfl <;> rfl

theorem shields_of_isTypeDeclaration {k : NodeKind} (h : k.isTypeDeclaration = true) :
    k.shields = false := by
  rcases isTypeDeclaration_cases h with rfl | rfl | rfl | rfl | rfl <;> rfl

theorem opensBlock_of_isTypeDeclaration {k : NodeKind} (h : k.isTypeDeclaration = true) :
    k.opensBlock = false := by
  rcases isTypeDeclaration_cases h with rfl | rfl | rfl | rfl | rfl <;> rfl

end NodeKind

namespace Role

/-- Lists, the entries of which are walked whatever the list is. -/
def isList : Role → Bool
  | arguments | declarator | typeParameters | parameters => true
  | _ => false

/-- Roles of statements. -/
def isBody : Role → Bool
  | body | consequence | alternative => true
  | _ => false

end Role

namespace Node

/-- Lists, and annotations of whatever node, are looked through. -/
def looksThrough (n c : Node) : Bool :=
  n.role.any Role.isList || c.kind == .modifiers || c.kind.isAnnotated

/-- Whether a child is walked in a block that is opened at its parent or at the child itself. -/
def encloses (n c : Node) : Bool :=
  !n.looksThrough c &&
    match n.kind with
    | .lambda => c.role == some .parameters || c.role == some .body
    | .switchExpression => c.role == some .body
    | .methodDeclaration | .constructorDeclaration | .compactConstructor =>
      c.role == some .body && c.kind.opensBlock
    | kind =>
      kind.holdsBlocks && c.kind.opensBlock && c.kind.isStatement && c.role.all Role.isBody

/-- The names of the variables that are declared in a node outside of the blocks in it. Members of
a type count, since the body of a type is no block. -/
inductive Leaves : Node → Node → Prop where
  | instanceOf {n name : Node} (hkind : n.kind = .instanceofExpression)
      (hname : n.child? .name = some name) : Leaves n name
  | pattern {n name : Node} (hkind : n.kind = .typePattern ∨ n.kind = .recordPatternComponent)
      (hname : name ∈ n.namedChildren) (hword : name.kind = .identifier) : Leaves n name
  | declared {n d name : Node} (hkind : n.kind = .localVariables)
      (hd : d ∈ n.childrenIn .declarator) (hname : d.child? .name = some name) : Leaves n name
  | inside {n c name : Node} (hc : c ∈ n.children) (hopen : n.encloses c = false)
      (h : Leaves c name) : Leaves n name
  | member {n body c name : Node}
      (hkind : n.kind.isTypeDeclaration = true ∨ n.kind = .enumConstant)
      (hbody : n.child? .body = some body) (hc : c ∈ body.children)
      (hopen : c.kind.opensBlock = false) (h : Leaves c name) : Leaves n name

/-- Whether an identifier of a tree has a name. -/
def Mentions (source : SourceText) (n : Node) (name : String) : Prop :=
  ∃ m, n.Below m ∧ m.kind = .identifier ∧ source.text m = name

/-! ## Patterns in conditions -/

/-- Operands that are walked whenever an expression is. -/
def operands (n : Node) : List Node :=
  match n.kind with
  | .parenthesized | .updateExpression => n.namedChildren
  | .binaryExpression | .assignment => (n.child? .left).toList ++ (n.child? .right).toList
  | .unaryExpression => (n.child? .operand).toList
  | .conditional =>
    (n.child? .condition).toList ++ (n.child? .consequence).toList ++
      (n.child? .alternative).toList
  | _ => []

/-- The expressions of a statement that are walked in the block around it. -/
def conditions (n : Node) : List Node :=
  match n.kind with
  | .expressionStatement | .parenthesized => n.namedChildren
  | .ifStatement => (n.child? .condition).toList
  | .whileStatement | .doStatement | .returnStatement | .throwStatement | .yieldStatement
  | .synchronizedStatement | .assertStatement => n.namedChildren.filter fun c => !c.kind.isStatement
  | _ => []

/-- The values that the fields in the body of a type start with. -/
def fieldValues (n : Node) : List Node :=
  (((n.child? .body).map namedChildren).getD []).flatMap fun member =>
    if member.kind == .fieldDeclaration then
      (member.childrenIn .declarator).filterMap (·.child? .value)
    else []

/-- The variables of the type tests in an expression. -/
inductive Tests : Node → Node → Prop where
  | here {n name : Node} (hkind : n.kind = .instanceofExpression)
      (hname : n.child? .name = some name) : Tests n name
  | operand {n c name : Node} (hc : c ∈ n.operands) (h : Tests c name) : Tests n name

variable {n c : Node}

theorem mem_children_of_mem_operands (hc : c ∈ n.operands) : c ∈ n.children := by
  have hchild {role : Role} (hc : c ∈ (n.child? role).toList) : c ∈ n.children :=
    List.mem_of_find?_eq_some (Option.mem_toList.1 hc)
  unfold operands at hc
  split at hc
  · exact (List.mem_filter.1 hc).1
  · exact (List.mem_filter.1 hc).1
  · exact (List.mem_append.1 hc).elim hchild hchild
  · exact (List.mem_append.1 hc).elim hchild hchild
  · exact hchild hc
  · rcases List.mem_append.1 hc with hc | hc
    · exact (List.mem_append.1 hc).elim hchild hchild
    · exact hchild hc
  · cases hc

theorem mem_children_of_mem_conditions (hc : c ∈ n.conditions) : c ∈ n.children := by
  have hvalue (hc : c ∈ n.namedChildren.filter fun c => !c.kind.isStatement) : c ∈ n.children :=
    (List.mem_filter.1 (List.mem_filter.1 hc).1).1
  unfold conditions at hc
  split at hc
  · exact (List.mem_filter.1 hc).1
  · exact (List.mem_filter.1 hc).1
  · exact List.mem_of_find?_eq_some (Option.mem_toList.1 hc)
  · exact hvalue hc
  · exact hvalue hc
  · exact hvalue hc
  · exact hvalue hc
  · exact hvalue hc
  · exact hvalue hc
  · exact hvalue hc
  · cases hc

theorem mem_fieldValues (hc : c ∈ n.fieldValues) :
    ∃ body member d, n.child? .body = some body ∧ member ∈ body.namedChildren ∧
      member.kind = .fieldDeclaration ∧ d ∈ member.childrenIn .declarator ∧
      d.child? .value = some c := by
  obtain ⟨member, hmember, hc⟩ := List.mem_flatMap.1 hc
  cases hbody : n.child? .body with
  | none =>
    rw [hbody] at hmember
    cases hmember
  | some body =>
    rw [hbody] at hmember
    split at hc
    · obtain ⟨d, hd, hvalue⟩ := List.mem_filterMap.1 hc
      exact ⟨body, member, d, rfl, hmember, beq_iff_eq.1 ‹_›, hd, hvalue⟩
    · cases hc

/-! ## What is enclosed -/

theorem encloses_of_looksThrough (h : n.looksThrough c = true) : n.encloses c = false := by
  simp [encloses, h]

theorem encloses_of_isList {role : Role} (hrole : n.role = some role) (hlist : role.isList = true) :
    n.encloses c = false :=
  encloses_of_looksThrough (by simp [looksThrough, hrole, hlist])

theorem encloses_of_not_shields (h : n.kind.shields = false) : n.encloses c = false := by
  unfold encloses
  split <;> simp_all [NodeKind.shields, NodeKind.holdsBlocks, NodeKind.holdsMembers]

/-- A child that opens no block is enclosed by lambdas and switches only. -/
theorem encloses_of_not_opensBlock (hkind : n.kind ≠ .lambda ∧ n.kind ≠ .switchExpression)
    (h : c.kind.opensBlock = false) : n.encloses c = false := by
  unfold encloses
  split <;> simp_all

/-- Children in other roles than those of statements and parameters are never enclosed. -/
theorem encloses_of_role {role : Role} (hrole : c.role = some role) (h : role.isBody = false)
    (hparameters : role ≠ .parameters) : n.encloses c = false := by
  have hbody : role ≠ .body := by
    rintro rfl
    cases h
  unfold encloses
  split <;> simp_all

/-- Among the children of a statement only statements are enclosed. -/
theorem encloses_of_not_isStatement (hkind : n.kind.isStatement = true)
    (h : c.kind.isStatement = false) : n.encloses c = false := by
  unfold encloses
  revert hkind
  split <;> simp_all [NodeKind.isStatement, NodeKind.isTypeDeclaration]

end Node

end Renaming.Java
