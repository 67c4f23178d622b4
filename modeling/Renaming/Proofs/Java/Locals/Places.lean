import Mathlib.Data.List.Basic
import Mathlib.Tactic.MkIffOfInductiveProp
import Renaming.Java.Binding
import Renaming.Proofs.Java.Descent

/-!
# Names that declare local variables

Where a tree declares local variables, which method each of them belongs to, and in which order a
walk comes to them. They are looked for in all parts of a tree except in types, in the annotations
that stand in a type, and in a parameter that takes any number of arguments of a lambda. Children
are walked in the order of the text, but some wait for the children after them: the variable of a
loop for what the loop runs through, a variable for its initializer, a resource for its value, and
lambdas for the other arguments of a call by name.

All this goes by kinds and roles. It is about trees whose nodes are laid out as the grammar of the
language has them, which is told node by node.
-/

namespace Renaming.Java

namespace NodeKind

/-- Kinds of nodes in which no variables are looked for: words, marks, and types with all that
belongs to them. -/
def isMute : NodeKind → Bool
  | token | identifier | underscorePattern | scopedIdentifier | asterisk | requiresModifier
  | trueLiteral | falseLiteral | nullLiteral | this | super | classLiteral | typeArguments
  | wildcard | dimensions | typeBound | superclass | superInterfaces | extendsInterfaces | permits
  | typeList | throwsClause | catchType => true
  | k => k.isComment || k.isType || k.isLiteral

/-- Kinds of methods. -/
def isMethod : NodeKind → Bool
  | methodDeclaration | constructorDeclaration | compactConstructor => true
  | _ => false

/-- Kinds of what stands in front of a declaration. -/
def isMark (k : NodeKind) : Bool := k == modifiers || k.isAnnotated

/-- Kinds of nodes in which annotations may stand in front of something. -/
def isMarked : NodeKind → Bool
  | program | formalParameters | arrayCreation | staticInitializer => false
  | _ => true

variable {k : NodeKind}

theorem isMute_of_isName (h : k.isName = true) : k.isMute = true := by
  unfold isName at h
  split at h <;> first | rfl | cases h

theorem isMute_of_isType (h : k.isType = true) : k.isMute = true := by
  unfold isType at h
  split at h <;> first | rfl | cases h

theorem isMute_of_isComment (h : k.isComment = true) : k.isMute = true := by
  rcases isComment_cases h with rfl | rfl <;> rfl

theorem isMark_cases (h : k.isMark = true) :
    k = modifiers ∨ k = markerAnnotated ∨ k = fullyAnnotated := by
  simpa [isMark, isAnnotated] using h

theorem isMute_of_isMark (h : k.isMark = true) : k.isMute = false := by
  rcases isMark_cases h with rfl | rfl | rfl <;> rfl

theorem isMethod_cases (h : k.isMethod = true) :
    k = methodDeclaration ∨ k = constructorDeclaration ∨ k = compactConstructor := by
  unfold isMethod at h
  split at h <;> simp at h ⊢

/-- Kinds of nodes whose children are walked in the order of the text, with the same things around
them as the node itself, and none of them as the name of a variable. -/
def isPlain : NodeKind → Bool
  | program | localVariables | lambda | formalParameters | spreadParameter | methodInvocation
  | fieldDeclaration | constantDeclaration | staticInitializer | classBody | interfaceBody
  | annotationTypeBody | enumBody | enumBodyDeclarations | enumConstant | objectCreation
  | arrayCreation | enhancedFor | variableDeclarator | resource | argumentList | formalParameter
  | catchParameter | instanceofExpression | inferredParameters | typePattern
  | recordPatternComponent => false
  | k => !k.isMute && !k.isMethod && !k.isTypeDeclaration

end NodeKind

/-! ## Surroundings -/

/-- What the names of a node declare. -/
inductive Sense where
  | plain
  /-- Local variables. -/
  | locals
  /-- Components of a record. -/
  | components
  /-- The arguments of a call by name declare nothing themselves. -/
  | call
  deriving DecidableEq

/-- What is around a node. -/
structure Around where
  /-- The innermost method around, which may have no known signature. -/
  host : Option (Option Signature) := none
  /-- The innermost type around. -/
  binary : String := ""
  sense : Sense := .plain

namespace Around

/-- The same with nothing to be said of names. -/
def plain (p : Around) : Around := { p with sense := .plain }

def as (p : Around) (sense : Sense) : Around := { p with sense }

def within (p : Around) (method : Option Signature) : Around :=
  { p with host := some method, sense := .plain }

def inType (p : Around) (binary : String) : Around := { p with binary, sense := .plain }

/-- The initializers of the type around. -/
def initializer (p : Around) (isStatic : Bool) : Around :=
  p.within (some (Binding.initializerSignature p.binary isStatic))

variable (ctx : BindingContext) (p : Around) (n c : Node)

/-- The body of a type without a name, if the type has a binary name. -/
def anonymous : Option Around := (ctx.unit.types.get? c.start).map p.inType

/-- Whether the values of fields are those of static fields. -/
def holdsStatic : Bool :=
  (ctx.index.get? p.binary).any (·.kind.isInterface) || n.hasModifier "static"

/-- What is around a child of a node, if variables are looked for in the child. -/
def into : Option Around :=
  match n.kind with
  | .program => if c.kind.isTypeDeclaration then some p.plain else none
  | .localVariables => some (p.as (if c.kind == .variableDeclarator then .locals else .plain))
  | .lambda => some (p.as (if c.role == some .parameters then .locals else .plain))
  | .formalParameters =>
    match p.sense with
    | .locals => if c.kind == .formalParameter then some p else none
    | .components => some p.plain
    | _ => if c.kind == .receiverParameter then none else some p.plain
  | .spreadParameter => if c.kind == .variableDeclarator then none else some p.plain
  | .methodInvocation => some (p.as (if c.role == some .arguments then .call else .plain))
  | .methodDeclaration | .constructorDeclaration | .compactConstructor =>
    if c.role == some .parameters || c.role == some .body then
      some (p.within ((ctx.unit.methods.get? n.start).map fun (owner, m) => m.signature owner))
    else some p.plain
  | .fieldDeclaration | .constantDeclaration =>
    if c.role == some .declarator then some (p.initializer (p.holdsStatic ctx n))
    else some p.plain
  | .staticInitializer => some (p.initializer true)
  | .classBody | .interfaceBody | .annotationTypeBody | .enumBody | .enumBodyDeclarations =>
    if c.kind == .block then some (p.initializer false) else some p.plain
  | .enumConstant =>
    if c.role == some .arguments then some (p.initializer true)
    else if c.role == some .body then p.anonymous ctx c
    else some p.plain
  | .objectCreation => if c.kind == .classBody then p.anonymous ctx c else some p.plain
  | .recordDeclaration =>
    if c.role == some .parameters then some (p.as .components)
    else if c.role == some .body then (ctx.unit.types.get? n.start).map p.inType
    else some p.plain
  | .classDeclaration | .interfaceDeclaration | .enumDeclaration | .annotationTypeDeclaration =>
    if c.role == some .body then (ctx.unit.types.get? n.start).map p.inType else some p.plain
  | .arrayCreation => if c.role.isSome then some p.plain else none
  | _ => some p.plain

/-- Whether a child waits for the children after it that do not wait. -/
def waits : Bool :=
  match n.kind with
  | .enhancedFor | .variableDeclarator => c.role != some .value
  | .resource => c.role == some .name
  | .argumentList => p.sense == .call && c.kind == .lambda
  | .methodDeclaration | .constructorDeclaration | .compactConstructor => !c.kind.isMark
  | _ => false

end Around

/-- Whether a child may be the name of a local variable that its parent declares. -/
def Node.mayName (n c : Node) : Bool :=
  match n.kind with
  | .variableDeclarator | .formalParameter | .enhancedFor | .catchParameter | .resource
  | .instanceofExpression => c.role == some .name
  | .lambda => c.role == some .parameters && c.kind == .identifier
  | .inferredParameters | .typePattern | .recordPatternComponent => c.kind == .identifier
  | _ => false

mutual

/-- Whether there are names of local variables in a tree. -/
def Node.holdsNames : Node → Bool
  | .mk kind role span text children =>
    children.any (Node.mayName (.mk kind role span text children)) || Node.holdNames children

def Node.holdNames : List Node → Bool
  | [] => false
  | c :: rest => c.holdsNames || Node.holdNames rest

end

/-- Whether a child is the name of a local variable that its parent declares. Declarators and
parameters do not tell it by themselves. -/
def Around.names (p : Around) (n c : Node) : Bool :=
  n.mayName c &&
    (p.sense == .locals || !(n.kind == .variableDeclarator || n.kind == .formalParameter))

/-! ## Names -/

/-- A name that declares a local variable, with the method that the variable belongs to. -/
structure LocalName where
  method : Signature
  name : Node

/-- A name in a method whose signature is known. -/
def LocalName.of (host : Option (Option Signature)) (name : Node) : List LocalName :=
  match host with
  | some (some method) => [⟨method, name⟩]
  | _ => []

namespace Node

variable (ctx : BindingContext)

mutual

/-- The names that declare local variables in a tree, in the order in which a walk comes to them.
Types without a binary name are not walked. -/
def locals (p : Around) : Node → List LocalName
  | .mk kind role span text children =>
    if kind.isMute || kind.isTypeDeclaration && (ctx.unit.types.get? span.start).isNone then []
    else
      let found := localsIn p (.mk kind role span text children) children
      (found.filter (!·.1)).flatMap Prod.snd ++ (found.filter (·.1)).flatMap Prod.snd

/-- The names in some children of a node, for each child with whether it waits. -/
def localsIn (p : Around) (n : Node) : List Node → List (Bool × List LocalName)
  | [] => []
  | c :: rest =>
    let found :=
      if p.names n c then LocalName.of p.host c
      else
        match p.into ctx n c with
        | some q => locals q c
        | none => []
    (p.waits n c, found) :: localsIn p n rest

end

end Node

/-- The names in a child of a node. -/
def Around.found (ctx : BindingContext) (p : Around) (n c : Node) : List LocalName :=
  if p.names n c then LocalName.of p.host c
  else
    match p.into ctx n c with
    | some q => c.locals ctx q
    | none => []

/-- The children of a node in the order in which they are walked. -/
def Around.walked (p : Around) (n : Node) (children : List Node) : List Node :=
  children.filter (!p.waits n ·) ++ children.filter (p.waits n ·)

namespace Node

variable {ctx : BindingContext} {p : Around} {n : Node}

theorem localsIn_eq (children : List Node) : localsIn ctx p n children =
    children.map fun c => (p.waits n c, p.found ctx n c) := by
  induction children with
  | nil => rfl
  | cons c rest ih => rw [localsIn, ih, List.map_cons, Around.found]

theorem locals_of_isMute (h : n.kind.isMute = true) : n.locals ctx p = [] := by
  cases n
  rw [locals, if_pos]
  exact Bool.or_eq_true_iff.2 (.inl h)

/-- Types without a binary name are not walked. -/
theorem locals_of_unregistered (hkind : n.kind.isTypeDeclaration = true)
    (h : ctx.unit.types.get? n.start = none) : n.locals ctx p = [] := by
  cases n
  rw [locals, if_pos]
  simp only [Bool.or_eq_true, Bool.and_eq_true, Option.isNone_iff_eq_none]
  exact .inr ⟨hkind, h⟩

theorem locals_eq (hmute : n.kind.isMute = false)
    (htype : n.kind.isTypeDeclaration = true → ctx.unit.types.get? n.start ≠ none) :
    n.locals ctx p = (p.walked n n.children).flatMap (p.found ctx n) := by
  obtain ⟨kind, role, span, text, children⟩ := n
  have hwalked : ¬(kind.isMute || kind.isTypeDeclaration &&
      (ctx.unit.types.get? span.start).isNone) = true := by
    simp only [Bool.or_eq_true, Bool.and_eq_true, Option.isNone_iff_eq_none, not_or, not_and]
    exact ⟨ne_true_of_eq_false hmute, htype⟩
  rw [locals, if_neg hwalked]
  dsimp only
  rw [localsIn_eq, List.filter_map, List.filter_map, List.flatMap_map, List.flatMap_map,
    ← List.flatMap_append]
  rfl

theorem found_of_names {c : Node} (h : p.names n c = true) :
    p.found ctx n c = LocalName.of p.host c := if_pos h

theorem found_of_into {c : Node} {q : Around} (hnames : p.names n c = false)
    (h : p.into ctx n c = some q) : p.found ctx n c = c.locals ctx q := by
  rw [Around.found, hnames, if_neg Bool.false_ne_true, h]

theorem found_eq_into {c : Node} (hnames : p.names n c = false) :
    p.found ctx n c = ((p.into ctx n c).map (c.locals ctx)).getD [] := by
  rw [Around.found, hnames, if_neg Bool.false_ne_true]
  cases p.into ctx n c <;> rfl

theorem found_of_into_none {c : Node} (hnames : p.names n c = false)
    (h : p.into ctx n c = none) : p.found ctx n c = [] := by
  rw [Around.found, hnames, if_neg Bool.false_ne_true, h]

theorem found_of_isPlain {c : Node} (h : n.kind.isPlain = true) :
    p.found ctx n c = c.locals ctx p.plain := by
  obtain ⟨kind, role, span, text, children⟩ := n
  cases kind <;> first | rfl | cases h

theorem not_waits_of_isPlain {c : Node} (h : n.kind.isPlain = true) : p.waits n c = false := by
  obtain ⟨kind, role, span, text, children⟩ := n
  cases kind <;> first | rfl | cases h

theorem walked_of_not_waits (h : ∀ c, p.waits n c = false) (children : List Node) :
    p.walked n children = children := by
  rw [Around.walked, List.filter_eq_self.2 (by simp [h]), List.filter_eq_nil_iff.2 (by simp [h]),
    List.append_nil]

theorem holdNames_eq (children : List Node) :
    holdNames children = children.any holdsNames := by
  induction children with
  | nil => rfl
  | cons c rest ih => rw [holdNames, ih, List.any_cons]

theorem holdsNames_eq_false (h : n.holdsNames = false) :
    ∀ c ∈ n.children, n.mayName c = false ∧ c.holdsNames = false := by
  obtain ⟨kind, role, span, text, children⟩ := n
  rw [holdsNames, holdNames_eq, Bool.or_eq_false_iff, List.any_eq_false, List.any_eq_false] at h
  exact fun c hc => ⟨Bool.eq_false_iff.2 (h.1 c hc), Bool.eq_false_iff.2 (h.2 c hc)⟩

/-- Where no names are, none declare a variable. -/
theorem locals_of_not_holdsNames {n : Node} {p : Around} (h : n.holdsNames = false) :
    n.locals ctx p = [] := by
  cases hmute : n.kind.isMute with
  | true => exact locals_of_isMute hmute
  | false =>
    by_cases htype : n.kind.isTypeDeclaration = true ∧ ctx.unit.types.get? n.start = none
    · exact locals_of_unregistered htype.1 htype.2
    · rw [locals_eq hmute fun hkind hnone => htype ⟨hkind, hnone⟩, List.flatMap_eq_nil_iff]
      intro c hc
      have hchild : c ∈ n.children := by
        rcases List.mem_append.1 hc with hc | hc <;> exact (List.mem_filter.1 hc).1
      obtain ⟨hname, hbelow⟩ := holdsNames_eq_false h c hchild
      have hnames : p.names n c = false := by rw [Around.names, hname, Bool.false_and]
      rw [found_eq_into hnames]
      cases p.into ctx n c with
      | none => rfl
      | some q => exact locals_of_not_holdsNames hbelow
termination_by n.height
decreasing_by exact height_lt hchild

theorem isMute_eq_false_of_isPlain {k : NodeKind} (h : k.isPlain = true) :
    k.isMute = false ∧ k.isTypeDeclaration = false := by
  cases k <;> first | exact ⟨rfl, rfl⟩ | cases h

theorem locals_of_isPlain (h : n.kind.isPlain = true) :
    n.locals ctx p = n.children.flatMap (·.locals ctx p.plain) := by
  obtain ⟨hmute, htype⟩ := isMute_eq_false_of_isPlain h
  have hfound : p.found ctx n = (·.locals ctx p.plain) := funext fun _ => found_of_isPlain h
  rw [locals_eq hmute (by simp [htype]), walked_of_not_waits fun _ => not_waits_of_isPlain h,
    hfound]

end Node

/-! ## Layout -/

namespace NodeKind

/-- Kinds of nodes that are walked as expressions. -/
def isValue : NodeKind → Bool
  | token | identifier | scopedIdentifier | this | super | trueLiteral | falseLiteral
  | nullLiteral | classLiteral | fieldAccess | methodInvocation | objectCreation | parenthesized
  | updateExpression | binaryExpression | unaryExpression | assignment | castExpression
  | instanceofExpression | conditional | arrayAccess | arrayCreation | arrayInitializer | lambda
  | methodReference | switchExpression | templateExpression | elementList | elementPair
  | elementArray | packageDeclaration | importDeclaration | moduleDeclaration | moduleBody
  | moduleDirective | requiresModifier | asterisk => true
  | k => k.isComment || k.isType || k.isLiteral || k.isAnnotated

/-- Kinds of nodes of which all children are walked, whatever they are. -/
def isLoose : NodeKind → Bool
  | templateExpression | elementList | elementPair | elementArray | packageDeclaration
  | importDeclaration | moduleDeclaration | moduleBody | moduleDirective | requiresModifier
  | asterisk | scopedIdentifier | token => true
  | k => k.isComment || k.isAnnotated

/-- Kinds of nodes that are walked as statements, or else as expressions. -/
def isStep (k : NodeKind) : Bool := k.isStatement || k.isValue

/-- Kinds of nodes that stand in a block. -/
def isInBlock : NodeKind → Bool
  | constructorBody | explicitConstructorCall => true
  | k => k.isStep

def isPattern : NodeKind → Bool
  | pattern | typePattern | recordPattern | recordPatternBody | recordPatternComponent
  | identifier | underscorePattern => true
  | k => k.isComment || k.isType

def isMember : NodeKind → Bool
  | fieldDeclaration | constantDeclaration | staticInitializer | block | enumConstant
  | enumBodyDeclarations | annotationElement => true
  | k => k.isMethod || k.isTypeDeclaration || k.isComment

end NodeKind

/-- A part of a node, and the test that it has to pass. -/
abbrev Slot := Node × (Node → Bool)

namespace Node

variable (n : Node)

/-- The children that may declare local variables, or hold names that do. -/
def matters (c : Node) : Bool := !c.kind.isMute || n.mayName c

def isMark (c : Node) : Bool := c.kind.isMark && c.role.isNone

/-- A value that an element of an annotation may have by default. An annotation is walked twice
there. -/
def isDefault (c : Node) : Bool := c.kind.isValue && !(c.kind.isAnnotated && c.holdsNames)

def marks : List Node := n.namedChildren.filter (·.kind.isMark)

def slots (nodes : List Node) (test : NodeKind → Bool) : List Slot :=
  nodes.map fun c => (c, fun c => test c.kind)

def oneAs (role : Role) (test : NodeKind → Bool) : List Slot := slots (n.child? role).toList test

def manyAs (role : Role) (test : NodeKind → Bool) : List Slot := slots (n.childrenIn role) test

def marksFirst : List Slot := n.marks.map fun c => (c, isMark)

def all (test : NodeKind → Bool) : List Slot := slots n.namedChildren test

/-- The sizes of a new array, which has either sizes or elements. -/
def sizes : List Slot :=
  if (n.child? .value).isSome then []
  else n.manyAs .dimensions fun k => k == .dimensionsExpression || k == .dimensions

/-- The components of a record. -/
def componentList : List Slot :=
  if n.kind == .recordDeclaration then n.oneAs .parameters (· == .formalParameters) else []

/-- The parts of a node as the grammar lays them out, by roles where it gives them roles. -/
def layout : List Slot :=
  match n.kind with
  | .block | .constructorBody => n.all NodeKind.isInBlock
  | .labeledStatement => n.all NodeKind.isInBlock
  | .breakStatement | .continueStatement => []
  | .expressionStatement | .parenthesized | .updateExpression | .argumentList | .arrayInitializer
  | .dimensionsExpression | .guard => n.all NodeKind.isValue
  | .tryStatement | .finallyClause | .whileStatement | .doStatement | .returnStatement
  | .throwStatement | .yieldStatement | .synchronizedStatement | .assertStatement =>
    n.all NodeKind.isStep
  | .elementPair => n.oneAs .value NodeKind.isValue
  | .localVariables => n.marksFirst ++ n.manyAs .declarator (· == .variableDeclarator)
  | .variableDeclarator => n.oneAs .name NodeKind.isName ++ n.oneAs .value NodeKind.isValue
  | .ifStatement =>
    n.oneAs .condition NodeKind.isValue ++ n.oneAs .consequence NodeKind.isInBlock ++
      n.oneAs .alternative NodeKind.isInBlock
  | .forStatement =>
    n.manyAs .init NodeKind.isInBlock ++ n.oneAs .condition NodeKind.isValue ++
      n.manyAs .update NodeKind.isValue ++ n.oneAs .body NodeKind.isInBlock
  | .enhancedFor =>
    n.marksFirst ++ n.oneAs .name NodeKind.isName ++ n.oneAs .value NodeKind.isValue ++
      n.oneAs .body NodeKind.isInBlock
  | .catchClause =>
    slots (n.childOfKind? .catchParameter).toList (fun _ => true) ++
      n.oneAs .body NodeKind.isInBlock
  | .catchParameter => n.marksFirst ++ n.oneAs .name NodeKind.isName
  | .tryWithResources => n.all fun k => k == .resourceSpecification || k.isInBlock
  | .resourceSpecification => n.all fun k => k == .resource || k.isValue
  | .resource =>
    if (n.child? .name).isSome then
      n.marksFirst ++ n.oneAs .name NodeKind.isName ++ n.oneAs .value NodeKind.isValue
    else n.all NodeKind.isValue
  | .explicitConstructorCall =>
    n.oneAs .object NodeKind.isValue ++ n.oneAs .arguments (· == .argumentList)
  | .lambda =>
    n.oneAs .parameters (fun k =>
      k == .identifier || k == .inferredParameters || k == .formalParameters) ++
      n.oneAs .body (fun k => k == .block || k.isValue)
  | .inferredParameters => slots (n.namedChildren.filter (·.kind == .identifier)) fun _ => true
  | .formalParameters => n.all fun k => k.isParameter || k.isComment
  | .formalParameter => n.marksFirst ++ n.oneAs .name NodeKind.isName
  | .receiverParameter => n.marksFirst
  | .spreadParameter =>
    n.marksFirst ++ slots (n.childOfKind? .variableDeclarator).toList fun _ => true
  | .methodInvocation =>
    if (n.child? .name).isSome then
      n.oneAs .object NodeKind.isValue ++ n.oneAs .arguments (· == .argumentList)
    else []
  | .fieldAccess =>
    if (n.child? .field).isSome then n.oneAs .object NodeKind.isValue else []
  | .objectCreation =>
    slots ((n.namedChildren.takeWhile (·.role != some .type)).filter (·.kind != .typeArguments))
        NodeKind.isValue ++
      n.oneAs .arguments (· == .argumentList) ++
      slots (n.childOfKind? .classBody).toList fun _ => true
  | .arrayCreation =>
    n.marksFirst ++ n.sizes ++ n.oneAs .value NodeKind.isValue
  | .binaryExpression | .assignment =>
    n.oneAs .left NodeKind.isValue ++ n.oneAs .right NodeKind.isValue
  | .unaryExpression => n.oneAs .operand NodeKind.isValue
  | .castExpression => n.oneAs .value NodeKind.isValue
  | .instanceofExpression =>
    n.oneAs .left NodeKind.isValue ++ n.oneAs .name NodeKind.isName ++
      n.oneAs .pattern NodeKind.isPattern
  | .conditional =>
    n.oneAs .condition NodeKind.isValue ++ n.oneAs .consequence NodeKind.isValue ++
      n.oneAs .alternative NodeKind.isValue
  | .arrayAccess => n.oneAs .array NodeKind.isValue ++ n.oneAs .index NodeKind.isValue
  | .methodReference => slots n.namedChildren.head?.toList NodeKind.isValue
  | .switchExpression =>
    n.oneAs .condition NodeKind.isValue ++ n.oneAs .body (· == .switchBlock)
  | .switchBlock => n.all fun k => k == .switchGroup || k == .switchRule || k.isComment
  | .switchGroup | .switchRule => n.all fun k => k == .switchLabel || k.isStep
  | .switchLabel => n.all fun k =>
    k == .guard || k == .pattern || k == .typePattern || k == .recordPattern || k.isValue
  | .pattern | .recordPatternBody | .recordPattern => n.all NodeKind.isPattern
  | .typePattern | .recordPatternComponent =>
    slots (n.namedChildren.reverse.find? (·.kind == .identifier)).toList fun _ => true
  | .markerAnnotated | .fullyAnnotated =>
    if (n.child? .name).isSome then n.oneAs .arguments (· == .elementList) else []
  | .modifiers => slots (n.namedChildren.filter (·.kind.isAnnotated)) fun _ => true
  | .typeParameters => n.all fun k => k == .typeParameter || k.isComment
  | .typeParameter => n.marksFirst
  | .methodDeclaration | .constructorDeclaration | .compactConstructor =>
    (n.namedChildren.filter (·.kind == .modifiers)).map (fun c => (c, isMark)) ++
      n.oneAs .typeParameters (· == .typeParameters) ++
      (n.namedChildren.filter (·.kind.isAnnotated)).map (fun c => (c, isMark)) ++
      n.oneAs .parameters (· == .formalParameters) ++
      n.oneAs .body fun k => k == .block || k == .constructorBody
  | .fieldDeclaration | .constantDeclaration =>
    n.marksFirst ++ n.manyAs .declarator (· == .variableDeclarator)
  | .enumConstant =>
    n.marksFirst ++ n.oneAs .arguments (· == .argumentList) ++ n.oneAs .body (· == .classBody)
  | .annotationElement =>
    (n.namedChildren.filter (·.kind == .modifiers)).map (fun c => (c, isMark)) ++
      (n.child? .value).toList.map fun c => (c, isDefault)
  | .staticInitializer => slots (n.childOfKind? .block).toList fun _ => true
  | .classBody | .interfaceBody | .annotationTypeBody | .enumBody | .enumBodyDeclarations =>
    n.all NodeKind.isMember
  | .classDeclaration | .interfaceDeclaration | .enumDeclaration | .recordDeclaration
  | .annotationTypeDeclaration =>
    n.marksFirst ++ n.oneAs .typeParameters (· == .typeParameters) ++ n.componentList ++
      n.oneAs .body fun k => k.holdsMembers || k == .enumBody
  | _ => n.all fun _ => true

/-- A node that is laid out as the grammar has it. -/
@[mk_iff] structure Arranged : Prop where
  parts : n.children.filter n.matters = (n.layout.map Prod.fst).filter n.matters
  fits : ∀ e ∈ n.layout, e.2 e.1 = true
  loose : n.kind.isLoose = true → ∀ c ∈ n.namedChildren,
    c.kind.isValue = true ∧ (n.kind.isMute = true → c.kind.isMute = true)
  valued : n.kind.isValue = true → (n.child? .value).isSome = true →
    n.kind = .castExpression ∨ n.kind = .arrayCreation ∨ n.kind = .elementPair

/-- A tree of such nodes. -/
def LaidOut : Prop := ∀ m, n.Below m → m.Arranged

variable {ctx : BindingContext} {p : Around} {n c : Node}

mutual

private def decEq : (n m : Node) → Decidable (n = m)
  | .mk kind role span text children, .mk kind' role' span' text' children' =>
    have := decEqAll children children'
    decidable_of_iff (kind = kind' ∧ role = role' ∧ span = span' ∧ text = text' ∧
      children = children') (by simp)

private def decEqAll : (ns ms : List Node) → Decidable (ns = ms)
  | [], [] => isTrue rfl
  | [], _ :: _ => isFalse nofun
  | _ :: _, [] => isFalse nofun
  | n :: ns, m :: ms =>
    have := decEq n m
    have := decEqAll ns ms
    decidable_of_iff (n = m ∧ ns = ms) (by simp)

end

instance : DecidableEq Node := decEq

instance : Decidable n.Arranged := decidable_of_iff _ (arranged_iff n).symm

theorem laidOut_iff : n.LaidOut ↔ n.Arranged ∧ ∀ c ∈ n.children, c.LaidOut := by
  refine ⟨fun h => ⟨h n .self, fun c hc m hm => h m (.down hc hm)⟩, ?_⟩
  rintro ⟨hself, hchildren⟩ m (_ | ⟨hc, hm⟩)
  · exact hself
  · exact hchildren _ hc m hm

mutual

private def decLaidOut : (n : Node) → Decidable n.LaidOut
  | .mk kind role span text children =>
    have := decLaidOutAll children
    decidable_of_iff ((mk kind role span text children).Arranged ∧ ∀ c ∈ children, c.LaidOut)
      laidOut_iff.symm

private def decLaidOutAll : (ns : List Node) → Decidable (∀ c ∈ ns, c.LaidOut)
  | [] => isTrue nofun
  | c :: rest =>
    have := decLaidOut c
    have := decLaidOutAll rest
    decidable_of_iff (c.LaidOut ∧ ∀ d ∈ rest, d.LaidOut) List.forall_mem_cons.symm

end

instance : Decidable n.LaidOut := decLaidOut n

/-- What stands in front of a declaration declares nothing itself. -/
theorem found_of_isMark (hkind : n.kind.isMarked = true) (h : c.isMark = true) :
    p.found ctx n c = c.locals ctx p.plain := by
  obtain ⟨hmark, hrole⟩ := Bool.and_eq_true_iff.1 h
  rw [Option.isNone_iff_eq_none] at hrole
  have hnames : p.names n c = false := by
    have hname : n.mayName c = false := by
      unfold mayName
      rcases NodeKind.isMark_cases hmark with hc | hc | hc <;> split <;> simp [hrole, hc]
    rw [Around.names, hname, Bool.false_and]
  refine found_of_into hnames ?_
  obtain ⟨kind', role', span', text', children'⟩ := c
  cases hrole
  rcases NodeKind.isMark_cases hmark with rfl | rfl | rfl <;> unfold Around.into <;> split <;>
    first
    | rfl
    | (rw [‹n.kind = _›] at hkind; cases hkind)

theorem found_of_not_matters (h : n.matters c = false) : p.found ctx n c = [] := by
  simp only [matters, Bool.or_eq_false_iff, Bool.not_eq_false'] at h
  rw [Around.found, Around.names, h.2, Bool.false_and, if_neg Bool.false_ne_true]
  cases p.into ctx n c with
  | none => rfl
  | some q => exact locals_of_isMute h.1

theorem flatMap_filter {α β : Type} (test : α → Bool) (f : α → List β) (l : List α) :
    (l.filter test).flatMap f = l.flatMap fun a => if test a then f a else [] := by
  induction l with
  | nil => rfl
  | cons a rest ih =>
    rw [List.flatMap_cons, ← ih, List.filter_cons]
    split <;> rfl

theorem flatMap_filter_of_nil {α β : Type} {test : α → Bool} {f : α → List β} {l : List α}
    (h : ∀ a, test a = false → f a = []) : (l.filter test).flatMap f = l.flatMap f := by
  rw [flatMap_filter]
  refine List.flatMap_congr fun a _ => ?_
  cases ha : test a with
  | true => rfl
  | false => exact (h a ha).symm

theorem LaidOut.child (h : n.LaidOut) (hc : c ∈ n.children) : c.LaidOut :=
  fun m hm => h m (.down hc hm)

theorem LaidOut.arranged (h : n.LaidOut) : n.Arranged := h n .self

/-- Names are found in the parts of a node only. -/
theorem Arranged.flatMap_parts (h : n.Arranged) (test : Node → Bool) :
    (n.children.filter test).flatMap (p.found ctx n) =
      ((n.layout.map Prod.fst).filter test).flatMap (p.found ctx n) := by
  rw [← flatMap_filter_of_nil fun c => found_of_not_matters (c := c),
    ← flatMap_filter_of_nil (l := List.filter test (n.layout.map Prod.fst))
      fun c => found_of_not_matters (c := c),
    List.filter_filter, List.filter_filter]
  simp only [Bool.and_comm (n.matters _)]
  rw [← List.filter_filter, ← List.filter_filter, h.parts]

/-- The parts of a node are walked as the grammar lays them out, but for those that wait. -/
theorem Arranged.locals_eq (h : n.Arranged) (hmute : n.kind.isMute = false)
    (htype : n.kind.isTypeDeclaration = true → ctx.unit.types.get? n.start ≠ none) :
    n.locals ctx p = (p.walked n (n.layout.map Prod.fst)).flatMap (p.found ctx n) := by
  rw [Node.locals_eq hmute htype, Around.walked, Around.walked, List.flatMap_append,
    List.flatMap_append, h.flatMap_parts, h.flatMap_parts]

theorem Arranged.locals_eq_layout (h : n.Arranged) (hmute : n.kind.isMute = false)
    (htype : n.kind.isTypeDeclaration = false) (hwaits : ∀ c, p.waits n c = false) :
    n.locals ctx p = n.layout.flatMap (p.found ctx n ·.1) := by
  rw [h.locals_eq hmute (by simp [htype]), walked_of_not_waits hwaits, List.flatMap_map]

theorem Arranged.locals_of_isPlain (h : n.Arranged) (hkind : n.kind.isPlain = true) :
    n.locals ctx p = n.layout.flatMap (·.1.locals ctx p.plain) := by
  obtain ⟨hmute, htype⟩ := isMute_eq_false_of_isPlain hkind
  have hfound : p.found ctx n = (·.locals ctx p.plain) := funext fun _ => found_of_isPlain hkind
  rw [h.locals_eq_layout hmute htype fun _ => not_waits_of_isPlain hkind, hfound]

end Node

end Renaming.Java
