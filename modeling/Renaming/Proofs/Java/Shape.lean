import Renaming.Java.Syntax.Node

/-!
# The shape of nodes

What a node promises of its children, by the kinds and roles that can be seen of them: names are
single words, types have names, parameters and fields have types, and a declaration opens with
something that is no declaration itself. Comments and errors hang between the parts of a node and
count for none of this.
-/

namespace Renaming.Java

namespace NodeKind

def isLiteral : NodeKind → Bool
  | decimalInteger | hexInteger | octalInteger | binaryInteger | decimalFloat | hexFloat
  | characterLiteral | stringLiteral => true
  | _ => false

/-- Leaves that a declaration may give a name with. -/
def isName : NodeKind → Bool
  | identifier | underscorePattern => true
  | _ => false

/-- Kinds of nodes that are found again by where they start. -/
def isDeclaration : NodeKind → Bool
  | classBody | methodDeclaration | constructorDeclaration | compactConstructor => true
  | k => k.isTypeDeclaration

/-- Types that are no annotated types. -/
def isPlainType (k : NodeKind) : Bool := k.isType && k != annotatedType

/-- Kinds that a declaration may start with. -/
def isOpening : NodeKind → Bool
  | token | identifier | modifiers | markerAnnotated | fullyAnnotated | typeParameters => true
  | k => k.isPlainType

/-- Kinds of parameters in a list of parameters. -/
def isParameter : NodeKind → Bool
  | formalParameter | spreadParameter | receiverParameter => true
  | _ => false

/-- Kinds whose parts may be named by single words only. -/
def namesParts : NodeKind → Bool
  | methodInvocation | methodDeclaration | constructorDeclaration | compactConstructor
  | annotationElement | enumConstant | variableDeclarator | formalParameter | enhancedFor
  | catchParameter | resource | instanceofExpression => true
  | _ => false

/-- Kinds that always have a type of their own. -/
def isTyped : NodeKind → Bool
  | formalParameter | fieldDeclaration | constantDeclaration => true
  | _ => false

variable {k : NodeKind}

theorem isComment_cases (h : k.isComment = true) : k = lineComment ∨ k = blockComment := by
  simpa [isComment] using h

theorem isAnnotated_cases (h : k.isAnnotated = true) :
    k = markerAnnotated ∨ k = fullyAnnotated := by
  simpa [isAnnotated] using h

theorem isParameter_cases (h : k.isParameter = true) :
    k = formalParameter ∨ k = spreadParameter ∨ k = receiverParameter := by
  unfold isParameter at h
  split at h <;> simp at h ⊢

theorem holdsMembers_cases (h : k.holdsMembers = true) :
    k = classBody ∨ k = interfaceBody ∨ k = enumBodyDeclarations ∨ k = annotationTypeBody := by
  unfold holdsMembers at h
  split at h <;> simp at h ⊢

theorem isTypeDeclaration_cases (h : k.isTypeDeclaration = true) :
    k = classDeclaration ∨ k = interfaceDeclaration ∨ k = enumDeclaration ∨
      k = recordDeclaration ∨ k = annotationTypeDeclaration := by
  unfold isTypeDeclaration at h
  split at h <;> simp at h ⊢

theorem not_isDeclaration_of_isOpening (h : k.isOpening = true) : k.isDeclaration = false := by
  cases k <;> first | rfl | cases h

end NodeKind

/-- What can be seen of a node from outside. -/
structure Part where
  kind : NodeKind
  role : Option Role
  span : Span

def Node.part (n : Node) : Part := ⟨n.kind, n.role, n.span⟩

/-- What a kind of node may promise of its parts. -/
inductive Promise where
  | opening
  | named
  | titled
  | typed
  | spread
  | nameless
  | listed
  | record
  | bodied
  | unlisted
  | accessed
  | flat

namespace Promise

def all : List Promise :=
  [opening, named, titled, typed, spread, nameless, listed, record, bodied, unlisted, accessed,
    flat]

/-- Whether nodes of a kind make a promise. -/
def isMadeBy (kind : NodeKind) : Promise → Bool
  | opening => kind.isDeclaration || kind.isOpening
  | named => kind.namesParts
  | titled => kind.isTypeDeclaration
  | typed => kind.isTyped
  | spread => kind == .spreadParameter
  | nameless => kind == .spreadParameter || kind == .receiverParameter || kind == .error
  | listed => kind == .formalParameters
  | record => kind == .recordDeclaration
  | bodied => kind == .recordDeclaration || kind == .enumConstant
  | unlisted => kind == .compactConstructor
  | accessed => kind == .fieldAccess
  | flat => kind == .enumBodyDeclarations

/-- Whether the parts of a node keep a promise. -/
def Kept (parts : List Part) : Promise → Prop
  | opening => ∀ first ∈ parts.head?, first.kind.isOpening = true
  | named => ∀ p ∈ parts, p.role = some .name → p.kind.isName = true
  | titled => (∃ p ∈ parts, p.role = some .name) ∧
      ∀ p ∈ parts, p.role = some .name → p.kind.isName = true
  | typed => ∃ p ∈ parts, p.role = some .type ∧ p.kind.isType = true
  | spread => ∃ p ∈ parts, p.kind.isType = true
  | nameless => ∀ p ∈ parts, p.role ≠ some .name
  | listed => ∀ p ∈ parts, p.kind ≠ .token → p.kind.isParameter = true
  | record => ∀ p ∈ parts, p.role = some .parameters → p.kind = .formalParameters
  | bodied => ∀ p ∈ parts, p.role = some .body → p.kind = .classBody
  | unlisted => ∀ p ∈ parts, p.role ≠ some .parameters
  | accessed => ∀ p ∈ parts.tail, p.role ≠ some .object
  | flat => ∀ p ∈ parts, p.kind ≠ .enumBodyDeclarations

instance (parts : List Part) (promise : Promise) : Decidable (promise.Kept parts) := by
  unfold Kept; split <;> infer_instance

theorem mem_all (promise : Promise) : promise ∈ all := by
  cases promise <;> simp [all]

end Promise

def NodeKind.promises (kind : NodeKind) : List Promise :=
  Promise.all.filter (Promise.isMadeBy kind)

/-- The parts of a node keep what its kind promises; most kinds promise nothing. -/
def Shape (kind : NodeKind) (parts : List Part) : Prop :=
  ∀ promise ∈ kind.promises, promise.Kept parts

instance (kind : NodeKind) (parts : List Part) : Decidable (Shape kind parts) :=
  inferInstanceAs (Decidable (∀ promise ∈ kind.promises, promise.Kept parts))

namespace Shape

variable {kind : NodeKind} {parts : List Part} {a b c d : Promise}

theorem none (hkind : kind.promises = []) : Shape kind parts := by
  rw [Shape, hkind]
  simp

theorem one (hkind : kind.promises = [a]) (ha : a.Kept parts) : Shape kind parts := by
  rw [Shape, hkind]
  simpa using ha

theorem two (hkind : kind.promises = [a, b]) (ha : a.Kept parts) (hb : b.Kept parts) :
    Shape kind parts := by
  rw [Shape, hkind]
  simpa using ⟨ha, hb⟩

theorem three (hkind : kind.promises = [a, b, c]) (ha : a.Kept parts) (hb : b.Kept parts)
    (hc : c.Kept parts) : Shape kind parts := by
  rw [Shape, hkind]
  simpa using ⟨ha, hb, hc⟩

theorem four (hkind : kind.promises = [a, b, c, d]) (ha : a.Kept parts) (hb : b.Kept parts)
    (hc : c.Kept parts) (hd : d.Kept parts) : Shape kind parts := by
  rw [Shape, hkind]
  simpa using ⟨ha, hb, hc, hd⟩

theorem kept (h : Shape kind parts) (hmade : a.isMadeBy kind = true) : a.Kept parts :=
  h a (List.mem_filter.2 ⟨a.mem_all, hmade⟩)

theorem opening (h : Shape kind parts)
    (hkind : kind.isDeclaration = true ∨ kind.isOpening = true) :
    ∀ first ∈ parts.head?, first.kind.isOpening = true :=
  h.kept (a := .opening) (Bool.or_eq_true_iff.2 hkind)

theorem named (h : Shape kind parts) (hkind : kind.namesParts = true) :
    ∀ p ∈ parts, p.role = some .name → p.kind.isName = true :=
  h.kept (a := .named) hkind

theorem titled (h : Shape kind parts) (hkind : kind.isTypeDeclaration = true) :
    (∃ p ∈ parts, p.role = some .name) ∧
      ∀ p ∈ parts, p.role = some .name → p.kind.isName = true :=
  h.kept (a := .titled) hkind

theorem typed (h : Shape kind parts) (hkind : kind.isTyped = true) :
    ∃ p ∈ parts, p.role = some .type ∧ p.kind.isType = true :=
  h.kept (a := .typed) hkind

theorem spread (h : Shape kind parts) (hkind : kind = .spreadParameter) :
    ∃ p ∈ parts, p.kind.isType = true :=
  h.kept (a := .spread) (beq_iff_eq.2 hkind)

theorem nameless (h : Shape kind parts)
    (hkind : kind = .spreadParameter ∨ kind = .receiverParameter ∨ kind = .error) :
    ∀ p ∈ parts, p.role ≠ some .name :=
  h.kept (a := .nameless) (by simpa [Promise.isMadeBy, or_assoc] using hkind)

theorem listed (h : Shape kind parts) (hkind : kind = .formalParameters) :
    ∀ p ∈ parts, p.kind ≠ .token → p.kind.isParameter = true :=
  h.kept (a := .listed) (beq_iff_eq.2 hkind)

theorem record (h : Shape kind parts) (hkind : kind = .recordDeclaration) :
    ∀ p ∈ parts, p.role = some .parameters → p.kind = .formalParameters :=
  h.kept (a := .record) (beq_iff_eq.2 hkind)

theorem bodied (h : Shape kind parts)
    (hkind : kind = .recordDeclaration ∨ kind = .enumConstant) :
    ∀ p ∈ parts, p.role = some .body → p.kind = .classBody :=
  h.kept (a := .bodied) (by simpa [Promise.isMadeBy] using hkind)

theorem unlisted (h : Shape kind parts) (hkind : kind = .compactConstructor) :
    ∀ p ∈ parts, p.role ≠ some .parameters :=
  h.kept (a := .unlisted) (beq_iff_eq.2 hkind)

theorem accessed (h : Shape kind parts) (hkind : kind = .fieldAccess) :
    ∀ p ∈ parts.tail, p.role ≠ some .object :=
  h.kept (a := .accessed) (beq_iff_eq.2 hkind)

theorem flat (h : Shape kind parts) (hkind : kind = .enumBodyDeclarations) :
    ∀ p ∈ parts, p.kind ≠ .enumBodyDeclarations :=
  h.kept (a := .flat) (beq_iff_eq.2 hkind)

end Shape

end Renaming.Java
