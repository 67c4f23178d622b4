import Renaming.Java.Syntax.Token

/-!
# Syntax trees

Concrete trees: every token is a leaf, in the order of the text. Words, operators and punctuation
that only mark the construct they stand in are leaves of the kind `token`; all other nodes are
named.
Comments hang in the innermost node around them.
-/

namespace Renaming.Java

/-- A node has a kind, the role it plays in its parent, the characters it covers, the text of a
leaf, and children. -/
inductive Node where
  | mk (kind : NodeKind) (role : Option Role) (span : Span) (text : String) (children : List Node)
  deriving Inhabited

namespace Node

def kind : Node → NodeKind
  | mk kind .. => kind

def role : Node → Option Role
  | mk _ role .. => role

def span : Node → Span
  | mk _ _ span .. => span

def start (n : Node) : Nat := n.span.start

def stop (n : Node) : Nat := n.span.stop

/-- The text of a leaf. -/
def leafText : Node → String
  | mk _ _ _ text _ => text

def children : Node → List Node
  | mk _ _ _ _ children => children

/-- The node in a role. -/
def as (n : Node) (role : Role) : Node :=
  match n with
  | mk kind _ span text children => mk kind (some role) span text children

/-- The same node as another kind of leaf. -/
def ofKind (n : Node) (kind : NodeKind) : Node :=
  match n with
  | mk _ role span text children => mk kind role span text children

def leaf (kind : NodeKind) (t : Token) : Node := mk kind none t.span t.text []

/-- A node that covers its children. -/
def branch (kind : NodeKind) (children : List Node) : Node :=
  let start := (children.head?.map Node.start).getD 0
  let stop := (children.getLast?.map Node.stop).getD 0
  mk kind none ⟨start, stop⟩ "" children

def isNamed (n : Node) : Bool := n.kind != .token

def namedChildren (n : Node) : List Node := n.children.filter isNamed

/-- The first named child of a kind. -/
def childOfKind? (n : Node) (kind : NodeKind) : Option Node :=
  n.namedChildren.find? (·.kind == kind)

/-- The first child in a role. -/
def child? (n : Node) (role : Role) : Option Node := n.children.find? (·.role == some role)

/-- All children in a role. -/
def childrenIn (n : Node) (role : Role) : List Node := n.children.filter (·.role == some role)

/-- Whether the modifiers of a declaration contain a keyword. -/
def hasModifier (n : Node) (keyword : String) : Bool :=
  (n.childOfKind? .modifiers).any fun m =>
    m.children.any fun c => c.kind == .token && c.leafText == keyword

mutual

/-- How many nodes there are on the longest way down, the node itself included. -/
def height : Node → Nat
  | mk _ _ _ _ children => heightAll children + 1

def heightAll : List Node → Nat
  | [] => 0
  | c :: rest => max (height c) (heightAll rest)

end

/-! ## Errors -/

/-- Whether a leaf stands for a token that is missing in the text. The tree of a text without tokens
covers nothing either. -/
def isMissing (n : Node) : Bool :=
  n.children.isEmpty && n.start == n.stop && n.kind != .program

mutual

/-- The first node, in the order of the text, that is an error or stands for a missing token. -/
def firstError? : Node → Option Node
  | mk kind role span text children =>
    let n := mk kind role span text children
    if kind == .error || n.isMissing then some n else firstErrorIn? children

def firstErrorIn? : List Node → Option Node
  | [] => none
  | c :: rest => (firstError? c).or (firstErrorIn? rest)

end

/-! ## Comments -/

mutual

/-- Hangs comments into a tree, each into the innermost node around it. -/
def weave (comments : List Token) : Node → Node
  | mk kind role span text children =>
    mk kind role span text (weaveInto comments children)

/-- Children with the comments that stand before, in and after them. -/
def weaveInto (comments : List Token) : List Node → List Node
  | [] => comments.map ofComment
  | c :: rest =>
    let before := comments.filter fun t => t.span.stop ≤ c.start
    let inside := comments.filter fun t => c.start < t.span.start && t.span.stop < c.stop
    let after := comments.filter fun t => c.stop ≤ t.span.start
    before.map ofComment ++ weave inside c :: weaveInto after rest

def ofComment (t : Token) : Node :=
  leaf (match t.kind with | .comment kind => kind | _ => .token) t

end

end Node

/-- A text by its characters. -/
structure SourceText where
  chars : Array Char

namespace SourceText

def ofString (s : String) : SourceText := ⟨s.toList.toArray⟩

def slice (source : SourceText) (span : Span) : String :=
  String.ofList (source.chars.extract span.start span.stop).toList

/-- The text that a node covers. -/
def text (source : SourceText) (n : Node) : String := source.slice n.span

/-- How many dimensions a node of brackets has. -/
def dimensionCount (source : SourceText) (n : Option Node) : Nat :=
  match n with
  | none => 0
  | some n => (source.text n).toList.count '['

end SourceText

end Renaming.Java
