import Renaming.Symbol

/-!
# Occurrences and diagnostics

A span is a half-open range of character offsets in one unit. An occurrence is a name at a span,
bound to a symbol; its fallbacks are the symbols to ask about when the first one has no new name. A
diagnostic is what the binding of names has to say about a place in a unit.
-/

namespace Renaming

structure Span where
  start : Nat
  stop : Nat
  deriving DecidableEq, Repr, Inhabited

namespace Span

def length (s : Span) : Nat := s.stop - s.start

def isEmpty (s : Span) : Bool := s.start == s.stop

/-- Spans that only touch do not overlap. -/
def overlaps (s t : Span) : Bool := s.start < t.stop && t.start < s.stop

/-- The order by start, then by end. -/
def precedes (s t : Span) : Bool :=
  s.start < t.start || (s.start == t.start && s.stop < t.stop)

def text (s : Span) : String := "[" ++ toString s.start ++ ", " ++ toString s.stop ++ ")"

end Span

structure Occurrence where
  span : Span
  signature : Signature
  kind : SymbolKind
  fallbacks : List Signature := []
  deriving DecidableEq, Repr, Inhabited

namespace Occurrence

/-- Whether an occurrence may directly follow one at `previous` in a range map. -/
def follows (o : Occurrence) (previous : Span) : Bool :=
  previous.start < o.span.start && !o.span.overlaps previous && previous.stop ≤ o.span.start

def signatures (o : Occurrence) : List Signature := o.signature :: o.fallbacks

end Occurrence

/-! ## Diagnostics -/

inductive DiagnosticKind where
  | unresolved
  | ambiguous
  | parse
  | overlap
  deriving DecidableEq, Repr

def DiagnosticKind.text : DiagnosticKind → String
  | unresolved => "unresolved"
  | ambiguous => "ambiguous"
  | parse => "parse"
  | overlap => "overlap"

structure Diagnostic where
  unit : String
  offset : Nat
  kind : DiagnosticKind
  message : String
  deriving DecidableEq, Repr

def Diagnostic.line (d : Diagnostic) : String :=
  d.unit ++ ":" ++ toString d.offset ++ ": " ++ d.kind.text ++ ": " ++ d.message

end Renaming
