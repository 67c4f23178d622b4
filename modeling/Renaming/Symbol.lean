import Renaming.Descriptor

/-!
# Symbols

A declaration is identified by its signature, a text that depends on nothing but the declaration:
the binary name of a type, `Owner.name` for a field, `Owner.name` and a descriptor for a method,
`Method#index` for a parameter and `Method@name:ordinal` for a local variable.
-/

namespace Renaming

/-- What a name in source text refers to. -/
inductive SymbolKind where
  | type
  | field
  | method
  | parameter
  | localVariable
  deriving DecidableEq, Repr, Inhabited

namespace SymbolKind

def text : SymbolKind → String
  | type => "type"
  | field => "field"
  | method => "method"
  | parameter => "parameter"
  | localVariable => "local"

def ofText? : String → Option SymbolKind
  | "type" => some type
  | "field" => some field
  | "method" => some method
  | "parameter" => some parameter
  | "local" => some localVariable
  | _ => none

@[simp] theorem ofText?_text (k : SymbolKind) : ofText? k.text = some k := by cases k <;> rfl

def unknownMessage (text : String) : String := "unknown occurrence kind '" ++ text ++ "'"

end SymbolKind

abbrev Signature := String

namespace Signature

def ofType (binary : String) : Signature := binary

def ofField (owner name : String) : Signature := owner ++ "." ++ name

def ofMethod (owner name : String) (descriptor : MethodDescriptor) : Signature :=
  owner ++ "." ++ name ++ descriptor.text

def ofParameter (method : Signature) (index : Nat) : Signature :=
  method ++ "#" ++ toString index

/-- The `ordinal` counts earlier locals of the same name in the same method. -/
def ofLocal (method : Signature) (name : String) (ordinal : Nat) : Signature :=
  method ++ "@" ++ name ++ ":" ++ toString ordinal

/-- The method and the index of a parameter signature. -/
def splitParameter (s : Signature) : Option (Signature × Nat) :=
  match Text.cutLast '#' s with
  | none => none
  | some (method, index) =>
    if !Text.containsChar '(' method || Text.containsChar '@' method then none
    else (Text.readOffset index).map fun i => (method, i)

end Signature

/-- The part of a binary name after its last package or nesting separator. -/
def simpleName (name : String) : String :=
  ((Text.cutLastP (fun c => c == '.' || c == '$') name).map Prod.snd).getD name

/-- The spelling of a binary name in source text. -/
def sourceName (binary : String) : String := Text.replaceChar '$' '.' binary

/-- The package of a binary name; it is empty for the unnamed package. -/
def packageOf (binary : String) : String := ((Text.cutLast '.' binary).map Prod.fst).getD ""

end Renaming
