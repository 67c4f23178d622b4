import Renaming.Java.Binding.Declarations

/-!
# The names of a unit

The steps of the walk are tied together by a bound on how deep they nest. No step asks for more than
a few others on the same node before it goes down, so that the bound of `bindUnit` is never reached.
-/

namespace Renaming.Java

namespace Binding

/-- A step, given the steps inside it. -/
def ofTask (sub : Task → Binding Meaning) : Task → Binding Meaning
  | .expression n => return .value (← expressionType sub n)
  | .name n => nameOf sub n
  | .statement n => do statement sub n; return .done
  | .initializer n expected => return .value (← initializer sub n expected)
  | .lambda n params => return .value (← lambda sub n params)
  | .annotated n => do annotated sub n; return .done
  | .elementValue n => do elementValue sub n; return .done
  | .pattern n => do pattern sub n; return .done
  | .typeDeclaration n inBlock => do typeDeclaration sub n inBlock; return .done
  | .classBody n binary components => do classBody sub n binary components; return .done

/-- A step in which steps nest no deeper than `depth`. -/
def nested : Nat → Task → Binding Meaning
  | 0, _ => return .done
  | depth + 1, task => ofTask (nested depth) task

/-- The imports and the types of a unit; nothing else outside of types is bound. -/
def program (root : Node) : Binding Unit :=
  let depth := 4 * root.height
  root.namedChildren.forM fun c => do
    if c.kind == .importDeclaration then importDeclaration c
    else if c.kind.isTypeDeclaration then discard (nested depth (.typeDeclaration c false))

end Binding

/-- Occurrences and diagnostics of a unit, in the order in which they were found. -/
def bindUnit (index : TypeIndex) (unit : DeclaredUnit) (root : Node) :
    List Occurrence × List Diagnostic :=
  let start : BindingState := { scope := { header := unit.header } }
  let (_, final) := ((Binding.program root).run ⟨index, unit⟩).run start
  (final.occurrences.reverse, final.diagnostics.reverse)

end Renaming.Java
