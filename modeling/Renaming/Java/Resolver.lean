import Renaming.Extraction
import Renaming.Java.Binding
import Renaming.Java.Classpath

/-!
# The Java resolver

Binds the names of Java units against the types of the catalogue, of the class path and of the units
themselves. What can be made out in a unit that is not well formed is declared and bound as well,
and the unit is marked as one that failed to parse.
-/

namespace Renaming.Java

def isJavaUnit (id : String) : Bool := Text.endsWith ".java" id

namespace Program

def resolveUnit (program : Program) (unit : DeclaredUnit) : UnitResolution :=
  match unit.unit.tree with
  | none =>
    { diagnostics := [⟨unit.unit.id, 0, .parse, "parser gave up on this unit"⟩]
      parseFailed := true }
  | some root =>
    let (occurrences, diagnostics) := bindUnit program.index unit root
    match root.firstError? with
    | none => { occurrences, diagnostics }
    | some error =>
      { occurrences
        diagnostics := diagnostics ++ [⟨unit.unit.id, error.start, .parse, "syntax error"⟩]
        parseFailed := true }

/-- What is found in each unit, in the order of the units. -/
def resolveUnits (program : Program) : List (String × UnitResolution) :=
  program.units.map fun unit => (unit.unit.id, program.resolveUnit unit)

end Program

/-- The resolver for units that a parser reads, with a class path in a file tree. -/
def resolverWith (parse : String → Option Node) (tree : FileTree) (classpath : List String) :
    Resolver where
  handles := isJavaUnit
  resolve units :=
    match TypeIndex.catalogue.addClasspath tree classpath with
    | .error e => .error e.message
    | .ok known =>
      .ok (Program.ofUnits known (units.map fun u => .read parse u.id u.text)).resolveUnits

/-- The resolver for units that the grammar reads. -/
def resolver (tree : FileTree) (classpath : List String) : Resolver :=
  resolverWith Node.ofText? tree classpath

end Renaming.Java
