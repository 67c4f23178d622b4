import Renaming.Java.Declared.Registration
import Renaming.Java.TypeUse

/-!
# Declaration sites

The places where types are declared, with the scopes around them. A local class is in scope in the
rest of its block.
-/

namespace Renaming.Java

inductive SiteForm where
  | named (typeParams : List TypeParameter)
  /-- A body after the type that it extends. -/
  | anonymous (base : Option GenericType)

structure DeclarationSite where
  binary : String
  /-- The declaration, or the body of an anonymous type. -/
  node : Node
  form : SiteForm
  /-- The scope in which the supertypes are read. -/
  scope : TypeScope

namespace DeclarationSite

def bodyScope (site : DeclarationSite) : TypeScope := site.scope.push (.classBody site.binary)

end DeclarationSite

/-- Whether a declaration in a node of this kind is known in its block only. -/
def NodeKind.isBlockLevel (parent : NodeKind) : Bool :=
  !(parent.holdsMembers || parent == .program)

namespace Sites

structure Walk where
  scope : TypeScope
  sites : List DeclarationSite := []

namespace Walk

def push (w : Walk) (frame : TypeFrame) : Walk := { w with scope := w.scope.push frame }

def pop (w : Walk) : Walk := { w with scope := w.scope.pop }

def addSite (w : Walk) (site : DeclarationSite) : Walk := { w with sites := w.sites ++ [site] }

end Walk

variable (index : TypeIndex) (source : SourceText) (types : SortedMap Nat String)

def contextOf (w : Walk) : TypeContext := ⟨index, source, w.scope⟩

/-- The type that the body inside a node extends. -/
def baseOf (w : Walk) (parent : Node) : Option GenericType :=
  if parent.kind == .enumConstant then w.scope.currentClass?.map .raw
  else (parent.child? .type).bind (contextOf index source w).type?

def declareLocal (w : Walk) (parent : NodeKind) (n : Node) (binary : String) : Walk :=
  match n.child? .name with
  | some name =>
    if parent.isBlockLevel then
      { w with scope := w.scope.addLocalType (source.text name) binary }
    else w
  | none => w

def opensBlock (kind : NodeKind) : Bool :=
  kind == .block || kind == .constructorBody || kind == .switchGroup || kind == .switchRule

mutual

def visit (parent : Node) (w : Walk) : Node → Walk
  | .mk kind role span text children =>
    let n := Node.mk kind role span text children
    if isAnonymousBody parent.kind n then
      match types.get? span.start with
      | none => w
      | some binary =>
        let site := ⟨binary, n, .anonymous (baseOf index source w parent), w.scope⟩
        ((visitAll n ((w.addSite site).push (.classBody binary)) children)).pop
    else if kind.isTypeDeclaration then
      match types.get? span.start with
      | none => w
      | some binary =>
        let w := declareLocal source w parent.kind n binary
        let params := ((contextOf index source w).parametersOf n).value
        let w := w.push (.typeVars params)
        let site := ⟨binary, n, .named params, w.scope⟩
        ((visitAll n ((w.addSite site).push (.classBody binary)) children)).pop.pop
    else if kind == .methodDeclaration || kind == .constructorDeclaration then
      let params := ((contextOf index source w).parametersOf n).value
      (visitAll n (w.push (.typeVars params)) children).pop
    else if opensBlock kind then (visitAll n (w.push (.block [])) children).pop
    else visitAll n w children

def visitAll (parent : Node) (w : Walk) : List Node → Walk
  | [] => w
  | c :: rest => visitAll parent (if c.isNamed then visit parent w c else w) rest

end

end Sites

/-- The sites of a unit, in the order of the text. -/
def declarationSites (index : TypeIndex) (source : SourceText) (header : UnitHeader)
    (types : SortedMap Nat String) (root : Node) : List DeclarationSite :=
  (Sites.visit index source types root { scope := { header } } root).sites

end Renaming.Java
