import Renaming.Java.Binding.Expressions
import Renaming.Proofs.Java.Locals.Steps
import Renaming.Proofs.Java.Overload

/-!
# Local variables of expressions

Each function of the walk finds the variables that its node declares, provided that the steps inside
it do. Steps go down the tree, but for a few that are taken on the same node again: they are ranked
so that every step asks for smaller ones only.
-/

namespace Renaming.Java

/-! ## Steps by size -/

namespace Task

/-- The node that a step is taken on. -/
def node : Task → Node
  | expression n | name n | statement n | initializer n _ | lambda n _ | annotated n
  | elementValue n | pattern n | typeDeclaration n _ | classBody n _ _ => n

/-- Steps are taken on the nodes that they are for. -/
def Fits (p : Around) : Task → Prop
  | expression n | name n | initializer n _ | elementValue n => n.kind.isValue = true
  | statement n => n.kind.isInBlock = true
  | lambda n _ => n.kind = .lambda
  | annotated n => n.kind.isAnnotated = true
  | pattern n => n.kind.isPattern = true
  | typeDeclaration n _ => n.kind.isTypeDeclaration = true
  | classBody n binary _ => (n.kind.holdsMembers || n.kind == .enumBody) = true ∧ p.binary = binary

def rank : Task → Nat
  | expression _ => 1
  | name n => if n.kind == .fieldAccess then 0 else 2
  | initializer n _ => if n.kind == .arrayInitializer then 0 else 2
  | statement _ | elementValue _ => 2
  | _ => 0

def size (task : Task) : Nat := 4 * task.node.height + task.rank

theorem rank_le (task : Task) : task.rank ≤ 2 := by
  cases task <;> simp only [rank] <;> grind

end Task

namespace Node

/-- A tree that steps up to a size can be taken on. -/
structure Within (bound : Nat) (n : Node) : Prop where
  laidOut : n.LaidOut
  height_le : 4 * n.height ≤ bound

variable {bound : Nat} {n c : Node}

theorem Within.child (h : n.Within (bound + 4)) (hc : c ∈ n.children) : c.Within bound := by
  have hlt := height_lt hc
  have hle := h.height_le
  exact ⟨h.laidOut.child hc, by omega⟩

theorem Within.inner (h : n.Within bound) (hc : c ∈ n.children) : c.Within bound :=
  ⟨h.laidOut.child hc,
    Nat.le_trans (Nat.mul_le_mul_left 4 (Nat.le_of_lt (height_lt hc))) h.height_le⟩

theorem Within.up (h : n.Within bound) : n.Within (bound + 4) :=
  ⟨h.laidOut, Nat.le_add_right_of_le h.height_le⟩

end Node

namespace Binding

/-- Steps that find what their nodes declare, up to a size. -/
def ListsBelow (ctx : BindingContext) (bound : Nat) (sub : Task → Binding Meaning) : Prop :=
  ∀ (task : Task) (p : Around), task.node.LaidOut → task.Fits p → task.size < bound →
    Lists ctx p.host (task.node.locals ctx p) (sub task)

theorem ListsBelow.inner {ctx : BindingContext} {bound : Nat} {sub : Task → Binding Meaning}
    (h : ListsBelow ctx (bound + 4) sub) (task : Task) (htask : task.node.Within bound)
    (p : Around) (hfits : task.Fits p) : Lists ctx p.host (task.node.locals ctx p) (sub task) := by
  have hheight := htask.height_le
  have hrank := task.rank_le
  exact h task p htask.laidOut hfits (by rw [Task.size]; omega)

variable {α : Type} {ctx : BindingContext} {p : Around} {bound : Nat}
  {sub : Task → Binding Meaning} {n c : Node}

/-! ## Slots -/

section Slots

open Node

variable {host : Option (Option Signature)} {found : Node → List LocalName}
  {role : Role} {test : NodeKind → Bool}

theorem flatMap_slots (nodes : List Node) (test : NodeKind → Bool)
    (found : Node → List LocalName) :
    (slots nodes test).flatMap (found ·.1) = nodes.flatMap found := by
  rw [slots, List.flatMap_map]

theorem map_fst_slots (nodes : List Node) (test : NodeKind → Bool) :
    (slots nodes test).map Prod.fst = nodes := by
  rw [slots, List.map_map]
  exact List.map_id nodes

theorem forall_mem_slots {nodes : List Node} :
    (∀ e ∈ slots nodes test, e.2 e.1 = true) ↔ ∀ c ∈ nodes, test c.kind = true :=
  List.forall_mem_map

theorem role_of_mem_oneAs {e : Slot} (he : e ∈ n.oneAs role test) : e.1.role = some role := by
  obtain ⟨c, hc, rfl⟩ := List.mem_map.1 he
  simpa using List.find?_some (Option.mem_toList.1 hc)

theorem role_of_mem_marksFirst (h : ∀ e ∈ n.marksFirst, e.2 e.1 = true) {e : Slot}
    (he : e ∈ n.marksFirst) : e.1.role = none := by
  have hmark := h e he
  obtain ⟨c, hc, rfl⟩ := List.mem_map.1 he
  simpa using (Bool.and_eq_true_iff.1 hmark).2

theorem flatMap_oneAs_congr (h : ∀ e ∈ n.oneAs role test, e.2 e.1 = true)
    (found found' : Node → List LocalName)
    (hfound : ∀ c, c.role = some role → test c.kind = true → found c = found' c) :
    (n.oneAs role test).flatMap (found ·.1) = (n.oneAs role test).flatMap (found' ·.1) := by
  refine List.flatMap_congr fun e he => hfound e.1 (role_of_mem_oneAs he) ?_
  have htest := h e he
  obtain ⟨c, hc, rfl⟩ := List.mem_map.1 he
  exact htest

theorem oneAs_cases (hn : n.Within (bound + 4)) (h : ∀ e ∈ n.oneAs role test, e.2 e.1 = true)
    (found : Node → List LocalName) :
    n.child? role = none ∧ (n.oneAs role test).flatMap (found ·.1) = [] ∨
    ∃ c, n.child? role = some c ∧ (n.oneAs role test).flatMap (found ·.1) = found c ∧
      c.role = some role ∧ c.Within bound ∧ test c.kind = true := by
  rw [oneAs, forall_mem_slots] at h
  rw [oneAs, flatMap_slots]
  cases hc : n.child? role with
  | none => exact .inl ⟨rfl, rfl⟩
  | some c =>
    have hrole : c.role = some role := by simpa using List.find?_some hc
    exact .inr ⟨c, rfl, by simp, hrole, hn.child (List.mem_of_find?_eq_some hc), h c (by simp [hc])⟩

theorem lists_oneAs (found : Node → List LocalName) (hn : n.Within (bound + 4))
    (h : ∀ e ∈ n.oneAs role test, e.2 e.1 = true)
    {f : Option Node → Binding α} (hnone : Lists ctx host [] (f none))
    (hsome : ∀ c, c.role = some role → c.Within bound → test c.kind = true →
      Lists ctx host (found c) (f (some c))) :
    Lists ctx host ((n.oneAs role test).flatMap (found ·.1)) (f (n.child? role)) := by
  obtain ⟨hc, hfound⟩ | ⟨c, hc, hfound, hrole, hwithin, htest⟩ := oneAs_cases hn h found
  · rw [hc, hfound]
    exact hnone
  · rw [hc, hfound]
    exact hsome c hrole hwithin htest

/-- What stands in front of a declaration declares nothing itself. -/
theorem flatMap_marksFirst (hkind : n.kind.isMarked = true)
    (h : ∀ e ∈ n.marksFirst, e.2 e.1 = true) :
    n.marksFirst.flatMap (p.found ctx n ·.1) = n.marks.flatMap (·.locals ctx p.plain) := by
  rw [marksFirst, List.flatMap_map]
  exact List.flatMap_congr fun c hc => found_of_isMark hkind (h _ (List.mem_map_of_mem hc))

theorem manyAs_cases (hn : n.Within (bound + 4)) (h : ∀ e ∈ n.manyAs role test, e.2 e.1 = true)
    (found : Node → List LocalName) :
    (n.manyAs role test).flatMap (found ·.1) = (n.childrenIn role).flatMap found ∧
    ∀ c ∈ n.childrenIn role, c.role = some role ∧ c.Within bound ∧ test c.kind = true := by
  rw [manyAs, forall_mem_slots] at h
  refine ⟨flatMap_slots _ _ found, fun c hc => ?_⟩
  obtain ⟨hmem, hrole⟩ := List.mem_filter.1 hc
  exact ⟨by simpa using hrole, hn.child hmem, h c hc⟩

/-- A node of which all named children are parts. -/
theorem lists_all (hn : n.Within (bound + 4)) (hlayout : n.layout = n.all test)
    (hplain : n.kind.isPlain = true) {f : Node → Binding Unit}
    (hf : ∀ c, c.Within bound → test c.kind = true →
      Lists ctx p.host (c.locals ctx p.plain) (f c)) :
    Lists ctx p.host (n.locals ctx p) (n.namedChildren.forM f) := by
  have hfits := hn.laidOut.arranged.fits
  rw [hlayout, Node.all, forall_mem_slots] at hfits
  rw [hn.laidOut.arranged.locals_of_isPlain hplain, hlayout, Node.all,
    flatMap_slots _ _ (·.locals ctx p.plain)]
  exact .forM fun c hc => hf c (hn.child (List.mem_filter.1 hc).1) (hfits c hc)

end Slots

/-! ## Leaves -/

theorem locals_of_isName (h : n.kind.isName = true) : n.locals ctx p = [] :=
  Node.locals_of_isMute (NodeKind.isMute_of_isName h)

theorem lists_simpleName : Lists ctx p.host [] (simpleName n) := by
  refine .after lists_text fun name => lists_variableNamed? (fun _ => rfl) (fun _ => .pure) ?_
  refine .read (.get fun s => ?_)
  split
  · exact .after lists_emitType fun _ => .pure
  · split
    · exact .pure
    · exact .after lists_unresolved fun _ => .pure

theorem lists_fieldOfValue {type : ExprType} {name : String} :
    Lists ctx p.host [] (fieldOfValue type n name) := by
  refine .read ?_
  dsimp only
  split
  · split
    · exact .pure
    · split
      · exact .pure
      · split
        · exact .after lists_emitField fun _ => .pure
        · exact .after lists_unresolved fun _ => .pure
  · exact .pure

theorem lists_memberOfType {owner name : String} :
    Lists ctx p.host [] (memberOfType owner n name) := by
  refine .read ?_
  dsimp only
  split
  · exact .after lists_emitField fun _ => .pure
  · split
    · exact .after lists_emitType fun _ => .pure
    · exact .after lists_unresolved fun _ => .pure

theorem lists_memberOfPackage {package name : String} {start : Nat} :
    Lists ctx p.host [] (memberOfPackage package start n name) := by
  refine .read ?_
  dsimp only
  split
  · exact .after (lists_emitWith (by decide)) fun _ => .pure
  · split
    · exact .pure
    · exact .after lists_diagnose fun _ => .pure

theorem lists_variableName : Lists ctx p.host [] (variableName n) := by
  have hnext (type : ExprType) : Lists ctx p.host [] (pure type) := .pure
  refine .after lists_text fun name => lists_variableNamed? (fun _ => rfl) hnext ?_
  exact .after lists_unresolved fun _ => .pure

theorem lists_explicitArguments : Lists ctx p.host [] (explicitArguments n) := by
  unfold explicitArguments
  split
  · exact .pure
  · exact .after lists_naming fun _ => .pure

theorem lists_createdType {qualifier : Option ExprType} :
    Lists ctx p.host [] (createdType n qualifier) := by
  refine .read (.after lists_text fun name => ?_)
  dsimp only
  split
  · exact .after lists_emitType fun _ => .pure
  · exact lists_typeNode

theorem lists_unqualifiedTarget {method : String} :
    Lists ctx p.host [] (unqualifiedTarget method) := by
  refine .read (.get fun s => ?_)
  dsimp only
  split <;> exact .pure

theorem locals_of_isType (h : n.kind.isType = true) : n.locals ctx p = [] :=
  Node.locals_of_isMute (NodeKind.isMute_of_isType h)

/-- What stands in a comment declares nothing. -/
theorem of_isComment (ctx : BindingContext) (p : Around) (hn : n.LaidOut)
    (hkind : n.kind.isComment = true) :
    n.locals ctx p = [] ∧
      ∀ c ∈ n.namedChildren, c.kind.isValue = true ∧ ∀ q, c.locals ctx q = [] := by
  have hmute := NodeKind.isMute_of_isComment hkind
  have hloose : n.kind.isLoose = true := by
    rcases NodeKind.isComment_cases hkind with hkind | hkind <;> rw [hkind] <;> rfl
  refine ⟨Node.locals_of_isMute hmute, fun c hc => ?_⟩
  obtain ⟨hvalue, hchild⟩ := hn.arranged.loose hloose c hc
  exact ⟨hvalue, fun q => Node.locals_of_isMute (hchild hmute)⟩

/-! ## Parts of expressions -/

variable (hsub : ListsBelow ctx (bound + 4) sub)

include hsub

theorem lists_expression (p : Around) (hc : c.Within bound) (hkind : c.kind.isValue = true) :
    Lists ctx p.host (c.locals ctx p) (expression sub c) :=
  (hsub.inner (.expression c) hc p hkind).before fun _ => .pure

theorem lists_expression? (hn : n.Within (bound + 4)) {role : Role}
    (h : ∀ e ∈ n.oneAs role NodeKind.isValue, e.2 e.1 = true) :
    Lists ctx p.host ((n.oneAs role NodeKind.isValue).flatMap (·.1.locals ctx p.plain))
      (expression? sub (n.child? role)) :=
  lists_oneAs (·.locals ctx p.plain) hn h .pure fun _ _ hc hkind =>
    lists_expression hsub p.plain hc hkind

/-- Expressions one after the other. -/
theorem lists_expressions {nodes : List Node}
    (h : ∀ c ∈ nodes, c.Within bound ∧ c.kind.isValue = true) :
    Lists ctx p.host (nodes.flatMap (·.locals ctx p.plain)) (expressions sub nodes) :=
  .mapM fun c hc => lists_expression hsub p.plain (h c hc).1 (h c hc).2

theorem lists_allValues (hn : n.Within (bound + 4)) (hlayout : n.layout = n.all NodeKind.isValue)
    (hplain : n.kind.isPlain = true) :
    Lists ctx p.host (n.locals ctx p) (expressions sub n.namedChildren) := by
  have hfits := hn.laidOut.arranged.fits
  rw [hlayout, Node.all, forall_mem_slots] at hfits
  rw [hn.laidOut.arranged.locals_of_isPlain hplain, hlayout, Node.all,
    flatMap_slots _ _ (·.locals ctx p.plain)]
  exact lists_expressions hsub fun c hc => ⟨hn.child (List.mem_filter.1 hc).1, hfits c hc⟩

/-- The annotations in front of a declaration. -/
theorem lists_annotations (hn : n.Within (bound + 4)) :
    Lists ctx p.host (n.marks.flatMap (·.locals ctx p.plain)) (annotations sub n) := by
  rw [Node.marks, Node.flatMap_filter]
  refine .forM fun c hc => ?_
  have hc' := hn.child (List.mem_filter.1 hc).1
  have hannotated (a : Node) (ha : a.Within bound) (hkind : a.kind.isAnnotated = true) :
      Lists ctx p.host (a.locals ctx p.plain) (discard (sub (.annotated a))) :=
    .discard (hsub.inner (.annotated a) ha p.plain hkind)
  by_cases hkind : c.kind = .modifiers
  · have hlayout : c.layout =
        Node.slots (c.namedChildren.filter (·.kind.isAnnotated)) fun _ => true := by
      rw [Node.layout, hkind]
    have hlocals : c.locals ctx p.plain = c.layout.flatMap (·.1.locals ctx p.plain.plain) :=
      hc'.laidOut.arranged.locals_of_isPlain (by rw [hkind]; rfl)
    rw [hlayout, flatMap_slots _ _ (·.locals ctx p.plain.plain)] at hlocals
    rw [if_pos (by rw [hkind]; rfl), if_pos (by rw [hkind]; rfl), hlocals]
    refine .forM fun a ha => ?_
    obtain ⟨hmem, hannotated'⟩ := List.mem_filter.1 ha
    exact hannotated a (hc'.inner (List.mem_filter.1 hmem).1) hannotated'
  · have hmark : c.kind.isMark = c.kind.isAnnotated := by simp [NodeKind.isMark, hkind]
    rw [hmark, if_neg (c := (c.kind == .modifiers) = true) (by simpa using hkind)]
    split
    · rename_i hkind
      exact hannotated c hc' hkind
    · exact .pure

/-! ## Names and accesses -/

theorem lists_outerThis (hc : c.Within bound) (hkind : c.kind.isValue = true) :
    Lists ctx p.host (c.locals ctx p.plain) (outerThis sub c) := by
  refine .before (hsub.inner (.name c) hc p.plain hkind) fun meaning => ?_
  split
  · exact .read .pure
  · exact .pure

theorem lists_fieldAccess (hn : n.Within (bound + 4)) (hkind : n.kind = .fieldAccess) :
    Lists ctx p.host (n.locals ctx p) (fieldAccess sub n) := by
  have hfits := hn.laidOut.arranged.fits
  rw [hn.laidOut.arranged.locals_of_isPlain (by rw [hkind]; rfl)]
  unfold fieldAccess
  simp only [Node.layout, hkind] at hfits ⊢
  cases hfield : n.child? .field with
  | none => cases n.child? .object <;> exact .pure
  | some field =>
    rw [hfield] at hfits
    rw [Option.isSome_some, if_pos rfl] at hfits ⊢
    obtain ⟨hobject, hfound⟩ | ⟨object, hobject, hfound, -, hwithin, hvalue⟩ :=
      oneAs_cases hn hfits (·.locals ctx p.plain)
    · rw [hobject, hfound]
      exact .pure
    · rw [hobject, hfound]
      dsimp only
      split
      · exact lists_outerThis hsub hwithin hvalue
      · refine .after lists_text fun name => ?_
        refine .before (hsub.inner (.name object) hwithin p.plain hvalue) fun meaning => ?_
        cases meaning with
        | value type => exact lists_fieldOfValue
        | type owner => exact lists_memberOfType
        | package package start => exact lists_memberOfPackage
        | unknown => exact .pure

/-- A name is taken apart, or else it is walked as an expression once more. -/
theorem lists_nameOf (hn : n.Within (bound + 4)) (hkind : n.kind.isValue = true)
    (hsize : (Task.name n).size ≤ bound + 4) :
    Lists ctx p.host (n.locals ctx p) (nameOf sub n) := by
  unfold nameOf
  split
  · rename_i hkind
    rw [Node.locals_of_isMute (by rw [hkind]; rfl)]
    exact lists_simpleName
  · rename_i hkind
    exact lists_fieldAccess hsub hn hkind
  · rename_i haccess
    have hlt : (Task.expression n).size < bound + 4 := by
      have hrank : (Task.name n).rank = 2 := if_neg (by simpa using haccess)
      simp only [Task.size, hrank] at hsize ⊢
      exact hsize
    refine .before ?_ fun _ => .pure
    exact (hsub (.expression n) p hn.laidOut hkind hlt).before fun _ => .pure

/-! ## Calls -/

theorem lists_callTarget (hn : n.Within (bound + 4)) {method : String}
    (h : ∀ e ∈ n.oneAs .object NodeKind.isValue, e.2 e.1 = true) :
    Lists ctx p.host ((n.oneAs .object NodeKind.isValue).flatMap (·.1.locals ctx p.plain))
      (callTarget sub method (n.child? .object)) := by
  refine lists_oneAs (·.locals ctx p.plain) hn h
    (.before lists_unqualifiedTarget fun _ => .pure) fun object _ hobject hvalue => ?_
  unfold callTarget
  dsimp only
  split
  · rename_i hkind
    rw [beq_iff_eq] at hkind
    rw [Node.locals_of_isMute (by rw [hkind]; rfl)]
    exact .read (.after lists_currentClass? fun _ => .pure)
  · refine .before (hsub.inner (.name object) hobject p.plain hvalue) fun meaning => ?_
    split
    · exact .pure
    · exact .pure
    · exact .after lists_unresolved fun _ => .pure
    · exact .pure

theorem lists_argumentTypes {nodes : List Node}
    (h : ∀ c ∈ nodes, c.Within bound ∧ c.kind.isValue = true) :
    Lists ctx p.host ((nodes.filter (·.kind != .lambda)).flatMap (·.locals ctx p.plain))
      (argumentTypes sub nodes) := by
  rw [Node.flatMap_filter]
  refine .mapM fun c hc => ?_
  by_cases hkind : c.kind = .lambda
  · rw [if_neg (by simpa using hkind), if_pos (by simpa using hkind)]
    exact .pure
  · rw [if_pos (by simpa using hkind), if_neg (by simpa using hkind)]
    exact lists_expression hsub p.plain (h c hc).1 (h c hc).2

omit hsub in
theorem flatMap_lambdasOf (nodes : List Node) (found : Node → List LocalName) :
    (lambdasOf nodes).flatMap (found ·.1) =
      (nodes.filter (·.kind == .lambda)).flatMap found := by
  rw [lambdasOf, Node.flatMap_filter, Node.flatMap_filter]
  conv_rhs => rw [← List.zipIdx_map_fst 0 nodes, List.flatMap_map]

omit hsub in
theorem of_mem_lambdasOf {nodes : List Node} {l : Node × Nat} (h : l ∈ lambdasOf nodes) :
    l.1 ∈ nodes ∧ l.1.kind = .lambda := by
  obtain ⟨hmem, hkind⟩ := List.mem_filter.1 h
  exact ⟨List.fst_mem_of_mem_zipIdx hmem, by simpa using hkind⟩

theorem lists_lambda_task (hc : c.Within bound) (hkind : c.kind = .lambda)
    (params : List GenericType) :
    Lists ctx p.host (c.locals ctx p.plain) (sub (.lambda c params)) :=
  hsub.inner (.lambda c params) hc p.plain hkind

theorem lists_untypedLambdas {nodes : List Node} (h : ∀ c ∈ nodes, c.Within bound) :
    Lists ctx p.host ((nodes.filter (·.kind == .lambda)).flatMap (·.locals ctx p.plain))
      (untypedLambdas sub (lambdasOf nodes)) := by
  rw [← flatMap_lambdasOf]
  refine .forM fun l hl => ?_
  obtain ⟨hmem, hkind⟩ := of_mem_lambdasOf hl
  exact .discard (lists_lambda_task hsub (h l.1 hmem) hkind [])

theorem lists_chosenCall {name : Node} {receiver : Option GenericType} {owner : String}
    {m : MethodDeclaration} {explicit : List GenericType} {args : List ExprType}
    {nodes : List Node} (h : ∀ c ∈ nodes, c.Within bound) :
    Lists ctx p.host ((nodes.filter (·.kind == .lambda)).flatMap (·.locals ctx p.plain))
      (chosenCall sub name receiver owner m explicit args (lambdasOf nodes)) := by
  rw [← flatMap_lambdasOf]
  refine .after lists_emitMethod fun _ => .read (.before (.foldlM fun bindings l hl => ?_)
    fun _ => .pure)
  obtain ⟨hmem, hkind⟩ := of_mem_lambdasOf hl
  refine .read (.before (lists_lambda_task hsub (h l.1 hmem) hkind _) fun body => ?_)
  dsimp only
  split <;> exact .pure

omit hsub in
/-- The arguments of a call by name: the lambdas come last. -/
theorem locals_arguments_of_call (hc : c.LaidOut) (hkind : c.kind = .argumentList) :
    c.locals ctx (p.as .call) =
      (c.namedChildren.filter (·.kind != .lambda)).flatMap (·.locals ctx p.plain) ++
        (c.namedChildren.filter (·.kind == .lambda)).flatMap (·.locals ctx p.plain) := by
  have hwaits : (p.as .call).waits c = fun d => d.kind == .lambda := by
    funext d
    simp [Around.waits, Around.as, hkind]
  have hfound : (p.as .call).found ctx c = (·.locals ctx p.plain) := by
    funext d
    exact Node.found_of_into (by simp [Around.names, Node.mayName, hkind])
      (by simp [Around.into, hkind, Around.as, Around.plain])
  have hlayout : c.layout = c.all NodeKind.isValue := by rw [Node.layout, hkind]
  rw [hc.arranged.locals_eq (by rw [hkind]; rfl) (by rw [hkind]; rintro ⟨⟩), hfound, hlayout,
    Node.all, map_fst_slots, Around.walked, hwaits, List.flatMap_append]
  rfl

omit hsub in
theorem isValue_of_arguments (hc : c.LaidOut) (hkind : c.kind = .argumentList) :
    ∀ d ∈ c.namedChildren, d.kind.isValue = true := by
  have hfits := hc.arranged.fits
  simp only [Node.layout, hkind, Node.all] at hfits
  exact forall_mem_slots.1 hfits

omit hsub in
/-- Lambdas among the arguments of a call by name come last. -/
theorem arguments_of_call (hn : n.Within (bound + 4)) (hkind : n.kind = .methodInvocation)
    (h : ∀ e ∈ n.oneAs .arguments (· == .argumentList), e.2 e.1 = true) : ∃ nodes,
      ((n.child? .arguments).map Node.namedChildren).getD [] = nodes ∧
      (∀ c ∈ nodes, c.Within bound ∧ c.kind.isValue = true) ∧
      (n.oneAs .arguments (· == .argumentList)).flatMap (p.found ctx n ·.1) =
        (nodes.filter (·.kind != .lambda)).flatMap (·.locals ctx p.plain) ++
          (nodes.filter (·.kind == .lambda)).flatMap (·.locals ctx p.plain) := by
  obtain ⟨hlist, hfound⟩ | ⟨list, hlist, hfound, hrole, hwithin, htest⟩ :=
    oneAs_cases hn h (p.found ctx n)
  · rw [hlist, hfound]
    exact ⟨[], rfl, List.forall_mem_nil _, rfl⟩
  · have hlistKind : list.kind = .argumentList := by simpa using htest
    have hcall : p.found ctx n list = list.locals ctx (p.as .call) :=
      Node.found_of_into (by simp [Around.names, Node.mayName, hkind])
        (by simp [Around.into, hkind, hrole])
    rw [hlist, hfound, hcall, locals_arguments_of_call hwithin.laidOut hlistKind]
    refine ⟨_, rfl, fun c hc => ?_, rfl⟩
    exact ⟨hwithin.inner (List.mem_filter.1 hc).1,
      isValue_of_arguments hwithin.laidOut hlistKind c hc⟩

theorem lists_methodInvocation (hn : n.Within (bound + 4)) (hkind : n.kind = .methodInvocation) :
    Lists ctx p.host (n.locals ctx p) (methodInvocation sub n) := by
  have hfits := hn.laidOut.arranged.fits
  rw [hn.laidOut.arranged.locals_eq_layout (by rw [hkind]; rfl) (by rw [hkind]; rfl)
    fun c => by simp [Around.waits, hkind]]
  unfold methodInvocation
  simp only [Node.layout, hkind] at hfits ⊢
  cases hname : n.child? .name with
  | none => exact .pure
  | some name =>
    rw [hname, Option.isSome_some, if_pos rfl] at hfits
    rw [Option.isSome_some, if_pos rfl, List.flatMap_append]
    obtain ⟨hobject, harguments⟩ := List.forall_mem_append.1 hfits
    have hobjects := flatMap_oneAs_congr hobject (p.found ctx n) (·.locals ctx p.plain)
      fun c hrole _ => Node.found_of_into (by simp [Around.names, Node.mayName, hkind]) (by
        simp [Around.into, hkind, hrole, Around.as, Around.plain])
    obtain ⟨nodes, hnodes, hwithin, hfound⟩ := arguments_of_call (p := p) hn hkind harguments
    rw [hobjects, hfound]
    refine .read (.after lists_text fun method =>
      .bind (lists_callTarget hsub hn hobject) fun target =>
        .after lists_explicitArguments fun explicit => ?_)
    rw [hnodes]
    refine .bind (lists_argumentTypes hsub hwithin) fun args => ?_
    have hlambdas := lists_untypedLambdas (p := p) hsub fun c hc => (hwithin c hc).1
    split
    · exact hlambdas.before fun _ => .pure
    · rename_i owners receiver
      split
      · rename_i i hselect
        -- The overload that is selected is one of the candidates.
        have hchooses : ctx.index.Chooses _ args (.found i) :=
          hselect ▸ TypeIndex.chooses_selectOverload
        obtain ⟨phase, -, ⟨⟨m, hm, -⟩, -⟩, -⟩ := hchooses
        split
        · exact lists_chosenCall hsub fun c hc => (hwithin c hc).1
        · rename_i hnone
          rw [List.getElem?_map, hnone] at hm
          cases hm
      · exact hlambdas.before fun _ => .after lists_diagnose fun _ => .pure
      · exact hlambdas.before fun _ => .after lists_unresolved fun _ => .pure

/-- The arguments of anything but a call by name. -/
theorem lists_arguments {q : Around} (hcall : q.sense ≠ .call) (hn : n.Within (bound + 4))
    (h : ∀ e ∈ n.oneAs .arguments (· == .argumentList), e.2 e.1 = true) :
    Lists ctx q.host ((n.oneAs .arguments (· == .argumentList)).flatMap (·.1.locals ctx q))
      (arguments sub (n.child? .arguments)) := by
  refine lists_oneAs (·.locals ctx q) hn h .pure fun list _ hwithin htest => ?_
  have hkind : list.kind = .argumentList := by simpa using htest
  have hwaits (c : Node) : q.waits list c = false := by simp [Around.waits, hkind, hcall]
  have hfound : q.found ctx list = (·.locals ctx q.plain) := by
    funext d
    exact Node.found_of_into (by simp [Around.names, Node.mayName, hkind])
      (by simp [Around.into, hkind])
  have hlayout : list.layout = list.all NodeKind.isValue := by rw [Node.layout, hkind]
  rw [hwithin.laidOut.arranged.locals_eq_layout (by rw [hkind]; rfl) (by rw [hkind]; rfl) hwaits,
    hfound, hlayout, Node.all, flatMap_slots _ _ (·.locals ctx q.plain)]
  refine lists_expressions hsub fun c hc => ⟨hwithin.inner (List.mem_filter.1 hc).1, ?_⟩
  exact isValue_of_arguments hwithin.laidOut hkind c hc

/-! ## Creation, lambdas and references to methods -/

theorem lists_anonymousBody (hc : c.Within bound) (hkind : c.kind = .classBody) :
    Lists ctx p.host (((p.anonymous ctx c).map (c.locals ctx)).getD []) (anonymousBody sub c) := by
  refine .read ?_
  rw [Around.anonymous]
  cases hbegins : ctx.unit.types.get? c.start with
  | none => exact .pure
  | some binary =>
    have hfits : (Task.classBody c binary none).Fits (p.inType binary) := ⟨by rw [hkind]; rfl, rfl⟩
    refine .before (lists_withClass (.discard ?_)) fun _ => .pure
    exact hsub.inner (.classBody c binary none) hc (p.inType binary) hfits

theorem lists_objectCreation (hn : n.Within (bound + 4)) (hkind : n.kind = .objectCreation) :
    Lists ctx p.host (n.locals ctx p) (objectCreation sub n) := by
  have hfits := hn.laidOut.arranged.fits
  have hnames (c : Node) : p.names n c = false := by simp [Around.names, Node.mayName, hkind]
  have hplain (c : Node) (hc : c.kind ≠ .classBody) : p.found ctx n c = c.locals ctx p.plain :=
    Node.found_of_into (hnames c) (by simp [Around.into, hkind, hc])
  rw [hn.laidOut.arranged.locals_eq_layout (by rw [hkind]; rfl) (by rw [hkind]; rfl)
    fun c => by simp [Around.waits, hkind]]
  simp only [Node.layout, hkind, List.forall_mem_append, forall_mem_slots] at hfits
  obtain ⟨⟨hfront, harguments⟩, -⟩ := hfits
  have hvalues := List.flatMap_congr fun c hc => hplain c fun h => by
    have hvalue := hfront c hc
    rw [h] at hvalue
    cases hvalue
  have hlist := flatMap_oneAs_congr harguments _ _ fun c _ htest => hplain c fun h => by
    simp [h] at htest
  simp only [Node.layout, hkind, List.flatMap_append, flatMap_slots _ _ (p.found ctx n), hvalues,
    hlist, List.append_assoc]
  have hqualifier : Lists ctx p.host _ (creationQualifier sub n) :=
    .before (lists_expressions hsub fun c hc =>
      have hmem := (List.takeWhile_prefix _).subset (List.mem_filter.1 hc).1
      ⟨hn.child (List.mem_filter.1 hmem).1, hfront c hc⟩) fun _ => .pure
  refine .bind hqualifier fun qualifier => ?_
  extract_lets finish
  have hfinish (created : Option GenericType) : Lists ctx p.host
      ((n.oneAs .arguments (· == .argumentList)).flatMap (·.1.locals ctx p.plain) ++
        (n.childOfKind? .classBody).toList.flatMap (p.found ctx n)) (finish created) := by
    have hcall : p.plain.sense ≠ .call := by rintro ⟨⟩
    refine .bind (.discard (lists_arguments hsub hcall hn harguments)) fun _ => ?_
    extract_lets answer
    have hanswer (anonymous : Option String) : Lists ctx p.host [] (answer anonymous) := by
      cases anonymous <;> exact .pure
    cases hbody : n.childOfKind? .classBody with
    | none => exact .after .pure hanswer
    | some body =>
      have hbodyKind : body.kind = .classBody := by simpa using List.find?_some hbody
      have hbody' : body.Within bound :=
        hn.child (List.mem_filter.1 (List.mem_of_find?_eq_some hbody)).1
      have hinto : p.into ctx n body = p.anonymous ctx body := by
        simp [Around.into, hkind, hbodyKind]
      rw [Option.toList_some, List.flatMap_singleton, Node.found_eq_into (hnames body), hinto]
      exact .before (lists_anonymousBody hsub hbody' hbodyKind) hanswer
  cases n.child? .type with
  | none => exact .after .pure hfinish
  | some type => exact .after lists_createdType hfinish

omit hsub in
theorem flatMap_eq_zipIdx {α : Type} (nodes : List α) (found : α → List LocalName) :
    nodes.flatMap found = nodes.zipIdx.flatMap (found ·.1) := by
  conv_lhs => rw [← List.zipIdx_map_fst 0 nodes, List.flatMap_map]

omit hsub in
/-- A parameter of a lambda declares its name. -/
theorem locals_formalParameter (hc : c.LaidOut) (hkind : c.kind = .formalParameter) :
    c.locals ctx (p.as .locals) = c.marks.flatMap (·.locals ctx p.plain) ++
      (c.oneAs .name NodeKind.isName).flatMap (LocalName.of p.host ·.1) := by
  have hfits := hc.arranged.fits
  simp only [Node.layout, hkind, List.forall_mem_append] at hfits
  have hnamed := flatMap_oneAs_congr hfits.2 ((p.as .locals).found ctx c) (LocalName.of p.host)
    fun d hrole _ => Node.found_of_names (by
      simp [Around.names, Node.mayName, hkind, hrole, Around.as])
  rw [hc.arranged.locals_eq_layout (by rw [hkind]; rfl) (by rw [hkind]; rfl)
    fun c => by simp [Around.waits, hkind]]
  simp only [Node.layout, hkind, List.flatMap_append, hnamed,
    flatMap_marksFirst (p := p.as .locals) (by rw [hkind]; rfl : c.kind.isMarked = true) hfits.1]
  rfl

omit hsub in
/-- Each word among parameters without types is a variable. -/
theorem found_inferredParameters (hn : n.kind = .lambda) (hc : c.LaidOut)
    (hrole : c.role = some .parameters) (hkind : c.kind = .inferredParameters) :
    p.found ctx n c =
      (c.namedChildren.filter (·.kind == .identifier)).flatMap (LocalName.of p.host) := by
  have hfound : (c.namedChildren.filter (·.kind == .identifier)).flatMap
      ((p.as .locals).found ctx c) =
        (c.namedChildren.filter (·.kind == .identifier)).flatMap (LocalName.of p.host) := by
    refine List.flatMap_congr fun d hd => Node.found_of_names ?_
    have hname : d.kind = .identifier := by simpa using (List.mem_filter.1 hd).2
    simp [Around.names, Node.mayName, hkind, hname]
  rw [Node.found_of_into (by simp [Around.names, Node.mayName, hn, hkind])
      (show p.into ctx n c = some (p.as .locals) by simp [Around.into, hn, hrole]),
    hc.arranged.locals_eq_layout (by rw [hkind]; rfl) (by rw [hkind]; rfl)
      fun c => by simp [Around.waits, hkind]]
  simp only [Node.layout, hkind, flatMap_slots _ _ ((p.as .locals).found ctx c), hfound]

omit hsub in
/-- Only parameters for single arguments of a lambda are variables. -/
theorem found_typedParameters (hn : n.kind = .lambda) (hc : c.LaidOut)
    (hrole : c.role = some .parameters) (hkind : c.kind = .formalParameters) :
    p.found ctx n c = (c.namedChildren.filter (·.kind == .formalParameter)).flatMap
      (·.locals ctx (p.as .locals)) := by
  have hfound : (p.as .locals).found ctx c = fun d =>
      if d.kind == .formalParameter then d.locals ctx (p.as .locals) else [] := by
    funext d
    have hname : (p.as .locals).names c d = false := by simp [Around.names, Node.mayName, hkind]
    split
    · rename_i hd
      exact Node.found_of_into hname (by simp [Around.into, hkind, Around.as, hd])
    · rename_i hd
      exact Node.found_of_into_none hname (by simp [Around.into, hkind, Around.as, hd])
  rw [Node.found_of_into (by simp [Around.names, Node.mayName, hn, hkind])
      (show p.into ctx n c = some (p.as .locals) by simp [Around.into, hn, hrole]),
    hc.arranged.locals_eq_layout (by rw [hkind]; rfl) (by rw [hkind]; rfl)
      fun c => by simp [Around.waits, hkind]]
  simp only [Node.layout, hkind, flatMap_slots _ _ ((p.as .locals).found ctx c), Node.all]
  rw [hfound, Node.flatMap_filter]

theorem lists_lambdaParameters (hn : n.kind = .lambda) (hc : c.Within bound)
    (hrole : c.role = some .parameters)
    (hkind : c.kind = .identifier ∨ c.kind = .inferredParameters ∨ c.kind = .formalParameters)
    (params : List GenericType) :
    Lists ctx p.host (p.found ctx n c) (lambdaParameters sub c params) := by
  unfold lambdaParameters
  extract_lets known
  split
  · rename_i hkind
    have hname : p.names n c = true := by simp [Around.names, Node.mayName, hn, hrole, hkind]
    rw [Node.found_of_names hname]
    exact lists_declareLocal
  · rename_i hkind
    rw [found_inferredParameters hn hc.laidOut hrole hkind, flatMap_eq_zipIdx]
    exact .forM fun _ _ => lists_declareLocal
  · rename_i hidentifier hinferred
    replace hkind := (hkind.resolve_left hidentifier).resolve_left hinferred
    rw [found_typedParameters hn hc.laidOut hrole hkind, flatMap_eq_zipIdx]
    refine .forM fun d hd => ?_
    obtain ⟨hmem, hparameter⟩ := List.mem_filter.1 (List.fst_mem_of_mem_zipIdx hd)
    have hd' : d.1.Within bound := hc.inner (List.mem_filter.1 hmem).1
    have hdKind : d.1.kind = .formalParameter := by simpa using hparameter
    have hfits := hd'.laidOut.arranged.fits
    simp only [Node.layout, hdKind, List.forall_mem_append] at hfits
    rw [locals_formalParameter hd'.laidOut hdKind]
    refine .bind (lists_annotations hsub hd'.up) fun _ => ?_
    extract_lets declare
    have hdeclare (type : ExprType) : Lists ctx p.host
        ((d.1.oneAs .name NodeKind.isName).flatMap (LocalName.of p.host ·.1)) (declare type) := by
      obtain ⟨hname, hfound⟩ | ⟨name, hname, hfound, -⟩ :=
        oneAs_cases hd'.up hfits.2 (LocalName.of p.host)
      · rw [hfound]
        simp only [declare, hname]
        exact .pure
      · rw [hfound]
        simp only [declare, hname]
        exact lists_declareLocal
    cases d.1.child? .type with
    | none => exact .after .pure hdeclare
    | some type =>
      refine .after lists_isInferred fun inferred => ?_
      split
      · exact .after .pure hdeclare
      · exact .after lists_typeNode fun written => .after .pure hdeclare

theorem lists_lambda (hn : n.Within (bound + 4)) (hkind : n.kind = .lambda)
    (params : List GenericType) : Lists ctx p.host (n.locals ctx p) (lambda sub n params) := by
  have hfits := hn.laidOut.arranged.fits
  simp only [Node.layout, hkind, List.forall_mem_append] at hfits
  obtain ⟨hparameters, hbody⟩ := hfits
  have hbodies := flatMap_oneAs_congr hbody (p.found ctx n) (·.locals ctx p.plain)
    fun c hrole _ => Node.found_of_into (by simp [Around.names, Node.mayName, hkind, hrole])
      (by simp [Around.into, hkind, hrole, Around.as, Around.plain])
  rw [hn.laidOut.arranged.locals_eq_layout (by rw [hkind]; rfl) (by rw [hkind]; rfl)
    fun c => by simp [Around.waits, hkind]]
  simp only [Node.layout, hkind, List.flatMap_append, hbodies]
  refine lists_withBlock ?_
  extract_lets walkBody
  have hwalkBody (u : Unit) : Lists ctx p.host
      ((n.oneAs .body fun k => k == .block || k.isValue).flatMap (·.1.locals ctx p.plain))
      (walkBody u) := by
    obtain ⟨hname, hfound⟩ | ⟨body, hname, hfound, -, hwithin, htest⟩ :=
        oneAs_cases hn hbody (·.locals ctx p.plain)
    · rw [hfound]
      simp only [walkBody, hname]
      exact .pure
    · rw [hfound]
      simp only [walkBody, hname]
      split
      · rename_i hblock
        rw [beq_iff_eq] at hblock
        have hfits : (Task.statement body).Fits p.plain := by
          rw [Task.Fits, hblock]
          rfl
        exact .before (.discard (hsub.inner (.statement body) hwithin p.plain hfits))
          fun _ => .pure
      · rename_i hblock
        rw [Bool.or_eq_true, or_iff_right hblock] at htest
        exact lists_expression hsub p.plain hwithin htest
  obtain ⟨hlist, hfound⟩ | ⟨list, hlist, hfound, hrole, hwithin, htest⟩ :=
    oneAs_cases hn hparameters (p.found ctx n)
  · rw [hlist, hfound]
    exact hwalkBody ()
  · rw [hlist, hfound]
    refine .bind (lists_lambdaParameters hsub hkind hwithin hrole ?_ params) hwalkBody
    simpa only [Bool.or_eq_true, beq_iff_eq, or_assoc] using htest

theorem lists_referenceOwner (hc : c.Within bound) (hkind : c.kind.isValue = true) :
    Lists ctx p.host (c.locals ctx p.plain) (referenceOwner sub c) := by
  unfold referenceOwner
  split
  · rename_i hsuper
    rw [beq_iff_eq] at hsuper
    rw [Node.locals_of_isMute (by rw [hsuper]; rfl)]
    exact .read (.after lists_currentClass? fun _ => .pure)
  · split
    · rename_i htype
      rw [locals_of_isType htype]
      refine .after lists_typeNode fun type => ?_
      split <;> exact .pure
    · refine .before (hsub.inner (.name c) hc p.plain hkind) fun meaning => ?_
      cases meaning <;> exact .pure

theorem lists_methodReference (hn : n.Within (bound + 4)) (hkind : n.kind = .methodReference) :
    Lists ctx p.host (n.locals ctx p) (methodReference sub n) := by
  have hfits := hn.laidOut.arranged.fits
  rw [hn.laidOut.arranged.locals_of_isPlain (by rw [hkind]; rfl)]
  simp only [Node.layout, hkind, forall_mem_slots] at hfits
  simp only [Node.layout, hkind, flatMap_slots _ _ (·.locals ctx p.plain)]
  unfold methodReference
  cases hchildren : n.namedChildren with
  | nil => exact .pure
  | cons target rest =>
    have hmem : target ∈ n.namedChildren := hchildren ▸ List.mem_cons_self
    rw [List.head?_cons, Option.toList_some, List.flatMap_singleton]
    refine .before (lists_referenceOwner hsub (hn.child (List.mem_filter.1 hmem).1)
      (hfits target (by simp [hchildren]))) fun owner => ?_
    split
    · refine .after lists_text fun method => .read ?_
      split
      · exact lists_emitMethod
      · exact lists_unresolved
      · exact lists_diagnose
    · exact .pure

/-! ## Switches and patterns -/

theorem lists_switchLabelPart {enum : Option String} (hc : c.Within bound)
    (htest : (c.kind == .guard || c.kind == .pattern || c.kind == .typePattern ||
      c.kind == .recordPattern || c.kind.isValue) = true) :
    Lists ctx p.host (c.locals ctx p.plain) (switchLabelPart sub enum c) := by
  have hpattern (hkind : c.kind.isPattern = true) :
      Lists ctx p.host (c.locals ctx p.plain) (discard (sub (.pattern c))) :=
    .discard (hsub.inner (.pattern c) hc p.plain hkind)
  unfold switchLabelPart
  split
  · rename_i hkind
    have hvalue : Lists ctx p.host (c.locals ctx p.plain) (expression sub c) :=
      lists_expression hsub p.plain hc (by rw [hkind]; rfl)
    rw [Node.locals_of_isMute (by rw [hkind]; rfl)] at hvalue ⊢
    refine .read (.after lists_text fun name => ?_)
    split
    · exact lists_emitField
    · exact .discard hvalue
  · rename_i hkind
    exact hpattern (by rw [hkind]; rfl)
  · rename_i hkind
    exact hpattern (by rw [hkind]; rfl)
  · rename_i hkind
    exact hpattern (by rw [hkind]; rfl)
  · rename_i hkind
    exact .discard (lists_allValues (p := p.plain) hsub hc.up (by rw [Node.layout, hkind])
      (by rw [hkind]; rfl))
  · rename_i _ hpattern hrecord htype hguard
    exact .discard (lists_expression hsub p.plain hc (by grind))

omit hsub in
theorem isInBlock_of_isStep {k : NodeKind} (h : k.isStep = true) : k.isInBlock = true := by
  unfold NodeKind.isInBlock
  split <;> first | rfl | exact h

theorem lists_statementOrExpression (hc : c.Within bound) (hkind : c.kind.isStep = true) :
    Lists ctx p.host (c.locals ctx p.plain) (statementOrExpression sub c) := by
  unfold statementOrExpression
  split
  · rename_i hstatement
    exact .discard (hsub.inner (.statement c) hc p.plain (isInBlock_of_isStep hkind))
  · rename_i hstatement
    have hvalue : c.kind.isValue = true := by simpa [NodeKind.isStep, hstatement] using hkind
    exact .discard (lists_expression hsub p.plain hc hvalue)

theorem lists_switchGroup {enum : Option String} {group : Node} (hgroup : group.Within bound)
    (hkind : (group.kind == .switchGroup || group.kind == .switchRule || group.kind.isComment) =
      true) :
    Lists ctx p.host (group.locals ctx p) (group.namedChildren.forM fun c => do
      if c.kind == .switchLabel then c.namedChildren.forM (switchLabelPart sub enum)
      else statementOrExpression sub c) := by
  have hpart (c : Node) (hc : c.Within bound)
      (htest : (c.kind == .switchLabel || c.kind.isStep) = true) :
      Lists ctx p.host (c.locals ctx p.plain) (if c.kind == .switchLabel then
        c.namedChildren.forM (switchLabelPart sub enum) else statementOrExpression sub c) := by
    split
    · rename_i hlabel
      rw [beq_iff_eq] at hlabel
      exact lists_all (p := p.plain) hc.up (by rw [Node.layout, hlabel]) (by rw [hlabel]; rfl)
        fun part hpart htest => lists_switchLabelPart hsub hpart htest
    · rename_i hlabel
      rw [Bool.or_eq_true, or_iff_right hlabel] at htest
      exact lists_statementOrExpression hsub hc htest
  by_cases hcomment : group.kind.isComment = true
  · obtain ⟨hnil, hchildren⟩ := of_isComment ctx p hgroup.laidOut hcomment
    rw [hnil]
    refine .forM_nil fun c hc => ?_
    obtain ⟨hvalue, hnil⟩ := hchildren c hc
    rw [← hnil p.plain]
    refine hpart c (hgroup.inner (List.mem_filter.1 hc).1) ?_
    rw [NodeKind.isStep, hvalue, Bool.or_true, Bool.or_true]
  · rw [Bool.or_eq_true, or_iff_left hcomment, Bool.or_eq_true, beq_iff_eq, beq_iff_eq] at hkind
    rcases hkind with hkind | hkind <;>
      exact lists_all hgroup.up (by rw [Node.layout, hkind]) (by rw [hkind]; rfl) hpart

theorem lists_switch (hn : n.Within (bound + 4)) (hkind : n.kind = .switchExpression) :
    Lists ctx p.host (n.locals ctx p) (switch sub n) := by
  have hfits := hn.laidOut.arranged.fits
  have hlayout : n.layout =
      n.oneAs .condition NodeKind.isValue ++ n.oneAs .body (· == .switchBlock) := by
    rw [Node.layout, hkind]
  rw [hlayout, List.forall_mem_append] at hfits
  rw [hn.laidOut.arranged.locals_of_isPlain (by rw [hkind]; rfl), hlayout, List.flatMap_append]
  refine .bind (lists_expression? hsub hn hfits.1) fun selector => .read ?_
  obtain ⟨hbody, hfound⟩ | ⟨body, hbody, hfound, -, hbody', htest⟩ :=
    oneAs_cases hn hfits.2 (·.locals ctx p.plain)
  · rw [hbody, hfound]
    exact .pure
  · rw [hbody, hfound]
    rw [beq_iff_eq] at htest
    refine lists_all (p := p.plain) hbody'.up (by rw [Node.layout, htest]) (by rw [htest]; rfl)
      fun group hgroup hgroupKind => ?_
    exact lists_withBlock (lists_switchGroup hsub hgroup hgroupKind)

omit hsub in
/-- A pattern declares the last of the words in it. -/
theorem lists_typePattern (hn : n.Within (bound + 4))
    (hkind : n.kind = .typePattern ∨ n.kind = .recordPatternComponent) :
    Lists ctx p.host (n.locals ctx p) (typePattern n) := by
  have hlayout : n.layout = Node.slots
      (n.namedChildren.reverse.find? (·.kind == .identifier)).toList fun _ => true := by
    rcases hkind with hkind | hkind <;> rw [Node.layout, hkind]
  have hlocals : n.locals ctx p = (n.namedChildren.reverse.find?
      (·.kind == .identifier)).toList.flatMap (p.found ctx n) := by
    rcases hkind with hkind | hkind <;>
    · rw [hn.laidOut.arranged.locals_eq_layout (by rw [hkind]; rfl) (by rw [hkind]; rfl)
        fun c => by simp [Around.waits, hkind], hlayout, flatMap_slots _ _ (p.found ctx n)]
  rw [hlocals]
  refine .after lists_typeNode? fun type => ?_
  cases hfound : n.namedChildren.reverse.find? (·.kind == .identifier) with
  | none => exact .pure
  | some name =>
    have hname : name.kind = .identifier := by simpa using List.find?_some hfound
    have hnames : p.names n name = true := by
      rcases hkind with hkind | hkind <;> simp [Around.names, Node.mayName, hkind, hname]
    rw [Option.toList_some, List.flatMap_singleton, Node.found_of_names hnames]
    exact lists_declareLocal

theorem lists_patterns (hn : n.Within (bound + 4)) (hlayout : n.layout = n.all NodeKind.isPattern)
    (hplain : n.kind.isPlain = true) :
    Lists ctx p.host (n.locals ctx p) (patterns sub n.namedChildren) :=
  lists_all hn hlayout hplain fun c hc hkind =>
    .discard (hsub.inner (.pattern c) hc p.plain hkind)

theorem lists_recordPatternPart (hc : c.Within bound) (hkind : c.kind.isPattern = true) :
    Lists ctx p.host (c.locals ctx p.plain) (recordPatternPart sub c) := by
  unfold recordPatternPart
  split
  · rename_i hname
    rw [beq_iff_eq] at hname
    rw [Node.locals_of_isMute (by rw [hname]; rfl)]
    refine .after lists_nameAsType fun type => ?_
    split
    · exact .pure
    · exact .after lists_text fun _ => lists_unresolved
  · split
    · rename_i htype
      rw [locals_of_isType htype]
      exact .discard lists_typeNode
    · exact .discard (hsub.inner (.pattern c) hc p.plain hkind)

omit hsub in
/-- A component of a pattern names a type and declares a variable; patterns in it stand alone. -/
theorem not_recordPattern (hn : n.LaidOut) (hkind : n.kind = .recordPatternComponent) :
    (n.childOfKind? .recordPattern).isSome = false := by
  rw [Bool.eq_false_iff]
  intro hsome
  obtain ⟨c, hc⟩ := Option.isSome_iff_exists.1 hsome
  have hrecord : c.kind = .recordPattern := by simpa using List.find?_some hc
  have hmem : c ∈ n.children.filter n.matters :=
    List.mem_filter.2 ⟨(List.mem_filter.1 (List.mem_of_find?_eq_some hc)).1, by
      rw [Node.matters, hrecord]; rfl⟩
  rw [hn.arranged.parts, List.mem_filter, List.mem_map] at hmem
  obtain ⟨⟨e, he, rfl⟩, -⟩ := hmem
  simp only [Node.layout, hkind] at he
  obtain ⟨d, hd, rfl⟩ := List.mem_map.1 he
  have hname := List.find?_some (Option.mem_toList.1 hd)
  simp [hrecord] at hname

theorem lists_pattern (hn : n.Within (bound + 4)) (hkind : n.kind.isPattern = true) :
    Lists ctx p.host (n.locals ctx p) (pattern sub n) := by
  unfold pattern
  split
  · rename_i hkind
    exact lists_patterns hsub hn (by rw [Node.layout, hkind]) (by rw [hkind]; rfl)
  · rename_i hkind
    exact lists_patterns hsub hn (by rw [Node.layout, hkind]) (by rw [hkind]; rfl)
  · rename_i hkind
    rw [if_neg (by rw [not_recordPattern hn.laidOut hkind]; exact Bool.false_ne_true)]
    exact lists_typePattern hn (.inr hkind)
  · rename_i hkind
    exact lists_typePattern hn (.inl hkind)
  · rename_i hkind
    exact lists_all hn (by rw [Node.layout, hkind]) (by rw [hkind]; rfl) fun c hc hkind =>
      lists_recordPatternPart hsub hc hkind
  · rename_i hpattern hbody hcomponent htype hrecord
    have hmute : n.kind.isMute = true := by
      generalize n.kind = k at *
      unfold NodeKind.isPattern at hkind
      split at hkind <;> try first | rfl | contradiction
      rcases Bool.or_eq_true_iff.1 hkind with hcomment | htype
      · exact NodeKind.isMute_of_isComment hcomment
      · exact NodeKind.isMute_of_isType htype
    rw [Node.locals_of_isMute hmute]
    split
    · exact .discard lists_typeNode
    · exact .pure

/-! ## Expressions -/

omit hsub in
/-- A node that is walked part by part. -/
theorem parts_of_isPlain (hn : n.LaidOut) (hplain : n.kind.isPlain = true)
    {parts : List Slot} (hlayout : n.layout = parts) :
    n.locals ctx p = parts.flatMap (·.1.locals ctx p.plain) ∧ ∀ e ∈ parts, e.2 e.1 = true :=
  hlayout ▸ ⟨hn.arranged.locals_of_isPlain hplain, hn.arranged.fits⟩

theorem lists_castExpression (hn : n.Within (bound + 4)) (hkind : n.kind = .castExpression) :
    Lists ctx p.host (n.locals ctx p) (castExpression sub n) := by
  have hlayout : n.layout = n.oneAs .value NodeKind.isValue := by rw [Node.layout, hkind]
  obtain ⟨hlocals, hvalue⟩ := parts_of_isPlain hn.laidOut (by rw [hkind]; rfl) hlayout
  rw [hlocals]
  exact .after (.mapM_nil fun _ _ => lists_typeNode) fun types =>
    .before (.discard (lists_expression? hsub hn hvalue)) fun _ => .pure

theorem lists_instanceofExpression (hn : n.Within (bound + 4))
    (hkind : n.kind = .instanceofExpression) :
    Lists ctx p.host (n.locals ctx p) (instanceofExpression sub n) := by
  have hlayout : n.layout = n.oneAs .left NodeKind.isValue ++ n.oneAs .name NodeKind.isName ++
      n.oneAs .pattern NodeKind.isPattern := by
    rw [Node.layout, hkind]
  have hfits := hn.laidOut.arranged.fits
  rw [hlayout, List.forall_mem_append, List.forall_mem_append] at hfits
  obtain ⟨⟨hleft, hname⟩, hpattern⟩ := hfits
  have hplain (role : Role) (hrole : role ≠ .name) (c : Node) (hc : c.role = some role) :
      p.found ctx n c = c.locals ctx p.plain :=
    Node.found_of_into (by simp [Around.names, Node.mayName, hkind, hc, hrole])
      (by simp [Around.into, hkind])
  have hlefts := flatMap_oneAs_congr hleft _ _ fun c hc _ => hplain .left (by decide) c hc
  have hpatterns := flatMap_oneAs_congr hpattern _ _ fun c hc _ => hplain .pattern (by decide) c hc
  have hnames := flatMap_oneAs_congr hname (p.found ctx n) (LocalName.of p.host) fun c hc _ =>
    Node.found_of_names (by simp [Around.names, Node.mayName, hkind, hc])
  rw [hn.laidOut.arranged.locals_eq_layout (by rw [hkind]; rfl) (by rw [hkind]; rfl)
    fun c => by simp [Around.waits, hkind], hlayout, List.flatMap_append, List.flatMap_append,
    hlefts, hnames, hpatterns, List.append_assoc]
  refine .bind (.discard (lists_expression? hsub hn hleft)) fun _ =>
    .after lists_typeNode? fun type => ?_
  extract_lets answer walkPattern
  have hwalkPattern (u : Unit) : Lists ctx p.host
      ((n.oneAs .pattern NodeKind.isPattern).flatMap (·.1.locals ctx p.plain))
      (walkPattern u) := by
    simp only [walkPattern]
    obtain ⟨hchild, hfound⟩ | ⟨c, hchild, hfound, -, hwithin, htest⟩ :=
      oneAs_cases hn hpattern (·.locals ctx p.plain)
    · rw [hchild, hfound]
      exact .pure
    · rw [hchild, hfound]
      exact .before (.discard (hsub.inner (.pattern c) hwithin p.plain htest))
        fun _ => .pure
  obtain ⟨hchild, hfound⟩ | ⟨name, hchild, hfound, -⟩ := oneAs_cases hn hname (LocalName.of p.host)
  · rw [hchild, hfound]
    exact hwalkPattern ()
  · rw [hchild, hfound]
    exact .bind lists_declareLocal hwalkPattern

theorem lists_initializer_task (hc : c.Within bound) (hkind : c.kind.isValue = true)
    (expected : Option GenericType) :
    Lists ctx p.host (c.locals ctx p.plain) (sub (.initializer c expected)) :=
  hsub.inner (.initializer c expected) hc p.plain hkind

/-- The sizes of a new array. -/
theorem lists_sizes (hn : n.Within (bound + 4)) (hkind : n.kind = .arrayCreation) :
    Lists ctx p.host (n.sizes.flatMap (·.1.locals ctx p.plain))
      ((n.childrenIn .dimensions).mapM fun d => do
        if d.kind == .dimensionsExpression then
          discard (expressions sub d.namedChildren)
          return 1
        else return (← read).unit.unit.source.dimensionCount (some d)) := by
  have hlayout : n.layout = n.marksFirst ++ n.sizes ++ n.oneAs .value NodeKind.isValue := by
    rw [Node.layout, hkind]
  have hfits := hn.laidOut.arranged.fits
  rw [hlayout, List.forall_mem_append, List.forall_mem_append] at hfits
  obtain ⟨⟨hmarks, hsizes⟩, -⟩ := hfits
  by_cases hvalue : (n.child? .value).isSome = true
  · rw [Node.sizes, if_pos hvalue]
    refine .mapM_nil fun d hd => ?_
    obtain ⟨hmem, hrole⟩ := List.mem_filter.1 hd
    rw [beq_iff_eq] at hrole
    split
    · rename_i hsize
      rw [beq_iff_eq] at hsize
      have hpart : d ∈ (n.layout.map Prod.fst).filter n.matters :=
        hn.laidOut.arranged.parts ▸ List.mem_filter.2 ⟨hmem, by rw [Node.matters, hsize]; rfl⟩
      rw [List.mem_filter, List.mem_map, hlayout, Node.sizes, if_pos hvalue,
        List.append_nil] at hpart
      obtain ⟨⟨e, he, rfl⟩, -⟩ := hpart
      rcases List.mem_append.1 he with he | he
      · rw [role_of_mem_marksFirst hmarks he] at hrole
        cases hrole
      · rw [role_of_mem_oneAs he] at hrole
        cases hrole
    · exact .read .pure
  · rw [Node.sizes, if_neg hvalue] at hsizes ⊢
    obtain ⟨hfound, hparts⟩ := manyAs_cases hn hsizes (·.locals ctx p.plain)
    rw [hfound]
    refine .mapM fun d hd => ?_
    obtain ⟨-, hwithin, htest⟩ := hparts d hd
    split
    · rename_i hsize
      rw [beq_iff_eq] at hsize
      exact .before (.discard (lists_allValues (p := p.plain) hsub hwithin.up
        (by rw [Node.layout, hsize]) (by rw [hsize]; rfl))) fun _ => .pure
    · rename_i hsize
      rw [Bool.or_eq_true, or_iff_right hsize, beq_iff_eq] at htest
      rw [Node.locals_of_isMute (by rw [htest]; rfl)]
      exact .read .pure

omit hsub in
theorem locals_arrayCreation (hn : n.LaidOut) (hkind : n.kind = .arrayCreation) :
    n.locals ctx p = n.sizes.flatMap (·.1.locals ctx p.plain) ++
      (n.oneAs .value NodeKind.isValue).flatMap (·.1.locals ctx p.plain) := by
  have hlayout : n.layout = n.marksFirst ++ n.sizes ++ n.oneAs .value NodeKind.isValue := by
    rw [Node.layout, hkind]
  have hfits := hn.arranged.fits
  rw [hlayout, List.forall_mem_append, List.forall_mem_append] at hfits
  obtain ⟨⟨hmarks, -⟩, hvalue⟩ := hfits
  have hnames (c : Node) : p.names n c = false := by simp [Around.names, Node.mayName, hkind]
  have hplain (c : Node) (role : Role) (hc : c.role = some role) :
      p.found ctx n c = c.locals ctx p.plain :=
    Node.found_of_into (hnames c) (by simp [Around.into, hkind, hc])
  have hnone : n.marksFirst.flatMap (p.found ctx n ·.1) = [] :=
    List.flatMap_eq_nil_iff.2 fun e he => Node.found_of_into_none (hnames e.1)
      (by simp [Around.into, hkind, role_of_mem_marksFirst hmarks he])
  have hsizes : n.sizes.flatMap (p.found ctx n ·.1) = n.sizes.flatMap (·.1.locals ctx p.plain) := by
    rw [Node.sizes]
    split
    · rfl
    · refine List.flatMap_congr fun e he => ?_
      obtain ⟨c, hc, rfl⟩ := List.mem_map.1 he
      exact hplain c .dimensions (by simpa using (List.mem_filter.1 hc).2)
  rw [hn.arranged.locals_eq_layout (by rw [hkind]; rfl) (by rw [hkind]; rfl)
    fun c => by simp [Around.waits, hkind], hlayout, List.flatMap_append, List.flatMap_append,
    hnone, hsizes, flatMap_oneAs_congr hvalue _ _ fun c hc _ => hplain c .value hc,
    List.nil_append]

theorem lists_arrayCreation (hn : n.Within (bound + 4)) (hkind : n.kind = .arrayCreation) :
    Lists ctx p.host (n.locals ctx p) (arrayCreation sub n) := by
  have hlayout : n.layout = n.marksFirst ++ n.sizes ++ n.oneAs .value NodeKind.isValue := by
    rw [Node.layout, hkind]
  have hfits := hn.laidOut.arranged.fits
  rw [hlayout, List.forall_mem_append] at hfits
  rw [locals_arrayCreation hn.laidOut hkind]
  refine .after lists_typeNode? fun element => .bind (lists_sizes hsub hn hkind) fun counts => ?_
  extract_lets type answer
  have hanswer (u : Unit) : Lists ctx p.host [] (answer u) := .pure
  obtain ⟨hchild, hfound⟩ | ⟨c, hchild, hfound, -, hwithin, htest⟩ :=
    oneAs_cases hn hfits.2 (·.locals ctx p.plain)
  · rw [hchild, hfound]
    exact hanswer ()
  · rw [hchild, hfound]
    exact .before (.discard (lists_initializer_task hsub hwithin htest type)) hanswer

/-- An expression of two operands. -/
theorem lists_operands (first second : Role) {act : Binding α} (hn : n.Within (bound + 4))
    (hplain : n.kind.isPlain = true)
    (hlayout : n.layout = n.oneAs first NodeKind.isValue ++ n.oneAs second NodeKind.isValue)
    (hact : ∀ {found rest}, Lists ctx p.host found (expression? sub (n.child? first)) →
      Lists ctx p.host rest (expression? sub (n.child? second)) →
        Lists ctx p.host (found ++ rest) act) :
    Lists ctx p.host (n.locals ctx p) act := by
  obtain ⟨hlocals, hfits⟩ := parts_of_isPlain hn.laidOut hplain hlayout
  obtain ⟨hfirst, hsecond⟩ := List.forall_mem_append.1 hfits
  rw [hlocals, List.flatMap_append]
  exact hact (lists_expression? hsub hn hfirst) (lists_expression? hsub hn hsecond)

theorem lists_unaryExpression (hn : n.Within (bound + 4)) (hkind : n.kind = .unaryExpression) :
    Lists ctx p.host (n.locals ctx p) (unaryExpression sub n) := by
  have hlayout : n.layout = n.oneAs .operand NodeKind.isValue := by rw [Node.layout, hkind]
  obtain ⟨hlocals, hoperand⟩ := parts_of_isPlain hn.laidOut (by rw [hkind]; rfl) hlayout
  rw [hlocals]
  exact .before (lists_expression? hsub hn hoperand) fun _ => .pure

theorem lists_conditionalExpression (hn : n.Within (bound + 4)) (hkind : n.kind = .conditional) :
    Lists ctx p.host (n.locals ctx p) (conditionalExpression sub n) := by
  have hlayout : n.layout = n.oneAs .condition NodeKind.isValue ++
      n.oneAs .consequence NodeKind.isValue ++ n.oneAs .alternative NodeKind.isValue := by
    rw [Node.layout, hkind]
  obtain ⟨hlocals, hfits⟩ := parts_of_isPlain hn.laidOut (by rw [hkind]; rfl) hlayout
  rw [List.forall_mem_append, List.forall_mem_append] at hfits
  obtain ⟨⟨hcondition, hconsequence⟩, halternative⟩ := hfits
  rw [hlocals, List.flatMap_append, List.flatMap_append, List.append_assoc]
  exact .bind (.discard (lists_expression? hsub hn hcondition)) fun _ =>
    .bind (lists_expression? hsub hn hconsequence) fun _ =>
      .before (lists_expression? hsub hn halternative) fun _ => .pure

theorem lists_arrayAccess (hn : n.Within (bound + 4)) (hkind : n.kind = .arrayAccess) :
    Lists ctx p.host (n.locals ctx p) (arrayAccess sub n) := by
  refine lists_operands hsub .array .index hn (by rw [hkind]; rfl) (by rw [Node.layout, hkind])
    fun harray hindex => .bind harray fun array => .before (.discard hindex) fun _ => ?_
  split <;> exact .pure

theorem lists_binaryExpression (hn : n.Within (bound + 4)) (hkind : n.kind = .binaryExpression) :
    Lists ctx p.host (n.locals ctx p) (binaryExpression sub n) :=
  lists_operands hsub .left .right hn (by rw [hkind]; rfl) (by rw [Node.layout, hkind])
    fun hleft hright => .bind hleft fun _ => .before hright fun _ => .pure

theorem lists_assignment (hn : n.Within (bound + 4)) (hkind : n.kind = .assignment) :
    Lists ctx p.host (n.locals ctx p) (assignment sub n) :=
  lists_operands hsub .left .right hn (by rw [hkind]; rfl) (by rw [Node.layout, hkind])
    fun hleft hright => .bind hleft fun _ => .before (.discard hright) fun _ => .pure

omit hsub in
theorem isInBlock_of_isValue {k : NodeKind} (h : k.isValue = true) : k.isInBlock = true :=
  isInBlock_of_isStep (by rw [NodeKind.isStep, h, Bool.or_true])

omit hsub in
/-- A node of which all named children are walked, whatever they are. -/
theorem lists_loose (hn : n.Within (bound + 4)) (hkind : n.kind.isLoose = true)
    {f : Node → Binding Unit} (hf : ∀ c, c.Within bound → c.kind.isValue = true →
      Lists ctx p.host (c.locals ctx p.plain) (f c)) :
    Lists ctx p.host (n.locals ctx p) (n.namedChildren.forM f) := by
  have hloose := hn.laidOut.arranged.loose hkind
  have hpart (c : Node) (hc : c ∈ n.namedChildren) :
      Lists ctx p.host (c.locals ctx p.plain) (f c) :=
    hf c (hn.child (List.mem_filter.1 hc).1) (hloose c hc).1
  by_cases hmute : n.kind.isMute = true
  · rw [Node.locals_of_isMute hmute]
    refine .forM_nil fun c hc => ?_
    have hnil : c.locals ctx p.plain = [] := Node.locals_of_isMute ((hloose c hc).2 hmute)
    exact hnil ▸ hpart c hc
  · have hplain : n.kind.isPlain = true := by
      generalize n.kind = k at hkind hmute
      unfold NodeKind.isLoose at hkind
      split at hkind <;> try first | rfl | exact absurd rfl hmute
      rcases Bool.or_eq_true_iff.1 hkind with hcomment | hannotated
      · exact absurd (NodeKind.isMute_of_isComment hcomment) hmute
      · rcases NodeKind.isAnnotated_cases hannotated with rfl | rfl <;> rfl
    have hnamed : n.namedChildren.flatMap (·.locals ctx p.plain) =
        n.children.flatMap (·.locals ctx p.plain) := by
      refine Node.flatMap_filter_of_nil fun c hc => Node.locals_of_isMute ?_
      rw [Node.isNamed, bne_eq_false_iff_eq] at hc
      rw [hc]
      rfl
    rw [Node.locals_of_isPlain hplain, ← hnamed]
    exact .forM hpart

theorem lists_expressionType (hn : n.Within (bound + 4)) (hkind : n.kind.isValue = true)
    (hsize : (Task.expression n).size ≤ bound + 4) :
    Lists ctx p.host (n.locals ctx p) (expressionType sub n) := by
  have hlt {task : Task} (hnode : task.node = n) (hrank : task.rank = 0) :
      task.size < bound + 4 := by
    simp only [Task.size, hnode, hrank] at hsize ⊢
    exact hsize
  have hmute {act : Binding ExprType} (h : n.kind.isMute = true) (hact : Lists ctx p.host [] act) :
      Lists ctx p.host (n.locals ctx p) act := by
    rw [Node.locals_of_isMute h]
    exact hact
  unfold expressionType
  refine .read ?_
  dsimp only
  split
  case h_1 hk => exact hmute (by rw [hk]; rfl) lists_variableName
  case h_2 hk => exact hmute (by rw [hk]; rfl) (.after lists_currentClass? fun _ => .pure)
  case h_3 hk => exact hmute (by rw [hk]; rfl) (.after lists_currentClass? fun _ => .pure)
  case h_4 hk =>
    have hrank : (Task.name n).rank = 0 := by rw [Task.rank, hk]; rfl
    exact .before (hsub (.name n) p hn.laidOut hkind (hlt rfl hrank)) fun _ => .pure
  case h_5 hk => exact lists_methodInvocation hsub hn hk
  case h_6 hk => exact lists_objectCreation hsub hn hk
  iterate 6
    next hk => exact hmute (by rw [hk]; rfl) (.after lists_text fun _ => .pure)
  iterate 5
    next hk => exact hmute (by rw [hk]; rfl) .pure
  iterate 2
    next hk =>
      exact .before (lists_allValues hsub hn (by rw [Node.layout, hk]) (by rw [hk]; rfl))
        fun _ => .pure
  case h_20 hk => exact lists_binaryExpression hsub hn hk
  case h_21 hk => exact lists_unaryExpression hsub hn hk
  case h_22 hk => exact lists_assignment hsub hn hk
  case h_23 hk => exact lists_castExpression hsub hn hk
  case h_24 hk => exact lists_instanceofExpression hsub hn hk
  case h_25 hk => exact lists_conditionalExpression hsub hn hk
  case h_26 hk => exact lists_arrayAccess hsub hn hk
  case h_27 hk => exact lists_arrayCreation hsub hn hk
  case h_28 hk =>
    have hrank : (Task.initializer n none).rank = 0 := by rw [Task.rank, hk]; rfl
    exact .before (hsub (.initializer n none) p hn.laidOut hkind (hlt rfl hrank)) fun _ => .pure
  case h_29 hk =>
    exact hmute (by rw [hk]; rfl) (.after (.discard lists_typeNode?) fun _ => .pure)
  case h_30 hk =>
    exact .before (.discard (hsub (.lambda n []) p hn.laidOut hk (hlt rfl rfl))) fun _ => .pure
  case h_31 hk => exact .before (lists_methodReference hsub hn hk) fun _ => .pure
  case h_32 hk => exact .before (lists_switch hsub hn hk) fun _ => .pure
  case h_33 =>
    split
    · rename_i htype
      rw [locals_of_isType htype]
      exact .after (.discard lists_typeNode) fun _ => .pure
    · rename_i htype
      have hloose : n.kind.isLoose = true := by
        generalize n.kind = k at *
        unfold NodeKind.isValue at hkind
        split at hkind <;> try first | rfl | contradiction
        simp only [Bool.or_eq_true, htype, or_false, Bool.false_eq_true] at hkind
        rcases hkind with (hcomment | hliteral) | hannotated
        · rcases NodeKind.isComment_cases hcomment with rfl | rfl <;> rfl
        · unfold NodeKind.isLiteral at hliteral
          split at hliteral <;> contradiction
        · rcases NodeKind.isAnnotated_cases hannotated with rfl | rfl <;> rfl
      have hpart (c : Node) (hc : c.Within bound) (hvalue : c.kind.isValue = true) :
          Lists ctx p.host (c.locals ctx p.plain) (discard (sub (.statement c))) :=
        .discard (hsub.inner (.statement c) hc p.plain (isInBlock_of_isValue hvalue))
      exact .before (lists_loose hn hloose hpart) fun _ => .pure

/-- A value for a variable, or else it is walked as an expression once more. -/
theorem lists_initializer (hn : n.Within (bound + 4)) (hkind : n.kind.isValue = true)
    {expected : Option GenericType} (hsize : (Task.initializer n expected).size ≤ bound + 4) :
    Lists ctx p.host (n.locals ctx p) (initializer sub n expected) := by
  have hlt {task : Task} (hk : n.kind ≠ .arrayInitializer) (hnode : task.node = n)
      (hrank : task.rank ≤ 1) : task.size < bound + 4 := by
    have hrank' : (Task.initializer n expected).rank = 2 := if_neg (by simpa using hk)
    simp only [Task.size, hnode, hrank'] at hsize ⊢
    rw [show (Task.initializer n expected).node = n from rfl] at hsize
    omega
  unfold initializer
  split
  · rename_i hk
    refine .read (.before (.discard ?_) fun _ => .pure)
    exact hsub (.lambda n _) p hn.laidOut hk (hlt (by rw [hk]; decide) rfl (Nat.zero_le 1))
  · rename_i hk
    refine .before (lists_all hn (by rw [Node.layout, hk]) (by rw [hk]; rfl) fun c hc htest => ?_)
      fun _ => .pure
    exact .discard (lists_initializer_task hsub hc htest _)
  · rename_i hlambda harray
    exact .before (hsub (.expression n) p hn.laidOut hkind (hlt harray rfl (Nat.le_refl 1)))
      fun _ => .pure

end Binding

end Renaming.Java
