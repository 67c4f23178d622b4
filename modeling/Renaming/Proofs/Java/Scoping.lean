import Renaming.Java.Binding
import Renaming.Proofs.Java.Binding.Locals
import Renaming.Proofs.Java.Comments
import Renaming.Proofs.Java.Scoping.Conditions

/-!
# Variables after a statement

A statement that opens a block leaves the variables in scope as they were. Any other statement may
leak variables whose names leave it, and it leaks those of the type tests in its conditions and in
the fields of a class that it declares. They stay in scope to the end of the block around the
statement, but only uses of their names are bound to something else for it.
-/

namespace Renaming.Java

namespace Binding

/-! ## Nested steps -/

/-- One step, by what is walked over. -/
theorem blind_ofTask {V : View} {sub : Task → Binding Meaning}
    (hsub : ∀ left task, task.Lets V left → Blind V left (sub task)) {left : String → Prop}
    {task : Task} (h : task.Lets V left) : Blind V left (ofTask sub task) := by
  cases task with
  | expression n => exact .bind (blind_expressionType hsub h) fun _ => .pure
  | name n => exact blind_nameOf hsub h
  | statement n => exact .bind (blind_statement hsub h) fun _ => .pure
  | initializer n expected => exact .bind (blind_initializer hsub h) fun _ => .pure
  | lambda n params => exact .bind (blind_lambda hsub h) fun _ => .pure
  | annotated n => exact .bind (blind_annotated hsub h.1 h.2) fun _ => .pure
  | elementValue n => exact .bind (blind_elementValue hsub h) fun _ => .pure
  | pattern n => exact .bind (blind_pattern hsub h) fun _ => .pure
  | typeDeclaration n inBlock => exact .bind (blind_typeDeclaration hsub h.1 h.2) fun _ => .pure
  | classBody n binary components => exact .bind (blind_classBody hsub h.1 h.2) fun _ => .pure

theorem blind_nested {V : View} (depth : Nat) (left : String → Prop) (task : Task)
    (h : task.Lets V left) : Blind V left (nested depth task) := by
  induction depth generalizing left task with
  | zero => exact .pure
  | succ depth ih => exact blind_ofTask (fun left task h => ih left task h) h

/-- All nodes, and no hidden names. -/
def wholeView (ctx : BindingContext) : View where
  ctx
  T _ := True
  hidden _ := False
  children _ _ _ := trivial
  seen _ _ := nofun

/-! ## What a statement leaks -/

/-- The variables that a statement leaks for certain: those of the type tests in its conditions, and
in the values of the fields of a class that it declares. -/
inductive Exposes (ctx : BindingContext) (n name : Node) : Prop where
  | condition {c : Node} (hc : c ∈ n.conditions) (h : c.Tests name)
  | field {c : Node} {binary : String} (hkind : n.kind.isTypeDeclaration = true)
      (hbegins : ctx.unit.types.get? n.start = some binary) (hc : c ∈ n.fieldValues)
      (h : c.Tests name)

theorem declares_nested_expression {ctx : BindingContext} {depth : Nat} {n name : Node}
    (h : n.Tests name) (hdepth : n.height ≤ depth) :
    Declares ctx (ctx.unit.unit.source.text name) (nested depth (.expression n)) := by
  have hsub (depth : Nat) : ∀ left task, task.Lets (wholeView ctx) left →
      Blind (wholeView ctx) left (nested depth task) := blind_nested depth
  induction h generalizing depth with
  | @here n name hkind hname =>
    cases depth with
    | zero => cases n; simp [Node.height] at hdepth
    | succ depth =>
      have hwalk : Declares (wholeView ctx).ctx ((wholeView ctx).text name)
          (expressionType (nested depth) n) := by
        simp only [expressionType, hkind]
        exact .read (declares_instanceofExpression (hsub depth) trivial hname)
      exact hwalk.before fun _ => .pure
  | @operand n c name hc _ ih =>
    have hlt := Node.height_lt (Node.mem_children_of_mem_operands hc)
    cases depth with
    | zero => omega
    | succ depth =>
      have hinner : Declares ctx _ (nested depth (.expression c)) := ih (by omega)
      have hwalk := declares_operand  (hsub depth) trivial hc hinner
      exact hwalk.before fun _ => .pure

theorem statement_of_isTypeDeclaration {sub : Task → Binding Meaning} {n : Node}
    (h : n.kind.isTypeDeclaration = true) :
    statement sub n = discard (sub (.typeDeclaration n true)) := by
  unfold statement
  split <;> simp_all [NodeKind.isTypeDeclaration]

theorem declares_nested_class {ctx : BindingContext} {depth : Nat} {n c name : Node}
    {binary : String} (hbegins : ctx.unit.types.get? n.start = some binary)
    (hc : c ∈ n.fieldValues) (h : c.Tests name) (hdepth : n.height ≤ depth + 1) :
    Declares ctx (ctx.unit.unit.source.text name) (nested depth (.typeDeclaration n true)) := by
  obtain ⟨body, member, d, hbody, hmember, hkind, hd, hvalue⟩ := Node.mem_fieldValues hc
  have hbody' := Node.height_lt (List.mem_of_find?_eq_some hbody)
  have hmember' := Node.height_lt (List.mem_filter.1 hmember).1
  have hd' := Node.height_lt (List.mem_filter.1 hd).1
  have hvalue' := Node.height_lt (List.mem_of_find?_eq_some hvalue)
  obtain ⟨depth, rfl⟩ : ∃ k, depth = k + 3 := ⟨depth - 3, by omega⟩
  have hsub (depth : Nat) : ∀ left task, task.Lets (wholeView ctx) left →
      Blind (wholeView ctx) left (nested depth task) := blind_nested depth
  have hvalues (expected : Option GenericType) : Declares (wholeView ctx).ctx
      ((wholeView ctx).text name) (nested (depth + 1) (.initializer c expected)) :=
    (declares_initializer h (declares_nested_expression h (by omega))).before fun _ => .pure
  have hbodies (components : Option Node) : Declares (wholeView ctx).ctx
      ((wholeView ctx).text name) (nested (depth + 2) (.classBody body binary components)) :=
    (declares_classBody (hsub _) trivial hmember hkind hd hvalue hvalues).before fun _ => .pure
  exact (declares_typeDeclaration  (hsub _) trivial hbegins hbody
    hbodies).before fun _ => .pure

theorem declares_nested_statement {ctx : BindingContext} {depth : Nat} {n name : Node}
    (h : Exposes ctx n name) (hdepth : n.height ≤ depth) :
    Declares ctx (ctx.unit.unit.source.text name) (nested depth (.statement n)) := by
  have hpos : 0 < n.height := by
    cases n
    simp [Node.height]
  obtain ⟨depth, rfl⟩ : ∃ k, depth = k + 1 := ⟨depth - 1, by omega⟩
  have hwalk : Declares (wholeView ctx).ctx ((wholeView ctx).text name)
      (statement (nested depth) n) := by
    cases h with
    | condition hc h =>
      have hlt := Node.height_lt (Node.mem_children_of_mem_conditions hc)
      exact declares_condition (blind_nested depth) trivial hc
        (declares_nested_expression h (by omega))
    | field hkind hbegins hc h =>
      rw [statement_of_isTypeDeclaration hkind]
      exact .discard  (declares_nested_class hbegins hc h hdepth)
  exact hwalk.before fun _ => .pure

/-! ## Statements one after the other -/

/-- What is known after a statement. -/
def afterStatement (depth : Nat) (ctx : BindingContext) (n : Node) (s : BindingState) :
    BindingState :=
  (nested depth (.statement n) ctx s).2

/-- All that has been reported after some statements. -/
def reported (depth : Nat) (ctx : BindingContext) (nodes : List Node) (s : BindingState) :
    List Occurrence × List Diagnostic :=
  let final := (statements (nested depth) nodes ctx s).2
  (final.occurrences, final.diagnostics)

/-- Some statements, and the names of some variables that they do not mention. -/
def viewWithout (ctx : BindingContext) (nodes : List Node) (vs : List Variable)
    (h : ∀ n ∈ nodes, ∀ v ∈ vs, ¬n.Mentions ctx.unit.unit.source v.name) : View where
  ctx
  T m := ∃ n ∈ nodes, n.Below m
  hidden name := ∃ v ∈ vs, v.name = name
  children := fun ⟨n, hn, hm⟩ _ hc => ⟨n, hn, hm.child hc⟩
  seen := fun ⟨n, hn, hm⟩ hkind ⟨v, hv, hname⟩ => h n hn v hv ⟨_, hm, hkind, hname.symm⟩

/-- A statement adds to the block around it variables whose names leave the statement, with those
that it exposes among them. -/
theorem exists_leaked {ctx : BindingContext} {depth : Nat} {n : Node} {s : BindingState}
    {declared : List Variable} {outer : List VariableFrame}
    (hs : s.frames = .block declared :: outer) :
    ∃ leaked : List Variable,
      (afterStatement depth ctx n s).frames = .block (leaked ++ declared) :: outer ∧
      (∀ v ∈ leaked, n.kind.opensBlock = false ∧
        ∃ name, n.Leaves name ∧ v.name = ctx.unit.unit.source.text name) ∧
      (s.methods ≠ [] → n.height ≤ depth → ∀ name, Exposes ctx n name →
        ∃ v ∈ leaked, v.name = ctx.unit.unit.source.text name) := by
  let left (x : String) : Prop :=
    n.kind.opensBlock = false ∧ ∃ name, n.Leaves name ∧ x = ctx.unit.unit.source.text name
  have hlets : Task.Lets (wholeView ctx) left (.statement n) :=
    ⟨trivial, fun hopen => ⟨trivial, fun name hname => ⟨hopen, name, hname, rfl⟩⟩⟩
  obtain ⟨vs, hvs, hframes, -, -⟩ := blind_nested depth left _ hlets s s.frames (alike_refl _)
  rw [hs, addVariables_block] at hframes
  refine ⟨vs.reverse, hframes, fun v hv => hvs v (List.mem_reverse.1 hv), ?_⟩
  intro hmethods hdepth name hname
  obtain ⟨ws, ⟨w, hw, hwname⟩, hframes'⟩ := declares_nested_statement hname hdepth s hmethods
  rw [hs, addVariables_block] at hframes'
  -- The frames tell which variables were added.
  have hsame : ws.reverse ++ declared = vs.reverse ++ declared :=
    VariableFrame.block.inj (List.cons.inj (hframes'.symm.trans hframes)).1
  refine ⟨w, ?_, hwname⟩
  rw [← List.append_cancel_right hsame]
  exact List.mem_reverse.2 hw

/-- Statements that do not mention the names of some variables are walked alike without them. -/
theorem reported_without {ctx : BindingContext} {depth : Nat} {nodes : List Node}
    {s : BindingState} {vs declared : List Variable} {outer : List VariableFrame}
    (hs : s.frames = .block (vs ++ declared) :: outer)
    (h : ∀ n ∈ nodes, ∀ v ∈ vs, ¬n.Mentions ctx.unit.unit.source v.name) :
    reported depth ctx nodes s =
      reported depth ctx nodes (s.withFrames (.block declared :: outer)) := by
  let V := viewWithout ctx nodes vs h
  have hwalk : Blind V (fun _ => True) (statements (nested depth) nodes) :=
    blind_statements (blind_nested depth) fun n hn => lets_statement_all ⟨n, hn, .self⟩
  have halike : V.Alike s.frames (.block declared :: outer) :=
    hs ▸ alike_block fun v hv => ⟨v, hv, rfl⟩
  obtain ⟨_, -, -, -, hrun⟩ := hwalk s _ halike
  have hstate := congrArg Prod.snd hrun
  exact (congrArg (fun t : BindingState => (t.occurrences, t.diagnostics)) hstate).symm

/-- After a statement of a block, the block has more variables by those that leaked out of the
statement: none if the statement opens a block, else ones whose names leave it, and all those that
it exposes. A name is looked up among them first, and then as before; and statements that do not
mention any of their names are bound as if they were not in scope. -/
theorem leaked_alone_rebind {ctx : BindingContext} {depth : Nat} {n : Node} {s : BindingState}
    {declared : List Variable} {outer : List VariableFrame}
    (hs : s.frames = .block declared :: outer) :
    ∃ leaked : List Variable,
      (afterStatement depth ctx n s).frames = .block (leaked ++ declared) :: outer ∧
      (∀ v ∈ leaked, n.kind.opensBlock = false ∧
        ∃ name, n.Leaves name ∧ v.name = ctx.unit.unit.source.text name) ∧
      (s.methods ≠ [] → n.height ≤ depth → ∀ name, Exposes ctx n name →
        ∃ v ∈ leaked, v.name = ctx.unit.unit.source.text name) ∧
      (∀ name, (afterStatement depth ctx n s).frames.findSome?
          (VariableFrame.find? ctx.index name) =
        ((leaked.find? (·.name == name)).map .variable).or
          (s.frames.findSome? (VariableFrame.find? ctx.index name))) ∧
      ∀ later : List Node,
        (∀ l ∈ later, ∀ v ∈ leaked, ¬l.Mentions ctx.unit.unit.source v.name) →
        reported depth ctx later (afterStatement depth ctx n s) =
          reported depth ctx later ((afterStatement depth ctx n s).withFrames s.frames) := by
  obtain ⟨leaked, hframes, hleaves, hexposed⟩ := @exists_leaked ctx depth n s declared outer hs
  refine ⟨leaked, hframes, hleaves, hexposed, fun name => ?_, fun later hlater => ?_⟩
  · rw [hframes, hs]
    simp only [List.findSome?_cons, VariableFrame.find?, List.find?_append]
    cases leaked.find? (·.name == name) with
    | none => rfl
    | some v => rfl
  · rw [hs]
    exact reported_without hframes hlater

/-! ## A loop -/

/-- Where `while (o instanceof T s) { T t; } x` stands in a method. -/
def loopContext : BindingContext where
  index := {}
  unit := { unit := ⟨"A.java", .ofString "while (o instanceof T s) { T t; } x", none⟩ }

def loopState : BindingState where
  scope := { header := {} }
  frames := [.block []]
  methods := [some "A.f()V"]

def wordNode (role : Option Role) (start : Nat) : Node :=
  .mk .identifier role ⟨start, start + 1⟩ "" []

def typeNodeAt (role : Role) (start : Nat) : Node :=
  .mk .typeIdentifier (some role) ⟨start, start + 1⟩ "" []

def loopNode : Node :=
  .mk .whileStatement none ⟨0, 33⟩ ""
    [.mk .parenthesized (some .condition) ⟨6, 24⟩ ""
      [.mk .instanceofExpression none ⟨7, 23⟩ ""
        [wordNode (some .left) 7, typeNodeAt .right 20, wordNode (some .name) 22]],
    .mk .block (some .body) ⟨25, 33⟩ ""
      [.mk .localVariables none ⟨27, 31⟩ ""
        [typeNodeAt .type 27, .mk .variableDeclarator (some .declarator) ⟨29, 30⟩ ""
          [wordNode (some .name) 29]]]]

/-- After the loop its pattern variable is in scope, but not the variable of its body. Other names
are not affected. -/
theorem leaked_alone_rebind_loop :
    ∃ leaked : List Variable, leaked.map Variable.name = ["s"] ∧
      (afterStatement 9 loopContext loopNode loopState).frames = [.block leaked] ∧
      reported 9 loopContext [wordNode none 34] (afterStatement 9 loopContext loopNode loopState) =
        reported 9 loopContext [wordNode none 34]
          ((afterStatement 9 loopContext loopNode loopState).withFrames [.block []]) := by
  obtain ⟨leaked, hframes, -, -, -, hlater⟩ :=
    @leaked_alone_rebind loopContext 9 loopNode loopState [] [] rfl
  rw [List.append_nil] at hframes
  have hnames : (afterStatement 9 loopContext loopNode loopState).frames.map
      (fun frame => frame.variables.map Variable.name) = [["s"]] := by
    decide +kernel
  rw [hframes] at hnames
  have hleaked : leaked.map Variable.name = ["s"] := (List.cons.inj hnames).1
  refine ⟨leaked, hleaked, hframes, hlater _ fun l hl v hv => ?_⟩
  rintro ⟨m, hm, -, htext⟩
  have hv : v.name = "s" := by
    have hmem := List.mem_map_of_mem (f := Variable.name) hv
    rw [hleaked] at hmem
    simpa using hmem
  cases List.mem_singleton.1 hl
  rw [hv] at htext
  cases hm with
  | self => exact absurd htext (by decide +kernel)
  | down hc _ => cases hc

end Binding

/-- The pattern variable of a class that is declared in a constructor takes the place of the field
`s` after the class if it has the same name. -/
theorem pattern_leaves_class :
    soleSignatures ("class O { } class A extends O " ++
        "{ A s; A(O o) { class B { boolean b = o instanceof A t; } s = null; } }") =
      [["O", "A", "O", "A", "A.s", "A", "O", "A.<init>(LO;)V#0", "A$1B", "A$1B.b",
        "A.<init>(LO;)V#0", "A", "A$1B.<instinit>()V@t:0", "A.s"]] ∧
    soleSignatures ("class O { } class A extends O " ++
        "{ A s; A(O o) { class B { boolean b = o instanceof A s; } s = null; } }") =
      [["O", "A", "O", "A", "A.s", "A", "O", "A.<init>(LO;)V#0", "A$1B", "A$1B.b",
        "A.<init>(LO;)V#0", "A", "A$1B.<instinit>()V@s:0", "A$1B.<instinit>()V@s:0"]] := by
  constructor
  · decide +kernel
  · decide +kernel

end Renaming.Java
