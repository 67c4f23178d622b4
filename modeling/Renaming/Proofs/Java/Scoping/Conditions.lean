import Renaming.Proofs.Java.Scoping.Declarations

/-!
# Variables of conditions and of fields

The type tests in the condition of a statement, and in the values of the fields of a local class,
declare their variables in the block around the statement. Nothing takes them out of it again before
the block ends, since a walk only adds variables to it.
-/

namespace Renaming.Java.Binding

/-- A walk that adds a variable of a name to the innermost block, if it is in a method. -/
def Declares {α : Type} (ctx : BindingContext) (name : String) (act : Binding α) : Prop :=
  ∀ s, s.methods ≠ [] → ∃ vs : List Variable, (∃ v ∈ vs, v.name = name) ∧
    (act ctx s).2.frames = addVariables vs s.frames

variable {V : View} {name : String} {α β : Type}

namespace Declares

theorem before {act : Binding α} {next : α → Binding β} (h : Declares V.ctx name act)
    (hnext : ∀ a, Blind V (fun _ => True) (next a)) : Declares V.ctx name (act >>= next) := by
  intro s hs
  obtain ⟨vs, ⟨v, hv, hname⟩, hframes⟩ := h s hs
  obtain ⟨ws, -, hframes', -, -⟩ := hnext (act V.ctx s).1 (act V.ctx s).2 _ (alike_refl _)
  refine ⟨vs ++ ws, ⟨v, List.mem_append_left ws hv, hname⟩, ?_⟩
  rw [addVariables_append, ← hframes]
  exact hframes'

theorem after {act : Binding α} {next : α → Binding β} (hact : Blind V (fun _ => True) act)
    (h : ∀ a, Declares V.ctx name (next a)) : Declares V.ctx name (act >>= next) := by
  intro s hs
  obtain ⟨vs, -, hframes, hmethods, -⟩ := hact s _ (alike_refl _)
  obtain ⟨ws, ⟨w, hw, hname⟩, hframes'⟩ :=
    h (act V.ctx s).1 (act V.ctx s).2 (by rw [hmethods]; exact hs)
  refine ⟨vs ++ ws, ⟨w, List.mem_append_right vs hw, hname⟩, ?_⟩
  rw [addVariables_append, ← hframes]
  exact hframes'

theorem read {next : BindingContext → Binding β} (h : Declares V.ctx name (next V.ctx)) :
    Declares V.ctx name (read >>= next) := h

theorem text {n : Node} {next : String → Binding β} (h : Declares V.ctx name (next (V.text n))) :
    Declares V.ctx name (Binding.text n >>= next) := h

theorem discard {act : Binding α} (h : Declares V.ctx name act) :
    Declares V.ctx name (discard act) := fun s hs => h s hs

theorem forM {l : List α} {f : α → Binding Unit} {a : α} (ha : a ∈ l)
    (h : Declares V.ctx name (f a)) (hall : ∀ b ∈ l, Blind V (fun _ => True) (f b)) :
    Declares V.ctx name (l.forM f) := by
  induction l with
  | nil => cases ha
  | cons b rest ih =>
    rw [List.forM_eq_forM, List.forM_cons]
    have hrest : ∀ c ∈ rest, Blind V (fun _ => True) (f c) := fun c hc => hall c (by simp [hc])
    rcases List.mem_cons.1 ha with rfl | ha
    · exact h.before fun _ => .forM hrest
    · exact .after (hall b (by simp)) fun _ => ih ha hrest

theorem mapM {l : List α} {f : α → Binding β} {a : α} (ha : a ∈ l)
    (h : Declares V.ctx name (f a)) (hall : ∀ b ∈ l, Blind V (fun _ => True) (f b)) :
    Declares V.ctx name (l.mapM f) := by
  induction l with
  | nil => cases ha
  | cons b rest ih =>
    rw [List.mapM_cons]
    have hrest : ∀ c ∈ rest, Blind V (fun _ => True) (f c) := fun c hc => hall c (by simp [hc])
    rcases List.mem_cons.1 ha with rfl | ha
    · exact h.before fun _ => .bind (.mapM hrest) fun _ => .pure
    · exact .after (hall b (by simp)) fun _ => (ih ha hrest).before fun _ => .pure

end Declares

theorem declares_withTypeFrame {frame : TypeFrame} {act : Binding α}
    (h : Declares V.ctx name act) : Declares V.ctx name (withTypeFrame frame act) :=
  .after (.modify (fun _ _ => rfl) fun _ => rfl) fun _ => h.before fun _ =>
    .bind (.modify (fun _ _ => rfl) fun _ => rfl) fun _ => .pure

/-- What is declared in the body of a class goes to the block around it. -/
theorem declares_withClass {binary : String} {act : Binding α} (h : Declares V.ctx name act) :
    Declares V.ctx name (withClass binary act) := by
  intro s hs
  have hinner : Declares V.ctx name (withTypeFrame (.classBody binary) act) :=
    declares_withTypeFrame h
  obtain ⟨vs, hvs, hframes⟩ := hinner (s.withFrames (.classBody binary :: s.frames)) hs
  refine ⟨vs, hvs, (congrArg List.tail hframes).trans ?_⟩
  exact congrArg List.tail (addVariables_classBody vs binary s.frames)

theorem declares_withMethod {signature : Option Signature} {act : Binding α}
    (h : Declares V.ctx name act) : Declares V.ctx name (withMethod signature act) :=
  fun s _ => h { s with methods := signature :: s.methods } (List.cons_ne_nil _ _)

theorem declares_declareLocal {n : Node} {type : ExprType} :
    Declares V.ctx (V.text n) (declareLocal n type) := by
  intro s hs
  obtain ⟨scope, frames, methods, locals, occurrences, diagnostics⟩ := s
  rcases methods with _ | ⟨_ | method, methods⟩
  · exact absurd rfl hs
  · exact ⟨[_], ⟨_, List.mem_singleton_self _, rfl⟩, rfl⟩
  · exact ⟨[_], ⟨_, List.mem_singleton_self _, rfl⟩, rfl⟩

section Inside

variable {sub : Task → Binding Meaning}
  (hsub : ∀ left task, task.Lets V left → Blind V left (sub task))
include hsub

omit hsub in
theorem declares_expression {c : Node} (h : Declares V.ctx name (sub (.expression c))) :
    Declares V.ctx name (expression sub c) := h.before fun _ => .pure

omit hsub in
theorem declares_expression? {o : Option Node} {c : Node} (hc : c ∈ o.toList)
    (h : Declares V.ctx name (sub (.expression c))) :
    Declares V.ctx name (expression? sub o) := by
  cases Option.mem_toList.1 hc
  exact declares_expression h

theorem declares_expressions {nodes : List Node} {c : Node} (hnodes : ∀ n ∈ nodes, V.T n)
    (hc : c ∈ nodes) (h : Declares V.ctx name (sub (.expression c))) :
    Declares V.ctx name (expressions sub nodes) :=
  .mapM hc (declares_expression h) fun n hn => blind_expression hsub (.all (hnodes n hn))

theorem declares_instanceofExpression {n d : Node} (hn : V.T n) (hd : n.child? .name = some d) :
    Declares V.ctx (V.text d) (instanceofExpression sub n) := by
  have hchild (role : Role) : ∀ c ∈ n.child? role, V.Fits (fun _ => True) c :=
    fun c hc => .all (Descends.child hn role c hc)
  refine .after (.discard (blind_expression? hsub (hchild _))) fun _ => ?_
  refine .after blind_typeNode? fun type => ?_
  rw [hd]
  refine declares_declareLocal.before fun _ => ?_
  split
  · rename_i p hp
    exact .bind (.discard (hsub _ _ (hchild _ p hp))) fun _ => .pure
  · exact .pure

/-- An operand of a kind of expression is walked with the others. -/
theorem declares_operand {n c : Node} (hn : V.T n) (hc : c ∈ n.operands)
    (h : Declares V.ctx name (sub (.expression c))) :
    Declares V.ctx name (expressionType sub n) := by
  have hchild (role : Role) : Blind V (fun _ => True) (expression? sub (n.child? role)) :=
    blind_expression? hsub fun c hc => .all (Descends.child hn role c hc)
  have hnamed (hc : c ∈ n.namedChildren) :
      Declares V.ctx name (lastExpression sub n.namedChildren) :=
    (declares_expressions hsub (Descends.named hn) hc h).before fun _ => .pure
  unfold Node.operands at hc
  split at hc <;> rename_i hkind <;> simp only [expressionType, hkind] <;> refine .read ?_
  · exact hnamed hc
  · exact hnamed hc
  · rcases List.mem_append.1 hc with hc | hc
    · exact (declares_expression? hc h).before fun _ => .bind (hchild _) fun _ => .pure
    · exact .after (hchild _) fun _ => (declares_expression? hc h).before fun _ => .pure
  · rcases List.mem_append.1 hc with hc | hc
    · exact (declares_expression? hc h).before fun _ => .bind (.discard (hchild _)) fun _ => .pure
    · exact .after (hchild _) fun _ => (declares_expression? hc h).discard.before fun _ => .pure
  · exact (declares_expression? hc h).before fun _ => .pure
  · rcases List.mem_append.1 hc with hc | hc
    · rcases List.mem_append.1 hc with hc | hc
      · exact (declares_expression? hc h).discard.before fun _ =>
          .bind (hchild _) fun _ => .bind (hchild _) fun _ => .pure
      · exact .after (.discard (hchild _)) fun _ =>
          (declares_expression? hc h).before fun _ => .bind (hchild _) fun _ => .pure
    · exact .after (.discard (hchild _)) fun _ => .after (hchild _) fun _ =>
        (declares_expression? hc h).before fun _ => .pure
  · cases hc

/-- A condition is walked in the block around its statement. -/
theorem declares_condition {n c : Node} (hn : V.T n) (hc : c ∈ n.conditions)
    (h : Declares V.ctx name (sub (.expression c))) : Declares V.ctx name (statement sub n) := by
  have hnamed (hc : c ∈ n.namedChildren) :
      Declares V.ctx name (discard (expressions sub n.namedChildren)) :=
    (declares_expressions hsub (Descends.named hn) hc h).discard
  have hparts (hc : c ∈ n.namedChildren.filter fun c => !c.kind.isStatement) :
      Declares V.ctx name (n.namedChildren.forM (statementOrExpression sub)) := by
    obtain ⟨hmem, hvalue⟩ := List.mem_filter.1 hc
    refine .forM hmem ?_ fun b hb => ?_
    · rw [statementOrExpression, if_neg (by simpa using hvalue)]
      exact (declares_expression h).discard
    · have hb' : V.Fits (fun _ => True) b := .all (Descends.named hn b hb)
      exact blind_statementOrExpression hsub hb'.mem (fun _ _ => hb') fun _ => hb'
  unfold Node.conditions at hc
  split at hc <;> rename_i hkind <;> simp only [statement, hkind]
  · exact hnamed hc
  · exact hnamed hc
  · refine (declares_expression? hc h).discard.before fun _ => ?_
    have hbranch (role : Role) : Blind V (fun _ => True) (statement? sub (n.child? role)) :=
      blind_statement? hsub fun c hc => lets_statement_all (Descends.child hn role c hc)
    exact .bind (hbranch _) fun _ => hbranch _
  · exact hparts hc
  · exact hparts hc
  · exact hparts hc
  · exact hparts hc
  · exact hparts hc
  · exact hparts hc
  · exact hparts hc
  · cases hc

/-! ## Fields of local classes -/

omit hsub in
theorem declares_initializer {n : Node} {expected : Option GenericType} {d : Node}
    (hd : n.Tests d) (h : Declares V.ctx name (sub (.expression n))) :
    Declares V.ctx name (initializer sub n expected) := by
  -- Lambdas and arrays of values have no operands, and are no type tests.
  have hkind : n.kind ≠ .lambda ∧ n.kind ≠ .arrayInitializer := by
    cases hd with
    | here hkind => simp [hkind]
    | operand hc =>
      refine ⟨fun hkind => ?_, fun hkind => ?_⟩ <;> simp [Node.operands, hkind] at hc
  unfold initializer
  split
  · exact absurd ‹_› hkind.1
  · exact absurd ‹_› hkind.2
  · exact declares_expression h

omit hsub in
theorem declares_fieldDeclarator {binary : String} {type : Option GenericType} {d value : Node}
    (hvalue : d.child? .value = some value)
    (h : ∀ expected, Declares V.ctx name (sub (.initializer value expected))) :
    Declares V.ctx name (fieldDeclarator sub binary type d) := by
  unfold fieldDeclarator
  extract_lets rest
  have hrest : ∀ u, Declares V.ctx name (rest u) := by
    intro u
    simp only [rest]
    rw [hvalue]
    exact .after blind_dims fun _ => (h _).discard
  split
  · exact .text (.after blind_emitWith hrest)
  · exact hrest ()

theorem declares_fields {n d value : Node} {binary : String} {inInterface : Bool} (hn : V.T n)
    (hd : d ∈ n.childrenIn .declarator) (hvalue : d.child? .value = some value)
    (h : ∀ expected, Declares V.ctx name (sub (.initializer value expected))) :
    Declares V.ctx name (fields sub n binary inInterface) := by
  rw [fields_eq]
  refine .after (blind_annotations hsub (.all hn)) fun _ => .after blind_typeNode? fun type => ?_
  refine declares_withMethod (.forM hd (declares_fieldDeclarator hvalue h) fun b hb => ?_)
  have hb' : V.T b := Descends.inRole hn _ b hb
  exact blind_fieldDeclarator hsub fun c hc => .all (Descends.child hb' _ c hc)

theorem declares_classBody {n m d value : Node} {binary : String} {components : Option Node}
    (hn : V.T n) (hm : m ∈ n.namedChildren) (hkind : m.kind = .fieldDeclaration)
    (hd : d ∈ m.childrenIn .declarator) (hvalue : d.child? .value = some value)
    (h : ∀ expected, Declares V.ctx name (sub (.initializer value expected))) :
    Declares V.ctx name (classBody sub n binary components) := by
  refine .read (.forM hm ?_ fun b hb => ?_)
  · simp only [member, hkind]
    exact declares_fields hsub (Descends.named hn m hm) hd hvalue h
  · have hb' : V.T b := Descends.named hn b hb
    exact blind_member hsub hb' fun _ => .all hb'

theorem declares_typeBody {n body : Node} {binary : String} (hn : V.T n)
    (hbody : n.child? .body = some body)
    (h : ∀ components, Declares V.ctx name (sub (.classBody body binary components))) :
    Declares V.ctx name (typeBody sub n binary) := by
  unfold typeBody
  rw [hbody]
  refine declares_withClass ?_
  extract_lets components
  refine .after (.forM fun c hc => ?_) fun _ => (h components).discard
  refine blind_recordComponent hsub (.all (Descends.grandchildren (fun list hlist => ?_) c hc))
  simp only [components] at hlist
  split at hlist
  · exact Descends.child hn _ list hlist
  · cases hlist

theorem declares_typeDeclaration {n body : Node} {binary : String} {inBlock : Bool} (hn : V.T n)
    (hbegins : V.ctx.unit.types.get? n.start = some binary)
    (hbody : n.child? .body = some body)
    (h : ∀ components, Declares V.ctx name (sub (.classBody body binary components))) :
    Declares V.ctx name (typeDeclaration sub n inBlock) := by
  refine .read ?_
  rw [hbegins]
  refine .after (blind_annotations hsub (.all hn)) fun _ => ?_
  extract_lets rest
  have hrest : ∀ u, Declares V.ctx name (rest u) := fun _ =>
    .after (blind_typeParameters hsub (.all hn)) fun _ => declares_withTypeFrame <|
      .after (.forM fun _ _ => blind_typeNodes) fun _ => declares_typeBody hsub hn hbody h
  split
  · exact hrest ()
  · split
    · exact .text (.after (.modify (fun _ _ => rfl) fun _ => rfl) fun _ =>
        .after blind_emitWith hrest)
    · exact .after blind_emitWith hrest

end Inside

end Renaming.Java.Binding
