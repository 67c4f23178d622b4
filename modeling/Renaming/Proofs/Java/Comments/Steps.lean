import Renaming.Java.Binding.Declarations
import Renaming.Proofs.Java.Comments.Units

/-!
# Walks around a comment

A walk over a tree with a comment put in finds what the walk over the tree before finds, where it is
after the insertion. Only what is said about names without meaning may differ.
-/

namespace Renaming.Java

open Node (Echo Respelled)

/-- An occurrence where it is after an insertion. -/
def Insertion.occurrence (i : Insertion) (o : Occurrence) : Occurrence :=
  { o with span := i.span o.span }

/-- The state with its occurrences where they are after an insertion, and with other diagnostics. -/
def BindingState.moved (i : Insertion) (s : BindingState) (diagnostics : List Diagnostic) :
    BindingState :=
  { s with occurrences := s.occurrences.map i.occurrence, diagnostics }

/-- A meaning where it is after an insertion. -/
def Meaning.moved (i : Insertion) : Meaning → Meaning
  | package name start => .package name (i.start start)
  | m => m

/-- A unit in two programs, in the second with a comment put in. -/
structure Rebinding extends Rereading where
  ctx : BindingContext
  ctx' : BindingContext
  index_eq : ctx'.index = ctx.index
  unit : ctx.unit.Echo toRereading ctx'.unit

namespace Binding

variable {V : Rebinding} {α β γ δ : Type}

/-- Walks with results that correspond, that find the same where it is after an insertion. -/
def Follows (V : Rebinding) (R : α → β → Prop) (act : Binding α) (act' : Binding β) : Prop :=
  ∀ s ds, ∃ ds', R (act V.ctx s).1 (act' V.ctx' (s.moved V.toInsertion ds)).1 ∧
    (act' V.ctx' (s.moved V.toInsertion ds)).2 = (act V.ctx s).2.moved V.toInsertion ds'

/-- A walk that finds nothing. -/
def Idle (ctx : BindingContext) (a : α) (act : Binding α) : Prop :=
  ∀ s, ∃ diagnostics, act ctx s = (a, { s with diagnostics })

namespace Idle

variable {ctx : BindingContext}

theorem pure {a : α} : Idle ctx a (pure a) := fun s => ⟨s.diagnostics, rfl⟩

theorem bind {act : Binding α} {next : α → Binding β} {a : α} {b : β} (h : Idle ctx a act)
    (hnext : Idle ctx b (next a)) : Idle ctx b (act >>= next) := by
  intro s
  obtain ⟨ds, hrun⟩ := h s
  obtain ⟨ds', hrun'⟩ := hnext { s with diagnostics := ds }
  refine ⟨ds', ?_⟩
  change next (act ctx s).1 ctx (act ctx s).2 = _
  rw [hrun]
  exact hrun'

theorem discard {act : Binding α} {a : α} (h : Idle ctx a act) : Idle ctx () (discard act) := by
  intro s
  obtain ⟨ds, hrun⟩ := h s
  exact ⟨ds, congrArg (fun r : α × BindingState => ((), r.2)) hrun⟩

theorem diagnose {offset : Nat} {kind : DiagnosticKind} {message : String} :
    Idle ctx () (diagnose offset kind message) := fun _ => ⟨_, rfl⟩

theorem forIn {l : List α} {f : α → PUnit → Binding (ForInStep PUnit)}
    (h : ∀ a, Idle ctx (.yield ⟨⟩) (f a ⟨⟩)) : Idle ctx ⟨⟩ (forIn l ⟨⟩ f) := by
  induction l with
  | nil => exact pure
  | cons a rest ih =>
    rw [List.forIn_cons]
    exact bind (h a) ih

theorem typeContext {next : TypeContext → Binding α} {a : α}
    (h : ∀ types, Idle ctx a (next types)) : Idle ctx a (typeContext >>= next) := fun s => h _ s

theorem withTypeFrame {frame : TypeFrame} {act : Binding α} {a : α} (h : Idle ctx a act) :
    Idle ctx a (withTypeFrame frame act) := by
  intro s
  obtain ⟨ds, hrun⟩ := h { s with scope := s.scope.push frame }
  refine ⟨ds, ?_⟩
  have hframe : Binding.withTypeFrame frame act ctx s =
      let r := act ctx { s with scope := s.scope.push frame }
      (r.1, { r.2 with scope := r.2.scope.pop }) := rfl
  rw [hframe, hrun]
  rfl

theorem withVariableFrame {frame : VariableFrame} {act : Binding α} {a : α} (h : Idle ctx a act) :
    Idle ctx a (withVariableFrame frame act) := by
  intro s
  obtain ⟨ds, hrun⟩ := h { s with frames := frame :: s.frames }
  refine ⟨ds, ?_⟩
  have hframe : Binding.withVariableFrame frame act ctx s =
      let r := act ctx { s with frames := frame :: s.frames }
      (r.1, { r.2 with frames := r.2.frames.tail }) := rfl
  rw [hframe, hrun]
  rfl

theorem withBlock {act : Binding α} {a : α} (h : Idle ctx a act) : Idle ctx a (withBlock act) :=
  withVariableFrame (withTypeFrame h)

end Idle

namespace Follows

variable {R : α → β → Prop} {Q : γ → δ → Prop}

theorem pure {a : α} {b : β} (h : R a b) : Follows V R (pure a) (pure b) :=
  fun _ ds => ⟨ds, h, rfl⟩

theorem bind {act : Binding α} {act' : Binding β} {next : α → Binding γ} {next' : β → Binding δ}
    (h : Follows V R act act') (hnext : ∀ a b, R a b → Follows V Q (next a) (next' b)) :
    Follows V Q (act >>= next) (act' >>= next') := by
  intro s ds
  obtain ⟨ds', hab, hstate⟩ := h s ds
  obtain ⟨ds'', hcd, hstate'⟩ := hnext _ _ hab (act V.ctx s).2 ds'
  refine ⟨ds'', ?_⟩
  rw [← hstate] at hcd hstate'
  exact ⟨hcd, hstate'⟩

/-- One after the other, where nothing is done with the result of the first. -/
theorem andThen {act : Binding PUnit} {act' : Binding PUnit} {next : PUnit → Binding γ}
    {next' : PUnit → Binding δ} (h : Follows V Eq act act')
    (hnext : Follows V Q (next ⟨⟩) (next' ⟨⟩)) : Follows V Q (act >>= next) (act' >>= next') :=
  bind h fun _ _ _ => hnext

theorem imp {R' : α → β → Prop} {act : Binding α} {act' : Binding β} (h : Follows V R act act')
    (hR : ∀ a b, R a b → R' a b) : Follows V R' act act' := by
  intro s ds
  obtain ⟨ds', hab, hstate⟩ := h s ds
  exact ⟨ds', hR _ _ hab, hstate⟩

theorem idle {act : Binding α} {act' : Binding β} {a : α} {b : β} (h : Idle V.ctx a act)
    (h' : Idle V.ctx' b act') (hab : R a b) : Follows V R act act' := by
  intro s ds
  obtain ⟨ds₁, hrun⟩ := h s
  obtain ⟨ds₂, hrun'⟩ := h' (s.moved V.toInsertion ds)
  refine ⟨ds₂, ?_⟩
  rw [hrun, hrun']
  exact ⟨hab, rfl⟩

/-- What finds nothing may come in between. -/
theorem skip {act : Binding α} {between : Binding γ} {c : γ} {next' : γ → Binding β}
    (hidle : Idle V.ctx' c between) (h : Follows V R act (next' c)) :
    Follows V R act (between >>= next') := by
  intro s ds
  obtain ⟨ds', hrun⟩ := hidle (s.moved V.toInsertion ds)
  obtain ⟨ds'', hab, hstate⟩ := h s ds'
  refine ⟨ds'', ?_⟩
  have hnext : (between >>= next') V.ctx' (s.moved V.toInsertion ds) =
      next' c V.ctx' (s.moved V.toInsertion ds') := by
    change next' (between V.ctx' _).1 V.ctx' (between V.ctx' _).2 = _
    rw [hrun]
    rfl
  rw [hnext]
  exact ⟨hab, hstate⟩

theorem read {next : BindingContext → Binding α} {next' : BindingContext → Binding β}
    (h : Follows V R (next V.ctx) (next' V.ctx')) :
    Follows V R (read >>= next) (read >>= next') := h

theorem get {next : BindingState → Binding α} {next' : BindingState → Binding β}
    (h : ∀ s ds, Follows V R (next s) (next' (s.moved V.toInsertion ds))) :
    Follows V R (get >>= next) (get >>= next') := fun s ds => h s ds s ds

theorem modify {f f' : BindingState → BindingState}
    (h : ∀ s ds, ∃ ds', f' (s.moved V.toInsertion ds) = (f s).moved V.toInsertion ds') :
    Follows V Eq (modify f : Binding Unit) (modify f') := by
  intro s ds
  obtain ⟨ds', heq⟩ := h s ds
  exact ⟨ds', rfl, heq⟩

theorem discard {act : Binding α} {act' : Binding β} (h : Follows V R act act') :
    Follows V Eq (discard act) (discard act') := by
  intro s ds
  obtain ⟨ds', -, hstate⟩ := h s ds
  exact ⟨ds', rfl, hstate⟩

section Lists

variable {S : γ → δ → Prop} {l : List γ} {l' : List δ} (hl : List.Forall₂ S l l')
include hl

theorem forM {f : γ → Binding Unit} {f' : δ → Binding Unit}
    (h : ∀ c c', S c c' → Follows V Eq (f c) (f' c')) : Follows V Eq (l.forM f) (l'.forM f') := by
  induction hl with
  | nil => exact pure rfl
  | cons hc _ ih =>
    rw [List.forM_eq_forM, List.forM_eq_forM, List.forM_cons, List.forM_cons]
    exact andThen (h _ _ hc) ih

theorem mapM {f : γ → Binding α} {f' : δ → Binding β}
    (h : ∀ c c', S c c' → Follows V R (f c) (f' c')) :
    Follows V (List.Forall₂ R) (l.mapM f) (l'.mapM f') := by
  induction hl with
  | nil => exact pure .nil
  | cons hc _ ih =>
    rw [List.mapM_cons, List.mapM_cons]
    exact bind (h _ _ hc) fun _ _ hab => bind ih fun _ _ hrest => pure (.cons hab hrest)

theorem foldlM {b : α} {f : α → γ → Binding α} {f' : α → δ → Binding α}
    (h : ∀ b c c', S c c' → Follows V Eq (f b c) (f' b c')) :
    Follows V Eq (l.foldlM f b) (l'.foldlM f' b) := by
  induction hl generalizing b with
  | nil => exact pure rfl
  | cons hc _ ih =>
    rw [List.foldlM_cons, List.foldlM_cons]
    refine bind (h b _ _ hc) fun b b' hb => ?_
    subst hb
    exact ih

theorem forIn {b : α} {f : γ → α → Binding (ForInStep α)} {f' : δ → α → Binding (ForInStep α)}
    (h : ∀ c c' b, S c c' → Follows V Eq (f c b) (f' c' b)) :
    Follows V Eq (forIn l b f) (forIn l' b f') := by
  induction hl generalizing b with
  | nil => exact pure rfl
  | cons hc _ ih =>
    rw [List.forIn_cons, List.forIn_cons]
    refine bind (h _ _ b hc) fun step step' hstep => ?_
    subst hstep
    cases step with
    | done b => exact pure rfl
    | yield b => exact ih

end Lists

section Joined

variable {S : Node → Node → Prop} {ns ns' : List Node} (hns : Joined V.toInsertion S ns ns')
include hns

theorem forM_joined {f f' : Node → Binding Unit}
    (h : ∀ n n', S n n' → Follows V Eq (f n) (f' n'))
    (hadded : ∀ c, V.adds c = true → Idle V.ctx' () (f' c)) :
    Follows V Eq (ns.forM f) (ns'.forM f') := by
  induction hns with
  | nil => exact pure rfl
  | cons hn _ ih =>
    rw [List.forM_eq_forM, List.forM_cons, List.forM_cons]
    exact andThen (h _ _ hn) ih
  | @added c _ _ hc _ ih =>
    rw [List.forM_eq_forM, List.forM_cons]
    exact skip (hadded c hc) ih

/-- What is made of the nodes that were put in comes in between. -/
theorem mapM_joined {f : Node → Binding α} {f' : Node → Binding β} {b : β}
    (P : List α → List β → Prop) (hnil : P [] [])
    (hcons : ∀ a b as bs, R a b → P as bs → P (a :: as) (b :: bs))
    (hextra : ∀ as bs, P as bs → P as (b :: bs)) (h : ∀ n n', S n n' → Follows V R (f n) (f' n'))
    (hadded : ∀ c, V.adds c = true → Idle V.ctx' b (f' c)) :
    Follows V P (ns.mapM f) (ns'.mapM f') := by
  induction hns with
  | nil => exact pure hnil
  | cons hn _ ih =>
    rw [List.mapM_cons, List.mapM_cons]
    exact bind (h _ _ hn) fun _ _ hab => bind ih fun _ _ hrest => pure (hcons _ _ _ _ hab hrest)
  | @added c _ _ hc _ ih =>
    rw [List.mapM_cons]
    refine skip (hadded c hc) ?_
    rw [← bind_pure (List.mapM f _)]
    exact bind ih fun _ _ hrest => pure (hextra _ _ hrest)

end Joined

end Follows

/-! ## Findings -/

section Findings

variable {n n' : Node}

theorem source_eq : V.ctx.unit.unit.source = V.source := V.unit.parsed.source

theorem source'_eq : V.ctx'.unit.unit.source = V.source' := V.unit.parsed.source'

theorem follows_text {R : α → β → Prop} {next : String → Binding α} {next' : String → Binding β}
    (h : Follows V R (next (V.source.text n)) (next' (V.source'.text n'))) :
    Follows V R (text n >>= next) (text n' >>= next') := by
  rw [← source_eq, ← source'_eq] at h
  exact h

/-- A text that is read. -/
theorem follows_spelled {R : α → β → Prop} {next : String → Binding α} {next' : String → Binding β}
    (htext : V.source'.text n' = V.source.text n)
    (h : Follows V R (next (V.source.text n)) (next' (V.source.text n))) :
    Follows V R (text n >>= next) (text n' >>= next') :=
  follows_text (htext ▸ h)

theorem follows_dims {R : α → β → Prop} {next : Nat → Binding α} {next' : Nat → Binding β}
    (hn : Echo V.toInsertion n n') (hrole : n.role = some .declarator)
    (h : ∀ dims, Follows V R (next dims) (next' dims)) :
    Follows V R (dims n >>= next) (dims n' >>= next') := by
  have hdims : V.ctx'.unit.unit.source.dimensionCount (n'.child? .dimensions) =
      V.ctx.unit.unit.source.dimensionCount (n.child? .dimensions) := by
    rw [source_eq, source'_eq]
    exact hn.dimensionCount_eq (.inr hrole)
  change Follows V R (fun _ => next (V.ctx.unit.unit.source.dimensionCount _) V.ctx)
    (fun _ => next' (V.ctx'.unit.unit.source.dimensionCount _) V.ctx')
  rw [hdims]
  exact h _

theorem follows_emitWith {span span' : Span} (hspan : span' = V.span span) {signature : Signature}
    {kind : SymbolKind} {fallbacks : List Signature} :
    Follows V Eq (emitWith span signature kind fallbacks)
      (emitWith span' signature kind fallbacks) := by
  subst hspan
  exact .modify fun _ ds => ⟨ds, rfl⟩

theorem follows_emit (h : Echo V.toInsertion n n') {signature : Signature} {kind : SymbolKind} :
    Follows V Eq (emit n signature kind) (emit n' signature kind) :=
  follows_emitWith h.span_eq

theorem follows_emitMethod (h : Echo V.toInsertion n n') {owner : String} {m : MethodDeclaration} :
    Follows V Eq (emitMethod n owner m) (emitMethod n' owner m) := by
  refine .read ?_
  rw [V.index_eq]
  exact follows_emitWith h.span_eq

theorem follows_diagnose {offset offset' : Nat} {kind kind' : DiagnosticKind}
    {message message' : String} :
    Follows V Eq (diagnose offset kind message) (diagnose offset' kind' message') :=
  .idle .diagnose .diagnose rfl

theorem follows_unresolved {message message' : String} :
    Follows V Eq (unresolved n message) (unresolved n' message') := follows_diagnose

end Findings

/-! ## Scopes -/

section Scopes

variable {R : α → β → Prop} {act : Binding α} {act' : Binding β}

theorem follows_withTypeFrame (h : Follows V R act act') (frame : TypeFrame) :
    Follows V R (withTypeFrame frame act) (withTypeFrame frame act') :=
  .andThen (.modify fun _ ds => ⟨ds, rfl⟩) <| h.bind fun _ _ hab =>
    .andThen (.modify fun _ ds => ⟨ds, rfl⟩) (.pure hab)

theorem follows_withVariableFrame (h : Follows V R act act') (frame : VariableFrame) :
    Follows V R (withVariableFrame frame act) (withVariableFrame frame act') :=
  .andThen (.modify fun _ ds => ⟨ds, rfl⟩) <| h.bind fun _ _ hab =>
    .andThen (.modify fun _ ds => ⟨ds, rfl⟩) (.pure hab)

theorem follows_withBlock (h : Follows V R act act') :
    Follows V R (withBlock act) (withBlock act') :=
  follows_withVariableFrame (follows_withTypeFrame h _) _

theorem follows_withClass (h : Follows V R act act') (binary : String) :
    Follows V R (withClass binary act) (withClass binary act') :=
  follows_withVariableFrame (follows_withTypeFrame h _) _

theorem follows_withMethod (h : Follows V R act act') (signature : Option Signature) :
    Follows V R (withMethod signature act) (withMethod signature act') :=
  .andThen (.modify fun _ ds => ⟨ds, rfl⟩) <| h.bind fun _ _ hab =>
    .andThen (.modify fun _ ds => ⟨ds, rfl⟩) (.pure hab)

theorem follows_currentClass? : Follows V Eq currentClass? currentClass? :=
  .get fun _ _ => .pure rfl

end Scopes

/-! ## Variables -/

section Variables

variable {n n' : Node}

theorem follows_bind {v : Variable} : Follows V Eq (bind v) (bind v) :=
  .modify fun _ ds => ⟨ds, rfl⟩

theorem follows_nextLocal {method : Signature} {name : String} :
    Follows V Eq (nextLocal method name) (nextLocal method name) :=
  .get fun _ _ => .andThen (.modify fun _ ds => ⟨ds, rfl⟩) (.pure rfl)

theorem follows_declareLocal (h : Respelled V.toRereading n n') (type : ExprType) :
    Follows V Eq (declareLocal n type) (declareLocal n' type) := by
  refine .get fun s ds => ?_
  rw [show (s.moved V.toInsertion ds).methods = s.methods from rfl]
  cases s.methods with
  | nil => exact .pure rfl
  | cons method rest =>
    refine follows_spelled h.text_eq ?_
    refine .bind (R := Eq) ?_ fun signature signature' hsignature => ?_
    · cases method with
      | none => exact .pure rfl
      | some m => exact .bind follows_nextLocal fun _ _ hs => .pure (congrArg some hs)
    · subst hsignature
      cases signature with
      | none => exact follows_bind
      | some s => exact .andThen (follows_emit h.echo) follows_bind

theorem follows_variableNamed? {name : String} :
    Follows V Eq (variableNamed? name) (variableNamed? name) := by
  refine .read (.get fun s ds => ?_)
  rw [V.index_eq]
  exact .pure rfl

theorem follows_useVariable (h : Respelled V.toRereading n n') (v : VariableRef) :
    Follows V Eq (useVariable n v) (useVariable n' v) := by
  rcases v with ⟨name, signature, kind, type⟩ | ⟨owner, type⟩
  · cases signature with
    | none => exact .pure rfl
    | some signature => exact .andThen (follows_emit h.echo) (.pure rfl)
  · exact follows_spelled h.text_eq (.andThen (follows_emit h.echo) (.pure rfl))

end Variables

/-! ## Types -/

section Types

variable {n n' : Node}

theorem follows_typeContext : Follows V
    (fun ctx ctx' => ∃ scope, ctx = ⟨V.ctx.index, V.source, scope⟩ ∧
      ctx' = ⟨V.ctx.index, V.source', scope⟩) typeContext typeContext := by
  refine .read (.get fun s ds => .pure ⟨s.scope, ?_, ?_⟩)
  · rw [source_eq]
  · rw [source'_eq, V.index_eq]
    rfl

theorem follows_naming {R : α → β → Prop} {act : TypeContext → Naming α}
    {act' : TypeContext → Naming β} (h : ∀ scope, Naming.Follows V.toInsertion R
      (act ⟨V.ctx.index, V.source, scope⟩) (act' ⟨V.ctx.index, V.source', scope⟩)) :
    Follows V R (naming act) (naming act') := by
  refine .bind follows_typeContext fun ctx ctx' ⟨scope, hctx, hctx'⟩ => ?_
  subst hctx hctx'
  obtain ⟨hvalue, hmentions⟩ := h scope {} {} rfl
  have hall : List.Forall₂ (fun m m' => m' = V.mention m)
      ((act ⟨V.ctx.index, V.source, scope⟩) {}).2.mentions
      ((act' ⟨V.ctx.index, V.source', scope⟩) {}).2.mentions := by
    rw [hmentions, List.forall₂_map_right_iff]
    exact List.forall₂_same.2 fun _ _ => rfl
  refine .bind (.forIn hall fun m m' _ hm => ?_) fun _ _ _ => ?_
  · subst hm
    exact .andThen (follows_emitWith rfl) (.pure rfl)
  · refine .bind (R := fun _ _ => True) (.idle (a := ⟨⟩) (b := ⟨⟩) (.forIn fun e => ?_)
      (.forIn fun e => ?_) trivial) fun _ _ _ => .pure hvalue
    · exact .bind .diagnose .pure
    · exact .bind .diagnose .pure

theorem follows_typeNode (h : Echo V.toInsertion n n') :
    Follows V Eq (typeNode n) (typeNode n') :=
  follows_naming fun _ => TypeContext.follows_typeOf h

theorem follows_typeNode? {x x' : Option Node} (h : Option.Rel (Echo V.toInsertion) x x') :
    Follows V Eq (typeNode? x) (typeNode? x') := by
  cases h with
  | none => exact .pure rfl
  | some hc => exact follows_typeNode hc

theorem idle_naming {ctx : BindingContext} {act : TypeContext → Naming α} {a : α}
    (h : ∀ types : TypeContext, Naming.Idle (act types) a) : Idle ctx a (naming act) := by
  refine .typeContext fun types => ?_
  obtain ⟨hvalue, hmentions⟩ : ((act types).run {}).1 = a ∧ ((act types).run {}).2.mentions = [] :=
    h types {}
  generalize (act types).run {} = found at hvalue hmentions
  obtain ⟨b, uses⟩ := found
  subst hvalue
  dsimp only at hmentions ⊢
  rw [hmentions]
  exact .bind .pure (.bind (.forIn fun e => .bind .diagnose .pure) .pure)

/-- A comment among types is none. -/
theorem idle_typeNode {ctx : BindingContext} {c : Node} (hc : V.adds c = true) :
    Idle ctx none (typeNode c) :=
  idle_naming fun _ => TypeContext.idle_typeOf hc _

theorem follows_typeNodes {ns ns' : List Node}
    (h : Joined V.toInsertion (Echo V.toInsertion) ns ns') :
    Follows V Eq (typeNodes ns) (typeNodes ns') := by
  have htypes := h.filter_forall₂ (p := (·.kind.isType)) (fun _ _ hc => hc.kindTest (·.isType))
    fun _ hc => Insertion.test_of_adds hc fun _ => NodeKind.isType_eq_false
  exact .forM htypes fun _ _ hc => .bind (follows_typeNode hc) fun _ _ _ => .pure rfl

theorem follows_isInferred (h : Echo V.toInsertion n n') :
    Follows V Eq (isInferred n) (isInferred n') := by
  refine follows_text ?_
  rw [h.kind_eq]
  by_cases hkind : n.kind = .typeIdentifier
  · rw [h.spelled (by rw [hkind]; rfl)]
    split
    · refine .get fun s ds => .read ?_
      rw [V.index_eq]
      exact .pure rfl
    · exact .pure rfl
  · simp only [hkind, beq_iff_eq, Bool.and_eq_true, false_and, if_false]
    exact .pure rfl

theorem follows_emitPath {mentions : Option (List TypeMention)} :
    Follows V Eq (emitPath mentions) (emitPath (mentions.map (List.map V.mention))) := by
  cases mentions with
  | none => exact .pure rfl
  | some mentions =>
    have hall : List.Forall₂ (fun m m' => m' = V.mention m) mentions (mentions.map V.mention) := by
      rw [List.forall₂_map_right_iff]
      exact List.forall₂_same.2 fun _ _ => rfl
    refine .andThen (.forM hall fun m m' hm => ?_) (.pure ?_)
    · subst hm
      exact follows_emitWith rfl
    · rw [List.getLast?_map, Option.map_map]
      rfl

theorem follows_qualifiedPath {ns ns' : List Node}
    (h : List.Forall₂ (Respelled V.toRereading) ns ns') :
    Follows V Eq (qualifiedPath ns) (qualifiedPath ns') := by
  refine .bind follows_typeContext fun ctx ctx' ⟨scope, hctx, hctx'⟩ => ?_
  subst hctx hctx'
  have htexts := TypeContext.texts_respelled h
  have hpath := TypeContext.qualifiedMentions?_respelled h V.ctx.index scope
  dsimp only [TypeContext.text]
  change Follows V Eq _ (emitPath ((TypeScope.longestTopLevel? V.ctx.index 0
    (ns'.map V.source'.text)).bind _))
  rw [htexts]
  change Follows V Eq (emitPath ((TypeScope.longestTopLevel? V.ctx.index 0
    (ns.map V.source.text)).bind _)) _
  cases TypeScope.longestTopLevel? V.ctx.index 0 (ns.map V.source.text) with
  | none => exact .pure rfl
  | some found =>
    dsimp only [Option.bind_some]
    rw [hpath]
    exact follows_emitPath

theorem nameNodes_forall₂ : ∀ n n', Echo V.toInsertion n n' →
    List.Forall₂ (Respelled V.toRereading) (nameNodes n) (nameNodes n') := by
  refine Echo.induct fun n n' h hchildren => ?_
  have hall {ns ns' : List Node} (hns : Joined V.toInsertion (fun c c' => Echo V.toInsertion c c' ∧
      List.Forall₂ (Respelled V.toRereading) (nameNodes c) (nameNodes c')) ns ns') :
      List.Forall₂ (Respelled V.toRereading) (nameNodes.nameNodesAll ns)
        (nameNodes.nameNodesAll ns') := by
    induction hns with
    | nil => exact .nil
    | cons hc _ ih => exact List.rel_append hc.2 ih
    | @added c _ _ hc _ ih =>
      obtain ⟨kind, text, rfl, hkind⟩ := Insertion.adds_iff.1 hc
      have hnone : nameNodes (.mk kind none V.inserted text []) = [] := by
        rcases NodeKind.isComment_cases hkind with rfl | rfl <;> rfl
      rw [nameNodes.nameNodesAll, hnone]
      exact ih
  have hkind := h.kind_eq
  cases n with
  | mk kind role span text cs =>
  cases n' with
  | mk kind' role' span' text' cs' =>
  obtain rfl : kind' = kind := hkind
  cases kind'
  case identifier => exact .cons ⟨h, h.spelled rfl⟩ .nil
  case scopedIdentifier => exact hall hchildren
  all_goals exact .nil

theorem follows_nameAsType (h : Echo V.toInsertion n n') :
    Follows V Eq (nameAsType n) (nameAsType n') := by
  have hnames := nameNodes_forall₂ n n' h
  refine .bind follows_typeContext fun ctx ctx' ⟨scope, hctx, hctx'⟩ => ?_
  subst hctx hctx'
  dsimp only
  rw [h.kind_eq]
  generalize nameNodes n = ns, nameNodes n' = ns' at hnames
  have hall := hnames
  cases hnames with
  | nil => exact .pure rfl
  | @cons first first' rest rest' hfirst hrest =>
    have htext : TypeContext.text ⟨V.ctx.index, V.source', scope⟩ first' =
        TypeContext.text ⟨V.ctx.index, V.source, scope⟩ first := hfirst.text_eq
    have hmembers := TypeContext.memberMentions?_respelled hrest V.ctx.index scope
    simp only [List.head?_cons, htext, List.tail_cons, hmembers]
    split
    · rename_i binary _
      have hmap : (Option.map (List.map V.mention)
          (TypeContext.memberMentions? ⟨V.ctx.index, V.source, scope⟩ binary rest)).map
            (⟨first'.span, binary⟩ :: ·) =
          ((TypeContext.memberMentions? ⟨V.ctx.index, V.source, scope⟩ binary rest).map
            (⟨first.span, binary⟩ :: ·)).map (List.map V.mention) := by
        rw [hfirst.echo.span_eq, Option.map_map, Option.map_map]
        rfl
      rw [hmap]
      exact follows_emitPath
    · split
      · exact .pure rfl
      · exact follows_qualifiedPath hall

end Types

end Binding

end Renaming.Java
