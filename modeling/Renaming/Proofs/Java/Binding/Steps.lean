import Renaming.Proofs.Java.Binding.Survey

/-!
# Steps of a walk

A walk changes its state by single steps: it reports an occurrence or a diagnostic, opens and leaves
scopes, and declares variables. Each of these keeps what a survey keeps, and so do the walks that
are put together from them.
-/

namespace Renaming.Java

namespace Binding

/-- A walk that keeps what a survey keeps, and whose outcome has `R`. -/
def Walks {α : Type} (S : Survey) (R : α → Prop) (act : Binding α) : Prop :=
  ∀ s, S.Kept s → R (act S.ctx s).1 ∧ S.Kept (act S.ctx s).2

/-- No demand on the outcome. -/
def Any {α : Type} (_ : α) : Prop := True

namespace Walks

variable {α β : Type} {S : Survey} {R : α → Prop} {Q : β → Prop}

theorem pure {a : α} (h : R a) : Walks S R (pure a) := fun _ hs => ⟨h, hs⟩

theorem done {a : α} : Walks S Any (Pure.pure a) := pure trivial

theorem bind {act : Binding α} {next : α → Binding β} (h : Walks S R act)
    (hnext : ∀ a, R a → Walks S Q (next a)) : Walks S Q (act >>= next) := by
  intro s hs
  obtain ⟨hr, hs'⟩ := h s hs
  exact hnext _ hr _ hs'

theorem any {act : Binding α} (h : Walks S R act) : Walks S Any act :=
  fun s hs => ⟨trivial, (h s hs).2⟩

theorem read : Walks S (· = S.ctx) (read : Binding BindingContext) := fun _ hs => ⟨rfl, hs⟩

theorem get : Walks S S.Kept (get : Binding BindingState) := fun _ hs => ⟨hs, hs⟩

theorem modify {f : BindingState → BindingState} (h : ∀ s, S.Kept s → S.Kept (f s)) :
    Walks S Any (modify f : Binding Unit) :=
  fun s hs => ⟨trivial, h s hs⟩

theorem discard {act : Binding α} (h : Walks S R act) : Walks S Any (discard act) :=
  fun s hs => ⟨trivial, (h s hs).2⟩

theorem forM {l : List α} {f : α → Binding Unit} (h : ∀ a ∈ l, Walks S Any (f a)) :
    Walks S Any (l.forM f) := by
  induction l with
  | nil => exact done
  | cons a rest ih =>
    rw [List.forM_eq_forM, List.forM_cons]
    exact bind (h a (by simp)) fun _ _ => ih fun b hb => h b (by simp [hb])

theorem forIn {l : List α} {b : β} {f : α → β → Binding (ForInStep β)}
    (h : ∀ a ∈ l, ∀ b, Walks S Any (f a b)) : Walks S Any (forIn l b f) := by
  induction l generalizing b with
  | nil => exact done
  | cons a rest ih =>
    rw [List.forIn_cons]
    refine bind (h a (by simp) b) fun step _ => ?_
    cases step with
    | done b => exact done
    | yield b => exact ih fun c hc => h c (by simp [hc])

theorem mapM {l : List α} {f : α → Binding β} (h : ∀ a ∈ l, Walks S Any (f a)) :
    Walks S Any (l.mapM f) := by
  induction l with
  | nil => exact done
  | cons a rest ih =>
    rw [List.mapM_cons]
    refine bind (h a (by simp)) fun _ _ => bind (ih fun b hb => h b (by simp [hb])) fun _ _ => ?_
    exact done

theorem foldlM {l : List α} {b : β} {f : β → α → Binding β}
    (h : ∀ b, ∀ a ∈ l, Walks S Any (f b a)) : Walks S Any (l.foldlM f b) := by
  induction l generalizing b with
  | nil => exact done
  | cons a rest ih =>
    rw [List.foldlM_cons]
    exact bind (h b a (by simp)) fun _ _ => ih fun c d hd => h c d (by simp [hd])

end Walks

variable {α : Type} {R : α → Prop} {S : Survey}

theorem walks_text {n : Node} : Walks S (· = S.text n) (text n) := by
  refine .bind .read fun ctx hctx => .pure ?_
  rw [hctx]
  rfl

theorem walks_dims {n : Node} : Walks S Any (dims n) := .bind .read fun _ _ => .done

theorem walks_currentClass? : Walks S Any currentClass? := .bind .get fun _ _ => .done

theorem walks_isInferred {n : Node} : Walks S Any (isInferred n) := by
  refine .bind walks_text fun _ _ => ?_
  split
  · exact .bind .get fun _ _ => .bind .read fun _ _ => .done
  · exact .done

theorem nameNodesAll_eq (ns : List Node) :
    nameNodes.nameNodesAll ns = ns.flatMap nameNodes := by
  induction ns with
  | nil => rfl
  | cons c rest ih => rw [nameNodes.nameNodesAll, ih, List.flatMap_cons]

/-- The names of a dotted name follow each other. -/
theorem gathers_nameNodes : Node.Gathers NodeKind.isName nameNodes := by
  rintro ⟨kind, role, span, text, children⟩
  unfold nameNodes
  split
  · rename_i heq
    cases heq
    exact .inr (.inl ⟨rfl, rfl⟩)
  · rename_i heq
    cases heq
    exact .inr (.inr (nameNodesAll_eq _))
  · exact .inl rfl

theorem segments_nameNodes [S.Covers] {n : Node} (hn : S.T n) :
    Segments S.orderly S.T (nameNodes n) := by
  refine .of_gathers gathers_nameNodes (fun k hk => ?_) hn fun ho => Survey.Covers.sound ho hn
  revert hk
  cases k <;> first | exact fun _ => rfl | exact nofun

/-! ## Findings -/

theorem walks_emitWith {span : Span} {signature : Signature} {kind : SymbolKind}
    {fallbacks : List Signature} (h : S.Finding ⟨span, signature, kind, fallbacks⟩) :
    Walks S Any (emitWith span signature kind fallbacks) := by
  exact .modify fun s hs => ⟨hs.header, hs.types, hs.vars, hs.methods,
    List.forall_mem_cons.2 ⟨h, hs.occurrences⟩⟩

theorem walks_emitType [S.Covers] {n : Node} {binary : String} (hn : S.T n)
    (htype : S.type binary) : Walks S Any (emitType n binary) :=
  walks_emitWith (.type (Survey.spelled hn) htype)

theorem walks_emitField {n : Node} {owner name : String} (hn : S.T n)
    (hkind : S.orderly → n.kind.isName = true) (hname : name = S.text n)
    (hfield : S.field owner name) : Walks S Any (emitField n owner name) := by
  subst hname
  exact walks_emitWith (.field hn hkind hfield)

theorem walks_diagnose {offset : Nat} {kind : DiagnosticKind} {message : String} :
    Walks S Any (diagnose offset kind message) :=
  .bind .read fun _ _ =>
    .modify fun _ hs =>
      ⟨hs.header, hs.types, hs.vars, hs.methods, hs.occurrences⟩

theorem walks_unresolved {n : Node} {message : String} : Walks S Any (unresolved n message) :=
  walks_diagnose

/-! ## Scopes and variables -/

theorem walks_withTypeFrame {frame : TypeFrame} {act : Binding α} (hframe : S.TypeFrameKept frame)
    (h : Walks S R act) : Walks S R (withTypeFrame frame act) := by
  refine .bind (.modify fun s hs => ?_) fun _ _ => .bind h fun _ hr =>
    .bind (.modify fun s hs => ?_) fun _ _ => .pure hr
  · exact ⟨hs.header, List.forall_mem_cons.2 ⟨hframe, hs.types⟩, hs.vars, hs.methods,
      hs.occurrences⟩
  · exact ⟨hs.header, fun f hf => hs.types f (List.mem_of_mem_tail hf), hs.vars, hs.methods,
      hs.occurrences⟩

theorem walks_withVariableFrame {frame : VariableFrame} {act : Binding α}
    (hframe : S.FrameKept frame) (h : Walks S R act) :
    Walks S R (withVariableFrame frame act) := by
  refine .bind (.modify fun s hs => ?_) fun _ _ => .bind h fun _ hr =>
    .bind (.modify fun s hs => ?_) fun _ _ => .pure hr
  · exact ⟨hs.header, hs.types, List.forall_mem_cons.2 ⟨hframe, hs.vars⟩, hs.methods,
      hs.occurrences⟩
  · exact ⟨hs.header, hs.types, fun f hf => hs.vars f (List.mem_of_mem_tail hf), hs.methods,
      hs.occurrences⟩

theorem walks_withBlock {act : Binding α} (h : Walks S R act) : Walks S R (withBlock act) :=
  walks_withVariableFrame (by simp [Survey.FrameKept])
    (walks_withTypeFrame (by simp [Survey.TypeFrameKept]) h)

theorem walks_withClass {binary : String} {act : Binding α} (h : Walks S R act) :
    Walks S R (withClass binary act) :=
  walks_withVariableFrame trivial (walks_withTypeFrame trivial h)

theorem walks_withMethod {signature : Option Signature} {act : Binding α}
    (hsignature : ∀ s ∈ signature, S.Host s) (h : Walks S R act) :
    Walks S R (withMethod signature act) := by
  refine .bind (.modify fun s hs => ?_) fun _ _ => .bind h fun _ hr =>
    .bind (.modify fun s hs => ?_) fun _ _ => .pure hr
  · exact ⟨hs.header, hs.types, hs.vars, List.forall_mem_cons.2 ⟨hsignature, hs.methods⟩,
      hs.occurrences⟩
  · exact ⟨hs.header, hs.types, hs.vars, fun m hm => hs.methods m (List.mem_of_mem_tail hm),
      hs.occurrences⟩

theorem frameKept_iff {frame : VariableFrame} :
    S.FrameKept frame ↔ ∀ v ∈ frame.variables, S.VariableKept v := by
  cases frame <;> simp [Survey.FrameKept, VariableFrame.variables]

theorem addVariable_kept {v : Variable} (hv : S.VariableKept v) {frames : List VariableFrame}
    (h : ∀ frame ∈ frames, S.FrameKept frame) :
    ∀ frame ∈ addVariable v frames, S.FrameKept frame := by
  simp only [frameKept_iff] at h ⊢
  exact forall_addVariable hv h

theorem kept_bind {s : BindingState} (hs : S.Kept s) {v : Variable} (hv : S.VariableKept v) :
    S.Kept { s with frames := addVariable v s.frames } :=
  ⟨hs.header, hs.types, addVariable_kept hv hs.vars, hs.methods, hs.occurrences⟩

/-- Parameters are numbered by their places in the method, and are no locals. -/
theorem walks_bind {v : Variable} (hv : ∀ s ∈ v.signature, S.orderly → S.Parameter s)
    (hkind : v.kind = .parameter) : Walks S Any (bind v) :=
  .modify fun _ hs => kept_bind hs fun s hs => .inl ⟨hkind, hv s hs⟩

/-- The use of a variable finds what has been found where it was declared. -/
theorem kept_useVariable {s : BindingState} (hs : S.Kept s) {n : Node} {v : VariableRef}
    (hn : S.T n) (hkind : S.orderly → n.kind.isName = true) (hv : S.RefKept (S.text n) v) :
    S.Kept (useVariable n v S.ctx s).2 := by
  rcases v with ⟨name, signature, kind, type⟩ | ⟨owner, type⟩
  · obtain ⟨hkept, rfl⟩ := hv
    cases signature with
    | none => exact hs
    | some signature =>
      rcases hkept signature rfl with ⟨hkind', hparameter⟩ | ⟨hkind', host, ordinal, hhost, heq⟩
      · cases hkind'
        exact (walks_emitWith (.parameter hn hparameter) s hs).2
      · cases hkind'
        have hfinding : S.Finding ⟨n.span, signature, .localVariable, []⟩ :=
          heq ▸ .localVariable hn hkind hhost
        exact (walks_emitWith hfinding s hs).2
  · exact (walks_emitField hn hkind rfl hv s hs).2

variable [S.Covers]

theorem walks_emitMethod {n : Node} {owner : String} {m : MethodDeclaration} (hn : S.T n)
    (hkind : S.orderly → n.kind.isName = true) (hm : S.method owner m)
    (hname : S.orderly → m.name = S.text n) : Walks S Any (emitMethod n owner m) := by
  refine .bind .read fun ctx hctx => walks_emitWith (.method hn hkind fun ho s hs => ?_)
  subst hctx
  rcases List.mem_cons.1 hs with rfl | hs
  · exact ⟨owner, m, hm, hname ho, rfl⟩
  · exact hname ho ▸ Survey.names_of_overridden hs

/-- A method that was looked up by the name at a node. -/
theorem walks_emitFound {n : Node} {owner type : String} {m : MethodDeclaration} (hn : S.T n)
    (hkind : S.orderly → n.kind.isName = true)
    (h : (type, m) ∈ S.ctx.index.findMethods owner (S.text n)) :
    Walks S Any (emitMethod n type m) := by
  obtain ⟨d, hd, hm, hname⟩ := TypeIndex.findMethods_spec h
  exact walks_emitMethod hn hkind (Survey.Covers.method hd hm) fun _ => hname

/-- A name that stands for a variable is a use of it. -/
theorem walks_variableNamed? {n : Node} {next : ExprType → Binding α}
    {lookup : Option VariableRef → Binding α} (hn : S.T n)
    (hkind : S.orderly → n.kind.isName = true)
    (hsome : ∀ v, lookup (some v) = useVariable n v >>= next)
    (hnext : ∀ type, Walks S R (next type)) (hnone : Walks S R (lookup none)) :
    Walks S R (variableNamed? (S.text n) >>= lookup) := by
  intro s hs
  change R (lookup (variableNamed? (S.text n) S.ctx s).1 S.ctx s).1 ∧
    S.Kept (lookup (variableNamed? (S.text n) S.ctx s).1 S.ctx s).2
  cases hfound : (variableNamed? (S.text n) S.ctx s).1 with
  | none => exact hnone s hs
  | some v =>
    rw [hsome]
    exact hnext _ _ (kept_useVariable hs hn hkind (hs.variableNamed hfound))

omit [S.Covers] in
theorem walks_declareLocal {n : Node} {type : ExprType} (hn : S.T n)
    (hkind : S.orderly → n.kind.isName = true) : Walks S Any (declareLocal n type) := by
  refine fun s hs => ⟨trivial, ?_⟩
  obtain ⟨scope, frames, methods, locals, occurrences, diagnostics⟩ := s
  rcases methods with _ | ⟨_ | method, methods⟩
  · exact hs
  · exact kept_bind hs nofun
  · have hhost : S.Host method := hs.methods (some method) List.mem_cons_self method rfl
    let signature := Signature.ofLocal method (S.text n) (locals.count (method, S.text n))
    have hfinding : S.Finding ⟨n.span, signature, .localVariable, []⟩ :=
      .localVariable hn hkind hhost
    have hdeclared : S.Kept ⟨scope, frames, some method :: methods, (method, S.text n) :: locals,
        ⟨n.span, signature, .localVariable, []⟩ :: occurrences, diagnostics⟩ :=
      ⟨hs.header, hs.types, hs.vars, hs.methods,
        List.forall_mem_cons.2 ⟨hfinding, hs.occurrences⟩⟩
    refine kept_bind hdeclared fun _ hsignature => ?_
    cases hsignature
    exact .inr ⟨rfl, method, _, hhost, rfl⟩

/-! ## Types -/

theorem walks_typeContext : Walks S (TypeContext.Leads S.type) typeContext := by
  refine .bind .read fun ctx hctx => .bind .get fun s hs => .pure ?_
  subst hctx
  exact hs.leads

theorem walks_naming {act : TypeContext → Naming α}
    (h : ∀ ctx, ctx.Leads S.type → Naming.Mentions (·.Found S.orderly S.T S.type) (act ctx)) :
    Walks S Any (naming act) := by
  refine .bind walks_typeContext fun ctx hctx => ?_
  have hmentions : ∀ m ∈ ((act ctx).run {}).2.mentions, m.Found S.orderly S.T S.type :=
    h ctx hctx {} (by simp)
  refine .bind (.forIn fun m hm _ => ?_) fun _ _ => ?_
  · obtain ⟨hspan, hknown⟩ := hmentions m hm
    exact .bind (walks_emitWith (.type hspan hknown)) fun _ _ => .done
  · refine .bind (.forIn fun m hm _ => ?_) fun _ _ => .done
    exact .bind walks_diagnose fun _ _ => .done

omit [S.Covers] in
theorem walks_emitMentions {mentions : List TypeMention}
    (h : ∀ m ∈ mentions, m.Found S.orderly S.T S.type) : Walks S Any (emitMentions mentions) :=
  .forM fun m hm => walks_emitWith (.type (h m hm).spelled (h m hm).known)

omit [S.Covers] in
theorem walks_emitPath {mentions : Option (List TypeMention)}
    (h : ∀ ms ∈ mentions, ∀ m ∈ ms, m.Found S.orderly S.T S.type) :
    Walks S Any (emitPath mentions) := by
  cases mentions with
  | none => exact .done
  | some mentions => exact .bind (walks_emitMentions (h mentions rfl)) fun _ _ => .done

theorem walks_qualifiedPath {segments : List Node} (h : Segments S.orderly S.T segments) :
    Walks S Any (qualifiedPath segments) := by
  refine .bind walks_typeContext fun ctx hctx => walks_emitPath fun ms hms => ?_
  obtain ⟨⟨top, count⟩, htop, hms⟩ := Option.bind_eq_some_iff.1 hms
  exact TypeContext.qualifiedMentions?_found hctx h (hctx.longest htop) hms

theorem walks_nameAsType {n : Node} (hn : S.T n) : Walks S Any (nameAsType n) := by
  have hsegments := segments_nameNodes hn
  refine .bind walks_typeContext fun ctx hctx => ?_
  dsimp only
  split
  · exact .done
  · rename_i first hfirst
    split
    · rename_i binary hbinary
      refine walks_emitPath fun ms hms => ?_
      obtain ⟨members, hmembers, rfl⟩ := Option.map_eq_some_iff.1 hms
      intro m hm
      rcases List.mem_cons.1 hm with rfl | hm
      · exact ⟨hsegments.node (List.mem_of_head? hfirst), hctx.simple hbinary⟩
      · exact TypeContext.memberMentions?_found hctx (hsegments.sublist (List.tail_sublist _))
          hmembers m hm
    · split
      · exact .done
      · exact walks_qualifiedPath hsegments

theorem walks_typeNode {n : Node} (hn : S.T n) : Walks S Any (typeNode n) :=
  walks_naming fun _ hctx => TypeContext.mentions_typeOf Survey.Covers.sound hctx hn

theorem walks_typeNode? {n : Option Node} (h : ∀ c ∈ n, S.T c) : Walks S Any (typeNode? n) := by
  cases n with
  | none => exact .done
  | some n => exact walks_typeNode (h n rfl)

theorem walks_typeNodes {nodes : List Node} (h : ∀ n ∈ nodes, S.T n) :
    Walks S Any (typeNodes nodes) :=
  .forM fun n hn => .bind (walks_typeNode (h n (List.mem_filter.1 hn).1)) fun _ _ => .done

end Binding

end Renaming.Java
