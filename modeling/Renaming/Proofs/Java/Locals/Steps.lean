import Renaming.Proofs.Java.Binding.Locals
import Renaming.Proofs.Java.Locals.Places

/-!
# Walks that find local variables

What a walk finds is told by the names that declare it: for each name, in the order of the walk, a
local variable is found for the first time, and no others are. Walks put together from others find
what these find, one after the other, and a walk in a method finds the variables of that method.
-/

namespace Renaming.Java

/-- Where a name declares a variable of its method, that variable is found. -/
structure LocalName.IsFoundAt (source : SourceText) (e : LocalName) (o : Occurrence) : Prop where
  span : o.span = e.name.span
  splits : o.signature.splitLocal = some (e.method, source.text e.name)

namespace Binding

/-- What the steps from one state to another find for the first time. -/
structure Gains (source : SourceText) (found : List LocalName) (s s' : BindingState) : Prop where
  numbered : s'.Numbered
  methods : s'.methods = s.methods
  first : ∃ os, firstLocals s'.occurrences = os ++ firstLocals s.occurrences ∧
    List.Forall₂ (LocalName.IsFoundAt source) found os.reverse

namespace Gains

variable {source : SourceText} {found rest : List LocalName} {s s' s'' : BindingState}

/-- Nothing is found where nothing is found for the first time. -/
theorem nothing (hnumbered : s'.Numbered) (hmethods : s'.methods = s.methods)
    (hfirst : firstLocals s'.occurrences = firstLocals s.occurrences) :
    Gains source [] s s' :=
  ⟨hnumbered, hmethods, [], hfirst, .nil⟩

theorem trans (h : Gains source found s s') (h' : Gains source rest s' s'') :
    Gains source (found ++ rest) s s'' := by
  obtain ⟨-, hmethods, os, hos, hfound⟩ := h
  obtain ⟨hnumbered, hmethods', os', hos', hrest⟩ := h'
  refine ⟨hnumbered, hmethods'.trans hmethods, os' ++ os, ?_, ?_⟩
  · rw [hos', hos, List.append_assoc]
  · rw [List.reverse_append]
    exact List.rel_append hfound hrest

end Gains

/-- A walk that finds the variables of some names, one after the other, if it starts in the given
method. -/
def Lists {α : Type} (ctx : BindingContext) (host : Option (Option Signature))
    (found : List LocalName) (act : Binding α) : Prop :=
  ∀ s : BindingState, s.Numbered → s.methods.head? = host →
    (∀ e ∈ found, '@' ∉ (ctx.unit.unit.source.text e.name).toList) →
      Gains ctx.unit.unit.source found s (act ctx s).2

namespace Lists

variable {α β : Type} {ctx : BindingContext} {host : Option (Option Signature)}
  {found rest : List LocalName}

theorem pure {a : α} : Lists ctx host [] (pure a) := fun _ hs _ _ => .nothing hs rfl rfl

theorem bind {act : Binding α} {next : α → Binding β} (h : Lists ctx host found act)
    (hnext : ∀ a, Lists ctx host rest (next a)) :
    Lists ctx host (found ++ rest) (act >>= next) := by
  intro s hs hhost hplain
  obtain ⟨hfound, hrest⟩ := List.forall_mem_append.1 hplain
  have hact := h s hs hhost hfound
  have hhost' : (act ctx s).2.methods.head? = host := by rw [hact.methods, hhost]
  exact hact.trans (hnext _ _ hact.numbered hhost' hrest)

/-- What finds nothing may go before. -/
theorem after {act : Binding α} {next : α → Binding β} (h : Lists ctx host [] act)
    (hnext : ∀ a, Lists ctx host found (next a)) : Lists ctx host found (act >>= next) :=
  h.bind hnext

/-- What finds nothing may follow. -/
theorem before {act : Binding α} {next : α → Binding β} (h : Lists ctx host found act)
    (hnext : ∀ a, Lists ctx host [] (next a)) : Lists ctx host found (act >>= next) := by
  rw [← List.append_nil found]
  exact h.bind hnext

theorem read {next : BindingContext → Binding α} (h : Lists ctx host found (next ctx)) :
    Lists ctx host found (read >>= next) := h

theorem get {next : BindingState → Binding α} (h : ∀ s, Lists ctx host found (next s)) :
    Lists ctx host found (get >>= next) := fun s => h s s

theorem modify {f : BindingState → BindingState}
    (h : ∀ s : BindingState, s.Numbered → Gains ctx.unit.unit.source [] s (f s)) :
    Lists ctx host [] (modify f : Binding Unit) := fun s hs _ _ => h s hs

theorem discard {act : Binding α} (h : Lists ctx host found act) :
    Lists ctx host found (discard act) := h.before fun _ => pure

theorem forM {l : List α} {found : α → List LocalName} {f : α → Binding Unit}
    (h : ∀ a ∈ l, Lists ctx host (found a) (f a)) :
    Lists ctx host (l.flatMap found) (l.forM f) := by
  induction l with
  | nil => exact pure
  | cons a rest ih =>
    rw [List.forM_eq_forM, List.forM_cons, List.flatMap_cons]
    exact (h a (by simp)).bind fun _ => ih fun b hb => h b (by simp [hb])

theorem mapM {l : List α} {found : α → List LocalName} {f : α → Binding β}
    (h : ∀ a ∈ l, Lists ctx host (found a) (f a)) :
    Lists ctx host (l.flatMap found) (l.mapM f) := by
  induction l with
  | nil => exact pure
  | cons a rest ih =>
    rw [List.mapM_cons, List.flatMap_cons]
    exact (h a (by simp)).bind fun _ =>
      (ih fun b hb => h b (by simp [hb])).before fun _ => pure

theorem foldlM {l : List α} {found : α → List LocalName} {b : β} {f : β → α → Binding β}
    (h : ∀ b, ∀ a ∈ l, Lists ctx host (found a) (f b a)) :
    Lists ctx host (l.flatMap found) (l.foldlM f b) := by
  induction l generalizing b with
  | nil => exact pure
  | cons a rest ih =>
    rw [List.foldlM_cons, List.flatMap_cons]
    exact (h b a (by simp)).bind fun _ => ih fun c d hd => h c d (by simp [hd])

theorem forIn {l : List α} {b : β} {f : α → β → Binding (ForInStep β)}
    (h : ∀ a ∈ l, ∀ b, Lists ctx host [] (f a b)) : Lists ctx host [] (forIn l b f) := by
  induction l generalizing b with
  | nil => exact pure
  | cons a rest ih =>
    rw [List.forIn_cons]
    refine (h a (by simp) b).after fun step => ?_
    cases step with
    | done b => exact pure
    | yield b => exact ih fun c hc => h c (by simp [hc])

/-- Several steps of which none finds anything. -/
theorem forM_nil {l : List α} {f : α → Binding Unit} (h : ∀ a ∈ l, Lists ctx host [] (f a)) :
    Lists ctx host [] (l.forM f) := by
  have hall : Lists ctx host (l.flatMap fun _ => []) (l.forM f) := forM h
  rwa [List.flatMap_eq_nil_iff.2 fun _ _ => rfl] at hall

theorem mapM_nil {l : List α} {f : α → Binding β} (h : ∀ a ∈ l, Lists ctx host [] (f a)) :
    Lists ctx host [] (l.mapM f) := by
  have hall : Lists ctx host (l.flatMap fun _ => []) (l.mapM f) := mapM h
  rwa [List.flatMap_eq_nil_iff.2 fun _ _ => rfl] at hall

end Lists

variable {α : Type} {ctx : BindingContext} {host : Option (Option Signature)}
  {found : List LocalName}

theorem lists_text {n : Node} : Lists ctx host [] (text n) := .read .pure

theorem lists_dims {n : Node} : Lists ctx host [] (dims n) := .read .pure

theorem lists_currentClass? : Lists ctx host [] currentClass? := .get fun _ => .pure

theorem lists_isInferred {n : Node} : Lists ctx host [] (isInferred n) := by
  refine lists_text.after fun _ => ?_
  split
  · exact .get fun _ => .read .pure
  · exact .pure

/-! ## Findings -/

theorem lists_emitWith {span : Span} {signature : Signature} {kind : SymbolKind}
    {fallbacks : List Signature} (hkind : kind ≠ .localVariable) :
    Lists ctx host [] (emitWith span signature kind fallbacks) :=
  .modify fun s hs =>
    have hsame : firstLocals (⟨span, signature, kind, fallbacks⟩ :: s.occurrences) =
        firstLocals s.occurrences := firstLocals_of_kind hkind _
    .nothing (hs.find hsame) rfl hsame

theorem lists_emitType {n : Node} {binary : String} : Lists ctx host [] (emitType n binary) :=
  lists_emitWith (by decide)

theorem lists_emitField {n : Node} {owner name : String} :
    Lists ctx host [] (emitField n owner name) :=
  lists_emitWith (by decide)

theorem lists_emitMethod {n : Node} {owner : String} {m : MethodDeclaration} :
    Lists ctx host [] (emitMethod n owner m) :=
  .read (lists_emitWith (by decide))

theorem lists_diagnose {offset : Nat} {kind : DiagnosticKind} {message : String} :
    Lists ctx host [] (diagnose offset kind message) :=
  .read (.modify fun _ hs => .nothing (hs.of_eq rfl rfl rfl) rfl rfl)

theorem lists_unresolved {n : Node} {message : String} :
    Lists ctx host [] (unresolved n message) :=
  lists_diagnose

/-! ## Scopes -/

theorem lists_withTypeFrame {frame : TypeFrame} {act : Binding α}
    (h : Lists ctx host found act) : Lists ctx host found (withTypeFrame frame act) := by
  refine .after (.modify fun s hs => .nothing (hs.of_eq rfl rfl rfl) rfl rfl) fun _ =>
    h.before fun _ => ?_
  exact .after (.modify fun s hs => .nothing (hs.of_eq rfl rfl rfl) rfl rfl) fun _ => .pure

theorem lists_withVariableFrame {frame : VariableFrame} {act : Binding α}
    (hframe : frame.variables = []) (h : Lists ctx host found act) :
    Lists ctx host found (withVariableFrame frame act) := by
  refine .after (.modify fun s hs => .nothing (hs.enter hframe) rfl rfl) fun _ =>
    h.before fun _ => ?_
  exact .after (.modify fun s hs => .nothing hs.leave rfl rfl) fun _ => .pure

theorem lists_withBlock {act : Binding α} (h : Lists ctx host found act) :
    Lists ctx host found (withBlock act) :=
  lists_withVariableFrame rfl (lists_withTypeFrame h)

theorem lists_withClass {binary : String} {act : Binding α} (h : Lists ctx host found act) :
    Lists ctx host found (withClass binary act) :=
  lists_withVariableFrame rfl (lists_withTypeFrame h)

/-- What is found inside a method belongs to that method. -/
theorem lists_withMethod {method : Option Signature} {act : Binding α}
    (h : Lists ctx (some method) found act) : Lists ctx host found (withMethod method act) := by
  intro s hs hhost hplain
  let inside : BindingState := { s with methods := method :: s.methods }
  have hinside : inside.Numbered := hs.of_eq rfl rfl rfl
  obtain ⟨hnumbered, hmethods, os, hos, hfound⟩ := h inside hinside rfl hplain
  refine ⟨hnumbered.of_eq rfl rfl rfl, ?_, os, hos, hfound⟩
  change (act ctx inside).2.methods.tail = s.methods
  rw [hmethods]
  rfl

/-! ## Variables -/

theorem lists_bind {v : Variable} (hkind : v.kind ≠ .localVariable) :
    Lists ctx host [] (bind v) :=
  .modify fun _ hs => .nothing (hs.bind fun h => absurd h hkind) rfl rfl

/-- A name declares a variable of the method around it. -/
theorem lists_declareLocal {n : Node} {type : ExprType} :
    Lists ctx host (LocalName.of host n) (declareLocal n type) := by
  intro s hs hhost hplain
  obtain ⟨scope, frames, methods, locals, occurrences, diagnostics⟩ := s
  rcases methods with _ | ⟨_ | method, methods⟩
  · cases hhost
    exact .nothing hs rfl rfl
  · cases hhost
    exact .nothing (hs.bind fun _ _ => nofun) rfl rfl
  · cases hhost
    have hname : '@' ∉ (ctx.unit.unit.source.text n).toList :=
      hplain ⟨method, n⟩ (by simp [LocalName.of])
    obtain ⟨hnumbered, hfirst⟩ := hs.declare method hname n.span []
    refine ⟨hnumbered.bind fun _ signature hsignature => ?_, rfl, [_], hfirst, ?_⟩
    · cases hsignature
      rw [BindingState.foundLocals, hfirst]
      exact List.mem_cons_self
    · exact .cons ⟨rfl, Signature.splitLocal_ofLocal hname _⟩ .nil

/-- A variable in scope has been found where it was declared. -/
theorem gains_useVariable {source : SourceText} {s : BindingState} {n : Node} {v : VariableRef}
    (hs : s.Numbered) (hv : ∀ x, v = .variable x → s.Knows x) :
    Gains source [] s (useVariable n v ctx s).2 := by
  rcases v with ⟨name, signature, kind, type⟩ | ⟨owner, type⟩
  · cases signature with
    | none => exact .nothing hs rfl rfl
    | some signature =>
      have hsame : firstLocals (⟨n.span, signature, kind, []⟩ :: s.occurrences) =
          firstLocals s.occurrences := by
        by_cases hkind : kind = .localVariable
        · exact firstLocals_of_mem (hv _ rfl hkind signature rfl)
        · exact firstLocals_of_kind hkind _
      exact .nothing (hs.find hsame) rfl hsame
  · have hsame (o : Occurrence) (hkind : o.kind = .field) :
        firstLocals (o :: s.occurrences) = firstLocals s.occurrences :=
      firstLocals_of_kind (by rw [hkind]; decide) _
    exact .nothing (hs.find (hsame _ rfl)) rfl (hsame _ rfl)

theorem knows_variableNamed? {s : BindingState} {name : String} {x : Variable} (hs : s.Numbered)
    (h : (variableNamed? name ctx s).1 = some (.variable x)) : s.Knows x := by
  rcases Option.or_eq_some_iff.1 h with hframe | ⟨-, himported⟩
  · obtain ⟨frame, hmem, hfind⟩ := List.exists_of_findSome?_eq_some hframe
    cases frame with
    | block declared =>
      obtain ⟨found, hfound, heq⟩ := Option.map_eq_some_iff.1 hfind
      cases heq
      exact hs.inScope _ hmem _ (List.mem_of_find?_eq_some hfound)
    | classBody binary =>
      obtain ⟨_, -, heq⟩ := Option.map_eq_some_iff.1 hfind
      cases heq
  · obtain ⟨owner, -, hfound⟩ := List.exists_of_findSome?_eq_some himported
    obtain ⟨_, -, hstatic⟩ := Option.bind_eq_some_iff.1 hfound
    dsimp only at hstatic
    split at hstatic <;> cases hstatic

/-- The use of a variable by its name finds nothing for the first time. -/
theorem lists_variableNamed? {n : Node} {name : String} {next : ExprType → Binding α}
    {lookup : Option VariableRef → Binding α}
    (hsome : ∀ v, lookup (some v) = useVariable n v >>= next)
    (hnext : ∀ type, Lists ctx host found (next type))
    (hnone : Lists ctx host found (lookup none)) :
    Lists ctx host found (variableNamed? name >>= lookup) := by
  intro s hs hhost hplain
  change Gains ctx.unit.unit.source found s (lookup (variableNamed? name ctx s).1 ctx s).2
  cases hfound : (variableNamed? name ctx s).1 with
  | none => exact hnone s hs hhost hplain
  | some v =>
    have huse : Gains ctx.unit.unit.source [] s (useVariable n v ctx s).2 := by
      refine gains_useVariable hs fun x hx => ?_
      exact knows_variableNamed? hs (hfound.trans (congrArg some hx))
    have hhost' : (useVariable n v ctx s).2.methods.head? = host := by rw [huse.methods, hhost]
    rw [hsome]
    exact huse.trans (hnext _ _ huse.numbered hhost' hplain)

/-! ## Types -/

theorem lists_typeContext : Lists ctx host [] typeContext := .read (.get fun _ => .pure)

theorem lists_naming {act : TypeContext → Naming α} : Lists ctx host [] (naming act) := by
  refine .after lists_typeContext fun _ => .after (.forIn fun m _ _ => ?_) fun _ => ?_
  · exact .after (lists_emitWith (by decide)) fun _ => .pure
  · exact .after (.forIn fun m _ _ => .after lists_diagnose fun _ => .pure) fun _ => .pure

theorem lists_emitPath {mentions : Option (List TypeMention)} :
    Lists ctx host [] (emitPath mentions) := by
  cases mentions with
  | none => exact .pure
  | some mentions => exact .after (.forM_nil fun _ _ => lists_emitWith (by decide)) fun _ => .pure

theorem lists_qualifiedPath {segments : List Node} :
    Lists ctx host [] (qualifiedPath segments) :=
  .after lists_typeContext fun _ => lists_emitPath

theorem lists_nameAsType {n : Node} : Lists ctx host [] (nameAsType n) := by
  refine .after lists_typeContext fun _ => ?_
  dsimp only
  split
  · exact .pure
  · split
    · exact lists_emitPath
    · split
      · exact .pure
      · exact lists_qualifiedPath

theorem lists_typeNode {n : Node} : Lists ctx host [] (typeNode n) := lists_naming

theorem lists_typeNode? {n : Option Node} : Lists ctx host [] (typeNode? n) := by
  cases n with
  | none => exact .pure
  | some n => exact lists_typeNode

theorem lists_typeNodes {nodes : List Node} : Lists ctx host [] (typeNodes nodes) :=
  .forM_nil fun _ _ => .after lists_typeNode fun _ => .pure

end Binding

end Renaming.Java
