import Mathlib.Data.List.Forall2
import Renaming.Java.Binding.Declarations
import Renaming.Proofs.Java.Scoping.Leaves

/-!
# Walks that are blind to names

A walk looks variables up by the identifiers that it comes to. Where it comes to none with a hidden
name, it runs alike over all frames that differ in variables of hidden names only. On the way it
adds variables to the innermost block around, which are known by name.
-/

namespace Renaming.Java

/-- The state with other variables in scope. -/
def BindingState.withFrames (s : BindingState) (frames : List VariableFrame) : BindingState :=
  { s with frames }

/-- What the walks over some nodes see: the names that none of the nodes has may be hidden. -/
structure View where
  ctx : BindingContext
  /-- The nodes that are walked over. -/
  T : Node → Prop
  hidden : String → Prop
  children : ∀ {n : Node}, T n → ∀ c ∈ n.children, T c
  seen : ∀ {n : Node}, T n → n.kind = .identifier → ¬hidden (ctx.unit.unit.source.text n)

namespace View

variable (V : View)

def text (n : Node) : String := V.ctx.unit.unit.source.text n

instance : Descends V.T := ⟨V.children⟩

/-- Frames in which the names that are not hidden are looked up alike. -/
def FrameAlike : VariableFrame → VariableFrame → Prop
  | .block declared, .block declared' => ∀ name, ¬V.hidden name →
    declared.find? (·.name == name) = declared'.find? (·.name == name)
  | .classBody binary, .classBody binary' => binary = binary'
  | _, _ => False

def Alike : List VariableFrame → List VariableFrame → Prop := List.Forall₂ V.FrameAlike

/-- A node that is walked over, and from which only some names leave. -/
structure Fits (left : String → Prop) (n : Node) : Prop where
  mem : V.T n
  leaves : ∀ name, n.Leaves name → left (V.text name)

namespace Fits

variable {V} {left : String → Prop} {n c : Node}

theorem all (hn : V.T n) : V.Fits (fun _ => True) n := ⟨hn, fun _ _ => trivial⟩

theorem inside (h : V.Fits left n) (hc : c ∈ n.children) (hopen : n.encloses c = false) :
    V.Fits left c :=
  ⟨V.children h.mem c hc, fun name hname => h.leaves name (.inside hc hopen hname)⟩

theorem children (h : V.Fits left n) (hkind : n.kind.shields = false) :
    ∀ c ∈ n.children, V.Fits left c :=
  fun _ hc => h.inside hc (Node.encloses_of_not_shields hkind)

theorem named (h : V.Fits left n) (hkind : n.kind.shields = false) :
    ∀ c ∈ n.namedChildren, V.Fits left c :=
  fun c hc => h.children hkind c (List.mem_filter.1 hc).1

theorem child (h : V.Fits left n) (hkind : n.kind.shields = false) (role : Role) :
    ∀ c ∈ n.child? role, V.Fits left c :=
  fun c hc => h.children hkind c (List.mem_of_find?_eq_some hc)

theorem inRole (h : V.Fits left n) (hkind : n.kind.shields = false) (role : Role) :
    ∀ c ∈ n.childrenIn role, V.Fits left c :=
  fun c hc => h.children hkind c (List.mem_filter.1 hc).1

/-- A part that is neither a statement nor a list of parameters, whatever the node is. -/
theorem part (h : V.Fits left n) {role : Role} (hbody : role.isBody = false)
    (hparameters : role ≠ .parameters) : ∀ c ∈ n.child? role, V.Fits left c := by
  intro c hc
  have hrole : c.role = some role := by simpa using List.find?_some hc
  exact h.inside (List.mem_of_find?_eq_some hc) (Node.encloses_of_role hrole hbody hparameters)

/-- The entries of a list. -/
theorem entries (h : V.Fits left n) {role : Role} (hlist : role.isList = true)
    (hrole : n.role = some role) : ∀ c ∈ n.children, V.Fits left c :=
  fun _ hc => h.inside hc (Node.encloses_of_isList hrole hlist)

/-- The entries of a list that a node may have. -/
theorem listed {role : Role} (h : ∀ list ∈ n.child? role, V.Fits left list)
    (hlist : role.isList = true) :
    ∀ c ∈ ((n.child? role).map Node.namedChildren).getD [], V.Fits left c := by
  cases hchild : n.child? role with
  | none => simp
  | some list =>
    intro c hc
    have hrole : list.role = some role := by simpa using List.find?_some hchild
    exact (h list hchild).entries hlist hrole c (List.mem_filter.1 hc).1

end Fits

end View

namespace Binding

/-! ## Frames -/

/-- Adds variables to the innermost block, the first one first. -/
def addVariables (vs : List Variable) (frames : List VariableFrame) : List VariableFrame :=
  vs.foldl (fun frames v => addVariable v frames) frames

theorem addVariables_append (vs ws : List Variable) (frames : List VariableFrame) :
    addVariables (vs ++ ws) frames = addVariables ws (addVariables vs frames) :=
  List.foldl_append

theorem addVariables_block (vs declared : List Variable) (rest : List VariableFrame) :
    addVariables vs (.block declared :: rest) = .block (vs.reverse ++ declared) :: rest := by
  induction vs generalizing declared with
  | nil => rfl
  | cons v vs ih =>
    change addVariables vs (.block (v :: declared) :: rest) = _
    rw [ih, List.reverse_cons, List.append_assoc]
    rfl

theorem addVariables_classBody (vs : List Variable) (binary : String) (rest : List VariableFrame) :
    addVariables vs (.classBody binary :: rest) = .classBody binary :: addVariables vs rest := by
  induction vs generalizing rest with
  | nil => rfl
  | cons v vs ih => exact ih (addVariable v rest)

variable {V : View} {left : String → Prop} {frames frames' : List VariableFrame}

theorem alike_addVariable {v : Variable} (h : V.Alike frames frames') :
    V.Alike (addVariable v frames) (addVariable v frames') := by
  induction h with
  | nil => exact .nil
  | @cons frame frame' rest rest' hframe hrest ih =>
    cases frame with
    | block declared =>
      cases frame' with
      | block declared' =>
        refine .cons (fun name hname => ?_) hrest
        rw [List.find?_cons, List.find?_cons, hframe name hname]
      | classBody binary => cases hframe
    | classBody binary =>
      cases frame' with
      | block declared' => cases hframe
      | classBody binary' => exact .cons hframe ih

theorem alike_addVariables {vs : List Variable} (h : V.Alike frames frames') :
    V.Alike (addVariables vs frames) (addVariables vs frames') := by
  induction vs generalizing frames frames' with
  | nil => exact h
  | cons v vs ih => exact ih (alike_addVariable h)

theorem frameAlike_refl (frame : VariableFrame) : V.FrameAlike frame frame := by
  cases frame with
  | block declared => exact fun _ _ => rfl
  | classBody binary => rfl

theorem alike_refl (frames : List VariableFrame) : V.Alike frames frames :=
  List.forall₂_same.2 fun frame _ => frameAlike_refl frame

/-- Variables of hidden names make no difference. -/
theorem alike_block {vs declared : List Variable} {rest : List VariableFrame}
    (h : ∀ v ∈ vs, V.hidden v.name) :
    V.Alike (.block (vs ++ declared) :: rest) (.block declared :: rest) := by
  refine .cons (fun name hname => ?_) (alike_refl rest)
  have hnone : vs.find? (·.name == name) = none := by
    refine List.find?_eq_none.2 fun v hv hfound => hname ?_
    rw [← beq_iff_eq.1 hfound]
    exact h v hv
  rw [List.find?_append, hnone, Option.none_or]

theorem findSome?_alike {name : String} (hname : ¬V.hidden name) (h : V.Alike frames frames') :
    frames.findSome? (VariableFrame.find? V.ctx.index name) =
      frames'.findSome? (VariableFrame.find? V.ctx.index name) := by
  induction h with
  | nil => rfl
  | @cons frame frame' rest rest' hframe _ ih =>
    have hfind : VariableFrame.find? V.ctx.index name frame =
        VariableFrame.find? V.ctx.index name frame' := by
      cases frame with
      | block declared =>
        cases frame' with
        | block declared' => exact congrArg (Option.map VariableRef.variable) (hframe name hname)
        | classBody binary => cases hframe
      | classBody binary =>
        cases frame' with
        | block declared' => cases hframe
        | classBody binary' =>
          cases hframe
          rfl
    rw [List.findSome?_cons, List.findSome?_cons, hfind, ih]

/-! ## Walks -/

/-- A walk that runs alike over frames that are alike, and that leaves variables of some names. It
ends in the method in which it began. -/
def Blind {α : Type} (V : View) (left : String → Prop) (act : Binding α) : Prop :=
  ∀ s frames, V.Alike s.frames frames → ∃ vs : List Variable, (∀ v ∈ vs, left v.name) ∧
    (act V.ctx s).2.frames = addVariables vs s.frames ∧ (act V.ctx s).2.methods = s.methods ∧
    act V.ctx (s.withFrames frames) =
      ((act V.ctx s).1, (act V.ctx s).2.withFrames (addVariables vs frames))

namespace Blind

variable {α β : Type}

theorem pure {a : α} : Blind V left (Pure.pure a) := fun _ _ _ => ⟨[], nofun, rfl, rfl, rfl⟩

theorem bind {act : Binding α} {next : α → Binding β} (h : Blind V left act)
    (hnext : ∀ a, Blind V left (next a)) : Blind V left (act >>= next) := by
  intro s frames halike
  obtain ⟨vs, hvs, hframes, hmethods, hrun⟩ := h s frames halike
  -- Both runs added the same variables, so that the second walk starts from frames alike.
  have hafter : V.Alike (act V.ctx s).2.frames (addVariables vs frames) :=
    hframes ▸ alike_addVariables halike
  obtain ⟨ws, hws, hframes', hmethods', hrun'⟩ := hnext (act V.ctx s).1 (act V.ctx s).2 _ hafter
  refine ⟨vs ++ ws, fun v hv => (List.mem_append.1 hv).elim (hvs v) (hws v), ?_,
    hmethods'.trans hmethods, ?_⟩
  · rw [addVariables_append, ← hframes]
    exact hframes'
  · change next (act V.ctx (s.withFrames frames)).1 V.ctx (act V.ctx (s.withFrames frames)).2 = _
    rw [hrun, addVariables_append]
    exact hrun'

theorem read {next : BindingContext → Binding β} (h : Blind V left (next V.ctx)) :
    Blind V left (read >>= next) := h

/-- The walk goes on in the same way whatever variables are in scope. -/
theorem get {next : BindingState → Binding β}
    (hnext : ∀ s frames, next (s.withFrames frames) = next s)
    (h : ∀ s, Blind V left (next s)) : Blind V left (get >>= next) := by
  intro s frames halike
  obtain ⟨vs, hvs, hframes, hmethods, hrun⟩ := h s s frames halike
  refine ⟨vs, hvs, hframes, hmethods, ?_⟩
  change next (s.withFrames frames) V.ctx (s.withFrames frames) = _
  rw [hnext]
  exact hrun

theorem modify {f : BindingState → BindingState}
    (hf : ∀ s frames, f (s.withFrames frames) = (f s).withFrames frames)
    (hmethods : ∀ s, (f s).methods = s.methods) : Blind V left (modify f : Binding Unit) := by
  intro s frames _
  have hsame : f s = (f s).withFrames s.frames := hf s s.frames
  exact ⟨[], nofun, congrArg (·.frames) hsame, hmethods s, Prod.ext rfl (hf s frames)⟩

theorem discard {act : Binding α} (h : Blind V left act) : Blind V left (discard act) := by
  intro s frames halike
  obtain ⟨vs, hvs, hframes, hmethods, hrun⟩ := h s frames halike
  have hstate := congrArg Prod.snd hrun
  exact ⟨vs, hvs, hframes, hmethods, Prod.ext rfl hstate⟩

theorem forM {l : List α} {f : α → Binding Unit} (h : ∀ a ∈ l, Blind V left (f a)) :
    Blind V left (l.forM f) := by
  induction l with
  | nil => exact pure
  | cons a rest ih =>
    rw [List.forM_eq_forM, List.forM_cons]
    exact bind (h a (by simp)) fun _ => ih fun b hb => h b (by simp [hb])

theorem forIn {l : List α} {b : β} {f : α → β → Binding (ForInStep β)}
    (h : ∀ a b, Blind V left (f a b)) : Blind V left (forIn l b f) := by
  induction l generalizing b with
  | nil => exact pure
  | cons a rest ih =>
    rw [List.forIn_cons]
    refine bind (h a b) fun step => ?_
    cases step with
    | done b => exact pure
    | yield b => exact ih

theorem mapM {l : List α} {f : α → Binding β} (h : ∀ a ∈ l, Blind V left (f a)) :
    Blind V left (l.mapM f) := by
  induction l with
  | nil => exact pure
  | cons a rest ih =>
    rw [List.mapM_cons]
    exact bind (h a (by simp)) fun _ => bind (ih fun b hb => h b (by simp [hb])) fun _ => pure

theorem foldlM {l : List α} {b : β} {f : β → α → Binding β}
    (h : ∀ b, ∀ a ∈ l, Blind V left (f b a)) : Blind V left (l.foldlM f b) := by
  induction l generalizing b with
  | nil => exact pure
  | cons a rest ih =>
    rw [List.foldlM_cons]
    exact bind (h b a (by simp)) fun _ => ih fun c d hd => h c d (by simp [hd])

end Blind

variable {α : Type}

/-! ## Findings -/

theorem blind_text {n : Node} {next : String → Binding α} (h : Blind V left (next (V.text n))) :
    Blind V left (text n >>= next) := h

theorem blind_dims {n : Node} : Blind V left (dims n) := .read .pure

theorem blind_emitWith {span : Span} {signature : Signature} {kind : SymbolKind}
    {fallbacks : List Signature} : Blind V left (emitWith span signature kind fallbacks) :=
  .modify (fun _ _ => rfl) fun _ => rfl

theorem blind_emitMethod {n : Node} {owner : String} {m : MethodDeclaration} :
    Blind V left (emitMethod n owner m) := .read blind_emitWith

theorem blind_diagnose {offset : Nat} {kind : DiagnosticKind} {message : String} :
    Blind V left (diagnose offset kind message) := .read (.modify (fun _ _ => rfl) fun _ => rfl)

theorem blind_unresolved {n : Node} {message : String} : Blind V left (unresolved n message) :=
  blind_diagnose

/-! ## Scopes -/

theorem blind_withTypeFrame {frame : TypeFrame} {act : Binding α} (h : Blind V left act) :
    Blind V left (withTypeFrame frame act) :=
  .bind (.modify (fun _ _ => rfl) fun _ => rfl) fun _ => .bind h fun _ =>
    .bind (.modify (fun _ _ => rfl) fun _ => rfl) fun _ => .pure

theorem blind_withMethod {signature : Option Signature} {act : Binding α} (h : Blind V left act) :
    Blind V left (withMethod signature act) := by
  intro s frames halike
  obtain ⟨vs, hvs, hframes, hmethods, hrun⟩ :=
    h { s with methods := signature :: s.methods } frames halike
  refine ⟨vs, hvs, hframes, congrArg List.tail hmethods, ?_⟩
  exact congrArg (fun r : α × BindingState =>
    (r.1, { r.2 with methods := r.2.methods.tail })) hrun

/-- What a walk adds to the frames that it opens is gone after it, and the rest stays. -/
theorem blind_withVariableFrame {frame : VariableFrame} {inner : String → Prop} {act : Binding α}
    (h : Blind V inner act)
    (hpop : ∀ vs : List Variable, (∀ v ∈ vs, inner v.name) →
      ∃ ws : List Variable, (∀ w ∈ ws, left w.name) ∧
        ∀ rest, (addVariables vs (frame :: rest)).tail = addVariables ws rest) :
    Blind V left (withVariableFrame frame act) := by
  intro s frames halike
  obtain ⟨vs, hvs, hframes, hmethods, hrun⟩ := h (s.withFrames (frame :: s.frames))
    (frame :: frames) (.cons (frameAlike_refl frame) halike)
  obtain ⟨ws, hws, htail⟩ := hpop vs hvs
  refine ⟨ws, hws, ?_, hmethods, ?_⟩
  · exact (congrArg List.tail hframes).trans (htail s.frames)
  · rw [← htail frames]
    exact congrArg (fun r : α × BindingState => (r.1, r.2.withFrames r.2.frames.tail)) hrun

/-- Whatever is declared in a block is gone after it. -/
theorem blind_withBlock {act : Binding α} (h : Blind V (fun _ => True) act) :
    Blind V left (withBlock act) := by
  refine blind_withVariableFrame (blind_withTypeFrame h) fun vs _ => ⟨[], nofun, fun rest => ?_⟩
  rw [addVariables_block]
  rfl

/-- The body of a class is no block: what is declared in it goes to the block around it. -/
theorem blind_withClass {binary : String} {act : Binding α} (h : Blind V left act) :
    Blind V left (withClass binary act) := by
  refine blind_withVariableFrame (blind_withTypeFrame h) fun vs hvs => ⟨vs, hvs, fun rest => ?_⟩
  rw [addVariables_classBody]
  rfl

theorem blind_currentClass? : Blind V left currentClass? :=
  .get (fun _ _ => rfl) fun _ => .pure

/-! ## Variables -/

theorem blind_bind {v : Variable} (hv : left v.name) : Blind V left (bind v) := by
  intro s frames _
  exact ⟨[v], by simpa using hv, rfl, rfl, rfl⟩

theorem blind_nextLocal {method : Signature} {name : String} :
    Blind V left (nextLocal method name) :=
  .get (fun _ _ => rfl) fun _ => .bind (.modify (fun _ _ => rfl) fun _ => rfl) fun _ => .pure

theorem blind_declareLocal {n : Node} {type : ExprType} (hn : left (V.text n)) :
    Blind V left (declareLocal n type) := by
  refine .get (fun _ _ => rfl) fun s => ?_
  split
  · exact .pure
  · rename_i method _ _
    refine blind_text ?_
    refine .bind ?_ fun signature => ?_
    · cases method with
      | none => exact .pure
      | some m => exact .bind blind_nextLocal fun _ => .pure
    · cases signature with
      | none => exact blind_bind hn
      | some signature => exact .bind blind_emitWith fun _ => blind_bind hn

/-- Names that are not hidden stand for the same variables. -/
theorem blind_variableNamed? {name : String} (hname : ¬V.hidden name) :
    Blind V left (variableNamed? name) := by
  intro s frames halike
  refine ⟨[], nofun, rfl, rfl, Prod.ext ?_ rfl⟩
  change (frames.findSome? _).or _ = (s.frames.findSome? _).or _
  rw [findSome?_alike hname halike]
  rfl

theorem blind_useVariable {n : Node} {v : VariableRef} : Blind V left (useVariable n v) := by
  rcases v with ⟨name, signature, kind, type⟩ | ⟨owner, type⟩
  · cases signature with
    | none => exact .pure
    | some signature => exact .bind blind_emitWith fun _ => .pure
  · exact blind_text (.bind blind_emitWith fun _ => .pure)

/-! ## Types -/

theorem blind_typeContext : Blind V left typeContext :=
  .read (.get (fun _ _ => rfl) fun _ => .pure)

theorem blind_naming {act : TypeContext → Naming α} : Blind V left (naming act) := by
  refine .bind blind_typeContext fun ctx => .bind (.forIn fun m _ => ?_) fun _ => ?_
  · exact .bind blind_emitWith fun _ => .pure
  · exact .bind (.forIn fun _ _ => .bind blind_diagnose fun _ => .pure) fun _ => .pure

theorem blind_typeNode {n : Node} : Blind V left (typeNode n) := blind_naming

theorem blind_typeNode? {n : Option Node} : Blind V left (typeNode? n) := by
  cases n with
  | none => exact .pure
  | some n => exact blind_typeNode

theorem blind_typeNodes {nodes : List Node} : Blind V left (typeNodes nodes) :=
  .forM fun _ _ => .bind blind_typeNode fun _ => .pure

theorem blind_isInferred {n : Node} : Blind V left (isInferred n) := by
  refine blind_text ?_
  split
  · exact .get (fun _ _ => rfl) fun _ => .read .pure
  · exact .pure

theorem blind_emitPath {mentions : Option (List TypeMention)} :
    Blind V left (emitPath mentions) := by
  cases mentions with
  | none => exact .pure
  | some mentions => exact .bind (.forM fun _ _ => blind_emitWith) fun _ => .pure

theorem blind_qualifiedPath {segments : List Node} : Blind V left (qualifiedPath segments) :=
  .bind blind_typeContext fun _ => blind_emitPath

theorem blind_nameAsType {n : Node} : Blind V left (nameAsType n) := by
  refine .bind blind_typeContext fun ctx => ?_
  dsimp only
  split
  · exact .pure
  · split
    · exact blind_emitPath
    · split
      · exact .pure
      · exact blind_qualifiedPath

end Binding

end Renaming.Java
