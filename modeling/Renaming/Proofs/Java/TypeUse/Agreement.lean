import Renaming.Proofs.Java.TypeUse

/-!
# Contexts that agree

A type is read off a context only through the names that are written in it. Two contexts in which
these names stand for the same types give it the same meaning, and what was named before makes no
difference. So do two indexes in which the names mean the same, as top-level types and as member
types.
-/

namespace Renaming.Java

/-- Indexes in which the names with `W` mean the same. -/
structure TypeIndex.Agree (W : String → Prop) (a b : TypeIndex) : Prop where
  memberType : ∀ owner {name : String}, W name → a.memberType? owner name = b.memberType? owner name
  topLevel : ∀ package name, a.topLevel? package name = b.topLevel? package name

namespace TypeScope

variable {W : String → Prop} {a b : TypeIndex} {name : String}

theorem resolveSimple?_eq (h : a.Agree W b) (scope : TypeScope) (hname : W name) :
    scope.resolveSimple? a name = scope.resolveSimple? b name := by
  have hframe : ∀ frame : TypeFrame, frame.find? a name = frame.find? b name := by
    intro frame
    cases frame with
    | classBody binary => simp only [TypeFrame.find?, h.memberType binary hname]
    | typeVars params => rfl
    | block types => rfl
  have hdemand : onDemand? a name = onDemand? b name := by
    funext import_
    cases import_ with
    | package package => exact h.topLevel package name
    | type owner => exact h.memberType owner hname
  simp only [resolveSimple?, resolveGlobal?, h.topLevel, hdemand, funext hframe]

theorem longestTopLevel?_eq (h : a.Agree W b) : longestTopLevel? a = longestTopLevel? b := by
  funext least names
  simp only [longestTopLevel?, h.topLevel]

end TypeScope

namespace Naming

/-- Namings of the same, whatever is named before. -/
def Agree {α : Type} (named named' : Naming α) : Prop :=
  ∀ uses uses', (named uses).1 = (named' uses').1

namespace Agree

variable {α β : Type}

theorem value_eq {named named' : Naming α} (h : Agree named named') : named.value = named'.value :=
  h {} {}

theorem pure {a : α} : Agree (pure a : Naming α) (pure a) := fun _ _ => rfl

theorem bind {named named' : Naming α} {next next' : α → Naming β} (h : Agree named named')
    (hnext : ∀ a, Agree (next a) (next' a)) : Agree (named >>= next) (named' >>= next') := by
  intro uses uses'
  change ((next (named uses).1) (named uses).2).1 = ((next' (named' uses').1) (named' uses').2).1
  rw [h uses uses']
  exact hnext _ _ _

theorem miss {start start' : Nat} {name name' : String} :
    Agree (miss start name) (miss start' name') :=
  fun _ _ => rfl

theorem forIn {l : List α} {b : β} {f f' : α → β → Naming (ForInStep β)}
    (h : ∀ a ∈ l, ∀ b, Agree (f a b) (f' a b)) : Agree (forIn l b f) (forIn l b f') := by
  induction l generalizing b with
  | nil => exact pure
  | cons a rest ih =>
    rw [List.forIn_cons, List.forIn_cons]
    refine bind (h a (by simp) b) fun step => ?_
    cases step with
    | done b => exact pure
    | yield b => exact ih fun c hc => h c (by simp [hc])

theorem mapM {l : List α} {f f' : α → Naming β} (h : ∀ a ∈ l, Agree (f a) (f' a)) :
    Agree (l.mapM f) (l.mapM f') := by
  induction l with
  | nil => exact pure
  | cons a rest ih =>
    rw [List.mapM_cons, List.mapM_cons]
    exact bind (h a (by simp)) fun _ => bind (ih fun b hb => h b (by simp [hb])) fun _ => pure

theorem filterMapM {l : List α} {f f' : α → Naming (Option β)}
    (h : ∀ a ∈ l, Agree (f a) (f' a)) : Agree (l.filterMapM f) (l.filterMapM f') := by
  induction l with
  | nil => exact pure
  | cons a rest ih =>
    rw [List.filterMapM_cons, List.filterMapM_cons]
    have hrest := ih fun b hb => h b (by simp [hb])
    refine bind (h a (by simp)) fun found => ?_
    cases found with
    | none => exact hrest
    | some b => exact bind hrest fun _ => pure

end Agree

end Naming

namespace TypeContext

open Naming (Agree)

variable {W : String → Prop} {a b : TypeIndex} {source : SourceText} {scope : TypeScope}

section Paths

variable (h : a.Agree W b) {segments : List Node}
  (hsegments : ∀ s ∈ segments, W (source.text s))
include h hsegments

theorem memberMentions?_eq (owner : String) :
    memberMentions? ⟨a, source, scope⟩ owner segments =
      memberMentions? ⟨b, source, scope⟩ owner segments := by
  induction segments generalizing owner with
  | nil => rfl
  | cons segment rest ih =>
    obtain ⟨hsegment, hrest⟩ := List.forall_mem_cons.1 hsegments
    have hmember : a.memberType? owner (source.text segment) =
      b.memberType? owner (source.text segment) := h.memberType owner hsegment
    simp only [memberMentions?, text, hmember, ih hrest]

theorem segmentMentions?_eq :
    segmentMentions? ⟨a, source, scope⟩ segments =
      segmentMentions? ⟨b, source, scope⟩ segments := by
  cases segments with
  | nil => rfl
  | cons first rest =>
    obtain ⟨hfirst, hrest⟩ := List.forall_mem_cons.1 hsegments
    have hsimple := scope.resolveSimple?_eq h hfirst
    have hdrop (k : Nat) : ∀ s ∈ (first :: rest).drop k, W (source.text s) :=
      fun s hs => hsegments s (List.mem_of_mem_drop hs)
    simp only [segmentMentions?, qualifiedMentions?, List.head?_cons, Option.bind_eq_bind,
      Option.bind_some, List.tail_cons, text, hsimple, memberMentions?_eq h hrest,
      TypeScope.longestTopLevel?_eq h, memberMentions?_eq h (hdrop _)]
    rfl

end Paths

/-- The type that a simple name stands for, be it known or only spelled by an import. -/
def named? (ctx : TypeContext) (name : String) : Option GenericType :=
  match ctx.scope.resolveSimple? ctx.index name with
  | some (.type binary) => some (.raw binary)
  | some (.var param) => some param.var
  | none => (ctx.scope.header.imports.unknown.get? name).map .raw

/-- The type that a dotted name stands for. -/
def dotted? (ctx : TypeContext) (n : Node) : Option GenericType :=
  (ctx.segmentMentions? ((typeParts n).filter (·.kind == .typeIdentifier))).bind fun mentions =>
    mentions.getLast?.map fun m => .raw m.binary

/-- Contexts of one text in which the names that nodes with `T` spell stand for the same types. -/
structure AgreeOn (T : Node → Prop) (ctx ctx' : TypeContext) : Prop where
  source : ctx'.source = ctx.source
  simple : ∀ {n : Node}, T n → n.kind = .typeIdentifier →
    ctx.named? (ctx.text n) = ctx'.named? (ctx.text n)
  dotted : ∀ {n : Node}, T n → n.kind = .scopedType → ctx.dotted? n = ctx'.dotted? n

theorem AgreeOn.refl (T : Node → Prop) (ctx : TypeContext) : ctx.AgreeOn T ctx :=
  ⟨rfl, fun _ _ => rfl, fun _ _ => rfl⟩

theorem AgreeOn.text {T : Node → Prop} {ctx ctx' : TypeContext} (h : ctx.AgreeOn T ctx')
    (n : Node) : ctx'.text n = ctx.text n := by
  rw [TypeContext.text, TypeContext.text, h.source]

/-- Indexes in which the names with `W` mean the same make no difference to where they stand. -/
theorem agreeOn_of_agree {T : Node → Prop} [Descends T] (h : a.Agree W b)
    (hT : ∀ n, T n → n.kind = .typeIdentifier → W (source.text n)) :
    AgreeOn T ⟨a, source, scope⟩ ⟨b, source, scope⟩ where
  source := rfl
  simple := by
    intro n hn hkind
    have hsimple := scope.resolveSimple?_eq h (hT n hn hkind)
    rw [named?, named?]
    dsimp only [text]
    rw [hsimple]
  dotted := by
    intro n hn _
    have hsegments : ∀ s ∈ (typeParts n).filter (·.kind == .typeIdentifier),
        W (source.text s) := by
      intro s hs
      obtain ⟨hs, hkind⟩ := List.mem_filter.1 hs
      exact hT s ((gathers_typeParts.below n s hs).1.descends hn) (by simpa using hkind)
    rw [dotted?, dotted?, segmentMentions?_eq h hsegments]

section Variables

variable {ctx : TypeContext} {params : List TypeParameter}

theorem named?_push_typeVars (name : String) :
    ({ ctx with scope := ctx.scope.push (.typeVars params) } : TypeContext).named? name =
      ((params.find? (·.name == name)).map TypeParameter.var).or (ctx.named? name) := by
  rw [named?, named?]
  dsimp only
  rw [TypeScope.resolveSimple?_push_typeVars]
  cases params.find? (·.name == name) with
  | some param => rfl
  | none => rfl

/-- Member types are looked up in the index alone. -/
theorem memberMentions?_withScope (scope : TypeScope) (owner : String) (segments : List Node) :
    ({ ctx with scope } : TypeContext).memberMentions? owner segments =
      ctx.memberMentions? owner segments := by
  induction segments generalizing owner with
  | nil => rfl
  | cons segment rest ih =>
    rw [memberMentions?, memberMentions?]
    simp only [ih]
    rfl

theorem dotted?_push_typeVars (n : Node) :
    ({ ctx with scope := ctx.scope.push (.typeVars params) } : TypeContext).dotted? n =
      match ((typeParts n).filter (·.kind == .typeIdentifier)).head?.bind fun first =>
          params.find? (·.name == ctx.text first) with
      | some _ => none
      | none => ctx.dotted? n := by
  rw [dotted?, dotted?]
  cases (typeParts n).filter (·.kind == .typeIdentifier) with
  | nil => rfl
  | cons first rest =>
    have htext : ({ ctx with scope := ctx.scope.push (.typeVars params) } : TypeContext).text =
      ctx.text := rfl
    simp only [segmentMentions?, qualifiedMentions?, List.head?_cons, Option.bind_eq_bind,
      Option.bind_some, htext, TypeScope.resolveSimple?_push_typeVars, memberMentions?_withScope]
    cases params.find? (·.name == ctx.text first) with
    | some param => rfl
    | none => rfl

/-- Variables hide the same names in both contexts. -/
theorem AgreeOn.push_typeVars {T : Node → Prop} {ctx' : TypeContext} (h : ctx.AgreeOn T ctx')
    (params : List TypeParameter) :
    AgreeOn T { ctx with scope := ctx.scope.push (.typeVars params) }
      { ctx' with scope := ctx'.scope.push (.typeVars params) } where
  source := h.source
  simple := by
    intro n hn hkind
    rw [named?_push_typeVars, named?_push_typeVars]
    exact congrArg _ (h.simple hn hkind)
  dotted := by
    intro n hn hkind
    rw [dotted?_push_typeVars, dotted?_push_typeVars, h.dotted hn hkind]
    simp only [h.text]

end Variables

section Rules

variable {T : Node → Prop} {ctx ctx' : TypeContext} (h : ctx.AgreeOn T ctx')
  {sub sub' : Node → Naming (Option GenericType)} (hsub : ∀ n, T n → Agree (sub n) (sub' n))

include hsub in
theorem agree_ofChild {child : Option Node} (hchild : ∀ c ∈ child, T c) :
    Agree (ofChild sub child) (ofChild sub' child) := by
  cases child with
  | none => exact .pure
  | some c => exact hsub c (hchild c rfl)

variable [Descends T]

include hsub in
theorem agree_wildcardArgument {n : Node} (hn : T n) :
    Agree (wildcardArgument sub n) (wildcardArgument sub' n) := by
  have hchild : ∀ c ∈ n.namedChildren.find? (·.kind.isType), T c :=
    fun c hc => Descends.named hn c (List.mem_of_find?_eq_some hc)
  refine .bind (agree_ofChild hsub hchild) fun t => ?_
  split
  · exact .pure
  · exact .pure

include hsub in
theorem agree_argument? {n : Node} (hn : T n) : Agree (argument? sub n) (argument? sub' n) := by
  unfold argument?
  split
  · exact .bind (agree_wildcardArgument hsub hn) fun _ => .pure
  · split
    · exact .bind (hsub n hn) fun _ => .pure
    · exact .pure

include hsub in
theorem agree_argumentsOf {n : Node} (hn : T n) :
    Agree (argumentsOf sub n) (argumentsOf sub' n) :=
  .filterMapM fun c hc => agree_argument? hsub (Descends.named hn c hc)

/-- A simple name is given the type that it stands for. -/
theorem fst_simple (ctx : TypeContext) (n : Node) (uses : TypeUses) :
    (ctx.simple n uses).1 = ctx.named? (ctx.text n) := by
  rw [simple, named?]
  cases ctx.scope.resolveSimple? ctx.index (ctx.text n) with
  | none => rfl
  | some binding => cases binding <;> rfl

include h in
omit [Descends T] in
theorem agree_simple {n : Node} (hn : T n) (hkind : n.kind = .typeIdentifier) :
    Agree (ctx.simple n) (ctx'.simple n) := by
  intro uses uses'
  rw [fst_simple, fst_simple, h.text, h.simple hn hkind]

include h hsub in
theorem agree_dotted {n : Node} (hn : T n) (hkind : n.kind = .scopedType) :
    Agree (ctx.dotted sub n) (ctx'.dotted sub' n) := by
  have hparts : ∀ part ∈ typeParts n, T part :=
    fun part hpart => (gathers_typeParts.below n part hpart).1.descends hn
  refine .bind (.forIn fun part hpart _ => ?_) fun _ uses uses' => ?_
  · exact .bind (agree_argumentsOf hsub (hparts part (List.mem_filter.1 hpart).1)) fun _ => .pure
  · -- the type is that of the last mention, whatever the others are
    have hdotted := h.dotted hn hkind
    rw [dotted?, dotted?] at hdotted
    revert hdotted
    cases ctx.segmentMentions? ((typeParts n).filter (·.kind == .typeIdentifier)) with
    | none =>
      cases ctx'.segmentMentions? ((typeParts n).filter (·.kind == .typeIdentifier)) with
      | none => exact id
      | some mentions' => exact id
    | some mentions =>
      cases ctx'.segmentMentions? ((typeParts n).filter (·.kind == .typeIdentifier)) with
      | none => exact id
      | some mentions' => exact id

include hsub in
theorem agree_generic {n : Node} (hn : T n) : Agree (generic sub n) (generic sub' n) := by
  refine .bind (.forIn fun part hpart b => ?_) fun b => ?_
  · have hpart' : T part := Descends.named hn part hpart
    split
    · exact .bind (agree_argumentsOf hsub hpart') fun _ => .pure
    · exact .bind (hsub part hpart') fun _ => .pure
    · exact .bind (hsub part hpart') fun _ => .pure
    · exact .pure
  · dsimp only
    split
    · exact .pure
    · exact .pure

include h hsub in
theorem agree_meaning {n : Node} (hn : T n) :
    Agree (ctx.meaning sub n) (ctx'.meaning sub' n) := by
  unfold meaning
  rw [h.text, h.source]
  split
  · exact .pure
  · exact .pure
  · exact .pure
  · exact .pure
  · rename_i hkind
    exact agree_simple h hn hkind
  · rename_i hkind
    exact agree_dotted h hsub hn hkind
  · exact agree_generic hsub hn
  · exact .bind (agree_ofChild hsub (Descends.child hn _)) fun _ => .pure
  · refine agree_ofChild hsub fun c hc => ?_
    exact Descends.named hn c (List.mem_reverse.1 (List.mem_of_find?_eq_some hc))
  · exact .bind (agree_wildcardArgument hsub hn) fun _ => .pure
  · exact .bind .miss fun _ => .pure

end Rules

variable {T : Node → Prop} [Descends T] {ctx ctx' : TypeContext} (h : ctx.AgreeOn T ctx')
include h

theorem agree_meaningWithin (height : Nat) {n : Node} (hn : T n) :
    Agree (ctx.meaningWithin height n) (ctx'.meaningWithin height n) := by
  induction height generalizing n with
  | zero => exact .pure
  | succ height ih => exact agree_meaning h (fun m hm => ih hm) hn

theorem agree_typeOf {n : Node} (hn : T n) : Agree (ctx.typeOf n) (ctx'.typeOf n) :=
  agree_meaningWithin h n.height hn

theorem type?_eq {n : Node} (hn : T n) : ctx.type? n = ctx'.type? n :=
  (agree_typeOf h hn).value_eq

theorem agree_typeParameters {n : Node} (hn : T n) :
    Agree (ctx.typeParameters n) (ctx'.typeParameters n) := by
  have hnames : ctx'.parameterNames n = ctx.parameterNames n := by
    simp only [parameterNames, h.text]
  unfold typeParameters
  rw [hnames]
  refine .mapM fun p hp => .bind (.mapM fun bound hbound => ?_) fun _ => .pure
  exact agree_typeOf (h.push_typeVars _) (mem_parameterNames ctx hn p hp bound hbound)

theorem agree_parametersOf {n : Node} (hn : T n) :
    Agree (ctx.parametersOf n) (ctx'.parametersOf n) := by
  unfold parametersOf
  split
  · exact .pure
  · rename_i section_ hsection
    exact agree_typeParameters h (Descends.child hn _ section_ hsection)

end TypeContext

end Renaming.Java
