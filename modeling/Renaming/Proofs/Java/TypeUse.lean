import Renaming.Java.TypeUse
import Renaming.Proofs.Java.Descent

/-!
# Where types are mentioned

Whatever is read as a type, the types that it mentions are spelled by nodes below it, and are among
those that names can lead to in its context.
-/

namespace Renaming.Java

/-- A known type, named where nodes with `T` spell it. -/
structure TypeMention.Found (orderly : Prop) (T : Node → Prop) (known : String → Prop)
    (m : TypeMention) : Prop where
  spelled : Spelled orderly T m.span
  known : known m.binary

namespace Naming

/-- A naming all of whose mentions have `Q`. -/
def Mentions {α : Type} (Q : TypeMention → Prop) (named : Naming α) : Prop :=
  ∀ uses, (∀ m ∈ uses.mentions, Q m) → ∀ m ∈ (named uses).2.mentions, Q m

namespace Mentions

variable {α β : Type} {Q : TypeMention → Prop}

theorem pure {a : α} : Mentions Q (pure a : Naming α) := fun _ h => h

theorem bind {named : Naming α} {next : α → Naming β} (h : Mentions Q named)
    (hnext : ∀ a, Mentions Q (next a)) : Mentions Q (named >>= next) :=
  fun uses huses => hnext _ _ (h uses huses)

theorem mention {found : List TypeMention} (h : ∀ m ∈ found, Q m) :
    Mentions Q (mention found) := by
  intro uses huses m hm
  rcases List.mem_append.1 hm with hm | hm
  · exact huses m hm
  · exact h m hm

theorem miss {start : Nat} {name : String} : Mentions Q (miss start name) := fun _ h => h

theorem forIn {l : List α} {b : β} {f : α → β → Naming (ForInStep β)}
    (h : ∀ a ∈ l, ∀ b, Mentions Q (f a b)) : Mentions Q (forIn l b f) := by
  induction l generalizing b with
  | nil => exact pure
  | cons a rest ih =>
    rw [List.forIn_cons]
    refine bind (h a (by simp) b) fun step => ?_
    cases step with
    | done b => exact pure
    | yield b => exact ih fun c hc => h c (by simp [hc])

theorem mapM {l : List α} {f : α → Naming β} (h : ∀ a ∈ l, Mentions Q (f a)) :
    Mentions Q (l.mapM f) := by
  induction l with
  | nil => exact pure
  | cons a rest ih =>
    rw [List.mapM_cons]
    exact bind (h a (by simp)) fun _ => bind (ih fun b hb => h b (by simp [hb])) fun _ => pure

theorem filterMapM {l : List α} {f : α → Naming (Option β)} (h : ∀ a ∈ l, Mentions Q (f a)) :
    Mentions Q (l.filterMapM f) := by
  induction l with
  | nil => exact pure
  | cons a rest ih =>
    rw [List.filterMapM_cons]
    have hrest := ih fun b hb => h b (by simp [hb])
    refine bind (h a (by simp)) fun found => ?_
    cases found with
    | none => exact hrest
    | some b => exact bind hrest fun _ => pure

end Mentions

end Naming

/-- No name leads to a type that is not known. -/
structure TypeContext.Leads (known : String → Prop) (ctx : TypeContext) : Prop where
  simple : ∀ {name binary : String},
    ctx.scope.resolveSimple? ctx.index name = some (.type binary) → known binary
  member : ∀ {owner name binary : String},
    ctx.index.memberType? owner name = some binary → known binary
  topLevel : ∀ {package name binary : String},
    ctx.index.topLevel? package name = some binary → known binary

theorem TypeContext.Leads.longest {known : String → Prop} {ctx : TypeContext} (h : ctx.Leads known)
    {least : Nat} {names : List String} {found : String × Nat}
    (hfound : TypeScope.longestTopLevel? ctx.index least names = some found) : known found.1 := by
  obtain ⟨k, -, hk⟩ := List.exists_of_findSome?_eq_some hfound
  obtain ⟨simple, -, hk⟩ := Option.bind_eq_some_iff.1 hk
  obtain ⟨binary, hbinary, heq⟩ := Option.bind_eq_some_iff.1 hk
  cases heq
  exact h.topLevel hbinary

/-- Type variables hide what their names mean outside. -/
theorem TypeScope.resolveSimple?_push_typeVars (scope : TypeScope) (index : TypeIndex)
    (params : List TypeParameter) (name : String) :
    (scope.push (.typeVars params)).resolveSimple? index name =
      ((params.find? (·.name == name)).map .var).or (scope.resolveSimple? index name) := by
  rw [resolveSimple?, push, List.findSome?_cons, resolveSimple?, TypeFrame.find?]
  cases params.find? (·.name == name) with
  | some param => rfl
  | none => rfl

/-- Type variables lead to no types. -/
theorem TypeContext.Leads.push_typeVars {known : String → Prop} {ctx : TypeContext}
    (h : ctx.Leads known) (params : List TypeParameter) :
    ({ ctx with scope := ctx.scope.push (.typeVars params) } : TypeContext).Leads known where
  simple := by
    intro name binary hfound
    rw [TypeScope.resolveSimple?_push_typeVars] at hfound
    rcases Option.or_eq_some_iff.1 hfound with hvar | ⟨-, htype⟩
    · simp at hvar
    · exact h.simple htype
  member := h.member
  topLevel := h.topLevel

theorem typePartsAll_eq (ns : List Node) : typePartsAll ns = ns.flatMap typeParts := by
  induction ns with
  | nil => rfl
  | cons c rest ih => rw [typePartsAll, ih, List.flatMap_cons]

/-- The names and argument lists of a dotted type follow each other. -/
theorem gathers_typeParts : Node.Gathers (!·.isComment) typeParts := by
  rintro ⟨kind, role, span, text, children⟩
  unfold typeParts
  split
  · exact .inr (.inl ⟨rfl, rfl⟩)
  · exact .inr (.inl ⟨rfl, rfl⟩)
  · exact .inr (.inr (typePartsAll_eq children))
  · exact .inr (.inr (typePartsAll_eq children))
  · exact .inl rfl

namespace TypeContext

open Naming (Mentions)

variable {orderly : Prop} {T : Node → Prop} {known : String → Prop} {ctx : TypeContext}
  {source : SourceText}

section Paths

variable (hctx : ctx.Leads known)
include hctx

theorem memberMentions?_found {owner : String} {segments : List Node}
    {mentions : List TypeMention} (hsegments : Segments orderly T segments)
    (h : ctx.memberMentions? owner segments = some mentions) :
    ∀ m ∈ mentions, m.Found orderly T known := by
  induction segments generalizing owner mentions with
  | nil =>
    cases h
    simp
  | cons segment rest ih =>
    obtain ⟨inner, hinner, h⟩ := Option.bind_eq_some_iff.1 h
    obtain ⟨members, hmembers, heq⟩ := Option.bind_eq_some_iff.1 h
    cases heq
    intro m hm
    rcases List.mem_cons.1 hm with rfl | hm
    · exact ⟨hsegments.node List.mem_cons_self, hctx.member hinner⟩
    · exact ih (hsegments.sublist (List.sublist_cons_self segment rest)) hmembers m hm

theorem qualifiedMentions?_found {segments : List Node} {top : String} {count : Nat}
    {mentions : List TypeMention} (hsegments : Segments orderly T segments) (htop : known top)
    (h : ctx.qualifiedMentions? segments top count = some mentions) :
    ∀ m ∈ mentions, m.Found orderly T known := by
  obtain ⟨first, hfirst, h⟩ := Option.bind_eq_some_iff.1 h
  obtain ⟨last, hlast, h⟩ := Option.bind_eq_some_iff.1 h
  obtain ⟨members, hmembers, heq⟩ := Option.bind_eq_some_iff.1 h
  cases heq
  intro m hm
  rcases List.mem_cons.1 hm with rfl | hm
  · exact ⟨hsegments.spelled hfirst (List.mem_of_getElem? hlast), htop⟩
  · exact memberMentions?_found hctx (hsegments.sublist (List.drop_sublist count segments)) hmembers
      m hm

theorem segmentMentions?_found {segments : List Node} {mentions : List TypeMention}
    (hsegments : Segments orderly T segments) (h : ctx.segmentMentions? segments = some mentions) :
    ∀ m ∈ mentions, m.Found orderly T known := by
  obtain ⟨first, hfirst, h⟩ := Option.bind_eq_some_iff.1 h
  split at h
  · rename_i binary hbinary
    obtain ⟨members, hmembers, heq⟩ := Option.bind_eq_some_iff.1 h
    cases heq
    intro m hm
    rcases List.mem_cons.1 hm with rfl | hm
    · exact ⟨hsegments.node (List.mem_of_head? hfirst), hctx.simple hbinary⟩
    · exact memberMentions?_found hctx (hsegments.sublist (List.tail_sublist segments)) hmembers m
        hm
  · cases h
  · obtain ⟨⟨top, count⟩, htop, h⟩ := Option.bind_eq_some_iff.1 h
    exact qualifiedMentions?_found hctx hsegments (hctx.longest htop) h

theorem mentions_simple {n : Node} (hn : Spelled orderly T n.span) :
    Mentions (·.Found orderly T known) (ctx.simple n) := by
  unfold simple
  dsimp only
  split
  · rename_i binary hbinary
    refine .bind (.mention fun m hm => ?_) fun _ => .pure
    rw [List.mem_singleton.1 hm]
    exact ⟨hn, hctx.simple hbinary⟩
  · exact .pure
  · exact .bind .miss fun _ => .pure

end Paths

section Rules

variable [Descends T] {sub : Node → Naming (Option GenericType)}
  (hsub : ∀ n, T n → Mentions (·.Found orderly T known) (sub n))
include hsub

omit [Descends T] in
theorem mentions_ofChild {child : Option Node} (h : ∀ c ∈ child, T c) :
    Mentions (·.Found orderly T known) (ofChild sub child) := by
  cases child with
  | none => exact .pure
  | some c => exact hsub c (h c rfl)

theorem mentions_wildcardArgument {n : Node} (hn : T n) :
    Mentions (·.Found orderly T known) (wildcardArgument sub n) := by
  have hchild : ∀ c ∈ n.namedChildren.find? (·.kind.isType), T c :=
    fun c hc => Descends.named hn c (List.mem_of_find?_eq_some hc)
  refine .bind (mentions_ofChild hsub hchild) fun t => ?_
  split
  · exact .pure
  · exact .pure

theorem mentions_argument? {n : Node} (hn : T n) :
    Mentions (·.Found orderly T known) (argument? sub n) := by
  unfold argument?
  split
  · exact .bind (mentions_wildcardArgument hsub hn) fun _ => .pure
  · split
    · exact .bind (hsub n hn) fun _ => .pure
    · exact .pure

theorem mentions_argumentsOf {n : Node} (hn : T n) :
    Mentions (·.Found orderly T known) (argumentsOf sub n) :=
  .filterMapM fun c hc => mentions_argument? hsub (Descends.named hn c hc)

theorem mentions_dotted (hctx : ctx.Leads known) {n : Node} (hn : T n)
    (hsound : orderly → n.Sound source) :
    Mentions (·.Found orderly T known) (ctx.dotted sub n) := by
  have hparts (p : Node → Bool) : Segments orderly T ((typeParts n).filter p) :=
    (Segments.of_gathers gathers_typeParts (by simp) hn hsound).sublist List.filter_sublist
  refine .bind (.forIn fun part hpart _ => ?_) fun _ => ?_
  · exact .bind (mentions_argumentsOf hsub ((hparts _).mem part hpart)) fun _ => .pure
  · dsimp only
    split
    · rename_i mentions hmentions
      exact .bind (.mention (segmentMentions?_found hctx (hparts _) hmentions)) fun _ => .pure
    · exact .bind .miss fun _ => .pure

theorem mentions_generic {n : Node} (hn : T n) :
    Mentions (·.Found orderly T known) (generic sub n) := by
  refine .bind (.forIn fun part hpart b => ?_) fun b => ?_
  · have hpart' : T part := Descends.named hn part hpart
    split
    · exact .bind (mentions_argumentsOf hsub hpart') fun _ => .pure
    · exact .bind (hsub part hpart') fun _ => .pure
    · exact .bind (hsub part hpart') fun _ => .pure
    · exact .pure
  · dsimp only
    split
    · exact .pure
    · exact .pure

theorem mentions_meaning (hctx : ctx.Leads known) {n : Node} (hn : T n)
    (hsound : orderly → n.Sound source) :
    Mentions (·.Found orderly T known) (ctx.meaning sub n) := by
  unfold meaning
  split
  · exact .pure
  · exact .pure
  · exact .pure
  · exact .pure
  · exact mentions_simple hctx (.node hn hsound)
  · exact mentions_dotted hsub hctx hn hsound
  · exact mentions_generic hsub hn
  · exact .bind (mentions_ofChild hsub (Descends.child hn _)) fun _ => .pure
  · refine mentions_ofChild hsub fun c hc => ?_
    have hmem := List.mem_of_find?_eq_some hc
    exact Descends.named hn c (List.mem_reverse.1 hmem)
  · exact .bind (mentions_wildcardArgument hsub hn) fun _ => .pure
  · exact .bind .miss fun _ => .pure

end Rules

variable [Descends T] (hsound : orderly → ∀ {n : Node}, T n → n.Sound source)
  (hctx : ctx.Leads known)
include hsound hctx

theorem mentions_meaningWithin (height : Nat) {n : Node} (hn : T n) :
    Mentions (·.Found orderly T known) (ctx.meaningWithin height n) := by
  induction height generalizing n with
  | zero => exact .pure
  | succ height ih => exact mentions_meaning (fun m hm => ih hm) hctx hn fun ho => hsound ho hn

theorem mentions_typeOf {n : Node} (hn : T n) : Mentions (·.Found orderly T known) (ctx.typeOf n) :=
  mentions_meaningWithin hsound hctx n.height hn

theorem mentions_typeArguments {n : Node} (hn : T n) :
    Mentions (·.Found orderly T known) (ctx.typeArguments n) :=
  mentions_argumentsOf (fun _ hm => mentions_meaningWithin hsound hctx n.height hm) hn

omit hsound hctx in
theorem mem_parameterNames (ctx : TypeContext) {n : Node} (hn : T n) :
    ∀ p ∈ ctx.parameterNames n, ∀ bound ∈ p.2, T bound := by
  intro p hp bound hbound
  obtain ⟨c, hc, hnames⟩ := List.mem_filterMap.1 hp
  obtain ⟨name, -, heq⟩ := Option.bind_eq_some_iff.1 hnames
  cases heq
  have hparam : T c := Descends.named hn c (List.mem_filter.1 hc).1
  exact Descends.grandchildren (Descends.ofKind hparam _) bound hbound

theorem mentions_parametersOf {n : Node} (hn : T n) :
    Mentions (·.Found orderly T known) (ctx.parametersOf n) := by
  unfold parametersOf
  split
  · exact .pure
  · rename_i section_ hsection
    have hnames := ctx.mem_parameterNames (Descends.child hn _ section_ hsection)
    refine .mapM fun p hp => .bind (.mapM fun bound hbound => ?_) fun _ => .pure
    exact mentions_typeOf hsound (hctx.push_typeVars _) (hnames p hp bound hbound)

end TypeContext

end Renaming.Java
