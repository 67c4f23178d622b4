import Renaming.Java.TypeUse
import Renaming.Proofs.Java.Comments.Places

/-!
# Types around a comment

A type with a comment in it means what it means without, and mentions the same types where they are
after the insertion. Only a comment in front of the bounds of a type parameter would be read as a
type.
-/

namespace Renaming.Java

/-- A mention where it is after an insertion. -/
def Insertion.mention (i : Insertion) (m : TypeMention) : TypeMention := ⟨i.span m.span, m.binary⟩

namespace Naming

variable {α β γ δ : Type} {i : Insertion}

/-- Namings of results that correspond, with the same mentions after an insertion. What means
nothing may differ. -/
def Follows (i : Insertion) (R : α → β → Prop) (named : Naming α) (named' : Naming β) : Prop :=
  ∀ uses uses' : TypeUses, uses'.mentions = uses.mentions.map i.mention →
    R (named uses).1 (named' uses').1 ∧
      (named' uses').2.mentions = (named uses).2.mentions.map i.mention

/-- A naming that mentions nothing. -/
def Idle (named : Naming α) (a : α) : Prop :=
  ∀ uses, (named uses).1 = a ∧ (named uses).2.mentions = uses.mentions

namespace Follows

variable {R : α → β → Prop} {Q : γ → δ → Prop}

theorem value {named : Naming α} {named' : Naming β} (h : Follows i R named named') :
    R named.value named'.value :=
  (h {} {} rfl).1

theorem pure {a : α} {b : β} (h : R a b) : Follows i R (pure a) (pure b) := fun _ _ hm => ⟨h, hm⟩

theorem bind {named : Naming α} {named' : Naming β} {next : α → Naming γ} {next' : β → Naming δ}
    (h : Follows i R named named') (hnext : ∀ a b, R a b → Follows i Q (next a) (next' b)) :
    Follows i Q (named >>= next) (named' >>= next') := by
  intro uses uses' hm
  obtain ⟨hab, hm⟩ := h uses uses' hm
  exact hnext _ _ hab _ _ hm

theorem imp {R' : α → β → Prop} {named : Naming α} {named' : Naming β}
    (h : Follows i R named named') (hR : ∀ a b, R a b → R' a b) : Follows i R' named named' :=
  fun uses uses' hm => ⟨hR _ _ (h uses uses' hm).1, (h uses uses' hm).2⟩

/-- What mentions nothing may come in between. -/
theorem skip {named : Naming α} {idle : Naming γ} {c : γ} {next : γ → Naming β}
    (hidle : Idle idle c) (h : Follows i R named (next c)) :
    Follows i R named (idle >>= next) := by
  intro uses uses' hm
  obtain ⟨hvalue, hmentions⟩ := hidle uses'
  have hrun : (idle >>= next) uses' = next c (idle uses').2 := by rw [← hvalue]; rfl
  rw [hrun]
  exact h uses _ (hmentions.trans hm)

theorem mention {found found' : List TypeMention} (h : found' = found.map i.mention) :
    Follows i Eq (mention found) (mention found') := by
  intro uses uses' hm
  refine ⟨rfl, ?_⟩
  change uses'.mentions ++ found' = (uses.mentions ++ found).map i.mention
  rw [h, hm, List.map_append]

theorem miss {start start' : Nat} {name name' : String} :
    Follows i Eq (miss start name) (miss start' name') :=
  fun _ _ hm => ⟨rfl, hm⟩

theorem forIn {S : γ → δ → Prop} {l : List γ} {l' : List δ} (hl : List.Forall₂ S l l') {b : α}
    {f : γ → α → Naming (ForInStep α)} {f' : δ → α → Naming (ForInStep α)}
    (h : ∀ c c', S c c' → ∀ b, Follows i Eq (f c b) (f' c' b)) :
    Follows i Eq (forIn l b f) (forIn l' b f') := by
  induction hl generalizing b with
  | nil => exact pure rfl
  | cons hc _ ih =>
    rw [List.forIn_cons, List.forIn_cons]
    refine bind (h _ _ hc b) fun step step' hstep => ?_
    cases hstep
    cases step with
    | done b => exact pure rfl
    | yield b => exact ih

theorem mapM {S : γ → δ → Prop} {l : List γ} {l' : List δ} (hl : List.Forall₂ S l l')
    {f : γ → Naming α} {f' : δ → Naming β} (h : ∀ c c', S c c' → Follows i R (f c) (f' c')) :
    Follows i (List.Forall₂ R) (l.mapM f) (l'.mapM f') := by
  induction hl with
  | nil => exact pure .nil
  | cons hc _ ih =>
    rw [List.mapM_cons, List.mapM_cons]
    exact bind (h _ _ hc) fun _ _ hab => bind ih fun _ _ hrest => pure (.cons hab hrest)

section Joined

variable {S : Node → Node → Prop} {ns ns' : List Node} (hns : Joined i S ns ns')
include hns

theorem forIn_joined {b : α} {f f' : Node → α → Naming (ForInStep α)}
    (h : ∀ n n', S n n' → ∀ b, Follows i Eq (f n b) (f' n' b))
    (hadded : ∀ c, i.adds c = true → ∀ b, f' c b = Pure.pure (.yield b)) :
    Follows i Eq (ForIn.forIn ns b f) (ForIn.forIn ns' b f') := by
  induction hns generalizing b with
  | nil => exact pure rfl
  | cons hn _ ih =>
    rw [List.forIn_cons, List.forIn_cons]
    refine bind (h _ _ hn b) fun step step' hstep => ?_
    cases hstep
    cases step with
    | done b => exact pure rfl
    | yield b => exact ih
  | @added c _ _ hc _ ih =>
    rw [List.forIn_cons, hadded c hc]
    exact ih

theorem mapM_joined {f : Node → Naming α} {f' : Node → Naming β} {a : β}
    (h : ∀ n n', S n n' → Follows i R (f n) (f' n'))
    (hadded : ∀ c, i.adds c = true → Idle (f' c) a) :
    Follows i (fun _ _ => True) (ns.mapM f) (ns'.mapM f') := by
  induction hns with
  | nil => exact pure trivial
  | cons hn _ ih =>
    rw [List.mapM_cons, List.mapM_cons]
    exact bind (h _ _ hn) fun _ _ _ => bind ih fun _ _ _ => pure trivial
  | @added c _ _ hc _ ih =>
    rw [List.mapM_cons]
    refine skip (hadded c hc) ?_
    rw [← bind_pure (List.mapM f _)]
    exact bind ih fun _ _ _ => pure trivial

theorem filterMapM_joined {f f' : Node → Naming (Option α)}
    (h : ∀ n n', S n n' → Follows i Eq (f n) (f' n'))
    (hadded : ∀ c, i.adds c = true → Idle (f' c) none) :
    Follows i Eq (ns.filterMapM f) (ns'.filterMapM f') := by
  induction hns with
  | nil => exact pure rfl
  | cons hn _ ih =>
    rw [List.filterMapM_cons, List.filterMapM_cons]
    refine bind (h _ _ hn) fun found found' hfound => ?_
    cases hfound
    cases found with
    | none => exact ih
    | some a =>
      refine bind ih fun _ _ hrest => ?_
      cases hrest
      exact pure rfl
  | @added c _ _ hc _ ih =>
    rw [List.filterMapM_cons]
    exact skip (hadded c hc) ih

end Joined

end Follows

end Naming

/-! ## Parts of types -/

namespace Node.Echo

variable {i : Insertion}

theorem typeParts_forall₂ : ∀ n n', Echo i n n' →
    List.Forall₂ (Echo i) (typeParts n) (typeParts n') := by
  refine induct fun n n' h hchildren => ?_
  have hall {ns ns' : List Node}
      (hns : Joined i (fun c c' => Echo i c c' ∧ List.Forall₂ (Echo i) (typeParts c) (typeParts c'))
        ns ns') : List.Forall₂ (Echo i) (typePartsAll ns) (typePartsAll ns') := by
    induction hns with
    | nil => exact .nil
    | cons hc _ ih => exact List.rel_append hc.2 ih
    | @added c _ _ hc _ ih =>
      obtain ⟨kind, text, rfl, hkind⟩ := Insertion.adds_iff.1 hc
      have hnone : typeParts (.mk kind none i.inserted text []) = [] := by
        rcases NodeKind.isComment_cases hkind with rfl | rfl <;> rfl
      rw [typePartsAll, hnone]
      exact ih
  have hkind := h.kind_eq
  cases n with
  | mk kind role span text cs =>
  cases n' with
  | mk kind' role' span' text' cs' =>
  obtain rfl : kind' = kind := hkind
  unfold typeParts
  split
  · exact .cons h .nil
  · exact .cons h .nil
  · exact hall hchildren
  · exact hall hchildren
  · exact .nil

variable {r : Rereading} {n n' : Node}

/-- The names of a dotted type. -/
theorem segments (h : Echo r.toInsertion n n') :
    List.Forall₂ (Respelled r) ((typeParts n).filter (·.kind == .typeIdentifier))
      ((typeParts n').filter (·.kind == .typeIdentifier)) := by
  have hparts := typeParts_forall₂ n n' h
  generalize typeParts n = ns, typeParts n' = ns' at hparts
  induction hparts with
  | nil => exact .nil
  | @cons c c' _ _ hc _ ih =>
    rw [List.filter_cons, List.filter_cons, hc.kind_eq]
    split
    · rename_i hkind
      exact .cons ⟨hc, hc.spelled (by rw [beq_iff_eq.1 hkind]; rfl)⟩ ih
    · exact ih

end Node.Echo

namespace TypeContext

open Naming (Follows)
open Node (Echo Respelled)

variable {r : Rereading} {index : TypeIndex} {scope : TypeScope}

theorem forall₂_getElem? {R : Node → Node → Prop} {ns ns' : List Node} (h : List.Forall₂ R ns ns')
    (k : Nat) : Option.Rel R ns[k]? ns'[k]? := by
  induction h generalizing k with
  | nil => exact .none
  | cons hn _ ih =>
    cases k with
    | zero => exact .some hn
    | succ k => simpa using ih k

section Paths

variable {segments segments' : List Node} (h : List.Forall₂ (Respelled r) segments segments')
include h

theorem memberMentions?_respelled (index : TypeIndex) (scope : TypeScope) (owner : String) :
    memberMentions? ⟨index, r.source', scope⟩ owner segments' =
      (memberMentions? ⟨index, r.source, scope⟩ owner segments).map (List.map r.mention) := by
  induction h generalizing owner with
  | nil => rfl
  | @cons c c' _ _ hc _ ih =>
    simp only [memberMentions?, text, hc.text_eq, ih, hc.echo.span_eq]
    cases index.memberType? owner (r.source.text c) with
    | none => rfl
    | some inner =>
      simp only [Option.bind_eq_bind, Option.bind_some]
      cases memberMentions? _ inner _ <;> rfl

theorem texts_respelled : segments'.map r.source'.text = segments.map r.source.text := by
  induction h with
  | nil => rfl
  | cons hc _ ih => rw [List.map_cons, List.map_cons, hc.text_eq, ih]

theorem qualifiedMentions?_respelled (index : TypeIndex) (scope : TypeScope) (top : String)
    (count : Nat) :
    qualifiedMentions? ⟨index, r.source', scope⟩ segments' top count =
      (qualifiedMentions? ⟨index, r.source, scope⟩ segments top count).map
        (List.map r.mention) := by
  have hlast := forall₂_getElem? h (count - 1)
  unfold qualifiedMentions?
  rw [memberMentions?_respelled (List.forall₂_drop count h) index scope top]
  cases h with
  | nil => rfl
  | @cons first first' _ _ hfirst _ =>
    simp only [List.head?_cons, Option.bind_eq_bind, Option.bind_some]
    generalize (first :: _)[count - 1]? = x, (first' :: _)[count - 1]? = x' at hlast
    cases hlast with
    | none => rfl
    | some hlast =>
      simp only [Option.bind_some, hfirst.echo.start_eq, hlast.echo.stop_eq]
      cases memberMentions? _ top _ <;> rfl

theorem segmentMentions?_respelled :
    segmentMentions? ⟨index, r.source', scope⟩ segments' =
      (segmentMentions? ⟨index, r.source, scope⟩ segments).map (List.map r.mention) := by
  have hqualified := qualifiedMentions?_respelled h index scope
  have htexts := texts_respelled h
  unfold segmentMentions?
  cases h with
  | nil => rfl
  | @cons first first' _ _ hfirst hrest =>
    have hmembers := memberMentions?_respelled hrest index scope
    have htext : text ⟨index, r.source', scope⟩ first' = text ⟨index, r.source, scope⟩ first :=
      hfirst.text_eq
    simp only [List.head?_cons, Option.bind_eq_bind, Option.bind_some, htext, List.tail_cons]
    cases scope.resolveSimple? index (text ⟨index, r.source, scope⟩ first) with
    | none =>
      change ((TypeScope.longestTopLevel? index 1 (List.map r.source'.text _)).bind _) = _
      rw [htexts]
      change _ = ((TypeScope.longestTopLevel? index 1 (List.map r.source.text _)).bind _).map _
      cases TypeScope.longestTopLevel? index 1 (List.map r.source.text _) with
      | none => rfl
      | some found => exact hqualified found.1 found.2
    | some binding =>
      cases binding with
      | var param => rfl
      | type binary =>
        simp only [hmembers, hfirst.echo.span_eq]
        cases memberMentions? _ binary _ <;> rfl

end Paths

/-! ## Meanings -/

theorem follows_simple {n n' : Node} (h : Echo r.toInsertion n n')
    (hkind : n.kind = .typeIdentifier) :
    Follows r.toInsertion Eq (simple ⟨index, r.source, scope⟩ n)
      (simple ⟨index, r.source', scope⟩ n') := by
  have htext : text ⟨index, r.source', scope⟩ n' = text ⟨index, r.source, scope⟩ n :=
    h.spelled (by rw [hkind]; rfl)
  unfold simple
  rw [htext]
  dsimp only
  split
  · exact .bind (.mention (by rw [h.span_eq]; rfl)) fun _ _ _ => .pure rfl
  · exact .pure rfl
  · exact .bind .miss fun _ _ _ => .pure rfl

section Rules

variable {sub sub' : Node → Naming (Option GenericType)}
  (hsub : ∀ n n', Echo r.toInsertion n n' → Follows r.toInsertion Eq (sub n) (sub' n'))

include hsub

theorem follows_ofChild {child child' : Option Node}
    (hchild : Option.Rel (Echo r.toInsertion) child child') :
    Follows r.toInsertion Eq (ofChild sub child) (ofChild sub' child') := by
  cases hchild with
  | none => exact .pure rfl
  | some hc => exact hsub _ _ hc

theorem follows_wildcardArgument {n n' : Node} (h : Echo r.toInsertion n n') :
    Follows r.toInsertion Eq (wildcardArgument sub n) (wildcardArgument sub' n') := by
  have hsuper : (n.children.any (·.kind == .super)) = n'.children.any (·.kind == .super) :=
    h.children.any_eq (fun _ _ hc => by rw [hc.kind_eq]) fun _ hc =>
      Insertion.kind_beq_of_adds hc rfl
  refine .bind (follows_ofChild hsub (h.namedWith? fun _ => NodeKind.isType_eq_false))
    fun t t' ht => ?_
  subst ht
  rw [hsuper]
  cases t with
  | none => exact .pure rfl
  | some t => exact .pure rfl

theorem follows_argument? {n n' : Node} (h : Echo r.toInsertion n n') :
    Follows r.toInsertion Eq (argument? sub n) (argument? sub' n') := by
  unfold argument?
  rw [h.kind_eq]
  split
  · refine .bind (follows_wildcardArgument hsub h) fun a a' ha => .pure (by rw [ha])
  · split
    · refine .bind (hsub n n' h) fun t t' ht => .pure (by rw [ht])
    · exact .pure rfl

omit hsub in
/-- A comment is no argument. -/
theorem idle_argument? {c : Node} {i : Insertion} (hc : i.adds c = true) :
    Naming.Idle (argument? sub' c) none := by
  unfold argument?
  rw [Insertion.kind_beq_of_adds hc rfl, NodeKind.isType_eq_false (Insertion.isComment_of_adds hc)]
  exact fun _ => ⟨rfl, rfl⟩

theorem follows_argumentsOf {n n' : Node} (h : Echo r.toInsertion n n') :
    Follows r.toInsertion Eq (argumentsOf sub n) (argumentsOf sub' n') :=
  .filterMapM_joined h.named (fun _ _ => follows_argument? hsub) fun _ => idle_argument?

theorem follows_dotted {n n' : Node} (h : Echo r.toInsertion n n') :
    Follows r.toInsertion Eq (dotted ⟨index, r.source, scope⟩ sub n)
      (dotted ⟨index, r.source', scope⟩ sub' n') := by
  have hlists : List.Forall₂ (Echo r.toInsertion) ((typeParts n).filter (·.kind == .typeArguments))
      ((typeParts n').filter (·.kind == .typeArguments)) := by
    have hparts := Echo.typeParts_forall₂ n n' h
    generalize typeParts n = ns, typeParts n' = ns' at hparts
    exact (Joined.of_forall₂ (i := r.toInsertion) hparts).filter_forall₂
      (fun _ _ hc => by rw [hc.kind_eq]) fun _ hc => Insertion.kind_beq_of_adds hc rfl
  unfold dotted
  refine .bind (.forIn hlists fun c c' hc b => ?_) fun _ _ _ => ?_
  · exact .bind (follows_argumentsOf hsub hc) fun _ _ _ => .pure rfl
  · dsimp only
    rw [segmentMentions?_respelled h.segments]
    cases segmentMentions? _ _ with
    | none => exact .bind .miss fun _ _ _ => .pure rfl
    | some mentions =>
      refine .bind (.mention rfl) fun _ _ _ => .pure ?_
      rw [List.getLast?_map, Option.map_map]
      rfl

theorem follows_generic {n n' : Node} (h : Echo r.toInsertion n n') :
    Follows r.toInsertion Eq (generic sub n) (generic sub' n') := by
  unfold generic
  refine .bind (.forIn_joined h.named (fun c c' hc b => ?_) fun c hc b => ?_) fun b b' hb => ?_
  · rw [hc.kind_eq]
    split
    · refine .bind (follows_argumentsOf hsub hc) fun _ _ ha => ?_
      subst ha
      exact .pure rfl
    · refine .bind (hsub _ _ hc) fun _ _ ha => ?_
      subst ha
      exact .pure rfl
    · refine .bind (hsub _ _ hc) fun _ _ ha => ?_
      subst ha
      exact .pure rfl
    · exact .pure rfl
  · have hcomment := Insertion.isComment_of_adds hc
    generalize c.kind = kind at hcomment
    rcases NodeKind.isComment_cases hcomment with rfl | rfl <;> rfl
  · subst hb
    dsimp only
    split
    · exact .pure rfl
    · exact .pure rfl

theorem follows_meaning {n n' : Node} (h : Echo r.toInsertion n n') :
    Follows r.toInsertion Eq (meaning ⟨index, r.source, scope⟩ sub n)
      (meaning ⟨index, r.source', scope⟩ sub' n') := by
  have htext (hkind : n.kind.isSpelled = true) :
      text ⟨index, r.source', scope⟩ n' = text ⟨index, r.source, scope⟩ n :=
    h.spelled hkind
  unfold meaning
  rw [h.kind_eq]
  split
  · rename_i hkind
    exact .pure (by rw [htext (by rw [hkind]; rfl)])
  · rename_i hkind
    exact .pure (by rw [htext (by rw [hkind]; rfl)])
  · rename_i hkind
    exact .pure (by rw [htext (by rw [hkind]; rfl)])
  · exact .pure rfl
  · rename_i hkind
    exact follows_simple h hkind
  · exact follows_dotted hsub h
  · exact follows_generic hsub h
  · rename_i hkind
    refine .bind (follows_ofChild hsub (h.child? _)) fun element element' helement => .pure ?_
    dsimp only
    rw [helement, h.dimensionCount_eq (.inl (by simp [hkind]))]
  · rename_i hkind
    exact follows_ofChild hsub (h.annotated? hkind)
  · exact .bind (follows_wildcardArgument hsub h) fun a a' ha => .pure (by rw [ha])
  · exact .bind .miss fun _ _ _ => .pure rfl

end Rules

theorem follows_meaningWithin (height : Nat) {n n' : Node} (h : Echo r.toInsertion n n') :
    Follows r.toInsertion Eq (meaningWithin ⟨index, r.source, scope⟩ height n)
      (meaningWithin ⟨index, r.source', scope⟩ height n') := by
  induction height generalizing n n' with
  | zero => exact .pure rfl
  | succ height ih => exact follows_meaning (fun _ _ => ih) h

theorem follows_typeOf {n n' : Node} (h : Echo r.toInsertion n n') :
    Follows r.toInsertion Eq (typeOf ⟨index, r.source, scope⟩ n)
      (typeOf ⟨index, r.source', scope⟩ n') := by
  rw [typeOf, typeOf, ← Echo.height_eq n n' h]
  exact follows_meaningWithin _ h

/-- A comment spells no type. -/
theorem idle_typeOf {c : Node} {i : Insertion} (hc : i.adds c = true) (ctx : TypeContext) :
    Naming.Idle (ctx.typeOf c) none := by
  obtain ⟨kind, text, rfl, hkind⟩ := Insertion.adds_iff.1 hc
  rcases NodeKind.isComment_cases hkind with rfl | rfl <;> exact fun _ => ⟨rfl, rfl⟩

theorem follows_typeArguments {n n' : Node} (h : Echo r.toInsertion n n') :
    Follows r.toInsertion Eq (typeArguments ⟨index, r.source, scope⟩ n)
      (typeArguments ⟨index, r.source', scope⟩ n') := by
  rw [typeArguments, typeArguments, ← Echo.height_eq n n' h]
  exact follows_argumentsOf (fun _ _ => follows_meaningWithin _) h

/-- Bounds of a type parameter, the first of which is no comment. -/
def BoundsEcho (i : Insertion) (bounds bounds' : List Node) : Prop :=
  Joined i (Echo i) bounds bounds' ∧ ∀ c ∈ bounds'.head?, i.adds c = false

theorem follows_bounds {bounds bounds' : List Node} (h : BoundsEcho r.toInsertion bounds bounds') :
    Follows r.toInsertion (fun types types' => types'.head? = types.head?)
      (bounds.mapM (typeOf ⟨index, r.source, scope⟩))
      (bounds'.mapM (typeOf ⟨index, r.source', scope⟩)) := by
  rcases h.1.head_cases h.2 with ⟨rfl, rfl⟩ | ⟨n, n', ms, ms', rfl, rfl, hn, hms⟩
  · exact .pure rfl
  · rw [List.mapM_cons, List.mapM_cons]
    refine .bind (follows_typeOf hn) fun t t' ht => ?_
    refine .bind (.mapM_joined hms (fun _ _ => follows_typeOf) fun c hc => idle_typeOf hc _)
      fun _ _ _ => .pure ?_
    rw [ht]
    rfl

theorem parameterNames_echo (index : TypeIndex) (scope : TypeScope) {n n' : Node}
    (h : Echo r.toInsertion n n') :
    List.Forall₂ (fun p p' => p'.1 = p.1 ∧ BoundsEcho r.toInsertion p.2 p'.2)
      (parameterNames ⟨index, r.source, scope⟩ n)
      (parameterNames ⟨index, r.source', scope⟩ n') := by
  have hparams := h.allNamedWith (· == .typeParameter) fun _ hkind =>
    NodeKind.beq_eq_false hkind rfl
  refine (Joined.of_forall₂ (i := r.toInsertion) hparams).filterMap (fun p p' hp => ?_)
    fun c hc => by rw [Insertion.childOfKind?_of_adds hc]; rfl
  have hname := hp.childOfKind? .typeIdentifier rfl
  have hkind : ∀ c ∈ p.childOfKind? .typeIdentifier, c.kind = .typeIdentifier :=
    fun c hc => by simpa using List.find?_some hc
  have hbounds : BoundsEcho r.toInsertion
      (((p.childOfKind? .typeBound).map Node.namedChildren).getD [])
      (((p'.childOfKind? .typeBound).map Node.namedChildren).getD []) := by
    have hbound := hp.childOfKind? .typeBound rfl
    have hkind : ∀ c ∈ p.childOfKind? .typeBound, c.kind = .typeBound :=
      fun c hc => by simpa using List.find?_some hc
    generalize p.childOfKind? .typeBound = x, p'.childOfKind? .typeBound = x' at hbound hkind
    cases hbound with
    | none => exact ⟨.nil, by simp⟩
    | some hc => exact ⟨hc.named, hc.kept_head (by rw [hkind _ rfl]; exact fun _ _ => rfl)⟩
  generalize p.childOfKind? .typeIdentifier = x, p'.childOfKind? .typeIdentifier = x'
    at hname hkind
  cases hname with
  | none => exact .none
  | some hc => exact .some ⟨hc.spelled (by rw [hkind _ rfl]; rfl), hbounds⟩

theorem follows_typeParameters {n n' : Node} (h : Echo r.toInsertion n n') :
    Follows r.toInsertion Eq (typeParameters ⟨index, r.source, scope⟩ n)
      (typeParameters ⟨index, r.source', scope⟩ n') := by
  have hnames := parameterNames_echo index scope h
  have hframe : (parameterNames ⟨index, r.source', scope⟩ n').map (fun p =>
      (⟨p.1, .objectClass⟩ : TypeParameter)) =
        (parameterNames ⟨index, r.source, scope⟩ n).map fun p => ⟨p.1, .objectClass⟩ := by
    generalize parameterNames _ n = ps, parameterNames _ n' = ps' at hnames
    induction hnames with
    | nil => rfl
    | cons hp _ ih => rw [List.map_cons, List.map_cons, hp.1, ih]
  unfold typeParameters
  dsimp only
  rw [hframe]
  refine (Follows.mapM (R := Eq) hnames fun p p' hp => ?_).imp fun _ _ hall =>
    List.forall₂_eq_eq_eq ▸ hall
  exact (follows_bounds hp.2).bind fun types types' htypes => .pure (by rw [hp.1, htypes])

theorem follows_parametersOf {n n' : Node} (h : Echo r.toInsertion n n') :
    Follows r.toInsertion Eq (parametersOf ⟨index, r.source, scope⟩ n)
      (parametersOf ⟨index, r.source', scope⟩ n') := by
  have hchild := h.child? .typeParameters
  unfold parametersOf
  generalize n.child? .typeParameters = x, n'.child? .typeParameters = x' at hchild
  cases hchild with
  | none => exact .pure rfl
  | some hc => exact follows_typeParameters hc

theorem type?_echo {n n' : Node} (h : Echo r.toInsertion n n') :
    type? ⟨index, r.source', scope⟩ n' = type? ⟨index, r.source, scope⟩ n :=
  (follows_typeOf h).value.symm

theorem type?_added {c : Node} {i : Insertion} (hc : i.adds c = true) (ctx : TypeContext) :
    ctx.type? c = none :=
  (idle_typeOf hc ctx {}).1

end TypeContext

end Renaming.Java
