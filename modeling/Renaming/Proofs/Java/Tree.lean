import Mathlib.Tactic.MkIffOfInductiveProp
import Renaming.Proofs.Java.Tokens

/-!
# Sound trees

The parts of a sound node lie within it, one after the other, and those that are well formed have
the shape that its kind promises. Leaves lie where their tokens lie, and branches where their
children lie; comments that hang in a tree change nothing of what can be seen of its parts. Sound
trees may have errors and missing tokens in them; those that grow from tokens have none.
-/

namespace Renaming.Java

/-- Whether a node of a kind may play a role. -/
def Role.Fits (kind : NodeKind) : Role → Prop
  | .declarator => kind = .variableDeclarator
  | .field => kind = .this ∨ kind = .identifier
  | .key => kind = .identifier
  | _ => True

instance (kind : NodeKind) (role : Role) : Decidable (role.Fits kind) := by
  cases role <;> dsimp only [Role.Fits] <;> infer_instance

/-- Roles that nodes of all kinds may play. -/
def Role.isFree : Role → Bool
  | .declarator | .field | .key => false
  | _ => true

theorem Role.fits_of_isFree {role : Role} (h : role.isFree = true) (kind : NodeKind) :
    role.Fits kind := by
  cases role <;> trivial

/-- Kinds of nodes that hang in a tree without being asked for by the nodes around them. -/
def NodeKind.isExtra (k : NodeKind) : Bool := k.isComment || k == .error

/-- Kinds of nodes that cover something in every text. -/
def NodeKind.isSolid : NodeKind → Bool
  | interfaceBody | enumBody | annotationTypeBody => true
  | k => k.isDeclaration

theorem NodeKind.isSolid_of_isDeclaration {k : NodeKind} (h : k.isDeclaration = true) :
    k.isSolid = true := by
  cases k <;> first | rfl | cases h

/-- Where a node, seen from outside, lies in the text, and its parts one after the other. -/
@[mk_iff] structure Part.Lies (source : SourceText) (whole : Part) (parts : List Part) : Prop where
  start_le_stop : whole.span.start ≤ whole.span.stop
  stop_le : whole.span.stop ≤ source.chars.size
  name : whole.kind.isName = true →
    ∀ c ∈ (source.slice whole.span).toList, Lexeme.continuesName c = true
  ordered : parts.Pairwise fun p q => p.span.stop ≤ q.span.start

instance (source : SourceText) (whole : Part) (parts : List Part) :
    Decidable (Part.Lies source whole parts) :=
  -- Only the characters of the name are looked at, not all characters there are.
  letI : Decidable (∀ c ∈ (source.slice whole.span).toList, Lexeme.continuesName c = true) :=
    List.decidableBAll _ _
  decidable_of_iff _ (Part.lies_iff source whole parts).symm

/-- What a node that grows from tokens has to do with its parts. -/
structure Part.Grows (source : SourceText) (whole : Part) (parts : List Part) : Prop extends
    Part.Lies source whole parts where
  kind : whole.kind.isExtra = false
  role : ∀ role ∈ whole.role, role.Fits whole.kind
  shape : Shape whole.kind parts
  proper : whole.kind ≠ .program → whole.span.start < whole.span.stop
  inside : ∀ p ∈ parts, whole.span.start ≤ p.span.start ∧ p.span.start < p.span.stop ∧
    p.span.stop ≤ whole.span.stop

/-- What any node has to do with its parts. Errors play no role and count for nothing in the shape
of a node, and missing tokens cover nothing; but what a declaration holds after its modifiers, its
keywords, its types and its names stands behind its start. -/
@[mk_iff] structure Part.Holds (source : SourceText) (whole : Part) (parts : List Part) : Prop
    extends Part.Lies source whole parts where
  role : ∀ role ∈ whole.role, role.Fits whole.kind ∧ whole.kind ≠ .error
  shape : Shape whole.kind (parts.filter fun p => p.kind != .error)
  solid : whole.kind.isSolid = true → whole.span.start < whole.span.stop
  inside : ∀ p ∈ parts, whole.span.start ≤ p.span.start ∧ p.span.stop ≤ whole.span.stop
  opens : whole.kind.isDeclaration = true ∨ whole.kind.isOpening = true →
    ∀ p ∈ parts, p.kind.isOpening = true ∨ whole.span.start < p.span.start

instance (source : SourceText) (whole : Part) (parts : List Part) :
    Decidable (Part.Holds source whole parts) :=
  decidable_of_iff _ (Part.holds_iff source whole parts).symm

theorem Part.Grows.holds {source : SourceText} {whole : Part} {parts : List Part}
    (h : Part.Grows source whole parts) (hparts : ∀ p ∈ parts, p.kind ≠ .error) :
    Part.Holds source whole parts where
  toLies := h.toLies
  role r hr := ⟨h.role r hr, fun herror => by
    have hkind := h.kind
    rw [herror] at hkind
    cases hkind⟩
  shape := by
    rw [List.filter_eq_self.2 fun p hp => by simpa using hparts p hp]
    exact h.shape
  solid hsolid := h.proper fun hprogram => by
    rw [hprogram] at hsolid
    cases hsolid
  inside p hp := ⟨(h.inside p hp).1, (h.inside p hp).2.2⟩
  opens hwhole p hp := by
    have hordered := h.ordered
    have hopening := h.shape.opening hwhole
    have hinside := h.inside
    cases parts with
    | nil => cases hp
    | cons first rest =>
      rcases List.mem_cons.1 hp with rfl | hp
      · exact .inl (hopening p rfl)
      · have hfirst := hinside first List.mem_cons_self
        have hafter := (List.pairwise_cons.1 hordered).1 p hp
        exact .inr (by omega)

/-- Kinds of nodes that may have no parts. -/
def NodeKind.isBare (k : NodeKind) : Bool :=
  !k.isTypeDeclaration && !k.isTyped && k != .spreadParameter && k != .program && !k.isExtra

/-- Kinds of leaves that are no words. -/
def NodeKind.isSign (k : NodeKind) : Bool := k.isBare && !k.isName

/-- Kinds of nodes that may have parts. -/
def NodeKind.isBranch (k : NodeKind) : Bool := !k.isExtra && !k.isName

theorem NodeKind.isBranch_iff {k : NodeKind} :
    k.isBranch = true ↔ k.isExtra = false ∧ k.isName = false := by
  simp [isBranch]

theorem NodeKind.isExtra_eq_false_iff {k : NodeKind} :
    k.isExtra = false ↔ k.isComment = false ∧ k ≠ .error := by
  simp [isExtra]

theorem Shape.nil {kind : NodeKind} (htype : kind.isTypeDeclaration = false)
    (htyped : kind.isTyped = false) (hspread : kind ≠ .spreadParameter) : Shape kind [] := by
  intro promise hpromise
  have hmade := (List.mem_filter.1 hpromise).2
  cases promise with
  | titled =>
    rw [Promise.isMadeBy, htype] at hmade
    cases hmade
  | typed =>
    rw [Promise.isMadeBy, htyped] at hmade
    cases hmade
  | spread => exact absurd (beq_iff_eq.1 hmade) hspread
  | _ => simp [Promise.Kept]

namespace Node

variable {source : SourceText}

/-- Nodes that grow from the tokens of a text, before comments hang in them. -/
inductive Grown (source : SourceText) : Node → Prop where
  | mk {kind : NodeKind} {role : Option Role} {span : Span} {text : String} {children : List Node}
      (hgrows : Part.Grows source ⟨kind, role, span⟩ (children.map part))
      (hchildren : ∀ c ∈ children, Grown source c) :
      Grown source (.mk kind role span text children)

/-- What lies between two places, one node after the other. -/
structure Laid (source : SourceText) (p : Nat) (ns : List Node) (q : Nat) : Prop where
  le : p ≤ q
  grown : ∀ n ∈ ns, Grown source n
  between : ∀ n ∈ ns, p ≤ n.start ∧ n.start < n.stop ∧ n.stop ≤ q
  ordered : ns.Pairwise fun n m => n.stop ≤ m.start

namespace Grown

theorem grows {n : Node} (h : Grown source n) :
    Part.Grows source n.part (n.children.map part) := by
  cases h with
  | mk hgrows _ => exact hgrows

theorem leaf {kind : NodeKind} {t : Token} (hkind : kind.isBare = true)
    (hspan : t.span.start < t.span.stop) (hstop : t.span.stop ≤ source.chars.size)
    (hname : kind.isName = true →
      ∀ c ∈ (source.slice t.span).toList, Lexeme.continuesName c = true) :
    Grown source (.leaf kind t) := by
  simp only [NodeKind.isBare, Bool.and_eq_true, Bool.not_eq_true', bne_iff_ne, ne_eq] at hkind
  obtain ⟨⟨⟨⟨htype, htyped⟩, hspread⟩, -⟩, hextra⟩ := hkind
  exact .mk ⟨⟨Nat.le_of_lt hspan, hstop, hname, .nil⟩, hextra, by simp, .nil htype htyped hspread,
    fun _ => hspan, by simp⟩ (by simp)

theorem as {n : Node} {role : Role} (h : Grown source n) (hrole : role.Fits n.kind) :
    Grown source (n.as role) := by
  cases h with
  | mk hgrows hchildren =>
    refine .mk ⟨⟨hgrows.start_le_stop, hgrows.stop_le, hgrows.name, hgrows.ordered⟩,
      hgrows.kind, ?_, hgrows.shape, hgrows.proper, hgrows.inside⟩ hchildren
    intro r hr
    cases hr
    exact hrole

end Grown

namespace Laid

variable {p q r : Nat} {n : Node} {ns ms : List Node}

theorem nil (h : p ≤ q) : Laid source p [] q := ⟨h, by simp, by simp, .nil⟩

theorem one (hn : Grown source n) (hp : p ≤ n.start) (hspan : n.start < n.stop) (hq : n.stop ≤ q) :
    Laid source p [n] q :=
  ⟨by omega, by simpa using hn, by simpa using ⟨hp, hspan, hq⟩, by simp⟩

theorem append (h : Laid source p ns q) (h' : Laid source q ms r) :
    Laid source p (ns ++ ms) r := by
  have hpq := h.le
  have hqr := h'.le
  refine ⟨by omega, ?_, ?_, List.pairwise_append.2 ⟨h.ordered, h'.ordered, ?_⟩⟩
  · intro n hn
    rcases List.mem_append.1 hn with hn | hn
    · exact h.grown n hn
    · exact h'.grown n hn
  · intro n hn
    rcases List.mem_append.1 hn with hn | hn
    · have hb := h.between n hn
      omega
    · have hb := h'.between n hn
      omega
  · intro n hn m hm
    have hb := h.between n hn
    have hb' := h'.between m hm
    omega

/-- Nodes keep their places in whatever role they are put. -/
theorem map_as {role : Role} (h : Laid source p ns q) (hrole : ∀ n ∈ ns, role.Fits n.kind) :
    Laid source p (ns.map (·.as role)) q := by
  refine ⟨h.le, ?_, ?_, ?_⟩
  · intro n hn
    obtain ⟨m, hm, rfl⟩ := List.mem_map.1 hn
    exact (h.grown m hm).as (hrole m hm)
  · intro n hn
    obtain ⟨m, hm, rfl⟩ := List.mem_map.1 hn
    have hb := h.between m hm
    cases m
    exact hb
  · refine List.pairwise_map.2 (h.ordered.imp ?_)
    rintro ⟨⟩ ⟨⟩ hle
    exact hle

theorem split (h : Laid source p (ns ++ ms) r) : ∃ q, Laid source p ns q ∧ Laid source q ms r := by
  obtain ⟨hns, hms, hacross⟩ := List.pairwise_append.1 h.ordered
  have hle := h.le
  have hgrown := List.forall_mem_append.1 h.grown
  have hbetween := List.forall_mem_append.1 h.between
  cases ms with
  | nil => exact ⟨r, ⟨hle, hgrown.1, hbetween.1, hns⟩, .nil (Nat.le_refl _)⟩
  | cons m ms =>
    have hm := hbetween.2 m (by simp)
    refine ⟨m.start, ⟨hm.1, hgrown.1, fun n hn => ?_, hns⟩, by omega, hgrown.2, fun n hn => ?_, hms⟩
    · have hn' := hbetween.1 n hn
      have hafter := hacross n hn m (by simp)
      omega
    · have hn' := hbetween.2 n hn
      rcases List.mem_cons.1 hn with rfl | hn
      · omega
      · have hafter := (List.pairwise_cons.1 hms).1 n hn
        omega

theorem as_head {role : Role} (h : Laid source p (n :: ns) q) (hrole : role.Fits n.kind) :
    Laid source p (n.as role :: ns) q := by
  rw [← List.singleton_append] at h
  obtain ⟨r, hn, hns⟩ := h.split
  exact (hn.map_as (by simpa using hrole)).append hns

theorem as_tail {role : Role} (h : Laid source p (ns ++ ms) q)
    (hrole : ∀ m ∈ ms, role.Fits m.kind) :
    Laid source p (ns ++ ms.map (·.as role)) q := by
  obtain ⟨r, hns, hms⟩ := h.split
  exact hns.append (hms.map_as hrole)

/-- The first of some nodes starts first, and the last one stops last. -/
theorem ends (h : Laid source p ns q) (hne : ns ≠ []) :
    ∃ first last, ns.head? = some first ∧ ns.getLast? = some last ∧
      ∀ n ∈ ns, first.start ≤ n.start ∧ n.stop ≤ last.stop := by
  refine ⟨ns.head hne, ns.getLast hne, List.head?_eq_some_head hne,
    List.getLast?_eq_some_getLast hne, fun n hn => ⟨?_, ?_⟩⟩
  · cases ns with
    | nil => cases hn
    | cons first rest =>
      rcases List.mem_cons.1 hn with rfl | hn
      · exact Nat.le_refl _
      · have hfirst := h.between first (by simp)
        have hafter := (List.pairwise_cons.1 h.ordered).1 n hn
        rw [List.head_cons]
        omega
  · have hordered := h.ordered
    rw [← List.dropLast_concat_getLast hne] at hn hordered
    rcases List.mem_append.1 hn with hn | hn
    · have hlast := h.between _ (List.getLast_mem hne)
      have hbefore := (List.pairwise_append.1 hordered).2.2 n hn _ (List.mem_singleton_self _)
      omega
    · rw [List.mem_singleton.1 hn]

theorem branch {kind : NodeKind} (h : Laid source p ns q) (hne : ns ≠ [])
    (hkind : kind.isExtra = false) (hname : kind.isName = false)
    (hshape : Shape kind (ns.map part)) : Laid source p [.branch kind ns] q := by
  obtain ⟨first, last, hfirst, hlast, hends⟩ := h.ends hne
  have hf := h.between first (List.mem_of_head? hfirst)
  have hl := h.between last (List.mem_of_getLast? hlast)
  have hfl := hends last (List.mem_of_getLast? hlast)
  have hspan : first.start < last.stop := by omega
  have hbranch : Node.branch kind ns = .mk kind none ⟨first.start, last.stop⟩ "" ns := by
    simp [Node.branch, hfirst, hlast]
  rw [hbranch]
  refine .one (.mk ⟨⟨Nat.le_of_lt hspan, ?_, fun hkind' => ?_, List.pairwise_map.2 h.ordered⟩,
    hkind, by simp, hshape, fun _ => hspan, ?_⟩ h.grown) hf.1 hspan hl.2.2
  · exact (h.grown last (List.mem_of_getLast? hlast)).grows.stop_le
  · dsimp only at hkind'
    rw [hname] at hkind'
    cases hkind'
  · intro part hpart
    obtain ⟨n, hn, rfl⟩ := List.mem_map.1 hpart
    exact ⟨(hends n hn).1, (h.between n hn).2.1, (hends n hn).2⟩

end Laid

/-! ## Comments -/

/-- The children of a node that are no comments. -/
def parts (n : Node) : List Node := n.children.filter fun c => !c.kind.isComment

/-- The parts of a node that are no errors. -/
def formed (n : Node) : List Node := n.children.filter fun c => !c.kind.isExtra

/-- Nodes of the tree of a text, which may have errors in it. -/
inductive Sound (source : SourceText) : Node → Prop where
  | mk {kind : NodeKind} {role : Option Role} {span : Span} {text : String} {children : List Node}
      (hcomment : kind.isComment = true → role = none ∧ children = [])
      (hholds : Part.Holds source ⟨kind, role, span⟩
        ((children.filter fun c => !c.kind.isComment).map part))
      (hchildren : ∀ c ∈ children, Sound source c) :
      Sound source (.mk kind role span text children)

theorem sound_mk_iff {kind : NodeKind} {role : Option Role} {span : Span} {text : String}
    {children : List Node} : Sound source (.mk kind role span text children) ↔
      ((kind.isComment = true → role = none ∧ children = []) ∧
        Part.Holds source ⟨kind, role, span⟩
          ((children.filter fun c => !c.kind.isComment).map part)) ∧
      ∀ c ∈ children, Sound source c := by
  constructor
  · rintro ⟨hcomment, hholds, hchildren⟩
    exact ⟨⟨hcomment, hholds⟩, hchildren⟩
  · rintro ⟨⟨hcomment, hholds⟩, hchildren⟩
    exact .mk hcomment hholds hchildren

mutual

private def decSound (source : SourceText) : (n : Node) → Decidable (Sound source n)
  | .mk _ _ _ _ children =>
    have := decSoundAll source children
    decidable_of_iff _ sound_mk_iff.symm

private def decSoundAll (source : SourceText) :
    (ns : List Node) → Decidable (∀ c ∈ ns, Sound source c)
  | [] => isTrue nofun
  | c :: rest =>
    have := decSound source c
    have := decSoundAll source rest
    decidable_of_iff (Sound source c ∧ ∀ d ∈ rest, Sound source d) List.forall_mem_cons.symm

end

instance (source : SourceText) (n : Node) : Decidable (Sound source n) := decSound source n

/-- Tokens that comments are made of. -/
def CommentToken (source : SourceText) (t : Token) : Prop :=
  t.Placed source ∧ t.isComment = true

theorem ofComment_eq_leaf {t : Token} (ht : CommentToken source t) :
    ∃ kind : NodeKind, kind.isComment = true ∧ ofComment t = .leaf kind t := by
  obtain ⟨⟨-, -, htells⟩, hkind⟩ := ht
  obtain ⟨kind, text, span⟩ := t
  cases kind with
  | comment kind => exact ⟨kind, htells, rfl⟩
  | word => cases hkind
  | symbol => cases hkind
  | literal kind => cases hkind

theorem isComment_ofComment {t : Token} (ht : CommentToken source t) :
    (ofComment t).kind.isComment = true := by
  obtain ⟨kind, hkind, heq⟩ := ofComment_eq_leaf ht
  rw [heq]
  exact hkind

theorem sound_ofComment {t : Token} (ht : CommentToken source t) :
    Sound source (ofComment t) := by
  have hspan := ht.1.start_lt_stop
  have hstop := ht.1.stop_le
  obtain ⟨kind, hkind, heq⟩ := ofComment_eq_leaf ht
  obtain ⟨hname, htype, htyped, hspread, hsolid, hopens⟩ : kind.isName = false ∧
      kind.isTypeDeclaration = false ∧ kind.isTyped = false ∧ kind ≠ .spreadParameter ∧
      kind.isSolid = false ∧ ¬(kind.isDeclaration = true ∨ kind.isOpening = true) := by
    simp only [NodeKind.isComment, Bool.or_eq_true, beq_iff_eq] at hkind
    rcases hkind with rfl | rfl <;> decide
  rw [heq]
  refine .mk (fun _ => ⟨rfl, rfl⟩) ⟨⟨Nat.le_of_lt hspan, hstop, fun hname' => ?_, .nil⟩, by simp,
    .nil htype htyped hspread, fun _ => hspan, by simp, by simp⟩ (by simp)
  dsimp only at hname'
  rw [hname] at hname'
  cases hname'

@[simp] theorem part_weave (comments : List Token) (n : Node) :
    (weave comments n).part = n.part := by
  cases n
  simp [weave, part, kind, role, span]

/-- Comments that hang between nodes are no parts. -/
theorem parts_weaveInto {comments : List Token} {ns : List Node}
    (hcomments : ∀ t ∈ comments, CommentToken source t)
    (hns : ∀ n ∈ ns, n.kind.isComment = false) :
    ((weaveInto comments ns).filter fun c => !c.kind.isComment).map part = ns.map part := by
  have hdrop {ts : List Token} (hts : ∀ t ∈ ts, t ∈ comments) :
      (ts.map ofComment).filter (fun c => !c.kind.isComment) = [] := by
    refine List.filter_eq_nil_iff.2 fun c hc => ?_
    obtain ⟨t, ht, rfl⟩ := List.mem_map.1 hc
    simp [isComment_ofComment (hcomments t (hts t ht))]
  induction ns generalizing comments with
  | nil =>
    rw [weaveInto, hdrop fun t ht => ht]
  | cons n rest ih =>
    have hkind : (weave (comments.filter fun t =>
        n.start < t.span.start && t.span.stop < n.stop) n).kind = n.kind := by
      cases n
      simp [weave, kind]
    have hrest := @ih (comments.filter fun t => n.stop ≤ t.span.start)
      (fun t ht => hcomments t (List.mem_filter.1 ht).1) (fun m hm => hns m (by simp [hm]))
      (fun hts => hdrop fun t ht => (List.mem_filter.1 (hts t ht)).1)
    rw [weaveInto, List.filter_append, hdrop fun t ht => (List.mem_filter.1 ht).1, List.nil_append,
      List.filter_cons_of_pos (by rw [hkind, hns n (by simp)]; rfl), List.map_cons, part_weave,
      hrest, List.map_cons]

/-- What hangs in a row of nodes with comments is a comment, or a node of the row with comments in
it. -/
theorem of_mem_weaveInto {comments : List Token} {ns : List Node} {n : Node}
    (hn : n ∈ weaveInto comments ns) : (∃ t ∈ comments, n = ofComment t) ∨
      ∃ c ∈ ns, ∃ inside, (∀ t ∈ inside, t ∈ comments) ∧ n = weave inside c := by
  induction ns generalizing comments with
  | nil =>
    obtain ⟨t, ht, rfl⟩ := List.mem_map.1 hn
    exact .inl ⟨t, ht, rfl⟩
  | cons c rest ih =>
    have hsome (p : Token → Bool) : ∀ t ∈ comments.filter p, t ∈ comments :=
      fun t ht => (List.mem_filter.1 ht).1
    rw [weaveInto] at hn
    rcases List.mem_append.1 hn with hn | hn
    · obtain ⟨t, ht, rfl⟩ := List.mem_map.1 hn
      exact .inl ⟨t, hsome _ t ht, rfl⟩
    · rcases List.mem_cons.1 hn with rfl | hn
      · exact .inr ⟨c, List.mem_cons_self, _, hsome _, rfl⟩
      · obtain ⟨t, ht, rfl⟩ | ⟨d, hd, inside, hinside, rfl⟩ := ih hn
        · exact .inl ⟨t, hsome _ t ht, rfl⟩
        · exact .inr ⟨d, List.mem_cons_of_mem c hd, inside, fun t ht => hsome _ t (hinside t ht),
            rfl⟩

/-- A tree that grew from the tokens of a text is sound once the comments hang in it. -/
theorem sound_weave {comments : List Token} (hcomments : ∀ t ∈ comments, CommentToken source t)
    {n : Node} (h : Grown source n) : Sound source (weave comments n) := by
  induction h generalizing comments with
  | @mk kind role span text children hgrows hchildren ih =>
    have hextra : ∀ c ∈ children, c.kind.isComment = false ∧ c.kind ≠ .error := fun c hc =>
      NodeKind.isExtra_eq_false_iff.1 (hchildren c hc).grows.kind
    rw [weave]
    refine .mk (fun h => ?_) ?_ fun c hc => ?_
    · rw [(NodeKind.isExtra_eq_false_iff.1 hgrows.kind).1] at h
      cases h
    · rw [parts_weaveInto hcomments fun c hc => (hextra c hc).1]
      refine hgrows.holds fun p hp => ?_
      obtain ⟨c, hc, rfl⟩ := List.mem_map.1 hp
      exact (hextra c hc).2
    · obtain ⟨t, ht, rfl⟩ | ⟨d, hd, inside, hinside, rfl⟩ := of_mem_weaveInto hc
      · exact sound_ofComment (hcomments t ht)
      · exact ih d hd fun t ht => hcomments t (hinside t ht)

/-! ## Errors -/

theorem firstErrorIn?_eq_none_iff {ns : List Node} :
    firstErrorIn? ns = none ↔ ∀ n ∈ ns, firstError? n = none := by
  induction ns with
  | nil => simp [firstErrorIn?]
  | cons c rest ih => rw [firstErrorIn?, Option.or_eq_none_iff, ih, List.forall_mem_cons]

/-- A node that covers something has its first error where its first child with an error has it. -/
theorem firstError?_eq_none {kind : NodeKind} {role : Option Role} {span : Span} {text : String}
    {children : List Node} (hkind : kind ≠ .error)
    (hproper : kind ≠ .program → span.start < span.stop)
    (hchildren : ∀ c ∈ children, firstError? c = none) :
    firstError? (.mk kind role span text children) = none := by
  have hmissing : (mk kind role span text children).isMissing = false := by
    by_contra h
    simp only [isMissing, Bool.not_eq_false, Bool.and_eq_true, bne_iff_ne, beq_iff_eq] at h
    exact absurd h.1.2 (Nat.ne_of_lt (hproper h.2))
  rw [firstError?]
  simp only [hmissing, Bool.or_false, beq_iff_eq, if_neg hkind]
  exact firstErrorIn?_eq_none_iff.2 hchildren

theorem firstError?_ofComment {t : Token} (ht : CommentToken source t) :
    firstError? (ofComment t) = none := by
  obtain ⟨kind, hkind, heq⟩ := ofComment_eq_leaf ht
  rw [heq]
  refine firstError?_eq_none (fun herror => ?_) (fun _ => ht.1.start_lt_stop) (by simp)
  rw [herror] at hkind
  cases hkind

/-- What grew from the tokens of a text has no errors in it, also once the comments hang in it. -/
theorem firstError?_weave {comments : List Token}
    (hcomments : ∀ t ∈ comments, CommentToken source t) {n : Node} (h : Grown source n) :
    firstError? (weave comments n) = none := by
  induction h generalizing comments with
  | mk hgrows hchildren ih =>
    rw [weave]
    refine firstError?_eq_none (NodeKind.isExtra_eq_false_iff.1 hgrows.kind).2 hgrows.proper
      fun c hc => ?_
    obtain ⟨t, ht, rfl⟩ | ⟨d, hd, inside, hinside, rfl⟩ := of_mem_weaveInto hc
    · exact firstError?_ofComment (hcomments t ht)
    · exact ih d hd fun t ht => hcomments t (hinside t ht)

end Node

end Renaming.Java
