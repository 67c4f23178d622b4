import Mathlib.Data.List.Pairwise
import Renaming.Proofs.Java.Tree

/-!
# Going down a tree

Walks over a tree start at its root and go from nodes to children. What holds of the root, and of
the children of every node of which it holds, holds of all nodes that a walk comes to. In a sound
tree a declaration is told by where it starts.
-/

namespace Renaming.Java

/-- What is handed down from nodes to their children. -/
class Descends (T : Node → Prop) : Prop where
  children : ∀ {n : Node}, T n → ∀ c ∈ n.children, T c

namespace Descends

variable {T : Node → Prop} [Descends T] {n : Node}

theorem named (hn : T n) : ∀ c ∈ n.namedChildren, T c :=
  fun c hc => children hn c (List.mem_filter.1 hc).1

theorem child (hn : T n) (role : Role) : ∀ c ∈ n.child? role, T c :=
  fun c hc => children hn c (List.mem_of_find?_eq_some hc)

theorem ofKind (hn : T n) (kind : NodeKind) : ∀ c ∈ n.childOfKind? kind, T c :=
  fun c hc => named hn c (List.mem_of_find?_eq_some hc)

theorem inRole (hn : T n) (role : Role) : ∀ c ∈ n.childrenIn role, T c :=
  fun c hc => children hn c (List.mem_filter.1 hc).1

/-- The children of a node that may be missing. -/
theorem grandchildren {o : Option Node} (ho : ∀ c ∈ o, T c) :
    ∀ c ∈ (o.map Node.namedChildren).getD [], T c := by
  cases o with
  | none => simp
  | some c => exact named (ho c rfl)

end Descends

/-- A span from the start of a node to the end of a node. In an orderly tree it does not end before
it starts. -/
structure Spelled (orderly : Prop) (T : Node → Prop) (span : Span) : Prop where
  first : ∃ n : Node, T n ∧ span.start = n.start
  last : ∃ n : Node, T n ∧ span.stop = n.stop
  start_le_stop : orderly → span.start ≤ span.stop

/-- A span may go on to the end of a later node. -/
theorem Spelled.extend {orderly : Prop} {T : Node → Prop} {start stop : Nat} {n : Node}
    (h : Spelled orderly T ⟨start, stop⟩) (hn : T n) (hle : orderly → stop ≤ n.stop) :
    Spelled orderly T ⟨start, n.stop⟩ :=
  ⟨h.first, ⟨n, hn, rfl⟩, fun ho => Nat.le_trans (h.start_le_stop ho) (hle ho)⟩

namespace Node

/-- The nodes of a tree. -/
inductive Below : Node → Node → Prop where
  | self {n : Node} : Below n n
  | down {n c m : Node} : c ∈ n.children → Below c m → Below n m

theorem Below.child {n m c : Node} (h : Below n m) (hc : c ∈ m.children) : Below n c := by
  induction h with
  | self => exact .down hc .self
  | down hmem _ ih => exact .down hmem (ih hc)

theorem Below.trans {n m k : Node} (h : Below n m) (h' : Below m k) : Below n k := by
  induction h with
  | self => exact h'
  | down hmem _ ih => exact .down hmem (ih h')

theorem Below.descends {T : Node → Prop} [Descends T] {n m : Node} (h : Below n m) (hn : T n) :
    T m := by
  induction h with
  | self => exact hn
  | down hmem _ ih => exact ih (Descends.children hn _ hmem)

theorem height_lt {n c : Node} (hc : c ∈ n.children) : c.height < n.height := by
  have hall : ∀ {ns : List Node}, c ∈ ns → c.height ≤ heightAll ns := by
    intro ns hns
    induction ns with
    | nil => cases hns
    | cons m rest ih =>
      rw [heightAll]
      rcases List.mem_cons.1 hns with rfl | hrest
      · exact Nat.le_max_left _ _
      · exact Nat.le_trans (ih hrest) (Nat.le_max_right _ _)
  cases n
  rw [height]
  exact Nat.lt_succ_of_le (hall hc)

theorem Below.height_le {n m : Node} (h : Below n m) : m.height ≤ n.height := by
  induction h with
  | self => exact Nat.le_refl _
  | down hc _ ih => exact Nat.le_trans ih (Nat.le_of_lt (height_lt hc))

instance (root : Node) : Descends (Below root) where
  children hn _ hc := hn.child hc

theorem isComment_eq_false_of_isSolid {k : NodeKind} (h : k.isSolid = true) :
    k.isComment = false := by
  cases k <;> first | rfl | cases h

namespace Sound

variable {source : SourceText} {n c m : Node}

theorem of_mem_children (h : Sound source n) : ∀ c ∈ n.children, Sound source c := by
  cases h with
  | mk _ _ hchildren => exact hchildren

instance : Descends (Sound source) where
  children := of_mem_children

theorem of_below (h : Sound source n) (hm : Below n m) : Sound source m := by
  induction hm with
  | self => exact h
  | down hc _ ih => exact ih (h.of_mem_children _ hc)

theorem holds (h : Sound source n) : Part.Holds source n.part (n.parts.map part) := by
  cases h with
  | mk _ hholds _ => exact hholds

theorem bare_of_isComment (h : Sound source n) (hn : n.kind.isComment = true) :
    n.role = none ∧ n.children = [] := by
  cases h with
  | mk hcomment _ _ => exact hcomment hn

theorem start_le_stop (h : Sound source n) : n.start ≤ n.stop := h.holds.start_le_stop

theorem start_lt_stop (h : Sound source n) (hkind : n.kind.isSolid = true) : n.start < n.stop :=
  h.holds.solid hkind

theorem formed_eq (n : Node) : n.formed = n.parts.filter (·.kind != .error) := by
  rw [formed, parts, List.filter_filter]
  exact List.filter_congr fun c _ => by simp [NodeKind.isExtra, bne, Bool.and_comm]

/-- The parts that are no errors have the shape that the kind of a node promises. -/
theorem shape (h : Sound source n) : Shape n.kind (n.formed.map part) := by
  have hshape := h.holds.shape
  rw [List.filter_map] at hshape
  rw [formed_eq]
  exact hshape

/-! ## Parts -/

theorem mem_parts (hc : c ∈ n.children) (hkind : c.kind.isComment = false) : c ∈ n.parts :=
  List.mem_filter.2 ⟨hc, by simp [hkind]⟩

theorem mem_formed (hc : c ∈ n.children) (hkind : c.kind.isExtra = false) : c ∈ n.formed :=
  List.mem_filter.2 ⟨hc, by simp [hkind]⟩

theorem mem_parts_of_formed (hc : c ∈ n.formed) : c ∈ n.parts := by
  obtain ⟨hmem, hkind⟩ := List.mem_filter.1 hc
  rw [Bool.not_eq_true'] at hkind
  exact mem_parts hmem (NodeKind.isExtra_eq_false_iff.1 hkind).1

/-- What plays a role is a part, and no error. -/
theorem mem_formed_of_role (h : Sound source n) {role : Role} (hc : c ∈ n.children)
    (hrole : c.role = some role) : c ∈ n.formed := by
  have hc' := h.of_mem_children c hc
  refine mem_formed hc (NodeKind.isExtra_eq_false_iff.2 ⟨?_, (hc'.holds.role role hrole).2⟩)
  by_contra hkind
  rw [Bool.not_eq_false] at hkind
  rw [(hc'.bare_of_isComment hkind).1] at hrole
  cases hrole

theorem child_spec (h : Sound source n) {role : Role} (hc : n.child? role = some c) :
    c ∈ n.formed ∧ c.role = some role := by
  have hrole := List.find?_some hc
  rw [beq_iff_eq] at hrole
  exact ⟨h.mem_formed_of_role (List.mem_of_find?_eq_some hc) hrole, hrole⟩

/-- A part in a role, told by what can be seen of it. -/
theorem isSome_child {role : Role} (h : ∃ p ∈ n.formed.map part, p.role = some role) :
    (n.child? role).isSome = true := by
  obtain ⟨p, hp, hrole⟩ := h
  obtain ⟨c, hc, rfl⟩ := List.mem_map.1 hp
  rw [child?, List.find?_isSome]
  exact ⟨c, (List.mem_filter.1 hc).1, by rw [show c.role = some role from hrole, beq_self_eq_true]⟩

/-- A part of some kind among the named children. -/
theorem isSome_find_kind {p : NodeKind → Bool} (hp : p .token = false)
    (h : ∃ c ∈ n.formed.map part, p c.kind = true) :
    (n.namedChildren.find? (p ·.kind)).isSome = true := by
  obtain ⟨q, hq, hkind⟩ := h
  obtain ⟨c, hc, rfl⟩ := List.mem_map.1 hq
  rw [List.find?_isSome]
  refine ⟨c, List.mem_filter.2 ⟨(List.mem_filter.1 hc).1, ?_⟩, hkind⟩
  rw [isNamed, bne_iff_ne]
  intro htoken
  rw [show c.part.kind = c.kind from rfl, htoken, hp] at hkind
  cases hkind

/-- Names of the kinds whose parts are named by words. -/
theorem isName_child (h : Sound source n) (hkind : n.kind.namesParts = true)
    (hc : n.child? .name = some c) : c.kind.isName = true := by
  obtain ⟨hmem, hrole⟩ := h.child_spec hc
  exact h.shape.named hkind c.part (List.mem_map_of_mem hmem) hrole

/-- The names of types are words. -/
theorem isName_typeName (h : Sound source n) (hkind : n.kind.isTypeDeclaration = true)
    (hc : n.child? .name = some c) : c.kind.isName = true := by
  obtain ⟨hmem, hrole⟩ := h.child_spec hc
  exact (h.shape.titled hkind).2 c.part (List.mem_map_of_mem hmem) hrole

theorem fits_role (h : Sound source n) {role : Role} (hrole : n.role = some role) :
    role.Fits n.kind :=
  (h.holds.role role hrole).1

theorem kind_declarator (h : Sound source n) (hc : c ∈ n.childrenIn .declarator) :
    c.kind = .variableDeclarator := by
  obtain ⟨hmem, hrole⟩ := List.mem_filter.1 hc
  rw [beq_iff_eq] at hrole
  exact (h.of_mem_children c hmem).fits_role hrole

/-- What has a name among the components of a record is a plain parameter. -/
theorem kind_component {list p name : Node} (h : Sound source n)
    (hkind : n.kind = .recordDeclaration) (hlist : n.child? .parameters = some list)
    (hp : p ∈ list.namedChildren) (hname : p.child? .name = some name) :
    p.kind = .formalParameter := by
  obtain ⟨hpart, hrole⟩ := h.child_spec hlist
  have hlist' := h.of_mem_children list (List.mem_filter.1 hpart).1
  have hrecord := h.shape.record hkind list.part (List.mem_map_of_mem hpart) hrole
  obtain ⟨hmem, hnamed⟩ := List.mem_filter.1 hp
  have htoken : p.kind ≠ .token := by simpa [isNamed] using hnamed
  have hp' := hlist'.of_mem_children p hmem
  have hcomment : p.kind.isComment = false := by
    by_contra hcomment
    rw [Bool.not_eq_false] at hcomment
    have hchild := List.mem_of_find?_eq_some hname
    rw [(hp'.bare_of_isComment hcomment).2] at hchild
    cases hchild
  by_contra hformal
  have hnameless : p.kind = .spreadParameter ∨ p.kind = .receiverParameter ∨ p.kind = .error := by
    by_cases herror : p.kind = .error
    · exact .inr (.inr herror)
    · have hformed := mem_formed hmem (NodeKind.isExtra_eq_false_iff.2 ⟨hcomment, herror⟩)
      have hlisted : p.kind.isParameter = true :=
        hlist'.shape.listed hrecord p.part (List.mem_map_of_mem hformed) htoken
      rcases NodeKind.isParameter_cases hlisted with hk | hk | hk
      · exact absurd hk hformal
      · exact .inl hk
      · exact .inr (.inl hk)
  obtain ⟨hpart', hrole'⟩ := hp'.child_spec hname
  exact hp'.shape.nameless hnameless name.part (List.mem_map_of_mem hpart') hrole'

/-! ## Order -/

/-- A part lies within its node. -/
theorem inside (h : Sound source n) (hc : c ∈ n.parts) : n.start ≤ c.start ∧ c.stop ≤ n.stop :=
  h.holds.inside c.part (List.mem_map_of_mem hc)

theorem ordered (h : Sound source n) : n.parts.Pairwise fun c d => c.stop ≤ d.start :=
  List.pairwise_map.1 h.holds.ordered

/-- What is accessed stands in front of the name that it is accessed by. -/
theorem stop_le_of_access {object field : Node} (h : Sound source n) (hkind : n.kind = .fieldAccess)
    (hobject : n.child? .object = some object) (hfield : n.child? .field = some field) :
    object.stop ≤ field.stop ∧ field.stop ≤ n.stop := by
  obtain ⟨hopart, horole⟩ := h.child_spec hobject
  obtain ⟨hfpart, hfrole⟩ := h.child_spec hfield
  have hne : field ≠ object := by
    rintro rfl
    rw [horole] at hfrole
    cases hfrole
  have hin := h.inside (mem_parts_of_formed hfpart)
  have hproper := (h.of_mem_children field (List.mem_filter.1 hfpart).1).start_le_stop
  have hordered : n.formed.Pairwise fun c d => c.stop ≤ d.start := by
    rw [formed_eq]
    exact h.ordered.sublist List.filter_sublist
  have haccessed := h.shape.accessed hkind
  cases hparts : n.formed with
  | nil =>
    rw [hparts] at hopart
    cases hopart
  | cons first rest =>
    rw [hparts] at hopart hfpart hordered haccessed
    have hrest (c : Node) (hc : c ∈ rest) : c.role ≠ some .object :=
      haccessed c.part (List.mem_map_of_mem hc)
    obtain rfl : object = first :=
      (List.mem_cons.1 hopart).resolve_right fun hc => hrest object hc horole
    have hle := List.rel_of_pairwise_cons hordered ((List.mem_cons.1 hfpart).resolve_left hne)
    omega

/-- Nothing is below a comment, so that the way to anything else leads through parts. -/
theorem mem_parts_of_below (h : Sound source n) (hc : c ∈ n.children) (hm : Below c m)
    (hkind : m.kind.isComment = false) : c ∈ n.parts := by
  refine mem_parts hc ?_
  by_contra hcomment
  rw [Bool.not_eq_false] at hcomment
  cases hm with
  | self =>
    rw [hkind] at hcomment
    cases hcomment
  | down hd _ =>
    rw [((h.of_mem_children c hc).bare_of_isComment hcomment).2] at hd
    cases hd

/-- What is below a node lies within it. -/
theorem within_below (h : Sound source n) (hm : Below n m) (hkind : m.kind.isComment = false) :
    n.start ≤ m.start ∧ m.stop ≤ n.stop := by
  induction hm with
  | self => exact ⟨Nat.le_refl _, Nat.le_refl _⟩
  | down hc hm ih =>
    have hin := h.inside (h.mem_parts_of_below hc hm hkind)
    have hin' := ih (h.of_mem_children _ hc) hkind
    omega

/-- What is declared inside a declaration starts after it. -/
theorem start_lt (h : Sound source n)
    (hn : n.kind.isDeclaration = true ∨ n.kind.isOpening = true) (hc : c ∈ n.children)
    (hm : Below c m) (hdecl : m.kind.isDeclaration = true) : n.start < m.start := by
  have hcomment := isComment_eq_false_of_isSolid (NodeKind.isSolid_of_isDeclaration hdecl)
  induction hm generalizing n with
  | @self c =>
    have hpart := h.mem_parts_of_below hc .self hcomment
    refine (h.holds.opens hn c.part (List.mem_map_of_mem hpart)).resolve_left fun hopens => ?_
    have hnot := NodeKind.not_isDeclaration_of_isOpening hopens
    rw [show c.part.kind = c.kind from rfl, hdecl] at hnot
    cases hnot
  | @down c d m hd hm ih =>
    have hpart := h.mem_parts_of_below hc (.down hd hm) hcomment
    have hc' := h.of_mem_children c hc
    have hin := h.inside hpart
    rcases h.holds.opens hn c.part (List.mem_map_of_mem hpart) with hopens | hlater
    · have hlt := ih hc' (.inr hopens) hd hdecl hcomment
      omega
    · have hwithin := hc'.within_below (.down hd hm) hcomment
      exact Nat.lt_of_lt_of_le hlater hwithin.1

/-- What is below a child ends before what is below a later child starts. -/
theorem stop_le_of_sublist {d k : Node} (h : Sound source n) (hcd : [c, d].Sublist n.children)
    (hm : Below c m) (hk : Below d k) (hm' : m.kind.isComment = false)
    (hk' : k.kind.isComment = false) : m.stop ≤ k.start := by
  have hpc := h.mem_parts_of_below (hcd.subset (by simp)) hm hm'
  have hpd := h.mem_parts_of_below (hcd.subset (by simp)) hk hk'
  have hparts : [c, d].Sublist n.parts := by
    have hfilter := hcd.filter fun c => !c.kind.isComment
    rwa [List.filter_eq_self.2] at hfilter
    rw [List.forall_mem_cons, List.forall_mem_singleton]
    exact ⟨(List.mem_filter.1 hpc).2, (List.mem_filter.1 hpd).2⟩
  have hordered := List.rel_of_pairwise_cons (h.ordered.sublist hparts) (List.mem_singleton_self d)
  have hwc := (h.of_mem_children c (List.mem_filter.1 hpc).1).within_below hm hm'
  have hwd := (h.of_mem_children d (List.mem_filter.1 hpd).1).within_below hk hk'
  omega

/-- What covers something starts at different places below different children. -/
theorem start_ne {d k : Node} (h : Sound source n) (hc : c ∈ n.children) (hd : d ∈ n.children)
    (hcd : c ≠ d) (hm : Below c m) (hk : Below d k) (hm' : m.kind.isSolid = true)
    (hk' : k.kind.isSolid = true) : m.start ≠ k.start := by
  have hpc := h.mem_parts_of_below hc hm (isComment_eq_false_of_isSolid hm')
  have hpd := h.mem_parts_of_below hd hk (isComment_eq_false_of_isSolid hk')
  have hapart : n.parts.Pairwise fun a b => a.stop ≤ b.start ∨ b.stop ≤ a.start :=
    h.ordered.imp fun hle => .inl hle
  have : Std.Symm fun a b : Node => a.stop ≤ b.start ∨ b.stop ≤ a.start := ⟨fun _ _ => Or.symm⟩
  have hone := hapart.forall hpc hpd hcd
  have hc' := h.of_mem_children c hc
  have hd' := h.of_mem_children d hd
  have hwc := hc'.within_below hm (isComment_eq_false_of_isSolid hm')
  have hwd := hd'.within_below hk (isComment_eq_false_of_isSolid hk')
  have hsm := (hc'.of_below hm).start_lt_stop hm'
  have hsk := (hd'.of_below hk).start_lt_stop hk'
  omega

/-- Two declarations that start at the same place are one. -/
theorem eq_of_start_eq {k : Node} (h : Sound source n) (hm : Below n m) (hk : Below n k)
    (hm' : m.kind.isDeclaration = true) (hk' : k.kind.isDeclaration = true)
    (hstart : m.start = k.start) : m = k := by
  induction hm with
  | self =>
    cases hk with
    | self => rfl
    | down hd hk =>
      have hlt := h.start_lt (.inl hm') hd hk hk'
      omega
  | @down n c m hc hm ih =>
    cases hk with
    | self =>
      have hlt := h.start_lt (.inl hk') hc hm hm'
      omega
    | @down _ d _ hd hk =>
      by_cases hcd : c = d
      · subst hcd
        exact ih (h.of_mem_children c hc) hk hm' hstart
      · exact absurd hstart (h.start_ne hc hd hcd hm hk (NodeKind.isSolid_of_isDeclaration hm')
          (NodeKind.isSolid_of_isDeclaration hk'))

/-- A node that covers something hangs in one place. -/
theorem parent_eq {p q : Node} (h : Sound source n) (hp : Below n p) (hq : Below n q)
    (hmp : m ∈ p.children) (hmq : m ∈ q.children) (hkind : m.kind.isSolid = true) : p = q := by
  -- `m` hangs in the root and in a node below one of the children of the root, which is `m`
  have hroot {n d r : Node} (h : Sound source n) (hm : m ∈ n.children) (hd : d ∈ n.children)
      (hr : Below d r) (hmr : m ∈ r.children) : False := by
    by_cases hmd : m = d
    · subst hmd
      have hlt := height_lt hmr
      have hle := hr.height_le
      omega
    · exact h.start_ne hm hd hmd .self (hr.child hmr) hkind hkind rfl
  induction hp with
  | self =>
    cases hq with
    | self => rfl
    | down hd hq => exact (hroot h hmp hd hq hmq).elim
  | @down n c p hc hp ih =>
    cases hq with
    | self => exact (hroot h hmq hc hp hmp).elim
    | @down _ d _ hd hq =>
      by_cases hcd : c = d
      · subst hcd
        exact ih (h.of_mem_children c hc) hq hmp
      · exact absurd rfl (h.start_ne hc hd hcd (hp.child hmp) (hq.child hmq) hkind hkind)

end Sound

/-! ## Searches -/

/-- A search that takes a node of some kinds, passes it over, or goes on in its children. -/
def Gathers (p : NodeKind → Bool) (f : Node → List Node) : Prop :=
  ∀ n, f n = [] ∨ f n = [n] ∧ p n.kind = true ∨ f n = n.children.flatMap f

namespace Gathers

variable {p : NodeKind → Bool} {f : Node → List Node} {source : SourceText}

theorem below (h : Gathers p f) (n : Node) : ∀ m ∈ f n, Below n m ∧ p m.kind = true := by
  intro m hm
  rcases h n with hnone | ⟨htaken, hkind⟩ | hgoes
  · rw [hnone] at hm
    cases hm
  · rw [htaken] at hm
    rw [List.mem_singleton.1 hm]
    exact ⟨.self, hkind⟩
  · rw [hgoes] at hm
    obtain ⟨c, hc, hm⟩ := List.mem_flatMap.1 hm
    have hlt := height_lt hc
    obtain ⟨hbelow, hkind⟩ := h.below c m hm
    exact ⟨.down hc hbelow, hkind⟩
termination_by n.height

/-- What is found comes in the order of the text. -/
theorem ordered (h : Gathers p f) (hp : ∀ k, p k = true → k.isComment = false) (n : Node)
    (hn : Sound source n) : (f n).Pairwise fun a b => a.stop ≤ b.start := by
  rcases h n with hnone | ⟨htaken, -⟩ | hgoes
  · rw [hnone]
    exact .nil
  · rw [htaken]
    exact List.pairwise_singleton _ _
  · rw [hgoes, List.pairwise_flatMap]
    refine ⟨fun c hc => ?_, List.pairwise_iff_forall_sublist.2 fun hcd a ha b hb => ?_⟩
    · have hlt := height_lt hc
      exact h.ordered hp c (hn.of_mem_children c hc)
    · obtain ⟨ha, ha'⟩ := h.below _ a ha
      obtain ⟨hb, hb'⟩ := h.below _ b hb
      exact hn.stop_le_of_sublist hcd ha hb (hp _ ha') (hp _ hb')
termination_by n.height

end Gathers

end Node

/-- Nodes that follow each other in an orderly tree, as the names of a dotted name do. -/
structure Segments (orderly : Prop) (T : Node → Prop) (ns : List Node) : Prop where
  mem : ∀ n ∈ ns, T n
  proper : orderly → ∀ n ∈ ns, n.start ≤ n.stop
  ordered : orderly → ns.Pairwise fun n m => n.stop ≤ m.start

theorem Spelled.node {orderly : Prop} {T : Node → Prop} {source : SourceText} {n : Node} (hn : T n)
    (hsound : orderly → n.Sound source) : Spelled orderly T n.span :=
  ⟨⟨n, hn, rfl⟩, ⟨n, hn, rfl⟩, fun h => (hsound h).start_le_stop⟩

namespace Segments

variable {orderly : Prop} {T : Node → Prop} {ns ms : List Node} {n : Node}

theorem sublist (h : Segments orderly T ns) (hms : ms.Sublist ns) : Segments orderly T ms where
  mem n hn := h.mem n (hms.subset hn)
  proper ho n hn := h.proper ho n (hms.subset hn)
  ordered ho := (h.ordered ho).sublist hms

theorem node (h : Segments orderly T ns) (hn : n ∈ ns) : Spelled orderly T n.span :=
  ⟨⟨n, h.mem n hn, rfl⟩, ⟨n, h.mem n hn, rfl⟩, fun ho => h.proper ho n hn⟩

/-- The span from the first segment to any other. -/
theorem spelled (h : Segments orderly T ns) {first : Node} (hfirst : ns.head? = some first)
    (hn : n ∈ ns) : Spelled orderly T ⟨first.start, n.stop⟩ := by
  refine ⟨⟨first, h.mem first (List.mem_of_head? hfirst), rfl⟩, ⟨n, h.mem n hn, rfl⟩, fun ho => ?_⟩
  obtain ⟨rest, rfl⟩ := List.head?_eq_some_iff.1 hfirst
  have hproper := h.proper ho n hn
  have hfirst := h.proper ho first List.mem_cons_self
  rcases List.mem_cons.1 hn with rfl | hn
  · exact hproper
  · have hle := List.rel_of_pairwise_cons (h.ordered ho) hn
    dsimp only
    omega

theorem of_gathers [Descends T] {p : NodeKind → Bool} {f : Node → List Node}
    (hf : Node.Gathers p f) (hp : ∀ k, p k = true → k.isComment = false) {source : SourceText}
    (hn : T n) (hsound : orderly → n.Sound source) : Segments orderly T (f n) where
  mem m hm := (hf.below n m hm).1.descends hn
  proper ho m hm := ((hsound ho).of_below (hf.below n m hm).1).start_le_stop
  ordered ho := hf.ordered hp n (hsound ho)

end Segments

end Renaming.Java
