import Mathlib.Data.List.Nodup
import Mathlib.Data.List.Pairwise
import Renaming.Extraction
import Renaming.Proofs.Java.Locals.Declarations
import Renaming.Proofs.Java.Resolver

/-!
# Numbers of local variables and the order of the text

The local variables of one name in one method are found where the names stand that declare them, and
have the numbers from zero on in the order in which a walk comes to these names. Names are overtaken
where a node that waits for a later one declares a variable of the same name and method: a loop and
what it runs through, a variable and its initializer, a lambda and the arguments after it. The
numbers go up with the text exactly if no name is overtaken.
-/

namespace Renaming.Java

/-! ## Walks over units -/

namespace Binding

variable {ctx : BindingContext} {p : Around} {bound : Nat} {sub : Task → Binding Meaning}

theorem lists_ofTask (hsub : ListsBelow ctx (bound + 4) sub) (task : Task)
    (hlaid : task.node.LaidOut) (hfits : task.Fits p) (hsize : task.size ≤ bound + 4) :
    Lists ctx p.host (task.node.locals ctx p) (ofTask sub task) := by
  have hn : task.node.Within (bound + 4) := ⟨hlaid, Nat.le_trans (Nat.le_add_right _ _) hsize⟩
  cases task with
  | expression n => exact (lists_expressionType hsub hn hfits hsize).before fun _ => .pure
  | name n => exact lists_nameOf hsub hn hfits hsize
  | statement n => exact (lists_statement hsub hn hfits hsize).before fun _ => .pure
  | initializer n expected => exact (lists_initializer hsub hn hfits hsize).before fun _ => .pure
  | lambda n params => exact (lists_lambda hsub hn hfits params).before fun _ => .pure
  | annotated n => exact (lists_annotated hsub hn hfits).before fun _ => .pure
  | elementValue n => exact (lists_elementValue hsub hn hfits hsize).before fun _ => .pure
  | pattern n => exact (lists_pattern hsub hn hfits).before fun _ => .pure
  | typeDeclaration n inBlock =>
    exact (lists_typeDeclaration hsub hn hfits).before fun _ => .pure
  | classBody n binary components =>
    obtain ⟨hkind, rfl⟩ := hfits
    refine (lists_classBody hsub hn ?_).before fun _ => .pure
    simpa [Task.node] using hkind

/-- Steps find what their nodes declare as far down as they are taken. -/
theorem lists_nested (depth : Nat) : ListsBelow ctx depth (nested depth) := by
  induction depth with
  | zero => exact fun task p _ _ hsize => absurd hsize (Nat.not_lt_zero _)
  | succ depth ih =>
    intro task p hlaid hfits hsize
    have hheight : 0 < task.node.height := by
      cases task.node
      exact Nat.succ_pos _
    obtain ⟨bound, rfl⟩ : ∃ bound, depth = bound + 4 :=
      Nat.exists_eq_add_of_le' (by rw [Task.size] at hsize; omega)
    exact lists_ofTask ih task hlaid hfits (Nat.le_of_lt_succ hsize)

theorem lists_program (ctx : BindingContext) {root : Node} (hlaid : root.LaidOut)
    (hkind : root.kind = .program) :
    Lists ctx none (root.locals ctx {}) (program root) := by
  have hlocals : root.locals ctx {} = root.namedChildren.flatMap fun c =>
      if c.kind.isTypeDeclaration then c.locals ctx {} else [] := by
    have hlayout : root.layout = root.all fun _ => true := by rw [Node.layout, hkind]
    have hfound : Around.found ctx {} root = fun c =>
        if c.kind.isTypeDeclaration then c.locals ctx {} else [] := funext fun c => by
      rw [Node.found_eq_into (by simp [Around.names, Node.mayName, hkind]), Around.into, hkind]
      dsimp only
      split <;> rfl
    rw [hlaid.arranged.locals_eq_layout (by rw [hkind]; rfl) (by rw [hkind]; rfl)
      fun c => by simp [Around.waits, hkind], hlayout, Node.all,
      flatMap_slots _ _ (Around.found ctx {} root), hfound]
  rw [hlocals]
  refine .forM fun c hc => ?_
  have hchild := (List.mem_filter.1 hc).1
  by_cases himport : c.kind = .importDeclaration
  · rw [himport, if_neg (by decide), if_pos (beq_self_eq_true _)]
    exact lists_importDeclaration (p := {})
  · rw [if_neg (c := (c.kind == .importDeclaration) = true) (by simpa using himport)]
    split
    · rename_i htype
      have hlt := Node.height_lt hchild
      refine .discard (lists_nested _ (.typeDeclaration c false) {} (hlaid.child hchild) htype ?_)
      simp only [Task.size, Task.node, Task.rank]
      omega
    · exact .pure

/-- The walk over a unit finds the variables of all names in it that declare some. -/
theorem gains_bindUnit {root : Node} (hlaid : root.LaidOut) (hkind : root.kind = .program)
    (index : TypeIndex) (unit : DeclaredUnit)
    (hplain : ∀ e ∈ root.locals ⟨index, unit⟩ {}, '@' ∉ (unit.unit.source.text e.name).toList) :
    ∃ s : BindingState, s.Numbered ∧ (bindUnit index unit root).1 = s.occurrences.reverse ∧
      List.Forall₂ (LocalName.IsFoundAt unit.unit.source) (root.locals ⟨index, unit⟩ {})
        (firstLocals s.occurrences).reverse := by
  let start : BindingState := { scope := { header := unit.header } }
  have hstart : start.Numbered := ⟨nofun, rfl, nofun⟩
  obtain ⟨hnumbered, -, os, hos, hfound⟩ :=
    lists_program ⟨index, unit⟩ hlaid hkind start hstart rfl hplain
  rw [show firstLocals start.occurrences = [] from rfl, List.append_nil] at hos
  rw [← hos] at hfound
  exact ⟨_, hnumbered, rfl, hfound⟩

end Binding

/-! ## Order -/

namespace Node

/-- Nodes whose children are walked. -/
structure IsWalked (ctx : BindingContext) (n : Node) : Prop where
  speaks : n.kind.isMute = false
  registered : n.kind.isTypeDeclaration = true → ctx.unit.types.get? n.start ≠ none

/-- The nodes that a walk comes to, with what is around them. -/
inductive Reached (ctx : BindingContext) : Around → Node → Around → Node → Prop where
  | here {p : Around} {n : Node} : Reached ctx p n p n
  | inside {p q r : Around} {n c m : Node} : n.IsWalked ctx → c ∈ n.children →
      p.names n c = false → p.into ctx n c = some q → Reached ctx q c r m → Reached ctx p n r m

variable {ctx : BindingContext} {p q : Around} {n m c d : Node} {e : LocalName}
  {source : SourceText} {test : LocalName → Bool}

theorem locals_of_not_isWalked (h : ¬n.IsWalked ctx) : n.locals ctx p = [] := by
  cases hmute : n.kind.isMute with
  | true => exact locals_of_isMute hmute
  | false =>
    obtain ⟨hkind, hnone⟩ : n.kind.isTypeDeclaration = true ∧
        ctx.unit.types.get? n.start = none := by
      by_contra hregistered
      exact h ⟨hmute, fun hkind hnone => hregistered ⟨hkind, hnone⟩⟩
    exact locals_of_unregistered hkind hnone

theorem IsWalked.locals_eq (h : n.IsWalked ctx) :
    n.locals ctx p = (p.walked n n.children).flatMap (p.found ctx n) :=
  Node.locals_eq h.speaks h.registered

theorem mem_walked : c ∈ p.walked n n.children ↔ c ∈ n.children := by
  rw [Around.walked, List.mem_append, List.mem_filter, List.mem_filter]
  cases p.waits n c <;> simp

theorem IsWalked.mem_locals (h : n.IsWalked ctx) :
    e ∈ n.locals ctx p ↔ ∃ c ∈ n.children, e ∈ p.found ctx n c := by
  simp only [h.locals_eq, List.mem_flatMap, mem_walked]

theorem mem_found : e ∈ p.found ctx n c ↔
    p.names n c = true ∧ p.host = some (some e.method) ∧ e.name = c ∨
    p.names n c = false ∧ ∃ q, p.into ctx n c = some q ∧ e ∈ c.locals ctx q := by
  cases hnames : p.names n c with
  | true =>
    obtain ⟨method, name⟩ := e
    rw [found_of_names hnames]
    rcases p.host with _ | _ | method' <;> simp [LocalName.of, eq_comm]
  | false =>
    rw [found_eq_into hnames]
    cases p.into ctx n c <;> simp

/-- A name declares a variable of the method that is around it. -/
theorem mem_locals {p : Around} {n : Node} : e ∈ n.locals ctx p ↔
    ∃ q m, Reached ctx p n q m ∧ m.IsWalked ctx ∧ e.name ∈ m.children ∧
      q.names m e.name = true ∧ q.host = some (some e.method) := by
  constructor
  · intro he
    by_cases hwalked : n.IsWalked ctx
    · obtain ⟨c, hc, hfound⟩ := hwalked.mem_locals.1 he
      rcases mem_found.1 hfound with ⟨hnames, hhost, rfl⟩ | ⟨hnames, q, hinto, hbelow⟩
      · exact ⟨p, n, .here, hwalked, hc, hnames, hhost⟩
      · have hlt := height_lt hc
        obtain ⟨r, m, hreached, hdeclares⟩ := mem_locals.1 hbelow
        exact ⟨r, m, .inside hwalked hc hnames hinto hreached, hdeclares⟩
    · rw [locals_of_not_isWalked hwalked] at he
      cases he
  · rintro ⟨q, m, hreached, hwalked, hname, hnames, hhost⟩
    induction hreached with
    | here =>
      exact hwalked.mem_locals.2 ⟨e.name, hname, mem_found.2 (.inl ⟨hnames, hhost, rfl⟩)⟩
    | inside hwalked' hc hnames' hinto _ ih =>
      have hbelow := ih hwalked hname hnames hhost
      exact hwalked'.mem_locals.2 ⟨_, hc, mem_found.2 (.inr ⟨hnames', _, hinto, hbelow⟩)⟩
termination_by n.height

theorem Reached.down (h : Reached ctx p n q m) : n.Below m := by
  induction h with
  | here => exact .self
  | inside _ hc _ _ _ ih => exact .down hc ih

/-- What a walk finds in a node is found in the same order in all that is around the node. -/
theorem Reached.sublist (h : Reached ctx p n q m) :
    (m.locals ctx q).Sublist (n.locals ctx p) := by
  induction h with
  | here => exact List.Sublist.refl _
  | inside hwalked hc hnames hinto _ ih =>
    refine ih.trans ?_
    rw [hwalked.locals_eq, ← found_of_into hnames hinto]
    exact List.sublist_flatten_of_mem (List.mem_map_of_mem (mem_walked.2 hc))

namespace Sound

theorem isName_of_mayName (h : n.Sound source) (hc : c ∈ n.children)
    (hname : n.mayName c = true) : c.kind.isName = true := by
  have hrole (hkind : n.kind.namesParts = true) (hrole : c.role = some .name) :
      c.kind.isName = true :=
    h.shape.named hkind c.part (List.mem_map_of_mem (h.mem_formed_of_role hc hrole)) hrole
  have hword (hkind : c.kind = .identifier) : c.kind.isName = true := by rw [hkind]; rfl
  rw [mayName] at hname
  split at hname
  all_goals first
    | exact hrole (by rw [‹n.kind = _›]; rfl) (beq_iff_eq.1 hname)
    | exact hword (beq_iff_eq.1 hname)
    | exact hword (beq_iff_eq.1 (Bool.and_eq_true_iff.1 hname).2)
    | cases hname

theorem of_mem_locals (h : n.Sound source) (he : e ∈ n.locals ctx p) :
    n.Below e.name ∧ e.name.kind.isName = true := by
  obtain ⟨q, m, hreached, -, hmem, hnames, -⟩ := mem_locals.1 he
  exact ⟨hreached.down.child hmem,
    (h.of_below hreached.down).isName_of_mayName hmem (Bool.and_eq_true_iff.1 hnames).1⟩

theorem of_mem_found (h : n.Sound source) (hc : c ∈ n.children) (he : e ∈ p.found ctx n c) :
    c.Below e.name ∧ e.name.kind.isName = true := by
  rcases mem_found.1 he with ⟨hnames, -, rfl⟩ | ⟨-, q, -, he⟩
  · exact ⟨.self, h.isName_of_mayName hc (Bool.and_eq_true_iff.1 hnames).1⟩
  · exact (h.of_mem_children c hc).of_mem_locals he

theorem notMem_text (h : n.Sound source) (he : e ∈ n.locals ctx p) :
    '@' ∉ (source.text e.name).toList := by
  obtain ⟨hbelow, hname⟩ := h.of_mem_locals he
  intro hmem
  have hcontinues : Lexeme.continuesName '@' = true :=
    (h.of_below hbelow).holds.name hname '@' hmem
  revert hcontinues
  decide

/-- Names that are found in one child stand before those that are found in a later one. -/
theorem stop_le_of_found (h : n.Sound source) (hcd : [c, d].Sublist n.children) {e' : LocalName}
    (he : e ∈ p.found ctx n c) (he' : e' ∈ p.found ctx n d) : e.name.stop ≤ e'.name.start := by
  have hcomment {k : NodeKind} (hk : k.isName = true) : k.isComment = false := by
    cases k <;> first | rfl | cases hk
  obtain ⟨hbelow, hname⟩ := h.of_mem_found (hcd.subset (by simp)) he
  obtain ⟨hbelow', hname'⟩ := h.of_mem_found (hcd.subset (by simp)) he'
  exact h.stop_le_of_sublist hcd hbelow hbelow' (hcomment hname) (hcomment hname')

end Sound

/-- A walk comes to a child with a name of some local variables only after a later child with
another one. -/
def Overtaken (ctx : BindingContext) (p : Around) (n : Node) (test : LocalName → Bool) : Prop :=
  ∃ q m, Reached ctx p n q m ∧ m.IsWalked ctx ∧ ∃ c d, [c, d].Sublist m.children ∧
    q.waits m c = true ∧ q.waits m d = false ∧
      (∃ e ∈ q.found ctx m c, test e = true) ∧ ∃ e ∈ q.found ctx m d, test e = true

/-- Names in the order of the text. -/
def InOrder (found : List LocalName) : Prop :=
  found.Pairwise fun e e' => e.name.start ≤ e'.name.start

theorem Overtaken.not_inOrder (hn : n.Sound source)
    (hproper : ∀ e, test e = true → e.name.start < e.name.stop) (h : n.Overtaken ctx p test) :
    ¬InOrder ((n.locals ctx p).filter test) := by
  obtain ⟨q, m, hreached, hwalked, c, d, hcd, hc, hd, ⟨e, he, htest⟩, e', he', htest'⟩ := h
  intro hordered
  have hinside : InOrder ((m.locals ctx q).filter test) :=
    hordered.sublist (hreached.sublist.filter test)
  rw [hwalked.locals_eq, Around.walked, List.flatMap_append, List.filter_append] at hinside
  have hle : e'.name.start ≤ e.name.start := by
    refine (List.pairwise_append.1 hinside).2.2 e' ?_ e ?_
    · refine List.mem_filter.2 ⟨List.mem_flatMap.2 ⟨d, List.mem_filter.2 ⟨?_, ?_⟩, he'⟩, htest'⟩
      · exact hcd.subset (by simp)
      · rw [hd]
        rfl
    · exact List.mem_filter.2 ⟨List.mem_flatMap.2
        ⟨c, List.mem_filter.2 ⟨hcd.subset (by simp), hc⟩, he⟩, htest⟩
  have hbefore := (hn.of_below hreached.down).stop_le_of_found hcd he he'
  have hspan := hproper e htest
  omega

/-- Names that are found in one child start before those that are found in a later one. -/
theorem Sound.start_le_of_found (hn : n.Sound source) (hcd : [c, d].Sublist n.children)
    {e' : LocalName} (he : e ∈ p.found ctx n c) (he' : e' ∈ p.found ctx n d) :
    e.name.start ≤ e'.name.start := by
  have hstop := hn.stop_le_of_found hcd he he'
  obtain ⟨hbelow, -⟩ := hn.of_mem_found (hcd.subset (by simp)) he
  have hspan := (hn.of_below (.down (hcd.subset (by simp)) hbelow)).start_le_stop
  omega

/-- Of two children one stands before the other. -/
theorem sublist_or_sublist {l : List Node} (hc : c ∈ l) (hd : d ∈ l) (hne : c ≠ d) :
    [c, d].Sublist l ∨ [d, c].Sublist l := by
  have hpairs : l.Pairwise fun a b => [a, b].Sublist l ∨ [b, a].Sublist l :=
    List.pairwise_iff_forall_sublist.2 fun hab => .inl hab
  have : Std.Symm fun a b => [a, b].Sublist l ∨ [b, a].Sublist l := ⟨fun _ _ => Or.symm⟩
  exact hpairs.forall hc hd hne

theorem inOrder_of_not_overtaken {p : Around} {n : Node} (hn : n.Sound source)
    (h : ¬n.Overtaken ctx p test) : InOrder ((n.locals ctx p).filter test) := by
  by_cases hwalked : n.IsWalked ctx
  · have hbefore {c d : Node} (hcd : [c, d].Sublist n.children) :
        ∀ e ∈ (p.found ctx n c).filter test, ∀ e' ∈ (p.found ctx n d).filter test,
          e.name.start ≤ e'.name.start := fun e he e' he' =>
      hn.start_le_of_found hcd (List.mem_filter.1 he).1 (List.mem_filter.1 he').1
    rw [hwalked.locals_eq, List.filter_flatMap]
    refine List.pairwise_flatMap.2 ⟨fun c hc => ?_, List.pairwise_append.2 ⟨?_, ?_, ?_⟩⟩
    · have hchild := mem_walked.1 hc
      cases hnames : p.names n c with
      | true =>
        rw [found_of_names hnames]
        rcases p.host with _ | _ | method
        · exact .nil
        · exact .nil
        · exact (List.pairwise_singleton _ _).sublist List.filter_sublist
      | false =>
        cases hinto : p.into ctx n c with
        | none =>
          rw [found_of_into_none hnames hinto]
          exact .nil
        | some q =>
          have hlt := height_lt hchild
          rw [found_of_into hnames hinto]
          refine inOrder_of_not_overtaken (hn.of_mem_children c hchild) ?_
          rintro ⟨r, m, hreached, hovertaken⟩
          exact h ⟨r, m, .inside hwalked hchild hnames hinto hreached, hovertaken⟩
    · exact List.pairwise_iff_forall_sublist.2 fun hcd => hbefore (hcd.trans List.filter_sublist)
    · exact List.pairwise_iff_forall_sublist.2 fun hcd => hbefore (hcd.trans List.filter_sublist)
    · intro d hd c hc e' he' e he
      obtain ⟨hd, hdwaits⟩ := List.mem_filter.1 hd
      obtain ⟨hc, hcwaits⟩ := List.mem_filter.1 hc
      rw [Bool.not_eq_true'] at hdwaits
      have hne : d ≠ c := by
        rintro rfl
        rw [hdwaits] at hcwaits
        cases hcwaits
      -- the child that waits stands after the other, or else it is overtaken
      rcases sublist_or_sublist hd hc hne with hdc | hcd
      · exact hbefore hdc e' he' e he
      · obtain ⟨he', htest'⟩ := List.mem_filter.1 he'
        obtain ⟨he, htest⟩ := List.mem_filter.1 he
        exact absurd ⟨p, n, .here, hwalked, c, d, hcd, hcwaits, hdwaits, ⟨e, he, htest⟩, e', he',
          htest'⟩ h
  · rw [locals_of_not_isWalked hwalked]
    exact .nil
termination_by n.height

end Node

/-! ## Numbers -/

/-- Where the locals of a name in a method are declared, in the order in which they were found. -/
def declaredLocals (method : Signature) (name : String) (found : List Occurrence) :
    List Occurrence :=
  ((firstLocals found.reverse).filter (·.signature.splitLocal == some (method, name))).reverse

/-- Whether a name declares a variable of that name in a method. -/
def LocalName.isOf (source : SourceText) (method : Signature) (name : String) (e : LocalName) :
    Bool :=
  e.method == method && source.text e.name == name

/-- Occurrences in the order of the text. -/
def sortedByStart (found : List Occurrence) : List Occurrence :=
  found.mergeSort fun a b => a.span.start ≤ b.span.start

theorem sortedByStart_eq_iff {found : List Occurrence} :
    sortedByStart found = found ↔ (found.map (·.span.start)).Pairwise (· ≤ ·) := by
  rw [List.pairwise_map]
  have hsorted : (sortedByStart found).Pairwise fun a b => decide (a.span.start ≤ b.span.start) :=
    List.pairwise_mergeSort (by simpa using fun _ _ _ => Nat.le_trans)
      (by simpa using fun _ _ => Nat.le_total _ _) found
  constructor
  · intro heq
    rw [heq] at hsorted
    simpa using hsorted
  · intro hpairwise
    exact List.mergeSort_of_pairwise (by simpa using hpairwise)

/-- Keys that tell things apart tell a list from its permutations. -/
theorem eq_of_perm_of_map_eq {α β : Type} {f : α → β} {l l' : List α} (hperm : l.Perm l')
    (hnodup : (l'.map f).Nodup) (h : l.map f = l'.map f) : l = l' := by
  refine List.ext_getElem hperm.length_eq fun i hi hi' => ?_
  have hmem : l[i] ∈ l' := hperm.mem_iff.1 (List.getElem_mem hi)
  have hlength : i < (l.map f).length := by simpa using hi
  have hkey : f l[i] = f l'[i] := by simpa using List.getElem_of_eq h hlength
  exact List.inj_on_of_nodup_map hnodup hmem (List.getElem_mem hi') hkey

/-- Signatures that differ stay in their order exactly if they are found in that of the text. -/
theorem signatures_sortedByStart_iff {found : List Occurrence}
    (hnodup : (found.map Occurrence.signature).Nodup) :
    (sortedByStart found).map Occurrence.signature = found.map Occurrence.signature ↔
      (found.map (·.span.start)).Pairwise (· ≤ ·) := by
  rw [← sortedByStart_eq_iff]
  exact ⟨eq_of_perm_of_map_eq (List.mergeSort_perm _ _) hnodup, congrArg _⟩

/-- The variables of a name in a method are found at the names that declare them. -/
theorem map_span_of_found {source : SourceText} {method : Signature} {name : String}
    {found : List LocalName} {os : List Occurrence}
    (h : List.Forall₂ (LocalName.IsFoundAt source) found os) :
    (os.filter (·.signature.splitLocal == some (method, name))).map Occurrence.span =
      (found.filter (LocalName.isOf source method name)).map (·.name.span) := by
  induction h with
  | nil => rfl
  | @cons e o _ _ hfound _ ih =>
    have htest : (o.signature.splitLocal == some (method, name)) =
        e.isOf source method name := by
      rw [hfound.splits, LocalName.isOf]
      simp [Bool.beq_eq_decide_eq, Prod.ext_iff]
    rw [List.filter_cons, List.filter_cons, htest]
    split
    · rw [List.map_cons, List.map_cons, ih, hfound.span]
    · exact ih

namespace BindingState.Numbered

variable {s : BindingState}

/-- The numbers go up as locals are found. -/
theorem map_declaredLocals (h : s.Numbered) (method : Signature) (name : String) :
    let declared := declaredLocals method name s.occurrences.reverse
    declared.map Occurrence.signature =
      (List.range declared.length).map (.ofLocal method name) := by
  intro declared
  have hcount : declared.map Occurrence.signature =
      (List.range (s.locals.count (method, name))).map (.ofLocal method name) := by
    have hfilter := filter_numberedLocals h.plain method name
    rw [← h.found, foundLocals, List.filter_map] at hfilter
    simp only [declared, declaredLocals, List.reverse_reverse, List.map_reverse]
    exact List.reverse_eq_iff.2 hfilter
  have hlength : declared.length = s.locals.count (method, name) := by
    simpa using congrArg List.length hcount
  rw [hlength, hcount]

end BindingState.Numbered

/-- A name that covers some text covers something. -/
theorem start_lt_stop_of_text_ne (source : SourceText) {n : Node} (h : source.text n ≠ "") :
    n.start < n.stop := by
  by_contra hle
  have hnone : source.chars.extract n.span.start n.span.stop = #[] :=
    Array.extract_eq_empty_of_le (Nat.le_trans (Nat.min_le_left _ _) (Nat.le_of_not_lt hle))
  refine h ?_
  rw [SourceText.text, SourceText.slice, hnone]

/-- The locals of a name in a method are found at the names that declare them, and have the numbers
from zero on in the order in which the walk comes to these names. They have them in the order of the
text exactly if none of these names is overtaken. -/
theorem bindUnit_numbers_locals {unit : DeclaredUnit} {root : Node}
    (hwhole : root.Whole unit.unit.source) (hkind : root.kind = .program) (hlaid : root.LaidOut)
    (index : TypeIndex) (method : Signature) {name : String} (hname : name ≠ "") :
    let isOf := LocalName.isOf unit.unit.source method name
    let places := (root.locals ⟨index, unit⟩ {}).filter isOf
    let declared := declaredLocals method name (bindUnit index unit root).1
    let numbered := (List.range places.length).map (Signature.ofLocal method name)
    declared.map Occurrence.span = places.map (·.name.span) ∧
    declared.map Occurrence.signature = numbered ∧
    ((sortedByStart declared).map Occurrence.signature = numbered ↔
      ¬root.Overtaken ⟨index, unit⟩ {} isOf) := by
  intro isOf places declared numbered
  obtain ⟨s, hnumbered, hs, hfound⟩ := Binding.gains_bindUnit hlaid hkind index unit
    fun e he => hwhole.sound.notMem_text he
  have hspans : declared.map Occurrence.span = places.map (·.name.span) := by
    simp only [declared, declaredLocals, hs, List.reverse_reverse]
    rw [← List.filter_reverse]
    exact map_span_of_found hfound
  have hlength : declared.length = places.length := by
    simpa using congrArg List.length hspans
  have hsignatures : declared.map Occurrence.signature = numbered := by
    have hmap := hnumbered.map_declaredLocals method name
    rw [← hs] at hmap
    exact hmap.trans (congrArg (fun k => (List.range k).map _) hlength)
  refine ⟨hspans, hsignatures, ?_⟩
  have hnodup : (declared.map Occurrence.signature).Nodup := by
    rw [hsignatures]
    exact List.nodup_range.map fun _ _ => Signature.ordinal_eq_of_ofLocal_eq
  have hproper (e : LocalName) (he : isOf e = true) : e.name.start < e.name.stop := by
    refine start_lt_stop_of_text_ne unit.unit.source ?_
    rw [beq_iff_eq.1 (Bool.and_eq_true_iff.1 he).2]
    exact hname
  have hordered : (declared.map (·.span.start)).Pairwise (· ≤ ·) ↔ Node.InOrder places := by
    have hstarts := congrArg (List.map Span.start) hspans
    rw [List.map_map, List.map_map] at hstarts
    rw [show declared.map (·.span.start) = places.map (·.name.start) from hstarts,
      List.pairwise_map]
    rfl
  rw [← hsignatures]
  calc (sortedByStart declared).map Occurrence.signature = declared.map Occurrence.signature
    _ ↔ (declared.map (·.span.start)).Pairwise (· ≤ ·) := signatures_sortedByStart_iff hnodup
    _ ↔ Node.InOrder places := hordered
    _ ↔ ¬root.Overtaken ⟨index, unit⟩ {} isOf :=
      ⟨fun h hovertaken => hovertaken.not_inOrder hwhole.sound hproper h,
        Node.inOrder_of_not_overtaken hwhole.sound⟩

/-- Two blocks of a method that each declare a variable of the same name. -/
def blocksUnit : ParsedUnit :=
  .ofText "A.java" "class A { void f() { { int n; } { int n; } } }"

def blocksProgram : Program := .ofUnits {} [blocksUnit]

theorem bindUnit_numbers_locals_blocksUnit : ∃ unit ∈ blocksProgram.units, ∃ root,
    unit.unit.tree = some root ∧ root.LaidOut ∧
    let declared := declaredLocals "A.f()V" "n" (bindUnit blocksProgram.index unit root).1
    declared.map (·.span.start) = [27, 38] ∧
    declared.map Occurrence.signature = ["A.f()V@n:0", "A.f()V@n:1"] ∧
    (sortedByStart declared).map Occurrence.signature = ["A.f()V@n:0", "A.f()V@n:1"] ∧
    ¬root.Overtaken ⟨blocksProgram.index, unit⟩ {}
      (LocalName.isOf unit.unit.source "A.f()V" "n") := by
  have hfound : blocksProgram.units.map (fun unit => unit.unit.tree.map fun root =>
      (root.kind, decide root.LaidOut,
        (declaredLocals "A.f()V" "n" (bindUnit blocksProgram.index unit root).1).map
          (·.span.start))) = [some (.program, true, [27, 38])] := by
    decide +kernel
  obtain ⟨unit, hunits, hunit⟩ := List.map_eq_singleton_iff.1 hfound
  obtain ⟨root, htree, hvalues⟩ := Option.map_eq_some_iff.1 hunit
  simp only [Prod.mk.injEq, decide_eq_true_eq] at hvalues
  obtain ⟨hkind, hlaid, hstarts⟩ := hvalues
  have hmem : unit ∈ blocksProgram.units := by
    rw [hunits]
    exact List.mem_singleton_self unit
  have hwhole : root.Whole unit.unit.source :=
    (Program.indexed_of_mem (List.forall_mem_singleton.2 (ParsedUnit.whole_ofText _ _)) hmem
      htree).whole
  have hname : "n" ≠ "" := by decide
  obtain ⟨hspans, hnumbers, hordered⟩ :=
    bindUnit_numbers_locals hwhole hkind hlaid blocksProgram.index "A.f()V" hname
  have hlength := congrArg List.length hspans
  rw [List.length_map, List.length_map, ← List.length_map (f := (·.span.start)), hstarts] at hlength
  rw [← hlength] at hnumbers hordered
  have hsorted := sortedByStart_eq_iff.2 (by rw [hstarts]; decide)
  have hsame := (congrArg (List.map Occurrence.signature) hsorted).trans hnumbers
  exact ⟨unit, hmem, root, htree, hlaid, hstarts, hnumbers, hsame, hordered.1 hsame⟩

/-- A loop whose variable has the name of a parameter of a lambda in what the loop runs through. -/
def loopUnit : SourceUnit :=
  ⟨"A.java", "interface F { int a(int b); } " ++
    "class A { int[] g(F f) { return null; } void h() { for (int n : g(n -> n)) { } } }"⟩

def loopProgram : Program :=
  .ofUnits {} ([loopUnit].map fun u => .ofText u.id u.text)

/-- The variable of the loop stands before the parameter of the lambda and has the later number. -/
theorem loopVariable_numbered_last :
    loopProgram.units.map (fun unit => unit.unit.tree.map fun root =>
      (declaredLocals "A.h()V" "n" (bindUnit loopProgram.index unit root).1).map fun o =>
        (o.span.start, o.signature)) =
      [some [(96, "A.h()V@n:0"), (90, "A.h()V@n:1")]] := by
  decide +kernel

end Renaming.Java
