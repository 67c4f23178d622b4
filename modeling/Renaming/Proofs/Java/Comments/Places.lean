import Renaming.Proofs.Java.Comments.Trees

/-!
# Where a comment is overlooked

Most of what a walk takes from a node it takes by role or by kind, so that a comment between the
children does not matter. Where the first or the last named child counts, or all of them, the
comment must not be the one that counts. Texts that are read as a whole must not be parted.
-/

namespace Renaming.Java

variable {i : Insertion}

/-- Two texts, the second with more characters at one place. Where nothing is parted, it spells the
same. -/
structure Rereading extends Insertion where
  source : SourceText
  source' : SourceText
  slice_eq : ∀ s, ¬toInsertion.Parts s → source'.slice (toInsertion.span s) = source.slice s

namespace Node

/-- What stands in front of the type of a new object, arguments of types apart. -/
def creationFront (n : Node) : List Node :=
  (n.namedChildren.takeWhile fun c => c.role != some .type).filter fun c => c.kind != .typeArguments

/-- A tree that echoes another one and is spelled like it. -/
structure Respelled (r : Rereading) (n n' : Node) : Prop where
  echo : Echo r.toInsertion n n'
  text_eq : r.source'.text n' = r.source.text n

/-- A component of a record where it is after an insertion, with its type and its name as before. -/
structure Component (r : Rereading) (n n' : Node) : Prop where
  echo : Echo r.toInsertion n n'
  type : Option.Rel (Respelled r) (n.child? .type) (n'.child? .type)
  name : Option.Rel (Respelled r) (n.child? .name) (n'.child? .name)

namespace Echo

variable {n n' : Node}

/-- A comment among the named children stands where it is overlooked. -/
theorem overlooks_of_named (h : Echo i n n') {before after : List Node} {c : Node}
    (hnamed : n'.namedChildren = before ++ c :: after) (hc : i.adds c = true) :
    ∃ front back, n.kind.overlooks front back = true ∧ front.filter isNamed = before ∧
      back.filter isNamed = after := by
  obtain ⟨front, tail, hchildren, hfront, htail⟩ := List.filter_eq_append_iff.1 hnamed
  obtain ⟨middle, back, rfl, hmiddle, -, hback⟩ := List.filter_eq_cons_iff.1 htail
  refine ⟨front ++ middle, back, ?_, ?_, hback⟩
  · have hover := h.overlooksHere
    rw [Node.overlooksHere, hchildren, ← List.append_assoc] at hover
    simp only [Bool.and_eq_true] at hover
    rw [← h.kind_eq]
    simpa using Insertion.overlooks_of_among hover.1.2 hc
  · rw [List.filter_append, hfront, List.filter_eq_nil_iff.2 fun m hm => hmiddle m hm,
      List.append_nil]

theorem any_isNamed_eq_false {front : List Node} (h : front.filter isNamed = []) :
    front.any isNamed = false := by
  rw [List.any_eq_false]
  exact List.filter_eq_nil_iff.1 h

/-- Where the first named child counts, it is no comment that was put in. -/
theorem kept_head (h : Echo i n n')
    (hkind : ∀ before after, n.kind.overlooks before after = before.any isNamed) :
    ∀ c ∈ n'.namedChildren.head?, i.adds c = false := by
  intro c hc
  obtain ⟨after, hnamed⟩ := List.head?_eq_some_iff.1 hc
  rw [← List.nil_append (c :: after)] at hnamed
  rw [Bool.eq_false_iff]
  intro hadds
  obtain ⟨front, back, hover, hfront, -⟩ :=
    h.overlooks_of_named hnamed hadds
  rw [hkind, any_isNamed_eq_false hfront] at hover
  cases hover

/-- Where the last named child counts, it is no comment that was put in. -/
theorem kept_last (h : Echo i n n')
    (hkind : ∀ before after, n.kind.overlooks before after = after.any isNamed) :
    ∀ c ∈ n'.namedChildren.getLast?, i.adds c = false := by
  intro c hc
  obtain ⟨before, hnamed⟩ := List.getLast?_eq_some_iff.1 hc
  rw [Bool.eq_false_iff]
  intro hadds
  obtain ⟨front, back, hover, -, hback⟩ := h.overlooks_of_named hnamed hadds
  rw [hkind, any_isNamed_eq_false hback] at hover
  cases hover

/-- The type that is annotated. -/
theorem annotated? (h : Echo i n n') (hkind : n.kind = .annotatedType) :
    Option.Rel (Echo i) (n.namedChildren.reverse.find? fun c => !c.kind.isAnnotated)
      (n'.namedChildren.reverse.find? fun c => !c.kind.isAnnotated) := by
  refine h.named.reverse.find?_of_kept (fun _ _ hc => hc.kindTest (!·.isAnnotated)) fun c hc => ?_
  obtain ⟨-, before, after, hnamed, hbefore⟩ := List.find?_eq_some_iff_append.1 hc
  rw [Bool.eq_false_iff]
  intro hadds
  have hnamed' : n'.namedChildren = after.reverse ++ c :: before.reverse := by
    rw [← List.reverse_reverse n'.namedChildren, hnamed]
    simp
  obtain ⟨front, back, hover, -, hback⟩ := h.overlooks_of_named hnamed' hadds
  rw [hkind] at hover
  obtain ⟨m, hm, htest⟩ := List.any_eq_true.1 hover
  rw [Bool.and_eq_true] at htest
  have hmem : m ∈ before := by
    rw [← List.mem_reverse, ← hback]
    exact List.mem_filter.2 ⟨hm, htest.1⟩
  have hnot := hbefore m hmem
  rw [htest.2] at hnot
  cases hnot

theorem joined_front (h : Echo i n n') : Joined i (Echo i) n.creationFront n'.creationFront :=
  (h.named.takeWhile (fun _ _ hc => by rw [hc.role_eq]) fun c hc => by
    rw [Insertion.role_of_adds hc]
    rfl).filter fun _ _ hc => hc.kindTest (· != .typeArguments)

/-- In front of a type a comment is the last one only where there is nothing else. -/
theorem kept_front (h : Echo i n n') (hkind : n.kind = .objectCreation) :
    n.creationFront = [] ∨ ∀ c ∈ n'.creationFront.getLast?, i.adds c = false := by
  by_cases hadds : ∃ c ∈ n'.creationFront.getLast?, i.adds c = true
  · left
    obtain ⟨c, hc, hadds⟩ := hadds
    obtain ⟨others, hfront⟩ := List.getLast?_eq_some_iff.1 hc
    obtain ⟨before, tail, htake, hbefore, htail⟩ := List.filter_eq_append_iff.1 hfront
    obtain ⟨middle, after, rfl, hmiddle, -, -⟩ := List.filter_eq_cons_iff.1 htail
    have hnamed : n'.namedChildren = (before ++ middle) ++ c :: (after ++
        n'.namedChildren.dropWhile fun c => c.role != some .type) := by
      conv_lhs => rw [← List.takeWhile_append_dropWhile (p := fun c => c.role != some .type)
        (l := n'.namedChildren), htake]
      simp
    obtain ⟨fore, back, hover, hfore, -⟩ := h.overlooks_of_named hnamed hadds
    rw [hkind] at hover
    have htyped : (fore.any fun b => b.isNamed && b.role == some .type) = false := by
      rw [List.any_eq_false]
      intro b hb htest
      rw [Bool.and_eq_true] at htest
      have hmem : b ∈ before ++ middle := hfore ▸ List.mem_filter.2 ⟨hb, htest.1⟩
      have htake' : b ∈ n'.namedChildren.takeWhile fun c => c.role != some .type := by
        rw [htake]
        simp only [List.mem_append, List.mem_cons] at hmem ⊢
        tauto
      have hrole := List.mem_takeWhile_imp htake'
      rw [bne, htest.2] at hrole
      cases hrole
    have hnone : (fore.any fun b => b.isNamed && b.kind != .typeArguments) = false := by
      simpa [NodeKind.overlooks, htyped] using hover
    have hothers : others = [] := by
      rw [← hbefore, List.filter_eq_nil_iff]
      intro b hb htest
      have hmem : b ∈ fore.filter isNamed := by simp [hfore, hb]
      have hfalse := List.any_eq_false.1 hnone b (List.mem_filter.1 hmem).1
      rw [(List.mem_filter.1 hmem).2, htest] at hfalse
      exact hfalse rfl
    have hjoined := h.joined_front
    rw [hfront, hothers] at hjoined
    exact hjoined.nil_of_adds fun m hm => by simp [hm.not_adds] at hadds
  · right
    intro c hc
    rw [Bool.eq_false_iff]
    exact fun hc' => hadds ⟨c, hc, hc'⟩

/-! ## Texts -/

theorem intact (h : Echo i n n') : n'.intact i = true := by
  have hover := h.overlooksHere
  simp only [Node.overlooksHere, Bool.and_eq_true] at hover
  exact hover.1.1.1

variable {r : Rereading}

theorem respelled (h : Echo r.toInsertion n n') (haround : r.around n'.span = false) :
    Respelled r n n' := by
  refine ⟨h, ?_⟩
  rw [SourceText.text, h.span_eq]
  refine r.slice_eq _ fun hparts => ?_
  rw [h.span_eq, r.around_span.2 hparts] at haround
  cases haround

/-- A leaf whose text is read. -/
theorem spelled (h : Echo r.toInsertion n n') (hkind : n.kind.isSpelled = true) :
    r.source'.text n' = r.source.text n := by
  have hintact := h.intact
  rw [Node.intact, h.kind_eq, hkind] at hintact
  simp only [Bool.true_and, Bool.and_eq_true, Bool.not_eq_true'] at hintact
  exact (h.respelled hintact.1.1).text_eq

theorem around_of_reads (h : Echo i n n') {c' : Node} (hc' : c' ∈ n'.children)
    (hreads : n'.reads c' = true) : i.around c'.span = false := by
  have hintact := h.intact
  simp only [Node.intact, Bool.and_eq_true] at hintact
  simpa [hreads] using List.all_eq_true.1 hintact.1.2 c' hc'

/-- A child whose text is read. -/
theorem readChild? (h : Echo r.toInsertion n n') (role : Role)
    (hreads : ∀ c', c'.role = some role → n'.reads c' = true) :
    Option.Rel (Respelled r) (n.child? role) (n'.child? role) := by
  refine rel_imp (h.child? role) fun c c' hc' hc => ?_
  refine hc.respelled (h.around_of_reads (List.mem_of_find?_eq_some hc') (hreads c' ?_))
  simpa using List.find?_some hc'

/-- The name of what is no annotation. -/
theorem name? (h : Echo r.toInsertion n n')
    (hkind : n.kind.isAnnotated = false ∨ n.role = some .declarator) :
    Option.Rel (Respelled r) (n.child? .name) (n'.child? .name) :=
  h.readChild? .name fun c' hc' => by
    simp only [Node.reads, hc', h.kind_eq, h.role_eq]
    rcases hkind with hkind | hrole
    · simp [hkind]
    · simp [hrole]

/-- The components of a record. -/
theorem components (h : Echo r.toInsertion n n') (hkind : n.kind = .recordDeclaration) :
    Joined r.toInsertion (Component r) (((n.child? .parameters).map namedChildren).getD [])
      (((n'.child? .parameters).map namedChildren).getD []) := by
  have hintact := h.intact
  simp only [Node.intact, Node.components, h.kind_eq, hkind, Bool.and_eq_true] at hintact
  have hall := List.all_eq_true.1 hintact.2
  have hparams : Joined r.toInsertion (Echo r.toInsertion)
      (((n.child? .parameters).map namedChildren).getD [])
      (((n'.child? .parameters).map namedChildren).getD []) := by
    have hchild := h.child? .parameters
    generalize n.child? .parameters = x, n'.child? .parameters = x' at hchild
    cases hchild with
    | none => exact .nil
    | some hc => exact hc.named
  refine hparams.imp fun p p' hp' hp => ?_
  have hkept := hall p' (by simpa using hp')
  rw [Bool.and_eq_true, Option.all_eq_true, Option.all_eq_true] at hkept
  refine ⟨hp, rel_imp (hp.child? .type) fun c c' hc' hc => hc.respelled ?_,
    rel_imp (hp.child? .name) fun c c' hc' hc => hc.respelled ?_⟩
  · simpa using hkept.1 c' hc'
  · simpa using hkept.2 c' hc'

/-- The children in a role, of which some are read. -/
theorem readChildrenIn (h : Echo r.toInsertion n n') (role : Role) :
    List.Forall₂ (fun c c' => Echo r.toInsertion c c' ∧ c'.role = some role ∧
        (n'.reads c' = true → r.source'.text c' = r.source.text c))
      (n.childrenIn role) (n'.childrenIn role) := by
  refine forall₂_imp (h.childrenIn role) fun c c' _ hc' hc => ⟨hc, ?_, fun hreads => ?_⟩
  · simpa using (List.mem_filter.1 hc').2
  · exact (hc.respelled (h.around_of_reads (List.mem_filter.1 hc').1 hreads)).text_eq

/-- The last name among the named children. -/
theorem lastIdentifier? {ns ns' : List Node}
    (h : Joined r.toInsertion (Echo r.toInsertion) ns ns') :
    Option.Rel (Respelled r) (ns.reverse.find? (·.kind == .identifier))
      (ns'.reverse.find? (·.kind == .identifier)) := by
  refine rel_imp (h.reverse.find? (fun _ _ hc => by rw [hc.kind_eq]) fun _ hc =>
    Insertion.kind_beq_of_adds hc rfl) fun c c' hc' hc => ⟨hc, hc.spelled ?_⟩
  have hkind : c'.kind = .identifier := by simpa using List.find?_some hc'
  rw [← hc.kind_eq, hkind]
  rfl

/-- How many dimensions are written at a node, brackets around a number apart. -/
theorem dimensionCount_eq (h : Echo r.toInsertion n n')
    (hkind : n.kind ≠ .arrayCreation ∨ n.role = some .declarator) :
    r.source'.dimensionCount (n'.child? .dimensions) =
      r.source.dimensionCount (n.child? .dimensions) := by
  have hchild := h.readChild? .dimensions fun c' hc' => by
    simp only [Node.reads, hc', h.kind_eq, h.role_eq]
    rcases hkind with hkind | hrole
    · simp [hkind]
    · simp [hrole]
  generalize n.child? .dimensions = x, n'.child? .dimensions = x' at hchild
  cases hchild with
  | none => rfl
  | some hc => simp only [SourceText.dimensionCount, hc.text_eq]

end Echo

end Node

end Renaming.Java
