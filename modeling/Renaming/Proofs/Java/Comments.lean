import Renaming.Java.Resolver
import Renaming.Proofs.Java.Comments.Walks.Declarations
import Renaming.Proofs.Java.Comments.Weaving

/-!
# Comments

A comment that is put between two tokens of a unit moves what stands behind it. Where a walk
overlooks it, all units of a program have the occurrences they had. In front of the first bound of a
type parameter it is not overlooked: there the comment is taken for the bound, and spells no type.
-/

namespace Renaming.Java

open Node (Echo)

/-! ## Units -/

namespace Binding

variable {V : Rebinding}

/-- A step finds nothing in a comment if the steps inside it find nothing there. -/
theorem idle_ofTask {sub' : Task → Binding Meaning}
    (hidle : ∀ {task'}, Task.Added V.toInsertion task' → Idle V.ctx' .done (sub' task'))
    {task' : Task} (h : Task.Added V.toInsertion task') :
    Idle V.ctx' .done (ofTask sub' task') := by
  cases h with
  | expression hc => exact .bind (idle_expressionType hc) .pure
  | statement hc => exact .bind (idle_statement hidle hc) .pure
  | initializer hc => exact .bind (idle_initializer hidle hc) .pure
  | elementValue hc => exact .bind (idle_elementValue hidle hc) .pure
  | pattern hc => exact .bind (idle_pattern hc) .pure

theorem idle_nested (depth : Nat) {task' : Task} (h : Task.Added V.toInsertion task') :
    Idle V.ctx' .done (nested depth task') := by
  induction depth generalizing task' with
  | zero => exact .pure
  | succ depth ih => exact idle_ofTask ih h

/-- A step finds the same if the steps inside it do. -/
theorem follows_ofTask {sub sub' : Task → Binding Meaning}
    (hsub : ∀ {task task'}, Task.Echo V.toRereading task task' →
      Follows V (MeaningEcho V) (sub task) (sub' task'))
    (hidle : ∀ {task'}, Task.Added V.toInsertion task' → Idle V.ctx' .done (sub' task'))
    {task task' : Task} (h : Task.Echo V.toRereading task task') :
    Follows V (MeaningEcho V) (ofTask sub task) (ofTask sub' task') := by
  cases h with
  | expression h =>
    exact .bind (follows_expressionType hsub hidle h) fun _ _ heq => .pure (heq ▸ rfl)
  | name h => exact follows_nameOf hsub h
  | statement h => exact .andThen (follows_statement hsub hidle h) (.pure rfl)
  | initializer h =>
    exact .bind (follows_initializer hsub hidle h) fun _ _ heq => .pure (heq ▸ rfl)
  | lambda h => exact .bind (follows_lambda hsub h) fun _ _ heq => .pure (heq ▸ rfl)
  | annotated h => exact .andThen (follows_annotated hsub hidle h) (.pure rfl)
  | elementValue h => exact .andThen (follows_elementValue hsub hidle h) (.pure rfl)
  | pattern h => exact .andThen (follows_pattern hsub hidle h) (.pure rfl)
  | typeDeclaration h hkind =>
    exact .andThen (follows_typeDeclaration hsub h hkind) (.pure rfl)
  | classBody h hcomponents =>
    exact .andThen (follows_classBody hsub hidle h hcomponents) (.pure rfl)

/-- Steps find the same, however deep they nest. -/
theorem follows_nested (depth : Nat) {task task' : Task} (h : Task.Echo V.toRereading task task') :
    Follows V (MeaningEcho V) (nested depth task) (nested depth task') := by
  induction depth generalizing task task' with
  | zero => exact .pure rfl
  | succ depth ih => exact follows_ofTask ih (idle_nested depth) h

theorem follows_program {root root' : Node} (h : Echo V.toInsertion root root') :
    Follows V Eq (program root) (program root') := by
  unfold program
  rw [Echo.height_eq root root' h]
  refine .forM_joined h.named (fun c c' hc => ?_) fun c hc => ?_
  · rw [hc.kind_eq]
    split
    · rename_i hkind
      exact follows_importDeclaration hc (by simpa using hkind)
    · split
      · exact .discard (follows_nested _ (.typeDeclaration hc ‹_›))
      · exact .pure rfl
  · rw [Insertion.kind_beq_of_adds hc rfl,
      NodeKind.isTypeDeclaration_eq_false (Insertion.isComment_of_adds hc)]
    exact .pure

end Binding

/-- With a comment put in, a unit has the occurrences it had, where they are afterwards. -/
theorem occurrences_bindUnit {r : Rereading} {index : TypeIndex} {unit unit' : DeclaredUnit}
    (hunit : unit.Echo r unit') {root root' : Node} (h : Echo r.toInsertion root root') :
    (bindUnit index unit' root').1 =
      (bindUnit index unit root).1.map r.toInsertion.occurrence := by
  let V : Rebinding :=
    { r with ctx := ⟨index, unit⟩, ctx' := ⟨index, unit'⟩, index_eq := rfl, unit := hunit }
  obtain ⟨ds, -, hstate⟩ := Binding.follows_program (V := V) h
    { scope := { header := unit.header } } []
  have hfound := congrArg BindingState.occurrences hstate
  unfold bindUnit
  rw [hunit.header_eq]
  change (((Binding.program root') ⟨index, unit'⟩ _).2.occurrences).reverse = _
  exact (congrArg List.reverse hfound).trans (List.map_reverse).symm

/-! ## Texts -/

/-- A text, and the text with a comment put in between its tokens. No two tokens that may be read as
one touch there. -/
structure Commented (i : Insertion) (text text' : String) : Prop where
  characters : ∃ front comment back, text.toList = front ++ back ∧
    text'.toList = front ++ comment ++ back ∧ front.length = i.place ∧ comment.length = i.length
  tokens : ∃ before after c, Token.ofText? text = some (before ++ after) ∧
    Token.ofText? text' = some (before.map i.token ++ c :: after.map i.token) ∧
    c.isComment = true ∧ c.span = i.inserted ∧
    ∀ t ∈ before, ∀ u ∈ after, t.glues u = true → t.touches u = false

variable {i : Insertion} {text text' : String}

namespace Insertion

/-- Something stops where something else starts as before, unless that is where it is put in. -/
theorem stop_beq_start {a b : Nat} (h : a ≠ i.place ∨ b ≠ i.place) :
    (i.stop a == i.start b) = (a == b) := by
  rw [Bool.eq_iff_iff, beq_iff_eq, beq_iff_eq]
  have hlength := i.length_pos
  unfold stop start
  split <;> split <;> omega

end Insertion

namespace Token

/-- Tokens that stand on one side of a comment. -/
theorem alike_of_row {ts : List Token} (h : ts.Pairwise fun t u => t.glues u = true →
    t.span.stop ≠ i.place ∨ u.span.start ≠ i.place) : Alike i ts (ts.map i.token) := by
  induction ts with
  | nil => exact .nil
  | cons t rest ih =>
    rw [List.pairwise_cons] at h
    refine .cons (fun u hu u' hu' hglues => ?_) (ih h.2)
    rw [List.head?_map, hu] at hu'
    cases hu'
    exact (Insertion.stop_beq_start (h.1 u (List.mem_of_mem_head? hu) hglues)).symm

end Token

namespace Commented

/-- The tokens in front of a comment start before it, and those behind it stop after it. -/
theorem sides {before after : List Token} {c : Token}
    (h : Token.Row (.ofString text') 0 (before.map i.token ++ c :: after.map i.token))
    (hc : c.span = i.inserted) :
    (∀ t ∈ before, t.span.start < i.place) ∧ ∀ t ∈ after, i.place < t.span.stop := by
  have hlength := i.length_pos
  obtain ⟨-, hbehind, hfront⟩ := List.pairwise_append.1 h.ordered
  constructor
  · intro t ht
    have hmem : i.token t ∈ before.map i.token := List.mem_map_of_mem ht
    have hplaced := (h.placed _ (List.mem_append_left _ hmem)).start_lt_stop
    have hbefore := hfront _ hmem c (by simp)
    rw [hc] at hbefore
    have hstop : i.stop t.span.stop ≤ i.place := hbefore
    have hstart : i.start t.span.start < i.stop t.span.stop := hplaced
    unfold Insertion.start at hstart
    split at hstart <;> omega
  · intro t ht
    have hmem : i.token t ∈ after.map i.token := List.mem_map_of_mem ht
    have hplaced :=
      (h.placed _ (List.mem_append_right _ (List.mem_cons_of_mem _ hmem))).start_lt_stop
    have hafter := (List.pairwise_cons.1 hbehind).1 _ hmem
    rw [hc] at hafter
    have hstart : i.place + i.length ≤ i.start t.span.start := hafter
    have hstop : i.start t.span.start < i.stop t.span.stop := hplaced
    unfold Insertion.stop at hstop
    split at hstop <;> omega

theorem retokened (h : Commented i text text') : ∃ tokens tokens',
    Token.ofText? text = some tokens ∧ Token.ofText? text' = some tokens' ∧
      Node.Retokened i tokens tokens' := by
  obtain ⟨before, after, c, htokens, htokens', hcomment, hspan, happart⟩ := h.tokens
  obtain ⟨hbefore, hafter⟩ := sides (Token.ofText?_row htokens') hspan
  refine ⟨_, _, htokens, htokens', ?_, ?_⟩
  · have hwords : (before.map i.token ++ c :: after.map i.token).filter (not ∘ Token.isComment) =
        ((before ++ after).filter (not ∘ Token.isComment)).map i.token := by
      rw [List.filter_append, List.filter_cons, Function.comp_apply, hcomment, List.filter_append,
        List.map_append, List.filter_map, List.filter_map]
      rfl
    rw [hwords]
    refine Token.alike_of_row (List.Pairwise.filter _ (List.pairwise_append.2 ⟨?_, ?_, ?_⟩))
    · exact List.pairwise_of_forall_mem_list fun t _ u hu _ => .inr (hbefore u hu).ne
    · exact List.pairwise_of_forall_mem_list fun t ht u _ _ => .inl (hafter t ht).ne'
    · intro t ht u hu hglues
      have htouch : t.span.stop ≠ u.span.start := by
        simpa [Token.touches] using happart t ht u hu hglues
      by_contra hplace
      push Not at hplace
      exact htouch (hplace.1.trans hplace.2.symm)
  · have hkept (ts : List Token) :
        ((ts.map i.token).filter Token.isComment).filter (fun t => t.span != i.inserted) =
          (ts.filter Token.isComment).map i.token := by
      rw [List.filter_eq_self.2 fun t ht => ?_, List.filter_map]
      · rfl
      · obtain ⟨u, -, rfl⟩ := List.mem_map.1 (List.mem_filter.1 ht).1
        exact bne_iff_ne.2 (i.span_ne_inserted u.span)
    rw [List.filter_append, List.filter_append, hkept, List.filter_cons, if_pos hcomment,
      List.filter_cons, hspan, bne_self_eq_false, if_neg Bool.false_ne_true, hkept,
      List.filter_append, List.map_append]

/-- What is not parted is spelled as before. -/
theorem slice_eq (h : Commented i text text') (s : Span) (hs : ¬i.Parts s) :
    (SourceText.ofString text').slice (i.span s) = (SourceText.ofString text).slice s := by
  obtain ⟨front, comment, back, htext, htext', hfront, hcomment⟩ := h.characters
  have hslice (text : String) (s : Span) : (SourceText.ofString text).slice s =
      String.ofList ((text.toList.drop s.start).take (s.stop - s.start)) := by
    simp [SourceText.slice, SourceText.ofString, List.extract_eq_take_drop]
  obtain ⟨a, b⟩ := s
  have hparts : ¬(a < i.place ∧ i.place < b) := hs
  rw [hslice, hslice, htext, htext', List.append_assoc]
  congr 1
  simp only [Insertion.span, Insertion.start, Insertion.stop]
  by_cases hbehind : i.place < b
  · -- All of it stands behind the comment.
    have ha : i.place ≤ a := by omega
    have hdrop (xs : List Char) (n : Nat) (hn : xs.length ≤ n) (ys : List Char) :
        (xs ++ ys).drop n = ys.drop (n - xs.length) := by
      rw [List.drop_append, List.drop_eq_nil_of_le hn, List.nil_append]
    rw [if_neg (by omega), if_neg (by omega), hdrop _ _ (by omega), hdrop _ _ (by omega),
      hdrop _ _ (by omega), hfront, hcomment, Nat.add_sub_add_right,
      show a + i.length - i.place - i.length = a - i.place by omega]
  · rw [if_pos (by omega : b ≤ i.place)]
    by_cases ha : a < i.place
    · -- All of it stands in front of the comment.
      have htake (ys : List Char) :
          ((front ++ ys).drop a).take (b - a) = (front.drop a).take (b - a) := by
        rw [List.drop_append_of_le_length (by omega),
          List.take_append_of_le_length (by rw [List.length_drop]; omega)]
      rw [if_pos ha, htake, htake]
    · rw [if_neg ha, show b - (a + i.length) = 0 by omega, show b - a = 0 by omega,
        List.take_zero, List.take_zero]

/-- Two readings of a text, with a comment and without. -/
def rereading (h : Commented i text text') : Rereading where
  toInsertion := i
  source := .ofString text
  source' := .ofString text'
  slice_eq := h.slice_eq

/-- A unit, and the unit with a comment put in that is overlooked. -/
theorem echo (h : Commented i text text') (id : String) {root root' : Node}
    (hroot : Node.ofText? text = some root) (hroot' : Node.ofText? text' = some root')
    (hover : root'.overlooks i = true) :
    (ParsedUnit.ofText id text).Echo h.rereading (.ofText id text') ∧ root.Echo i root' := by
  obtain ⟨tokens, tokens', htokens, htokens', hretokened⟩ := h.retokened
  have hecho : root.Echo i root' :=
    ⟨Node.without_ofText? htokens htokens' hretokened hroot hroot', hover⟩
  refine ⟨⟨rfl, rfl, ?_⟩, hecho⟩
  change Option.Rel (Node.Echo i) (Node.ofText? text) (Node.ofText? text')
  rw [hroot, hroot']
  exact .some hecho

end Commented

namespace Program

/-- What is found in a unit depends on the index alone. -/
theorem resolveUnit_congr {program program' : Program} (h : program'.index = program.index)
    (unit : DeclaredUnit) : program'.resolveUnit unit = program.resolveUnit unit := by
  unfold resolveUnit
  rw [h]

/-- What is found in a unit that is well formed. -/
theorem resolveUnit_of_tree (program : Program) {id : String} {unit : DeclaredUnit} {root : Node}
    (hunit : unit.unit = .ofText id text) (hroot : Node.ofText? text = some root) :
    (unit.unit.id, program.resolveUnit unit) = (id,
      { occurrences := (bindUnit program.index unit root).1,
        diagnostics := (bindUnit program.index unit root).2 }) := by
  have htree : unit.unit.tree = some root := by
    rw [hunit]
    exact hroot
  rw [resolveUnit, htree]
  simp only [(Node.ofText?_whole hroot).2, hunit]
  rfl

/-- A comment that is overlooked leaves all units of a program the occurrences they had. In the unit
it is put into, those behind it are moved, and all that it does not part are spelled as before. -/
theorem resolveUnits_commented (h : Commented i text text')
    (hroot : (Node.ofText? text).isSome = true)
    (hover : (Node.ofText? text').any (·.overlooks i) = true)
    (known : TypeIndex) (before after : List ParsedUnit) (id : String) :
    ∃ front back r r',
      (ofUnits known (before ++ .ofText id text :: after)).resolveUnits =
        front ++ (id, r) :: back ∧
      (ofUnits known (before ++ .ofText id text' :: after)).resolveUnits =
        front ++ (id, r') :: back ∧
      front.length = before.length ∧ r.parseFailed = false ∧ r'.parseFailed = false ∧
      r'.occurrences = r.occurrences.map i.occurrence ∧
      ∀ o ∈ r.occurrences, ¬i.Parts o.span →
        (SourceText.ofString text').slice (i.occurrence o).span =
          (SourceText.ofString text).slice o.span := by
  obtain ⟨root, hroot⟩ := Option.isSome_iff_exists.1 hroot
  obtain ⟨root', hroot', hover⟩ := (Option.any_eq_true _ _).1 hover
  obtain ⟨hunit, hecho⟩ := h.echo id hroot hroot' hover
  obtain ⟨hindex, front, back, declared, declared', hunits, hunits', hlength, hparsed, hparsed',
    hdeclared⟩ := ofUnits_echo known before after hunit
  generalize ofUnits known (before ++ .ofText id text :: after) = program at hindex hunits ⊢
  generalize ofUnits known (before ++ .ofText id text' :: after) = program' at hindex hunits' ⊢
  let found (unit : DeclaredUnit) : String × UnitResolution :=
    (unit.unit.id, program.resolveUnit unit)
  let resolved (unit : DeclaredUnit) (root : Node) : UnitResolution :=
    { occurrences := (bindUnit program.index unit root).1,
      diagnostics := (bindUnit program.index unit root).2 }
  refine ⟨front.map found, back.map found, resolved declared root, resolved declared' root', ?_, ?_,
    (List.length_map _).trans hlength, rfl, rfl, occurrences_bindUnit hdeclared hecho,
    fun o _ hparts => h.slice_eq o.span hparts⟩
  · rw [resolveUnits, hunits, List.map_append, List.map_cons,
      resolveUnit_of_tree program hparsed hroot]
  · rw [resolveUnits, hunits', List.map_append, List.map_cons,
      resolveUnit_of_tree program' hparsed' hroot', hindex]
    simp only [resolveUnit_congr hindex]
    rfl

/-- A comment behind a word of a method that calls itself. -/
theorem resolveUnits_commented_call :
    (Node.ofText? "class A { A f(A x) { return/**/ f(x); } }").any
        (·.overlooks ⟨27, 4, by decide, by decide⟩) = true ∧
      ∃ front back r r',
        (ofUnits {} [.ofText "A.java" "class A { A f(A x) { return f(x); } }"]).resolveUnits =
          front ++ ("A.java", r) :: back ∧
        (ofUnits {} [.ofText "A.java" "class A { A f(A x) { return/**/ f(x); } }"]).resolveUnits =
          front ++ ("A.java", r') :: back ∧
        front.length = 0 ∧ r.parseFailed = false ∧ r'.parseFailed = false ∧
        r'.occurrences =
          r.occurrences.map (Insertion.occurrence ⟨27, 4, by decide, by decide⟩) ∧
        ∀ o ∈ r.occurrences, ¬Insertion.Parts ⟨27, 4, by decide, by decide⟩ o.span →
          (SourceText.ofString "class A { A f(A x) { return/**/ f(x); } }").slice
              (Insertion.occurrence ⟨27, 4, by decide, by decide⟩ o).span =
            (SourceText.ofString "class A { A f(A x) { return f(x); } }").slice o.span := by
  have hover : (Node.ofText? "class A { A f(A x) { return/**/ f(x); } }").any
      (·.overlooks ⟨27, 4, by decide, by decide⟩) = true := by decide +kernel
  let tokens := (Token.ofText? "class A { A f(A x) { return f(x); } }").getD []
  have hcommented : Commented ⟨27, 4, by decide, by decide⟩
      "class A { A f(A x) { return f(x); } }" "class A { A f(A x) { return/**/ f(x); } }" := by
    refine ⟨⟨"class A { A f(A x) { return f(x); } }".toList.take 27, "/**/".toList,
        "class A { A f(A x) { return f(x); } }".toList.drop 27,
        by decide, by decide, by decide, by decide⟩,
      ⟨tokens.take 11, tokens.drop 11, ⟨.comment .blockComment, "/**/", ⟨27, 31⟩⟩,
        by decide +kernel, by decide +kernel, rfl, rfl, by decide +kernel⟩⟩
  exact ⟨hover, resolveUnits_commented hcommented (by decide +kernel) hover {} [] [] "A.java"⟩

end Program

/-! ## Comments that are taken for bounds -/

/-- A unit on its own. -/
def soleProgram (text : String) : Program := .ofUnits {} [.ofText "A.java" text]

/-- The signatures that are found in a unit on its own. -/
def soleSignatures (text : String) : List (List Signature) :=
  (soleProgram text).resolveUnits.map fun r => r.2.occurrences.map (·.signature)

/-- A comment in front of a bound changes the signature of a parameter, since the first bound is
that of the erasure. -/
theorem bound_comment_changes_signature :
    soleSignatures "class A<T extends A> { A(T x) { } }" =
        [["A", "A", "A", "A.<init>(LA;)V#0"]] ∧
      soleSignatures "class A<T extends /**/ A> { A(T x) { } }" =
        [["A", "A", "A", "A.<init>(Ljava/lang/Object;)V#0"]] := by
  constructor
  · decide +kernel
  · decide +kernel

end Renaming.Java
