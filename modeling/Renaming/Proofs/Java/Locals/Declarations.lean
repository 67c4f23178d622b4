import Renaming.Java.Binding.Declarations
import Renaming.Proofs.Java.Locals.Statements

/-!
# Local variables of declarations

The variables in a method belong to the method, those in the values of fields and in the constants
of an enum to the initializers of the type. A method without a known signature hides what is in it.
-/

namespace Renaming.Java.Binding

variable {α : Type} {ctx : BindingContext} {p : Around} {bound : Nat}
  {sub : Task → Binding Meaning} {n c : Node}

theorem lists_elementKey {binary : String} : Lists ctx p.host [] (elementKey binary n) := by
  refine .after lists_text fun name => .read ?_
  dsimp only
  split
  · exact lists_emitMethod
  · exact lists_unresolved

theorem lists_methodName {name : Node} {declared : Option (String × MethodDeclaration)} :
    Lists ctx p.host [] (methodName n name declared) := by
  unfold methodName
  split
  · split
    · exact lists_emitType
    · exact lists_emitMethod
  · extract_lets finish
    have hfinish (u : Unit) : Lists ctx p.host [] (finish u) :=
      .after lists_currentClass? fun _ => .after lists_text fun _ => lists_unresolved
    split
    · exact .after (.discard lists_nameAsType) hfinish
    · exact hfinish ()

theorem lists_staticMember {owner : String} : Lists ctx p.host [] (staticMember n owner) := by
  refine .read (.after lists_text fun name => ?_)
  dsimp only
  split
  · exact lists_emitField
  · split
    · exact lists_emitWith (by decide)
    · exact lists_unresolved

/-- Imports declare nothing. -/
theorem lists_importDeclaration : Lists ctx p.host [] (importDeclaration n) := by
  unfold importDeclaration
  split
  · exact .pure
  · refine .read ?_
    extract_lets segments
    refine .after lists_text fun written => ?_
    dsimp only
    split
    · split
      · exact .pure
      · refine .after lists_qualifiedPath fun owner => ?_
        split
        · exact lists_staticMember
        · exact lists_unresolved
    · refine .after (.mapM_nil fun _ _ => lists_text) fun names => ?_
      split
      · exact .pure
      · refine .after lists_qualifiedPath fun owner => ?_
        split
        · exact lists_unresolved
        · exact .pure

/-- A value in front of which other things may stand. -/
theorem locals_of_value (ctx : BindingContext) (p : Around) {v : Node} (hc : c.LaidOut)
    (hkind : c.kind.isValue = true) (hv : c.child? .value = some v) :
    v.kind.isValue = true ∧ c.locals ctx p = v.locals ctx p.plain := by
  have hone : (c.oneAs .value NodeKind.isValue).flatMap (·.1.locals ctx p.plain) =
      v.locals ctx p.plain := by
    rw [Node.oneAs, hv, flatMap_slots _ _ (·.locals ctx p.plain), Option.toList_some,
      List.flatMap_singleton]
  have hvalue (h : ∀ e ∈ c.oneAs .value NodeKind.isValue, e.2 e.1 = true) :
      v.kind.isValue = true := by
    rw [Node.oneAs, forall_mem_slots] at h
    exact h v (by simp [hv])
  rcases hc.arranged.valued hkind (by rw [hv]; rfl) with hk | hk | hk
  · have hlayout : c.layout = c.oneAs .value NodeKind.isValue := by rw [Node.layout, hk]
    obtain ⟨hlocals, hfits⟩ := parts_of_isPlain hc (by rw [hk]; rfl) hlayout
    exact ⟨hvalue hfits, hlocals.trans hone⟩
  · have hfits := hc.arranged.fits
    rw [Node.layout, hk, List.forall_mem_append] at hfits
    rw [locals_arrayCreation hc hk, Node.sizes, if_pos (by rw [hv]; rfl), List.flatMap_nil,
      List.nil_append, hone]
    exact ⟨hvalue hfits.2, rfl⟩
  · have hlayout : c.layout = c.oneAs .value NodeKind.isValue := by rw [Node.layout, hk]
    obtain ⟨hlocals, hfits⟩ := parts_of_isPlain hc (by rw [hk]; rfl) hlayout
    exact ⟨hvalue hfits, hlocals.trans hone⟩

variable (hsub : ListsBelow ctx (bound + 4) sub)

include hsub

/-! ## Annotations -/

theorem lists_elementValue_task (hc : c.Within bound) (hkind : c.kind.isValue = true) :
    Lists ctx p.host (c.locals ctx p.plain) (discard (sub (.elementValue c))) :=
  .discard (hsub.inner (.elementValue c) hc p.plain hkind)

theorem lists_elementValue (hn : n.Within (bound + 4)) (hkind : n.kind.isValue = true)
    (hsize : (Task.elementValue n).size ≤ bound + 4) :
    Lists ctx p.host (n.locals ctx p) (elementValue sub n) := by
  have hlt {task : Task} (hnode : task.node = n) (hrank : task.rank ≤ 1) :
      task.size < bound + 4 := by
    simp only [Task.size, hnode, Task.rank] at hsize hrank ⊢
    rw [show (Task.elementValue n).node = n from rfl] at hsize
    omega
  unfold elementValue
  split
  · rename_i hannotated
    exact .discard (hsub (.annotated n) p hn.laidOut hannotated (hlt rfl (Nat.zero_le 1)))
  · split
    · rename_i harray
      rw [beq_iff_eq] at harray
      exact lists_loose hn (by rw [harray]; rfl) fun c hc hvalue =>
        lists_elementValue_task hsub hc hvalue
    · exact .discard (.before (hsub (.expression n) p hn.laidOut hkind (hlt rfl (Nat.le_refl 1)))
        fun _ => .pure)

theorem lists_elementArgument {binary : Option String} (hc : c.Within bound)
    (hkind : c.kind.isValue = true) :
    Lists ctx p.host (c.locals ctx p.plain) (elementArgument sub binary c) := by
  have hwhole : Lists ctx p.host (c.locals ctx p.plain) (elementValue? sub (some c)) :=
    lists_elementValue_task hsub hc hkind
  have hpart (v : Node) (hv : c.child? .value = some v) :
      Lists ctx p.host (c.locals ctx p.plain) (elementValue? sub (some v)) := by
    obtain ⟨hvalue, hlocals⟩ := locals_of_value ctx p.plain hc.laidOut hkind hv
    rw [hlocals]
    exact lists_elementValue_task hsub (hc.inner (List.mem_of_find?_eq_some hv)) hvalue
  cases binary with
  | none =>
    unfold elementArgument
    cases hv : c.child? .value with
    | none => exact hwhole
    | some v => exact hpart v hv
  | some binary =>
    unfold elementArgument
    dsimp only
    by_cases hpair : c.kind = .elementPair
    · rw [if_pos (by rw [hpair]; rfl)]
      have hvalue : Lists ctx p.host (c.locals ctx p.plain)
          (elementValue? sub (c.child? .value)) := by
        cases hv : c.child? .value with
        | none =>
          have hlayout : c.layout = [] := by rw [Node.layout, hpair, Node.oneAs, hv]; rfl
          rw [hc.laidOut.arranged.locals_of_isPlain (by rw [hpair]; rfl), hlayout]
          exact .pure
        | some v => exact hpart v hv
      cases c.child? .key with
      | none => exact hvalue
      | some key => exact .after lists_elementKey fun _ => hvalue
    · rw [if_neg (by simpa using hpair)]
      exact hwhole

theorem lists_annotated (hn : n.Within (bound + 4)) (hkind : n.kind.isAnnotated = true) :
    Lists ctx p.host (n.locals ctx p) (annotated sub n) := by
  have hplain : n.kind.isPlain = true := by
    rcases NodeKind.isAnnotated_cases hkind with hkind | hkind <;> rw [hkind] <;> rfl
  have hlayout : n.layout = if (n.child? .name).isSome then
      n.oneAs .arguments (· == .elementList) else [] := by
    rcases NodeKind.isAnnotated_cases hkind with hkind | hkind <;> rw [Node.layout, hkind]
  obtain ⟨hlocals, hfits⟩ := parts_of_isPlain hn.laidOut hplain hlayout
  rw [hlocals]
  unfold annotated
  cases hname : n.child? .name with
  | none => exact .pure
  | some name =>
    rw [hname, Option.isSome_some, if_pos rfl] at hfits
    rw [Option.isSome_some, if_pos rfl]
    refine .after lists_nameAsType fun binary => ?_
    extract_lets walkArguments
    have hwalk (u : Unit) : Lists ctx p.host
        ((n.oneAs .arguments (· == .elementList)).flatMap (·.1.locals ctx p.plain))
        (walkArguments u) := by
      simp only [walkArguments]
      obtain ⟨hchild, hfound⟩ | ⟨list, hchild, hfound, -, hlist, htest⟩ :=
        oneAs_cases hn hfits (·.locals ctx p.plain)
      · rw [hchild, hfound]
        exact .pure
      · rw [hchild, hfound]
        rw [beq_iff_eq] at htest
        exact lists_loose (p := p.plain) hlist.up (by rw [htest]; rfl) fun c hc hvalue =>
          lists_elementArgument (p := p.plain) hsub hc hvalue
    split
    · exact .after lists_text fun _ => .after lists_unresolved hwalk
    · exact hwalk ()

/-! ## Methods -/

omit hsub in
/-- A part that has nothing but annotations in front. -/
theorem locals_of_marks (hc : c.LaidOut) (hplain : c.kind.isPlain = true)
    (hlayout : c.layout = c.marksFirst) :
    c.locals ctx p = c.marks.flatMap (·.locals ctx p.plain) := by
  rw [hc.arranged.locals_of_isPlain hplain, hlayout, Node.marksFirst, List.flatMap_map]

omit hsub in
theorem marks_of_isComment (hc : c.LaidOut) (hkind : c.kind.isComment = true) :
    c.marks.flatMap (·.locals ctx p.plain) = [] :=
  List.flatMap_eq_nil_iff.2 fun d hd =>
    ((of_isComment ctx p hc hkind).2 d (List.mem_filter.1 hd).1).2 p.plain

theorem lists_typeParameters (hn : n.Within (bound + 4))
    (h : ∀ e ∈ n.oneAs .typeParameters (· == .typeParameters), e.2 e.1 = true) :
    Lists ctx p.host
      ((n.oneAs .typeParameters (· == .typeParameters)).flatMap (·.1.locals ctx p.plain))
      (typeParameters sub n) := by
  refine .after lists_naming fun params => .before ?_ fun _ => .pure
  obtain ⟨hchild, hfound⟩ | ⟨list, hchild, hfound, -, hlist, htest⟩ :=
    oneAs_cases hn h (·.locals ctx p.plain)
  · rw [hchild, hfound]
    exact .pure
  · rw [hchild, hfound]
    rw [beq_iff_eq] at htest
    refine lists_all (p := p.plain) hlist.up (by rw [Node.layout, htest]) (by rw [htest]; rfl)
      fun c hc hkind => ?_
    have hlocals : c.locals ctx p.plain = c.marks.flatMap (·.locals ctx p.plain) := by
      rcases Bool.or_eq_true_iff.1 hkind with hkind | hkind
      · rw [beq_iff_eq] at hkind
        exact locals_of_marks hc.laidOut (by rw [hkind]; rfl) (by rw [Node.layout, hkind])
      · rw [(of_isComment ctx p.plain hc.laidOut hkind).1, marks_of_isComment hc.laidOut hkind]
    exact hlocals ▸ lists_annotations hsub hc.up

omit hsub in
theorem parameter_or_comment {k : NodeKind} (h : (k.isParameter || k.isComment) = true) :
    k = .formalParameter ∨ k = .spreadParameter ∨ k = .receiverParameter ∨
      k.isComment = true := by
  rcases Bool.or_eq_true_iff.1 h with hparameter | hcomment
  · rcases NodeKind.isParameter_cases hparameter with rfl | rfl | rfl <;> simp
  · exact .inr (.inr (.inr hcomment))

omit hsub in
/-- The parameters of a method and the components of a record are no local variables. -/
theorem locals_parameter (hc : c.LaidOut)
    (hkind : (c.kind.isParameter || c.kind.isComment) = true) (hsense : p.sense ≠ .locals) :
    c.locals ctx p = c.marks.flatMap (·.locals ctx p.plain) := by
  have hfits := hc.arranged.fits
  rcases parameter_or_comment hkind with hk | hk | hk | hk
  · rw [Node.layout, hk, List.forall_mem_append] at hfits
    have hnames : (c.oneAs .name NodeKind.isName).flatMap (p.found ctx c ·.1) = [] := by
      refine List.flatMap_eq_nil_iff.2 fun e he => ?_
      have hword := hfits.2 e he
      obtain ⟨d, hd, rfl⟩ := List.mem_map.1 he
      rw [Node.found_of_into (by simp [Around.names, hk, hsense]) (by simp [Around.into, hk]; rfl)]
      exact locals_of_isName hword
    rw [hc.arranged.locals_eq_layout (by rw [hk]; rfl) (by rw [hk]; rfl)
      fun c => by simp [Around.waits, hk], Node.layout, hk, List.flatMap_append, hnames,
      flatMap_marksFirst (by rw [hk]; rfl) hfits.1, List.append_nil]
  · rw [Node.layout, hk, List.forall_mem_append] at hfits
    have hnone : (c.childOfKind? .variableDeclarator).toList.flatMap (p.found ctx c) = [] := by
      refine List.flatMap_eq_nil_iff.2 fun d hd => ?_
      have hdeclarator : d.kind = .variableDeclarator := by
        simpa using List.find?_some (Option.mem_toList.1 hd)
      exact Node.found_of_into_none (by simp [Around.names, Node.mayName, hk])
        (by simp [Around.into, hk, hdeclarator])
    rw [hc.arranged.locals_eq_layout (by rw [hk]; rfl) (by rw [hk]; rfl)
      fun c => by simp [Around.waits, hk], Node.layout, hk, List.flatMap_append,
      flatMap_slots _ _ (p.found ctx c), hnone, flatMap_marksFirst (by rw [hk]; rfl) hfits.1,
      List.append_nil]
  · exact locals_of_marks hc (by rw [hk]; rfl) (by rw [Node.layout, hk])
  · rw [(of_isComment ctx p hc hk).1, marks_of_isComment hc hk]

omit hsub in
/-- Whatever a method has parts of is a parameter with a place of its own. -/
theorem parameterParts?_eq_none (hkind : (c.kind.isParameter || c.kind.isComment) = true) :
    parameterParts? c = none ↔ c.kind = .receiverParameter ∨ c.kind.isComment = true := by
  unfold parameterParts?
  rcases parameter_or_comment hkind with hk | hk | hk | hk
  · simp [hk, NodeKind.isComment]
  · simp [hk, NodeKind.isComment]
  · simp [hk]
  · rcases NodeKind.isComment_cases hk with hk | hk <;> simp [hk, NodeKind.isComment]

omit hsub in
/-- Parameters of a method declare what is found in front of them. -/
theorem locals_parameters (hc : c.LaidOut) (hkind : c.kind = .formalParameters)
    (hsense : p.sense = .plain) :
    c.locals ctx p = (c.namedChildren.filterMap fun d =>
      (parameterParts? d).map fun parts => (d, parts)).flatMap
        (·.1.marks.flatMap (·.locals ctx p.plain)) := by
  have hfits := hc.arranged.fits
  have hlayout : c.layout = c.all fun k => k.isParameter || k.isComment := by
    rw [Node.layout, hkind]
  rw [hlayout, Node.all, forall_mem_slots] at hfits
  rw [List.filterMap_eq_flatMap_toList, List.flatMap_assoc,
    hc.arranged.locals_eq_layout (by rw [hkind]; rfl) (by rw [hkind]; rfl)
      fun c => by simp [Around.waits, hkind], hlayout, Node.all,
    flatMap_slots _ _ (p.found ctx c)]
  refine List.flatMap_congr fun d hd => ?_
  have hd' := hc.child (List.mem_filter.1 hd).1
  have hnames : p.names c d = false := by simp [Around.names, Node.mayName, hkind]
  cases hparts : parameterParts? d with
  | none =>
    rcases (parameterParts?_eq_none (hfits d hd)).1 hparts with hk | hk
    · exact Node.found_of_into_none hnames (by simp [Around.into, hkind, hsense, hk])
    · have hreceiver : d.kind ≠ .receiverParameter := fun h => by
        simp [h, NodeKind.isComment] at hk
      rw [Node.found_of_into (q := p.plain) hnames
        (by simp [Around.into, hkind, hsense, hreceiver])]
      exact (of_isComment ctx p.plain hd' hk).1
  | some parts =>
    have hreceiver : d.kind ≠ .receiverParameter := fun h => by
      simp [(parameterParts?_eq_none (hfits d hd)).2 (.inl h)] at hparts
    rw [Node.found_of_into (q := p.plain) hnames
        (by simp [Around.into, hkind, hsense, hreceiver]),
      locals_parameter hd' (hfits d hd) (show Sense.plain ≠ .locals by decide)]
    exact (List.append_nil _).symm

theorem lists_parameters (hc : c.Within bound) (hkind : c.kind = .formalParameters)
    (hsense : p.sense = .plain) {method : Option Signature} {known : List GenericType} :
    Lists ctx p.host (c.locals ctx p) (parameters sub c method known) := by
  rw [locals_parameters hc.laidOut hkind hsense, flatMap_eq_zipIdx]
  refine .forM fun e he => ?_
  obtain ⟨d, hd, hparts⟩ := List.mem_filterMap.1 (List.fst_mem_of_mem_zipIdx he)
  obtain ⟨parts, -, hfst⟩ := Option.map_eq_some_iff.1 hparts
  have hd' : e.1.1.Within bound := by
    rw [← hfst]
    exact hc.inner (List.mem_filter.1 hd).1
  refine .before (lists_annotations hsub hd'.up) fun _ => .after lists_typeNode? fun written => ?_
  extract_lets written signature
  split
  · exact .pure
  · extract_lets declare
    have hdeclare (u : Unit) : Lists ctx p.host [] (declare u) :=
      .after lists_text fun _ => lists_bind (by rintro ⟨⟩)
    clear_value signature
    cases signature with
    | none => exact hdeclare ()
    | some signature => exact .after (lists_emitWith (by decide)) hdeclare

omit hsub in
theorem lists_implicitParameters {components : Option Node} {method : Option Signature}
    {known : List GenericType} :
    Lists ctx p.host [] (implicitParameters components method known) :=
  .forM_nil fun _ _ => .after lists_text fun _ => lists_bind (by rintro ⟨⟩)

/-- The parameters and the body of a method, inside the method. -/
theorem lists_methodBody (hn : n.Within (bound + 4)) {components : Option Node}
    {declared : Option (String × MethodDeclaration)}
    (hparameters : ∀ e ∈ n.oneAs .parameters (· == .formalParameters), e.2 e.1 = true)
    (hbody : ∀ e ∈ n.oneAs .body fun k => k == .block || k == .constructorBody, e.2 e.1 = true)
    {method : Option Signature}
    (hmethod : method = declared.map fun (owner, m) => m.signature owner) :
    Lists ctx p.host
      ((n.oneAs .parameters (· == .formalParameters)).flatMap
          (·.1.locals ctx (p.within method)) ++
        (n.oneAs .body fun k => k == .block || k == .constructorBody).flatMap
          (·.1.locals ctx (p.within method)))
      (methodBody sub n components declared) := by
  subst hmethod
  refine lists_withMethod (lists_withBlock ?_)
  generalize declared.map (fun (owner, m) => m.signature owner) = method
  have hstatement : Lists ctx (some method)
      ((n.oneAs .body fun k => k == .block || k == .constructorBody).flatMap
        (·.1.locals ctx (p.within method))) (statement? sub (n.child? .body)) := by
    refine lists_oneAs (·.locals ctx (p.within method)) hn hbody .pure fun c _ hc htest => ?_
    refine lists_statement_task hsub (p.within method) hc ?_
    rw [Bool.or_eq_true, beq_iff_eq, beq_iff_eq] at htest
    rcases htest with htest | htest <;> rw [htest] <;> rfl
  extract_lets walkStatement walkImplicit
  have hwalkImplicit (u : Unit) : Lists ctx (some method)
      ((n.oneAs .body fun k => k == .block || k == .constructorBody).flatMap
        (·.1.locals ctx (p.within method))) (walkImplicit u) := by
    simp only [walkImplicit]
    split
    · exact .after (lists_implicitParameters (p := p.within method)) fun _ => hstatement
    · exact hstatement
  obtain ⟨hchild, hfound⟩ | ⟨list, hchild, hfound, -, hlist, htest⟩ :=
    oneAs_cases hn hparameters (·.locals ctx (p.within method))
  · rw [hchild, hfound]
    exact hwalkImplicit ()
  · rw [hchild, hfound]
    rw [beq_iff_eq] at htest
    exact .bind (lists_parameters (p := p.within method) hsub hlist htest rfl) hwalkImplicit

omit hsub in
theorem layout_of_isMethod (hkind : n.kind.isMethod = true) : n.layout =
    (n.namedChildren.filter (·.kind == .modifiers)).map (fun c => (c, Node.isMark)) ++
      n.oneAs .typeParameters (· == .typeParameters) ++
      (n.namedChildren.filter (·.kind.isAnnotated)).map (fun c => (c, Node.isMark)) ++
      n.oneAs .parameters (· == .formalParameters) ++
      n.oneAs .body fun k => k == .block || k == .constructorBody := by
  rcases NodeKind.isMethod_cases hkind with hk | hk | hk <;> rw [Node.layout, hk]

omit hsub in
/-- The parameters and the body of a method are in the method. -/
theorem found_in_method (hkind : n.kind.isMethod = true)
    (hrole : c.role = some .parameters ∨ c.role = some .body) :
    p.found ctx n c = c.locals ctx
      (p.within ((ctx.unit.methods.get? n.start).map fun (owner, m) => m.signature owner)) := by
  rcases NodeKind.isMethod_cases hkind with hk | hk | hk <;>
    exact Node.found_of_into (by simp [Around.names, Node.mayName, hk])
      (by rcases hrole with hrole | hrole <;> simp [Around.into, hk, hrole])

omit hsub in
theorem found_at_method (hkind : n.kind.isMethod = true) (hparameters : c.role ≠ some .parameters)
    (hbody : c.role ≠ some .body) : p.found ctx n c = c.locals ctx p.plain := by
  rcases NodeKind.isMethod_cases hkind with hk | hk | hk <;>
    exact Node.found_of_into (by simp [Around.names, Node.mayName, hk])
      (by simp [Around.into, hk, hparameters, hbody])

omit hsub in
theorem waits_of_isMethod (hkind : n.kind.isMethod = true) : p.waits n c = !c.kind.isMark := by
  rcases NodeKind.isMethod_cases hkind with hk | hk | hk <;> simp only [Around.waits, hk]

omit hsub in
theorem isMark_of_isMethodBody {k : NodeKind}
    (h : (k == .block || k == .constructorBody) = true) : k.isMark = false := by
  rcases Bool.or_eq_true_iff.1 h with h | h <;> rw [beq_iff_eq.1 h] <;> rfl

omit hsub in
/-- What stands in front of a method plays no role in it. -/
theorem role_of_mark (hn : n.LaidOut) (hkind : n.kind.isMethod = true) (hc : c ∈ n.children)
    (hmark : c.kind.isMark = true) : c.role = none := by
  have hmem : c ∈ (n.layout.map Prod.fst).filter n.matters := by
    rw [← hn.arranged.parts]
    refine List.mem_filter.2 ⟨hc, ?_⟩
    rw [Node.matters, NodeKind.isMute_of_isMark hmark]
    rfl
  obtain ⟨e, he, rfl⟩ := List.mem_map.1 (List.mem_filter.1 hmem).1
  have htest := hn.arranged.fits e he
  rw [layout_of_isMethod hkind] at he
  simp only [List.mem_append, or_assoc] at he
  have hfront (l : List Node) (hmem : e ∈ l.map fun c => (c, Node.isMark)) : e.1.role = none := by
    obtain ⟨d, -, rfl⟩ := List.mem_map.1 hmem
    simpa using (Bool.and_eq_true_iff.1 htest).2
  have hpart (role : Role) (test : NodeKind → Bool) (hmem : e ∈ n.oneAs role test)
      (hother : ∀ k, test k = true → k.isMark = false) : e.1.role = none := by
    obtain ⟨d, hd, rfl⟩ := List.mem_map.1 hmem
    rw [hother d.kind htest] at hmark
    cases hmark
  rcases he with he | he | he | he | he
  · exact hfront _ he
  · exact hpart _ _ he fun k hk => by rw [beq_iff_eq.1 hk]; rfl
  · exact hfront _ he
  · exact hpart _ _ he fun k hk => by rw [beq_iff_eq.1 hk]; rfl
  · exact hpart _ _ he fun k hk => isMark_of_isMethodBody hk

omit hsub in
/-- What stands in front of a method is all that does not wait in it. -/
theorem found_before_method (hn : n.LaidOut) (hkind : n.kind.isMethod = true) :
    (n.children.filter (!p.waits n ·)).flatMap (p.found ctx n) =
      n.marks.flatMap (·.locals ctx p.plain) := by
  have hmarks : n.children.filter (!p.waits n ·) = n.marks := by
    rw [Node.marks, Node.namedChildren, List.filter_filter]
    refine List.filter_congr fun c _ => ?_
    rw [waits_of_isMethod hkind, Bool.not_not, Node.isNamed]
    cases c.kind <;> rfl
  rw [hmarks]
  refine List.flatMap_congr fun c hc => ?_
  obtain ⟨hmem, hmark⟩ := List.mem_filter.1 hc
  have hrole := role_of_mark hn hkind (List.mem_filter.1 hmem).1 hmark
  exact found_at_method hkind (by simp [hrole]) (by simp [hrole])

omit hsub in
theorem parts_wait_in_method (hkind : n.kind.isMethod = true) {role : Role}
    {test : NodeKind → Bool} (h : ∀ e ∈ n.oneAs role test, e.2 e.1 = true)
    (hother : ∀ k, test k = true → k.isMark = false) :
    ((n.oneAs role test).map Prod.fst).filter (p.waits n ·) = (n.oneAs role test).map Prod.fst := by
  refine (split_of_waits _ fun e he => ?_).2
  have htest := h e he
  obtain ⟨c, hc, rfl⟩ := List.mem_map.1 he
  rw [waits_of_isMethod hkind, hother c.kind htest]
  rfl

omit hsub in
/-- A method is walked after the annotations in front of it. -/
theorem locals_method (hn : n.LaidOut) (hkind : n.kind.isMethod = true) :
    n.locals ctx p = n.marks.flatMap (·.locals ctx p.plain) ++
      ((n.oneAs .typeParameters (· == .typeParameters)).flatMap (·.1.locals ctx p.plain) ++
        ((n.oneAs .parameters (· == .formalParameters)).flatMap (p.found ctx n ·.1) ++
          (n.oneAs .body fun k => k == .block || k == .constructorBody).flatMap
            (p.found ctx n ·.1))) := by
  have hfits := hn.arranged.fits
  have hlayout := layout_of_isMethod hkind
  rw [hlayout, List.forall_mem_append, List.forall_mem_append, List.forall_mem_append,
    List.forall_mem_append] at hfits
  obtain ⟨⟨⟨⟨hmodifiers, htypes⟩, hannotated⟩, hparameters⟩, hbody⟩ := hfits
  have hlater : ((n.layout.map Prod.fst).filter (p.waits n ·)).flatMap (p.found ctx n) =
      (n.oneAs .typeParameters (· == .typeParameters)).flatMap (·.1.locals ctx p.plain) ++
        ((n.oneAs .parameters (· == .formalParameters)).flatMap (p.found ctx n ·.1) ++
          (n.oneAs .body fun k => k == .block || k == .constructorBody).flatMap
            (p.found ctx n ·.1)) := by
    have hfront (l : List Node) (h : ∀ e ∈ l.map fun c => (c, Node.isMark), e.2 e.1 = true) :
        ((l.map fun c => (c, Node.isMark)).map Prod.fst).filter (p.waits n ·) = [] := by
      refine (split_of_not_waits _ fun e he => ?_).2
      have htest := h e he
      obtain ⟨c, hc, rfl⟩ := List.mem_map.1 he
      rw [waits_of_isMethod hkind, (Bool.and_eq_true_iff.1 htest).1]
      rfl
    simp only [hlayout, List.map_append, List.filter_append, List.flatMap_append, List.flatMap_map,
      hfront _ hmodifiers, hfront _ hannotated,
      parts_wait_in_method hkind htypes fun k hk => by rw [beq_iff_eq.1 hk]; rfl,
      parts_wait_in_method hkind hparameters fun k hk => by rw [beq_iff_eq.1 hk]; rfl,
      parts_wait_in_method hkind hbody fun k hk => isMark_of_isMethodBody hk, List.nil_append,
      List.append_assoc]
    rw [flatMap_oneAs_congr htypes (p.found ctx n) (·.locals ctx p.plain) fun c hc _ =>
      found_at_method hkind (by simp [hc]) (by simp [hc])]
  have hmute : n.kind.isMute = false ∧ n.kind.isTypeDeclaration = false := by
    rcases NodeKind.isMethod_cases hkind with hk | hk | hk <;> rw [hk] <;> exact ⟨rfl, rfl⟩
  rw [Node.locals_eq hmute.1 (by simp [hmute.2]), Around.walked, List.flatMap_append,
    found_before_method hn hkind, hn.arranged.flatMap_parts, hlater]

theorem lists_method (hn : n.Within (bound + 4)) (hkind : n.kind.isMethod = true)
    {components : Option Node} :
    Lists ctx p.host (n.locals ctx p) (method sub n components) := by
  have hfits := hn.laidOut.arranged.fits
  rw [layout_of_isMethod hkind, List.forall_mem_append, List.forall_mem_append,
    List.forall_mem_append, List.forall_mem_append] at hfits
  obtain ⟨⟨⟨⟨-, htypes⟩, -⟩, hparameters⟩, hbody⟩ := hfits
  have hinside (role : Role) (hrole : role = .parameters ∨ role = .body) {test : NodeKind → Bool}
      (h : ∀ e ∈ n.oneAs role test, e.2 e.1 = true) :=
    flatMap_oneAs_congr h (p.found ctx n) (·.locals ctx _) fun c hc _ =>
      found_in_method hkind (by rcases hrole with rfl | rfl <;> simp [hc])
  rw [locals_method hn.laidOut hkind, hinside .parameters (.inl rfl) hparameters,
    hinside .body (.inr rfl) hbody]
  refine .read (.bind (lists_annotations hsub hn) fun _ =>
    .bind (lists_typeParameters hsub hn htypes) fun params => lists_withTypeFrame ?_)
  refine .after (.discard lists_typeNode?) fun _ => ?_
  extract_lets walkInside
  have hwalkInside (u : Unit) : Lists ctx p.host _ (walkInside u) :=
    .after lists_typeNodes fun _ => lists_methodBody hsub hn hparameters hbody rfl
  cases n.child? .name with
  | none => exact hwalkInside ()
  | some name => exact .after lists_methodName hwalkInside

/-! ## Members -/

/-- The values of fields are in the initializers of the type. -/
theorem lists_fields (hn : n.Within (bound + 4))
    (hkind : n.kind = .fieldDeclaration ∨ n.kind = .constantDeclaration) {inInterface : Bool}
    (hinterface : inInterface = (ctx.index.get? p.binary).any (·.kind.isInterface)) :
    Lists ctx p.host (n.locals ctx p) (fields sub n p.binary inInterface) := by
  have hlayout : n.layout = n.marksFirst ++ n.manyAs .declarator (· == .variableDeclarator) := by
    rcases hkind with hk | hk <;> rw [Node.layout, hk]
  have hfits := hn.laidOut.arranged.fits
  rw [hlayout, List.forall_mem_append] at hfits
  obtain ⟨hmarks, hdeclarators⟩ := hfits
  obtain ⟨hfound, hparts⟩ := manyAs_cases hn hdeclarators (p.found ctx n)
  have hlocals : n.locals ctx p = n.marks.flatMap (·.locals ctx p.plain) ++
      (n.childrenIn .declarator).flatMap (p.found ctx n) := by
    rcases hkind with hk | hk <;>
      rw [hn.laidOut.arranged.locals_eq_layout (by rw [hk]; rfl) (by rw [hk]; rfl)
        fun c => by simp [Around.waits, hk], hlayout, List.flatMap_append,
        flatMap_marksFirst (by rw [hk]; rfl) hmarks, hfound]
  rw [hlocals]
  refine .bind (lists_annotations hsub hn) fun _ => .after lists_typeNode? fun type =>
    lists_withMethod (.forM fun d hd => ?_)
  obtain ⟨hrole, hwithin, htest⟩ := hparts d hd
  rw [beq_iff_eq] at htest
  let q := p.initializer (inInterface || n.hasModifier "static")
  have hinside : p.found ctx n d = d.locals ctx q := by
    subst hinterface
    rcases hkind with hk | hk <;>
      exact Node.found_of_into (by simp [Around.names, Node.mayName, hk])
        (by simp [Around.into, hk, hrole]; rfl)
  have hvalue := hwithin.laidOut.arranged.fits
  rw [Node.layout, htest, List.forall_mem_append] at hvalue
  rw [hinside, locals_variableDeclarator hwithin.laidOut htest,
    if_neg (show q.sense ≠ .locals by rintro ⟨⟩), List.append_nil]
  extract_lets walkValue
  have hwalkValue (u : Unit) : Lists ctx q.host
      ((d.oneAs .value NodeKind.isValue).flatMap (·.1.locals ctx q.plain)) (walkValue u) := by
    simp only [walkValue]
    obtain ⟨hchild, hfound⟩ | ⟨v, hchild, hfound, -, hv, hkind⟩ :=
      oneAs_cases hwithin.up hvalue.2 (·.locals ctx q.plain)
    · rw [hchild, hfound]
      exact .pure
    · rw [hchild, hfound]
      exact .after lists_dims fun _ =>
        .discard (lists_initializer_task (p := q) hsub hv hkind _)
  cases d.child? .name with
  | none => exact hwalkValue ()
  | some name => exact .after lists_text fun _ => .after lists_emitField hwalkValue

theorem lists_enumConstant (hn : n.Within (bound + 4)) (hkind : n.kind = .enumConstant) :
    Lists ctx p.host (n.locals ctx p) (enumConstant sub n p.binary) := by
  have hlayout : n.layout = n.marksFirst ++ n.oneAs .arguments (· == .argumentList) ++
      n.oneAs .body (· == .classBody) := by
    rw [Node.layout, hkind]
  have hfits := hn.laidOut.arranged.fits
  rw [hlayout, List.forall_mem_append, List.forall_mem_append] at hfits
  obtain ⟨⟨hmarks, harguments⟩, hbody⟩ := hfits
  have hnames (c : Node) : p.names n c = false := by simp [Around.names, Node.mayName, hkind]
  have hlists := flatMap_oneAs_congr harguments (p.found ctx n) (·.locals ctx (p.initializer true))
    fun c hc _ => Node.found_of_into (hnames c) (by simp [Around.into, hkind, hc])
  have hbodies := flatMap_oneAs_congr hbody (p.found ctx n)
    (fun c => ((p.anonymous ctx c).map (c.locals ctx)).getD []) fun c hc _ => by
      rw [Node.found_eq_into (hnames c)]
      simp [Around.into, hkind, hc]
  rw [hn.laidOut.arranged.locals_eq_layout (by rw [hkind]; rfl) (by rw [hkind]; rfl)
    fun c => by simp [Around.waits, hkind], hlayout, List.flatMap_append, List.flatMap_append,
    flatMap_marksFirst (by rw [hkind]; rfl) hmarks, hlists, hbodies, List.append_assoc]
  refine .bind (lists_annotations hsub hn) fun _ => ?_
  extract_lets walkParts
  have hwalkParts (u : Unit) : Lists ctx p.host
      ((n.oneAs .arguments (· == .argumentList)).flatMap (·.1.locals ctx (p.initializer true)) ++
        (n.oneAs .body (· == .classBody)).flatMap
          fun e => ((p.anonymous ctx e.1).map (e.1.locals ctx)).getD []) (walkParts u) := by
    refine .bind (lists_withMethod (.discard ?_)) fun _ => ?_
    · exact lists_arguments (q := p.initializer true) hsub (by rintro ⟨⟩) hn harguments
    · obtain ⟨hchild, hfound⟩ | ⟨body, hchild, hfound, -, hwithin, htest⟩ :=
        oneAs_cases hn hbody fun c => ((p.anonymous ctx c).map (c.locals ctx)).getD []
      · rw [hchild, hfound]
        exact .pure
      · rw [hchild, hfound]
        exact .discard (lists_anonymousBody hsub hwithin (beq_iff_eq.1 htest))
  cases n.child? .name with
  | none => exact hwalkParts ()
  | some name => exact .after lists_text fun _ => .after lists_emitField hwalkParts

omit hsub in
/-- An annotation that an element has by default is walked as what stands in front of it too. -/
theorem marks_of_annotationElement (hn : n.LaidOut) (hkind : n.kind = .annotationElement) :
    n.marks.flatMap (·.locals ctx p) =
      (n.namedChildren.filter (·.kind == .modifiers)).flatMap (·.locals ctx p) := by
  rw [Node.marks, Node.flatMap_filter, Node.flatMap_filter]
  refine List.flatMap_congr fun c hc => ?_
  rw [NodeKind.isMark]
  cases hmodifiers : c.kind == .modifiers with
  | true => rfl
  | false =>
    cases hannotated : c.kind.isAnnotated with
    | false => rfl
    | true =>
      have hmute : c.kind.isMute = false := by
        rcases NodeKind.isAnnotated_cases hannotated with hk | hk <;> rw [hk] <;> rfl
      have hmatters : n.matters c = true := by rw [Node.matters, hmute]; rfl
      have hpart := List.mem_filter.2 ⟨(List.mem_filter.1 hc).1, hmatters⟩
      rw [hn.arranged.parts] at hpart
      obtain ⟨e, he, rfl⟩ := List.mem_map.1 (List.mem_filter.1 hpart).1
      have htest := hn.arranged.fits e he
      rw [Node.layout, hkind, List.mem_append] at he
      rcases he with he | he <;> obtain ⟨d, hd, rfl⟩ := List.mem_map.1 he
      · rw [(List.mem_filter.1 hd).2] at hmodifiers
        cases hmodifiers
      · have hnames : d.holdsNames = false := by
          simpa [Node.isDefault, hannotated] using (Bool.and_eq_true_iff.1 htest).2
        exact Node.locals_of_not_holdsNames hnames

theorem lists_annotationElement (hn : n.Within (bound + 4)) (hkind : n.kind = .annotationElement)
    {binary : String} :
    Lists ctx p.host (n.locals ctx p) (annotationElement sub n binary) := by
  have hfits := hn.laidOut.arranged.fits
  have hfound : p.found ctx n = (·.locals ctx p.plain) := funext fun c => by
    exact Node.found_of_isPlain (by rw [hkind]; rfl)
  rw [Node.layout, hkind, List.forall_mem_append] at hfits
  rw [hn.laidOut.arranged.locals_eq_layout (by rw [hkind]; rfl) (by rw [hkind]; rfl)
    fun c => by simp [Around.waits, hkind], Node.layout, hkind, List.flatMap_append, hfound,
    List.flatMap_map, List.flatMap_map, ← marks_of_annotationElement hn.laidOut hkind]
  refine .bind (lists_annotations hsub hn) fun _ => .after lists_typeNode? fun type => ?_
  extract_lets walkValue
  have hwalkValue (u : Unit) : Lists ctx p.host
      ((n.child? .value).toList.flatMap (·.locals ctx p.plain)) (walkValue u) := by
    simp only [walkValue]
    cases hv : n.child? .value with
    | none => exact .pure
    | some v =>
      have hvalue : v.kind.isValue = true :=
        (Bool.and_eq_true_iff.1 (hfits.2 (v, Node.isDefault) (by simp [hv]))).1
      rw [Option.toList_some, List.flatMap_singleton]
      exact lists_elementValue_task hsub (hn.child (List.mem_of_find?_eq_some hv)) hvalue
  cases n.child? .name with
  | none => exact hwalkValue ()
  | some name =>
    refine .after lists_text fun element => .read ?_
    dsimp only
    split
    · exact .after lists_emitMethod hwalkValue
    · split
      · exact .after lists_unresolved hwalkValue
      · exact hwalkValue ()

omit hsub in
theorem body_cases {k : NodeKind} (h : k.holdsMembers = true ∨ k = .enumBody) :
    k = .classBody ∨ k = .interfaceBody ∨ k = .enumBodyDeclarations ∨ k = .annotationTypeBody ∨
      k = .enumBody := by
  rcases h with h | rfl
  · rcases NodeKind.holdsMembers_cases h with rfl | rfl | rfl | rfl <;> simp
  · simp

omit hsub in
/-- Members are around nothing but the type that they belong to, except for instance
initializers. -/
theorem found_in_body (hkind : n.kind.holdsMembers = true ∨ n.kind = .enumBody) :
    p.found ctx n c = c.locals ctx (if c.kind == .block then p.initializer false else p.plain) := by
  rcases body_cases hkind with hk | hk | hk | hk | hk <;>
    exact Node.found_of_into (by simp [Around.names, Node.mayName, hk])
      (by simp only [Around.into, hk, apply_ite some])

theorem lists_initializerBlock {isStatic : Bool} (hc : c.Within bound) (hkind : c.kind = .block) :
    Lists ctx p.host (c.locals ctx (p.initializer isStatic))
      (initializerBlock sub (some c) p.binary isStatic) :=
  lists_withMethod (lists_statement_task hsub (p.initializer isStatic) hc (by rw [hkind]; rfl))

theorem lists_staticInitializer (hn : n.Within (bound + 4)) (hkind : n.kind = .staticInitializer) :
    Lists ctx p.host (n.locals ctx p)
      (initializerBlock sub (n.childOfKind? .block) p.binary true) := by
  have hlayout : n.layout = Node.slots (n.childOfKind? .block).toList fun _ => true := by
    rw [Node.layout, hkind]
  have hfound : p.found ctx n = (·.locals ctx (p.initializer true)) := funext fun c =>
    Node.found_of_into (by simp [Around.names, Node.mayName, hkind]) (by simp [Around.into, hkind])
  rw [hn.laidOut.arranged.locals_eq_layout (by rw [hkind]; rfl) (by rw [hkind]; rfl)
    fun c => by simp [Around.waits, hkind], hlayout, flatMap_slots _ _ (p.found ctx n), hfound]
  cases hblock : n.childOfKind? .block with
  | none => exact lists_withMethod .pure
  | some c =>
    have hc : c.kind = .block := by simpa using List.find?_some hblock
    rw [Option.toList_some, List.flatMap_singleton]
    exact lists_initializerBlock hsub
      (hn.child (List.mem_filter.1 (List.mem_of_find?_eq_some hblock)).1) hc

theorem lists_member (hn : n.Within bound) (hkind : n.kind.isMember = true) {inInterface : Bool}
    (hinterface : inInterface = (ctx.index.get? p.binary).any (·.kind.isInterface))
    {components : Option Node} :
    Lists ctx p.host
      (n.locals ctx (if n.kind == .block then p.initializer false else p.plain))
      (member sub p.binary inInterface components n) := by
  by_cases hblock : n.kind = .block
  · rw [hblock, if_pos (beq_self_eq_true _), member, hblock]
    exact lists_initializerBlock hsub hn hblock
  · rw [if_neg (by simpa using hblock)]
    unfold member
    split
    · exact lists_fields (p := p.plain) hsub hn.up (.inl ‹_›) hinterface
    · exact lists_fields (p := p.plain) hsub hn.up (.inr ‹_›) hinterface
    · exact lists_method (p := p.plain) hsub hn.up (by rw [‹n.kind = _›]; rfl)
    · exact lists_method (p := p.plain) hsub hn.up (by rw [‹n.kind = _›]; rfl)
    · exact lists_method (p := p.plain) hsub hn.up (by rw [‹n.kind = _›]; rfl)
    · exact lists_staticInitializer (p := p.plain) hsub hn.up ‹_›
    · contradiction
    · exact lists_enumConstant (p := p.plain) hsub hn.up ‹_›
    · exact .discard (hsub.inner (.classBody n p.binary none) hn p.plain
        ⟨Bool.or_eq_true_iff.2 (.inl (by rw [‹n.kind = _›]; rfl)), rfl⟩)
    · exact lists_annotationElement (p := p.plain) hsub hn.up ‹_›
    · split
      · rename_i htype
        exact .discard (hsub.inner (.typeDeclaration n false) hn p.plain htype)
      · rename_i htype
        have hcomment : n.kind.isComment = true := by
          generalize n.kind = k at *
          unfold NodeKind.isMember at hkind
          split at hkind <;> try contradiction
          simp only [Bool.or_eq_true, htype, or_false, Bool.false_eq_true] at hkind
          refine hkind.resolve_left fun hmethod => ?_
          rcases NodeKind.isMethod_cases hmethod with rfl | rfl | rfl <;> contradiction
        rw [(of_isComment ctx p.plain hn.laidOut hcomment).1]
        exact .pure

theorem lists_classBody (hn : n.Within (bound + 4))
    (hkind : n.kind.holdsMembers = true ∨ n.kind = .enumBody) {components : Option Node} :
    Lists ctx p.host (n.locals ctx p) (classBody sub n p.binary components) := by
  have hlayout : n.layout = n.all NodeKind.isMember ∧ n.kind.isMute = false ∧
      n.kind.isTypeDeclaration = false ∧ ∀ c, p.waits n c = false := by
    rcases body_cases hkind with hk | hk | hk | hk | hk <;>
      exact ⟨by rw [Node.layout, hk], by rw [hk]; rfl, by rw [hk]; rfl,
        fun c => by simp only [Around.waits, hk]⟩
  obtain ⟨hlayout, hmute, htype, hwaits⟩ := hlayout
  have hfits := hn.laidOut.arranged.fits
  rw [hlayout, Node.all, forall_mem_slots] at hfits
  rw [hn.laidOut.arranged.locals_eq_layout hmute htype hwaits, hlayout, Node.all,
    flatMap_slots _ _ (p.found ctx n)]
  refine .read (.forM fun c hc => ?_)
  rw [found_in_body hkind]
  exact lists_member hsub (hn.child (List.mem_filter.1 hc).1) (hfits c hc) rfl

/-! ## Types -/

theorem lists_recordComponent (hc : c.Within bound)
    (hkind : (c.kind.isParameter || c.kind.isComment) = true) {binary : String} :
    Lists ctx p.host (c.locals ctx p.plain) (recordComponent sub binary c) := by
  rw [locals_parameter hc.laidOut hkind (show Sense.plain ≠ .locals by decide)]
  refine .before (lists_annotations hsub hc.up) fun _ => .after lists_typeNode? fun type => ?_
  cases c.child? .name with
  | none => exact .pure
  | some name => exact .after lists_text fun field => lists_emitWith (by decide)

/-- The components of a record are walked before its body. -/
theorem lists_components (hn : n.Within (bound + 4))
    (h : ∀ e ∈ n.componentList, e.2 e.1 = true) {binary : String} :
    Lists ctx p.host (n.componentList.flatMap (p.found ctx n ·.1))
      ((((if n.kind == .recordDeclaration then n.child? .parameters else none).map
        Node.namedChildren).getD []).forM (recordComponent sub binary)) := by
  rw [Node.componentList] at h ⊢
  split
  · rename_i hkind
    rw [if_pos hkind] at h
    rw [beq_iff_eq] at hkind
    rw [flatMap_oneAs_congr h (p.found ctx n) (·.locals ctx (p.as .components)) fun c hc _ =>
      Node.found_of_into (by simp [Around.names, Node.mayName, hkind])
        (by simp [Around.into, hkind, hc])]
    obtain ⟨hchild, hfound⟩ | ⟨list, hchild, hfound, -, hlist, htest⟩ :=
      oneAs_cases hn h (·.locals ctx (p.as .components))
    · rw [hchild, hfound]
      exact .pure
    · rw [hchild, hfound]
      rw [beq_iff_eq] at htest
      have hlayout : list.layout = list.all fun k => k.isParameter || k.isComment := by
        rw [Node.layout, htest]
      have hinside : (p.as .components).found ctx list = (·.locals ctx p.plain) :=
        funext fun c => Node.found_of_into (by simp [Around.names, Node.mayName, htest])
          (by simp [Around.into, htest, Around.as, Around.plain])
      have hfits := hlist.laidOut.arranged.fits
      rw [hlayout, Node.all, forall_mem_slots] at hfits
      rw [hlist.laidOut.arranged.locals_eq_layout (by rw [htest]; rfl) (by rw [htest]; rfl)
        fun c => by simp [Around.waits, htest], hlayout, Node.all,
        flatMap_slots _ _ ((p.as .components).found ctx list), hinside]
      exact .forM fun c hc =>
        lists_recordComponent hsub (hlist.inner (List.mem_filter.1 hc).1) (hfits c hc)
  · exact .pure

theorem lists_typeBody (hn : n.Within (bound + 4)) {binary : String}
    (hcomponents : ∀ e ∈ n.componentList, e.2 e.1 = true)
    (hbody : ∀ e ∈ n.oneAs .body fun k => k.holdsMembers || k == .enumBody, e.2 e.1 = true) :
    Lists ctx p.host (n.componentList.flatMap (p.found ctx n ·.1) ++
      (n.oneAs .body fun k => k.holdsMembers || k == .enumBody).flatMap
        (·.1.locals ctx (p.inType binary))) (typeBody sub n binary) := by
  refine lists_withClass (.bind (lists_components hsub hn hcomponents) fun _ => ?_)
  obtain ⟨hchild, hfound⟩ | ⟨body, hchild, hfound, -, hwithin, htest⟩ :=
    oneAs_cases hn hbody (·.locals ctx (p.inType binary))
  · rw [hchild, hfound]
    exact .pure
  · rw [hchild, hfound]
    exact .discard (hsub.inner (.classBody body binary _) hwithin (p.inType binary) ⟨htest, rfl⟩)

omit hsub in
theorem of_isTypeDeclaration (ctx : BindingContext) (p : Around)
    (hkind : n.kind.isTypeDeclaration = true) :
    n.layout = n.marksFirst ++ n.oneAs .typeParameters (· == .typeParameters) ++ n.componentList ++
      n.oneAs .body (fun k => k.holdsMembers || k == .enumBody) ∧
    n.kind.isMute = false ∧ n.kind.isMarked = true ∧
    (∀ c, p.waits n c = false) ∧ (∀ c, p.names n c = false) ∧
    (∀ c, c.role = some .typeParameters → p.into ctx n c = some p.plain) ∧
    ∀ c, c.role = some .body →
      p.into ctx n c = (ctx.unit.types.get? n.start).map p.inType := by
  rcases NodeKind.isTypeDeclaration_cases hkind with hk | hk | hk | hk | hk <;>
    exact ⟨by rw [Node.layout, hk], by rw [hk]; rfl, by rw [hk]; rfl,
      fun c => by simp only [Around.waits, hk],
      fun c => by simp only [Around.names, Node.mayName, hk, Bool.false_and],
      fun c hc => by simp [Around.into, hk, hc], fun c hc => by simp [Around.into, hk, hc]⟩

theorem lists_typeDeclaration (hn : n.Within (bound + 4))
    (hkind : n.kind.isTypeDeclaration = true) {inBlock : Bool} :
    Lists ctx p.host (n.locals ctx p) (typeDeclaration sub n inBlock) := by
  refine .read ?_
  cases hbinary : ctx.unit.types.get? n.start with
  | none =>
    rw [Node.locals_of_unregistered hkind hbinary]
    exact .pure
  | some binary =>
    obtain ⟨hlayout, hmute, hmarked, hwaits, hnames, hparameters, hinside⟩ :=
      of_isTypeDeclaration ctx p hkind
    have hfits := hn.laidOut.arranged.fits
    rw [hlayout, List.forall_mem_append, List.forall_mem_append, List.forall_mem_append] at hfits
    obtain ⟨⟨⟨hmarks, htypes⟩, hcomponents⟩, hbody⟩ := hfits
    rw [hn.laidOut.arranged.locals_eq hmute fun _ => by simp [hbinary],
      Node.walked_of_not_waits hwaits, List.flatMap_map, hlayout, List.flatMap_append,
      List.flatMap_append, List.flatMap_append, flatMap_marksFirst hmarked hmarks,
      flatMap_oneAs_congr htypes (p.found ctx n) (·.locals ctx p.plain) fun c hc _ =>
        Node.found_of_into (hnames c) (hparameters c hc),
      flatMap_oneAs_congr hbody (p.found ctx n) (·.locals ctx (p.inType binary)) fun c hc _ =>
        Node.found_of_into (hnames c) (by rw [hinside c hc, hbinary]; rfl),
      List.append_assoc, List.append_assoc]
    refine .bind (lists_annotations hsub hn) fun _ => ?_
    extract_lets walkRest
    have hwalkRest (u : Unit) : Lists ctx p.host _ (walkRest u) :=
      .bind (lists_typeParameters hsub hn htypes) fun params => lists_withTypeFrame <|
        .after (.forM_nil fun _ _ => lists_typeNodes) fun _ =>
          lists_typeBody hsub hn hcomponents hbody
    cases n.child? .name with
    | none => exact hwalkRest ()
    | some name =>
      dsimp only
      split
      · refine .after lists_text fun simple => .after (.modify fun s hs => ?_) fun _ =>
          .after lists_emitType hwalkRest
        exact .nothing (hs.of_eq rfl rfl rfl) rfl rfl
      · exact .after lists_emitType hwalkRest

end Renaming.Java.Binding
