import Renaming.Java.Binding
import Renaming.Proofs.Java.Binding.Statements

/-!
# Walks over declarations and units

Annotations, members, types and imports are walked as the expressions and statements inside them
are. The steps keep what each of them keeps however deep they nest. Hence all that a walk over a
unit reports is found in the sense of any survey that covers the unit.
-/

namespace Renaming.Java

namespace Binding

variable {S : Survey} [S.Covers]

section Inside

variable {sub : Task → Binding Meaning}
  (hsub : ∀ task, task.In S → Walks S (task.Answers S) (sub task))
include hsub

/-! ## Annotations -/

theorem walks_elementValue {n : Node} (hn : S.T n) : Walks S Any (elementValue sub n) := by
  unfold elementValue
  split
  · exact .discard (hsub _ hn)
  · split
    · exact .forM fun c hc => .discard (hsub _ (Descends.named hn c hc))
    · exact .discard (walks_expression hsub hn)

omit [S.Covers] in
theorem walks_elementValue? {n : Option Node} (h : ∀ c ∈ n, S.T c) :
    Walks S Any (elementValue? sub n) := by
  cases n with
  | none => exact .done
  | some n => exact .discard (hsub _ (h n rfl))

omit hsub in
theorem walks_elementKey {binary : String} {key : Node} (hkey : S.T key)
    (hkind : S.orderly → key.kind.isName = true) : Walks S Any (elementKey binary key) := by
  refine .bind walks_text fun name hname => .bind .read fun ctx hctx => ?_
  subst hname hctx
  dsimp only
  split
  · rename_i hfound
    exact walks_emitFound hkey hkind (List.mem_of_find?_eq_some hfound)
  · exact walks_unresolved

theorem walks_elementArgument {binary : Option String} {n : Node} (hn : S.T n) :
    Walks S Any (elementArgument sub binary n) := by
  unfold elementArgument
  split
  · refine walks_elementValue? hsub fun c hc => ?_
    cases hc
    cases hvalue : n.child? .value with
    | none => exact hn
    | some value => exact Descends.child hn _ value hvalue
  · split
    · extract_lets value
      have hvalue : ∀ u, Walks S Any (value u) :=
        fun _ => walks_elementValue? hsub (Descends.child hn _)
      split
      · rename_i key hkey
        have hkey' : S.T key := Descends.child hn _ key hkey
        have hkind (ho : S.orderly) : key.kind = .identifier :=
          (Survey.Covers.sound ho hkey').fits_role ((Survey.Covers.sound ho hn).child_spec hkey).2
        exact .bind (walks_elementKey hkey' fun ho => by rw [hkind ho]; rfl) fun u _ => hvalue u
      · exact hvalue ()
    · refine walks_elementValue? hsub fun c hc => ?_
      cases hc
      exact hn

theorem walks_annotated {n : Node} (hn : S.T n) : Walks S Any (annotated sub n) := by
  unfold annotated
  split
  · exact .done
  · rename_i name hname
    have harguments := Descends.grandchildren (Descends.child hn .arguments)
    refine .bind (walks_nameAsType (Descends.child hn _ name hname)) fun binary _ => ?_
    extract_lets arguments
    have hrest : ∀ u, Walks S Any (arguments u) :=
      fun _ => .forM fun c hc => walks_elementArgument hsub (harguments c hc)
    split
    · exact .bind walks_text fun _ _ => .bind walks_unresolved fun u _ => hrest u
    · exact hrest ()

theorem walks_typeParameters {n : Node} (hn : S.T n) : Walks S Any (typeParameters sub n) := by
  have hparams := Descends.grandchildren (Descends.child hn .typeParameters)
  refine .bind (walks_naming fun _ hctx =>
    TypeContext.mentions_parametersOf (fun ho => Survey.Covers.sound ho) hctx hn) fun _ _ => ?_
  exact .bind (.forM fun c hc => walks_annotations hsub (hparams c hc)) fun _ _ => .done

/-! ## Methods -/

omit hsub in
theorem parameterParts?_in {n : Node} (hn : S.T n) {parts : Option Node × Option Node}
    (h : parameterParts? n = some parts) : (∀ c ∈ parts.1, S.T c) ∧ ∀ c ∈ parts.2, S.T c := by
  unfold parameterParts? at h
  split at h
  · cases h
    exact ⟨Descends.child hn _, Descends.child hn _⟩
  · cases h
    refine ⟨fun c hc => ?_, fun c hc => Descends.named hn c (List.mem_of_find?_eq_some hc)⟩
    obtain ⟨d, hd, hname⟩ := Option.bind_eq_some_iff.1 hc
    exact Descends.child (Descends.ofKind hn _ d hd) _ c hname
  · cases h

theorem walks_parameters {n : Node} {method : Option Signature} {known : List GenericType}
    (hn : S.T n) (hmethod : S.orderly → ∀ s ∈ method,
      ∀ i < (n.namedChildren.filterMap parameterParts?).length, S.Parameter (.ofParameter s i)) :
    Walks S Any (parameters sub n method known) := by
  unfold parameters
  dsimp only
  refine .forM fun e he => ?_
  have hi := List.snd_lt_of_mem_zipIdx he
  simp only [List.length_filterMap_eq_countP, Option.isSome_map] at hi hmethod
  obtain ⟨p, hp, hparts⟩ := List.mem_filterMap.1 (List.fst_mem_of_mem_zipIdx he)
  obtain ⟨parts, hparts, heq⟩ := Option.map_eq_some_iff.1 hparts
  obtain ⟨⟨q, name, type⟩, i⟩ := e
  cases heq
  have hp' : S.T p := Descends.named hn p hp
  obtain ⟨hname, htype⟩ := parameterParts?_in hp' hparts
  have hsignature : ∀ s ∈ method.map (Signature.ofParameter · i), S.orderly → S.Parameter s := by
    intro s hs ho
    obtain ⟨m, hm, rfl⟩ := Option.map_eq_some_iff.1 hs
    exact hmethod ho m hm i hi
  dsimp only
  refine .bind (walks_annotations hsub hp') fun _ _ => .bind (walks_typeNode? htype) fun _ _ => ?_
  cases name with
  | none => exact .done
  | some name =>
    dsimp only
    split
    · rename_i s hs
      have hfinding := Survey.Finding.parameter (hname name rfl) (hsignature s hs)
      exact .bind (walks_emitWith hfinding) fun _ _ =>
        .bind walks_text fun _ _ => walks_bind hsignature rfl
    · exact .bind walks_text fun _ _ => walks_bind hsignature rfl

omit hsub [S.Covers] in
theorem walks_implicitParameters {components : Option Node} {method : Option Signature}
    {known : List GenericType} (hmethod : S.orderly → ∀ s ∈ method,
      ∀ i < (Survey.componentNames components).length, S.Parameter (.ofParameter s i)) :
    Walks S Any (implicitParameters components method known) := by
  refine .forM fun e he => .bind walks_text fun _ _ => walks_bind (fun s hs ho => ?_) rfl
  obtain ⟨m, hm, rfl⟩ := Option.map_eq_some_iff.1 hs
  exact hmethod ho m hm e.2 (List.snd_lt_of_mem_zipIdx he)

omit hsub in
theorem walks_methodName {n name : Node} (hn : S.T n)
    (hkind : n.kind = .methodDeclaration ∨ n.kind = .constructorDeclaration ∨
      n.kind = .compactConstructor) (hname : n.child? .name = some name) :
    Walks S Any (methodName n name (S.ctx.unit.methods.get? n.start)) := by
  have hname' : S.T name := Descends.child hn _ name hname
  unfold methodName
  split
  · rename_i owner m hdeclares
    split
    · exact walks_emitType hname' (Survey.Covers.owner hdeclares)
    · rename_i hmethod
      have hnamed (ho : S.orderly) : n.kind = .methodDeclaration :=
        hkind.resolve_right fun hkind =>
          hmethod (Survey.Covers.constructed ho hn hkind hdeclares)
      have hword (ho : S.orderly) :=
        (Survey.Covers.sound ho hn).isName_child (by rw [hnamed ho]; rfl) hname
      exact walks_emitMethod hname' hword (Survey.Covers.declared hdeclares) fun ho =>
        Survey.Covers.named ho hn (hnamed ho) hdeclares hname
  · extract_lets report
    have hreport : ∀ u, Walks S Any (report u) := fun _ =>
      .bind walks_currentClass? fun _ _ => .bind walks_text fun _ _ => walks_unresolved
    split
    · exact .bind (.discard (walks_nameAsType hname')) fun u _ => hreport u
    · exact hreport ()

theorem walks_methodBody {n : Node} {components : Option Node} (hn : S.T n)
    (hkind : n.kind = .methodDeclaration ∨ n.kind = .constructorDeclaration ∨
      n.kind = .compactConstructor)
    (himplicit : S.orderly → n.kind = .compactConstructor → ∀ owner m, S.Declares n owner m →
      (Survey.componentNames components).length ≤ m.descriptor.params.length) :
    Walks S Any (methodBody sub n components (S.ctx.unit.methods.get? n.start)) := by
  have hsignature : ∀ s ∈ (S.ctx.unit.methods.get? n.start).map fun d => d.2.signature d.1,
      ∃ owner m, S.Declares n owner m ∧ s = m.signature owner := by
    intro s hs
    obtain ⟨⟨owner, m⟩, hdeclares, rfl⟩ := Option.map_eq_some_iff.1 hs
    exact ⟨owner, m, hdeclares, rfl⟩
  have hparameter {owner : String} {m : MethodDeclaration} {count : Nat}
      (hdeclares : S.Declares n owner m) (hcount : count ≤ m.descriptor.params.length) :
      ∀ i < count, S.Parameter (.ofParameter (m.signature owner) i) := fun i hi =>
    ⟨owner, m, i, Survey.Covers.declared hdeclares, by omega, rfl⟩
  refine walks_withMethod (fun s hs => ?_) (walks_withBlock ?_)
  · obtain ⟨owner, m, hdeclares, rfl⟩ := hsignature s hs
    exact .inl ⟨owner, m, Survey.Covers.declared hdeclares, rfl⟩
  · extract_lets body rest
    have hbody : ∀ u, Walks S Any (body u) := fun _ => walks_statement? hsub (Descends.child hn _)
    have hrest : ∀ u, Walks S Any (rest u) := by
      intro u
      simp only [rest]
      split
      · rename_i hcompact
        refine .bind (walks_implicitParameters fun ho s hs => ?_) fun u _ => hbody u
        obtain ⟨owner, m, hdeclares, rfl⟩ := hsignature s hs
        exact hparameter hdeclares (himplicit ho (by simpa using hcompact) owner m hdeclares)
      · exact hbody ()
    split
    · rename_i params hparams
      refine .bind (walks_parameters hsub (Descends.child hn _ params hparams) fun ho s hs => ?_)
        fun u _ => hrest u
      obtain ⟨owner, m, hdeclares, rfl⟩ := hsignature s hs
      refine hparameter hdeclares ?_
      rcases or_assoc.2 hkind with hkind | hkind
      · exact Survey.Covers.listed ho hn hkind hdeclares hparams
      · obtain ⟨hmem, hrole⟩ := (Survey.Covers.sound ho hn).child_spec hparams
        have hunlisted := (Survey.Covers.sound ho hn).shape.unlisted hkind
        exact absurd hrole (hunlisted params.part (List.mem_map_of_mem hmem))
    · exact hrest ()

theorem walks_method {n : Node} {components : Option Node} (hn : S.T n)
    (hkind : n.kind = .methodDeclaration ∨ n.kind = .constructorDeclaration ∨
      n.kind = .compactConstructor)
    (himplicit : S.orderly → n.kind = .compactConstructor → ∀ owner m, S.Declares n owner m →
      (Survey.componentNames components).length ≤ m.descriptor.params.length) :
    Walks S Any (method sub n components) := by
  have hthrows := Descends.grandchildren (Descends.ofKind hn .throwsClause)
  have htype : ∀ c ∈ (n.child? .type).filter (·.kind != .voidType), S.T c :=
    fun c hc => Descends.child hn _ c (Option.mem_filter_iff.1 hc).1
  refine .bind .read fun ctx hctx => .bind (walks_annotations hsub hn) fun _ _ => ?_
  subst hctx
  refine .bind (walks_typeParameters hsub hn) fun params _ => walks_withTypeFrame trivial ?_
  refine .bind (.discard (walks_typeNode? htype)) fun _ _ => ?_
  extract_lets rest
  have hrest : ∀ u, Walks S Any (rest u) := fun _ =>
    .bind (walks_typeNodes hthrows) fun _ _ => walks_methodBody hsub hn hkind himplicit
  split
  · rename_i name hname
    exact .bind (walks_methodName hn hkind hname) fun u _ => hrest u
  · exact hrest ()

/-! ## Members -/

omit hsub in
theorem host_initializer {body : Node} {components : Option Node} {binary : String}
    {isStatic : Bool} (hbody : S.Body binary components body) :
    ∀ s ∈ some (initializerSignature binary isStatic), S.Host s := by
  rintro s ⟨⟩
  exact .inr ⟨binary, isStatic, hbody.type, rfl⟩

theorem walks_fields {body n : Node} {binary : String} {components : Option Node}
    {inInterface : Bool} (hbody : S.Body binary components body) (hmem : n ∈ body.namedChildren)
    (hkind : n.kind = .fieldDeclaration ∨ n.kind = .constantDeclaration) :
    Walks S Any (fields sub n binary inInterface) := by
  have hn : S.T n := Descends.named hbody.in n hmem
  refine .bind (walks_annotations hsub hn) fun _ _ => ?_
  refine .bind (walks_typeNode? (Descends.child hn _)) fun type _ => ?_
  refine walks_withMethod (host_initializer hbody) (.forM fun d hd => ?_)
  have hd' : S.T d := Descends.inRole hn _ d hd
  extract_lets value
  have hvalue : ∀ u, Walks S Any (value u) := by
    intro u
    simp only [value]
    split
    · rename_i v hv
      exact .bind walks_dims fun _ _ => .discard (hsub _ (Descends.child hd' _ v hv))
    · exact .done
  split
  · rename_i name hname
    have hword (ho : S.orderly) := (Survey.Covers.sound ho hd').isName_child
      (by rw [(Survey.Covers.sound ho hn).kind_declarator hd]; rfl) hname
    have hfield := Survey.Covers.value hbody hmem hkind hd hname
    refine .bind walks_text fun _ htext => ?_
    subst htext
    exact .bind (walks_emitField (Descends.child hd' _ name hname) hword rfl hfield)
      fun u _ => hvalue u
  · exact hvalue ()

theorem walks_enumConstant {body n : Node} {binary : String} {components : Option Node}
    (hbody : S.Body binary components body) (hmem : n ∈ body.namedChildren)
    (hkind : n.kind = .enumConstant) : Walks S Any (enumConstant sub n binary) := by
  have hn : S.T n := Descends.named hbody.in n hmem
  refine .bind (walks_annotations hsub hn) fun _ _ => ?_
  extract_lets rest
  have hrest : ∀ u, Walks S Any (rest u) := by
    intro u
    refine .bind (walks_withMethod (host_initializer hbody)
      (.discard (walks_arguments hsub (Descends.child hn _)))) fun _ _ => ?_
    split
    · rename_i inner hinner
      have hbodied (ho : S.orderly) : inner.kind = .classBody := by
        obtain ⟨hpart, hrole⟩ := (Survey.Covers.sound ho hn).child_spec hinner
        exact (Survey.Covers.sound ho hn).shape.bodied (.inr hkind) inner.part
          (List.mem_map_of_mem hpart) hrole
      exact .discard (walks_anonymousBody hsub (Descends.child hn _ inner hinner) hbodied)
    · exact .done
  split
  · rename_i name hname
    have hword (ho : S.orderly) :=
      (Survey.Covers.sound ho hn).isName_child (by rw [hkind]; rfl) hname
    have hfield := Survey.Covers.constant hbody hmem hkind hname
    refine .bind walks_text fun _ htext => ?_
    subst htext
    exact .bind (walks_emitField (Descends.child hn _ name hname) hword rfl hfield)
      fun u _ => hrest u
  · exact hrest ()

theorem walks_annotationElement {n : Node} {binary : String} (hn : S.T n)
    (hkind : n.kind = .annotationElement) : Walks S Any (annotationElement sub n binary) := by
  refine .bind (walks_annotations hsub hn) fun _ _ => ?_
  refine .bind (walks_typeNode? (Descends.child hn _)) fun type _ => ?_
  extract_lets value
  have hvalue : ∀ u, Walks S Any (value u) :=
    fun _ => walks_elementValue? hsub (Descends.child hn _)
  split
  · exact hvalue ()
  · rename_i name hname
    refine .bind walks_text fun element helement => .bind .read fun ctx hctx => ?_
    subst helement hctx
    dsimp only
    split
    · rename_i m hfound
      obtain ⟨d, hd, hm⟩ := Option.bind_eq_some_iff.1 hfound
      have hword (ho : S.orderly) :=
        (Survey.Covers.sound ho hn).isName_child (by rw [hkind]; rfl) hname
      have hmethod : S.method binary m := Survey.Covers.method hd (List.mem_of_find?_eq_some hm)
      have htext : m.name = S.text name := by simpa using List.find?_some hm
      exact .bind (walks_emitMethod (Descends.child hn _ name hname) hword hmethod
        fun _ => htext)
        fun u _ => hvalue u
    · split
      · exact .bind walks_unresolved fun u _ => hvalue u
      · exact hvalue ()

theorem walks_initializerBlock {body : Node} {block components : Option Node} {binary : String}
    {isStatic : Bool} (hbody : S.Body binary components body) (h : ∀ c ∈ block, S.T c) :
    Walks S Any (initializerBlock sub block binary isStatic) :=
  walks_withMethod (host_initializer hbody) (walks_statement? hsub h)

theorem walks_member {body n : Node} {binary : String} {inInterface : Bool}
    {components : Option Node} (hbody : S.Body binary components body)
    (hmem : n ∈ body.namedChildren) :
    Walks S Any (member sub binary inInterface components n) := by
  have hn : S.T n := Descends.named hbody.in n hmem
  have himplicit (ho : S.orderly) (hkind : n.kind = .compactConstructor) (owner : String)
      (m : MethodDeclaration) : S.Declares n owner m →
        (Survey.componentNames components).length ≤ m.descriptor.params.length :=
    Survey.Covers.implicit ho hbody hmem hkind
  unfold member
  split
  · exact walks_fields hsub hbody hmem (.inl ‹_›)
  · exact walks_fields hsub hbody hmem (.inr ‹_›)
  · exact walks_method hsub hn (.inl ‹_›) himplicit
  · exact walks_method hsub hn (.inr (.inl ‹_›)) himplicit
  · exact walks_method hsub hn (.inr (.inr ‹_›)) himplicit
  · exact walks_initializerBlock hsub hbody (Descends.ofKind hn _)
  · refine walks_initializerBlock hsub hbody fun c hc => ?_
    cases hc
    exact hn
  · exact walks_enumConstant hsub hbody hmem ‹_›
  · rename_i hkind
    have hlater : S.Body binary none n := .later hbody hmem hkind
    exact .discard (hsub _ hlater)
  · exact walks_annotationElement hsub hn ‹_›
  · split
    · rename_i hkind
      exact .discard (hsub _ ⟨hn, hkind⟩)
    · exact .done

theorem walks_classBody {n : Node} {binary : String} {components : Option Node}
    (hn : S.Body binary components n) : Walks S Any (classBody sub n binary components) :=
  .bind .read fun _ _ => .forM fun _ hc => walks_member hsub hn hc

theorem walks_recordComponent {n : Node} {binary : String} (hn : S.T n)
    (hname : ∀ name, n.child? .name = some name →
      (S.orderly → name.kind.isName = true) ∧ S.field binary (S.text name)) :
    Walks S Any (recordComponent sub binary n) := by
  refine .bind (walks_annotations hsub hn) fun _ _ => ?_
  refine .bind (walks_typeNode? (Descends.child hn _)) fun type _ => ?_
  split
  · exact .done
  · rename_i name hchild
    obtain ⟨hword, hfield⟩ := hname name hchild
    refine .bind walks_text fun _ htext => ?_
    subst htext
    exact walks_emitWith (.field (Descends.child hn _ name hchild) hword hfield)

/-! ## Types -/

omit hsub [S.Covers] in
theorem addLocal_kept {simple binary : String} (htype : S.type binary) {frames : List TypeFrame}
    (h : ∀ frame ∈ frames, S.TypeFrameKept frame) :
    ∀ frame ∈ TypeScope.addLocal simple binary frames, S.TypeFrameKept frame := by
  induction frames with
  | nil => exact h
  | cons first rest ih =>
    obtain ⟨hfirst, hrest⟩ := List.forall_mem_cons.1 h
    cases first with
    | block types =>
      exact List.forall_mem_cons.2 ⟨List.forall_mem_cons.2 ⟨htype, hfirst⟩, hrest⟩
    | classBody binary => exact List.forall_mem_cons.2 ⟨trivial, ih hrest⟩
    | typeVars params => exact List.forall_mem_cons.2 ⟨trivial, ih hrest⟩

omit hsub in
/-- The components of a record are named by single words. -/
theorem isName_component (ho : S.orderly) {n p name : Node} (hn : S.T n)
    (hkind : n.kind = .recordDeclaration)
    (hp : p ∈ ((n.child? .parameters).map Node.namedChildren).getD [])
    (hname : p.child? .name = some name) : name.kind.isName = true := by
  cases hlist : n.child? .parameters with
  | none =>
    rw [hlist] at hp
    cases hp
  | some list =>
    rw [hlist] at hp
    have hp' : S.T p := Descends.named (Descends.child hn _ list hlist) p hp
    have hformal := (Survey.Covers.sound ho hn).kind_component hkind hlist hp hname
    exact (Survey.Covers.sound ho hp').isName_child (by rw [hformal]; rfl) hname

theorem walks_typeBody {n : Node} {binary : String} (hn : S.T n)
    (hkind : n.kind.isTypeDeclaration = true) (hbegins : S.Begins n binary) :
    Walks S Any (typeBody sub n binary) := by
  refine walks_withClass ?_
  extract_lets components
  have hrecord : ∀ c ∈ (components.map Node.namedChildren).getD [],
      Walks S Any (recordComponent sub binary c) := by
    intro c hc
    simp only [components] at hc
    split at hc
    · rename_i hrecord
      have hkind' : n.kind = .recordDeclaration := by simpa using hrecord
      refine walks_recordComponent hsub (Descends.grandchildren (Descends.child hn _) c hc) ?_
      intro name hname
      exact ⟨fun ho => isName_component ho hn hkind' hc hname,
        Survey.Covers.component hn hkind' hbegins hc hname⟩
    · cases hc
  refine .bind (.forM hrecord) fun _ _ => ?_
  split
  · rename_i body hbody
    have hbody' : S.Body binary components body := .named hn hkind hbegins hbody
    exact .discard (hsub _ hbody')
  · exact .done

theorem walks_typeDeclaration {n : Node} {inBlock : Bool} (hn : S.T n)
    (hkind : n.kind.isTypeDeclaration = true) : Walks S Any (typeDeclaration sub n inBlock) := by
  refine .bind .read fun ctx hctx => ?_
  subst hctx
  split
  · exact .done
  · rename_i binary hbegins
    have htype : S.type binary := Survey.Covers.begins hn hbegins
    refine .bind (walks_annotations hsub hn) fun _ _ => ?_
    extract_lets rest
    have hrest : ∀ u, Walks S Any (rest u) := by
      intro u
      refine .bind (walks_typeParameters hsub hn) fun params _ => walks_withTypeFrame trivial ?_
      refine .bind (.forM fun c hc => walks_typeNodes ?_) fun _ _ =>
        walks_typeBody hsub hn hkind hbegins
      have hc' : S.T c := Descends.named hn c (List.mem_filter.1 hc).1
      cases hlist : c.childOfKind? .typeList with
      | none => exact Descends.named hc'
      | some list => exact Descends.named (Descends.ofKind hc' _ list hlist)
    split
    · exact hrest ()
    · rename_i name hname
      have hname' : S.T name := Descends.child hn _ name hname
      split
      · refine .bind walks_text fun simple _ => ?_
        refine .bind (.modify fun s hs => ⟨hs.header, addLocal_kept htype hs.types, hs.vars,
          hs.methods, hs.occurrences⟩) fun _ _ => ?_
        exact .bind (walks_emitType hname' htype) fun u _ => hrest u
      · exact .bind (walks_emitType hname' htype) fun u _ => hrest u

end Inside

/-! ## Units -/

theorem walks_staticMember {n : Node} {owner : String} (hn : S.T n)
    (hkind : S.orderly → n.kind.isName = true) : Walks S Any (staticMember n owner) := by
  refine .bind .read fun ctx hctx => .bind walks_text fun name hname => ?_
  subst hctx hname
  dsimp only
  split
  · rename_i hfound
    exact walks_emitField hn hkind rfl (Survey.field_of_findField? hfound)
  · split
    · rename_i first rest hmethods
      refine walks_emitWith (.method hn hkind fun _ s hs => ?_)
      rw [← hmethods] at hs
      obtain ⟨⟨declaring, m⟩, hm, rfl⟩ := List.mem_map.1 hs
      exact Survey.names_of_findMethods (List.mem_filter.1 hm).1
    · exact walks_unresolved

theorem ofNode?_path_in {n : Node} (hn : S.T n) {found : ImportNode}
    (h : ImportNode.ofNode? n = some found) : S.T found.path := by
  obtain ⟨path, hpath, hfound⟩ := Option.bind_eq_some_iff.1 h
  cases hfound
  exact Descends.children hn path (List.mem_reverse.1 (List.mem_of_find?_eq_some hpath))

theorem walks_importDeclaration {n : Node} (hn : S.T n) : Walks S Any (importDeclaration n) := by
  unfold importDeclaration
  split
  · exact .done
  · rename_i path isStatic onDemand hfound
    have hsegments := segments_nameNodes (ofNode?_path_in hn hfound)
    refine .bind .read fun ctx _ => ?_
    dsimp only
    refine .bind walks_text fun written _ => ?_
    split
    · split
      · exact .done
      · rename_i member hmember
        have hmem := List.mem_of_getLast? hmember
        have howner := hsegments.sublist (List.dropLast_sublist _)
        refine .bind (walks_qualifiedPath howner) fun owner _ => ?_
        split
        · exact walks_staticMember (hsegments.mem member hmem)
            fun _ => (gathers_nameNodes.below path member hmem).2
        · exact walks_unresolved
    · refine .bind (.mapM fun _ _ => walks_text.any) fun names _ => ?_
      split
      · exact .done
      · refine .bind (walks_qualifiedPath hsegments) fun owner _ => ?_
        split
        · exact walks_unresolved
        · exact .done

/-! ## Units -/

/-- One step, by what is walked over. -/
theorem walks_ofTask {sub : Task → Binding Meaning}
    (hsub : ∀ task, task.In S → Walks S (task.Answers S) (sub task)) {task : Task}
    (h : task.In S) : Walks S (task.Answers S) (ofTask sub task) := by
  cases task with
  | expression n => exact .bind (walks_expressionType hsub h) fun _ _ => .pure trivial
  | name n => exact walks_nameOf hsub h
  | statement n => exact .bind (walks_statement hsub h) fun _ _ => .pure trivial
  | initializer n expected => exact .bind (walks_initializer hsub h) fun _ _ => .pure trivial
  | lambda n params => exact .bind (walks_lambda hsub h) fun _ _ => .pure trivial
  | annotated n => exact .bind (walks_annotated hsub h) fun _ _ => .pure trivial
  | elementValue n => exact .bind (walks_elementValue hsub h) fun _ _ => .pure trivial
  | pattern n => exact .bind (walks_pattern hsub h) fun _ _ => .pure trivial
  | typeDeclaration n inBlock =>
    exact .bind (walks_typeDeclaration hsub h.1 h.2) fun _ _ => .pure trivial
  | classBody n binary components =>
    exact .bind (walks_classBody hsub h) fun _ _ => .pure trivial

theorem walks_nested {depth : Nat} {task : Task} (h : task.In S) :
    Walks S (task.Answers S) (nested depth task) := by
  induction depth generalizing task with
  | zero => exact .pure (by cases task <;> trivial)
  | succ depth ih => exact walks_ofTask (fun task h => ih h) h

theorem walks_program {root : Node} (hroot : S.T root) : Walks S Any (program root) := by
  refine .forM fun c hc => ?_
  have hc' : S.T c := Descends.named hroot c hc
  split
  · exact walks_importDeclaration hc'
  · split
    · rename_i hkind
      exact .discard (walks_nested ⟨hc', hkind⟩)
    · exact .done

end Binding

/-- What is known when the walk over a unit ends. -/
def walkedState (index : TypeIndex) (unit : DeclaredUnit) (root : Node) : BindingState :=
  (Binding.program root ⟨index, unit⟩ { scope := { header := unit.header } }).2

theorem kept_walkedState {S : Survey} [S.Covers] {root : Node} (hroot : S.T root) :
    S.Kept (walkedState S.ctx.index S.ctx.unit root) := by
  have hstart : S.Kept { scope := { header := S.ctx.unit.header } } :=
    ⟨rfl, by simp, by simp, by simp, by simp⟩
  exact (Binding.walks_program hroot _ hstart).2

/-- All that a walk over a unit reports is found in the unit. -/
theorem finding_of_mem_bindUnit {S : Survey} [S.Covers] {root : Node} (hroot : S.T root) :
    ∀ o ∈ (bindUnit S.ctx.index S.ctx.unit root).1, S.Finding o := by
  intro o ho
  exact (kept_walkedState hroot).occurrences o (List.mem_reverse.1 ho)

end Renaming.Java
