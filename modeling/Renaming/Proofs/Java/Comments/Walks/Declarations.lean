import Renaming.Proofs.Java.Comments.Walks.Statements
import Renaming.Proofs.Java.Scoping.Declarations

/-!
# Declarations around a comment

Types and methods are found by where they start after the insertion, and everything they declare has
the signature it had before. A comment among members, parameters or values is none of them.
-/

namespace Renaming.Java.Binding

open Node (Echo Respelled Component)

variable {V : Rebinding} {sub sub' : Task → Binding Meaning}
  (hsub : ∀ {task task'}, Task.Echo V.toRereading task task' →
    Follows V (MeaningEcho V) (sub task) (sub' task'))
  (hidle : ∀ {task'}, Task.Added V.toInsertion task' → Idle V.ctx' .done (sub' task'))

/-- What hangs below a child that may be missing. -/
theorem joined_below {x x' : Option Node} (h : Option.Rel (Echo V.toInsertion) x x') :
    Joined V.toInsertion (Echo V.toInsertion) ((x.map Node.namedChildren).getD [])
      ((x'.map Node.namedChildren).getD []) := by
  cases h with
  | none => exact .nil
  | some hc => exact hc.named

/-! ## Annotations -/

section Annotations

theorem follows_elementKey {key key' : Node} (h : Respelled V.toRereading key key')
    {binary : String} : Follows V Eq (elementKey binary key) (elementKey binary key') := by
  refine follows_spelled h.text_eq (.read ?_)
  rw [V.index_eq]
  dsimp only
  split
  · exact follows_emitMethod h.echo
  · exact follows_unresolved

include hsub

theorem follows_elementValue? {x x' : Option Node} (h : Option.Rel (Echo V.toInsertion) x x') :
    Follows V Eq (elementValue? sub x) (elementValue? sub' x') := by
  cases h with
  | none => exact .pure rfl
  | some hc => exact .discard (hsub (.elementValue hc))

include hidle in
theorem follows_elementValue {n n' : Node} (h : Echo V.toInsertion n n') :
    Follows V Eq (elementValue sub n) (elementValue sub' n') := by
  unfold elementValue
  rw [h.kind_eq]
  split
  · exact .discard (hsub (.annotated h))
  · split
    · exact .forM_joined h.named (fun _ _ hc => .discard (hsub (.elementValue hc))) fun _ hc =>
        .discard (hidle (.elementValue hc))
    · exact .discard (follows_expression hsub h)

omit hsub in
include hidle in
theorem idle_elementValue {c : Node} (hc : V.adds c = true) :
    Idle V.ctx' () (elementValue sub' c) := by
  unfold elementValue
  rw [NodeKind.isAnnotated_eq_false (Insertion.isComment_of_adds hc),
    Insertion.kind_beq_of_adds hc rfl]
  exact (idle_expression hidle hc).discard

theorem follows_elementArgument {n n' : Node} (h : Echo V.toInsertion n n')
    {binary : Option String} :
    Follows V Eq (elementArgument sub binary n) (elementArgument sub' binary n') := by
  cases binary with
  | none =>
    refine follows_elementValue? hsub ?_
    have hvalue := h.child? .value
    generalize n.child? .value = x, n'.child? .value = x' at hvalue
    cases hvalue with
    | none => exact .some h
    | some hc => exact .some hc
  | some binary =>
    have hkey := h.readChild? .key fun c' hc' => by simp [Node.reads, hc']
    unfold elementArgument
    rw [h.kind_eq]
    dsimp only
    split
    · generalize n.child? .key = x, n'.child? .key = x' at hkey
      cases hkey with
      | none => exact follows_elementValue? hsub (h.child? _)
      | some hc =>
        exact .andThen (follows_elementKey hc) (follows_elementValue? hsub (h.child? _))
    · exact follows_elementValue? hsub (.some h)

omit hsub in
include hidle in
theorem idle_elementArgument {c : Node} (hc : V.adds c = true) {binary : Option String} :
    Idle V.ctx' () (elementArgument sub' binary c) := by
  have hvalue : Idle V.ctx' () (elementValue? sub' (some c)) :=
    .discard (hidle (.elementValue hc))
  unfold elementArgument
  cases binary with
  | none =>
    rw [Insertion.child?_of_adds hc]
    exact hvalue
  | some binary =>
    rw [Insertion.kind_beq_of_adds hc rfl]
    exact hvalue

include hidle

theorem follows_annotated {n n' : Node} (h : Echo V.toInsertion n n') :
    Follows V Eq (annotated sub n) (annotated sub' n') := by
  have hname := h.child? .name
  have harguments (binary : Option String) :
      Follows V Eq ((((n.child? .arguments).map Node.namedChildren).getD []).forM
          (elementArgument sub binary))
        ((((n'.child? .arguments).map Node.namedChildren).getD []).forM
          (elementArgument sub' binary)) :=
    .forM_joined (joined_below (h.child? _)) (fun _ _ hc => follows_elementArgument hsub hc)
      fun _ hc => idle_elementArgument hidle hc
  unfold annotated
  generalize n.child? .name = x, n'.child? .name = x' at hname
  cases hname with
  | none => exact .pure rfl
  | some hc =>
    refine .bind (follows_nameAsType hc) fun binary binary' hbinary => ?_
    subst hbinary
    dsimp only
    split
    · exact follows_text (.andThen follows_unresolved (harguments _))
    · exact harguments _

omit hidle in
theorem follows_typeParameters {n n' : Node} (h : Echo V.toInsertion n n') :
    Follows V Eq (typeParameters sub n) (typeParameters sub' n') := by
  refine .bind (follows_naming fun _ => TypeContext.follows_parametersOf h)
    fun params params' hparams => ?_
  subst hparams
  refine .andThen (.forM_joined (joined_below (h.child? _))
    (fun _ _ hc => follows_annotations hsub hc) fun c hc => ?_) (.pure rfl)
  unfold annotations
  rw [Insertion.namedChildren_of_adds hc]
  exact .pure

end Annotations

/-! ## Methods -/

section Methods

/-- The parts of a parameter, of which the name is spelled as before. -/
theorem parameterParts?_echo {n n' : Node} (h : Echo V.toInsertion n n') :
    Option.Rel (fun parts parts' => Option.Rel (Respelled V.toRereading) parts.1 parts'.1 ∧
        Option.Rel (Echo V.toInsertion) parts.2 parts'.2)
      (parameterParts? n) (parameterParts? n') := by
  unfold parameterParts?
  rw [h.kind_eq]
  split
  · rename_i hkind
    exact .some ⟨h.name? (.inl (by rw [hkind]; rfl)), h.child? _⟩
  · refine .some ⟨?_, h.namedWith? fun _ => NodeKind.isType_eq_false⟩
    have hvariable := h.childOfKind? .variableDeclarator rfl
    have hkind : ∀ d ∈ n.childOfKind? .variableDeclarator, d.kind = .variableDeclarator :=
      fun d hd => by simpa using List.find?_some hd
    generalize n.childOfKind? .variableDeclarator = x, n'.childOfKind? .variableDeclarator = x'
      at hvariable hkind
    cases hvariable with
    | none => exact .none
    | some hd => exact hd.name? (.inl (by rw [hkind _ rfl]; rfl))
  · exact .none

/-- No comment is a parameter. -/
theorem parameterParts?_of_adds {c : Node} (hc : V.adds c = true) : parameterParts? c = none := by
  obtain ⟨kind, text, rfl, hkind⟩ := Insertion.adds_iff.1 hc
  rcases NodeKind.isComment_cases hkind with rfl | rfl <;> rfl

theorem follows_implicitParameters {components components' : Option Node}
    (h : Joined V.toInsertion (Component V.toRereading)
      ((components.map Node.namedChildren).getD []) ((components'.map Node.namedChildren).getD []))
    {method : Option Signature} {known : List GenericType} :
    Follows V Eq (implicitParameters components method known)
      (implicitParameters components' method known) := by
  have hnames := h.filterMap (fun _ _ hc => hc.name) fun _ hc => Insertion.child?_of_adds hc .name
  refine .forM (forall₂_zipIdx hnames) fun ⟨name, i⟩ ⟨name', i'⟩ ⟨hname, hplace⟩ => ?_
  obtain rfl : i' = i := hplace
  exact follows_spelled hname.text_eq follows_bind

theorem follows_methodName {n n' name name' : Node} (h : Echo V.toInsertion n n')
    (hname : Echo V.toInsertion name name') {declared : Option (String × MethodDeclaration)} :
    Follows V Eq (methodName n name declared) (methodName n' name' declared) := by
  unfold methodName
  rw [h.kind_eq]
  cases declared with
  | some declared =>
    dsimp only
    split
    · exact follows_emit hname
    · exact follows_emitMethod hname
  | none =>
    have hunknown : Follows V Eq (do
        let owner := (← currentClass?).getD ""
        unresolved name
          ("cannot resolve signature of method " ++ (← text name) ++ " in " ++ owner)) (do
        let owner := (← currentClass?).getD ""
        unresolved name'
          ("cannot resolve signature of method " ++ (← text name') ++ " in " ++ owner)) :=
      .bind follows_currentClass? fun _ _ _ => follows_text follows_unresolved
    dsimp only
    split
    · exact .andThen (.discard (follows_nameAsType hname)) hunknown
    · exact hunknown

include hsub hidle

omit hidle in
theorem follows_parameters {n n' : Node} (h : Echo V.toInsertion n n')
    {method : Option Signature} {known : List GenericType} :
    Follows V Eq (parameters sub n method known) (parameters sub' n' method known) := by
  unfold parameters
  extract_lets parts parts'
  have hparts : List.Forall₂ (fun p p' => Echo V.toInsertion p.1 p'.1 ∧
      Option.Rel (Respelled V.toRereading) p.2.1 p'.2.1 ∧
      Option.Rel (Echo V.toInsertion) p.2.2 p'.2.2) parts parts' := by
    refine h.named.filterMap (fun c c' hc => ?_) fun c hc => ?_
    · have hfound := parameterParts?_echo hc
      generalize parameterParts? c = x, parameterParts? c' = x' at hfound
      cases hfound with
      | none => exact .none
      | some hparts => exact .some ⟨hc, hparts⟩
    · rw [parameterParts?_of_adds hc]
      rfl
  refine .forM (forall₂_zipIdx hparts) ?_
  rintro ⟨⟨p, name, type⟩, i⟩ ⟨⟨p', name', type'⟩, i'⟩ ⟨⟨hp, hname, htype⟩, hplace⟩
  obtain rfl : i' = i := hplace
  replace hp : Echo V.toInsertion p p' := hp
  replace hname : Option.Rel (Respelled V.toRereading) name name' := hname
  refine .andThen (follows_annotations hsub hp) ?_
  refine .bind (follows_typeNode? htype) fun written written' hwritten => ?_
  subst hwritten
  dsimp only
  rw [hp.kind_eq]
  cases hname with
  | none => exact .pure rfl
  | some hname =>
    have hbind {v : String → Variable} :
        Follows V Eq (do bind (v (← text _))) (do bind (v (← text _))) :=
      follows_spelled hname.text_eq follows_bind
    dsimp only
    split
    · exact .andThen (follows_emit hname.echo) hbind
    · exact hbind

omit hidle in
theorem follows_methodBody {n n' : Node} (h : Echo V.toInsertion n n')
    {components components' : Option Node}
    (hcomponents : Joined V.toInsertion (Component V.toRereading)
      ((components.map Node.namedChildren).getD []) ((components'.map Node.namedChildren).getD []))
    {declared : Option (String × MethodDeclaration)} :
    Follows V Eq (methodBody sub n components declared)
      (methodBody sub' n' components' declared) := by
  have hparams := h.child? .parameters
  have hbody := follows_statement? hsub (h.child? .body)
  unfold methodBody
  rw [h.kind_eq]
  generalize n.child? .parameters = x, n'.child? .parameters = x' at hparams
  extract_lets signature known body rest body' rest'
  refine follows_withMethod (follows_withBlock ?_) _
  have hrest : Follows V Eq (rest ()) (rest' ()) := by
    simp only [rest, rest']
    split
    · exact .andThen (follows_implicitParameters hcomponents) hbody
    · exact hbody
  cases hparams with
  | none => exact hrest
  | some hc => exact .andThen (follows_parameters hsub hc) hrest

omit hidle in
theorem follows_method {n n' : Node} (h : Echo V.toInsertion n n')
    {components components' : Option Node}
    (hcomponents : Joined V.toInsertion (Component V.toRereading)
      ((components.map Node.namedChildren).getD [])
      ((components'.map Node.namedChildren).getD [])) :
    Follows V Eq (method sub n components) (method sub' n' components') := by
  have hname := h.child? .name
  have htype : Option.Rel (Echo V.toInsertion) ((n.child? .type).filter (·.kind != .voidType))
      ((n'.child? .type).filter (·.kind != .voidType)) := by
    have hchild := h.child? .type
    generalize n.child? .type = x, n'.child? .type = x' at hchild
    cases hchild with
    | none => exact .none
    | some hc =>
      rw [Option.filter_some, Option.filter_some, hc.kind_eq]
      split
      · exact .some hc
      · exact .none
  unfold method
  refine .read ?_
  rw [h.start_eq, V.unit.methods]
  refine .andThen (follows_annotations hsub h) ?_
  refine .bind (follows_typeParameters hsub h) fun params params' hparams => ?_
  subst hparams
  refine follows_withTypeFrame (.andThen (.discard (follows_typeNode? htype)) ?_) _
  extract_lets rest rest'
  have hrest : Follows V Eq (rest ()) (rest' ()) :=
    .andThen (follows_typeNodes (joined_below (h.childOfKind? _ rfl)))
      (follows_methodBody hsub h hcomponents)
  generalize n.child? .name = x, n'.child? .name = x' at hname
  cases hname with
  | none => exact hrest
  | some hc => exact .andThen (follows_methodName h hc) hrest

end Methods

/-! ## Members -/

section Members

include hsub

theorem follows_fieldDeclarator {d d' : Node} (h : Echo V.toInsertion d d')
    (hrole : d.role = some .declarator) {binary : String} {type : Option GenericType} :
    Follows V Eq (fieldDeclarator sub binary type d) (fieldDeclarator sub' binary type d') := by
  have hname := h.name? (.inr hrole)
  have hvalue := h.child? .value
  unfold fieldDeclarator
  generalize d.child? .name = x, d'.child? .name = x' at hname
  extract_lets value value'
  have hinner : Follows V Eq (value ()) (value' ()) := by
    simp only [value, value']
    generalize d.child? .value = y, d'.child? .value = y' at hvalue
    cases hvalue with
    | none => exact .pure rfl
    | some hc => exact follows_dims h hrole fun _ => .discard (hsub (.initializer hc))
  cases hname with
  | none => exact hinner
  | some hc => exact follows_spelled hc.text_eq (.andThen (follows_emit hc.echo) hinner)

theorem follows_initializerBlock {x x' : Option Node} (h : Option.Rel (Echo V.toInsertion) x x')
    {binary : String} {isStatic : Bool} :
    Follows V Eq (initializerBlock sub x binary isStatic)
      (initializerBlock sub' x' binary isStatic) :=
  follows_withMethod (follows_statement? hsub h) _

include hidle

omit hidle in
theorem follows_fields {n n' : Node} (h : Echo V.toInsertion n n') {binary : String}
    {inInterface : Bool} :
    Follows V Eq (fields sub n binary inInterface) (fields sub' n' binary inInterface) := by
  rw [fields_eq, fields_eq, h.hasModifier_eq]
  refine .andThen (follows_annotations hsub h) ?_
  refine .bind (follows_typeNode? (h.child? _)) fun type type' htype => ?_
  subst htype
  refine follows_withMethod (.forM (h.readChildrenIn _) fun d d' ⟨hd, hrole, _⟩ => ?_) _
  rw [hd.role_eq] at hrole
  exact follows_fieldDeclarator hsub hd hrole

theorem follows_enumConstant {n n' : Node} (h : Echo V.toInsertion n n')
    (hkind : n.kind = .enumConstant) {binary : String} :
    Follows V Eq (enumConstant sub n binary) (enumConstant sub' n' binary) := by
  have hname := h.name? (.inl (by rw [hkind]; rfl))
  have hbody := h.child? .body
  have harguments := follows_arguments hsub hidle (h.child? .arguments)
  unfold enumConstant
  refine .andThen (follows_annotations hsub h) ?_
  generalize n.child? .name = x, n'.child? .name = x' at hname
  extract_lets rest rest'
  have hrest : Follows V Eq (rest ()) (rest' ()) := by
    refine .andThen (follows_withMethod harguments _) ?_
    generalize n.child? .body = y, n'.child? .body = y' at hbody
    cases hbody with
    | none => exact .pure rfl
    | some hc => exact .discard (follows_anonymousBody hsub hc)
  cases hname with
  | none => exact hrest
  | some hc => exact follows_spelled hc.text_eq (.andThen (follows_emit hc.echo) hrest)

omit hidle in
theorem follows_annotationElement {n n' : Node} (h : Echo V.toInsertion n n')
    (hkind : n.kind = .annotationElement) {binary : String} :
    Follows V Eq (annotationElement sub n binary) (annotationElement sub' n' binary) := by
  have hname := h.name? (.inl (by rw [hkind]; rfl))
  have hvalue := follows_elementValue? hsub (h.child? .value)
  unfold annotationElement
  refine .andThen (follows_annotations hsub h) ?_
  refine .bind (follows_typeNode? (h.child? _)) fun type type' htype => ?_
  subst htype
  generalize n.child? .name = x, n'.child? .name = x' at hname
  cases hname with
  | none => exact hvalue
  | some hc =>
    refine follows_spelled hc.text_eq (.read ?_)
    rw [V.index_eq]
    dsimp only
    split
    · exact .andThen (follows_emitMethod hc.echo) hvalue
    · split
      · exact .andThen follows_unresolved hvalue
      · exact hvalue

theorem follows_member {n n' : Node} (h : Echo V.toInsertion n n')
    {components components' : Option Node}
    (hcomponents : Joined V.toInsertion (Component V.toRereading)
      ((components.map Node.namedChildren).getD []) ((components'.map Node.namedChildren).getD []))
    {binary : String} {inInterface : Bool} :
    Follows V Eq (member sub binary inInterface components n)
      (member sub' binary inInterface components' n') := by
  unfold member
  rw [h.kind_eq]
  split <;> rename_i hkind
  · exact follows_fields hsub h
  · exact follows_fields hsub h
  · exact follows_method hsub h hcomponents
  · exact follows_method hsub h hcomponents
  · exact follows_method hsub h hcomponents
  · exact follows_initializerBlock hsub (h.childOfKind? _ rfl)
  · exact follows_initializerBlock hsub (.some h)
  · exact follows_enumConstant hsub hidle h hkind
  · exact .discard (hsub (.classBody h .nil))
  · exact follows_annotationElement hsub h hkind
  · split
    · exact .discard (hsub (.typeDeclaration h ‹_›))
    · exact .pure rfl

omit hsub hidle in
/-- A comment is no member. -/
theorem idle_member {c : Node} (hc : V.adds c = true) {components : Option Node}
    {binary : String} {inInterface : Bool} :
    Idle V.ctx' () (member sub' binary inInterface components c) := by
  obtain ⟨kind, text, rfl, hkind⟩ := Insertion.adds_iff.1 hc
  rcases NodeKind.isComment_cases hkind with rfl | rfl <;> exact .pure

theorem follows_classBody {n n' : Node} (h : Echo V.toInsertion n n')
    {components components' : Option Node}
    (hcomponents : Joined V.toInsertion (Component V.toRereading)
      ((components.map Node.namedChildren).getD []) ((components'.map Node.namedChildren).getD []))
    {binary : String} :
    Follows V Eq (classBody sub n binary components) (classBody sub' n' binary components') := by
  refine .read ?_
  rw [V.index_eq]
  exact .forM_joined h.named (fun _ _ hc => follows_member hsub hidle hc hcomponents)
    fun _ hc => idle_member hc

omit hidle in
theorem follows_recordComponent {n n' : Node} (h : Component V.toRereading n n')
    {binary : String} :
    Follows V Eq (recordComponent sub binary n) (recordComponent sub' binary n') := by
  have hname := h.name
  refine .andThen (follows_annotations hsub h.echo) ?_
  refine .bind (follows_typeNode? (h.echo.child? _)) fun type type' htype => ?_
  subst htype
  generalize n.child? .name = x, n'.child? .name = x' at hname
  cases hname with
  | none => exact .pure rfl
  | some hc => exact follows_spelled hc.text_eq (follows_emitWith hc.echo.span_eq)

omit hsub hidle in
theorem idle_recordComponent {c : Node} (hc : V.adds c = true) {binary : String} :
    Idle V.ctx' () (recordComponent sub' binary c) := by
  unfold recordComponent annotations
  rw [Insertion.namedChildren_of_adds hc, Insertion.child?_of_adds hc, Insertion.child?_of_adds hc]
  exact .bind .pure (.bind .pure .pure)

end Members

/-! ## Types -/

section Types

include hsub hidle

omit hidle in
theorem follows_typeBody {n n' : Node} (h : Echo V.toInsertion n n') {binary : String} :
    Follows V Eq (typeBody sub n binary) (typeBody sub' n' binary) := by
  have hbody := h.child? .body
  unfold typeBody
  rw [h.kind_eq]
  extract_lets components components'
  refine follows_withClass ?_ _
  have hcomponents : Joined V.toInsertion (Component V.toRereading)
      ((components.map Node.namedChildren).getD [])
      ((components'.map Node.namedChildren).getD []) := by
    simp only [components, components']
    split
    · rename_i hkind
      exact h.components (by simpa using hkind)
    · exact .nil
  refine .andThen (.forM_joined hcomponents (fun _ _ hc => follows_recordComponent hsub hc)
    fun _ hc => idle_recordComponent hc) ?_
  generalize n.child? .body = x, n'.child? .body = x' at hbody
  cases hbody with
  | none => exact .pure rfl
  | some hc => exact .discard (hsub (.classBody hc hcomponents))

omit hsub hidle in
theorem follows_supertypes {n n' : Node} (h : Echo V.toInsertion n n') :
    Follows V Eq
      ((n.namedChildren.filter listsTypes).forM fun c =>
        typeNodes ((c.childOfKind? .typeList).getD c).namedChildren)
      ((n'.namedChildren.filter listsTypes).forM fun c =>
        typeNodes ((c.childOfKind? .typeList).getD c).namedChildren) := by
  have hlists := h.named.filter_forall₂ (p := listsTypes)
    (fun _ _ hc => by unfold listsTypes; rw [hc.kind_eq]) fun c hc => by
      obtain ⟨kind, text, rfl, hkind⟩ := Insertion.adds_iff.1 hc
      rcases NodeKind.isComment_cases hkind with rfl | rfl <;> rfl
  refine .forM hlists fun c c' hc => follows_typeNodes ?_
  have hlist := hc.childOfKind? .typeList rfl
  generalize c.childOfKind? .typeList = x, c'.childOfKind? .typeList = x' at hlist
  cases hlist with
  | none => exact hc.named
  | some hlist => exact hlist.named

omit hidle in
theorem follows_typeDeclaration {n n' : Node} (h : Echo V.toInsertion n n')
    (hkind : n.kind.isTypeDeclaration = true) {inBlock : Bool} :
    Follows V Eq (typeDeclaration sub n inBlock) (typeDeclaration sub' n' inBlock) := by
  have hname := h.name? (.inl (Registration.isAnnotated_of_isTypeDeclaration hkind))
  refine .read ?_
  rw [h.start_eq, V.unit.types]
  cases V.ctx.unit.types.get? n.start with
  | none => exact .pure rfl
  | some binary =>
    refine .andThen (follows_annotations hsub h) ?_
    generalize n.child? .name = x, n'.child? .name = x' at hname
    extract_lets rest rest'
    have hrest : Follows V Eq (rest ()) (rest' ()) := by
      refine .bind (follows_typeParameters hsub h) fun params params' hparams => ?_
      subst hparams
      exact follows_withTypeFrame
        (.andThen (follows_supertypes h) (follows_typeBody hsub h)) _
    cases hname with
    | none => exact hrest
    | some hc =>
      dsimp only
      split
      · exact follows_spelled hc.text_eq (.andThen (.modify fun _ ds => ⟨ds, rfl⟩)
          (.andThen (follows_emit hc.echo) hrest))
      · exact .andThen (follows_emit hc.echo) hrest

end Types

/-! ## Imports -/

theorem follows_staticMember {n n' : Node} (h : Respelled V.toRereading n n') {owner : String} :
    Follows V Eq (staticMember n owner) (staticMember n' owner) := by
  refine .read (follows_spelled h.text_eq ?_)
  rw [V.index_eq]
  dsimp only
  split
  · exact follows_emit h.echo
  · split
    · exact follows_emitWith h.echo.span_eq
    · exact follows_unresolved

/-- The parts of two paths of names, all but the last. -/
theorem forall₂_dropLast {α β : Type} {R : α → β → Prop} {as : List α} {bs : List β}
    (h : List.Forall₂ R as bs) : List.Forall₂ R as.dropLast bs.dropLast := by
  rw [List.dropLast_eq_take, List.dropLast_eq_take, h.length_eq]
  exact List.forall₂_take _ h

theorem forall₂_getLast? {α β : Type} {R : α → β → Prop} {as : List α} {bs : List β}
    (h : List.Forall₂ R as bs) : Option.Rel R as.getLast? bs.getLast? := by
  rw [← List.head?_reverse, ← List.head?_reverse]
  have hreverse := List.rel_reverse h
  generalize as.reverse = xs, bs.reverse = ys at hreverse
  cases hreverse with
  | nil => exact .none
  | cons hab _ => exact .some hab

theorem follows_importDeclaration {n n' : Node} (h : Echo V.toInsertion n n')
    (hkind : n.kind = .importDeclaration) :
    Follows V Eq (importDeclaration n) (importDeclaration n') := by
  have hnode := ofNode?_echo h hkind
  unfold importDeclaration
  generalize ImportNode.ofNode? n = x, ImportNode.ofNode? n' = x' at hnode
  cases hnode with
  | none => exact .pure rfl
  | @some d d' hd =>
    obtain ⟨path, isStatic, onDemand⟩ := d
    obtain ⟨path', isStatic', onDemand'⟩ := d'
    obtain ⟨hpath, hstatic, hdemand⟩ := hd
    obtain rfl : isStatic' = isStatic := hstatic
    obtain rfl : onDemand' = onDemand := hdemand
    replace hpath : Respelled V.toRereading path path' := hpath
    have hnames := nameNodes_forall₂ path path' hpath.echo
    refine .read (follows_spelled hpath.text_eq ?_)
    rw [V.index_eq]
    dsimp only
    split
    · have hmember := forall₂_getLast? hnames
      generalize (nameNodes path).getLast? = x, (nameNodes path').getLast? = x' at hmember
      cases hmember with
      | none => exact .pure rfl
      | some hc =>
        have howner := follows_qualifiedPath (forall₂_dropLast hnames)
        refine .bind howner fun owner owner' hfound => ?_
        subst hfound
        cases owner with
        | none => exact follows_unresolved
        | some owner => exact follows_staticMember hc
    · refine .bind (.mapM (R := Eq) hnames fun _ _ hc => follows_spelled hc.text_eq (.pure rfl))
        fun names names' hall => ?_
      rw [List.forall₂_eq_eq_eq] at hall
      subst hall
      split
      · exact .pure rfl
      · refine .bind (follows_qualifiedPath hnames) fun found found' hfound => ?_
        subst hfound
        split
        · exact follows_unresolved
        · exact .pure rfl

end Renaming.Java.Binding
