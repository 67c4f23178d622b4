import Renaming.Java.Binding.Declarations
import Renaming.Proofs.Java.Scoping.Statements

/-!
# Blind walks over declarations

The parameters and the body of a method stand in a block, and so does an initializer. Nothing else
in a class does: what is declared in the initializer of a field or in an annotation leaves the
class.
-/

namespace Renaming.Java.Binding

variable {V : View} {left : String → Prop} {sub : Task → Binding Meaning}
  (hsub : ∀ left task, task.Lets V left → Blind V left (sub task))
include hsub

/-! ## Annotations -/

theorem blind_elementValue {n : Node} (hn : V.Fits left n) : Blind V left (elementValue sub n) := by
  unfold elementValue
  split
  · rename_i hkind
    exact .discard (hsub _ _ ⟨hn, hkind⟩)
  · split
    · rename_i hkind
      refine .forM fun c hc => .discard (hsub _ _ ?_)
      exact hn.named (by rw [beq_iff_eq.1 hkind]; rfl) c hc
    · exact .discard (blind_expression hsub hn)

theorem blind_elementValue? {n : Option Node} (h : ∀ c ∈ n, V.Fits left c) :
    Blind V left (elementValue? sub n) := by
  cases n with
  | none => exact .pure
  | some n => exact .discard (hsub _ _ (h n rfl))

omit hsub in
theorem blind_elementKey {binary : String} {key : Node} : Blind V left (elementKey binary key) := by
  refine blind_text (.read ?_)
  dsimp only
  split
  · exact blind_emitMethod
  · exact blind_unresolved

theorem blind_elementArgument {binary : Option String} {n : Node} (hn : V.Fits left n) :
    Blind V left (elementArgument sub binary n) := by
  have hvalue : ∀ c ∈ n.child? .value, V.Fits left c := hn.part rfl nofun
  unfold elementArgument
  split
  · refine blind_elementValue? hsub fun c hc => ?_
    cases hc
    cases hfound : n.child? .value with
    | none => exact hn
    | some value => exact hvalue value hfound
  · split
    · split
      · exact .bind blind_elementKey fun _ => blind_elementValue? hsub hvalue
      · exact blind_elementValue? hsub hvalue
    · refine blind_elementValue? hsub fun c hc => ?_
      cases hc
      exact hn

theorem blind_annotated {n : Node} (hn : V.Fits left n) (hkind : n.kind.isAnnotated = true) :
    Blind V left (annotated sub n) := by
  have hlist := hn.child (NodeKind.shields_of_isAnnotated hkind) .arguments
  have harguments {binary : Option String} :
      Blind V left ((((n.child? .arguments).map Node.namedChildren).getD []).forM
        (elementArgument sub binary)) :=
    .forM fun c hc => blind_elementArgument hsub (.listed hlist rfl c hc)
  unfold annotated
  split
  · exact .pure
  · refine .bind blind_nameAsType fun binary => ?_
    split
    · exact blind_text (.bind blind_unresolved fun _ => harguments)
    · exact harguments

theorem blind_typeParameters {n : Node} (hn : V.Fits left n) :
    Blind V left (typeParameters sub n) := by
  refine .bind blind_naming fun params => .bind (.forM fun c hc => ?_) fun _ => .pure
  have hlist : ∀ list ∈ n.child? .typeParameters, V.Fits left list := hn.part rfl nofun
  exact blind_annotations hsub (.listed hlist rfl c hc)

/-! ## Methods -/

theorem blind_parameters {n : Node} {method : Option Signature} {known : List GenericType}
    (hn : V.T n) : Blind V (fun _ => True) (parameters sub n method known) := by
  unfold parameters
  extract_lets parts
  refine .forM fun p hp => ?_
  obtain ⟨⟨p, name, type⟩, i⟩ := p
  obtain ⟨q, hq, hparts⟩ := List.mem_filterMap.1 (List.fst_mem_of_mem_zipIdx hp)
  obtain ⟨_, _, heq⟩ := Option.map_eq_some_iff.1 hparts
  cases heq
  refine .bind (blind_annotations hsub (.all (Descends.named hn p hq))) fun _ => ?_
  refine .bind blind_typeNode? fun written => ?_
  dsimp only
  split
  · exact .pure
  · split
    · exact .bind blind_emitWith fun _ => blind_text (blind_bind trivial)
    · exact blind_text (blind_bind trivial)

omit hsub in
theorem blind_implicitParameters {components : Option Node} {method : Option Signature}
    {known : List GenericType} :
    Blind V (fun _ => True) (implicitParameters components method known) :=
  .forM fun _ _ => blind_text (blind_bind trivial)

omit hsub in
theorem blind_methodName {n name : Node} {declared : Option (String × MethodDeclaration)} :
    Blind V left (methodName n name declared) := by
  unfold methodName
  split
  · split
    · exact blind_emitWith
    · exact blind_emitMethod
  · have hunknown : Blind V left (do
        let owner := (← currentClass?).getD ""
        unresolved name
          ("cannot resolve signature of method " ++ (← text name) ++ " in " ++ owner)) :=
      .bind blind_currentClass? fun _ => blind_text blind_unresolved
    split
    · exact .bind (.discard blind_nameAsType) fun _ => hunknown
    · exact hunknown

theorem blind_methodBody {n : Node} {components : Option Node}
    {declared : Option (String × MethodDeclaration)} (hn : V.T n) :
    Blind V left (methodBody sub n components declared) := by
  unfold methodBody
  extract_lets signature known body rest
  refine blind_withMethod (blind_withBlock ?_)
  have hbody : ∀ u, Blind V (fun _ => True) (body u) := fun _ =>
    blind_statement? hsub fun c hc => lets_statement_all (Descends.child hn _ c hc)
  have hrest : ∀ u, Blind V (fun _ => True) (rest u) := by
    intro u
    simp only [rest]
    split
    · exact .bind blind_implicitParameters hbody
    · exact hbody ()
  split
  · rename_i params hparams
    exact .bind (blind_parameters hsub (Descends.child hn _ params hparams)) hrest
  · exact hrest ()

theorem blind_method {n : Node} {components : Option Node} (hn : V.Fits left n) :
    Blind V left (method sub n components) := by
  refine .read (.bind (blind_annotations hsub hn) fun _ => ?_)
  refine .bind (blind_typeParameters hsub hn) fun params => blind_withTypeFrame ?_
  refine .bind (.discard blind_typeNode?) fun _ => ?_
  extract_lets rest
  have hrest : ∀ u, Blind V left (rest u) := fun _ =>
    .bind blind_typeNodes fun _ => blind_methodBody hsub hn.mem
  split
  · exact .bind blind_methodName hrest
  · exact hrest ()

/-! ## Members -/

omit hsub in
/-- One of the fields of a declaration. -/
def fieldDeclarator (sub : Task → Binding Meaning) (binary : String) (type : Option GenericType)
    (d : Node) : Binding Unit := do
  match d.child? .name with
  | some name => emitField name binary (← text name)
  | none => pure ()
  match d.child? .value with
  | some value =>
    let dims ← dims d
    discard (sub (.initializer value (type.map (·.withDims dims))))
  | none => pure ()

omit hsub in
theorem fields_eq (n : Node) (binary : String) (inInterface : Bool) :
    fields sub n binary inInterface = (do
      annotations sub n
      let type ← typeNode? (n.child? .type)
      let isStatic := inInterface || n.hasModifier "static"
      withMethod (some (initializerSignature binary isStatic)) <|
        (n.childrenIn .declarator).forM (fieldDeclarator sub binary type)) := rfl

theorem blind_fieldDeclarator {binary : String} {type : Option GenericType} {d : Node}
    (h : ∀ c ∈ d.child? .value, V.Fits left c) :
    Blind V left (fieldDeclarator sub binary type d) := by
  unfold fieldDeclarator
  extract_lets value
  have hvalue : ∀ u, Blind V left (value u) := by
    intro u
    simp only [value]
    split
    · rename_i v hv
      exact .bind blind_dims fun _ => .discard (hsub _ _ (h v hv))
    · exact .pure
  split
  · exact blind_text (.bind blind_emitWith hvalue)
  · exact hvalue ()

theorem blind_fields {n : Node} {binary : String} {inInterface : Bool} (hn : V.Fits left n)
    (hkind : n.kind.shields = false) : Blind V left (fields sub n binary inInterface) := by
  rw [fields_eq]
  refine .bind (blind_annotations hsub hn) fun _ => .bind blind_typeNode? fun type => ?_
  refine blind_withMethod (.forM fun d hd => blind_fieldDeclarator hsub fun c hc => ?_)
  have hrole : d.role = some .declarator := by simpa using (List.mem_filter.1 hd).2
  exact (hn.inRole hkind _ d hd).entries rfl hrole c (List.mem_of_find?_eq_some hc)

omit hsub in
/-- The members of a type, or of an enum constant, leave what the type leaves. -/
theorem fits_member {n body : Node} (hn : V.Fits left n)
    (hkind : n.kind.isTypeDeclaration = true ∨ n.kind = .enumConstant)
    (hbody : n.child? .body = some body) :
    ∀ c ∈ body.children, c.kind.opensBlock = false → V.Fits left c := by
  intro c hc hopen
  have hbody' : V.T body := Descends.child hn.mem _ body hbody
  exact ⟨V.children hbody' c hc, fun name hname =>
    hn.leaves name (.member hkind hbody hc hopen hname)⟩

theorem blind_enumConstant {n : Node} {binary : String} (hn : V.Fits left n)
    (hkind : n.kind = .enumConstant) : Blind V left (enumConstant sub n binary) := by
  refine .bind (blind_annotations hsub hn) fun _ => ?_
  extract_lets rest
  have hrest : ∀ u, Blind V left (rest u) := by
    intro u
    refine .bind (blind_withMethod (.discard (blind_arguments hsub hn (by rw [hkind]; rfl))))
      fun _ => ?_
    split
    · rename_i body hbody
      have hbody' : V.T body := Descends.child hn.mem _ body hbody
      exact .discard (blind_anonymousBody hsub hbody' (fits_member hn (.inr hkind) hbody))
    · exact .pure
  split
  · exact blind_text (.bind blind_emitWith hrest)
  · exact hrest ()

theorem blind_annotationElement {n : Node} {binary : String} (hn : V.Fits left n)
    (hkind : n.kind.shields = false) : Blind V left (annotationElement sub n binary) := by
  refine .bind (blind_annotations hsub hn) fun _ => .bind blind_typeNode? fun type => ?_
  extract_lets value
  have hvalue : ∀ u, Blind V left (value u) :=
    fun _ => blind_elementValue? hsub (hn.child hkind _)
  split
  · exact hvalue ()
  · refine blind_text (.read ?_)
    dsimp only
    split
    · exact .bind blind_emitMethod hvalue
    · split
      · exact .bind blind_unresolved hvalue
      · exact hvalue ()

theorem blind_initializerBlock {block : Option Node} {binary : String} {isStatic : Bool}
    (h : ∀ c ∈ block, V.T c ∧ c.kind.opensBlock = true) :
    Blind V left (initializerBlock sub block binary isStatic) := by
  refine blind_withMethod (blind_statement? hsub fun c hc => ⟨(h c hc).1, fun hopen => ?_⟩)
  rw [(h c hc).2] at hopen
  cases hopen

theorem blind_member {n : Node} {binary : String} {inInterface : Bool} {components : Option Node}
    (hmem : V.T n) (hfits : n.kind.opensBlock = false → V.Fits left n) :
    Blind V left (member sub binary inInterface components n) := by
  have hopen {kind : NodeKind} (hkind : n.kind = kind) (h : kind.opensBlock = false) :
      V.Fits left n := hfits (hkind ▸ h)
  unfold member
  split <;> rename_i hkind
  · exact blind_fields hsub (hopen hkind rfl) (by rw [hkind]; rfl)
  · exact blind_fields hsub (hopen hkind rfl) (by rw [hkind]; rfl)
  · exact blind_method hsub (hopen hkind rfl)
  · exact blind_method hsub (hopen hkind rfl)
  · exact blind_method hsub (hopen hkind rfl)
  · refine blind_initializerBlock hsub fun c hc => ⟨Descends.ofKind hmem _ c hc, ?_⟩
    have hblock : c.kind = .block := by simpa using List.find?_some hc
    rw [hblock]
    rfl
  · refine blind_initializerBlock hsub fun c hc => ?_
    cases hc
    exact ⟨hmem, by rw [hkind]; rfl⟩
  · exact blind_enumConstant hsub (hopen hkind rfl) hkind
  · have hlets : Task.Lets V left (.classBody n binary none) :=
      ⟨hmem, fun c hc h => (hopen hkind rfl).inside hc
        (Node.encloses_of_not_opensBlock (by simp [hkind]) h)⟩
    exact .discard (hsub _ _ hlets)
  · exact blind_annotationElement hsub (hopen hkind rfl) (by rw [hkind]; rfl)
  · split
    · rename_i hdeclaration
      have hfits' := hfits (NodeKind.opensBlock_of_isTypeDeclaration hdeclaration)
      exact .discard (hsub _ _ ⟨hfits', hdeclaration⟩)
    · exact .pure

theorem blind_classBody {n : Node} {binary : String} {components : Option Node} (hn : V.T n)
    (hmembers : ∀ c ∈ n.children, c.kind.opensBlock = false → V.Fits left c) :
    Blind V left (classBody sub n binary components) := by
  refine .read (.forM fun c hc => ?_)
  exact blind_member hsub (Descends.named hn c hc) (hmembers c (List.mem_filter.1 hc).1)

theorem blind_recordComponent {n : Node} {binary : String} (hn : V.Fits left n) :
    Blind V left (recordComponent sub binary n) := by
  refine .bind (blind_annotations hsub hn) fun _ => .bind blind_typeNode? fun type => ?_
  split
  · exact .pure
  · exact blind_text blind_emitWith

/-! ## Types -/

theorem blind_typeBody {n : Node} {binary : String} (hn : V.Fits left n)
    (hkind : n.kind.isTypeDeclaration = true) : Blind V left (typeBody sub n binary) := by
  refine blind_withClass ?_
  extract_lets components
  refine .bind (.forM fun c hc => blind_recordComponent hsub ?_) fun _ => ?_
  · simp only [components] at hc
    split at hc
    · exact .listed (hn.child (NodeKind.shields_of_isTypeDeclaration hkind) _) rfl c hc
    · cases hc
  · split
    · rename_i body hbody
      have hlets : Task.Lets V left (.classBody body binary components) :=
        ⟨Descends.child hn.mem _ body hbody, fits_member hn (.inl hkind) hbody⟩
      exact .discard (hsub _ _ hlets)
    · exact .pure

theorem blind_typeDeclaration {n : Node} {inBlock : Bool} (hn : V.Fits left n)
    (hkind : n.kind.isTypeDeclaration = true) :
    Blind V left (typeDeclaration sub n inBlock) := by
  refine .read ?_
  split
  · exact .pure
  · refine .bind (blind_annotations hsub hn) fun _ => ?_
    extract_lets rest
    have hrest : ∀ u, Blind V left (rest u) := by
      intro u
      refine .bind (blind_typeParameters hsub hn) fun params => blind_withTypeFrame ?_
      exact .bind (.forM fun _ _ => blind_typeNodes) fun _ => blind_typeBody hsub hn hkind
    split
    · exact hrest ()
    · split
      · refine blind_text (.bind (.modify (fun _ _ => rfl) fun _ => rfl) fun _ => ?_)
        exact .bind blind_emitWith hrest
      · exact .bind blind_emitWith hrest

end Renaming.Java.Binding
