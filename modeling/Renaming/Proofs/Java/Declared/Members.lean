import Renaming.Java.Binding.Declarations
import Renaming.Java.Declared.Members
import Renaming.Proofs.Java.Declared.Sites

/-!
# Members of declared types

A method that is written in a body is made from the node at which it starts: it has the name that is
written there and one parameter for each that is written. The fields of a type are those that its
body and its components declare.
-/

namespace Renaming.Java

namespace TypeContext

variable {ctx : TypeContext} {source : SourceText} {n : Node} {m : MethodDeclaration}

/-! ## Methods -/

/-- The method that a declaration makes in a type with the given components. -/
inductive Makes (ctx : TypeContext) (canonical : Option (List GenericType)) (n : Node)
    (m : MethodDeclaration) : Prop where
  | method {inInterface : Bool}
      (hkind : n.kind = .methodDeclaration ∨ n.kind = .constructorDeclaration)
      (hmethod : ctx.method? inInterface n = some m) : Makes ctx canonical n m
  | compact {components : List GenericType} (hkind : n.kind = .compactConstructor)
      (hcanonical : canonical = some components) (hm : m = canonicalConstructor components) :
      Makes ctx canonical n m

theorem length_of_mapM {α β : Type} {f : α → Option β} {l : List α} {found : List β}
    (h : l.mapM f = some found) : found.length = l.length := by
  induction l generalizing found with
  | nil =>
    cases h
    rfl
  | cons o rest ih =>
    rw [List.mapM_cons] at h
    obtain ⟨a, -, h⟩ := Option.bind_eq_some_iff.1 h
    obtain ⟨others, hothers, heq⟩ := Option.bind_eq_some_iff.1 h
    cases heq
    rw [List.length_cons, List.length_cons, ih hothers]

/-- What is walked as a parameter has a type. -/
theorem isSome_parameterType? {p : Node} (hp : p.Sound source)
    (hparts : (Binding.parameterParts? p).isSome = true) :
    (ctx.parameterType? p).isSome = true := by
  have hcases : p.kind = .formalParameter ∨ p.kind = .spreadParameter := by
    unfold Binding.parameterParts? at hparts
    split at hparts
    · exact .inl ‹_›
    · exact .inr ‹_›
    · cases hparts
  rcases hcases with hkind | hkind
  · have htyped : p.kind.isTyped = true := by
      rw [hkind]
      rfl
    obtain ⟨part, hpart, hrole, -⟩ := hp.shape.typed htyped
    rw [parameterType?, hkind, Option.isSome_map]
    exact Node.Sound.isSome_child ⟨part, hpart, hrole⟩
  · rw [parameterType?, hkind, Option.isSome_map]
    exact Node.Sound.isSome_find_kind rfl (hp.shape.spread hkind)

theorem length_parameterTypes? {list : Node} {params : List GenericType} (hlist : list.Sound source)
    (h : ctx.parameterTypes? list = some params) :
    (list.namedChildren.filterMap Binding.parameterParts?).length ≤ params.length := by
  rw [length_of_mapM h, List.length_filterMap_eq_countP, List.length_filterMap_eq_countP]
  refine List.countP_mono_left fun p hp hparts => ?_
  exact isSome_parameterType? (Descends.named hlist p hp) hparts

theorem method?_spec {inInterface : Bool} (h : ctx.method? inInterface n = some m) :
    (m.name = if n.kind == .constructorDeclaration then constructorName
      else ((n.child? .name).map ctx.text).getD "") ∧
    ∀ list, n.child? .parameters = some list → ∃ (inner : TypeContext) (params : List GenericType),
      inner.parameterTypes? list = some params ∧
        m.descriptor.params = params.map GenericType.erasure := by
  unfold method? at h
  dsimp only at h
  split at h
  · rename_i hnone
    obtain ⟨params, -, h⟩ := Option.bind_eq_some_iff.1 h
    obtain ⟨ret, -, h⟩ := Option.bind_eq_some_iff.1 h
    cases h
    refine ⟨rfl, fun list hlist => ?_⟩
    rw [hnone] at hlist
    cases hlist
  · rename_i list hsome
    obtain ⟨params, hparams, h⟩ := Option.bind_eq_some_iff.1 h
    obtain ⟨ret, -, h⟩ := Option.bind_eq_some_iff.1 h
    cases h
    refine ⟨rfl, fun list' hlist => ?_⟩
    rw [hsome] at hlist
    cases hlist
    exact ⟨_, params, hparams, rfl⟩

namespace Makes

variable {canonical : Option (List GenericType)}

theorem name {name : Node} (h : Makes ctx canonical n m) (hkind : n.kind = .methodDeclaration)
    (hname : n.child? .name = some name) : m.name = ctx.text name := by
  cases h with
  | method _ hmethod =>
    rw [(method?_spec hmethod).1, hkind, hname]
    rfl
  | compact hkind' =>
    rw [hkind] at hkind'
    cases hkind'

theorem isDeclaration (h : Makes ctx canonical n m) : n.kind.isDeclaration = true := by
  cases h with
  | method hkind =>
    rcases hkind with hkind | hkind
    · rw [hkind]
      rfl
    · rw [hkind]
      rfl
  | compact hkind =>
    rw [hkind]
    rfl

theorem isConstructor (h : Makes ctx canonical n m)
    (hkind : n.kind = .constructorDeclaration ∨ n.kind = .compactConstructor) :
    m.isConstructor = true := by
  cases h with
  | method hkind' hmethod =>
    have hconstructor : n.kind = .constructorDeclaration := by
      rcases hkind with hkind | hkind
      · exact hkind
      · rw [hkind] at hkind'
        rcases hkind' with h | h <;> cases h
    rw [MethodDeclaration.isConstructor, (method?_spec hmethod).1, hconstructor]
    rfl
  | compact _ _ hm =>
    rw [hm]
    rfl

theorem length_parameters {list : Node} (h : Makes ctx canonical n m) (hn : n.Sound source)
    (hkind : n.kind = .methodDeclaration ∨ n.kind = .constructorDeclaration)
    (hlist : n.child? .parameters = some list) :
    (list.namedChildren.filterMap Binding.parameterParts?).length ≤
      m.descriptor.params.length := by
  cases h with
  | method _ hmethod =>
    obtain ⟨inner, params, hparams, hdescriptor⟩ := (method?_spec hmethod).2 list hlist
    rw [hdescriptor, List.length_map]
    exact length_parameterTypes? (Descends.child hn _ list hlist) hparams
  | compact hkind' =>
    rw [hkind'] at hkind
    rcases hkind with h | h <;> cases h

end Makes

theorem not_mem_fields (inInterface : Bool) (start : Option Nat) :
    DeclaredMember.method m start ∉ ctx.fields inInterface n := by
  unfold fields
  split
  · exact List.not_mem_nil
  · intro h
    obtain ⟨d, -, h⟩ := List.mem_filterMap.1 h
    obtain ⟨name, -, heq⟩ := Option.bind_eq_some_iff.1 h
    cases heq

/-- A method is found again by the node that it is made from. -/
theorem makes_of_mem_membersOf {binary : String} {kind : TypeKind}
    {canonical : Option (List GenericType)} {start : Nat}
    (h : DeclaredMember.method m (some start) ∈ ctx.membersOf binary kind canonical n) :
    n.start = start ∧ Makes ctx canonical n m := by
  unfold membersOf at h
  split at h
  · exact absurd h (not_mem_fields _ _)
  · exact absurd h (not_mem_fields _ _)
  · obtain ⟨name, -, heq⟩ := Option.map_eq_some_iff.1 (Option.mem_toList.1 h)
    cases heq
  · rename_i hkind
    obtain ⟨m', hm, heq⟩ := Option.map_eq_some_iff.1 (Option.mem_toList.1 h)
    cases heq
    exact ⟨rfl, .method (.inl hkind) hm⟩
  · rename_i hkind
    obtain ⟨m', hm, heq⟩ := Option.map_eq_some_iff.1 (Option.mem_toList.1 h)
    cases heq
    exact ⟨rfl, .method (.inr hkind) hm⟩
  · rename_i hkind
    obtain ⟨components, hcanonical, heq⟩ := Option.map_eq_some_iff.1 (Option.mem_toList.1 h)
    cases heq
    exact ⟨rfl, .compact hkind hcanonical rfl⟩
  · obtain ⟨m', -, heq⟩ := Option.map_eq_some_iff.1 (Option.mem_toList.1 h)
    cases heq
  · cases h

/-! ## Fields -/

/-- Each declarator declares a field. -/
theorem exists_field_of_declarator (ctx : TypeContext) {binary : String} {kind : TypeKind}
    {canonical : Option (List GenericType)} {d name : Node} (hn : n.Sound source)
    (hkind : n.kind = .fieldDeclaration ∨ n.kind = .constantDeclaration)
    (hd : d ∈ n.childrenIn .declarator) (hname : d.child? .name = some name) :
    ∃ f, DeclaredMember.field f ∈ ctx.membersOf binary kind canonical n ∧
      f.name = ctx.text name := by
  have htyped : n.kind.isTyped = true := by
    rcases hkind with hkind | hkind
    · rw [hkind]
      rfl
    · rw [hkind]
      rfl
  obtain ⟨part, hpart, hrole, -⟩ := hn.shape.typed htyped
  obtain ⟨type, htype⟩ :=
    Option.isSome_iff_exists.1 (Node.Sound.isSome_child ⟨part, hpart, hrole⟩)
  have hmembers : ctx.membersOf binary kind canonical n = ctx.fields kind.isInterface n := by
    unfold membersOf
    rcases hkind with hkind | hkind
    · rw [hkind]
    · rw [hkind]
  let fieldType := (ctx.fieldType type).withDims (ctx.dims d)
  let f : FieldDeclaration := FieldDeclaration.withGeneric
    { name := ctx.text name
      type := fieldType.erasure
      isStatic := kind.isInterface || n.hasModifier "static" } fieldType
  refine ⟨f, ?_, rfl⟩
  rw [hmembers, fields, htype]
  exact List.mem_filterMap.2 ⟨d, hd, by rw [hname]; rfl⟩

theorem exists_field_of_constant (ctx : TypeContext) {binary : String} {kind : TypeKind}
    {canonical : Option (List GenericType)} {name : Node} (hkind : n.kind = .enumConstant)
    (hname : n.child? .name = some name) :
    ∃ f, DeclaredMember.field f ∈ ctx.membersOf binary kind canonical n ∧
      f.name = ctx.text name := by
  refine ⟨{ name := ctx.text name, type := .object binary, isStatic := true }, ?_, rfl⟩
  unfold membersOf
  rw [hkind, hname]
  simp

end TypeContext

/-! ## Sites -/

namespace DeclarationSite

variable {index : TypeIndex} {source : SourceText} {site : DeclarationSite} {m : MethodDeclaration}

/-- The node that holds the members of a type. -/
def body? (site : DeclarationSite) : Option Node :=
  match site.form with
  | .named _ => site.node.child? .body
  | .anonymous _ => some site.node

/-- The context in which the members of a type are read. -/
def inner (index : TypeIndex) (source : SourceText) (site : DeclarationSite) : TypeContext :=
  ⟨index, source, site.bodyScope⟩

def bodyKind (site : DeclarationSite) : TypeKind :=
  match site.form with
  | .named _ => .ofNode site.node.kind
  | .anonymous _ => .class_

/-- The components of a record, as far as they are known. -/
def canonical (ctx : TypeContext) (site : DeclarationSite) : Option (List GenericType) :=
  match site.form with
  | .named _ =>
    (if TypeKind.ofNode site.node.kind == .record then recordComponents ctx site.node
      else []).mapM RecordComponent.known
  | .anonymous _ => some []

/-- What is written in the body of a type. -/
def written (index : TypeIndex) (source : SourceText) (site : DeclarationSite) :
    List DeclaredMember :=
  ((site.body?.map memberNodes).getD []).flatMap
    ((site.inner index source).membersOf site.binary site.bodyKind
      (site.canonical (site.inner index source)))

theorem mem_written_iff {member : DeclaredMember} :
    member ∈ site.written index source ↔ ∃ body ∈ site.body?, ∃ n ∈ memberNodes body,
      member ∈ (site.inner index source).membersOf site.binary site.bodyKind
        (site.canonical (site.inner index source)) n := by
  rw [written, List.mem_flatMap]
  cases site.body? <;> simp

theorem located_members : (site.members index source).located =
    (site.written index source).filterMap DeclaredMember.located? := by
  obtain ⟨binary, node, form, scope⟩ := site
  cases form with
  | named params => rfl
  | anonymous base => rfl

theorem field_mem_members {f : FieldDeclaration}
    (h : DeclaredMember.field f ∈ site.written index source) :
    f ∈ (site.members index source).fields := by
  have hf : f ∈ (site.written index source).filterMap DeclaredMember.field? :=
    List.mem_filterMap.2 ⟨_, h, rfl⟩
  obtain ⟨binary, node, form, scope⟩ := site
  cases form with
  | named params => exact List.mem_append_right _ hf
  | anonymous base => exact hf

/-- Accessors come after what is declared. -/
theorem subset_addAccessors (components : List RecordComponent)
    (methods : List MethodDeclaration) :
    methods ⊆ ImplicitMembers.addAccessors components methods := by
  unfold ImplicitMembers.addAccessors
  induction components generalizing methods with
  | nil => exact List.Subset.refl _
  | cons c rest ih =>
    rw [List.foldl_cons]
    refine List.Subset.trans ?_ (ih _)
    split
    · exact List.Subset.refl _
    · split
      · exact List.Subset.refl _
      · exact List.subset_append_left _ _

theorem method_mem_members {start : Option Nat}
    (h : DeclaredMember.method m start ∈ site.written index source) :
    m ∈ (site.members index source).methods := by
  have hm : m ∈ (site.written index source).filterMap DeclaredMember.method? :=
    List.mem_filterMap.2 ⟨_, h, rfl⟩
  obtain ⟨binary, node, form, scope⟩ := site
  cases form with
  | named params =>
    have hown {p : Bool} {methods implicit : List MethodDeclaration} (hm : m ∈ methods) :
        m ∈ if p then methods ++ implicit else methods := by
      split
      · exact List.mem_append_left _ hm
      · exact hm
    have hrecord {p : Bool} {components : List RecordComponent}
        {methods implicit : List MethodDeclaration} (hm : m ∈ methods) :
        m ∈ if p then ImplicitMembers.addAccessors components (methods ++ implicit)
          else methods := by
      split
      · exact subset_addAccessors _ _ (List.mem_append_left _ hm)
      · exact hm
    exact hrecord (hown (List.mem_append_left _ hm))
  | anonymous base => exact hm

/-- What is found by where it starts is written there. -/
theorem exists_of_mem_located {start : Nat}
    (h : (start, m) ∈ (site.members index source).located) :
    m ∈ (site.members index source).methods ∧ ∃ body ∈ site.body?, ∃ n ∈ memberNodes body,
      n.start = start ∧
        (site.inner index source).Makes (site.canonical (site.inner index source)) n m := by
  rw [located_members] at h
  obtain ⟨member, hmember, hlocated⟩ := List.mem_filterMap.1 h
  cases member with
  | field f => cases hlocated
  | method m' place =>
    cases place with
    | none => cases hlocated
    | some place =>
      cases hlocated
      obtain ⟨body, hbody, n, hn, hmem⟩ := mem_written_iff.1 hmember
      exact ⟨method_mem_members hmember, body, hbody, n, hn,
        TypeContext.makes_of_mem_membersOf hmem⟩

theorem exists_field_of_declarator {body n d name : Node} (hbody : site.body? = some body)
    (hmem : n ∈ memberNodes body) (hn : n.Sound source)
    (hkind : n.kind = .fieldDeclaration ∨ n.kind = .constantDeclaration)
    (hd : d ∈ n.childrenIn .declarator) (hname : d.child? .name = some name) :
    ∃ f ∈ (site.members index source).fields, f.name = source.text name := by
  obtain ⟨f, hf, hfname⟩ :=
    (site.inner index source).exists_field_of_declarator hn hkind hd hname
  exact ⟨f, field_mem_members (mem_written_iff.2 ⟨body, hbody, n, hmem, hf⟩), hfname⟩

theorem exists_field_of_constant {body n name : Node} (hbody : site.body? = some body)
    (hmem : n ∈ memberNodes body) (hkind : n.kind = .enumConstant)
    (hname : n.child? .name = some name) :
    ∃ f ∈ (site.members index source).fields, f.name = source.text name := by
  obtain ⟨f, hf, hfname⟩ :=
    (site.inner index source).exists_field_of_constant hkind hname
  exact ⟨f, field_mem_members (mem_written_iff.2 ⟨body, hbody, n, hmem, hf⟩), hfname⟩

/-! ## Records -/

/-- A component of a record that has a name has a type too. -/
theorem exists_component {n list p name : Node} (hn : n.Sound source)
    (hkind : n.kind = .recordDeclaration) (hlist : n.child? .parameters = some list)
    (hp : p ∈ list.namedChildren) (hname : p.child? .name = some name) :
    ∃ type, p.child? .type = some type := by
  have hformal := hn.kind_component hkind hlist hp hname
  have hp' : p.Sound source := Descends.named (Descends.child hn _ list hlist) p hp
  have htyped : p.kind.isTyped = true := by
    rw [hformal]
    rfl
  obtain ⟨part, hpart, hrole, -⟩ := hp'.shape.typed htyped
  exact Option.isSome_iff_exists.1 (Node.Sound.isSome_child ⟨part, hpart, hrole⟩)

theorem length_recordComponents (ctx : TypeContext) {n list : Node} (hn : n.Sound source)
    (hkind : n.kind = .recordDeclaration) (hlist : n.child? .parameters = some list) :
    (list.namedChildren.filterMap (·.child? .name)).length ≤ (recordComponents ctx n).length := by
  rw [recordComponents, hlist, Option.map_some, Option.getD_some, List.length_filterMap_eq_countP,
    List.length_filterMap_eq_countP]
  refine List.countP_mono_left fun p hp hname => ?_
  obtain ⟨name, hname⟩ := Option.isSome_iff_exists.1 hname
  obtain ⟨type, htype⟩ := exists_component hn hkind hlist hp hname
  simp [hname, htype]

/-- The constructor of a record takes all components that have names. -/
theorem length_canonical {ctx : TypeContext} {list : Node} {components : List GenericType}
    (hn : site.node.Sound source) (hform : site.isAnonymous = false)
    (hkind : site.node.kind = .recordDeclaration) (hlist : site.node.child? .parameters = some list)
    (hcanonical : site.canonical ctx = some components) :
    (list.namedChildren.filterMap (·.child? .name)).length ≤ components.length := by
  obtain ⟨binary, node, form, scope⟩ := site
  cases form with
  | anonymous base => cases hform
  | named params =>
    dsimp only at hkind hlist hn
    simp only [canonical, hkind, TypeKind.ofNode, beq_self_eq_true, if_true] at hcanonical
    rw [TypeContext.length_of_mapM hcanonical]
    exact length_recordComponents ctx hn hkind hlist

theorem exists_field_of_component {list p name : Node} (hn : site.node.Sound source)
    (hform : site.isAnonymous = false) (hkind : site.node.kind = .recordDeclaration)
    (hlist : site.node.child? .parameters = some list) (hp : p ∈ list.namedChildren)
    (hname : p.child? .name = some name) :
    ∃ f ∈ (site.members index source).fields, f.name = source.text name := by
  obtain ⟨type, htype⟩ := exists_component hn hkind hlist hp hname
  obtain ⟨binary, node, form, scope⟩ := site
  cases form with
  | anonymous base => cases hform
  | named params =>
    dsimp only at hkind hlist
    let ctx : TypeContext := inner index source ⟨binary, node, .named params, scope⟩
    let component : RecordComponent := ⟨source.text name, ctx.fieldType type, ctx.type? type⟩
    have hcomponent : component ∈ recordComponents ctx node := by
      rw [recordComponents, hlist]
      exact List.mem_filterMap.2 ⟨p, hp, by rw [hname, htype]; rfl⟩
    refine ⟨_, List.mem_append_left _ (List.mem_map.2 ⟨component, ?_, rfl⟩), rfl⟩
    rw [if_pos (by rw [hkind]; rfl)]
    exact hcomponent

end DeclarationSite

end Renaming.Java
