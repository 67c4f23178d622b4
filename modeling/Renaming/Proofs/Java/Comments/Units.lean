import Renaming.Java.Declared.Members
import Renaming.Java.Declared.Supertypes
import Renaming.Proofs.Java.Comments.Registration
import Renaming.Proofs.Java.Declared.Units
import Renaming.Proofs.SortedMap

/-!
# Members and units around a comment

The supertypes and the members of a type are read off its declaration by role and by kind, so that
they are the same with a comment put in; only the places of methods move. A comment that is put into
one unit of a program thus leaves the index as it is, and all the other units. In the unit itself,
declarations are found by where they start after the insertion.
-/

namespace Renaming.Java

open Node (Echo Respelled)

variable {i : Insertion} {r : Rereading} {index : TypeIndex} {scope : TypeScope} {n n' : Node}

/-! ## Supertypes -/

/-- The types among some nodes. -/
theorem filterMap_type? {ns ns' : List Node}
    (h : Joined r.toInsertion (Echo r.toInsertion) ns ns') :
    ns'.filterMap (TypeContext.type? ⟨index, r.source', scope⟩) =
      ns.filterMap (TypeContext.type? ⟨index, r.source, scope⟩) := by
  induction h with
  | nil => rw [List.filterMap_nil, List.filterMap_nil]
  | cons hn _ ih =>
    rw [List.filterMap_cons, List.filterMap_cons, TypeContext.type?_echo hn, ih]
  | added hc _ ih => rw [List.filterMap_cons, TypeContext.type?_added hc, ih]

/-- The type at a node that may be missing. -/
theorem bind_type?_eq {x x' : Option Node} (h : Option.Rel (Echo r.toInsertion) x x') :
    x'.bind (TypeContext.type? ⟨index, r.source', scope⟩) =
      x.bind (TypeContext.type? ⟨index, r.source, scope⟩) := by
  cases h with
  | none => rfl
  | some hc => exact TypeContext.type?_echo hc

/-- The node that lists types, below another one or that one itself. -/
theorem typeList_echo (h : Echo i n n') :
    Echo i ((n.childOfKind? .typeList).getD n) ((n'.childOfKind? .typeList).getD n') := by
  have hlist := h.childOfKind? .typeList rfl
  generalize n.childOfKind? .typeList = x, n'.childOfKind? .typeList = x' at hlist
  cases hlist with
  | none => exact h
  | some hc => exact hc

namespace DeclarationSite

theorem writtenSuperclass?_echo (h : Node.Echo r.toInsertion n n') :
    writtenSuperclass? ⟨index, r.source', scope⟩ n' =
      writtenSuperclass? ⟨index, r.source, scope⟩ n := by
  have hsections := List.rel_reverse <| h.allNamedWith (· == .superclass) fun _ hkind =>
    NodeKind.beq_eq_false hkind rfl
  unfold writtenSuperclass?
  simp only [← List.head?_reverse]
  generalize (n.namedChildren.filter _).reverse = ns, (n'.namedChildren.filter _).reverse = ns'
    at hsections
  cases hsections with
  | nil => rfl
  | cons hs _ =>
    simp only [List.head?_cons, Option.bind_some]
    exact bind_type?_eq (hs.namedWith? fun _ => NodeKind.isType_eq_false)

theorem writtenInterfaces_echo (h : Node.Echo r.toInsertion n n') :
    writtenInterfaces ⟨index, r.source', scope⟩ n' =
      writtenInterfaces ⟨index, r.source, scope⟩ n := by
  have hsections := h.allNamedWith
    (fun k => k == .superInterfaces || k == .extendsInterfaces) fun _ hkind => by
      rw [NodeKind.beq_eq_false hkind rfl, NodeKind.beq_eq_false hkind rfl]
      rfl
  unfold writtenInterfaces
  dsimp only
  generalize n.namedChildren.filter _ = ns, n'.namedChildren.filter _ = ns' at hsections
  induction hsections with
  | nil => rw [List.flatMap_nil, List.flatMap_nil]
  | cons hs _ ih =>
    rw [List.flatMap_cons, List.flatMap_cons, filterMap_type? (typeList_echo hs).named, ih]

theorem supertypes_echo {site site' : DeclarationSite}
    (h : DeclarationSite.Echo r.toInsertion site site') :
    site'.supertypes index r.source' = site.supertypes index r.source := by
  obtain ⟨hbinary, hnode, hform, hscope⟩ := h
  unfold supertypes
  rw [hform, hscope, hbinary]
  cases site.form with
  | anonymous base => rfl
  | named typeParams =>
    dsimp only [namedSupertypes]
    rw [writtenInterfaces_echo hnode, writtenSuperclass?_echo hnode, hnode.kind_eq]

end DeclarationSite

/-! ## Members -/

/-- A member where it is after an insertion. -/
def DeclaredMember.moved (i : Insertion) : DeclaredMember → DeclaredMember
  | field f => .field f
  | method m start => .method m (start.map i.start)

namespace TypeContext

theorem fieldType_eq (h : Respelled r n n') :
    fieldType ⟨index, r.source', scope⟩ n' = fieldType ⟨index, r.source, scope⟩ n := by
  unfold fieldType
  rw [type?_echo h.echo, show text ⟨index, r.source', scope⟩ n' = text ⟨index, r.source, scope⟩ n
    from h.text_eq]

theorem parameterType?_eq (h : Echo r.toInsertion n n') :
    parameterType? ⟨index, r.source', scope⟩ n' =
      parameterType? ⟨index, r.source, scope⟩ n := by
  unfold parameterType?
  rw [h.kind_eq]
  split
  · rename_i hkind
    have hdims : dims ⟨index, r.source', scope⟩ n' = dims ⟨index, r.source, scope⟩ n :=
      h.dimensionCount_eq (.inl (by simp [hkind]))
    have htype := h.child? .type
    generalize n.child? .type = x, n'.child? .type = x' at htype
    cases htype with
    | none => rfl
    | some hc => simp only [Option.map_some, type?_echo hc, hdims]
  · have htype := h.namedWith? fun _ => NodeKind.isType_eq_false
    generalize n.namedChildren.find? _ = x, n'.namedChildren.find? _ = x' at htype
    cases htype with
    | none => rfl
    | some hc => simp only [Option.map_some, type?_echo hc]
  · rfl

theorem parameterType?_added {c : Node} (hc : i.adds c = true) (ctx : TypeContext) :
    ctx.parameterType? c = none := by
  obtain ⟨kind, text, rfl, hkind⟩ := Insertion.adds_iff.1 hc
  cases kind <;> rfl

theorem parameterTypes?_echo (h : Echo r.toInsertion n n') :
    parameterTypes? ⟨index, r.source', scope⟩ n' =
      parameterTypes? ⟨index, r.source, scope⟩ n := by
  have hparams := h.named.filterMap (S := Eq)
    (f := parameterType? ⟨index, r.source, scope⟩) (g := parameterType? ⟨index, r.source', scope⟩)
    (fun p p' hp => by
      rw [parameterType?_eq hp]
      cases parameterType? _ p with
      | none => exact .none
      | some t => exact .some rfl)
    fun c hc => parameterType?_added hc _
  rw [List.forall₂_eq_eq_eq] at hparams
  rw [parameterTypes?, parameterTypes?, hparams]

theorem isVarargs_eq (h : Echo i n n') : isVarargs n' = isVarargs n := by
  refine (h.named.any_eq (fun p p' hp => ?_) fun c hc => ?_).symm
  · rw [hp.kind_eq, hp.named.any_eq (fun _ _ hc => hc.kindTest (·.isType)) fun _ hc =>
      Insertion.test_of_adds hc fun _ => NodeKind.isType_eq_false]
  · rw [Insertion.kind_beq_of_adds hc rfl, Bool.false_and]

/-- A child of a node that declares a method. -/
theorem dims_eq (h : Echo r.toInsertion n n') (hkind : n.kind ≠ .arrayCreation) :
    dims ⟨index, r.source', scope⟩ n' = dims ⟨index, r.source, scope⟩ n :=
  h.dimensionCount_eq (.inl hkind)

theorem resultType?_echo (h : Echo r.toInsertion n n') (hkind : n.kind ≠ .arrayCreation) :
    resultType? ⟨index, r.source', scope⟩ n' = resultType? ⟨index, r.source, scope⟩ n := by
  have htype := h.child? .type
  unfold resultType?
  rw [h.kind_eq, dims_eq h hkind]
  generalize n.child? .type = x, n'.child? .type = x' at htype
  cases htype with
  | none => rfl
  | some hc =>
    rw [Option.filter_some, Option.filter_some, hc.kind_eq]
    split
    · rfl
    · cases _ != NodeKind.voidType with
      | false => rfl
      | true => exact congrArg (Option.map _) (type?_echo hc)

theorem method?_echo (h : Echo r.toInsertion n n') (hkind : n.kind ≠ .arrayCreation)
    (hannotated : n.kind.isAnnotated = false) (inInterface : Bool) :
    method? ⟨index, r.source', scope⟩ inInterface n' =
      method? ⟨index, r.source, scope⟩ inInterface n := by
  have hparams := h.child? .parameters
  have hbody := h.child? .body
  have hname : (n'.child? .name).map (text ⟨index, r.source', scope⟩) =
      (n.child? .name).map (text ⟨index, r.source, scope⟩) := by
    have hname := h.name? (.inl hannotated)
    generalize n.child? .name = x, n'.child? .name = x' at hname
    cases hname with
    | none => rfl
    | some hc => exact congrArg some hc.text_eq
  have hnobody : (n'.child? .body).isNone = (n.child? .body).isNone := by
    generalize n.child? .body = x, n'.child? .body = x' at hbody
    cases hbody <;> rfl
  unfold method?
  rw [← (follows_parametersOf h).value, hname, hnobody, h.kind_eq, ← h.hasModifier_eq,
    ← h.hasModifier_eq, ← h.hasModifier_eq]
  dsimp only
  rw [resultType?_echo h hkind]
  generalize n.child? .parameters = x, n'.child? .parameters = x' at hparams
  cases hparams with
  | none => rfl
  | some hc =>
    dsimp only [Option.any_some]
    rw [parameterTypes?_echo hc, isVarargs_eq hc]

theorem fields_eq (h : Echo r.toInsertion n n')
    (hkind : n.kind = .fieldDeclaration ∨ n.kind = .constantDeclaration) (inInterface : Bool) :
    fields ⟨index, r.source', scope⟩ inInterface n' =
      fields ⟨index, r.source, scope⟩ inInterface n := by
  have htype := h.readChild? .type fun c' hc' => by
    simp only [Node.reads, hc', h.kind_eq]
    rcases hkind with hkind | hkind <;> simp [hkind]
  have hdeclarators := h.childrenIn .declarator
  have hroles : ∀ d ∈ n.childrenIn .declarator, d.role = some .declarator :=
    fun d hd => by simpa using (List.mem_filter.1 hd).2
  unfold fields
  rw [← h.hasModifier_eq]
  generalize n.child? .type = x, n'.child? .type = x' at htype
  cases htype with
  | none => rfl
  | some hc =>
    dsimp only
    rw [fieldType_eq hc]
    generalize n.childrenIn .declarator = ds, n'.childrenIn .declarator = ds' at hdeclarators hroles
    induction hdeclarators with
    | nil => rw [List.filterMap_nil, List.filterMap_nil]
    | @cons d d' _ _ hd _ ih =>
      have hrole := hroles d (by simp)
      have hname := hd.name? (.inr hrole)
      have hdims : dims ⟨index, r.source', scope⟩ d' = dims ⟨index, r.source, scope⟩ d :=
        hd.dimensionCount_eq (.inr hrole)
      rw [List.filterMap_cons, List.filterMap_cons, ih fun e he => hroles e (by simp [he]), hdims]
      generalize d.child? .name = x, d'.child? .name = x' at hname
      cases hname with
      | none => rfl
      | @some name name' hname =>
        have htext : text ⟨index, r.source', scope⟩ name' = text ⟨index, r.source, scope⟩ name :=
          hname.text_eq
        simp only [Option.bind_eq_bind, Option.bind_some, htext]

theorem annotationElement?_eq (h : Echo r.toInsertion n n') (hkind : n.kind = .annotationElement) :
    annotationElement? ⟨index, r.source', scope⟩ n' =
      annotationElement? ⟨index, r.source, scope⟩ n := by
  have hname := h.name? (.inl (by rw [hkind]; rfl))
  have htype := h.child? .type
  unfold annotationElement?
  rw [dims_eq h (by simp [hkind])]
  generalize n.child? .name = x, n'.child? .name = x' at hname
  cases hname with
  | none => rfl
  | @some name name' hname =>
    have htext : text ⟨index, r.source', scope⟩ name' = text ⟨index, r.source, scope⟩ name :=
      hname.text_eq
    generalize n.child? .type = x, n'.child? .type = x' at htype
    cases htype with
    | none => rfl
    | some htype => simp only [Option.bind_eq_bind, Option.bind_some, htext, type?_echo htype]

theorem map_moved_fields (inInterface : Bool) (n : Node) (ctx : TypeContext) :
    (ctx.fields inInterface n).map (·.moved i) = ctx.fields inInterface n := by
  unfold fields
  cases n.child? .type with
  | none => rfl
  | some type =>
    rw [List.map_filterMap]
    congr 1
    funext d
    cases d.child? .name <;> rfl

theorem membersOf_moved (h : Echo r.toInsertion n n') (binary : String) (kind : TypeKind)
    (canonical : Option (List GenericType)) :
    membersOf ⟨index, r.source', scope⟩ binary kind canonical n' =
      (membersOf ⟨index, r.source, scope⟩ binary kind canonical n).map
        (·.moved r.toInsertion) := by
  unfold membersOf
  rw [h.kind_eq]
  split
  · rename_i hkind
    rw [map_moved_fields, fields_eq h (.inl hkind)]
  · rename_i hkind
    rw [map_moved_fields, fields_eq h (.inr hkind)]
  · rename_i hkind
    have hname := h.name? (.inl (by rw [hkind]; rfl))
    generalize n.child? .name = x, n'.child? .name = x' at hname
    cases hname with
    | none => rfl
    | @some name name' hname =>
      have htext : text ⟨index, r.source', scope⟩ name' = text ⟨index, r.source, scope⟩ name :=
        hname.text_eq
      rw [Option.map_some, htext]
      rfl
  · rename_i hkind
    rw [method?_echo h (by simp [hkind]) (by rw [hkind]; rfl), h.start_eq]
    cases method? _ _ n <;> rfl
  · rename_i hkind
    rw [method?_echo h (by simp [hkind]) (by rw [hkind]; rfl), h.start_eq]
    cases method? _ _ n <;> rfl
  · rw [h.start_eq]
    cases canonical <;> rfl
  · rename_i hkind
    rw [annotationElement?_eq h hkind]
    cases annotationElement? _ n <;> rfl
  · rfl

theorem membersOf_added {c : Node} (hc : i.adds c = true) (ctx : TypeContext) (binary : String)
    (kind : TypeKind) (canonical : Option (List GenericType)) :
    ctx.membersOf binary kind canonical c = [] := by
  obtain ⟨k, text, rfl, hkind⟩ := Insertion.adds_iff.1 hc
  rcases NodeKind.isComment_cases hkind with rfl | rfl <;> rfl

theorem flatMap_membersOf {ns ns' : List Node}
    (h : Joined r.toInsertion (Echo r.toInsertion) ns ns') (binary : String) (kind : TypeKind)
    (canonical : Option (List GenericType)) :
    ns'.flatMap (membersOf ⟨index, r.source', scope⟩ binary kind canonical) =
      (ns.flatMap (membersOf ⟨index, r.source, scope⟩ binary kind canonical)).map
        (·.moved r.toInsertion) := by
  induction h with
  | nil => rw [List.flatMap_nil, List.flatMap_nil, List.map_nil]
  | cons hn _ ih =>
    rw [List.flatMap_cons, List.flatMap_cons, List.map_append, membersOf_moved hn, ih]
  | added hc _ ih => rw [List.flatMap_cons, membersOf_added hc, List.nil_append, ih]

end TypeContext

theorem memberNodes_joined (h : Echo i n n') :
    Joined i (Echo i) (memberNodes n) (memberNodes n') := by
  refine h.named.flatMap (fun c c' hc => ?_) fun c hc => ?_
  · rw [hc.kind_eq]
    split
    · exact hc.named
    · exact .cons hc .nil
  · rw [Insertion.kind_beq_of_adds hc rfl]
    exact .added hc .nil

theorem recordComponents_eq (h : Echo r.toInsertion n n') (hkind : n.kind = .recordDeclaration) :
    recordComponents ⟨index, r.source', scope⟩ n' =
      recordComponents ⟨index, r.source, scope⟩ n := by
  have hcomponents := (h.components hkind).filterMap (S := Eq)
    (f := fun p => do
      let type ← p.child? .type
      let name ← p.child? .name
      pure (⟨TypeContext.text ⟨index, r.source, scope⟩ name,
        TypeContext.fieldType ⟨index, r.source, scope⟩ type,
        TypeContext.type? ⟨index, r.source, scope⟩ type⟩ : RecordComponent))
    (g := fun p => do
      let type ← p.child? .type
      let name ← p.child? .name
      pure ⟨TypeContext.text ⟨index, r.source', scope⟩ name,
        TypeContext.fieldType ⟨index, r.source', scope⟩ type,
        TypeContext.type? ⟨index, r.source', scope⟩ type⟩)
    (fun p p' ⟨_, htype, hname⟩ => by
      generalize p.child? .type = x, p'.child? .type = x' at htype
      cases htype with
      | none => exact .none
      | some htype =>
        generalize p.child? .name = x, p'.child? .name = x' at hname
        cases hname with
        | none => exact .none
        | some hname =>
          refine .some ?_
          rw [TypeContext.fieldType_eq htype, TypeContext.type?_echo htype.echo]
          exact congrArg (RecordComponent.mk · _ _) hname.text_eq.symm)
    fun c hc => by rw [Insertion.child?_of_adds hc]; rfl
  rw [List.forall₂_eq_eq_eq] at hcomponents
  exact hcomponents.symm

/-- Members where they are after an insertion. -/
def DeclaredMembers.moved (i : Insertion) (m : DeclaredMembers) : DeclaredMembers :=
  { m with located := m.located.map fun (start, method) => (i.start start, method) }

section Found

variable (found : List DeclaredMember)

theorem fields_moved :
    (found.map (·.moved i)).filterMap DeclaredMember.field? =
      found.filterMap DeclaredMember.field? := by
  rw [List.filterMap_map]
  congr 1
  funext m
  cases m <;> rfl

theorem methods_moved :
    (found.map (·.moved i)).filterMap DeclaredMember.method? =
      found.filterMap DeclaredMember.method? := by
  rw [List.filterMap_map]
  congr 1
  funext m
  cases m <;> rfl

theorem located_moved :
    (found.map (·.moved i)).filterMap DeclaredMember.located? =
      (found.filterMap DeclaredMember.located?).map fun (start, m) => (i.start start, m) := by
  rw [List.filterMap_map, List.map_filterMap]
  congr 1
  funext m
  cases m with
  | field f => rfl
  | method m start => cases start <;> rfl

end Found

namespace DeclarationSite

variable {site site' : DeclarationSite}

theorem ofNode_eq_record {k : NodeKind} (h : (TypeKind.ofNode k == .record) = true) :
    k = .recordDeclaration := by
  cases k <;> first | rfl | cases h

theorem anonymousMembers_moved (h : DeclarationSite.Echo r.toInsertion site site') :
    site'.anonymousMembers ⟨index, r.source', scope⟩ =
      (site.anonymousMembers ⟨index, r.source, scope⟩).moved r.toInsertion := by
  unfold anonymousMembers
  dsimp only
  rw [h.binary_eq, TypeContext.flatMap_membersOf (memberNodes_joined h.node), fields_moved,
    methods_moved, located_moved]
  rfl

theorem namedMembers_moved (h : DeclarationSite.Echo r.toInsertion site site') :
    site'.namedMembers ⟨index, r.source', scope⟩ =
      (site.namedMembers ⟨index, r.source, scope⟩).moved r.toInsertion := by
  have hcomponents : (if (TypeKind.ofNode site.node.kind == .record) = true then
        recordComponents ⟨index, r.source', scope⟩ site'.node else []) =
      if (TypeKind.ofNode site.node.kind == .record) = true then
        recordComponents ⟨index, r.source, scope⟩ site.node else [] := by
    split
    · rename_i hrecord
      exact recordComponents_eq h.node (ofNode_eq_record hrecord)
    · rfl
  have hnodes : Joined r.toInsertion (Node.Echo r.toInsertion)
      (((site.node.child? .body).map memberNodes).getD [])
      (((site'.node.child? .body).map memberNodes).getD []) := by
    have hbody := h.node.child? .body
    generalize site.node.child? .body = x, site'.node.child? .body = x' at hbody
    cases hbody with
    | none => exact .nil
    | some hc => exact memberNodes_joined hc
  unfold namedMembers
  rw [h.node.kind_eq, h.binary_eq]
  dsimp only
  rw [hcomponents, TypeContext.flatMap_membersOf hnodes, fields_moved, methods_moved, located_moved]
  rfl

theorem members_moved (h : DeclarationSite.Echo r.toInsertion site site') :
    site'.members index r.source' = (site.members index r.source).moved r.toInsertion := by
  have hscope : site'.bodyScope = site.bodyScope := by
    rw [bodyScope, bodyScope, h.scope_eq, h.binary_eq]
  unfold members
  rw [h.form_eq, hscope]
  cases site.form with
  | named params => exact namedMembers_moved h
  | anonymous base => exact anonymousMembers_moved h

end DeclarationSite

/-! ## Units -/

/-- A unit with a comment put in. -/
structure ParsedUnit.Echo (r : Rereading) (unit unit' : ParsedUnit) : Prop where
  source : unit.source = r.source
  source' : unit'.source = r.source'
  tree : Option.Rel (Node.Echo r.toInsertion) unit.tree unit'.tree

/-- What is known of a unit with a comment put in. -/
structure DeclaredUnit.Echo (r : Rereading) (unit unit' : DeclaredUnit) : Prop where
  parsed : unit.unit.Echo r unit'.unit
  header_eq : unit'.header = unit.header
  types : ∀ start, unit'.types.get? (r.start start) = unit.types.get? start
  methods : ∀ start, unit'.methods.get? (r.start start) = unit.methods.get? start

namespace ParsedUnit.Echo

variable {unit unit' : ParsedUnit} (h : unit.Echo r unit')
include h

theorem registered_eq :
    unit'.registered = unit.registered.map (·.moved r.toInsertion) := by
  have htree := h.tree
  unfold registered
  rw [h.source, h.source']
  generalize unit.tree = x, unit'.tree = x' at htree
  cases htree with
  | none => rfl
  | some hc => exact registeredTypes_moved hc

theorem declared (index : TypeIndex) : (unit.declared index).Echo r (unit'.declared index) := by
  have htree := h.tree
  have hregistered := h.registered_eq
  unfold ParsedUnit.declared
  generalize hx : unit.tree = x, hx' : unit'.tree = x' at htree
  cases htree with
  | none => exact ⟨h, rfl, fun _ => rfl, fun _ => rfl⟩
  | some hc =>
    refine ⟨h, ?_, fun start => ?_, fun _ => rfl⟩
    · dsimp only
      rw [h.source, h.source', declaredPackage_eq hc, declaredImports_eq hc]
    · dsimp only
      rw [hregistered, List.map_map]
      have hkeys := SortedMap.get?_ofList_mapKeys (unit.registered.map fun t => (t.start, t.binary))
        (fun _ _ => r.start_inj) start
      rw [List.map_map] at hkeys
      exact hkeys

end ParsedUnit.Echo

namespace DeclaredUnit.Echo

variable {unit unit' : DeclaredUnit} (h : unit.Echo r unit')
include h

theorem sites (index : TypeIndex) :
    List.Forall₂ (DeclarationSite.Echo r.toInsertion) (unit.sites index) (unit'.sites index) := by
  have htree := h.parsed.tree
  unfold DeclaredUnit.sites
  rw [h.header_eq, h.parsed.source, h.parsed.source']
  generalize unit.unit.tree = x, unit'.unit.tree = x' at htree
  cases htree with
  | none => exact .nil
  | some hc => exact declarationSites_echo h.types hc

theorem supertypes_eq : unit'.supertypes index = unit.supertypes index := by
  have hsites := h.sites index
  unfold DeclaredUnit.supertypes
  rw [h.parsed.source, h.parsed.source']
  generalize unit.sites index = sites, unit'.sites index = sites' at hsites
  induction hsites with
  | nil => rw [List.map_nil, List.map_nil]
  | cons hsite _ ih =>
    rw [List.map_cons, List.map_cons, DeclarationSite.supertypes_echo hsite, hsite.binary_eq, ih]

theorem members_eq (index : TypeIndex) : unit'.members index =
    (unit.members index).map fun (binary, m) => (binary, m.moved r.toInsertion) := by
  have hsites := h.sites index
  unfold DeclaredUnit.members
  rw [h.parsed.source, h.parsed.source']
  generalize unit.sites index = sites, unit'.sites index = sites' at hsites
  induction hsites with
  | nil => rfl
  | cons hsite _ ih =>
    rw [List.map_cons, List.map_cons, List.map_cons, DeclarationSite.members_moved hsite,
      hsite.binary_eq, ih]

theorem withMethods (members : List (String × DeclaredMembers)) :
    (unit.withMethods members).Echo r
      (unit'.withMethods (members.map fun (binary, m) => (binary, m.moved r.toInsertion))) := by
  refine ⟨h.parsed, h.header_eq, h.types, fun start => ?_⟩
  have hkeys := SortedMap.get?_ofList_mapKeys (members.flatMap fun (owner, m) =>
    m.located.map fun (start, method) => (start, (owner, method))) (fun _ _ => r.start_inj) start
  rw [List.map_flatMap] at hkeys
  unfold DeclaredUnit.withMethods
  dsimp only
  rw [List.flatMap_map, ← hkeys]
  simp only [DeclaredMembers.moved, List.map_map, Function.comp_def]

end DeclaredUnit.Echo

namespace Program

/-- With a comment put into one unit, the index is the same, and so are the other units. -/
theorem ofUnits_echo (known : TypeIndex) (before after : List ParsedUnit)
    {unit unit' : ParsedUnit} (h : unit.Echo r unit') :
    (ofUnits known (before ++ unit' :: after)).index =
        (ofUnits known (before ++ unit :: after)).index ∧
      ∃ front back declared declared',
        (ofUnits known (before ++ unit :: after)).units = front ++ declared :: back ∧
        (ofUnits known (before ++ unit' :: after)).units = front ++ declared' :: back ∧
        front.length = before.length ∧ declared.unit = unit ∧ declared'.unit = unit' ∧
        declared.Echo r declared' := by
  have hentered : entered known (before ++ unit' :: after) =
      entered known (before ++ unit :: after) := by
    simp only [entered, TypeIndex.register, List.flatMap_append, List.flatMap_cons,
      h.registered_eq, List.map_append, List.filterMap_append, List.map_map, List.filterMap_map]
    rfl
  have hlinked : linked known (before ++ unit' :: after) =
      linked known (before ++ unit :: after) := by
    simp only [linked, hentered, TypeIndex.readSupertypes, List.map_append, List.map_cons,
      List.flatMap_append, List.flatMap_cons, (h.declared _).supertypes_eq]
  have hmembers := (h.declared (entered known (before ++ unit :: after))).members_eq
    (linked known (before ++ unit :: after))
  constructor
  · rw [index_ofUnits, index_ofUnits, hlinked, hentered]
    simp only [List.flatMap_append, List.flatMap_cons, hmembers, TypeIndex.enterMembers,
      List.foldl_append, List.foldl_map]
    rfl
  · rw [units_ofUnits, units_ofUnits, hlinked, hentered]
    simp only [List.map_append, List.map_cons, hmembers]
    exact ⟨_, _, _, _, rfl, rfl, List.length_map _, ParsedUnit.unit_declared _ _,
      ParsedUnit.unit_declared _ _, (h.declared _).withMethods _⟩

end Program

end Renaming.Java
