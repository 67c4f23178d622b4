import Renaming.Java.Declared.Site
import Renaming.Proofs.Java.Comments.TypeUse

/-!
# Declared types around a comment

A unit with a comment put in declares the same types, where they are after the insertion. Its
package and its imports are read off whole names, which are not parted. The types are found again at
sites that echo each other, in the same scopes.
-/

namespace Renaming.Java

open Node (Echo Respelled)

variable {i : Insertion} {r : Rereading}

theorem isNameNode_of_adds {c : Node} (h : i.adds c = true) : isNameNode c = false := by
  rw [isNameNode, Insertion.kind_beq_of_adds h rfl, Insertion.kind_beq_of_adds h rfl]
  rfl

theorem isNameNode_eq {n n' : Node} (h : Echo i n n') : isNameNode n = isNameNode n' := by
  rw [isNameNode, isNameNode, h.kind_eq]

/-! ## Packages and imports -/

theorem nameSegments_eq {n n' : Node} (h : Respelled r n n') :
    nameSegments r.source' n' = nameSegments r.source n := by
  rw [nameSegments, nameSegments, h.text_eq]

/-- The last of some names. -/
theorem lastSegments_eq {ns ns' : List Node} (h : List.Forall₂ (Respelled r) ns ns') :
    (ns'.getLast?.map fun n => Text.join "." (nameSegments r.source' n)) =
      ns.getLast?.map fun n => Text.join "." (nameSegments r.source n) := by
  have hreversed := List.rel_reverse h
  simp only [← List.head?_reverse]
  generalize ns.reverse = ms, ns'.reverse = ms' at hreversed
  cases hreversed with
  | nil => simp only [List.head?_nil, Option.map_none]
  | cons hn _ => simp only [List.head?_cons, Option.map_some, nameSegments_eq hn]

theorem declaredPackage_eq {root root' : Node} (h : Echo r.toInsertion root root') :
    declaredPackage r.source' root' = declaredPackage r.source root := by
  have hdeclarations := h.allOfKind .packageDeclaration rfl
  have hnames : List.Forall₂ (Respelled r)
      ((root.namedChildren.filter (·.kind == .packageDeclaration)).filterMap fun d =>
        d.namedChildren.find? isNameNode)
      ((root'.namedChildren.filter (·.kind == .packageDeclaration)).filterMap fun d =>
        d.namedChildren.find? isNameNode) := by
    refine (Joined.of_forall₂ (i := r.toInsertion) hdeclarations).filterMap
      (fun d d' ⟨hd, hkind⟩ => ?_) fun c hc => by
        rw [Insertion.namedChildren_of_adds hc]
        rfl
    refine rel_imp (hd.named.find? (fun _ _ => isNameNode_eq) fun _ => isNameNode_of_adds)
      fun c c' hc' hc => hc.respelled (hd.around_of_reads ?_ ?_)
    · exact (List.mem_filter.1 (List.mem_of_find?_eq_some hc')).1
    · simp [Node.reads, hd.kind_eq, hkind]
  exact congrArg (Option.getD · "") (lastSegments_eq hnames)

theorem ofNode?_echo {n n' : Node} (h : Echo r.toInsertion n n')
    (hkind : n.kind = .importDeclaration) :
    Option.Rel (fun d d' => Respelled r d.path d'.path ∧ d'.isStatic = d.isStatic ∧
      d'.onDemand = d.onDemand) (ImportNode.ofNode? n) (ImportNode.ofNode? n') := by
  have hpath : Option.Rel (Respelled r) (n.children.reverse.find? isNameNode)
      (n'.children.reverse.find? isNameNode) := by
    refine rel_imp (h.children.reverse.find? (fun _ _ => isNameNode_eq) fun _ =>
      isNameNode_of_adds) fun c c' hc' hc => hc.respelled (h.around_of_reads ?_ ?_)
    · exact List.mem_reverse.1 (List.mem_of_find?_eq_some hc')
    · simp [Node.reads, h.kind_eq, hkind]
  have hstar : (n.children.any (·.kind == .asterisk)) = n'.children.any (·.kind == .asterisk) :=
    h.children.any_eq (fun _ _ hc => by rw [hc.kind_eq]) fun _ hc =>
      Insertion.kind_beq_of_adds hc rfl
  unfold ImportNode.ofNode?
  rw [← h.hasKeyword_eq, ← hstar]
  generalize n.children.reverse.find? isNameNode = x, n'.children.reverse.find? isNameNode = x'
    at hpath
  cases hpath with
  | none => exact .none
  | some hc => exact .some ⟨hc, rfl, rfl⟩

theorem declaredImports_eq {root root' : Node} (h : Echo r.toInsertion root root') :
    declaredImports r.source' root' = declaredImports r.source root := by
  have hdeclarations := h.allOfKind .importDeclaration rfl
  unfold declaredImports
  generalize root.namedChildren.filter _ = ds, root'.namedChildren.filter _ = ds' at hdeclarations
  induction hdeclarations with
  | nil => rw [List.filterMap_nil, List.filterMap_nil]
  | @cons d d' _ _ hd _ ih =>
    have hnode := ofNode?_echo hd.1 hd.2
    rw [List.filterMap_cons, List.filterMap_cons, ih]
    generalize ImportNode.ofNode? d = x, ImportNode.ofNode? d' = x' at hnode
    cases hnode with
    | none => simp only [Option.bind_eq_bind, Option.bind_none]
    | @some e e' he =>
      obtain ⟨hpath, hstatic, hdemand⟩ := he
      simp only [Option.bind_eq_bind, Option.bind_some, nameSegments_eq hpath, hstatic, hdemand]

/-! ## Registration -/

/-- A registered type where it is after an insertion. -/
def RegisteredType.moved (i : Insertion) (t : RegisteredType) : RegisteredType :=
  { t with start := i.start t.start }

namespace Registration

theorem nextNumber_moved {test : RegisteredType → Bool} (htest : ∀ t, test (t.moved i) = test t)
    (found : List RegisteredType) (outer : String) :
    nextNumber (found.map (·.moved i)) test outer = nextNumber found test outer := by
  simp only [nextNumber, List.countP_map, Function.comp_def, htest]
  rfl

theorem anonymous_moved {n n' : Node} (h : Echo i n n') (outer : String)
    (found : List RegisteredType) :
    anonymous outer (found.map (·.moved i)) n' = (anonymous outer found n).moved i := by
  unfold anonymous
  rw [nextNumber_moved fun _ => rfl, h.start_eq]
  rfl

theorem named_moved {n n' : Node} (h : Echo i n n') (package : String) (outer : Option String)
    (parent : NodeKind) (found : List RegisteredType) (name : String) :
    named package outer parent (found.map (·.moved i)) name n' =
      (named package outer parent found name n).moved i := by
  unfold named
  rw [h.kind_eq, h.start_eq]
  cases outer with
  | none => rfl
  | some outer =>
    dsimp only
    rw [nextNumber_moved fun t => rfl]
    split
    · rfl
    · rfl

variable {package : String}

theorem isAnonymousBody_added {c : Node} (hc : i.adds c = true) (parent : NodeKind) :
    isAnonymousBody parent c = false := by
  rw [isAnonymousBody, Insertion.kind_beq_of_adds hc rfl, Insertion.role_of_adds hc,
    Bool.and_false, Bool.false_or]
  exact Bool.and_false _

/-- A comment declares nothing. -/
theorem visit_added {source : SourceText} {c : Node} (hc : i.adds c = true) (outer : Option String)
    (parent : NodeKind) (found : List RegisteredType) :
    visit source package outer parent found c = found := by
  obtain ⟨kind, text, rfl, hkind⟩ := Insertion.adds_iff.1 hc
  have hbody := isAnonymousBody_added hc parent
  have hdeclares := NodeKind.isTypeDeclaration_eq_false hkind
  simp only [visit, hbody, hdeclares, visitAll]
  rfl

theorem isAnonymousBody_eq {n n' : Node} (h : Echo i n n') (parent : NodeKind) :
    isAnonymousBody parent n' = isAnonymousBody parent n := by
  rw [isAnonymousBody, isAnonymousBody, h.kind_eq, h.role_eq]

theorem isAnnotated_of_isTypeDeclaration {k : NodeKind} (h : k.isTypeDeclaration = true) :
    k.isAnnotated = false := by
  rcases NodeKind.isTypeDeclaration_cases h with rfl | rfl | rfl | rfl | rfl <;> rfl

/-- What a unit declares does not change, but for where. -/
theorem visitAll_moved {ns ns' : List Node}
    (hns : Joined r.toInsertion (fun c c' => Echo r.toInsertion c c' ∧ ∀ outer parent found,
      visit r.source' package outer parent (found.map (·.moved r.toInsertion)) c' =
        (visit r.source package outer parent found c).map (·.moved r.toInsertion)) ns ns')
    (outer : Option String) (parent : NodeKind) (found : List RegisteredType) :
    visitAll r.source' package outer parent (found.map (·.moved r.toInsertion)) ns' =
      (visitAll r.source package outer parent found ns).map (·.moved r.toInsertion) := by
  induction hns generalizing found with
  | nil => rfl
  | cons hc _ ih =>
    rw [visitAll, visitAll, ← hc.1.isNamed_eq]
    split
    · rw [hc.2, ih]
    · exact ih found
  | added hc _ ih =>
    rw [visitAll, visit_added hc, ite_self]
    exact ih found

theorem visit_moved : ∀ n n', Echo r.toInsertion n n' → ∀ outer parent found,
    visit r.source' package outer parent (found.map (·.moved r.toInsertion)) n' =
      (visit r.source package outer parent found n).map (·.moved r.toInsertion) := by
  refine Echo.induct fun n n' h hchildren outer parent found => ?_
  have hkind := h.kind_eq
  have hname (hdeclares : n.kind.isTypeDeclaration = true) :=
    h.name? (.inl (isAnnotated_of_isTypeDeclaration hdeclares))
  have hbody := isAnonymousBody_eq h parent
  cases n with
  | mk kind role span text cs =>
  cases n' with
  | mk kind' role' span' text' cs' =>
  obtain rfl : kind' = kind := hkind
  have hall : ∀ outer parent found,
      visitAll r.source' package outer parent (found.map (·.moved r.toInsertion)) cs' =
        (visitAll r.source package outer parent found cs).map (·.moved r.toInsertion) :=
    visitAll_moved hchildren
  have hentry (t : RegisteredType) : found.map (·.moved r.toInsertion) ++ [t.moved r.toInsertion] =
      (found ++ [t]).map (·.moved r.toInsertion) := by simp
  simp only [visit, hbody]
  split
  · cases outer with
    | none => rfl
    | some outer =>
      dsimp only
      rw [anonymous_moved h, hentry]
      exact hall _ _ _
  · split
    · rename_i hdeclares
      have hname := hname hdeclares
      generalize Node.child? _ .name = x, Node.child? (.mk kind' role' span' text' cs') .name = x'
        at hname
      cases hname with
      | none => rfl
      | some hname =>
        dsimp only
        rw [hname.text_eq, named_moved h, hentry]
        exact hall _ _ _
    · exact hall outer kind' found

end Registration

theorem registeredTypes_moved {root root' : Node} (h : Echo r.toInsertion root root') :
    registeredTypes r.source' root' =
      (registeredTypes r.source root).map (·.moved r.toInsertion) := by
  rw [registeredTypes, registeredTypes, declaredPackage_eq h]
  exact Registration.visit_moved root root' h none .program []

/-! ## Sites -/

/-- A site where it is after an insertion. -/
structure DeclarationSite.Echo (i : Insertion) (site site' : DeclarationSite) : Prop where
  binary_eq : site'.binary = site.binary
  node : Node.Echo i site.node site'.node
  form_eq : site'.form = site.form
  scope_eq : site'.scope = site.scope

namespace Sites

/-- What was found, where it is after an insertion. -/
structure Walk.Echo (i : Insertion) (w w' : Walk) : Prop where
  scope_eq : w'.scope = w.scope
  sites : List.Forall₂ (DeclarationSite.Echo i) w.sites w'.sites

namespace Walk.Echo

variable {w w' : Walk}

theorem push (h : Walk.Echo i w w') (frame : TypeFrame) :
    Walk.Echo i (w.push frame) (w'.push frame) :=
  ⟨congrArg (·.push frame) h.scope_eq, h.sites⟩

theorem pop (h : Walk.Echo i w w') : Walk.Echo i w.pop w'.pop :=
  ⟨congrArg TypeScope.pop h.scope_eq, h.sites⟩

theorem addSite (h : Walk.Echo i w w') {site site' : DeclarationSite}
    (hsite : DeclarationSite.Echo i site site') :
    Walk.Echo i (w.addSite site) (w'.addSite site') :=
  ⟨h.scope_eq, List.rel_append h.sites (.cons hsite .nil)⟩

end Walk.Echo

variable {index : TypeIndex} {types types' : SortedMap Nat String} {w w' : Walk}

theorem baseOf_echo (hw : Walk.Echo r.toInsertion w w') {parent parent' : Node}
    (h : Echo r.toInsertion parent parent') :
    baseOf index r.source' w' parent' = baseOf index r.source w parent := by
  have htype := h.child? .type
  unfold baseOf contextOf
  rw [h.kind_eq, hw.scope_eq]
  generalize parent.child? .type = x, parent'.child? .type = x' at htype
  cases htype with
  | none => rfl
  | some hc => simp only [Option.bind_some, TypeContext.type?_echo hc]

theorem parameters_eq (index : TypeIndex) (hw : Walk.Echo r.toInsertion w w') {n n' : Node}
    (h : Echo r.toInsertion n n') :
    ((contextOf index r.source' w').parametersOf n').value =
      ((contextOf index r.source w).parametersOf n).value := by
  unfold contextOf
  rw [hw.scope_eq]
  exact (TypeContext.follows_parametersOf h).value.symm

theorem declareLocal_echo (hw : Walk.Echo r.toInsertion w w') {n n' : Node}
    (h : Echo r.toInsertion n n') (hkind : n.kind.isTypeDeclaration = true) (parent : NodeKind)
    (binary : String) :
    Walk.Echo r.toInsertion (declareLocal r.source w parent n binary)
      (declareLocal r.source' w' parent n' binary) := by
  have hname := h.name? (.inl (Registration.isAnnotated_of_isTypeDeclaration hkind))
  unfold declareLocal
  generalize n.child? .name = x, n'.child? .name = x' at hname
  cases hname with
  | none => exact hw
  | some hc =>
    dsimp only
    split
    · exact ⟨by rw [hc.text_eq, hw.scope_eq], hw.sites⟩
    · exact hw

/-- A comment has no site. -/
theorem visit_added {source : SourceText} {c : Node} (hc : i.adds c = true) (parent : Node)
    (w : Walk) : visit index source types parent w c = w := by
  obtain ⟨kind, text, rfl, hkind⟩ := Insertion.adds_iff.1 hc
  have hbody := Registration.isAnonymousBody_added hc parent.kind
  have hdeclares := NodeKind.isTypeDeclaration_eq_false hkind
  have hmethod : (kind == .methodDeclaration || kind == .constructorDeclaration) = false := by
    rw [NodeKind.beq_eq_false hkind rfl, NodeKind.beq_eq_false hkind rfl]
    rfl
  have hblock : opensBlock kind = false := by
    rcases NodeKind.isComment_cases hkind with rfl | rfl <;> rfl
  simp only [visit, hbody, hdeclares, hmethod, hblock, visitAll]
  rfl

/-- The sites of a unit are the same after an insertion. -/
theorem visitAll_echo {ns ns' : List Node}
    (hns : Joined r.toInsertion (fun c c' => Echo r.toInsertion c c' ∧
      ∀ parent parent' w w', Echo r.toInsertion parent parent' → Walk.Echo r.toInsertion w w' →
        Walk.Echo r.toInsertion (visit index r.source types parent w c)
          (visit index r.source' types' parent' w' c')) ns ns')
    {parent parent' : Node} (hparent : Echo r.toInsertion parent parent') {w w' : Walk}
    (hw : Walk.Echo r.toInsertion w w') :
    Walk.Echo r.toInsertion (visitAll index r.source types parent w ns)
      (visitAll index r.source' types' parent' w' ns') := by
  induction hns generalizing w w' with
  | nil => exact hw
  | cons hc _ ih =>
    rw [visitAll, visitAll, ← hc.1.isNamed_eq]
    split
    · exact ih (hc.2 _ _ _ _ hparent hw)
    · exact ih hw
  | added hc _ ih =>
    rw [visitAll, visit_added hc, ite_self]
    exact ih hw

theorem visit_echo (htypes : ∀ start, types'.get? (r.start start) = types.get? start) :
    ∀ n n', Echo r.toInsertion n n' → ∀ parent parent' w w', Echo r.toInsertion parent parent' →
      Walk.Echo r.toInsertion w w' → Walk.Echo r.toInsertion
        (visit index r.source types parent w n) (visit index r.source' types' parent' w' n') := by
  refine Echo.induct fun n n' h hchildren parent parent' w w' hparent hw => ?_
  have hbody := Registration.isAnonymousBody_eq h parent.kind
  have hfound := htypes n.start
  rw [← h.start_eq] at hfound
  have hkind := h.kind_eq
  cases n with
  | mk kind role span text cs =>
  cases n' with
  | mk kind' role' span' text' cs' =>
  obtain rfl : kind' = kind := hkind
  have hall {w w' : Walk} (hw : Walk.Echo r.toInsertion w w') :=
    visitAll_echo hchildren h hw
  simp only [Node.children] at hall
  rw [visit, visit, hparent.kind_eq, hbody,
    show types'.get? span'.start = types.get? span.start from hfound]
  dsimp only
  split
  · cases types.get? span.start with
    | none => exact hw
    | some binary =>
      have hsite : DeclarationSite.Echo r.toInsertion
          ⟨binary, .mk kind' role span text cs,
            .anonymous (baseOf index r.source w parent), w.scope⟩
          ⟨binary, .mk kind' role' span' text' cs',
            .anonymous (baseOf index r.source' w' parent'), w'.scope⟩ :=
        ⟨rfl, h, by rw [baseOf_echo hw hparent], hw.scope_eq⟩
      exact (hall ((hw.addSite hsite).push _)).pop
  · split
    · rename_i hdeclares
      cases types.get? span.start with
      | none => exact hw
      | some binary =>
        have hlocal := declareLocal_echo hw h hdeclares parent.kind binary
        have hparams := parameters_eq index hlocal h
        dsimp only
        rw [hparams]
        generalize ((contextOf index r.source _).parametersOf _).value = params
        have hpushed := hlocal.push (.typeVars params)
        have hsite : DeclarationSite.Echo r.toInsertion
            ⟨binary, .mk kind' role span text cs, .named params, _⟩
            ⟨binary, .mk kind' role' span' text' cs', .named params, _⟩ :=
          ⟨rfl, h, rfl, hpushed.scope_eq⟩
        exact (hall ((hpushed.addSite hsite).push _)).pop.pop
    · split
      · rw [parameters_eq index hw h]
        exact (hall (hw.push _)).pop
      · split
        · exact (hall (hw.push _)).pop
        · exact hall hw

end Sites

theorem declarationSites_echo {index : TypeIndex} {header : UnitHeader}
    {types types' : SortedMap Nat String}
    (htypes : ∀ start, types'.get? (r.start start) = types.get? start) {root root' : Node}
    (h : Echo r.toInsertion root root') :
    List.Forall₂ (DeclarationSite.Echo r.toInsertion)
      (declarationSites index r.source header types root)
      (declarationSites index r.source' header types' root') :=
  (Sites.visit_echo htypes root root' h _ _ _ _ h ⟨rfl, .nil⟩).sites

end Renaming.Java
