import Renaming.Java.Declared.Site
import Renaming.Proofs.Java.Descent

/-!
# Where types are declared

Registration and the search for declaration sites go over a tree in the same way. The sites that are
found start one after the other, and there is one for every type that is registered.
-/

namespace Renaming.Java

/-- Whether a node declares a type, given the kind of the node that it hangs in. -/
def declaresType (parent : NodeKind) (n : Node) : Bool :=
  isAnonymousBody parent n || n.kind.isTypeDeclaration

namespace Sites

variable (types : SortedMap Nat String)

mutual

/-- The nodes at which types are declared, each with the node that it hangs in. Nothing is looked
for inside of a declaration that has no binary name. -/
def nodes (parent : Node) : Node → List (Node × Node)
  | .mk kind role span text children =>
    let n := Node.mk kind role span text children
    if declaresType parent.kind n then
      if types.contains span.start then (parent, n) :: nodesAll n children else []
    else nodesAll n children

def nodesAll (parent : Node) : List Node → List (Node × Node)
  | [] => []
  | c :: rest => (if c.isNamed then nodes parent c else []) ++ nodesAll parent rest

end

/-- The site at a node, less its scope. -/
def outline? (e : Node × Node) : Option (String × Node × Bool) :=
  (types.get? e.2.start).map fun binary => (binary, e.2, isAnonymousBody e.1.kind e.2)

end Sites

namespace DeclarationSite

def isAnonymous (site : DeclarationSite) : Bool :=
  match site.form with
  | .named _ => false
  | .anonymous _ => true

def outline (site : DeclarationSite) : String × Node × Bool :=
  (site.binary, site.node, site.isAnonymous)

end DeclarationSite

namespace Sites

variable {index : TypeIndex} {source : SourceText} {types : SortedMap Nat String}

/-! ## Both searches -/

@[simp] theorem sites_declareLocal {w : Walk} {parent : NodeKind} {n : Node} {binary : String} :
    (declareLocal source w parent n binary).sites = w.sites := by
  unfold declareLocal
  split
  · split <;> rfl
  · rfl

mutual

/-- The sites that a search adds are those at the nodes that declare types. -/
theorem outline_visit (parent : Node) (w : Walk) :
    ∀ n : Node, (visit index source types parent w n).sites.map DeclarationSite.outline =
      w.sites.map DeclarationSite.outline ++ (nodes types parent n).filterMap (outline? types)
  | .mk kind role span text children => by
    have hall (w : Walk) := outline_visitAll (Node.mk kind role span text children) w children
    have hkind : (Node.mk kind role span text children).kind = kind := rfl
    rw [visit, nodes]
    dsimp only
    split
    · rename_i hanonymous
      rw [if_pos (by simp [declaresType, hanonymous])]
      cases hget : types.get? span.start with
      | none => simp [SortedMap.contains, hget]
      | some binary =>
        have houtline : outline? types (parent, Node.mk kind role span text children) =
            some (binary, Node.mk kind role span text children, true) := by
          simp [outline?, Node.start, Node.span, hget, hanonymous]
        simp [SortedMap.contains, hget, Walk.pop, hall, Walk.addSite, Walk.push, houtline,
          DeclarationSite.outline, DeclarationSite.isAnonymous]
    · rename_i hanonymous
      split
      · rename_i htype
        rw [if_pos (by simp [declaresType, hkind, htype])]
        cases hget : types.get? span.start with
        | none => simp [SortedMap.contains, hget]
        | some binary =>
          have houtline : outline? types (parent, Node.mk kind role span text children) =
              some (binary, Node.mk kind role span text children, false) := by
            simp [outline?, Node.start, Node.span, hget, hanonymous]
          simp [SortedMap.contains, hget, Walk.pop, hall, Walk.addSite, Walk.push, houtline,
            DeclarationSite.outline, DeclarationSite.isAnonymous]
      · rename_i htype
        have hnone : ¬declaresType parent.kind (Node.mk kind role span text children) = true := by
          simp [declaresType, hkind, hanonymous, htype]
        rw [if_neg hnone]
        split
        · simp [Walk.pop, hall, Walk.push]
        · split
          · simp [Walk.pop, hall, Walk.push]
          · exact hall w

theorem outline_visitAll (parent : Node) (w : Walk) :
    ∀ ns : List Node, (visitAll index source types parent w ns).sites.map DeclarationSite.outline =
      w.sites.map DeclarationSite.outline ++ (nodesAll types parent ns).filterMap (outline? types)
  | [] => by simp [visitAll, nodesAll]
  | c :: rest => by
    rw [visitAll, nodesAll, outline_visitAll parent _ rest]
    split
    · rw [outline_visit parent w c, List.filterMap_append, List.append_assoc]
    · simp

end

/-! ## The nodes -/

/-- A node that declares a type below `n`, in the node that it hangs in. -/
structure Declaring (types : SortedMap Nat String) (root n : Node) (e : Node × Node) : Prop where
  parent : root.Below e.1
  child : e.2 ∈ e.1.children
  below : n.Below e.2
  declares : declaresType e.1.kind e.2 = true
  named : types.contains e.2.start = true

theorem Declaring.up {root n c : Node} {e : Node × Node} (h : Declaring types root c e)
    (hc : c ∈ n.children) : Declaring types root n e :=
  { h with below := .down hc h.below }

mutual

theorem declaring_nodes {root parent : Node} (hparent : root.Below parent) :
    ∀ {n : Node}, n ∈ parent.children → ∀ e ∈ nodes types parent n, Declaring types root n e
  | .mk kind role span text children, hn => by
    intro e he
    have hall : ∀ e ∈ nodesAll types (Node.mk kind role span text children) children,
        Declaring types root (Node.mk kind role span text children) e := by
      intro e he
      have hn' := hparent.child hn
      obtain ⟨c, hc, hdeclaring⟩ := declaring_nodesAll hn' (List.Subset.refl children) e he
      exact hdeclaring.up hc
    rw [nodes] at he
    split at he
    · rename_i hdeclares
      split at he
      · rename_i hnamed
        rcases List.mem_cons.1 he with rfl | he
        · exact ⟨hparent, hn, .self, hdeclares, hnamed⟩
        · exact hall e he
      · cases he
    · exact hall e he

theorem declaring_nodesAll {root parent : Node} (hparent : root.Below parent) :
    ∀ {ns : List Node}, ns ⊆ parent.children → ∀ e ∈ nodesAll types parent ns,
      ∃ c ∈ ns, Declaring types root c e
  | [], _ => by
    intro e he
    cases he
  | c :: rest, hns => by
    intro e he
    rw [nodesAll] at he
    rcases List.mem_append.1 he with he | he
    · split at he
      · exact ⟨c, by simp, declaring_nodes hparent (hns (by simp)) e he⟩
      · cases he
    · obtain ⟨d, hd, h⟩ := declaring_nodesAll hparent (fun d hd => hns (by simp [hd])) e he
      exact ⟨d, by simp [hd], h⟩

end

/-- The body of an anonymous type is the body of a class. -/
theorem kind_of_isAnonymousBody {parent n : Node} (h : parent.Sound source)
    (hn : n ∈ parent.children) (hanonymous : isAnonymousBody parent.kind n = true) :
    n.kind = .classBody := by
  simp only [isAnonymousBody, Bool.or_eq_true, Bool.and_eq_true, beq_iff_eq] at hanonymous
  rcases hanonymous with ⟨-, hkind⟩ | ⟨hparent, hrole⟩
  · exact hkind
  · have hpart := h.mem_formed_of_role hn hrole
    exact h.shape.bodied (.inr hparent) n.part (List.mem_map_of_mem hpart) hrole

theorem isDeclaration_of_isTypeDeclaration {k : NodeKind} (h : k.isTypeDeclaration = true) :
    k.isDeclaration = true := by
  rcases NodeKind.isTypeDeclaration_cases h with rfl | rfl | rfl | rfl | rfl <;> rfl

theorem isDeclaration_of_declaresType {parent n : Node} (h : parent.Sound source)
    (hn : n ∈ parent.children) (hdeclares : declaresType parent.kind n = true) :
    n.kind.isDeclaration = true := by
  rcases Bool.or_eq_true_iff.1 hdeclares with hanonymous | htype
  · rw [kind_of_isAnonymousBody h hn hanonymous]
    rfl
  · exact isDeclaration_of_isTypeDeclaration htype

theorem Declaring.isDeclaration {root n : Node} {e : Node × Node} (h : Declaring types root n e)
    (hroot : root.Sound source) : e.2.kind.isDeclaration = true :=
  isDeclaration_of_declaresType (hroot.of_below h.parent) h.child h.declares

mutual

/-- The nodes that declare types start one after the other. -/
theorem ordered_nodes {root parent : Node} (hroot : root.Sound source)
    (hparent : root.Below parent) : ∀ {n : Node}, n ∈ parent.children →
      (nodes types parent n).Pairwise fun a b => a.2.start < b.2.start
  | .mk kind role span text children, hn => by
    have hn' : root.Below (Node.mk kind role span text children) := hparent.child hn
    have hall : (nodesAll types (Node.mk kind role span text children) children).Pairwise
        fun a b => a.2.start < b.2.start :=
      ordered_nodesAll hroot hn' (List.Sublist.refl children)
    rw [nodes]
    split
    · rename_i hdeclares
      split
      · refine List.pairwise_cons.2 ⟨fun e he => ?_, hall⟩
        have hdecl := isDeclaration_of_declaresType (hroot.of_below hparent) hn hdeclares
        obtain ⟨c, hc, h⟩ := declaring_nodesAll hn' (List.Subset.refl children) e he
        exact (hroot.of_below hn').start_lt (.inl hdecl) hc h.below (h.isDeclaration hroot)
      · exact .nil
    · exact hall

theorem ordered_nodesAll {root parent : Node} (hroot : root.Sound source)
    (hparent : root.Below parent) : ∀ {ns : List Node}, ns.Sublist parent.children →
      (nodesAll types parent ns).Pairwise fun a b => a.2.start < b.2.start
  | [], _ => .nil
  | c :: rest, hns => by
    have hrest : rest.Sublist parent.children :=
      (List.sublist_cons_self c rest).trans hns
    rw [nodesAll]
    refine List.pairwise_append.2 ⟨?_, ordered_nodesAll hroot hparent hrest, fun a ha b hb => ?_⟩
    · split
      · exact ordered_nodes hroot hparent (hns.subset (by simp))
      · exact .nil
    · split at ha
      · have ha' := declaring_nodes hparent (hns.subset (by simp)) a ha
        obtain ⟨d, hd, hb'⟩ := declaring_nodesAll hparent hrest.subset b hb
        have hcd : [c, d].Sublist parent.children :=
          (List.cons_sublist_cons.2 (List.singleton_sublist.2 hd)).trans hns
        have hsolid := NodeKind.isSolid_of_isDeclaration (ha'.isDeclaration hroot)
        have hapart := (hroot.of_below hparent).stop_le_of_sublist hcd ha'.below hb'.below
          (Node.isComment_eq_false_of_isSolid hsolid)
          (Node.isComment_eq_false_of_isSolid
            (NodeKind.isSolid_of_isDeclaration (hb'.isDeclaration hroot)))
        have ha'' := hroot.of_below (hparent.trans (.down (hns.subset (by simp)) ha'.below))
        have hlt := ha''.start_lt_stop hsolid
        omega
      · cases ha

end

/-! ## Registered types -/

section Registered

variable {package : String}

mutual

theorem subset_register {outer : Option String} {parent : NodeKind} {found : List RegisteredType} :
    ∀ {n : Node}, found ⊆ Registration.visit source package outer parent found n
  | .mk kind role span text children => by
    rw [Registration.visit.eq_def]
    dsimp only
    split
    · split
      · exact List.Subset.refl _
      · exact List.Subset.trans (List.subset_append_left found _) subset_registerAll
    · split
      · split
        · exact List.Subset.refl _
        · exact List.Subset.trans (List.subset_append_left found _) subset_registerAll
      · exact subset_registerAll

theorem subset_registerAll {outer : Option String} {parent : NodeKind}
    {found : List RegisteredType} :
    ∀ {ns : List Node}, found ⊆ Registration.visitAll source package outer parent found ns
  | [] => List.Subset.refl _
  | c :: rest => by
    rw [Registration.visitAll]
    split
    · exact List.Subset.trans subset_register subset_registerAll
    · exact subset_registerAll

end

theorem start_named {parent : NodeKind} {outer : Option String} {found : List RegisteredType}
    {name : String} {n : Node} :
    (Registration.named package outer parent found name n).start = n.start := by
  unfold Registration.named
  cases outer with
  | none => rfl
  | some outer =>
    dsimp only
    split <;> rfl

mutual

/-- The types that are registered start one after the other at nodes that declare types. -/
theorem starts_register (parent : Node) {outer : Option String} {found : List RegisteredType} :
    ∀ {n : Node},
      (∀ t ∈ Registration.visit source package outer parent.kind found n,
        types.contains t.start = true) →
      ∃ added, Registration.visit source package outer parent.kind found n = found ++ added ∧
        (added.map RegisteredType.start).Sublist
          ((nodes types parent n).map fun e => e.2.start)
  | .mk kind role span text children, hnamed => by
    have hkind : (Node.mk kind role span text children).kind = kind := rfl
    -- a type is entered for the node itself, then those inside it
    have hentry {outer : Option String} {entry : RegisteredType} (hstart : entry.start = span.start)
        (hdeclares : declaresType parent.kind (.mk kind role span text children) = true)
        (hnamed : ∀ t ∈ Registration.visitAll source package outer kind (found ++ [entry]) children,
          types.contains t.start = true) :
        ∃ added, Registration.visitAll source package outer kind (found ++ [entry]) children =
            found ++ added ∧
          (added.map RegisteredType.start).Sublist
            ((nodes types parent (.mk kind role span text children)).map fun e => e.2.start) := by
      have hcontains : types.contains span.start = true := by
        rw [← hstart]
        exact hnamed entry (subset_registerAll (by simp))
      obtain ⟨added, hadded, hstarts⟩ :=
        starts_registerAll (.mk kind role span text children) hnamed
      refine ⟨entry :: added, hadded.trans (by simp), ?_⟩
      rw [nodes, if_pos hdeclares, if_pos hcontains, List.map_cons, List.map_cons, hstart]
      exact hstarts.cons_cons _
    have hnone : ∃ added, found = found ++ added ∧ (added.map RegisteredType.start).Sublist
        ((nodes types parent (.mk kind role span text children)).map fun e => e.2.start) :=
      ⟨[], (List.append_nil found).symm, List.nil_sublist _⟩
    rw [Registration.visit.eq_def] at hnamed ⊢
    dsimp only at hnamed ⊢
    split
    · rename_i hanonymous
      rw [if_pos hanonymous] at hnamed
      split
      · exact hnone
      · exact hentry rfl (by simp [declaresType, hanonymous]) hnamed
    · rename_i hanonymous
      rw [if_neg hanonymous] at hnamed
      split
      · rename_i htype
        rw [if_pos htype] at hnamed
        split
        · exact hnone
        · rename_i name hname
          rw [hname] at hnamed
          exact hentry start_named (by rw [declaresType, hkind, htype, Bool.or_true]) hnamed
      · rename_i htype
        rw [if_neg htype] at hnamed
        have hnone : ¬declaresType parent.kind (Node.mk kind role span text children) = true := by
          simp [declaresType, hkind, hanonymous, htype]
        rw [nodes, if_neg hnone]
        exact starts_registerAll (.mk kind role span text children) hnamed

theorem starts_registerAll (parent : Node) {outer : Option String} {found : List RegisteredType} :
    ∀ {ns : List Node},
      (∀ t ∈ Registration.visitAll source package outer parent.kind found ns,
        types.contains t.start = true) →
      ∃ added, Registration.visitAll source package outer parent.kind found ns = found ++ added ∧
        (added.map RegisteredType.start).Sublist
          ((nodesAll types parent ns).map fun e => e.2.start)
  | [], _ => ⟨[], (List.append_nil found).symm, List.nil_sublist _⟩
  | c :: rest, hnamed => by
    rw [Registration.visitAll] at hnamed ⊢
    rw [nodesAll, List.map_append]
    obtain ⟨later, hlater, hlaterStarts⟩ := starts_registerAll parent hnamed
    rw [hlater]
    split
    · rename_i hc
      rw [if_pos hc] at hnamed
      obtain ⟨added, hadded, hstarts⟩ :=
        starts_register parent fun t ht => hnamed t (subset_registerAll ht)
      refine ⟨added ++ later, by rw [hadded, List.append_assoc], ?_⟩
      rw [List.map_append]
      exact hstarts.append hlaterStarts
    · exact ⟨later, rfl, by simpa using hlaterStarts⟩

end

end Registered

end Sites

end Renaming.Java
