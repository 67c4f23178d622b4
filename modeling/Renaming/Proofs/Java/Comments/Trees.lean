import Mathlib.Data.List.Forall2
import Renaming.Java.Declared.Registration
import Renaming.Proofs.Java.Comments.Insertion
import Renaming.Proofs.Java.Descent

/-!
# Trees with a comment put in

A tree echoes another one if it is the other tree where it is after an insertion, with the comment
that was put in, and if that comment hangs where a walk overlooks it. Children that are looked up
by their roles and their kinds echo each other. Lists of named children are joined: the comment
may stand between children that echo each other.
-/

namespace Renaming.Java

namespace NodeKind

variable {k : NodeKind}

/-- A comment is of no other kind. -/
theorem beq_eq_false (h : k.isComment = true) {kind : NodeKind} (hkind : kind.isComment = false) :
    (k == kind) = false := by
  rw [beq_eq_false_iff_ne]
  rintro rfl
  rw [hkind] at h
  cases h

theorem isType_eq_false (h : k.isComment = true) : k.isType = false := by
  rcases isComment_cases h with rfl | rfl <;> rfl

theorem isAnnotated_eq_false (h : k.isComment = true) : k.isAnnotated = false := by
  rcases isComment_cases h with rfl | rfl <;> rfl

theorem isStatement_eq_false (h : k.isComment = true) : k.isStatement = false := by
  rcases isComment_cases h with rfl | rfl <;> rfl

theorem isTypeDeclaration_eq_false (h : k.isComment = true) : k.isTypeDeclaration = false := by
  rcases isComment_cases h with rfl | rfl <;> rfl

end NodeKind

/-- Kinds of leaves whose texts are read. -/
def NodeKind.isSpelled : NodeKind → Bool
  | identifier | typeIdentifier | integralType | floatingPointType | booleanType | decimalInteger
  | hexInteger | octalInteger | binaryInteger | decimalFloat | hexFloat => true
  | _ => false

/-- Whether a comment that stands between children of a node of a kind is overlooked. The first
bound of a type parameter and the front of a reference to a method are the first named children, the
value in brackets is the last one, and what stands in front of the type of a new object may be the
object around it. -/
def NodeKind.overlooks (k : NodeKind) (before after : List Node) : Bool :=
  match k with
  | .typeBound | .methodReference => before.any Node.isNamed
  | .parenthesized | .updateExpression => after.any Node.isNamed
  | .annotatedType => after.any fun c => c.isNamed && !c.kind.isAnnotated
  | .objectCreation =>
    (before.any fun c => c.isNamed && c.role == some .type) ||
      !before.any fun c => c.isNamed && c.kind != .typeArguments
  | _ => true

namespace Insertion

variable (i : Insertion)

/-- Whether a node is a comment of the characters that are put in. -/
def adds : Node → Bool
  | .mk kind none span _ [] => kind.isComment && span == i.inserted
  | _ => false

/-- Whether each comment that is put in among children is overlooked, after those before it. -/
def overlooksAmong (k : NodeKind) (before : List Node) : List Node → Bool
  | [] => true
  | c :: after =>
    (!i.adds c || k.overlooks before after) && overlooksAmong k (before ++ [c]) after

end Insertion

namespace Node

variable (i : Insertion)

mutual

/-- The tree without what was put in. -/
def without : Node → Node
  | mk kind role span text children => mk kind role span text (withoutAll children)

def withoutAll : List Node → List Node
  | [] => []
  | c :: rest => if i.adds c then withoutAll rest else without c :: withoutAll rest

end

/-- Whether the text of a child is read as a whole where its parent is. -/
def reads (n c : Node) : Bool :=
  n.kind == .packageDeclaration || n.kind == .importDeclaration ||
    match c.role with
    | some .name => !n.kind.isAnnotated || n.role == some .declarator
    | some .field | some .key => true
    | some .dimensions =>
      n.kind != .arrayCreation || n.role == some .declarator || c.kind != .dimensionsExpression
    | some .type => n.kind == .fieldDeclaration || n.kind == .constantDeclaration
    | _ => false

/-- The components of a record, whose names are read, as well as types that mean nothing. -/
def components (n : Node) : List Node :=
  if n.kind == .recordDeclaration then ((n.child? .parameters).map Node.namedChildren).getD []
  else []

/-- Whether nothing that is read as a whole is parted. -/
def intact (n : Node) : Bool :=
  !(n.kind.isSpelled && i.around n.span) &&
    (n.children.all fun c => !(n.reads c && i.around c.span)) &&
    n.components.all fun p =>
      ((p.child? .type).all fun c => !i.around c.span) &&
        (p.child? .name).all fun c => !i.around c.span

/-- Whether no comment that was put in counts as an argument of a call. -/
def keepsArguments (n : Node) : Bool :=
  n.kind != .methodInvocation || !(n.child? .arguments).any fun list => list.children.any i.adds

/-- Whether a comment that was put in is overlooked at a node. It is never all there is to it. -/
def overlooksHere (n : Node) : Bool :=
  n.intact i && n.keepsArguments i && i.overlooksAmong n.kind [] n.children &&
    (n.children.isEmpty || !n.children.all i.adds)

mutual

/-- Whether a comment that was put in is overlooked in a tree. -/
def overlooks : Node → Bool
  | mk kind role span text children =>
    overlooksHere i (mk kind role span text children) && overlooksAll children

def overlooksAll : List Node → Bool
  | [] => true
  | c :: rest => overlooks c && overlooksAll rest

end

/-- The same tree after an insertion, with the comment that was put in. -/
structure Echo (n n' : Node) : Prop where
  without_eq : n'.without i = n.moved i
  overlooks : n'.overlooks i = true

end Node

/-- Lists of which the second may have what was put in between nodes that correspond. -/
inductive Joined (i : Insertion) (R : Node → Node → Prop) : List Node → List Node → Prop where
  | nil : Joined i R [] []
  | cons {n n' : Node} {ns ns' : List Node} (hn : R n n') (hns : Joined i R ns ns') :
      Joined i R (n :: ns) (n' :: ns')
  | added {c : Node} {ns ns' : List Node} (hc : i.adds c = true) (hns : Joined i R ns ns') :
      Joined i R ns (c :: ns')

variable {i : Insertion}

namespace Insertion

variable {c : Node}

theorem adds_iff : i.adds c = true ↔ ∃ kind text, c = .mk kind none i.inserted text [] ∧
    kind.isComment = true := by
  constructor
  · intro h
    unfold adds at h
    split at h
    · rw [Bool.and_eq_true, beq_iff_eq] at h
      exact ⟨_, _, by rw [← h.2], h.1⟩
    · cases h
  · rintro ⟨kind, text, rfl, hkind⟩
    simp [adds, hkind]

theorem isComment_of_adds (h : i.adds c = true) : c.kind.isComment = true := by
  obtain ⟨kind, text, rfl, hkind⟩ := adds_iff.1 h
  exact hkind

theorem role_of_adds (h : i.adds c = true) : c.role = none := by
  obtain ⟨kind, text, rfl, -⟩ := adds_iff.1 h
  rfl

theorem children_of_adds (h : i.adds c = true) : c.children = [] := by
  obtain ⟨kind, text, rfl, -⟩ := adds_iff.1 h
  rfl

theorem child?_of_adds (h : i.adds c = true) (role : Role) : c.child? role = none := by
  rw [Node.child?, children_of_adds h]
  rfl

theorem namedChildren_of_adds (h : i.adds c = true) : c.namedChildren = [] := by
  rw [Node.namedChildren, children_of_adds h]
  rfl

theorem childOfKind?_of_adds (h : i.adds c = true) (kind : NodeKind) :
    c.childOfKind? kind = none := by
  rw [Node.childOfKind?, namedChildren_of_adds h]
  rfl

theorem kind_beq_of_adds (h : i.adds c = true) {kind : NodeKind}
    (hkind : kind.isComment = false) : (c.kind == kind) = false :=
  NodeKind.beq_eq_false (isComment_of_adds h) hkind

/-- A test that comments fail. -/
theorem test_of_adds (h : i.adds c = true) {test : NodeKind → Bool}
    (htest : ∀ kind, kind.isComment = true → test kind = false) : test c.kind = false :=
  htest _ (isComment_of_adds h)

theorem not_adds_of_span {n : Node} {s : Span} (h : n.span = i.span s) : i.adds n = false := by
  rw [Bool.eq_false_iff]
  intro hadds
  obtain ⟨kind, text, rfl, -⟩ := adds_iff.1 hadds
  exact i.span_ne_inserted s h.symm

/-- What stands among children that was put in is overlooked there. -/
theorem overlooks_of_among {k : NodeKind} {front before after : List Node}
    (h : i.overlooksAmong k front (before ++ c :: after) = true) (hc : i.adds c = true) :
    k.overlooks (front ++ before) after = true := by
  induction before generalizing front with
  | nil =>
    rw [List.nil_append, overlooksAmong, Bool.and_eq_true, hc] at h
    simpa using h.1
  | cons b before ih =>
    rw [List.cons_append, overlooksAmong, Bool.and_eq_true] at h
    simpa using ih h.2

end Insertion

/-- What holds of what is found. -/
theorem rel_imp {R Q : Node → Node → Prop} {x x' : Option Node} (h : Option.Rel R x x')
    (himp : ∀ c c', c' ∈ x' → R c c' → Q c c') : Option.Rel Q x x' := by
  cases h with
  | none => exact .none
  | some hc => exact .some (himp _ _ rfl hc)

/-- What holds of the nodes of two lists. -/
theorem forall₂_imp {R Q : Node → Node → Prop} {ns ns' : List Node} (h : List.Forall₂ R ns ns')
    (himp : ∀ c c', c ∈ ns → c' ∈ ns' → R c c' → Q c c') : List.Forall₂ Q ns ns' := by
  induction h with
  | nil => exact .nil
  | cons hc _ ih =>
    refine .cons (himp _ _ (by simp) (by simp) hc) (ih fun d d' hd hd' => ?_)
    exact himp d d' (List.mem_cons_of_mem _ hd) (List.mem_cons_of_mem _ hd')

namespace Joined

variable {R Q : Node → Node → Prop} {n n' : Node} {ns ns' ms ms' : List Node}

/-- Nodes that were put in are joined to nothing. -/
theorem nil_of_adds {c : Node} (h : Joined i R ns [c]) (hkept : ∀ n, ¬R n c) : ns = [] := by
  cases h with
  | cons hn _ => exact absurd hn (hkept _)
  | added _ hns =>
    cases hns
    rfl

theorem adds_of_nil (h : Joined i R [] ns') : ∀ c ∈ ns', i.adds c = true := by
  generalize hns : ([] : List Node) = ns at h
  induction h with
  | nil => simp
  | cons _ _ _ => cases hns
  | added hc _ ih => exact List.forall_mem_cons.2 ⟨hc, ih hns⟩

theorem imp (h : Joined i R ns ns') (hR : ∀ n n', n' ∈ ns' → R n n' → Q n n') :
    Joined i Q ns ns' := by
  induction h with
  | nil => exact .nil
  | cons hn _ ih =>
    exact .cons (hR _ _ (by simp) hn) (ih fun n n' hmem => hR n n' (by simp [hmem]))
  | added hc _ ih => exact .added hc (ih fun n n' hmem => hR n n' (by simp [hmem]))

theorem append (h : Joined i R ns ns') (h' : Joined i R ms ms') :
    Joined i R (ns ++ ms) (ns' ++ ms') := by
  induction h with
  | nil => exact h'
  | cons hn _ ih => exact .cons hn ih
  | added hc _ ih => exact .added hc ih

theorem reverse (h : Joined i R ns ns') : Joined i R ns.reverse ns'.reverse := by
  induction h with
  | nil => exact .nil
  | cons hn _ ih => simpa using ih.append (.cons hn .nil)
  | added hc _ ih => simpa using ih.append (.added hc .nil)

theorem of_forall₂ (h : List.Forall₂ R ns ns') : Joined i R ns ns' := by
  induction h with
  | nil => exact .nil
  | cons hn _ ih => exact .cons hn ih

theorem forall₂ (h : Joined i R ns ns') (hnone : ∀ c ∈ ns', i.adds c = false) :
    List.Forall₂ R ns ns' := by
  induction h with
  | nil => exact .nil
  | cons hn _ ih => exact .cons hn (ih fun c hc => hnone c (by simp [hc]))
  | added hc _ _ =>
    rw [hnone _ (by simp)] at hc
    cases hc

section Tests

variable {p : Node → Bool} (hp : ∀ n n', R n n' → p n = p n')
include hp

/-- What is looked for goes on with what stands between it. -/
theorem filter (h : Joined i R ns ns') : Joined i R (ns.filter p) (ns'.filter p) := by
  induction h with
  | nil => exact .nil
  | @cons n n' _ _ hn _ ih =>
    rw [List.filter_cons, List.filter_cons, hp n n' hn]
    split
    · exact .cons hn ih
    · exact ih
  | @added c _ _ hc _ ih =>
    rw [List.filter_cons]
    split
    · exact .added hc ih
    · exact ih

/-- What is found is there before, unless it was put in. -/
theorem find?_of_kept (h : Joined i R ns ns') (hkept : ∀ c ∈ ns'.find? p, i.adds c = false) :
    Option.Rel R (ns.find? p) (ns'.find? p) := by
  induction h with
  | nil => exact .none
  | @cons n n' _ _ hn _ ih =>
    rw [List.find?_cons] at hkept
    rw [List.find?_cons, List.find?_cons, hp n n' hn]
    split
    · exact .some hn
    · rename_i htest
      rw [htest] at hkept
      exact ih hkept
  | @added c _ _ hc _ ih =>
    rw [List.find?_cons] at hkept ⊢
    split
    · rename_i htest
      rw [htest] at hkept
      rw [hkept c rfl] at hc
      cases hc
    · rename_i htest
      rw [htest] at hkept
      exact ih hkept

theorem takeWhile (h : Joined i R ns ns') (hadded : ∀ c, i.adds c = true → p c = true) :
    Joined i R (ns.takeWhile p) (ns'.takeWhile p) := by
  induction h with
  | nil => exact .nil
  | @cons n n' _ _ hn _ ih =>
    rw [List.takeWhile_cons, List.takeWhile_cons, hp n n' hn]
    split
    · exact .cons hn ih
    · exact .nil
  | @added c _ _ hc _ ih =>
    rw [List.takeWhile_cons, if_pos (hadded c hc)]
    exact .added hc ih

variable (hadded : ∀ c, i.adds c = true → p c = false)
include hadded

theorem filter_forall₂ (h : Joined i R ns ns') : List.Forall₂ R (ns.filter p) (ns'.filter p) := by
  refine (h.filter hp).forall₂ fun c hc => ?_
  rw [Bool.eq_false_iff]
  intro hadds
  have hpc := (List.mem_filter.1 hc).2
  rw [hadded c hadds] at hpc
  cases hpc

theorem find? (h : Joined i R ns ns') : Option.Rel R (ns.find? p) (ns'.find? p) := by
  refine h.find?_of_kept hp fun c hc => ?_
  rw [Bool.eq_false_iff]
  intro hadds
  have hpc := List.find?_some hc
  rw [hadded c hadds] at hpc
  cases hpc

theorem any_eq (h : Joined i R ns ns') : ns.any p = ns'.any p := by
  induction h with
  | nil => rfl
  | @cons n n' _ _ hn _ ih => rw [List.any_cons, List.any_cons, hp n n' hn, ih]
  | @added c _ _ hc _ ih => rw [List.any_cons, hadded c hc, Bool.false_or, ih]

end Tests

/-- The first of a list is there before, unless it was put in. -/
theorem head_cases (h : Joined i R ns ns') (hkept : ∀ c ∈ ns'.head?, i.adds c = false) :
    (ns = [] ∧ ns' = []) ∨ ∃ n n' ms ms', ns = n :: ms ∧ ns' = n' :: ms' ∧ R n n' ∧
      Joined i R ms ms' := by
  cases h with
  | nil => exact .inl ⟨rfl, rfl⟩
  | cons hn hns => exact .inr ⟨_, _, _, _, rfl, rfl, hn, hns⟩
  | added hc _ =>
    rw [hkept _ rfl] at hc
    cases hc

/-- The last of a list is there before, unless it was put in. -/
theorem last_cases (h : Joined i R ns ns') (hkept : ∀ c ∈ ns'.getLast?, i.adds c = false) :
    (ns = [] ∧ ns' = []) ∨ ∃ n n' ms ms', ns = ms ++ [n] ∧ ns' = ms' ++ [n'] ∧ R n n' ∧
      Joined i R ms ms' := by
  rw [← List.head?_reverse] at hkept
  rcases h.reverse.head_cases hkept with ⟨hns, hns'⟩ | ⟨n, n', ms, ms', hns, hns', hn, hms⟩
  · exact .inl ⟨List.reverse_eq_nil_iff.1 hns, List.reverse_eq_nil_iff.1 hns'⟩
  · refine .inr ⟨n, n', ms.reverse, ms'.reverse, ?_, ?_, hn, hms.reverse⟩
    · rw [← List.reverse_cons, ← hns, List.reverse_reverse]
    · rw [← List.reverse_cons, ← hns', List.reverse_reverse]

theorem filterMap {α β : Type} {S : α → β → Prop} {f : Node → Option α} {g : Node → Option β}
    (hfg : ∀ n n', R n n' → Option.Rel S (f n) (g n'))
    (hadded : ∀ c, i.adds c = true → g c = none) (h : Joined i R ns ns') :
    List.Forall₂ S (ns.filterMap f) (ns'.filterMap g) := by
  induction h with
  | nil => exact .nil
  | @cons n n' _ _ hn _ ih =>
    rw [List.filterMap_cons, List.filterMap_cons]
    have hfound := hfg n n' hn
    generalize f n = x, g n' = x' at hfound
    cases hfound with
    | none => exact ih
    | some hab => exact .cons hab ih
  | @added c _ _ hc _ ih =>
    rw [List.filterMap_cons, hadded c hc]
    exact ih

theorem flatMap {f f' : Node → List Node} (hf : ∀ n n', R n n' → Joined i R (f n) (f' n'))
    (hadded : ∀ c, i.adds c = true → Joined i R [] (f' c)) (h : Joined i R ns ns') :
    Joined i R (ns.flatMap f) (ns'.flatMap f') := by
  induction h with
  | nil => exact .nil
  | @cons n n' _ _ hn _ ih => exact (hf n n' hn).append ih
  | @added c _ _ hc _ ih => exact (hadded c hc).append ih

end Joined

namespace Node

/-! ## Trees that echo each other -/

theorem withoutAll_overlooksAll_joined {ns ns' : List Node}
    (hwithout : withoutAll i ns' = movedAll i ns) (hover : overlooksAll i ns' = true) :
    Joined i (Echo i) ns ns' := by
  induction ns' generalizing ns with
  | nil =>
    cases ns with
    | nil => exact .nil
    | cons n rest => cases hwithout
  | cons c rest' ih =>
    rw [overlooksAll, Bool.and_eq_true] at hover
    rw [withoutAll] at hwithout
    split at hwithout
    · rename_i hc
      exact .added hc (ih hwithout hover.2)
    · cases ns with
      | nil => cases hwithout
      | cons n rest =>
        obtain ⟨hc, hrest⟩ := List.cons_eq_cons.1 hwithout
        exact .cons ⟨hc, hover.1⟩ (ih hrest hover.2)

namespace Echo

variable {n n' : Node}

theorem kind_eq (h : Echo i n n') : n'.kind = n.kind := by
  rw [← kind_moved (i := i) n, ← h.without_eq]
  cases n'
  rfl

theorem role_eq (h : Echo i n n') : n'.role = n.role := by
  have heq := congrArg role h.without_eq
  cases n
  cases n'
  exact heq

theorem leafText_eq (h : Echo i n n') : n'.leafText = n.leafText := by
  have heq := congrArg leafText h.without_eq
  cases n
  cases n'
  exact heq

theorem span_eq (h : Echo i n n') : n'.span = i.span n.span := by
  rw [← span_moved (i := i) n, ← h.without_eq]
  cases n'
  rfl

/-- What was there before is not what was put in. -/
theorem not_adds (h : Echo i n n') : i.adds n' = false := Insertion.not_adds_of_span h.span_eq

theorem start_eq (h : Echo i n n') : n'.start = i.start n.start :=
  congrArg Span.start h.span_eq

theorem stop_eq (h : Echo i n n') : n'.stop = i.stop n.stop :=
  congrArg Span.stop h.span_eq

theorem isNamed_eq (h : Echo i n n') : n.isNamed = n'.isNamed := by
  rw [isNamed, isNamed, h.kind_eq]

theorem overlooksHere (h : Echo i n n') : n'.overlooksHere i = true := by
  have hover := h.overlooks
  cases n'
  rw [Node.overlooks, Bool.and_eq_true] at hover
  exact hover.1

theorem children (h : Echo i n n') : Joined i (Echo i) n.children n'.children := by
  have hwithout := congrArg Node.children h.without_eq
  have hover := h.overlooks
  cases n
  cases n'
  rw [Node.overlooks, Bool.and_eq_true] at hover
  exact withoutAll_overlooksAll_joined hwithout hover.2

theorem named (h : Echo i n n') : Joined i (Echo i) n.namedChildren n'.namedChildren :=
  h.children.filter fun _ _ hc => hc.isNamed_eq

theorem kindTest (h : Echo i n n') (test : NodeKind → Bool) : test n.kind = test n'.kind := by
  rw [h.kind_eq]

theorem child? (h : Echo i n n') (role : Role) :
    Option.Rel (Echo i) (n.child? role) (n'.child? role) :=
  h.children.find? (fun _ _ hc => by rw [hc.role_eq]) fun c hc => by
    rw [Insertion.role_of_adds hc]
    rfl

theorem childrenIn (h : Echo i n n') (role : Role) :
    List.Forall₂ (Echo i) (n.childrenIn role) (n'.childrenIn role) :=
  h.children.filter_forall₂ (fun _ _ hc => by rw [hc.role_eq]) fun c hc => by
    rw [Insertion.role_of_adds hc]
    rfl

theorem childOfKind? (h : Echo i n n') (kind : NodeKind) (hkind : kind.isComment = false) :
    Option.Rel (Echo i) (n.childOfKind? kind) (n'.childOfKind? kind) :=
  h.named.find? (fun _ _ hc => by rw [hc.kind_eq]) fun _ hc => Insertion.kind_beq_of_adds hc hkind

/-- The first named child that a test of kinds finds. -/
theorem namedWith? (h : Echo i n n') {test : NodeKind → Bool}
    (htest : ∀ kind, kind.isComment = true → test kind = false) :
    Option.Rel (Echo i) (n.namedChildren.find? fun c => test c.kind)
      (n'.namedChildren.find? fun c => test c.kind) :=
  h.named.find? (fun _ _ hc => hc.kindTest test) fun _ hc => Insertion.test_of_adds hc htest

/-- The named children that a test of kinds keeps. -/
theorem allNamedWith (h : Echo i n n') (test : NodeKind → Bool)
    (htest : ∀ kind, kind.isComment = true → test kind = false) :
    List.Forall₂ (Echo i) (n.namedChildren.filter fun c => test c.kind)
      (n'.namedChildren.filter fun c => test c.kind) :=
  h.named.filter_forall₂ (fun _ _ hc => hc.kindTest test) fun _ hc =>
    Insertion.test_of_adds hc htest

/-- The named children of a kind. -/
theorem allOfKind (h : Echo i n n') (kind : NodeKind) (hkind : kind.isComment = false) :
    List.Forall₂ (fun c c' => Echo i c c' ∧ c.kind = kind)
      (n.namedChildren.filter (·.kind == kind)) (n'.namedChildren.filter (·.kind == kind)) := by
  refine forall₂_imp (h.allNamedWith (· == kind) fun _ hc =>
    NodeKind.beq_eq_false hc hkind) fun c c' hc _ hecho => ⟨hecho, ?_⟩
  simpa using (List.mem_filter.1 hc).2

theorem hasKeyword_eq (h : Echo i n n') (keyword : String) :
    (n.children.any fun c => c.kind == .token && c.leafText == keyword) =
      n'.children.any fun c => c.kind == .token && c.leafText == keyword :=
  h.children.any_eq (fun _ _ hc => by rw [hc.kind_eq, hc.leafText_eq]) fun _ hc => by
    rw [Insertion.kind_beq_of_adds hc rfl, Bool.false_and]

theorem hasModifier_eq (h : Echo i n n') (keyword : String) :
    n.hasModifier keyword = n'.hasModifier keyword := by
  have hmodifiers := h.childOfKind? .modifiers rfl
  unfold hasModifier
  generalize n.childOfKind? .modifiers = x, n'.childOfKind? .modifiers = x' at hmodifiers
  cases hmodifiers with
  | none => rfl
  | some hm => exact hm.hasKeyword_eq keyword

/-- What holds of trees once it holds of what hangs in them. -/
theorem induct {P : Node → Node → Prop}
    (step : ∀ n n', Echo i n n' →
      Joined i (fun c c' => Echo i c c' ∧ P c c') n.children n'.children → P n n') :
    ∀ n n', Echo i n n' → P n n' := by
  intro n n' h
  induction hheight : n'.height using Nat.strongRecOn generalizing n n' with
  | ind height ih =>
    refine step n n' h (h.children.imp fun c c' hc hecho => ⟨hecho, ?_⟩)
    exact ih c'.height (hheight ▸ height_lt hc) c c' hecho rfl

end Echo

theorem heightAll_joined {ns ns' : List Node}
    (h : Joined i (fun n n' => n.height = n'.height) ns ns') :
    heightAll ns ≤ heightAll ns' ∧ heightAll ns' ≤ max (heightAll ns) 1 := by
  induction h with
  | nil => simp [heightAll]
  | cons hn _ ih =>
    simp only [heightAll, hn]
    omega
  | @added c _ _ hc _ ih =>
    have hheight : c.height = 1 := by
      obtain ⟨kind, text, rfl, -⟩ := Insertion.adds_iff.1 hc
      rfl
    simp only [heightAll, hheight]
    omega

namespace Echo

/-- A comment is never all there is to a node, so that nothing grows. -/
theorem height_eq : ∀ n n', Echo i n n' → n.height = n'.height := by
  refine induct fun n n' h hchildren => ?_
  have hheights := heightAll_joined (hchildren.imp fun _ _ _ hc => hc.2)
  have hover := h.overlooksHere
  cases n with
  | mk kind role span text cs =>
  cases n' with
  | mk kind' role' span' text' cs' =>
  simp only [Node.children] at hheights hchildren
  simp only [Node.overlooksHere, Bool.and_eq_true] at hover
  rw [height, height]
  cases cs with
  | nil =>
    have hall : cs'.all i.adds = true := List.all_eq_true.2 hchildren.adds_of_nil
    have hnone : cs' = [] := by simpa [Node.children, hall] using hover.2
    rw [hnone]
  | cons c cs =>
    have hpos : 1 ≤ heightAll (c :: cs) := by
      cases c
      rw [heightAll, height]
      omega
    omega

end Echo

end Node

end Renaming.Java
