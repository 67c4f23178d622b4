import Renaming.Proofs.Java.Declared.Units

/-!
# Declared types and the types around them

Which types a tree declares, each with the innermost type around it. Registration goes over them in
the order of the text, and enters each one under a name that is made of the name of the type around
it and of the types before it. Only anonymous types that no type is around, and what is inside of
them, have no names.
-/

namespace Renaming.Java

/-- A type where it is declared: its node, the kind of the node that this hangs in, and the
innermost type around it. -/
structure NestedType where
  node : Node
  parent : NodeKind
  outer : Option Node
  /-- Whether the outermost type around it, or the type itself if there is none, has a name. -/
  isReached : Bool

namespace NestedType

def start (e : NestedType) : Nat := e.node.start

def isAnonymous (e : NestedType) : Bool := isAnonymousBody e.parent e.node

def place (e : NestedType) : Place :=
  if e.isAnonymous then .anonymous
  else if e.outer.isNone then .topLevel
  else if e.parent.holdsMembers then .member
  else .inBlock

/-- The name that a type is declared with; an anonymous type has none. -/
def name (source : SourceText) (e : NestedType) : String :=
  if e.isAnonymous then "" else ((e.node.child? .name).map source.text).getD ""

/-- Whether a node is the innermost type around a type. -/
def isDirectlyIn (n : Node) (e : NestedType) : Bool :=
  e.outer.any fun outer => outer.start == n.start

/-- The types in one kind of place that a node is the innermost type around. -/
def within (types : List NestedType) (n : Node) (place : Place) : List NestedType :=
  types.filter fun e => e.isDirectlyIn n && e.place == place

end NestedType

namespace Node

mutual

/-- The types that are declared in a node, the outer ones before the inner ones. -/
def nestedTypes (outer : Option Node) (isReached : Bool) (parent : NodeKind) :
    Node → List NestedType
  | .mk kind role span text children =>
    let n := Node.mk kind role span text children
    if declaresType parent n then
      let isReached := if outer.isNone then !isAnonymousBody parent n else isReached
      ⟨n, parent, outer, isReached⟩ :: nestedTypesAll (some n) isReached kind children
    else nestedTypesAll outer isReached kind children

def nestedTypesAll (outer : Option Node) (isReached : Bool) (parent : NodeKind) :
    List Node → List NestedType
  | [] => []
  | c :: rest =>
    (if c.isNamed then nestedTypes outer isReached parent c else []) ++
      nestedTypesAll outer isReached parent rest

end

mutual

theorem spec_of_mem_nestedTypes {source : SourceText} {outer : Option Node} {isReached : Bool}
    {parent : NodeKind} : ∀ {n : Node}, n.Sound source → ∀ e ∈ n.nestedTypes outer isReached parent,
      e.node.Sound source ∧ declaresType e.parent e.node = true
  | .mk kind role span text children, hn => by
    have hall (outer : Option Node) (isReached : Bool) :=
      @spec_of_mem_nestedTypesAll source outer isReached kind children hn.of_mem_children
    intro e he
    rw [nestedTypes] at he
    dsimp only at he
    split at he
    · rename_i hdeclares
      rcases List.mem_cons.1 he with rfl | he
      · exact ⟨hn, hdeclares⟩
      · exact hall _ _ e he
    · exact hall _ _ e he

theorem spec_of_mem_nestedTypesAll {source : SourceText} {outer : Option Node} {isReached : Bool}
    {parent : NodeKind} : ∀ {ns : List Node}, (∀ n ∈ ns, n.Sound source) →
      ∀ e ∈ nestedTypesAll outer isReached parent ns,
        e.node.Sound source ∧ declaresType e.parent e.node = true
  | [], _ => by
    intro e he
    cases he
  | c :: rest, hns => by
    intro e he
    rw [nestedTypesAll] at he
    rcases List.mem_append.1 he with he | he
    · split at he
      · exact spec_of_mem_nestedTypes (hns c List.mem_cons_self) e he
      · cases he
    · exact spec_of_mem_nestedTypesAll (fun n hn => hns n (List.mem_cons_of_mem c hn)) e he

end

/-- The types that the tree of a unit declares. -/
def declaredTypes (root : Node) : List NestedType := nestedTypes none true .program root

/-- The types of a unit that have binary names. -/
def namedTypes (root : Node) : List NestedType := root.declaredTypes.filter (·.isReached)

end Node

/-- Types are named by words. -/
theorem NestedType.notMem_name {source : SourceText} {root : Node} (hroot : root.Sound source)
    {e : NestedType} (he : e ∈ root.declaredTypes) {c : Char}
    (hc : Lexeme.continuesName c = false) : c ∉ (e.name source).toList := by
  unfold name
  split
  · simp
  · rename_i hanonymous
    obtain ⟨hnode, hdeclares⟩ := Node.spec_of_mem_nestedTypes hroot e he
    have htype : e.node.kind.isTypeDeclaration = true :=
      (Bool.or_eq_true_iff.1 hdeclares).resolve_left hanonymous
    cases hname : e.node.child? .name with
    | none => simp
    | some n =>
      intro hmem
      have hpart := (hnode.child_spec hname).1
      have hword := (hnode.of_mem_children n (List.mem_filter.1 hpart).1).holds.name
        (hnode.isName_typeName htype hname) c hmem
      rw [hc] at hword
      cases hword

namespace Registration

variable {source : SourceText} {package : String} {l l' : List (NestedType × RegisteredType)}
  {e : NestedType} {t : RegisteredType}

/-! ## What is made of a type -/

/-- Whether a node is one of the types that are registered, under a name. -/
def Known (l : List (NestedType × RegisteredType)) (n : Node) (binary : String) : Prop :=
  ∃ p ∈ l, p.1.node = n ∧ p.2.binary = binary

/-- Whether a type stands in the type `outer` in the same kind of place, and under the same name, as
another type. -/
def isAlike (source : SourceText) (e : NestedType) (outer : String)
    (p : NestedType × RegisteredType) : Bool :=
  p.1.place == e.place && p.1.name source == e.name source && p.2.declaration.outer == some outer

/-- What a type adds to the name of the type around it: only member types are not numbered. -/
def segment (source : SourceText) (e : NestedType) (number : Nat) : String :=
  (if e.place = .member then "" else toString number) ++ e.name source

/-- The binary name of a type after those before it. -/
def binaryAfter (source : SourceText) (package : String) (l : List (NestedType × RegisteredType))
    (e : NestedType) : Option String → String
  | none => topLevelName package (e.name source)
  | some outer => outer ++ "$" ++ segment source e (l.countP (isAlike source e outer) + 1)

/-- What registration makes of a type after those before it. -/
structure Makes (source : SourceText) (package : String) (l : List (NestedType × RegisteredType))
    (e : NestedType) (t : RegisteredType) : Prop where
  start : t.start = e.start
  place : t.place = e.place
  simple : e.isAnonymous = false → t.declaration.simple = e.name source
  outer : Option.Rel (Known l) e.outer t.declaration.outer
  reached : e.isReached = true
  binary : t.binary = binaryAfter source package l e t.declaration.outer

/-- Types, each with what is made of it after those before it. -/
inductive Registers (source : SourceText) (package : String) :
    List (NestedType × RegisteredType) → Prop where
  | nil : Registers source package []
  | snoc {l : List (NestedType × RegisteredType)} {e : NestedType} {t : RegisteredType}
      (hl : Registers source package l) (hmakes : Makes source package l e t) :
      Registers source package (l ++ [(e, t)])

/-- Every type is made after those before it. -/
theorem Registers.split (h : Registers source package l) :
    ∀ {before after : List (NestedType × RegisteredType)} {p : NestedType × RegisteredType},
      l = before ++ p :: after →
        Registers source package before ∧ Makes source package before p.1 p.2 := by
  induction h with
  | nil =>
    intro before after p hsplit
    simp at hsplit
  | @snoc l e t hl hmakes ih =>
    intro before after p hsplit
    rcases List.eq_nil_or_concat after with rfl | ⟨after, last, rfl⟩
    · obtain ⟨rfl, hp⟩ := List.append_inj' hsplit rfl
      obtain rfl := List.singleton_inj.1 hp
      exact ⟨hl, hmakes⟩
    · rw [List.concat_eq_append, ← List.cons_append, ← List.append_assoc] at hsplit
      exact ih (List.append_inj' hsplit rfl).1

theorem Registers.exists_makes (h : Registers source package l) {p : NestedType × RegisteredType}
    (hp : p ∈ l) : ∃ before, before ⊆ l ∧ Makes source package before p.1 p.2 := by
  obtain ⟨before, after, rfl⟩ := List.append_of_mem hp
  exact ⟨before, List.subset_append_left _ _, (h.split rfl).2⟩

theorem Registers.countP_isAlike (h : Registers source package l) (e : NestedType)
    (outer : String) (test : RegisteredType → Bool)
    (htest : ∀ p ∈ l, p.2.place = p.1.place →
      (p.1.isAnonymous = false → p.2.declaration.simple = p.1.name source) →
      test p.2 = (p.1.place == e.place && p.1.name source == e.name source)) :
    nextNumber (l.map Prod.snd) test outer = l.countP (isAlike source e outer) + 1 := by
  rw [nextNumber, List.countP_map]
  refine congrArg (· + 1) (List.countP_congr fun p hp => ?_)
  obtain ⟨before, -, hmakes⟩ := h.exists_makes hp
  rw [Function.comp_apply, htest p hp hmakes.place hmakes.simple, isAlike]

theorem place_eq_anonymous_iff : e.place = .anonymous ↔ e.isAnonymous = true := by
  unfold NestedType.place
  split
  · simp [*]
  · split
    · simp [*]
    · split <;> simp [*]

theorem name_of_isAnonymous (h : e.isAnonymous = true) : e.name source = "" := if_pos h

/-- What is made of an anonymous type within a type. -/
theorem makes_anonymous (hl : Registers source package l) {outer : String} {n : Node}
    (hanonymous : e.isAnonymous = true) (houter : e.outer = some n) (hknown : Known l n outer)
    (hreached : e.isReached = true) :
    Makes source package l e (anonymous outer (l.map Prod.snd) e.node) where
  start := rfl
  place := (place_eq_anonymous_iff.2 hanonymous).symm
  simple h := by
    rw [hanonymous] at h
    cases h
  outer := houter ▸ .some hknown
  reached := hreached
  binary := by
    have hplace := place_eq_anonymous_iff.2 hanonymous
    have hnumber := hl.countP_isAlike e outer (·.place == .anonymous) fun p hp hsame _ => by
      rw [hsame, hplace, name_of_isAnonymous hanonymous]
      cases hp' : p.1.isAnonymous with
      | true => rw [place_eq_anonymous_iff.2 hp', name_of_isAnonymous hp']; rfl
      | false =>
        have hne : p.1.place ≠ .anonymous := by
          rw [Ne, place_eq_anonymous_iff, hp']
          exact Bool.false_ne_true
        rw [beq_eq_false_iff_ne.2 hne, Bool.false_and]
    change outer ++ "$" ++ toString (nextNumber _ _ outer) = outer ++ "$" ++ segment source e _
    rw [hnumber, segment, hplace, name_of_isAnonymous hanonymous, if_neg (by simp),
      String.append_empty]

/-- What is made of a type with a name. -/
theorem makes_named (hl : Registers source package l) {outer : Option String} {name : Node}
    (hanonymous : e.isAnonymous = false) (hname : e.node.child? .name = some name)
    (houter : Option.Rel (Known l) e.outer outer) (hreached : e.isReached = true) :
    Makes source package l e
      (named package outer e.parent (l.map Prod.snd) (source.text name) e.node) := by
  have hsimple : e.name source = source.text name := by
    rw [NestedType.name, hanonymous, hname]
    rfl
  cases hout : e.outer with
  | none =>
    rw [hout] at houter
    cases houter
    have hplace : e.place = .topLevel := by simp [NestedType.place, hanonymous, hout]
    exact ⟨rfl, hplace.symm, fun _ => hsimple.symm, hout ▸ .none, hreached,
      congrArg (topLevelName package) hsimple.symm⟩
  | some n =>
    rw [hout] at houter
    obtain ⟨hknown⟩ := houter
    rename_i outer
    unfold named
    dsimp only
    split
    · rename_i hmember
      have hplace : e.place = .member := by simp [NestedType.place, hanonymous, hout, hmember]
      refine ⟨rfl, hplace.symm, fun _ => hsimple.symm, hout ▸ .some hknown, hreached, ?_⟩
      change outer ++ "$" ++ source.text name = outer ++ "$" ++ segment source e _
      rw [segment, hplace, if_pos rfl, hsimple, String.empty_append]
    · rename_i hmember
      have hplace : e.place = .inBlock := by simp [NestedType.place, hanonymous, hout, hmember]
      refine ⟨rfl, hplace.symm, fun _ => hsimple.symm, hout ▸ .some hknown, hreached, ?_⟩
      have hnumber := hl.countP_isAlike e outer
        (fun t => t.place == .inBlock && t.declaration.simple == source.text name)
        fun p hp hsame hnamed => by
          rw [hsame, hplace, hsimple]
          cases hp' : p.1.isAnonymous with
          | true => rw [place_eq_anonymous_iff.2 hp']; rfl
          | false => rw [hnamed hp']
      change outer ++ "$" ++ toString (nextNumber _ _ outer) ++ source.text name =
        outer ++ "$" ++ segment source e _
      rw [hnumber, segment, hplace, if_neg (by simp), hsimple, String.append_assoc]

/-! ## What is registered -/

theorem Known.append {n : Node} {binary : String} (h : Known l n binary) :
    Known (l ++ l') n binary := by
  obtain ⟨p, hp, hnode, hbinary⟩ := h
  exact ⟨p, List.mem_append_left l' hp, hnode, hbinary⟩

theorem known_append {outer : Option Node} {binary : Option String}
    (h : Option.Rel (Known l) outer binary) : Option.Rel (Known (l ++ l')) outer binary := by
  cases h with
  | none => exact .none
  | some hknown => exact .some hknown.append

mutual

/-- Nothing inside of a type without a name has one. -/
theorem unreached_nestedTypes {outer : Node} {parent : NodeKind} :
    ∀ n : Node, ∀ e ∈ n.nestedTypes (some outer) false parent, e.isReached = false
  | .mk kind role span text children => by
    intro e he
    rw [Node.nestedTypes] at he
    dsimp only at he
    split at he
    · rcases List.mem_cons.1 he with rfl | he
      · rfl
      · exact unreached_nestedTypesAll children e he
    · exact unreached_nestedTypesAll children e he

theorem unreached_nestedTypesAll {outer : Node} {parent : NodeKind} :
    ∀ ns : List Node, ∀ e ∈ Node.nestedTypesAll (some outer) false parent ns, e.isReached = false
  | [] => by
    intro e he
    cases he
  | c :: rest => by
    intro e he
    rw [Node.nestedTypesAll] at he
    rcases List.mem_append.1 he with he | he
    · split at he
      · exact unreached_nestedTypes c e he
      · cases he
    · exact unreached_nestedTypesAll rest e he

end

/-- What is added to the types that are registered: an entry for each of `types` with a name. -/
def Adds (source : SourceText) (package : String) (l : List (NestedType × RegisteredType))
    (types : List NestedType) (found : List RegisteredType) : Prop :=
  ∃ added, found = (l ++ added).map Prod.snd ∧
    added.map Prod.fst = types.filter (·.isReached) ∧ Registers source package (l ++ added)

theorem Adds.none {types : List NestedType} (hl : Registers source package l)
    (htypes : ∀ e ∈ types, e.isReached = false) :
    Adds source package l types (l.map Prod.snd) := by
  have hnone : types.filter (·.isReached) = [] :=
    List.filter_eq_nil_iff.2 fun e he => by rw [htypes e he]; exact Bool.false_ne_true
  exact ⟨[], by rw [List.append_nil], hnone.symm, by rwa [List.append_nil]⟩

/-- An entry for a type, then those for the types inside of it. -/
theorem Adds.cons {types : List NestedType} {found : List RegisteredType}
    (hmakes : Makes source package l e t)
    (h : Adds source package (l ++ [(e, t)]) types found) :
    Adds source package l (e :: types) found := by
  obtain ⟨added, hfound, htypes, hregisters⟩ := h
  rw [List.append_assoc] at hfound hregisters
  exact ⟨(e, t) :: added, hfound,
    by rw [List.map_cons, htypes, List.filter_cons_of_pos hmakes.reached], hregisters⟩

mutual

/-- The types in a node are registered in the order of the text. -/
theorem adds_visit {outer : Option Node} {binary : Option String} {isReached : Bool}
    {l : List (NestedType × RegisteredType)} (hl : Registers source package l)
    (houter : Option.Rel (Known l) outer binary) (hreached : outer ≠ none → isReached = true)
    (parent : NodeKind) : ∀ {n : Node}, n.Sound source →
      Adds source package l (n.nestedTypes outer isReached parent)
        (visit source package binary parent (l.map Prod.snd) n)
  | .mk kind role span text children, hn => by
    let n := Node.mk kind role span text children
    let within := if outer.isNone then !isAnonymousBody parent n else isReached
    let e : NestedType := ⟨n, parent, outer, within⟩
    have hall {l : List (NestedType × RegisteredType)} {outer : Option Node}
        {binary : Option String} {isReached : Bool} (hl : Registers source package l)
        (houter : Option.Rel (Known l) outer binary) (hreached : outer ≠ none → isReached = true) :
        Adds source package l (Node.nestedTypesAll outer isReached kind children)
          (visitAll source package binary kind (l.map Prod.snd) children) :=
      adds_visitAll hl houter hreached kind hn.of_mem_children
    -- a type with a name is entered before the types inside of it
    have hentry {t : RegisteredType} (hmakes : Makes source package l e t) :
        Adds source package l (e :: Node.nestedTypesAll (some n) within kind children)
          (visitAll source package (some t.binary) kind (l.map Prod.snd ++ [t]) children) := by
      have hknown : Known (l ++ [(e, t)]) n t.binary := ⟨(e, t), by simp, rfl, rfl⟩
      have h := hall (hl.snoc hmakes) (.some hknown) fun _ => hmakes.reached
      rw [List.map_append] at h
      exact h.cons hmakes
    have hkind : (Node.mk kind role span text children).kind = kind := rfl
    rw [Node.nestedTypes, visit.eq_def]
    dsimp only
    by_cases hanonymous : isAnonymousBody parent (Node.mk kind role span text children) = true
    · rw [if_pos (by simp [declaresType, hanonymous]), if_pos hanonymous]
      cases houter with
      | none =>
        have hwithin : within = false := by simp [within, n, hanonymous]
        refine .none hl fun e' he' => ?_
        change e' ∈ e :: Node.nestedTypesAll (some n) within kind children at he'
        rw [hwithin] at he'
        rcases List.mem_cons.1 he' with rfl | he'
        · exact hwithin
        · exact unreached_nestedTypesAll children e' he'
      | @some outer binary hknown =>
        exact hentry (makes_anonymous hl hanonymous rfl hknown (hreached (by simp)))
    · rw [if_neg hanonymous]
      rw [Bool.not_eq_true] at hanonymous
      have hwithin : within = true := by
        cases houter with
        | none => simp [within, n, hanonymous]
        | some => exact hreached (by simp)
      by_cases htype : kind.isTypeDeclaration = true
      · rw [if_pos (by simp [declaresType, hkind, htype]), if_pos htype]
        obtain ⟨name, hname⟩ := Option.isSome_iff_exists.1
          (Node.Sound.isSome_child (hn.shape.titled htype).1)
        rw [hname]
        exact hentry (makes_named hl hanonymous hname houter hwithin)
      · rw [if_neg (by simp [declaresType, hkind, hanonymous, htype]), if_neg htype]
        exact hall hl houter hreached

theorem adds_visitAll {outer : Option Node} {binary : Option String} {isReached : Bool}
    {l : List (NestedType × RegisteredType)} (hl : Registers source package l)
    (houter : Option.Rel (Known l) outer binary) (hreached : outer ≠ none → isReached = true)
    (parent : NodeKind) : ∀ {ns : List Node}, (∀ n ∈ ns, n.Sound source) →
      Adds source package l (Node.nestedTypesAll outer isReached parent ns)
        (visitAll source package binary parent (l.map Prod.snd) ns)
  | [], _ => .none hl (by simp [Node.nestedTypesAll])
  | c :: rest, hns => by
    have hc : Adds source package l
        (if c.isNamed then c.nestedTypes outer isReached parent else [])
        (if c.isNamed then visit source package binary parent (l.map Prod.snd) c
          else l.map Prod.snd) := by
      split
      · exact adds_visit hl houter hreached parent (hns c List.mem_cons_self)
      · exact .none hl (by simp)
    obtain ⟨added, hfound, htypes, hregisters⟩ := hc
    obtain ⟨later, hfound', htypes', hregisters'⟩ :=
      adds_visitAll hregisters (known_append houter) hreached parent
        fun n hn => hns n (List.mem_cons_of_mem c hn)
    rw [visitAll, Node.nestedTypesAll, hfound]
    refine ⟨added ++ later, ?_, ?_, ?_⟩
    · rw [hfound', List.append_assoc]
    · rw [List.map_append, htypes, htypes', List.filter_append]
    · rw [← List.append_assoc]
      exact hregisters'

end

end Registration

/-- The types that are registered are the types with names, each named after those before it. -/
theorem ParsedUnit.exists_registers (unit : ParsedUnit) {root : Node}
    (htree : unit.tree = some root) (hroot : root.Sound unit.source) :
    ∃ l, unit.registered = l.map Prod.snd ∧ l.map Prod.fst = root.namedTypes ∧
      Registration.Registers unit.source (declaredPackage unit.source root) l := by
  have hadds : Registration.Adds unit.source (declaredPackage unit.source root) []
      root.declaredTypes (registeredTypes unit.source root) :=
    Registration.adds_visit .nil .none (fun _ => rfl) .program hroot
  obtain ⟨l, hfound, htypes, hregisters⟩ := hadds
  rw [List.nil_append] at hfound hregisters
  refine ⟨l, ?_, htypes, hregisters⟩
  rw [registered, htree]
  exact hfound

end Renaming.Java
