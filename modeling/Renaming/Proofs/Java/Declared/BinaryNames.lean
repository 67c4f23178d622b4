import Renaming.Proofs.Java.Declared.Nesting
import Renaming.Proofs.Signature
import Renaming.Proofs.Symbol

/-!
# Binary names of declared types

Where the names of types have no marks in them, the binary name of a type tells the type around it,
and its number and its name there. So no two types have the same binary name if no two types at the
top level and no two members of one type have the same name, and the local and anonymous types in a
type are numbered from one in the order of the text.
-/

namespace Renaming.Java

/-! ## Segments -/

/-- A name that can be told from the marks and the numbers in front of it. -/
@[mk_iff] structure IsUnnumbered (name : String) : Prop where
  unseparated : '$' ∉ name.toList
  unnumbered : name.toList.head?.any Char.isDigit = false

instance (name : String) : Decidable (IsUnnumbered name) :=
  decidable_of_iff _ (isUnnumbered_iff name).symm

theorem isUnnumbered_empty : IsUnnumbered "" := ⟨by simp, rfl⟩

namespace IsUnnumbered

variable {name name' : String} {number number' : List Char}

theorem dropWhile_digits (h : IsUnnumbered name) (hnumber : ∀ c ∈ number, c.isDigit = true) :
    (number ++ name.toList).dropWhile Char.isDigit = name.toList := by
  rw [List.dropWhile_append_of_pos hnumber]
  cases hname : name.toList with
  | nil => rfl
  | cons c rest =>
    have hc := h.unnumbered
    rw [hname, List.head?_cons, Option.any_some] at hc
    rw [List.dropWhile_cons_of_neg (by simp [hc])]

/-- A number and a name after it are told apart. -/
theorem append_inj (h : IsUnnumbered name) (h' : IsUnnumbered name')
    (hnumber : ∀ c ∈ number, c.isDigit = true) (hnumber' : ∀ c ∈ number', c.isDigit = true)
    (heq : number ++ name.toList = number' ++ name'.toList) :
    number = number' ∧ name = name' := by
  have hname : name.toList = name'.toList := by
    rw [← h.dropWhile_digits hnumber, heq, h'.dropWhile_digits hnumber']
  rw [hname] at heq
  exact ⟨List.append_cancel_right heq, String.toList_inj.1 hname⟩

end IsUnnumbered

namespace Registration

variable {source : SourceText} {package : String} {l l' : List (NestedType × RegisteredType)}
  {e e' : NestedType} {t t' : RegisteredType} {k k' : Nat}

/-- What stands in front of the name in a segment. -/
def segmentNumber (e : NestedType) (k : Nat) : List Char :=
  if e.place = .member then [] else (toString k).toList

theorem toList_segment (source : SourceText) (e : NestedType) (k : Nat) :
    (segment source e k).toList = segmentNumber e k ++ (e.name source).toList := by
  rw [segment, String.toList_append, segmentNumber]
  split <;> rfl

theorem isDigit_of_mem_segmentNumber {c : Char} (h : c ∈ segmentNumber e k) :
    c.isDigit = true := by
  unfold segmentNumber at h
  split at h
  · cases h
  · exact Text.isDigit_of_mem_toString h

theorem dollar_notMem_segment (h : IsUnnumbered (e.name source)) (k : Nat) :
    '$' ∉ (segment source e k).toList := by
  rw [toList_segment, List.mem_append, not_or]
  refine ⟨fun hmem => ?_, h.unseparated⟩
  cases isDigit_of_mem_segmentNumber hmem

theorem toList_toString_ne_nil (k : Nat) : (toString k).toList ≠ [] := by
  rw [Text.toList_toString_nat]
  exact Nat.toDigits_ne_nil

theorem segmentNumber_inj (h : segmentNumber e k = segmentNumber e' k') :
    e.place = .member ∧ e'.place = .member ∨ e.place ≠ .member ∧ e'.place ≠ .member ∧ k = k' := by
  unfold segmentNumber at h
  split at h
  · split at h
    · exact .inl ⟨‹_›, ‹_›⟩
    · exact absurd h.symm (toList_toString_ne_nil k')
  · split at h
    · exact absurd h (toList_toString_ne_nil k)
    · exact .inr ⟨‹_›, ‹_›, eq_of_toList_toString_eq h⟩

/-- Only anonymous types have no name. -/
theorem name_eq_empty_iff (h : e.isAnonymous = false → e.name source ≠ "") :
    e.name source = "" ↔ e.isAnonymous = true := by
  refine ⟨fun hname => ?_, name_of_isAnonymous⟩
  by_contra hanonymous
  exact h (Bool.eq_false_iff.2 hanonymous) hname

theorem place_of_ne_member (houter : e.outer ≠ none) (h : e.place ≠ .member) :
    e.place = if e.isAnonymous then .anonymous else .inBlock := by
  have hinner : ¬ e.outer.isNone = true := by simpa using houter
  unfold NestedType.place at h ⊢
  rw [if_neg hinner] at h ⊢
  cases hanonymous : e.isAnonymous with
  | true => rfl
  | false =>
    rw [hanonymous, if_neg Bool.false_ne_true] at h
    exact if_neg fun hmember => h (if_pos hmember)

/-- Within a type, a segment tells the kind of the place, the name, and the number unless the type
is a member. -/
theorem segment_inj (h : IsUnnumbered (e.name source)) (h' : IsUnnumbered (e'.name source))
    (hnamed : e.isAnonymous = false → e.name source ≠ "")
    (hnamed' : e'.isAnonymous = false → e'.name source ≠ "") (houter : e.outer ≠ none)
    (houter' : e'.outer ≠ none) (heq : segment source e k = segment source e' k') :
    e.place = e'.place ∧ e.name source = e'.name source ∧ (e.place = .member ∨ k = k') := by
  have hlists := congrArg String.toList heq
  rw [toList_segment, toList_segment] at hlists
  obtain ⟨hnumber, hname⟩ := h.append_inj h' (fun _ => isDigit_of_mem_segmentNumber)
    (fun _ => isDigit_of_mem_segmentNumber) hlists
  rcases segmentNumber_inj hnumber with ⟨hmember, hmember'⟩ | ⟨hmember, hmember', rfl⟩
  · exact ⟨hmember.trans hmember'.symm, hname, .inl hmember⟩
  · refine ⟨?_, hname, .inr rfl⟩
    have hanonymous : e.isAnonymous = e'.isAnonymous := by
      rw [Bool.eq_iff_iff, ← name_eq_empty_iff hnamed, ← name_eq_empty_iff hnamed', hname]
    rw [place_of_ne_member houter hmember, place_of_ne_member houter' hmember', hanonymous]

/-! ## Types around types -/

theorem Makes.exists_outer (h : Makes source package l e t) {outer : String}
    (hout : t.declaration.outer = some outer) :
    ∃ p ∈ l, e.outer = some p.1.node ∧ p.2.binary = outer := by
  have hrel := h.outer
  rw [hout] at hrel
  generalize e.outer = around at hrel ⊢
  obtain ⟨p, hp, rfl, rfl⟩ := hrel
  exact ⟨p, hp, rfl, rfl⟩

theorem Makes.outer_eq_none (h : Makes source package l e t) (hout : t.declaration.outer = none) :
    e.outer = none := by
  have hrel := h.outer
  rw [hout] at hrel
  generalize e.outer = around at hrel ⊢
  cases hrel
  rfl

/-- A type is entered within the type around it. -/
theorem Registers.outer_eq_of_isDirectlyIn (h : Registers source package l)
    (hstarts : (l.map (·.1.start)).Nodup) {p q : NestedType × RegisteredType} (hp : p ∈ l)
    (hq : q ∈ l) (hin : q.1.isDirectlyIn p.1.node = true) :
    q.2.declaration.outer = some p.2.binary := by
  obtain ⟨before, hbefore, hmakes⟩ := h.exists_makes hq
  cases hout : q.2.declaration.outer with
  | none =>
    rw [NestedType.isDirectlyIn, hmakes.outer_eq_none hout] at hin
    cases hin
  | some outer =>
    obtain ⟨r, hr, houter, rfl⟩ := hmakes.exists_outer hout
    rw [NestedType.isDirectlyIn, houter] at hin
    rw [List.inj_on_of_nodup_map hstarts (hbefore hr) hp (beq_iff_eq.1 hin)]

/-- Where binary names are distinct, the type around a type is told by its name. -/
theorem Registers.outer_eq_iff (h : Registers source package l)
    (hbinaries : (l.map (·.2.binary)).Nodup) (hstarts : (l.map (·.1.start)).Nodup)
    {p q : NestedType × RegisteredType} (hp : p ∈ l) (hq : q ∈ l) :
    q.2.declaration.outer = some p.2.binary ↔ q.1.isDirectlyIn p.1.node = true := by
  refine ⟨fun hout => ?_, h.outer_eq_of_isDirectlyIn hstarts hp hq⟩
  obtain ⟨before, hbefore, hmakes⟩ := h.exists_makes hq
  obtain ⟨r, hr, houter, hbinary⟩ := hmakes.exists_outer hout
  obtain rfl := List.inj_on_of_nodup_map hbinaries (hbefore hr) hp hbinary
  rw [NestedType.isDirectlyIn, houter]
  exact beq_self_eq_true _

/-! ## Distinct names -/

theorem topLevelName_eq_append (package name : String) :
    topLevelName package name = topLevelName package "" ++ name := by
  unfold topLevelName
  split
  · rw [String.empty_append]
  · rw [String.append_empty]

/-- All types of a unit have the package in front of their names. -/
theorem Registers.exists_rest (h : Registers source package l)
    {p : NestedType × RegisteredType} (hp : p ∈ l) :
    ∃ rest, p.2.binary = topLevelName package "" ++ rest := by
  induction h generalizing p with
  | nil => cases hp
  | @snoc l e t hl hmakes ih =>
    rcases List.mem_append.1 hp with hp | hp
    · exact ih hp
    · obtain rfl := List.mem_singleton.1 hp
      have hbinary := hmakes.binary
      cases hout : t.declaration.outer with
      | none =>
        rw [hout] at hbinary
        exact ⟨e.name source, hbinary.trans (topLevelName_eq_append _ _)⟩
      | some outer =>
        obtain ⟨q, hq, -, rfl⟩ := hmakes.exists_outer hout
        obtain ⟨rest, hrest⟩ := ih hq
        rw [hout, hrest, binaryAfter, String.append_assoc, String.append_assoc] at hbinary
        exact ⟨_, hbinary⟩

theorem append_dollar_inj {a b x y : String} (hx : '$' ∉ x.toList) (hy : '$' ∉ y.toList)
    (h : a ++ "$" ++ x = b ++ "$" ++ y) : a = b ∧ x = y := by
  have hcut : Text.cutLast '$' (a ++ "$" ++ x) = some (a, x) :=
    Text.cutLast_eq a x (by simp) hx
  rw [h, Text.cutLast_eq b y (by simp) hy] at hcut
  cases hcut
  exact ⟨rfl, rfl⟩

/-- What is at the top level is not inside of a type. -/
theorem topLevelName_ne_inner {name rest segment : String} (hname : '$' ∉ name.toList) :
    topLevelName package name ≠ topLevelName package "" ++ rest ++ "$" ++ segment := by
  rw [topLevelName_eq_append, String.append_assoc, String.append_assoc]
  intro heq
  have hcut := (String.append_right_inj _).1 heq
  rw [hcut] at hname
  simp at hname

/-- A binary name tells the type around a type, its name, and the kind of its place. Unless it is a
member, it also tells how many types like it there are before. -/
theorem Makes.binary_inj (h : Makes source package l e t) (h' : Makes source package l' e' t')
    (hl : Registers source package l) (hl' : Registers source package l')
    (hname : IsUnnumbered (e.name source)) (hname' : IsUnnumbered (e'.name source))
    (hnamed : e.isAnonymous = false → e.name source ≠ "")
    (hnamed' : e'.isAnonymous = false → e'.name source ≠ "") (heq : t.binary = t'.binary) :
    t.declaration.outer = t'.declaration.outer ∧ e.name source = e'.name source ∧
      ∀ outer, t.declaration.outer = some outer → e.place = e'.place ∧ (e.place = .member ∨
        l.countP (isAlike source e outer) = l'.countP (isAlike source e' outer)) := by
  rw [h.binary, h'.binary] at heq
  cases hout : t.declaration.outer with
  | none =>
    cases hout' : t'.declaration.outer with
    | none =>
      rw [hout, hout', binaryAfter, binaryAfter, topLevelName_eq_append,
        topLevelName_eq_append _ (e'.name source)] at heq
      refine ⟨rfl, (String.append_right_inj _).1 heq, fun outer hsome => ?_⟩
      cases hsome
    | some outer =>
      obtain ⟨p, hp, -, rfl⟩ := h'.exists_outer hout'
      obtain ⟨rest, hrest⟩ := hl'.exists_rest hp
      rw [hout, hout', hrest] at heq
      exact absurd heq (topLevelName_ne_inner hname.unseparated)
  | some outer =>
    obtain ⟨p, hp, houter, rfl⟩ := h.exists_outer hout
    obtain ⟨rest, hrest⟩ := hl.exists_rest hp
    cases hout' : t'.declaration.outer with
    | none =>
      rw [hout, hout', hrest] at heq
      exact absurd heq.symm (topLevelName_ne_inner hname'.unseparated)
    | some outer' =>
      obtain ⟨p', -, houter', -⟩ := h'.exists_outer hout'
      rw [hout, hout'] at heq
      obtain ⟨rfl, hsegment⟩ := append_dollar_inj (dollar_notMem_segment hname _)
        (dollar_notMem_segment hname' _) heq
      obtain ⟨hplace, hsame, hnumber⟩ := segment_inj hname hname' hnamed hnamed'
        (by simp [houter]) (by simp [houter']) hsegment
      refine ⟨rfl, hsame, fun outer hsome => ?_⟩
      cases hsome
      exact ⟨hplace, hnumber.imp_right Nat.succ_inj.1⟩

/-- The names of types are not missing and can be told from numbers, and no two types at the top
level and no two members of one type have the same name. -/
@[mk_iff] structure DistinctNames (source : SourceText) (types : List NestedType) : Prop where
  named : ∀ e ∈ types, e.isAnonymous = false → e.name source ≠ ""
  unnumbered : ∀ e ∈ types, e.isAnonymous = false → IsUnnumbered (e.name source)
  topLevel : ((types.filter (·.outer.isNone)).map (·.name source)).Nodup
  members : ∀ outer ∈ types, ((NestedType.within types outer.node .member).map (·.name source)).Nodup

instance (source : SourceText) (types : List NestedType) : Decidable (DistinctNames source types) :=
  decidable_of_iff _ (distinctNames_iff source types).symm

theorem DistinctNames.sublist {types types' : List NestedType} (h : DistinctNames source types)
    (hsub : types'.Sublist types) : DistinctNames source types' where
  named e he := h.named e (hsub.subset he)
  unnumbered e he := h.unnumbered e (hsub.subset he)
  topLevel := h.topLevel.sublist ((hsub.filter _).map _)
  members outer houter := (h.members outer (hsub.subset houter)).sublist ((hsub.filter _).map _)

theorem DistinctNames.isUnnumbered {types : List NestedType} (h : DistinctNames source types)
    (he : e ∈ types) : IsUnnumbered (e.name source) := by
  cases hanonymous : e.isAnonymous with
  | true =>
    rw [name_of_isAnonymous hanonymous]
    exact isUnnumbered_empty
  | false => exact h.unnumbered e he hanonymous

theorem ne_of_nodup_map_filter {α β : Type} {f : α → β} {test : α → Bool} {as : List α} {a b : α}
    (h : (((as ++ [b]).filter test).map f).Nodup) (ha : a ∈ as) (hta : test a = true)
    (htb : test b = true) : f a ≠ f b := by
  rw [List.filter_append, List.map_append, List.nodup_append] at h
  exact h.2.2 _ (List.mem_map_of_mem (List.mem_filter.2 ⟨ha, hta⟩)) _ (by simp [htb])

/-- The binary name of a type is new. -/
theorem Registers.binary_ne (hl : Registers source package l) (h : Makes source package l e t)
    (hbinaries : (l.map (·.2.binary)).Nodup)
    (hnames : DistinctNames source (l.map Prod.fst ++ [e])) {p : NestedType × RegisteredType}
    (hp : p ∈ l) : p.2.binary ≠ t.binary := by
  intro heq
  obtain ⟨before, after, hsplit⟩ := List.append_of_mem hp
  obtain ⟨hbefore, hmade⟩ := hl.split hsplit
  have hpmem : p.1 ∈ l.map Prod.fst := List.mem_map_of_mem hp
  obtain ⟨houter, hname, hinner⟩ := hmade.binary_inj h hbefore hl
    (hnames.isUnnumbered (List.mem_append_left _ hpmem)) (hnames.isUnnumbered (by simp))
    (hnames.named _ (List.mem_append_left _ hpmem)) (hnames.named e (by simp)) heq
  cases hout : t.declaration.outer with
  | none =>
    have htop := hmade.outer_eq_none (houter.trans hout)
    exact ne_of_nodup_map_filter hnames.topLevel hpmem (by rw [htop]; rfl)
      (by rw [h.outer_eq_none hout]; rfl) hname
  | some outer =>
    obtain ⟨hplace, hmember | hcount⟩ := hinner outer (houter.trans hout)
    · -- both are members of one type
      obtain ⟨q, hq, hqouter, hqbinary⟩ := hmade.exists_outer (houter.trans hout)
      obtain ⟨r, hr, hrouter, hrbinary⟩ := h.exists_outer hout
      have hq' : q ∈ l := hsplit ▸ List.mem_append_left _ hq
      obtain rfl := List.inj_on_of_nodup_map hbinaries hq' hr (hqbinary.trans hrbinary.symm)
      have hmembers := hnames.members q.1 (List.mem_append_left _ (List.mem_map_of_mem hq'))
      refine ne_of_nodup_map_filter hmembers hpmem ?_ ?_ hname
      · simp [NestedType.isDirectlyIn, hqouter, hmember]
      · simp [NestedType.isDirectlyIn, hrouter, ← hplace, hmember]
    · -- the earlier type is counted for the later one
      have halike : isAlike source p.1 outer = isAlike source e outer := by
        funext q
        rw [isAlike, isAlike, hplace, hname]
      have hself : isAlike source e outer p = true := by
        rw [← halike, isAlike, houter, hout]
        simp
      rw [halike, hsplit, List.countP_append, List.countP_cons_of_pos hself] at hcount
      omega

theorem Registers.nodup_binary (h : Registers source package l)
    (hnames : DistinctNames source (l.map Prod.fst)) : (l.map (·.2.binary)).Nodup := by
  induction h with
  | nil => exact List.nodup_nil
  | @snoc l e t hl hmakes ih =>
    rw [List.map_append] at hnames
    have hbinaries := ih (hnames.sublist (List.sublist_append_left _ _))
    rw [List.map_append, List.nodup_append]
    refine ⟨hbinaries, List.nodup_singleton _, fun binary hmem binary' hlast => ?_⟩
    obtain ⟨p, hp, rfl⟩ := List.mem_map.1 hmem
    obtain rfl := List.mem_singleton.1 hlast
    exact hl.binary_ne hmakes hbinaries hnames hp

/-! ## Numbers -/

/-- Before the member at a position of a filtered list there are as many that pass. -/
theorem exists_split_of_getElem?_filter {α : Type} {test : α → Bool} {as : List α} {i : Nat}
    {a : α} (h : (as.filter test)[i]? = some a) :
    ∃ before after, as = before ++ a :: after ∧ before.countP test = i ∧ test a = true := by
  induction as generalizing i with
  | nil => cases h
  | cons b rest ih =>
    by_cases hb : test b = true
    · rw [List.filter_cons_of_pos hb] at h
      cases i with
      | zero =>
        cases h
        exact ⟨[], rest, rfl, rfl, hb⟩
      | succ i =>
        obtain ⟨before, after, rfl, hcount, ha⟩ := ih h
        exact ⟨b :: before, after, rfl, by rw [List.countP_cons_of_pos hb, hcount], ha⟩
    · rw [List.filter_cons_of_neg hb] at h
      obtain ⟨before, after, rfl, hcount, ha⟩ := ih h
      exact ⟨b :: before, after, rfl, by rw [List.countP_cons_of_neg hb, hcount], ha⟩

/-- What stands at a position of a list that is mapped and filtered is made of what stands there. -/
theorem exists_of_getElem?_filter_map {α β : Type} {f : α → β} {test : β → Bool} {as : List α}
    {i : Nat} {b : β} (h : ((as.map f).filter test)[i]? = some b) :
    ∃ a ∈ as, (as.filter fun a => test (f a))[i]? = some a ∧ f a = b := by
  rw [List.filter_map, List.getElem?_map] at h
  obtain ⟨a, ha, rfl⟩ := Option.map_eq_some_iff.1 h
  exact ⟨a, (List.mem_filter.1 (List.mem_of_getElem? ha)).1, ha, rfl⟩

/-- The types of one name and one kind of place in a type are numbered from one, members apart. -/
theorem Registers.binary_of_position (h : Registers source package l)
    (hbinaries : (l.map (·.2.binary)).Nodup) (hstarts : (l.map (·.1.start)).Nodup)
    {p q : NestedType × RegisteredType} (hp : p ∈ l) {place : Place} (hplace : place ≠ .member)
    {name : String} {i : Nat}
    (hq : (l.filter fun r => r.1.name source == name &&
      (r.1.isDirectlyIn p.1.node && r.1.place == place))[i]? = some q) :
    q.2.binary = p.2.binary ++ "$" ++ toString (i + 1) ++ name := by
  obtain ⟨before, after, hsplit, hcount, htest⟩ := exists_split_of_getElem?_filter hq
  simp only [Bool.and_eq_true, beq_iff_eq] at htest
  obtain ⟨rfl, hin, rfl⟩ := htest
  have hmakes := (h.split hsplit).2
  have hqmem : q ∈ l := hsplit ▸ List.mem_append_right _ List.mem_cons_self
  have hout := (h.outer_eq_iff hbinaries hstarts hp hqmem).2 hin
  have halike : before.countP (isAlike source q.1 p.2.binary) = i := by
    rw [← hcount]
    refine List.countP_congr fun r hr => ?_
    have hr' : r ∈ l := hsplit ▸ List.mem_append_left _ hr
    simp only [isAlike, Bool.and_eq_true, beq_iff_eq, h.outer_eq_iff hbinaries hstarts hp hr']
    tauto
  rw [hmakes.binary, hout, binaryAfter, halike, segment, if_neg hplace]
  simp only [String.append_assoc]

end Registration

namespace ParsedUnit

theorem types_declared {unit : ParsedUnit} {root : Node} (htree : unit.tree = some root)
    (index : TypeIndex) : (unit.declared index).types =
      .ofList (unit.registered.map fun t => (t.start, t.binary)) := by
  rw [declared, htree]

/-- The types of a unit are registered in the order of the text, anonymous types that no type is
around and what is inside of them apart. Their binary names are distinct, and in each type the
anonymous types, and the local types of each name, are numbered from one in that order. -/
structure TellsApart (unit : ParsedUnit) (root : Node) (binaries : SortedMap Nat String) :
    Prop where
  starts : unit.registered.map RegisteredType.start = root.namedTypes.map NestedType.start
  ordered : (root.namedTypes.map NestedType.start).Pairwise (· < ·)
  distinct : (unit.registered.map RegisteredType.binary).Nodup
  found : ∀ t ∈ unit.registered, binaries.get? t.start = some t.binary
  anonymous : ∀ e ∈ root.namedTypes, ∀ binary, binaries.get? e.start = some binary →
    ∀ i inner, (NestedType.within root.namedTypes e.node .anonymous)[i]? = some inner →
      binaries.get? inner.start = some (binary ++ "$" ++ toString (i + 1))
  inBlock : ∀ e ∈ root.namedTypes, ∀ binary, binaries.get? e.start = some binary →
    ∀ name i inner, ((NestedType.within root.namedTypes e.node .inBlock).filter
        (·.name unit.source == name))[i]? = some inner →
      binaries.get? inner.start = some (binary ++ "$" ++ toString (i + 1) ++ name)

/-- The types of a unit with what is made of them, which is found again where they start. -/
theorem exists_found {unit : ParsedUnit} {root : Node} (htree : unit.tree = some root)
    (hwhole : root.Whole unit.source) (index : TypeIndex) :
    ∃ l, unit.registered = l.map Prod.snd ∧ l.map Prod.fst = root.namedTypes ∧
      Registration.Registers unit.source (declaredPackage unit.source root) l ∧
      ∀ p ∈ l, p.2.start = p.1.start ∧
        (unit.declared index).types.get? p.1.start = some p.2.binary := by
  obtain ⟨l, hfound, htypes, hregisters⟩ :=
    unit.exists_registers htree hwhole.sound
  refine ⟨l, hfound, htypes, hregisters, fun p hp => ?_⟩
  obtain ⟨before, -, hmakes⟩ := hregisters.exists_makes hp
  refine ⟨hmakes.start, ?_⟩
  rw [types_declared htree, ← hmakes.start]
  exact unit.get?_registered htree hwhole (hfound ▸ List.mem_map_of_mem hp)

/-- Types whose names are distinct at the top level and among the members of each type are told
apart by their binary names. -/
theorem binary_names_told_apart {unit : ParsedUnit} {root : Node} (htree : unit.tree = some root)
    (hwhole : root.Whole unit.source)
    (hnames : Registration.DistinctNames unit.source root.namedTypes) (index : TypeIndex) :
    TellsApart unit root (unit.declared index).types := by
  obtain ⟨l, hfound, htypes, hregisters, hentries⟩ := exists_found htree hwhole index
  have hstarts : unit.registered.map RegisteredType.start =
      root.namedTypes.map NestedType.start := by
    rw [hfound, ← htypes, List.map_map, List.map_map]
    exact List.map_congr_left fun p hp => (hentries p hp).1
  have hordered : (root.namedTypes.map NestedType.start).Pairwise (· < ·) :=
    hstarts ▸ unit.ordered_registered htree hwhole
  have hbinaries : (l.map (·.2.binary)).Nodup := hregisters.nodup_binary (htypes ▸ hnames)
  have hdistinct : (l.map (·.1.start)).Nodup := by
    have hnodup := hordered.imp Nat.ne_of_lt
    rwa [← htypes, List.map_map] at hnodup
  have hpair (e : NestedType) (he : e ∈ root.namedTypes) (binary : String)
      (hbinary : (unit.declared index).types.get? e.start = some binary) :
      ∃ p ∈ l, p.1 = e ∧ p.2.binary = binary := by
    rw [← htypes] at he
    obtain ⟨p, hp, rfl⟩ := List.mem_map.1 he
    rw [(hentries p hp).2] at hbinary
    exact ⟨p, hp, rfl, Option.some.inj hbinary⟩
  refine ⟨hstarts, hordered, ?_, fun t ht => ?_, fun e he binary hbinary i inner hinner => ?_,
    fun e he binary hbinary name i inner hinner => ?_⟩
  · rw [hfound, List.map_map]
    exact hbinaries
  · rw [hfound] at ht
    obtain ⟨p, hp, rfl⟩ := List.mem_map.1 ht
    rw [(hentries p hp).1, (hentries p hp).2]
  · obtain ⟨p, hp, rfl, rfl⟩ := hpair e he binary hbinary
    rw [← htypes] at hinner
    obtain ⟨q, hq, hat, rfl⟩ := Registration.exists_of_getElem?_filter_map hinner
    have hunnamed : (l.filter fun r => r.1.name unit.source == "" &&
        (r.1.isDirectlyIn p.1.node && r.1.place == .anonymous))[i]? = some q := by
      rw [← hat]
      refine congrArg (·[i]?) (List.filter_congr fun r _ => ?_)
      by_cases hplace : r.1.place = .anonymous
      · rw [Registration.name_of_isAnonymous (Registration.place_eq_anonymous_iff.1 hplace)]
        simp
      · simp [hplace]
    rw [(hentries q hq).2,
      hregisters.binary_of_position hbinaries hdistinct hp (by simp) hunnamed, String.append_empty]
  · obtain ⟨p, hp, rfl, rfl⟩ := hpair e he binary hbinary
    rw [← htypes, NestedType.within, List.filter_filter] at hinner
    obtain ⟨q, hq, hat, rfl⟩ := Registration.exists_of_getElem?_filter_map hinner
    rw [(hentries q hq).2, hregisters.binary_of_position hbinaries hdistinct hp (by simp) hat]

/-- Classes with member types, local types and anonymous types, some of them of one name. -/
def nestedText : String :=
  "package p; class A { class N { } { class N { } } { class N { } } } " ++
    "class B { Object o = new A() { class N { } }; Object q = new A() { }; }"

theorem binary_names_told_apart_nested :
    ∃ root, (ofText "A.java" nestedText).tree = some root ∧
      Registration.DistinctNames (.ofString nestedText) root.namedTypes ∧
      root.namedTypes.map NestedType.place =
        [.topLevel, .member, .inBlock, .inBlock, .topLevel, .anonymous, .member, .anonymous] ∧
      (ofText "A.java" nestedText).registered.map RegisteredType.binary =
        ["p.A", "p.A$N", "p.A$1N", "p.A$2N", "p.B", "p.B$1", "p.B$1$N", "p.B$2"] ∧
      TellsApart (ofText "A.java" nestedText) root
        ((ofText "A.java" nestedText).declared {}).types := by
  have hfacts : (ofText "A.java" nestedText).tree.isSome = true ∧
      (∀ root ∈ (ofText "A.java" nestedText).tree,
        Registration.DistinctNames (.ofString nestedText) root.namedTypes ∧
        root.namedTypes.map NestedType.place = [.topLevel, .member, .inBlock, .inBlock,
          .topLevel, .anonymous, .member, .anonymous]) ∧
      (ofText "A.java" nestedText).registered.map RegisteredType.binary =
        ["p.A", "p.A$N", "p.A$1N", "p.A$2N", "p.B", "p.B$1", "p.B$1$N", "p.B$2"] := by
    decide +kernel
  obtain ⟨htree, hroots, hbinaries⟩ := hfacts
  obtain ⟨root, hroot⟩ := Option.isSome_iff_exists.1 htree
  obtain ⟨hnames, hplaces⟩ := hroots root hroot
  exact ⟨root, hroot, hnames, hplaces, hbinaries,
    binary_names_told_apart hroot (whole_ofText _ _ root hroot) hnames {}⟩

/-- A statement outside of every type, with an anonymous type in it. -/
def outsideStatement : String := "Object o = new Object() { };"

/-- Two methods outside of every type, each with a type in its block. -/
def outsideMethods : String := "void f() { class B { } } void g() { class B { } }"

/-- A class without a name in a block, before an anonymous class. -/
def missingName : String := "class A { { class { } new A() { }; } }"

/-- A leaf at a place in the text. -/
def leafAt (kind : NodeKind) (role : Option Role) (start stop : Nat) : Node :=
  .mk kind role ⟨start, stop⟩ "" []

/-- The tree of the text, with an empty leaf where the name is missing. -/
def missingNameTree : Node :=
  .mk .program none ⟨0, 38⟩ "" [.mk .classDeclaration none ⟨0, 38⟩ ""
    [leafAt .token none 0 5, leafAt .identifier (some .name) 6 7,
      .mk .classBody (some .body) ⟨8, 38⟩ "" [leafAt .token none 8 9,
        .mk .block none ⟨10, 36⟩ "" [leafAt .token none 10 11,
          .mk .classDeclaration none ⟨12, 21⟩ ""
            [leafAt .token none 12 17, leafAt .identifier (some .name) 17 17,
              .mk .classBody (some .body) ⟨18, 21⟩ ""
                [leafAt .token none 18 19, leafAt .token none 20 21]],
          .mk .expressionStatement none ⟨22, 34⟩ "" [.mk .objectCreation none ⟨22, 33⟩ ""
            [leafAt .token none 22 25, leafAt .typeIdentifier (some .type) 26 27,
              .mk .argumentList (some .arguments) ⟨27, 29⟩ ""
                [leafAt .token none 27 28, leafAt .token none 28 29],
              .mk .classBody none ⟨30, 33⟩ ""
                [leafAt .token none 30 31, leafAt .token none 32 33]],
            leafAt .token none 33 34],
          leafAt .token none 35 36],
        leafAt .token none 37 38]]]

theorem missingNameTree_whole : missingNameTree.Whole (.ofString missingName) := by
  decide +kernel

/-- Where no type is around, an anonymous type gets no binary name, and types in blocks are named as
if they were at the top level. A type in a block whose name is missing is named like an anonymous
one. -/
theorem outside_types_not_told_apart :
    (∃ root, (ofText "A.java" outsideStatement).tree = some root ∧
      Registration.DistinctNames (.ofString outsideStatement) root.declaredTypes ∧
      root.declaredTypes.map (fun e => (e.place, e.start)) = [(.anonymous, 24)] ∧
      (ofText "A.java" outsideStatement).registered = [] ∧
      ∀ index, ((ofText "A.java" outsideStatement).declared index).types.get? 24 = none) ∧
    (∃ root, (ofText "A.java" outsideMethods).tree = some root ∧
      root.declaredTypes.map (fun e => (e.parent, e.name (.ofString outsideMethods))) =
        [(.block, "B"), (.block, "B")] ∧
      (ofText "A.java" outsideMethods).registered.map RegisteredType.binary = ["B", "B"]) ∧
    ∃ unit : ParsedUnit, unit.source = .ofString missingName ∧
      (∃ root, unit.tree = some root ∧ root.Whole unit.source ∧
        root.namedTypes.map (fun e => (e.place, e.name unit.source)) =
          [(.topLevel, "A"), (.inBlock, ""), (.anonymous, "")]) ∧
      unit.registered.map RegisteredType.binary = ["A", "A$1", "A$1"] := by
  have hstatement : (ofText "A.java" outsideStatement).tree.isSome = true ∧
      (∀ root ∈ (ofText "A.java" outsideStatement).tree,
        Registration.DistinctNames (.ofString outsideStatement) root.declaredTypes ∧
        root.declaredTypes.map (fun e => (e.place, e.start)) = [(.anonymous, 24)]) ∧
      (ofText "A.java" outsideStatement).registered.length = 0 := by
    decide +kernel
  have hmethods : (ofText "A.java" outsideMethods).tree.isSome = true ∧
      (∀ root ∈ (ofText "A.java" outsideMethods).tree,
        root.declaredTypes.map (fun e => (e.parent, e.name (.ofString outsideMethods))) =
          [(.block, "B"), (.block, "B")]) ∧
      (ofText "A.java" outsideMethods).registered.map RegisteredType.binary = ["B", "B"] := by
    decide +kernel
  refine ⟨?_, ?_, ⟨"A.java", .ofString missingName, some missingNameTree⟩, rfl,
    ⟨missingNameTree, rfl, missingNameTree_whole, by decide +kernel⟩, by decide +kernel⟩
  · obtain ⟨htree, hroots, hlength⟩ := hstatement
    obtain ⟨root, hroot⟩ := Option.isSome_iff_exists.1 htree
    obtain ⟨hnames, htypes⟩ := hroots root hroot
    have hnone := List.length_eq_zero_iff.1 hlength
    refine ⟨root, hroot, hnames, htypes, hnone, fun index => ?_⟩
    rw [types_declared hroot, hnone]
    rfl
  · obtain ⟨htree, hroots, hbinaries⟩ := hmethods
    obtain ⟨root, hroot⟩ := Option.isSome_iff_exists.1 htree
    exact ⟨root, hroot, hroots root hroot, hbinaries⟩

end ParsedUnit

end Renaming.Java
