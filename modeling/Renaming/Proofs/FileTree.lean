import Mathlib.Data.List.Induction
import Renaming.FileTree
import Renaming.Proofs.SortedMap
import Renaming.Proofs.Text

/-!
# Paths and file trees

Where a path leads, and what the operations on a file tree leave at each location. In a tree every
entry stands in a directory; making directories and putting a file into one keeps that, so that
nothing but files stands in the way of an operation.
-/

namespace Renaming

namespace Path

/-- A name that leads one level down. -/
structure IsName (name : String) : Prop where
  nonempty : name ≠ ""
  here : name ≠ "."
  up : name ≠ ".."
  slash : '/' ∉ name.toList

instance : DecidablePred IsName := fun name =>
  decidable_of_iff (name ≠ "" ∧ name ≠ "." ∧ name ≠ ".." ∧ '/' ∉ name.toList)
    ⟨fun h => ⟨h.1, h.2.1, h.2.2.1, h.2.2.2⟩, fun h => ⟨h.nonempty, h.here, h.up, h.slash⟩⟩

theorem step_of_isName {name : String} (h : IsName name) (l : Location) :
    step l name = l ++ [name] := by
  simp [step, h.nonempty, h.here, h.up]

theorem IsName.staysHere {name : String} (h : IsName name) : staysHere name = false := by
  simp [Path.staysHere, h.nonempty, h.here]

/-- The names that a path goes through, without the parts that lead no further. -/
def names (path : String) : List String := (Text.fields '/' path).filter fun part => !staysHere part

/-- Parts of which none leads up lead down, each name by one level. -/
theorem foldl_step {parts : List String} (hup : ".." ∉ parts) (l : Location) :
    parts.foldl step l = l ++ parts.filter fun part => !staysHere part := by
  induction parts generalizing l with
  | nil => simp
  | cons part rest ih =>
    rw [List.mem_cons, not_or] at hup
    rw [List.foldl_cons, step.eq_def]
    by_cases hstay : staysHere part = true
    · rw [List.filter_cons_of_neg (by simpa using hstay), ← ih hup.2]
      simp only [if_pos (show (part.isEmpty || part == ".") = true from hstay)]
    · rw [List.filter_cons_of_pos (by simpa using hstay)]
      simp only [if_neg (show ¬ (part.isEmpty || part == ".") = true from hstay),
        if_neg (show ¬ (part == "..") = true by simpa using Ne.symm hup.1)]
      rw [ih hup.2, List.append_assoc, List.singleton_append]

/-- Parts that lead no further may be left out at the end of a way. -/
theorem foldl_step_dropWhile (here : Location) (parts : List String) :
    (parts.reverse.dropWhile staysHere).reverse.foldl step here = parts.foldl step here := by
  induction parts using List.reverseRecOn with
  | nil => rfl
  | append_singleton front part ih =>
    by_cases hstay : staysHere part = true
    · have hstep (l : Location) : step l part = l := if_pos hstay
      rw [List.reverse_append, List.reverse_singleton, List.singleton_append,
        List.dropWhile_cons_of_pos hstay, ih, List.foldl_append, List.foldl_cons, hstep]
      rfl
    · rw [List.reverse_append, List.reverse_singleton, List.singleton_append,
        List.dropWhile_cons_of_neg hstay, List.reverse_cons, List.reverse_reverse]

theorem startsWith_slash_iff {path : String} :
    Text.startsWith "/" path = true ↔ ['/'] <+: path.toList := by
  rw [Text.startsWith, List.isPrefixOf_iff_prefix]
  rfl

/-- A path begins with a separator when its first part is empty. -/
theorem startsWith_slash_eq {path : String} (hne : path ≠ "") :
    Text.startsWith "/" path = true ↔ (Text.fields '/' path).head? = some "" := by
  rw [startsWith_slash_iff, Text.fields]
  have hcs : path.toList ≠ [] := by simpa using hne
  obtain ⟨c, cs, hpath⟩ := List.exists_cons_of_ne_nil hcs
  obtain ⟨first, later, hlater⟩ := List.exists_cons_of_ne_nil (List.splitOn_ne_nil '/' cs)
  rw [List.splitOn] at hlater
  rw [hpath, List.splitOn, List.splitOnP_cons_eq_if_modifyHead, hlater]
  by_cases hc : c = '/'
  · simp [hc]
  · simp [hc, Ne.symm hc]

theorem location?_eq_some_iff {path : String} {l : Location} :
    location? path = some l ↔ path ≠ "" ∧ (Text.fields '/' path).foldl step [] = l := by
  unfold location?
  by_cases hempty : path = "" <;> simp [hempty]

theorem endsWith_slash_iff {path : String} :
    Text.endsWith "/" path = true ↔ ['/'] <:+ path.toList := by
  rw [Text.endsWith, List.isSuffixOf_iff_suffix]
  rfl

/-- A separator at the end leaves an empty part behind it. -/
theorem fields_of_endsWith_slash {path : String} (h : Text.endsWith "/" path = true) :
    ∃ front : List Char, path.toList = front ++ ['/'] ∧
      Text.fields '/' path = (front.splitOn '/').map String.ofList ++ [""] := by
  obtain ⟨front, hfront⟩ := endsWith_slash_iff.1 h
  refine ⟨front, hfront.symm, ?_⟩
  rw [Text.fields, ← hfront]
  exact (congrArg _ (List.splitOn_append_cons_self ..)).trans (List.map_append ..)

theorem endsWith_slash_eq {path : String} (hne : path ≠ "") :
    Text.endsWith "/" path = true ↔ (Text.fields '/' path).getLast? = some "" := by
  constructor
  · intro h
    obtain ⟨front, -, hfields⟩ := fields_of_endsWith_slash h
    simp [hfields]
  · intro hlast
    by_cases hslash : '/' ∈ path.toList
    · obtain ⟨back, rest, hcut, hback⟩ :=
        List.eq_append_cons_of_mem (List.mem_reverse.2 hslash)
      have hpath : path.toList = rest.reverse ++ '/' :: back.reverse := by
        rw [← List.reverse_reverse path.toList, hcut]
        simp
      have hpiece : back.reverse.splitOn '/' = [back.reverse] :=
        List.splitOn_eq_singleton (by simpa using hback)
      rw [Text.fields, hpath, List.splitOn_append_cons_self, hpiece] at hlast
      have hnil : back = [] := by simpa using hlast
      rw [endsWith_slash_iff, hpath, hnil]
      exact ⟨rest.reverse, rfl⟩
    · rw [Text.fields, List.splitOn_eq_singleton hslash] at hlast
      exact absurd (by simpa using hlast) hne

theorem endsInName_iff {path : String} :
    endsInName path = true ↔
      ∃ front name, Text.fields '/' path = front ++ [name] ∧ IsName name := by
  constructor
  · intro h
    obtain ⟨name, hlast, hname⟩ := (Option.any_eq_true _ _).1 h
    have hmem : name ∈ Text.fields '/' path := List.mem_of_getLast? hlast
    obtain ⟨front, hfront⟩ := List.getLast?_eq_some_iff.1 hlast
    simp only [Bool.not_eq_true', Bool.or_eq_false_iff, beq_eq_false_iff_ne,
      String.isEmpty_eq_false_iff] at hname
    exact ⟨front, name, hfront,
      hname.1.1, hname.1.2, hname.2, Text.notMem_of_mem_fields hmem⟩
  · rintro ⟨front, name, hfields, hname⟩
    simp [endsInName, hfields, hname.nonempty, hname.here, hname.up]

/-- What stands last in a path is a name when it is neither a separator nor a dot or two. -/
theorem endsInName_iff_not {path : String} (hne : path ≠ "") :
    endsInName path = true ↔ endsInDots path = false ∧ Text.endsWith "/" path = false := by
  rw [← Bool.not_eq_true (Text.endsWith "/" path), endsWith_slash_eq hne]
  obtain ⟨front, name, hfields⟩ :=
    (List.eq_nil_or_concat (Text.fields '/' path)).resolve_left (Text.fields_ne_nil '/' path)
  rw [endsInName, endsInDots, hfields, List.concat_eq_append]
  by_cases hname : name = ""
  · simp [hname]
  · simp [hname]

theorem endsWith_slash_of_endsInName {path : String} (h : endsInName path = true) :
    Text.endsWith "/" path = false := by
  have hne : path ≠ "" := by
    rintro rfl
    cases h
  exact ((endsInName_iff_not hne).1 h).2

/-- A path whose last name leads one level down; behind it nothing leads any further. -/
def LeadsDown (path : String) : Prop :=
  ∃ front name back, Text.fields '/' path = front ++ name :: back ∧ IsName name ∧
    ∀ part ∈ back, staysHere part = true

theorem leadsDown_of_endsInName {path : String} (h : endsInName path = true) : LeadsDown path := by
  obtain ⟨front, name, hfields, hname⟩ := endsInName_iff.1 h
  exact ⟨front, name, [], hfields, hname, by simp⟩

theorem parent_eq {path name : String} {front back : List String}
    (hfields : Text.fields '/' path = front ++ name :: back) (hname : IsName name)
    (hback : ∀ part ∈ back, staysHere part = true) :
    parent path = Text.join "/" (front.reverse.dropWhile staysHere).reverse := by
  have hback' : ∀ part ∈ back.reverse, staysHere part = true :=
    fun part hpart => hback part (List.mem_reverse.1 hpart)
  have hfront : (Text.fields '/' path).reverse.dropWhile staysHere = name :: front.reverse := by
    rw [hfields, List.reverse_append, List.reverse_cons, List.append_assoc,
      List.dropWhile_append_of_pos hback', List.singleton_append,
      List.dropWhile_cons_of_neg (by simp [hname.staysHere])]
  rw [parent, hfront, List.tail_cons]

/-- Where the path without its last name leads, in one of the two forms in which it is asked for. -/
theorem location?_parent {path : String} {l : Location} (hl : location? path = some l)
    (h : LeadsDown path) :
    ∃ above name, l = above ++ [name] ∧ IsName name ∧
      (parent path = "" ∧ above = [] ∨ location? (parent path) = some above) := by
  obtain ⟨front, name, back, hfields, hname, hback⟩ := h
  obtain ⟨-, hway⟩ := location?_eq_some_iff.1 hl
  -- the way to the path goes along what is kept of the parts before the name, and then the name
  generalize hkept : (front.reverse.dropWhile staysHere).reverse = kept
  have hfront : front.foldl step [] = kept.foldl step [] := by
    rw [← hkept, foldl_step_dropWhile]
  have hstays (here : Location) : back.foldl step here = here := by
    rw [← foldl_step_dropWhile, List.dropWhile_eq_nil_iff.2 fun part hpart =>
      hback part (List.mem_reverse.1 hpart)]
    rfl
  rw [hfields, List.foldl_append, List.foldl_cons, hstays, hfront, step_of_isName hname] at hway
  refine ⟨kept.foldl step [], name, hway.symm, hname, ?_⟩
  have hparent : parent path = Text.join "/" kept := hkept ▸ parent_eq hfields hname hback
  cases kept with
  | nil => exact .inl ⟨hparent, rfl⟩
  | cons first later =>
    right
    obtain ⟨rest, hrest⟩ : first :: later <+: front := by
      rw [← hkept, ← List.reverse_suffix, List.reverse_reverse]
      exact List.dropWhile_suffix _
    have hparts : Text.fields '/' (parent path) = first :: later := by
      rw [hparent]
      refine Text.fields_join "/" '/' rfl (List.cons_ne_nil _ _) fun part hpart => ?_
      refine Text.notMem_of_mem_fields (s := path) ?_
      rw [hfields, ← hrest]
      exact List.mem_append_left _ (List.mem_append_left _ hpart)
    rw [location?_eq_some_iff, hparts]
    refine ⟨?_, rfl⟩
    -- what is kept does not end in an empty part
    intro hempty
    rw [hempty] at hparts
    have hlast := List.head?_dropWhile_not staysHere front.reverse
    rw [← List.reverse_reverse (front.reverse.dropWhile staysHere), hkept, ← hparts] at hlast
    cases hlast

/-- The parts of a joined path are those of the root, without an empty one at their end, and then
those of the path. -/
theorem fields_join {root : String} (hroot : root ≠ "") (path : String) :
    ∃ front, front ≠ [] ∧ Text.fields '/' (join root path) = front ++ Text.fields '/' path ∧
      (Text.fields '/' root = front ∨ Text.fields '/' root = front ++ [""]) := by
  have hcut (front : List Char) :
      ((front ++ '/' :: path.toList).splitOn '/').map String.ofList =
        (front.splitOn '/').map String.ofList ++ Text.fields '/' path := by
    rw [List.splitOn_append_cons_self, List.map_append, Text.fields]
  have hne (front : List Char) : (front.splitOn '/').map String.ofList ≠ [] := by
    simp
  unfold join
  rw [if_neg (by simpa using hroot)]
  by_cases hslash : Text.endsWith "/" root = true
  · obtain ⟨front, hfront, hfields⟩ := fields_of_endsWith_slash hslash
    refine ⟨_, hne front, ?_, .inr hfields⟩
    rw [if_pos hslash, Text.fields, String.toList_append, hfront, List.append_assoc, ← hcut]
    rfl
  · refine ⟨_, hne root.toList, ?_, .inl rfl⟩
    rw [if_neg hslash, Text.fields, String.toList_append, String.toList_append, List.append_assoc,
      ← hcut]
    rfl

theorem names_join (root path : String) : names (join root path) = names root ++ names path := by
  by_cases hroot : root = ""
  · subst hroot
    rfl
  · obtain ⟨front, -, hjoin, hfront⟩ := fields_join hroot path
    have hroot' : names root = front.filter fun part => !staysHere part := by
      rcases hfront with hfront | hfront <;> simp [names, hfront, staysHere]
    rw [hroot', names, hjoin, List.filter_append, names]

theorem join_ne_empty {root : String} (hroot : root ≠ "") (path : String) :
    join root path ≠ "" := by
  obtain ⟨front, hnil, hjoin, -⟩ := fields_join hroot path
  intro hempty
  rw [hempty, show Text.fields '/' "" = [""] from rfl] at hjoin
  have hlen := congrArg List.length hjoin
  have hpos := List.length_pos_iff.2 hnil
  have hpos' := List.length_pos_iff.2 (Text.fields_ne_nil '/' path)
  rw [List.length_append, List.length_singleton] at hlen
  omega

theorem head?_fields_join {root : String} (hroot : root ≠ "") (path : String) :
    (Text.fields '/' (join root path)).head? = (Text.fields '/' root).head? := by
  obtain ⟨front, hnil, hjoin, hfront⟩ := fields_join hroot path
  obtain ⟨first, later, rfl⟩ := List.exists_cons_of_ne_nil hnil
  rcases hfront with hfront | hfront <;> simp [hjoin, hfront]

/-- A path on which nothing leads up leads down from where it is joined to. -/
theorem location?_join_of_down {root path : String} {r : Location} (hroot : location? root = some r)
    (hup : ".." ∉ Text.fields '/' path) : location? (join root path) = some (r ++ names path) := by
  obtain ⟨hne, hway⟩ := location?_eq_some_iff.1 hroot
  obtain ⟨front, -, hjoin, hfront⟩ := fields_join hne path
  have hfold : front.foldl step [] = r := by
    rcases hfront with hfront | hfront
    · rw [← hfront, hway]
    · rw [← hway, hfront, ← foldl_step_dropWhile _ (front ++ [""]), ← foldl_step_dropWhile]
      simp [staysHere]
  refine location?_eq_some_iff.2 ⟨join_ne_empty hne path, ?_⟩
  rw [hjoin, List.foldl_append, hfold]
  exact foldl_step hup r

theorem names_eq_fields {path : String} (hpath : ∀ name ∈ Text.fields '/' path, IsName name) :
    names path = Text.fields '/' path :=
  List.filter_eq_self.2 fun name hname => by simp [(hpath name hname).staysHere]

theorem location?_join {root path : String} {r : Location} (hroot : location? root = some r)
    (hpath : ∀ name ∈ Text.fields '/' path, IsName name) :
    location? (join root path) = some (r ++ Text.fields '/' path) := by
  rw [← names_eq_fields hpath]
  exact location?_join_of_down hroot fun hup => (hpath _ hup).up rfl

theorem endsInName_join {root : String} (hroot : root ≠ "") (path : String) :
    endsInName (join root path) = endsInName path := by
  obtain ⟨front, -, hjoin, -⟩ := fields_join hroot path
  obtain ⟨before, last, hfields⟩ :=
    (List.eq_nil_or_concat (Text.fields '/' path)).resolve_left (Text.fields_ne_nil '/' path)
  rw [endsInName, endsInName, hjoin, hfields, List.concat_eq_append, ← List.append_assoc,
    List.getLast?_concat, List.getLast?_concat]

theorem LeadsDown.join {root path : String} (hroot : root ≠ "") (h : LeadsDown path) :
    LeadsDown (join root path) := by
  obtain ⟨front, -, hjoin, -⟩ := fields_join hroot path
  obtain ⟨before, name, back, hfields, hname, hback⟩ := h
  exact ⟨front ++ before, name, back, by rw [hjoin, hfields, List.append_assoc], hname, hback⟩

end Path

/-! ## Locations -/

theorem FileTree.mem_ancestors_iff {k l : Location} :
    k ∈ FileTree.ancestors l ↔ k ≠ [] ∧ k <+: l ∧ k ≠ l := by
  simp only [FileTree.ancestors, List.mem_filterMap, List.mem_range, beq_iff_eq]
  constructor
  · rintro ⟨n, hn, hk⟩
    by_cases hzero : n = 0
    · simp [hzero] at hk
    · rw [if_neg hzero, Option.some.injEq] at hk
      subst hk
      refine ⟨?_, List.take_prefix n l, ?_⟩
      · simp only [ne_eq, List.take_eq_nil_iff, not_or]
        exact ⟨hzero, fun hnil => by simp [hnil] at hn⟩
      · intro heq
        have := congrArg List.length heq
        rw [List.length_take] at this
        omega
  · rintro ⟨hne, hpre, hneq⟩
    refine ⟨k.length, ?_, ?_⟩
    · have hle := hpre.length_le
      have : k.length ≠ l.length := fun heq => hneq (hpre.eq_of_length heq)
      omega
    · rw [if_neg (by simpa using hne), ← List.prefix_iff_eq_take.1 hpre]

/-- The locations of the directories that lead to a location, itself among them. -/
theorem FileTree.mem_ancestors_self_iff {k l : Location} :
    (k ∈ FileTree.ancestors l ++ if l.isEmpty then [] else [l]) ↔ k ≠ [] ∧ k <+: l := by
  rw [List.mem_append, FileTree.mem_ancestors_iff]
  by_cases hl : l = []
  · subst hl
    simp
  · by_cases hk : k = l
    · subst hk
      simp [hl]
    · simp [hk, hl]

namespace FileTree

variable {t : FileTree} {l k : Location} {content : Bytes}

@[simp] theorem at?_nil (t : FileTree) : t.at? [] = some .directory := rfl

theorem at?_of_ne_nil (t : FileTree) (h : l ≠ []) : t.at? l = t.entries.get? l := by
  simp [at?, h]

theorem at?_putFile (hl : l ≠ []) :
    (t.putFile l content).at? k = if k = l then some (.file content) else t.at? k := by
  by_cases hk : k = []
  · subst hk
    rw [if_neg hl.symm]
    rfl
  · rw [at?_of_ne_nil _ hk, at?_of_ne_nil _ hk, putFile, SortedMap.get?_insert]
    simp

/-- Directories come up where nothing was, on the way to the new one. -/
theorem at?_addDirectories :
    (t.addDirectories l).at? k =
      if k <+: l then some ((t.at? k).getD .directory) else t.at? k := by
  by_cases hk : k = []
  · subst hk
    simp
  · rw [at?_of_ne_nil _ hk, at?_of_ne_nil _ hk, addDirectories, SortedMap.get?_foldl_insertIfNew]
    simp only [List.elem_eq_mem, mem_ancestors_self_iff, hk, ne_eq, not_false_eq_true, true_and,
      decide_eq_true_eq]

theorem addDirectories_nil (t : FileTree) : t.addDirectories [] = t := rfl

/-- The content of the file at a location. -/
def file? (t : FileTree) (l : Location) : Option Bytes :=
  match t.at? l with
  | some (.file content) => some content
  | _ => none

theorem file?_eq_some_iff : t.file? l = some content ↔ t.at? l = some (.file content) := by
  unfold file?
  cases t.at? l with
  | none => simp
  | some e => cases e <;> simp

theorem isFileAt_eq (t : FileTree) (l : Location) : t.isFileAt l = (t.file? l).isSome := by
  unfold isFileAt file?
  cases t.at? l with
  | none => rfl
  | some e => cases e <;> rfl

@[simp] theorem file?_addDirectories : (t.addDirectories l).file? k = t.file? k := by
  unfold file?
  rw [at?_addDirectories]
  by_cases hk : k <+: l
  · cases hat : t.at? k <;> simp [hk]
  · simp [hk]

theorem file?_putFile (hl : l ≠ []) :
    (t.putFile l content).file? k = if k = l then some content else t.file? k := by
  unfold file?
  rw [at?_putFile hl]
  by_cases hk : k = l <;> simp [hk]

/-- No file stands on the way to a location, nor there. -/
def IsClear (t : FileTree) (l : Location) : Prop := ∀ k, k <+: l → t.isFileAt k = false

theorem IsClear.mono (h : t.IsClear l) (hk : k <+: l) : t.IsClear k :=
  fun j hj => h j (hj.trans hk)

theorem isClear_nil (t : FileTree) : t.IsClear [] := by
  intro k hk
  rw [List.prefix_nil.1 hk]
  rfl

/-- Where no file is in the way there are directories all the way afterwards. -/
theorem IsClear.at?_addDirectories (h : t.IsClear l) (hk : k <+: l) :
    (t.addDirectories l).at? k = some .directory := by
  have hfile := h k hk
  rw [FileTree.at?_addDirectories, if_pos hk]
  cases hat : t.at? k with
  | none => rfl
  | some e =>
    cases e with
    | directory => rfl
    | file content => simp [isFileAt, hat] at hfile

theorem any_ancestors_eq_false_iff :
    (ancestors l).any t.isFileAt = false ↔ ∀ k, k <+: l → k ≠ l → t.isFileAt k = false := by
  rw [List.any_eq_false]
  constructor
  · intro h k hk hne
    by_cases hnil : k = []
    · subst hnil
      rfl
    · simpa using h k (mem_ancestors_iff.2 ⟨hnil, hk, hne⟩)
  · intro h k hk
    obtain ⟨-, hpre, hne⟩ := mem_ancestors_iff.1 hk
    simp [h k hpre hne]

theorem isClear_iff :
    t.IsClear l ↔ (ancestors l).any t.isFileAt = false ∧ t.isFileAt l = false := by
  rw [any_ancestors_eq_false_iff]
  constructor
  · intro h
    exact ⟨fun k hk _ => h k hk, h l (List.prefix_refl l)⟩
  · rintro ⟨hproper, hself⟩ k hk
    by_cases heq : k = l
    · rw [heq, hself]
    · exact hproper k hk heq

theorem prefix_dropLast_iff {name : String} :
    (k <+: l ++ [name] ∧ k ≠ l ++ [name]) ↔ k <+: l := by
  rw [List.prefix_concat_iff]
  constructor
  · rintro ⟨hk, hne⟩
    exact hk.resolve_left hne
  · intro hk
    refine ⟨.inr hk, ?_⟩
    rintro rfl
    have hle := hk.length_le
    rw [List.length_append, List.length_singleton] at hle
    omega

theorem at?_addDirectories_above {name : String} :
    (t.addDirectories l).at? (l ++ [name]) = t.at? (l ++ [name]) := by
  rw [at?_addDirectories, if_neg]
  intro hpre
  exact (prefix_dropLast_iff.2 hpre).2 rfl

/-- A new file is not in the way of what is above it. -/
theorem IsClear.putFile {name : String} (h : t.IsClear l) :
    ((t.addDirectories l).putFile (l ++ [name]) content).IsClear l := by
  intro k hk
  have hne : k ≠ l ++ [name] := (prefix_dropLast_iff.2 hk).2
  rw [isFileAt_eq, file?_putFile (by simp), if_neg hne, file?_addDirectories, ← isFileAt_eq]
  exact h k hk

/-- Files stand on the way to a name when they stand on the way to what is above it. -/
theorem any_ancestors_concat {name : String} :
    (ancestors (l ++ [name])).any t.isFileAt = false ↔ t.IsClear l := by
  rw [any_ancestors_eq_false_iff]
  constructor
  · intro h k hk
    obtain ⟨hpre, hne⟩ := prefix_dropLast_iff.2 hk
    exact h k hpre hne
  · intro h k hpre hne
    exact h k (prefix_dropLast_iff.1 ⟨hpre, hne⟩)

/-! ## What the operations do -/

variable {path : String} {above : Location} {name : String}

theorem createDirectories_eq_ok_iff {t' : FileTree} (hl : Path.location? path = some l) :
    t.createDirectories path = .ok t' ↔ t.IsClear l ∧ t' = t.addDirectories l := by
  have hne : path ≠ "" := (Path.location?_eq_some_iff.1 hl).1
  unfold createDirectories
  simp only [String.isEmpty_iff, hne, if_false, hl, isClear_iff]
  by_cases hproper : (ancestors l).any t.isFileAt = true
  · simp [hproper]
  · by_cases hself : t.isFileAt l = true
    · simp [hproper, hself]
    · simp [hproper, hself, eq_comm]

/-- Making the directories above a path that leads down. -/
theorem createDirectories_parent_eq_ok_iff {t' : FileTree}
    (hl : Path.location? path = some (above ++ [name])) (hdown : Path.LeadsDown path) :
    t.createDirectories (Path.parent path) = .ok t' ↔
      t.IsClear above ∧ t' = t.addDirectories above := by
  obtain ⟨above', name', heq, -, hparent⟩ := Path.location?_parent hl hdown
  obtain ⟨rfl, -⟩ := List.append_inj' heq rfl
  rcases hparent with ⟨hempty, rfl⟩ | hparent
  · have hmade : t.createDirectories (Path.parent path) = .ok (t.addDirectories []) := by
      rw [hempty]
      rfl
    rw [hmade, Except.ok.injEq, eq_comm]
    simp [isClear_nil]
  · exact createDirectories_eq_ok_iff hparent

/-- Directories made up to some name of the path are those of a shorter path. -/
theorem startDirectories_parent (t : FileTree) (names : Nat)
    (hl : Path.location? path = some (above ++ [name])) (hdown : Path.LeadsDown path) :
    t.startDirectories (Path.parent path) names = t.addDirectories (above.take names) := by
  obtain ⟨above', name', heq, -, hparent⟩ := Path.location?_parent hl hdown
  obtain ⟨rfl, -⟩ := List.append_inj' heq rfl
  unfold startDirectories
  rcases hparent with ⟨hempty, rfl⟩ | hparent
  · rw [hempty, List.take_nil]
    rfl
  · rw [hparent]

/-- A file takes the place of what a path names when the path ends in its name and no directory has
that place. -/
theorem replaceFile_eq_ok_iff {t' : FileTree} (hl : Path.location? path = some l) :
    t.replaceFile path content = .ok t' ↔
      Path.endsInName path = true ∧ t.at? l ≠ some .directory ∧ t' = t.putFile l content := by
  rw [Path.endsInName_iff_not (Path.location?_eq_some_iff.1 hl).1]
  unfold replaceFile
  simp only [hl]
  by_cases hdots : Path.endsInDots path = true
  · simp only [hdots]
    cases t.at? l with
    | none => simp
    | some e => cases e <;> simp
  · by_cases hslash : Text.endsWith "/" path = true
    · simp [hdots, hslash]
    · by_cases hdir : t.at? l = some .directory
      · simp [hdots, hslash, hdir]
      · simp only [Bool.not_eq_true] at hdots hslash
        simp [hdots, hslash, hdir, eq_comm]

theorem find_eq_file (hl : Path.location? path = some (above ++ [name]))
    (hname : Path.endsInName path = true) (hclear : t.IsClear above) :
    t.find path = .ok (.file content) ↔ t.at? (above ++ [name]) = some (.file content) := by
  unfold find
  simp only [hl, any_ancestors_concat.2 hclear]
  cases hat : t.at? (above ++ [name]) with
  | none => simp
  | some e => cases e <;> simp [hname]

/-- A file is found by a path that ends in its name and on which no other file stands. -/
theorem of_find_eq_file (h : t.find path = .ok (.file content)) :
    ∃ above name, Path.location? path = some (above ++ [name]) ∧ Path.endsInName path = true ∧
      t.IsClear above ∧ t.at? (above ++ [name]) = some (.file content) := by
  unfold find at h
  split at h
  · cases h
  · rename_i l hl
    by_cases hfiles : (ancestors l).any t.isFileAt = true
    · simp [hfiles] at h
    · rw [if_neg hfiles] at h
      cases hat : t.at? l with
      | none => simp [hat] at h
      | some e =>
        cases e with
        | directory => simp [hat] at h
        | file found =>
          by_cases hname : Path.endsInName path = true
          · simp only [hat, hname, if_true, Except.ok.injEq, FileEntry.file.injEq] at h
            subst h
            obtain ⟨above, name, rfl, -, -⟩ :=
              Path.location?_parent hl (Path.leadsDown_of_endsInName hname)
            exact ⟨above, name, hl, hname, any_ancestors_concat.1 (by simpa using hfiles), hat⟩
          · simp [hat, hname] at h

theorem isDirectory_iff :
    t.isDirectory path = true ↔
      ∃ l, Path.location? path = some l ∧ t.IsClear l ∧ t.at? l = some .directory := by
  unfold isDirectory find
  cases hl : Path.location? path with
  | none => simp
  | some l =>
    simp only [Option.some.injEq, exists_eq_left', isClear_iff]
    by_cases hfiles : (ancestors l).any t.isFileAt = true
    · simp [hfiles]
    · rw [if_neg hfiles]
      cases hat : t.at? l with
      | none => simp
      | some e =>
        cases e with
        | directory => simpa [isFileAt, hat] using hfiles
        | file content => cases Path.endsInName path <;> simp

/-! ## Trees -/

/-- Every entry has a proper location and stands in a directory. -/
def IsTree (t : FileTree) : Prop :=
  ∀ e ∈ t.entries.entries, e.1 ≠ [] ∧ (∀ name ∈ e.1, Path.IsName name) ∧
    t.at? e.1.dropLast = some .directory

instance (t : FileTree) : Decidable t.IsTree :=
  inferInstanceAs (Decidable (∀ e ∈ t.entries.entries, e.1 ≠ [] ∧
    (∀ name ∈ e.1, Path.IsName name) ∧ t.at? e.1.dropLast = some .directory))

theorem isTree_iff :
    t.IsTree ↔ t.entries.get? [] = none ∧ ∀ l e, t.at? l = some e →
      (∀ name ∈ l, Path.IsName name) ∧ t.at? l.dropLast = some .directory := by
  constructor
  · intro h
    refine ⟨?_, ?_⟩
    · cases hroot : t.entries.get? [] with
      | none => rfl
      | some e => exact absurd rfl (h _ (SortedMap.get?_eq_some_iff.1 hroot)).1
    · intro l e hat
      by_cases hl : l = []
      · subst hl
        simp
      · rw [at?_of_ne_nil t hl] at hat
        exact (h _ (SortedMap.get?_eq_some_iff.1 hat)).2
  · rintro ⟨hroot, hat⟩ ⟨l, e⟩ he
    have hget := SortedMap.get?_eq_some_iff.2 he
    have hl : l ≠ [] := by
      rintro rfl
      rw [hroot] at hget
      cases hget
    exact ⟨hl, hat l e (by rw [at?_of_ne_nil t hl, hget])⟩

namespace IsTree

theorem names (h : t.IsTree) {e : FileEntry} (hat : t.at? l = some e) :
    ∀ name ∈ l, Path.IsName name :=
  ((isTree_iff.1 h).2 l e hat).1

/-- What leads to an entry are directories. -/
theorem at?_above (h : t.IsTree) {e : FileEntry} (hat : t.at? l = some e) (hk : k <+: l)
    (hne : k ≠ l) : t.at? k = some .directory := by
  induction l using List.reverseRecOn generalizing e with
  | nil => exact absurd (List.prefix_nil.1 hk) hne
  | append_singleton above name ih =>
    have habove := ((isTree_iff.1 h).2 _ e hat).2
    rw [List.dropLast_concat] at habove
    by_cases heq : k = above
    · rw [heq, habove]
    · exact ih habove (prefix_dropLast_iff.1 ⟨hk, hne⟩) heq

theorem isClear_of_directory (h : t.IsTree) (hat : t.at? l = some .directory) : t.IsClear l := by
  intro k hk
  have hdir : t.at? k = some .directory := by
    by_cases heq : k = l
    · rw [heq, hat]
    · exact h.at?_above hat hk heq
  simp [isFileAt, hdir]

protected theorem addDirectories (h : t.IsTree) (hnames : ∀ name ∈ l, Path.IsName name)
    (hclear : t.IsClear l) : (t.addDirectories l).IsTree := by
  rw [isTree_iff]
  refine ⟨?_, ?_⟩
  · have hroot : [] ∉ ancestors l ++ if l.isEmpty then [] else [l] := by
      rw [mem_ancestors_self_iff]
      simp
    rw [addDirectories, SortedMap.get?_foldl_insertIfNew, List.elem_eq_mem,
      if_neg (by simpa using hroot)]
    exact (isTree_iff.1 h).1
  · intro k e hat
    by_cases hk : k <+: l
    · exact ⟨fun name hname => hnames name (hk.subset hname),
        hclear.at?_addDirectories ((List.dropLast_prefix k).trans hk)⟩
    · rw [at?_addDirectories, if_neg hk] at hat
      obtain ⟨hnamed, habove⟩ := (isTree_iff.1 h).2 k e hat
      refine ⟨hnamed, ?_⟩
      by_cases hk' : k.dropLast <+: l
      · exact hclear.at?_addDirectories hk'
      · rw [at?_addDirectories, if_neg hk', habove]

protected theorem putFile (h : t.IsTree) (hnames : ∀ n ∈ above ++ [name], Path.IsName n)
    (habove : t.at? above = some .directory)
    (hfree : t.at? (above ++ [name]) ≠ some .directory) :
    (t.putFile (above ++ [name]) content).IsTree := by
  have hne : above ++ [name] ≠ [] := by simp
  have hkeep : ∀ k, t.at? k = some .directory →
      (t.putFile (above ++ [name]) content).at? k = some .directory := by
    intro k hk
    rw [at?_putFile hne, if_neg, hk]
    rintro rfl
    exact hfree hk
  rw [isTree_iff]
  refine ⟨?_, ?_⟩
  · rw [putFile, SortedMap.get?_insert_of_ne _ _ hne.symm]
    exact (isTree_iff.1 h).1
  · intro k e hat
    rw [at?_putFile hne] at hat
    by_cases hk : k = above ++ [name]
    · subst hk
      rw [List.dropLast_concat]
      exact ⟨hnames, hkeep _ habove⟩
    · rw [if_neg hk] at hat
      obtain ⟨hnamed, hdir⟩ := (isTree_iff.1 h).2 k e hat
      exact ⟨hnamed, hkeep _ hdir⟩

/-- A path that ends in a name leads to the file at its location. -/
theorem find_eq_file_iff (h : t.IsTree) (hl : Path.location? path = some l)
    (hname : Path.endsInName path = true) :
    t.find path = .ok (.file content) ↔ t.file? l = some content := by
  obtain ⟨above, name, rfl, -, -⟩ :=
    Path.location?_parent hl (Path.leadsDown_of_endsInName hname)
  rw [file?_eq_some_iff]
  constructor
  · intro hfind
    obtain ⟨above', name', hl', -, -, hat⟩ := of_find_eq_file hfind
    rw [hl, Option.some.injEq] at hl'
    rw [hl', hat]
  · intro hat
    have hdir := h.at?_above hat (List.prefix_append above [name]) (by simp)
    exact (find_eq_file hl hname (h.isClear_of_directory hdir)).2 hat

theorem mem_filesBelow_iff (h : t.IsTree) {root : Location} :
    (l, content) ∈ t.filesBelow root ↔ t.file? (root ++ l) = some content := by
  have hget : ∀ k, t.file? k = some content ↔
      (k, FileEntry.file content) ∈ t.entries.entries := by
    intro k
    rw [← SortedMap.get?_eq_some_iff, file?_eq_some_iff]
    by_cases hk : k = []
    · subst hk
      simp [(isTree_iff.1 h).1]
    · rw [at?_of_ne_nil t hk]
  rw [hget, filesBelow, List.mem_filterMap]
  constructor
  · rintro ⟨⟨k, e⟩, hmem, hfile⟩
    cases e with
    | directory => cases hfile
    | file found =>
      by_cases hroot : root.isPrefixOf k = true
      · simp only [hroot, if_true, Option.some.injEq, Prod.mk.injEq] at hfile
        obtain ⟨rfl, rfl⟩ := hfile
        obtain ⟨below, rfl⟩ := List.isPrefixOf_iff_prefix.1 hroot
        simpa using hmem
      · simp [hroot] at hfile
  · intro hmem
    refine ⟨(root ++ l, .file content), hmem, ?_⟩
    simp

end IsTree

end FileTree

end Renaming
