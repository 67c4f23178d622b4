import Renaming.Proofs.Store.UnitIds
import Renaming.Store.Directory

/-!
# Directory stores by their files

What a directory store gives is given by the files below its root and by the contents it keeps. A
write is refused, stops after making some directories, or puts its file; in each case the tree that
is left is one on which the store goes on working.
-/

namespace Renaming

namespace UnitId

/-- The form in which a directory lists its units: names with one separator between any two. -/
def IsCanonical (id : String) : Prop := ∀ name ∈ Text.fields '/' id, Path.IsName name

instance : DecidablePred IsCanonical := fun id =>
  inferInstanceAs (Decidable (∀ name ∈ Text.fields '/' id, Path.IsName name))

/-- A backslash is all that can be wrong with an id in this form. -/
theorem isValid_of_isCanonical {id : String} (h : IsCanonical id)
    (hslash : Text.containsChar '\\' id = false) : isValid id = true := by
  obtain ⟨first, later, hfields⟩ := List.exists_cons_of_ne_nil (Text.fields_ne_nil '/' id)
  have hfirst : Path.IsName first := h first (by simp [hfields])
  refine isValid_iff.2 ⟨?_, by simpa [Text.containsChar] using hslash, ?_, ?_,
    fun hup => (h ".." hup).up rfl⟩
  · rintro rfl
    exact (h "" (by simp [Text.fields])).nonempty rfl
  · simp [hfields, hfirst.nonempty]
  · simp [hfields, hfirst.here]

theorem IsCanonical.endsInName {id : String} (h : IsCanonical id) : Path.endsInName id = true := by
  obtain ⟨front, name, hlast⟩ := (List.eq_nil_or_concat _).resolve_left (Text.fields_ne_nil '/' id)
  rw [List.concat_eq_append] at hlast
  exact Path.endsInName_iff.2 ⟨front, name, hlast, h name (by simp [hlast])⟩

theorem IsCanonical.goesDown {id : String} (h : IsCanonical id) : GoesDown id := by
  refine ⟨fun hup => (h ".." hup).up rfl, ?_⟩
  rw [Path.names_eq_fields h]
  exact Text.fields_ne_nil '/' id

theorem isCanonical_join {names : List String} (hne : names ≠ [])
    (h : ∀ name ∈ names, Path.IsName name) :
    Text.fields '/' (Text.join "/" names) = names ∧ IsCanonical (Text.join "/" names) := by
  have hfields : Text.fields '/' (Text.join "/" names) = names :=
    Text.fields_join "/" '/' rfl hne fun name hname => (h name hname).slash
  refine ⟨hfields, ?_⟩
  unfold IsCanonical
  rw [hfields]
  exact h

end UnitId

/-- What a reader finds where a path leads. -/
def FileTree.content? (t : FileTree) (path : String) : Option Bytes :=
  match t.find path with
  | .ok (.file content) => some content
  | _ => none

namespace DirectoryStore

variable {s : DirectoryStore} {t : FileTree} {r : Location} {unit : String} {content : Bytes}

/-- An open store and the location of its root, which is a directory of the tree. -/
structure IsAt (s : DirectoryStore) (t : FileTree) (r : Location) : Prop where
  isOpen : s.closed = false
  root : Path.location? s.root = some r
  tree : t.IsTree
  directory : t.at? r = some .directory

theorem openExisting_eq_ok_iff {root : String} {mode : StoreMode} :
    openExisting t root mode = .ok s ↔ t.isDirectory root = true ∧ s = { root, mode } := by
  unfold openExisting
  by_cases h : t.isDirectory root = true
  · simp [h, eq_comm]
  · simp [h]

theorem exists_isAt {root : String} {mode : StoreMode} (ht : t.IsTree)
    (h : openExisting t root mode = .ok s) : ∃ r, s.IsAt t r := by
  obtain ⟨hdir, rfl⟩ := openExisting_eq_ok_iff.1 h
  obtain ⟨r, hroot, -, hat⟩ := FileTree.isDirectory_iff.1 hdir
  exact ⟨r, rfl, hroot, ht, hat⟩

namespace IsAt

/-- The place of a unit. -/
theorem location_path_names (h : s.IsAt t r) (hunit : UnitId.GoesDown unit) :
    Path.location? (s.path unit) = some (r ++ Path.names unit) :=
  Path.location?_join_of_down h.root hunit.up

theorem root_ne_empty (h : s.IsAt t r) : s.root ≠ "" := (Path.location?_eq_some_iff.1 h.root).1

theorem leadsDown_path (h : s.IsAt t r) (hunit : UnitId.GoesDown unit) :
    Path.LeadsDown (s.path unit) :=
  hunit.leadsDown.join h.root_ne_empty

/-- A unit is read from its place, unless its id ends in a separator or a dot. -/
theorem content?_path (h : s.IsAt t r) (hunit : UnitId.GoesDown unit) :
    t.content? (s.path unit) =
      if Path.endsInName unit then t.file? (r ++ Path.names unit) else none := by
  have hname : Path.endsInName (s.path unit) = Path.endsInName unit :=
    Path.endsInName_join h.root_ne_empty unit
  apply Option.ext
  intro content
  have hfound : t.content? (s.path unit) = some content ↔
      t.find (s.path unit) = .ok (.file content) := by
    unfold FileTree.content?
    cases t.find (s.path unit) with
    | error e => simp
    | ok e => cases e <;> simp
  rw [hfound, ← hname]
  by_cases hends : Path.endsInName (s.path unit) = true
  · rw [if_pos hends]
    exact h.tree.find_eq_file_iff (h.location_path_names hunit) hends
  · rw [if_neg hends]
    refine iff_of_false (fun hfind => ?_) (by simp)
    obtain ⟨-, -, -, hends', -⟩ := FileTree.of_find_eq_file hfind
    exact hends hends'

theorem location_path (h : s.IsAt t r) (hunit : UnitId.IsCanonical unit) :
    Path.location? (s.path unit) = some (r ++ Text.fields '/' unit) :=
  Path.location?_join h.root hunit

theorem content?_path_of_isCanonical (h : s.IsAt t r) (hunit : UnitId.IsCanonical unit) :
    t.content? (s.path unit) = t.file? (r ++ Text.fields '/' unit) := by
  rw [h.content?_path hunit.goesDown, if_pos hunit.endsInName, Path.names_eq_fields hunit]

/-- A file below the root is the unit whose id is made of the names that lead to it. -/
theorem isCanonical_of_file (h : s.IsAt t r) {l : Location}
    (hfile : t.file? (r ++ l) = some content) :
    Text.fields '/' (Text.join "/" l) = l ∧ UnitId.IsCanonical (Text.join "/" l) := by
  have hat := FileTree.file?_eq_some_iff.1 hfile
  have hne : l ≠ [] := by
    rintro rfl
    rw [List.append_nil, h.directory] at hat
    cases hat
  exact UnitId.isCanonical_join hne fun name hname =>
    h.tree.names hat name (List.mem_append_right r hname)

end IsAt

/-! ## Reading and listing -/

/-- What a reader sees of a unit: what is kept of it, or else the file. -/
def shown (s : DirectoryStore) (t : FileTree) (r : Location) (unit : String) : Option Bytes :=
  (s.pristine.get? unit).or (t.file? (r ++ Text.fields '/' unit))

/-- What a reader gets of a unit by its id: what is kept of it, or else what its path leads to. -/
theorem readBytes_eq_content? (hopen : s.closed = false) (hvalid : UnitId.isValid unit = true) :
    s.readBytes t unit = ((s.pristine.get? unit).or (t.content? (s.path unit))).elim
      (.error (.unknownUnit unit)) .ok := by
  have hopen' : s.ensureOpen = .ok () := by simp [ensureOpen, hopen]
  simp only [readBytes, hopen', hvalid, Bool.not_true, Bool.false_eq_true, if_false]
  cases s.pristine.get? unit with
  | some content => rfl
  | none =>
    rw [Option.none_or, FileTree.content?]
    cases t.find (s.path unit) with
    | error e => rfl
    | ok e => cases e <;> rfl

theorem readBytes_eq (h : s.IsAt t r) (hunit : UnitId.IsCanonical unit)
    (hvalid : UnitId.isValid unit = true) :
    s.readBytes t unit = (s.shown t r unit).elim (.error (.unknownUnit unit)) .ok := by
  rw [readBytes_eq_content? h.isOpen hvalid, h.content?_path_of_isCanonical hunit, shown]

/-- A directory lists the files below its root. -/
theorem enumerate_eq (h : s.IsAt t r) :
    ∃ listed : SortedMap String Unit, s.enumerate t = .ok listed.keys ∧
      ∀ id, id ∈ listed.keys ↔
        UnitId.IsCanonical id ∧ ∃ content, t.file? (r ++ Text.fields '/' id) = some content := by
  have hopen : s.ensureOpen = .ok () := by simp [ensureOpen, h.isOpen]
  refine ⟨.ofList (((t.filesBelow r).map fun file => Text.join "/" file.1).map fun id => (id, ())),
    ?_, ?_⟩
  · simp only [enumerate, hopen, h.root]
    rfl
  · intro id
    rw [SortedMap.mem_keys_ofList_iff, List.map_map, List.map_map, List.mem_map]
    constructor
    · rintro ⟨⟨l, content⟩, hmem, rfl⟩
      have hfile := h.tree.mem_filesBelow_iff.1 hmem
      obtain ⟨hfields, hcanonical⟩ := h.isCanonical_of_file hfile
      exact ⟨hcanonical, content, by simpa [hfields] using hfile⟩
    · rintro ⟨-, content, hfile⟩
      exact ⟨(Text.fields '/' id, content), h.tree.mem_filesBelow_iff.2 hfile,
        Text.join_fields "/" '/' rfl id⟩

/-! ## Writing -/

/-- The store after it has looked at the old content of a unit. -/
def keep (s : DirectoryStore) (unit : String) (old : Option Bytes) : DirectoryStore :=
  { s with pristine := s.pristine.remember unit old }

@[simp] theorem keep_path (old : Option Bytes) (unit' : String) :
    (s.keep unit old).path unit' = s.path unit' := rfl

theorem snapshot_eq (fault : Option WriteFault) (t : FileTree) (hmode : s.mode = .inPlace)
    (unit : String) :
    s.snapshot fault t unit = .ok (s.keep unit (t.content? (s.path unit))) ∨
      ∃ cause, fault = some (.reading cause) ∧ s.snapshot fault t unit = .error cause := by
  by_cases hcontains : s.pristine.contains unit = true
  · left
    have hkept : ∀ old, s.pristine.remember unit old = s.pristine := by
      rintro (_ | old)
      · rfl
      · rw [SortedMap.remember, SortedMap.insertIfNew, if_pos hcontains]
    rw [snapshot, if_neg (by simp [hcontains]), keep, hkept]
  · rw [snapshot, if_pos (by simp [hmode, hcontains]), FileTree.content?]
    cases t.find (s.path unit) with
    | error e => exact .inl rfl
    | ok e =>
      cases e with
      | directory => exact .inl rfl
      | file content =>
        dsimp only
        rw [keep, SortedMap.remember, SortedMap.insertIfNew, if_neg hcontains]
        rcases fault with _ | fault
        · exact .inl rfl
        · cases fault with
          | reading cause => exact .inr ⟨cause, rfl, rfl⟩
          | directories names cause => exact .inl rfl
          | replacing cause => exact .inl rfl

/-- What can become of a write: it is refused before anything is done, it stops when the old content
is kept and some of the directories on the way are made, or it puts the new file in its place. -/
inductive Outcome (s : DirectoryStore) (t : FileTree) (r : Location) (unit : String)
    (content : Bytes) : Except StoreError Unit × DirectoryStore × FileTree → Prop where
  | refused (e : StoreError) : Outcome s t r unit content (.error e, s, t)
  | stopped (e : StoreError) {made : Location} (hmade : made <+: r ++ Path.names unit)
      (hclear : t.IsClear made) :
      Outcome s t r unit content
        (.error e, s.keep unit (t.content? (s.path unit)), t.addDirectories made)
  | done {above : Location} {name : String} (hname : Path.endsInName unit = true)
      (hplace : r ++ Path.names unit = above ++ [name]) (hclear : t.IsClear above)
      (hfree : t.at? (above ++ [name]) ≠ some .directory) :
      Outcome s t r unit content
        (.ok (), s.keep unit (t.content? (s.path unit)),
          (t.addDirectories above).putFile (above ++ [name]) content)

theorem exists_place (r : Location) (hunit : UnitId.GoesDown unit) :
    ∃ above name, r ++ Path.names unit = above ++ [name] := by
  have hne : r ++ Path.names unit ≠ [] := by simp [hunit.names_ne_nil]
  exact ⟨_, _, (List.dropLast_concat_getLast hne).symm⟩

theorem makeParent_cases (fault : Option WriteFault) {above : Location} {name : String}
    (hl : Path.location? (s.path unit) = some (above ++ [name]))
    (hdown : Path.LeadsDown (s.path unit)) :
    (∃ e made, s.makeParent fault t unit = (.error e, t.addDirectories made) ∧
        made <+: above ∧ t.IsClear made) ∨
      s.makeParent fault t unit = (.ok (), t.addDirectories above) ∧ t.IsClear above := by
  simp only [makeParent]
  cases hmake : t.createDirectories (Path.parent (s.path unit)) with
  | error e =>
    exact .inl ⟨e, [], by rw [FileTree.addDirectories_nil], List.nil_prefix, t.isClear_nil⟩
  | ok made =>
    obtain ⟨hclear, rfl⟩ := (FileTree.createDirectories_parent_eq_ok_iff hl hdown).1 hmake
    rcases fault with _ | fault
    · exact .inr ⟨rfl, hclear⟩
    · cases fault with
      | reading cause => exact .inr ⟨rfl, hclear⟩
      | directories names cause =>
        have hsome : above.take names <+: above := List.take_prefix names above
        refine .inl ⟨cause, above.take names, ?_, hsome, hclear.mono hsome⟩
        rw [← FileTree.startDirectories_parent t names hl hdown]
      | replacing cause => exact .inr ⟨rfl, hclear⟩

theorem replace_cases (fault : Option WriteFault) (content : Bytes) {l : Location}
    (hl : Path.location? (s.path unit) = some l) :
    (∃ e, s.replace fault t unit content = .error e) ∨
      s.replace fault t unit content = .ok (t.putFile l content) ∧
        Path.endsInName (s.path unit) = true ∧ t.at? l ≠ some .directory := by
  cases hreplace : s.replace fault t unit content with
  | error e => exact .inl ⟨e, rfl⟩
  | ok replaced =>
    have hfile : t.replaceFile (s.path unit) content = .ok replaced := by
      unfold replace at hreplace
      split at hreplace
      · cases hreplace
      · exact hreplace
    obtain ⟨hname, hfree, rfl⟩ := (FileTree.replaceFile_eq_ok_iff hl).1 hfile
    exact .inr ⟨rfl, hname, hfree⟩

theorem outcome_writeBytesWith (fault : Option WriteFault) (h : s.IsAt t r)
    (hmode : s.mode = .inPlace) (hunit : UnitId.GoesDown unit) (content : Bytes) :
    Outcome s t r unit content (s.writeBytesWith fault t unit content) := by
  obtain ⟨above, name, hplace⟩ := exists_place r hunit
  have hl := h.location_path_names hunit
  rw [hplace] at hl
  have habove : above <+: r ++ Path.names unit := ⟨[name], hplace.symm⟩
  simp only [writeBytesWith, h.isOpen, hmode, StoreMode.isWritable]
  by_cases hvalid : UnitId.isValid unit = true
  · simp only [hvalid]
    rcases snapshot_eq fault t hmode unit with hsnapshot | ⟨cause, -, hsnapshot⟩
    · obtain ⟨e, made, hmake, hmade, hclear⟩ | ⟨hmake, hclear⟩ :=
        makeParent_cases (s := s.keep unit (t.content? (s.path unit))) (t := t)
          fault hl (h.leadsDown_path hunit)
      · simp only [hsnapshot, hmake]
        exact .stopped (.file e) (hmade.trans habove) hclear
      · obtain ⟨e, hreplace⟩ | ⟨hreplace, hname, hfree⟩ :=
          replace_cases (s := s.keep unit (t.content? (s.path unit)))
            (t := t.addDirectories above) fault content hl
        · simp only [hsnapshot, hmake, hreplace]
          exact .stopped (.file e) habove hclear
        · rw [FileTree.at?_addDirectories_above] at hfree
          simp only [hsnapshot, hmake, hreplace]
          refine .done ?_ hplace hclear hfree
          rw [← Path.endsInName_join h.root_ne_empty]
          exact hname
    · simp only [hsnapshot]
      exact .refused (.file cause)
  · simp only [Bool.not_eq_true] at hvalid
    simp only [hvalid]
    exact .refused (.invalidUnitId unit)

/-- A write goes through when no file is in its way and no directory in its place. -/
theorem writeBytesWith_none {above : Location} {name : String} (h : s.IsAt t r)
    (hmode : s.mode = .inPlace) (hvalid : UnitId.isValid unit = true)
    (hname : Path.endsInName unit = true) (content : Bytes)
    (hplace : r ++ Path.names unit = above ++ [name]) (hclear : t.IsClear above)
    (hfree : t.at? (above ++ [name]) ≠ some .directory) :
    s.writeBytesWith none t unit content =
      (.ok (), s.keep unit (t.content? (s.path unit)),
        (t.addDirectories above).putFile (above ++ [name]) content) := by
  have hunit := UnitId.goesDown_of_isValid hvalid
  have hl := h.location_path_names hunit
  rw [hplace] at hl
  have hsnapshot := (snapshot_eq none t hmode unit).resolve_right (by simp)
  have hmake :=
    (FileTree.createDirectories_parent_eq_ok_iff hl (h.leadsDown_path hunit)).2 ⟨hclear, rfl⟩
  have hname' : Path.endsInName (s.path unit) = true :=
    (Path.endsInName_join h.root_ne_empty unit).trans hname
  have hreplace : (t.addDirectories above).replaceFile (s.path unit) content = .ok _ :=
    (FileTree.replaceFile_eq_ok_iff hl).2
      ⟨hname', by rwa [FileTree.at?_addDirectories_above], rfl⟩
  simp only [writeBytesWith, h.isOpen, hmode, StoreMode.isWritable, hvalid, hsnapshot, makeParent,
    keep_path, hmake, replace, hreplace]
  rfl

theorem Outcome.isAt {result : Except StoreError Unit × DirectoryStore × FileTree}
    (h : s.IsAt t r) (hunit : UnitId.GoesDown unit) (ho : Outcome s t r unit content result) :
    result.2.1.IsAt result.2.2 r := by
  have hnames : ∀ name ∈ r ++ Path.names unit, Path.IsName name := by
    intro name hname
    rcases List.mem_append.1 hname with hname | hname
    · exact h.tree.names h.directory name hname
    · exact hunit.isName name hname
  have hroot : ∀ made, (t.addDirectories made).at? r = some .directory := by
    intro made
    rw [FileTree.at?_addDirectories, h.directory]
    split <;> rfl
  cases ho with
  | refused e => exact h
  | stopped e hmade hclear =>
    refine ⟨h.isOpen, h.root, ?_, hroot _⟩
    exact h.tree.addDirectories (fun name hname => hnames name (hmade.subset hname)) hclear
  | @done above name _ hplace hclear hfree =>
    rw [hplace] at hnames
    have hmade : (t.addDirectories above).IsTree :=
      h.tree.addDirectories (fun n hn => hnames n (List.mem_append_left _ hn)) hclear
    refine ⟨h.isOpen, h.root, ?_, ?_⟩
    · refine hmade.putFile hnames (hclear.at?_addDirectories (List.prefix_refl above)) ?_
      rwa [FileTree.at?_addDirectories_above]
    · rw [FileTree.at?_putFile (by simp), if_neg, hroot]
      rintro rfl
      exact hfree h.directory

theorem Outcome.mode {result : Except StoreError Unit × DirectoryStore × FileTree}
    (ho : Outcome s t r unit content result) : result.2.1.mode = s.mode := by
  cases ho <;> rfl

/-- Whatever becomes of a write, a reader sees what was seen before of the units that were there. -/
theorem Outcome.shown {result : Except StoreError Unit × DirectoryStore × FileTree}
    {other : String} {seen : Bytes} (hat : s.IsAt t r) (hunit : UnitId.IsCanonical unit)
    (ho : Outcome s t r unit content result) (h : s.shown t r other = some seen) :
    result.2.1.shown result.2.2 r other = some seen := by
  have hold := hat.content?_path_of_isCanonical hunit
  cases ho with
  | refused e => exact h
  | @stopped e made hmade hclear =>
    rw [hold]
    refine s.pristine.get?_remember_or (fun id => t.file? (r ++ Text.fields '/' id))
      (fun id => (t.addDirectories made).file? (r ++ Text.fields '/' id)) ?_ h
    intro _
    exact FileTree.file?_addDirectories
  | @done above name _ hplace hclear hfree =>
    rw [hold]
    refine s.pristine.get?_remember_or (fun id => t.file? (r ++ Text.fields '/' id))
      (fun id => ((t.addDirectories above).putFile (above ++ [name]) content).file?
        (r ++ Text.fields '/' id)) ?_ h
    intro hne
    have hother : r ++ Text.fields '/' other ≠ above ++ [name] := by
      rw [← hplace, Path.names_eq_fields hunit]
      exact fun heq => hne (Text.fields_inj (List.append_cancel_left heq))
    rw [FileTree.file?_putFile (by simp), if_neg hother, FileTree.file?_addDirectories]

end DirectoryStore

end Renaming
