import Renaming.Proofs.Store.Calls

/-!
# Directories and archives alike

A directory and an archive that are open in place and present the same units answer the same calls
alike, and present the same units when they are closed and opened again: those they were opened
with, each with the last content it was given. The one writes files and the other entries; what
relates them is that a unit's file and its entry always have the same content.
-/

namespace Renaming

/-! ## The units -/

/-- Ids of units that can stand side by side in a directory: none leads to a place on the way to
another. -/
structure UnitId.SideBySide (ids : List String) : Prop where
  canonical : ∀ id ∈ ids, UnitId.IsCanonical id
  valid : ∀ id ∈ ids, UnitId.isValid id = true
  apart : ∀ a ∈ ids, ∀ b ∈ ids, Text.fields '/' a <+: Text.fields '/' b → a = b

namespace StoreCall

def written? : StoreCall → Option (String × Bytes)
  | .write unit content _ => some (unit, content)
  | _ => none

/-- What the calls write, in their order. -/
def written (calls : List StoreCall) : List (String × Bytes) := calls.filterMap written?

/-- The units after the calls: each has the last content that was written to it. -/
def overlay (units : SortedMap String Bytes) (calls : List StoreCall) : SortedMap String Bytes :=
  (written calls).foldl (fun m e => m.insert e.1 e.2) units

/-- A call that names its unit as stores list it and that the file system lets through. -/
def IsRegular : StoreCall → Prop
  | .enumerate => True
  | .read unit => UnitId.IsCanonical unit ∧ UnitId.isValid unit = true
  | .write _ _ fault => fault = none

instance : DecidablePred IsRegular
  | .enumerate => .isTrue trivial
  | .read unit =>
    inferInstanceAs (Decidable (UnitId.IsCanonical unit ∧ UnitId.isValid unit = true))
  | .write _ _ fault => inferInstanceAs (Decidable (fault = none))

end StoreCall

/-- The units that a store presents: it lists just these, and reads each as it is. -/
structure OpenedStore.Presents (o : OpenedStore) (units : SortedMap String Bytes) : Prop where
  ids : o.enumerate = .ok units.keys
  contents : ∀ unit content, units.get? unit = some content → o.readBytes unit = .ok content

/-- The files below a location are the units of a map, each where its id leads. -/
structure FileTree.HasUnits (t : FileTree) (r : Location) (units : SortedMap String Bytes) :
    Prop where
  canonical : ∀ id ∈ units.keys, UnitId.IsCanonical id
  files : ∀ id, UnitId.IsCanonical id → t.file? (r ++ Text.fields '/' id) = units.get? id

/-- A unit is written by putting its file. -/
theorem FileTree.HasUnits.putFile {t : FileTree} {r above : Location} {name unit : String}
    {units : SortedMap String Bytes} (h : t.HasUnits r units) (hunit : UnitId.IsCanonical unit)
    (hplace : r ++ Text.fields '/' unit = above ++ [name]) (content : Bytes) :
    ((t.addDirectories above).putFile (above ++ [name]) content).HasUnits r
      (units.insert unit content) := by
  refine ⟨?_, ?_⟩
  · intro id hid
    rcases SortedMap.mem_keys_insert_iff.1 hid with rfl | hid
    · exact hunit
    · exact h.canonical id hid
  · intro id hid
    rw [FileTree.file?_putFile (by simp), FileTree.file?_addDirectories, ← hplace]
    by_cases heq : id = unit
    · subst heq
      simp
    · have hother : r ++ Text.fields '/' id ≠ r ++ Text.fields '/' unit :=
        fun hsame => heq (Text.fields_inj (List.append_cancel_left hsame))
      rw [if_neg hother, h.files id hid, SortedMap.get?_insert_of_ne _ _ heq]

namespace DirectoryStore

variable {s : DirectoryStore} {t : FileTree} {r : Location} {units : SortedMap String Bytes}

theorem enumerate_of_hasUnits (h : s.IsAt t r) (hu : t.HasUnits r units) :
    s.enumerate t = .ok units.keys := by
  obtain ⟨listed, henumerate, hlisted⟩ := enumerate_eq h
  rw [henumerate, SortedMap.keys_eq_of_mem_iff]
  intro id
  rw [hlisted]
  constructor
  · rintro ⟨hcanonical, content, hfile⟩
    rw [hu.files id hcanonical] at hfile
    exact SortedMap.mem_keys_iff.2 ⟨content, hfile⟩
  · intro hid
    have hcanonical := hu.canonical id hid
    obtain ⟨content, hget⟩ := SortedMap.mem_keys_iff.1 hid
    exact ⟨hcanonical, content, by rw [hu.files id hcanonical, hget]⟩

/-- A directory that has kept nothing presents the units that are its files. -/
theorem presents_of_hasUnits (h : s.IsAt t r) (hnew : s.pristine = .empty)
    (hu : t.HasUnits r units) (hvalid : ∀ id ∈ units.keys, UnitId.isValid id = true) :
    OpenedStore.Presents ⟨.directory s, t⟩ units := by
  refine ⟨enumerate_of_hasUnits h hu, ?_⟩
  intro unit content hget
  have hmem : unit ∈ units.keys := SortedMap.mem_keys_iff.2 ⟨content, hget⟩
  have hcanonical := hu.canonical unit hmem
  have hshown : s.shown t r unit = some content := by
    rw [shown, hnew, hu.files unit hcanonical, hget]
    rfl
  exact (readBytes_eq h hcanonical (hvalid unit hmem)).trans (by rw [hshown, Option.elim_some])

theorem hasUnits_of_presents (h : s.IsAt t r) (hnew : s.pristine = .empty)
    (hids : UnitId.SideBySide units.keys)
    (hp : OpenedStore.Presents ⟨.directory s, t⟩ units) : t.HasUnits r units := by
  obtain ⟨listed, henumerate, hlisted⟩ := enumerate_eq h
  have hkeys : listed.keys = units.keys := Except.ok.inj (henumerate.symm.trans hp.ids)
  refine ⟨hids.canonical, ?_⟩
  intro id hcanonical
  cases hget : units.get? id with
  | some content =>
    have hmem : id ∈ units.keys := SortedMap.mem_keys_iff.2 ⟨content, hget⟩
    have hread : s.readBytes t id = .ok content := hp.contents id content hget
    rw [readBytes_eq h hcanonical (hids.valid id hmem), shown, hnew] at hread
    cases hfile : t.file? (r ++ Text.fields '/' id) with
    | none => simp [hfile] at hread
    | some found =>
      have hsame : found = content := by simpa [hfile] using hread
      rw [hsame]
  | none =>
    cases hfile : t.file? (r ++ Text.fields '/' id) with
    | none => rfl
    | some found =>
      have hmem : id ∈ units.keys := hkeys ▸ (hlisted id).2 ⟨hcanonical, found, hfile⟩
      exact absurd hmem (SortedMap.get?_eq_none_iff.1 hget)

end DirectoryStore

namespace ArchiveStore

variable {s : ArchiveStore} {t : FileTree} {units : SortedMap String Bytes}

theorem presents_iff (hopen : s.closed = false) (hnew : s.pristine = .empty) :
    OpenedStore.Presents ⟨.archive s, t⟩ units ↔ s.entries = units := by
  have hread : ∀ unit content,
      s.readBytes unit = .ok content ↔ s.entries.get? unit = some content := by
    intro unit content
    rw [readBytes_eq hopen, shown, hnew]
    cases hget : s.entries.get? unit <;> simp
  constructor
  · intro hp
    have hkeys : s.entries.keys = units.keys :=
      Except.ok.inj ((enumerate_eq hopen).symm.trans hp.ids)
    apply SortedMap.ext_get?
    intro unit
    cases hget : units.get? unit with
    | some content => exact (hread unit content).1 (hp.contents unit content hget)
    | none => rw [SortedMap.get?_eq_none_iff, hkeys, ← SortedMap.get?_eq_none_iff, hget]
  · rintro rfl
    exact ⟨enumerate_eq hopen, fun unit content => (hread unit content).2⟩

end ArchiveStore

/-! ## Side by side -/

/-- A directory and an archive in the midst of the same calls. The ids are those of all units there
are and will be, so that their places stay free of directories. -/
structure Mirrors (ids : List String) (r : Location) (d : DirectoryStore) (t : FileTree)
    (a : ArchiveStore) : Prop where
  isAt : d.IsAt t r
  directoryMode : d.mode = .inPlace
  archiveOpen : a.closed = false
  archiveMode : a.mode = .inPlace
  pristine : d.pristine = a.pristine
  hasUnits : t.HasUnits r a.entries
  listed : ∀ id ∈ a.entries.keys, id ∈ ids
  room : ∀ id ∈ ids, t.at? (r ++ Text.fields '/' id) ≠ some .directory

/-- What a valid id in canonical form names in an archive is no directory. -/
theorem UnitId.not_isDirectory {id : String} (hcanonical : UnitId.IsCanonical id)
    (hvalid : UnitId.isValid id = true) : ZipEntry.isDirectory ⟨id, []⟩ = false := by
  have hslash : '\\' ∉ id.toList := (isValid_iff.1 hvalid).2.1
  have hback : Text.endsWith "\\" id = false := by
    rw [← Bool.not_eq_true, Text.endsWith, List.isSuffixOf_iff_suffix]
    intro hsuffix
    exact hslash (hsuffix.subset (by simp))
  simp [ZipEntry.isDirectory, Path.endsWith_slash_of_endsInName hcanonical.endsInName, hback]

namespace Mirrors

variable {ids : List String} {r : Location} {d : DirectoryStore} {t : FileTree} {a : ArchiveStore}
  {unit : String}

/-- Stores that were just opened and present the same units. -/
theorem of_presents (hat : d.IsAt t r) (hnew : d.pristine = .empty) (hmode : d.mode = .inPlace)
    (hopen : a.closed = false) (hnew' : a.pristine = .empty) (hmode' : a.mode = .inPlace)
    {others : List String} (hids : UnitId.SideBySide (a.entries.keys ++ others))
    (hroom : ∀ id ∈ others, t.isDirectory (d.path id) = false)
    (hp : OpenedStore.Presents ⟨.directory d, t⟩ a.entries) :
    Mirrors (a.entries.keys ++ others) r d t a := by
  have hkeys : UnitId.SideBySide a.entries.keys :=
    ⟨fun id hid => hids.canonical id (List.mem_append_left _ hid),
      fun id hid => hids.valid id (List.mem_append_left _ hid),
      fun x hx y hy => hids.apart x (List.mem_append_left _ hx) y (List.mem_append_left _ hy)⟩
  have hunits := DirectoryStore.hasUnits_of_presents hat hnew hkeys hp
  refine ⟨hat, hmode, hopen, hmode', by rw [hnew, hnew'], hunits,
    fun id hid => List.mem_append_left _ hid, ?_⟩
  intro id hid hdir
  have hcanonical := hids.canonical id hid
  rcases List.mem_append.1 hid with hid | hid
  · obtain ⟨content, hget⟩ := SortedMap.mem_keys_iff.1 hid
    have hfile := hunits.files id hcanonical
    rw [hget, FileTree.file?_eq_some_iff, hdir] at hfile
    cases hfile
  · have hdirectory : t.isDirectory (d.path id) = true := FileTree.isDirectory_iff.2
      ⟨_, hat.location_path hcanonical, hat.tree.isClear_of_directory hdir, hdir⟩
    rw [hroom id hid] at hdirectory
    cases hdirectory

theorem enumerate (h : Mirrors ids r d t a) : d.enumerate t = a.enumerate := by
  rw [DirectoryStore.enumerate_of_hasUnits h.isAt h.hasUnits,
    ArchiveStore.enumerate_eq h.archiveOpen]

theorem readBytes (h : Mirrors ids r d t a) (hcanonical : UnitId.IsCanonical unit)
    (hvalid : UnitId.isValid unit = true) : d.readBytes t unit = a.readBytes unit := by
  have hshown : d.shown t r unit = a.shown unit := by
    rw [DirectoryStore.shown, ArchiveStore.shown, h.pristine, h.hasUnits.files unit hcanonical]
  rw [DirectoryStore.readBytes_eq h.isAt hcanonical hvalid, ArchiveStore.readBytes_eq h.archiveOpen,
    hshown]

/-- A file on the way to a unit would be a unit whose id leads there. -/
theorem isClear (h : Mirrors ids r d t a) (hids : UnitId.SideBySide ids) (hunit : unit ∈ ids)
    {above : Location} {name : String} (hplace : r ++ Text.fields '/' unit = above ++ [name]) :
    t.IsClear above := by
  intro k hk
  obtain ⟨hpre, hne⟩ := FileTree.prefix_dropLast_iff.2 hk
  rw [← hplace] at hpre hne
  rcases List.prefix_or_prefix_of_prefix hpre (List.prefix_append r _) with hroot | ⟨below, rfl⟩
  · exact h.isAt.tree.isClear_of_directory h.isAt.directory k hroot
  · rw [List.prefix_append_right_inj] at hpre
    rw [FileTree.isFileAt_eq, Option.isSome_eq_false_iff, Option.isNone_iff_eq_none]
    cases hfile : t.file? (r ++ below) with
    | none => rfl
    | some content =>
      exfalso
      obtain ⟨hfields, hcanonical⟩ := h.isAt.isCanonical_of_file hfile
      have hentry := h.hasUnits.files _ hcanonical
      rw [hfields, hfile] at hentry
      have hother := h.listed _ (SortedMap.mem_keys_iff.2 ⟨content, hentry.symm⟩)
      have hsame := hids.apart _ hother _ hunit (by rwa [hfields])
      rw [← hsame, hfields] at hne
      exact hne rfl

/-- A write to both goes through and leaves them alike. -/
theorem write (h : Mirrors ids r d t a) (hids : UnitId.SideBySide ids) (hunit : unit ∈ ids)
    (content : Bytes) :
    ∃ d' t', d.writeBytesWith none t unit content = (.ok (), d', t') ∧
      a.writeBytes unit content = (.ok (), a.put unit content) ∧
      Mirrors ids r d' t' (a.put unit content) := by
  have hcanonical := hids.canonical unit hunit
  have hvalid := hids.valid unit hunit
  have hname := hcanonical.endsInName
  obtain ⟨above, name, hnames⟩ := DirectoryStore.exists_place r hcanonical.goesDown
  have hplace : r ++ Text.fields '/' unit = above ++ [name] := by
    rw [← Path.names_eq_fields hcanonical, hnames]
  have hclear := h.isClear hids hunit hplace
  have hfree := h.room unit hunit
  rw [hplace] at hfree
  have hwrite := DirectoryStore.writeBytesWith_none h.isAt h.directoryMode hvalid hname content
    hnames hclear hfree
  have houtcome : DirectoryStore.Outcome d t r unit content (.ok (), _, _) :=
    .done hname hnames hclear hfree
  refine ⟨_, _, hwrite, ?_, ?_⟩
  · rw [ArchiveStore.writeBytes_eq h.archiveOpen h.archiveMode, if_pos hvalid]
  · refine ⟨houtcome.isAt h.isAt hcanonical.goesDown, h.directoryMode, h.archiveOpen,
      h.archiveMode, ?_, h.hasUnits.putFile hcanonical hplace content, ?_, ?_⟩
    · change d.pristine.remember unit _ = a.pristine.remember unit _
      rw [h.pristine, h.isAt.content?_path_of_isCanonical hcanonical,
        h.hasUnits.files unit hcanonical]
    · intro id hid
      rcases SortedMap.mem_keys_insert_iff.1 hid with rfl | hid
      · exact hunit
      · exact h.listed id hid
    · intro id hid
      rw [FileTree.at?_putFile (by simp)]
      by_cases hsame : r ++ Text.fields '/' id = above ++ [name]
      · simp [hsame]
      · -- A directory that comes up is on the way to the unit, where no other unit has its place.
        have habove : ¬ r ++ Text.fields '/' id <+: above := by
          intro hpre
          obtain ⟨hway, hne⟩ := FileTree.prefix_dropLast_iff.2 hpre
          rw [← hplace, List.prefix_append_right_inj] at hway
          rw [hids.apart id hid unit hunit hway, hplace] at hne
          exact hne rfl
        rw [if_neg hsame, FileTree.at?_addDirectories, if_neg habove]
        exact h.room id hid

/-- The files of the directory are its units when it is opened again. -/
theorem openExisting (h : Mirrors ids r d t a) (hids : UnitId.SideBySide ids) {root : String}
    (hroot : Path.location? root = some r) :
    ∃ again, DirectoryStore.openExisting t root .read = .ok again ∧
      OpenedStore.Presents ⟨.directory again, t⟩ a.entries := by
  have hdir : t.isDirectory root = true := FileTree.isDirectory_iff.2
    ⟨r, hroot, h.isAt.tree.isClear_of_directory h.isAt.directory, h.isAt.directory⟩
  refine ⟨_, DirectoryStore.openExisting_eq_ok_iff.2 ⟨hdir, rfl⟩, ?_⟩
  exact DirectoryStore.presents_of_hasUnits ⟨rfl, hroot, h.isAt.tree, h.isAt.directory⟩ rfl
    h.hasUnits fun id hid => hids.valid id (h.listed id hid)

/-- The entries of the archive are its units when it is closed and loaded again. -/
theorem load_close (h : Mirrors ids r d t a) (hids : UnitId.SideBySide ids) {ta : FileTree}
    {old : Bytes} (hfile : ta.find a.path = .ok (.file old))
    (hclean : a.dirty = false → ArchiveStore.units old = .ok a.entries)
    (hzip : Zip.decode (Zip.encode (ArchiveStore.zipEntries a.entries)) =
      .ok (ArchiveStore.zipEntries a.entries)) :
    ∃ closed t', a.close ta = (.ok (), closed, t') ∧
      ∃ again, ArchiveStore.load t' a.path .read = .ok again ∧
        OpenedStore.Presents ⟨.archive again, t'⟩ a.entries := by
  have hfiles : ∀ unit ∈ a.entries.keys, ZipEntry.isDirectory ⟨unit, []⟩ = false := by
    intro unit hunit
    have hlisted := h.listed unit hunit
    exact UnitId.not_isDirectory (hids.canonical unit hlisted) (hids.valid unit hlisted)
  obtain ⟨closed, t', hclose, hload⟩ :=
    ArchiveStore.load_close h.archiveOpen h.archiveMode hfile hclean hzip hfiles .read
  exact ⟨closed, t', hclose, _, hload, (ArchiveStore.presents_iff rfl rfl).2 rfl⟩

end Mirrors

/-- What the calls leave of an archive: the units overlaid with what was written, and a mark if
anything was. -/
structure ArchiveStore.Follows (calls : List StoreCall) (a a' : ArchiveStore) : Prop where
  entries : a'.entries = StoreCall.overlay a.entries calls
  path : a'.path = a.path
  clean : a'.dirty = false → a.dirty = false ∧ a'.entries = a.entries

namespace OpenedStore

variable {ids : List String} {r : Location} {d : DirectoryStore} {t : FileTree} {a : ArchiveStore}

/-- A call on both gives the same answer and leaves them alike. -/
theorem call_of_mirrors (ta : FileTree) (hids : UnitId.SideBySide ids) {c : StoreCall}
    (hc : c.IsRegular) (hwritten : ∀ e ∈ StoreCall.written [c], e.1 ∈ ids)
    (h : Mirrors ids r d t a) :
    ∃ answer d' t' a', call ⟨.directory d, t⟩ c = (answer, ⟨.directory d', t'⟩) ∧
      call ⟨.archive a, ta⟩ c = (answer, ⟨.archive a', ta⟩) ∧
      Mirrors ids r d' t' a' ∧ ArchiveStore.Follows [c] a a' := by
  cases c with
  | enumerate =>
    refine ⟨.ids a.enumerate, d, t, a, ?_, rfl, h, ⟨rfl, rfl, fun hdirty => ⟨hdirty, rfl⟩⟩⟩
    rw [← h.enumerate]
    rfl
  | read unit =>
    refine ⟨.content (a.readBytes unit), d, t, a, ?_, rfl, h,
      ⟨rfl, rfl, fun hdirty => ⟨hdirty, rfl⟩⟩⟩
    rw [← h.readBytes hc.1 hc.2]
    rfl
  | write unit content fault =>
    have hfault : fault = none := hc
    subst hfault
    have hunit : unit ∈ ids := hwritten (unit, content) List.mem_cons_self
    obtain ⟨d', t', hd, ha, hafter⟩ := h.write hids hunit content
    refine ⟨.written (.ok ()), d', t', a.put unit content, ?_, ?_, hafter,
      ⟨rfl, rfl, fun hdirty => ?_⟩⟩
    · simp only [call, writeBytesWith, hd]
    · simp only [call, writeBytesWith, ha]
    · cases hdirty

/-- The same calls on both give the same answers. -/
theorem run_of_mirrors (ta : FileTree) (hids : UnitId.SideBySide ids) {calls : List StoreCall}
    (hcalls : ∀ c ∈ calls, c.IsRegular)
    (hwritten : ∀ e ∈ StoreCall.written calls, e.1 ∈ ids) (h : Mirrors ids r d t a) :
    ∃ answers d' t' a', run ⟨.directory d, t⟩ calls = (answers, ⟨.directory d', t'⟩) ∧
      run ⟨.archive a, ta⟩ calls = (answers, ⟨.archive a', ta⟩) ∧
      Mirrors ids r d' t' a' ∧ ArchiveStore.Follows calls a a' := by
  induction calls generalizing d t a with
  | nil => exact ⟨[], d, t, a, rfl, rfl, h, rfl, rfl, fun hdirty => ⟨hdirty, rfl⟩⟩
  | cons c rest ih =>
    have hsplit : StoreCall.written (c :: rest) =
        StoreCall.written [c] ++ StoreCall.written rest := by
      rw [StoreCall.written, StoreCall.written, StoreCall.written, ← List.filterMap_append,
        List.singleton_append]
    rw [hsplit] at hwritten
    obtain ⟨answer, d₁, t₁, a₁, hd₁, ha₁, h₁, hf₁⟩ := call_of_mirrors ta hids
      (hcalls c List.mem_cons_self) (fun e he => hwritten e (List.mem_append_left _ he)) h
    obtain ⟨answers, d₂, t₂, a₂, hd₂, ha₂, h₂, hf₂⟩ := ih
      (fun c hc => hcalls c (List.mem_cons_of_mem _ hc))
      (fun e he => hwritten e (List.mem_append_right _ he)) h₁
    refine ⟨answer :: answers, d₂, t₂, a₂, ?_, ?_, h₂, ?_, ?_, ?_⟩
    · rw [run_cons, hd₁, hd₂]
    · rw [run_cons, ha₁, ha₂]
    · rw [hf₂.entries, hf₁.entries, StoreCall.overlay, StoreCall.overlay, StoreCall.overlay,
        hsplit, List.foldl_append]
    · rw [hf₂.path, hf₁.path]
    · intro hdirty
      obtain ⟨hdirty₁, hentries⟩ := hf₂.clean hdirty
      obtain ⟨hdirty₀, hentries₁⟩ := hf₁.clean hdirty₁
      exact ⟨hdirty₀, hentries.trans hentries₁⟩

/-- The files after some calls and a last one that closes the store. -/
def closedTree (o : OpenedStore) (calls : List StoreCall) : FileTree :=
  (o.run calls).2.close.2.tree

/-- A directory and an archive that present the same units give the same answers to the same calls,
are closed without trouble, and present the same units when they are opened again. What is assumed
of the file system is that no directory stands where a unit is to be written, and of the archive
format that it gives back what was put into it. -/
theorem directory_archive_agree {td ta : FileTree} {root path : String} {d : DirectoryStore}
    {a : ArchiveStore} {units : SortedMap String Bytes} {calls : List StoreCall}
    (htree : td.IsTree) (hd : DirectoryStore.openExisting td root .inPlace = .ok d)
    (ha : ArchiveStore.load ta path .inPlace = .ok a)
    (hdirectory : Presents ⟨.directory d, td⟩ units) (harchive : Presents ⟨.archive a, ta⟩ units)
    (hids : UnitId.SideBySide (units.keys ++ (StoreCall.written calls).map Prod.fst))
    (hcalls : ∀ c ∈ calls, c.IsRegular)
    (hroom : ∀ e ∈ StoreCall.written calls, td.isDirectory (d.path e.1) = false)
    (hzip : Zip.decode (Zip.encode (ArchiveStore.zipEntries (StoreCall.overlay units calls))) =
      .ok (ArchiveStore.zipEntries (StoreCall.overlay units calls))) :
    (run ⟨.directory d, td⟩ calls).1 = (run ⟨.archive a, ta⟩ calls).1 ∧
      (run ⟨.directory d, td⟩ calls).2.close.1 = .ok () ∧
      (run ⟨.archive a, ta⟩ calls).2.close.1 = .ok () ∧
      (∃ again, DirectoryStore.openExisting (closedTree ⟨.directory d, td⟩ calls) root .read =
          .ok again ∧
        Presents ⟨.directory again, closedTree ⟨.directory d, td⟩ calls⟩
          (StoreCall.overlay units calls)) ∧
      ∃ again, ArchiveStore.load (closedTree ⟨.archive a, ta⟩ calls) path .read = .ok again ∧
        Presents ⟨.archive again, closedTree ⟨.archive a, ta⟩ calls⟩
          (StoreCall.overlay units calls) := by
  obtain ⟨r, hat⟩ := DirectoryStore.exists_isAt htree hd
  obtain ⟨-, rfl⟩ := DirectoryStore.openExisting_eq_ok_iff.1 hd
  obtain ⟨old, entries, hfile, hunits, rfl⟩ := ArchiveStore.load_eq_ok_iff.1 ha
  obtain rfl : entries = units := (ArchiveStore.presents_iff rfl rfl).1 harchive
  have hstart := Mirrors.of_presents (a := { path, mode := .inPlace, entries }) hat rfl rfl rfl rfl
    rfl hids (List.forall_mem_map.2 hroom) hdirectory
  obtain ⟨answers, d', t', a', hdrun, harun, hend, hfollows⟩ := run_of_mirrors ta hids hcalls
    (fun e he => List.mem_append_right _ (List.mem_map_of_mem he)) hstart
  have hentries : a'.entries = StoreCall.overlay entries calls := hfollows.entries
  have hpath : a'.path = path := hfollows.path
  have hclean : a'.dirty = false → ArchiveStore.units old = .ok a'.entries := by
    intro hdirty
    rw [hunits, (hfollows.clean hdirty).2]
  obtain ⟨closed, ta', hclose, hagain⟩ :=
    hend.load_close hids (by rwa [hpath]) hclean (by rwa [hentries])
  have hreopen := hend.openExisting hids hat.root
  rw [hentries] at hagain hreopen
  rw [hpath] at hagain
  refine ⟨by rw [hdrun, harun], by rw [hdrun]; rfl, ?_, ?_, ?_⟩
  · simp only [harun, close, hclose]
  · simpa only [closedTree, hdrun, close] using hreopen
  · simpa only [closedTree, harun, close, hclose] using hagain

/-- A unit is written, another is made, and the first is written once more. -/
theorem directory_archive_agree_on_rewrites :
    let td : FileTree := ⟨.ofList [(["d"], .directory), (["d", "A.java"], .file [65])]⟩
    let ta : FileTree := ⟨.ofList [(["z.zip"], .file (Zip.encode [⟨"A.java", [65]⟩]))]⟩
    let units : SortedMap String Bytes := .ofList [("A.java", [65])]
    let d : DirectoryStore := { root := "d", mode := .inPlace }
    let a : ArchiveStore := { path := "z.zip", mode := .inPlace, entries := units }
    let calls := [StoreCall.write "A.java" [66] none, .write "b/B.java" [67] none,
      .read "A.java", .enumerate, .write "A.java" [68] none]
    (run ⟨.directory d, td⟩ calls).1 = (run ⟨.archive a, ta⟩ calls).1 ∧
      ∃ again, DirectoryStore.openExisting (closedTree ⟨.directory d, td⟩ calls) "d" .read =
          .ok again ∧
        Presents ⟨.directory again, closedTree ⟨.directory d, td⟩ calls⟩
          (.ofList [("A.java", [68]), ("b/B.java", [67])]) := by
  intro td ta units d a calls
  have hd : DirectoryStore.openExisting td "d" .inPlace = .ok d := rfl
  have ha : ArchiveStore.load ta "z.zip" .inPlace = .ok a := by decide +kernel
  have hdirectory : Presents ⟨.directory d, td⟩ units := by
    refine ⟨by decide, ?_⟩
    intro unit content hget
    have hentry : (unit, content) ∈ [("A.java", [65])] := SortedMap.get?_eq_some_iff.1 hget
    obtain ⟨rfl, rfl⟩ : unit = "A.java" ∧ content = [65] := by simpa using hentry
    decide
  have harchive : Presents ⟨.archive a, ta⟩ units := (ArchiveStore.presents_iff rfl rfl).2 rfl
  have hids : UnitId.SideBySide (units.keys ++ (StoreCall.written calls).map Prod.fst) :=
    ⟨by decide, by decide, by decide⟩
  have hagree := directory_archive_agree (by decide) hd ha hdirectory harchive hids (by decide)
    (by decide) (by decide +kernel)
  exact ⟨hagree.1, hagree.2.2.2.1⟩

end OpenedStore

end Renaming
