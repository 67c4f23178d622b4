import Renaming.Proofs.FileTree
import Renaming.Store.Archive

/-!
# Archive stores by their entries

An archive store gives its entries and the contents it keeps. A write only changes these; the file
is written when the store is closed, and loading it again gives the entries back if the archive
format does.
-/

namespace Renaming

namespace ArchiveStore

variable {s : ArchiveStore} {t : FileTree} {path unit : String} {mode : StoreMode}

theorem load_eq_ok_iff :
    load t path mode = .ok s ↔ ∃ content entries, t.find path = .ok (.file content) ∧
      units content = .ok entries ∧ s = { path, mode, entries } := by
  unfold load
  cases hfind : t.find path with
  | error e => simp
  | ok e =>
    cases e with
    | directory => simp
    | file content =>
      cases hunits : units content with
      | error e => simp [hunits]
      | ok entries => simp [hunits, eq_comm]

/-! ## Reading, listing and writing -/

/-- What a reader sees of a unit: what is kept of it, or else the entry. -/
def shown (s : ArchiveStore) (unit : String) : Option Bytes :=
  (s.pristine.get? unit).or (s.entries.get? unit)

theorem readBytes_eq (hopen : s.closed = false) (unit : String) :
    s.readBytes unit = (s.shown unit).elim (.error (.unknownUnit unit)) .ok := by
  have hopen' : s.ensureOpen = .ok () := by simp [ensureOpen, hopen]
  simp only [readBytes, shown, hopen']
  cases s.pristine.get? unit with
  | some content => rfl
  | none =>
    cases s.entries.get? unit with
    | some content => rfl
    | none => rfl

theorem enumerate_eq (hopen : s.closed = false) : s.enumerate = .ok s.entries.keys := by
  have hopen' : s.ensureOpen = .ok () := by simp [ensureOpen, hopen]
  simp only [enumerate, hopen']
  rfl

/-- The store after a unit was written. -/
def put (s : ArchiveStore) (unit : String) (content : Bytes) : ArchiveStore :=
  { s with
    entries := s.entries.insert unit content
    pristine := s.pristine.remember unit (s.entries.get? unit)
    dirty := true }

theorem writeBytes_eq (hopen : s.closed = false) (hmode : s.mode = .inPlace) (unit : String)
    (content : Bytes) :
    s.writeBytes unit content =
      if UnitId.isValid unit then (.ok (), s.put unit content)
      else (.error (.invalidUnitId unit), s) := by
  have hsnapshot : s.snapshot unit =
      { s with pristine := s.pristine.remember unit (s.entries.get? unit) } := by
    rw [snapshot, if_pos hmode]
    cases s.entries.get? unit with
    | none => rfl
    | some old => rfl
  have hwritable : s.mode.isWritable = true := by rw [hmode]; rfl
  rw [writeBytes, if_neg (by simp [hopen]), if_neg (by simp [hwritable]), hsnapshot]
  cases UnitId.isValid unit with
  | true => rfl
  | false => rfl

theorem shown_put {other : String} {seen : Bytes} (content : Bytes)
    (h : s.shown other = some seen) : (s.put unit content).shown other = some seen := by
  refine s.pristine.get?_remember_or s.entries.get? (s.entries.insert unit content).get? ?_ h
  intro hne
  exact s.entries.get?_insert_of_ne content hne

/-! ## Closing and loading again -/

/-- The entries of the archive that a store writes. -/
def zipEntries (entries : SortedMap String Bytes) : List ZipEntry :=
  entries.entries.map fun (name, content) => ⟨name, content⟩

theorem units_of_readsBack {content : Bytes} {entries : SortedMap String Bytes}
    (hzip : Zip.decode content = .ok (zipEntries entries))
    (hfiles : ∀ unit ∈ entries.keys, ZipEntry.isDirectory ⟨unit, []⟩ = false) :
    units content = .ok entries := by
  have hkept : (zipEntries entries).filter (fun e => !e.isDirectory) = zipEntries entries := by
    rw [List.filter_eq_self]
    intro e he
    obtain ⟨⟨name, octets⟩, hmem, rfl⟩ := List.mem_map.1 he
    have hname := hfiles name (List.mem_map_of_mem hmem)
    simpa [ZipEntry.isDirectory] using hname
  have hback : (zipEntries entries).map (fun e => (e.name, e.content)) = entries.entries := by
    rw [zipEntries, List.map_map]
    exact List.map_id _
  rw [units, hzip]
  dsimp only
  rw [hkept, hback, SortedMap.ofList_entries]

/-- The file at the path of an archive is what a flush put there. -/
theorem find_flush {old : Bytes} (h : t.find s.path = .ok (.file old)) :
    ∃ t', s.flush t = .ok t' ∧ t'.find s.path = .ok (.file s.content) := by
  obtain ⟨above, name, hl, hname, hclear, hat⟩ := FileTree.of_find_eq_file h
  have hmake := (FileTree.createDirectories_parent_eq_ok_iff hl
    (Path.leadsDown_of_endsInName hname)).2 ⟨hclear, rfl⟩
  have hfree : (t.addDirectories above).at? (above ++ [name]) ≠ some .directory := by
    rw [FileTree.at?_addDirectories_above, hat]
    simp
  have hreplace : (t.addDirectories above).replaceFile s.path s.content = .ok _ :=
    (FileTree.replaceFile_eq_ok_iff hl).2 ⟨hname, hfree, rfl⟩
  have hflush : s.flush t =
      .ok ((t.addDirectories above).putFile (above ++ [name]) s.content) := by
    simp only [flush, hmake, hreplace]
  refine ⟨_, hflush, (FileTree.find_eq_file hl hname hclear.putFile).2 ?_⟩
  rw [FileTree.at?_putFile (by simp), if_pos rfl]

/-- A store that is closed can be loaded again with the entries it had at the end. -/
theorem load_close {old : Bytes} (hopen : s.closed = false) (hmode : s.mode = .inPlace)
    (hfile : t.find s.path = .ok (.file old))
    (hclean : s.dirty = false → units old = .ok s.entries)
    (hzip : Zip.decode (Zip.encode (zipEntries s.entries)) = .ok (zipEntries s.entries))
    (hfiles : ∀ unit ∈ s.entries.keys, ZipEntry.isDirectory ⟨unit, []⟩ = false)
    (mode : StoreMode) :
    ∃ closed t', s.close t = (.ok (), closed, t') ∧
      load t' s.path mode = .ok { path := s.path, mode, entries := s.entries } := by
  have hwritable : s.mode.isWritable = true := by rw [hmode]; rfl
  refine ⟨{ s with closed := true, entries := .empty, pristine := .empty }, ?_⟩
  rw [close, if_neg (by simp [hopen])]
  cases hdirty : s.dirty with
  | false =>
    refine ⟨t, ?_, load_eq_ok_iff.2 ⟨old, s.entries, hfile, hclean hdirty, rfl⟩⟩
    rw [if_neg (by simp)]
  | true =>
    obtain ⟨t', hflush, hfind⟩ := find_flush hfile
    have hunits : units s.content = .ok s.entries := units_of_readsBack hzip hfiles
    refine ⟨t', ?_, load_eq_ok_iff.2 ⟨_, s.entries, hfind, hunits, rfl⟩⟩
    rw [if_pos (by simp [hwritable]), hflush]

end ArchiveStore

end Renaming
