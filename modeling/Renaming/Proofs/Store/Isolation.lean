import Renaming.Proofs.Store.Calls

/-!
# Reading from a store that is written in place

A store that is open in place is its own input: whatever is written to it, and wherever a write
fails, the units it was opened with are read as they were. The old content of a unit is kept just
before its file or entry is changed, and what is kept is looked at first.
-/

namespace Renaming

namespace OpenedStore

/-- A directory or an archive that was just opened in place. -/
inductive OpenedInPlace (t : FileTree) : OpenedStore → Prop where
  | directory {root : String} {s : DirectoryStore}
      (h : DirectoryStore.openExisting t root .inPlace = .ok s) : OpenedInPlace t ⟨.directory s, t⟩
  | archive {path : String} {s : ArchiveStore} (h : ArchiveStore.load t path .inPlace = .ok s) :
      OpenedInPlace t ⟨.archive s, t⟩

/-- The units of a store and their contents: the files below the root of a directory, by their names
from there, and the entries of an archive. -/
inductive Holds : OpenedStore → String → Bytes → Prop where
  | directory {s : DirectoryStore} {t : FileTree} {root l : Location} {content : Bytes}
      (hroot : Path.location? s.root = some root) (hfile : (l, content) ∈ t.filesBelow root) :
      Holds ⟨.directory s, t⟩ (Text.join "/" l) content
  | archive {s : ArchiveStore} {t : FileTree} {unit : String} {content : Bytes}
      (hentry : s.entries.get? unit = some content) : Holds ⟨.archive s, t⟩ unit content

def isDirectory (o : OpenedStore) : Bool :=
  match o.store with
  | .directory _ => true
  | _ => false

end OpenedStore

/-- A write names its unit in the form in which a directory lists it. -/
def StoreCall.IsCanonical : StoreCall → Prop
  | .write unit _ _ => UnitId.IsCanonical unit
  | _ => True

instance : DecidablePred StoreCall.IsCanonical
  | .write unit _ _ => inferInstanceAs (Decidable (UnitId.IsCanonical unit))
  | .enumerate => .isTrue trivial
  | .read _ => .isTrue trivial

namespace DirectoryStore

/-- A unit of a directory that is open in place, with what a reader sees of it. -/
def Shows (r : Location) (unit : String) (content : Bytes) (o : OpenedStore) : Prop :=
  ∃ s, o.store = .directory s ∧ s.IsAt o.tree r ∧ s.mode = .inPlace ∧
    s.shown o.tree r unit = some content

theorem Shows.call {r : Location} {unit : String} {content : Bytes} {o : OpenedStore}
    {c : StoreCall} (h : Shows r unit content o) (hc : c.IsCanonical) :
    Shows r unit content (o.call c).2 := by
  obtain ⟨s, hs, hat, hmode, hshown⟩ := h
  obtain hsame | ⟨written, new, fault, result, rfl, hunit, ho, hleft⟩ := call_cases hs hat hmode c
  · rw [hsame]
    exact ⟨s, hs, hat, hmode, hshown⟩
  · rw [hleft]
    exact ⟨_, rfl, ho.isAt hat hunit, ho.mode.trans hmode, ho.shown hat hc hshown⟩

theorem Shows.readBytes {r : Location} {unit : String} {content : Bytes} {o : OpenedStore}
    (h : Shows r unit content o) (hunit : UnitId.IsCanonical unit)
    (hvalid : UnitId.isValid unit = true) : o.readBytes unit = .ok content := by
  obtain ⟨s, hs, hat, hmode, hshown⟩ := h
  rw [OpenedStore.readBytes, hs]
  dsimp only
  rw [DirectoryStore.readBytes_eq hat hunit hvalid, hshown, Option.elim_some]

end DirectoryStore

namespace ArchiveStore

/-- A unit of an archive that is open in place, with what a reader sees of it. -/
def Shows (unit : String) (content : Bytes) (o : OpenedStore) : Prop :=
  ∃ s, o.store = .archive s ∧ s.closed = false ∧ s.mode = .inPlace ∧ s.shown unit = some content

theorem Shows.call {unit : String} {content : Bytes} {o : OpenedStore} (c : StoreCall)
    (h : Shows unit content o) : Shows unit content (o.call c).2 := by
  obtain ⟨s, hs, hopen, hmode, hshown⟩ := h
  cases c with
  | enumerate => exact ⟨s, hs, hopen, hmode, hshown⟩
  | read _ => exact ⟨s, hs, hopen, hmode, hshown⟩
  | write written new fault =>
    simp only [OpenedStore.call, OpenedStore.writeBytesWith, hs, writeBytes_eq hopen hmode]
    by_cases hvalid : UnitId.isValid written = true
    · simp only [hvalid]
      exact ⟨s.put written new, rfl, hopen, hmode, shown_put new hshown⟩
    · simp only [hvalid]
      exact ⟨s, rfl, hopen, hmode, hshown⟩

theorem Shows.readBytes {unit : String} {content : Bytes} {o : OpenedStore}
    (h : Shows unit content o) : o.readBytes unit = .ok content := by
  obtain ⟨s, hs, hopen, hmode, hshown⟩ := h
  rw [OpenedStore.readBytes, hs]
  dsimp only
  rw [ArchiveStore.readBytes_eq hopen, hshown, Option.elim_some]

end ArchiveStore

namespace OpenedStore

/-- Every unit that a store lists when it is opened in place has a content then, and that is what it
is read as after any calls, of which any may fail at any point. A directory also lists files whose
names contain a backslash, but refuses to read them. -/
theorem readBytes_run_of_openedInPlace {t : FileTree} {o : OpenedStore} {ids : List String}
    {unit : String} (htree : t.IsTree) (hopen : OpenedInPlace t o) (hids : o.enumerate = .ok ids)
    (hunit : unit ∈ ids)
    (hreadable : o.isDirectory = true → Text.containsChar '\\' unit = false) :
    ∃ content, o.Holds unit content ∧
      ∀ calls : List StoreCall, (o.isDirectory = true → ∀ c ∈ calls, c.IsCanonical) →
        (o.run calls).2.readBytes unit = .ok content := by
  cases hopen with
  | @directory root s h =>
    obtain ⟨r, hat⟩ := DirectoryStore.exists_isAt htree h
    obtain ⟨-, hs⟩ := DirectoryStore.openExisting_eq_ok_iff.1 h
    obtain ⟨listed, henumerate, hlisted⟩ := DirectoryStore.enumerate_eq hat
    rw [show OpenedStore.enumerate ⟨.directory s, t⟩ = s.enumerate t from rfl, henumerate,
      Except.ok.injEq] at hids
    subst hids
    obtain ⟨hcanonical, content, hfile⟩ := (hlisted unit).1 hunit
    have hvalid := UnitId.isValid_of_isCanonical hcanonical (hreadable rfl)
    refine ⟨content, ?_, ?_⟩
    · rw [← Text.join_fields "/" '/' rfl unit]
      exact .directory hat.root (htree.mem_filesBelow_iff.2 hfile)
    · intro calls hcalls
      have hshows : DirectoryStore.Shows r unit content ⟨.directory s, t⟩ :=
        ⟨s, rfl, hat, by rw [hs], by rw [hs]; exact hfile⟩
      have hafter := run_invariant (fun o c hc ho => ho.call (hcalls rfl c hc)) hshows
      exact hafter.readBytes hcanonical hvalid
  | @archive path s h =>
    obtain ⟨file, entries, -, -, rfl⟩ := ArchiveStore.load_eq_ok_iff.1 h
    have henumerate := ArchiveStore.enumerate_eq (s := { path, mode := .inPlace, entries }) rfl
    rw [show OpenedStore.enumerate ⟨.archive { path, mode := .inPlace, entries }, t⟩ =
      ArchiveStore.enumerate { path, mode := .inPlace, entries } from rfl, henumerate,
      Except.ok.injEq] at hids
    subst hids
    obtain ⟨content, hentry⟩ := SortedMap.mem_keys_iff.1 hunit
    refine ⟨content, .archive hentry, ?_⟩
    intro calls _
    have hshows : ArchiveStore.Shows unit content
        ⟨.archive { path, mode := .inPlace, entries }, t⟩ := ⟨_, rfl, rfl, rfl, hentry⟩
    exact (run_invariant (fun o c _ ho => ho.call c) hshows).readBytes

/-- A unit of a directory that is written twice, and then by a write that fails. -/
theorem readBytes_run_of_rewrites :
    let t : FileTree := ⟨.ofList [(["d"], .directory), (["d", "A.java"], .file [65])]⟩
    let o : OpenedStore := ⟨.directory ⟨"d", .inPlace, .empty, false⟩, t⟩
    let calls := [StoreCall.write "A.java" [66] none, .read "A.java",
      .write "A.java" [67] none, .write "A.java" [68] (some (.replacing .notFound))]
    (o.run calls).2.readBytes "A.java" = .ok [65] := by
  intro t o calls
  have htree : t.IsTree := by decide
  have hopen : DirectoryStore.openExisting t "d" .inPlace =
      .ok ⟨"d", .inPlace, .empty, false⟩ := rfl
  have hids : o.enumerate = .ok ["A.java"] := rfl
  have hcalls : ∀ c ∈ calls, c.IsCanonical := by decide
  obtain ⟨content, -, hread⟩ :=
    readBytes_run_of_openedInPlace htree (.directory hopen) hids List.mem_cons_self
      fun _ => by decide
  have hfirst : o.readBytes "A.java" = .ok [65] := rfl
  have hcontent : content = [65] := by
    have hsame := hread [] fun _ => by simp
    rw [show (o.run []).2 = o from rfl, hfirst] at hsame
    exact (Except.ok.inj hsame).symm
  rw [hread calls fun _ => hcalls, hcontent]

/-- The content of a unit is not what it is read as when its id contains a backslash. -/
theorem readBytes_of_backslash :
    let t : FileTree := ⟨.ofList [(["d"], .directory), (["d", "a\\b.java"], .file [120])]⟩
    let o : OpenedStore := ⟨.directory ⟨"d", .inPlace, .empty, false⟩, t⟩
    t.IsTree ∧ OpenedInPlace t o ∧ o.enumerate = .ok ["a\\b.java"] ∧
      o.Holds "a\\b.java" [120] ∧
      o.readBytes "a\\b.java" = .error (.invalidUnitId "a\\b.java") := by
  intro t o
  have hopen : DirectoryStore.openExisting t "d" .inPlace =
      .ok ⟨"d", .inPlace, .empty, false⟩ := rfl
  have hroot : Path.location? "d" = some ["d"] := rfl
  have hfile : (["a\\b.java"], [120]) ∈ t.filesBelow ["d"] := by decide
  exact ⟨by decide, .directory hopen, rfl, .directory hroot hfile, rfl⟩

end OpenedStore

end Renaming
