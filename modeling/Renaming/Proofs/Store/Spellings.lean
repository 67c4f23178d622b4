import Renaming.Proofs.Store.Calls

/-!
# Spellings of one unit

Ids are kept and compared as they are written, but files are found by the names on their path. Two
ids that are accepted lead to one file exactly if they go through the same names. A write by the one
is then seen by a reader of the other, unless the content of that one was kept before.
-/

namespace Renaming

/-- Ids in the form in which a directory lists its units have only one spelling. -/
theorem UnitId.IsCanonical.names_inj {a b : String} (ha : IsCanonical a) (hb : IsCanonical b)
    (h : Path.names a = Path.names b) : a = b := by
  rw [Path.names_eq_fields ha, Path.names_eq_fields hb] at h
  exact Text.fields_inj h

namespace DirectoryStore

variable {s : DirectoryStore} {t : FileTree} {r : Location} {a b : String} {content : Bytes}

theorem location_path_eq_iff (hroot : Path.location? s.root = some r) (ha : UnitId.GoesDown a)
    (hb : UnitId.GoesDown b) :
    Path.location? (s.path a) = Path.location? (s.path b) ↔ Path.names a = Path.names b := by
  rw [path, path, Path.location?_join_of_down hroot ha.up, Path.location?_join_of_down hroot hb.up,
    Option.some_inj, List.append_cancel_left_eq]

theorem Outcome.pristine {result : Except StoreError Unit × DirectoryStore × FileTree}
    (ho : Outcome s t r a content result) (hne : a ≠ b) :
    result.2.1.pristine.get? b = s.pristine.get? b := by
  have hkeep (old : Option Bytes) : (s.keep a old).pristine.get? b = s.pristine.get? b := by
    rw [keep, SortedMap.get?_remember, if_neg (by simpa using hne.symm)]
  cases ho with
  | refused e => rfl
  | stopped e _ _ => exact hkeep _
  | done _ _ _ _ => exact hkeep _

/-- What is read of one unit after a write by another id. -/
theorem Outcome.readBytes {result : Except StoreError Unit × DirectoryStore × FileTree}
    (ho : Outcome s t r a content result) (hat : s.IsAt t r) (ha : UnitId.GoesDown a)
    (hb : UnitId.isValid b = true) (hne : a ≠ b) :
    result.2.1.readBytes result.2.2 b =
      if result.1 = .ok () ∧ Path.names a = Path.names b ∧ Path.endsInName b = true ∧
          s.pristine.get? b = none then .ok content
      else s.readBytes t b := by
  have hafter := ho.isAt hat ha
  have hdown := UnitId.goesDown_of_isValid hb
  rw [readBytes_eq_content? hafter.isOpen hb, hafter.content?_path hdown, ho.pristine hne,
    readBytes_eq_content? hat.isOpen hb, hat.content?_path hdown]
  cases ho with
  | refused e => simp
  | stopped e _ _ => simp
  | @done above name _ hplace _ _ =>
    have hsame : r ++ Path.names b = above ++ [name] ↔ Path.names a = Path.names b := by
      rw [← hplace, List.append_cancel_left_eq, eq_comm]
    simp only [FileTree.file?_putFile (show above ++ [name] ≠ [] by simp), hsame,
      FileTree.file?_addDirectories, true_and]
    by_cases hnames : Path.names a = Path.names b
    · cases Path.endsInName b <;> cases s.pristine.get? b <;> simp [hnames]
    · simp [hnames]

end DirectoryStore

namespace OpenedStore

open DirectoryStore

/-- Two different ids that are accepted lead to the same file in a directory exactly if they go
through the same names, which ids as a directory lists them never do. After any calls on a directory
that was opened in place, a write by one id changes what is read by the other exactly if it goes
through, the ids go through the same names, the other one ends in a name and its content has not
been kept; then the new content is read. -/
theorem readBytes_of_other_spelling {t : FileTree} {root : String} {s : DirectoryStore}
    {a b : String} (htree : t.IsTree) (hopen : DirectoryStore.openExisting t root .inPlace = .ok s)
    (ha : UnitId.isValid a = true) (hb : UnitId.isValid b = true) (hne : a ≠ b) :
    (∀ d : DirectoryStore, ∀ r, Path.location? d.root = some r →
      (Path.location? (d.path a) = Path.location? (d.path b) ↔ Path.names a = Path.names b)) ∧
    (UnitId.IsCanonical a → UnitId.IsCanonical b → Path.names a ≠ Path.names b) ∧
    ∀ calls : List StoreCall, ∃ d left, (run ⟨.directory s, t⟩ calls).2 = ⟨.directory d, left⟩ ∧
      ∀ fault content, ∃ result d' left',
        d.writeBytesWith fault left a content = (result, d', left') ∧
        d'.readBytes left' b =
          if result = .ok () ∧ Path.names a = Path.names b ∧ Path.endsInName b = true ∧
              d.pristine.get? b = none then .ok content
          else d.readBytes left b := by
  have hdown := UnitId.goesDown_of_isValid ha
  refine ⟨?_, fun hca hcb hnames => hne (hca.names_inj hcb hnames), fun calls => ?_⟩
  · intro d r hroot
    exact location_path_eq_iff hroot hdown (UnitId.goesDown_of_isValid hb)
  · obtain ⟨r, hat⟩ := DirectoryStore.exists_isAt htree hopen
    have hmode : s.mode = .inPlace := by rw [(openExisting_eq_ok_iff.1 hopen).2]
    have hstart : InPlaceAt r ⟨.directory s, t⟩ := ⟨s, rfl, hat, hmode⟩
    have hend : InPlaceAt r (run ⟨.directory s, t⟩ calls).2 :=
      run_invariant (fun o c _ ho => ho.call c) hstart
    obtain ⟨d, hd, hat', hmode'⟩ := hend
    refine ⟨d, (run ⟨.directory s, t⟩ calls).2.tree, by rw [← hd], fun fault content => ?_⟩
    exact ⟨_, _, _, rfl,
      (outcome_writeBytesWith fault hat' hmode' hdown content).readBytes hat' hdown hb hne⟩

/-- A unit that a directory lists by neither of the two ids, read by one and written by the other. -/
theorem readBytes_of_other_spelling_detours :
    let t : FileTree := ⟨.ofList [(["d"], .directory), (["d", "a"], .directory),
      (["d", "a", "B.java"], .file [120])]⟩
    let s : DirectoryStore := { root := "d", mode := .inPlace }
    Path.location? (s.path "a/./B.java") = Path.location? (s.path "a//B.java") ∧
      (run ⟨.directory s, t⟩ [.read "a//B.java"]).2 = ⟨.directory s, t⟩ ∧
      s.readBytes t "a//B.java" = .ok [120] ∧
      ∃ result d' left', s.writeBytesWith none t "a/./B.java" [121] = (result, d', left') ∧
        d'.readBytes left' "a//B.java" = .ok [121] := by
  intro t s
  have htree : t.IsTree := by decide
  have hopen : DirectoryStore.openExisting t "d" .inPlace = .ok s := rfl
  obtain ⟨hplace, -, hrun⟩ := readBytes_of_other_spelling htree hopen
    (show UnitId.isValid "a/./B.java" = true by decide)
    (show UnitId.isValid "a//B.java" = true by decide) (by decide)
  obtain ⟨d, left, hd, hwrite⟩ := hrun [.read "a//B.java"]
  have hsame : (run ⟨.directory s, t⟩ [.read "a//B.java"]).2 = ⟨.directory s, t⟩ := rfl
  rw [hsame] at hd
  cases hd
  obtain ⟨result, d', left', hresult, hread⟩ := hwrite none [121]
  have hwritten : (s.writeBytesWith none t "a/./B.java" [121]).1 = .ok () := by decide +kernel
  have hok : result = .ok () := by rwa [hresult] at hwritten
  refine ⟨(hplace s ["d"] (by decide)).2 (by decide), hsame, by decide +kernel, result, d', left',
    hresult, ?_⟩
  rw [hread, if_pos ⟨hok, by decide, by decide, rfl⟩]

/-- What is written by one id is read by another. -/
theorem other_spelling_overwrites :
    let t : FileTree := ⟨.ofList [(["d"], .directory), (["d", "a"], .directory),
      (["d", "a", "B.java"], .file [120])]⟩
    let s : DirectoryStore := { root := "d", mode := .inPlace }
    let after := s.writeBytesWith none t "a//B.java" [121]
    UnitId.isValid "a//B.java" = true ∧ UnitId.isValid "a/B.java" = true ∧
      DirectoryStore.openExisting t "d" .inPlace = .ok s ∧
      Path.location? (s.path "a//B.java") = Path.location? (s.path "a/B.java") ∧
      s.readBytes t "a/B.java" = .ok [120] ∧ after.1 = .ok () ∧
      after.2.1.readBytes after.2.2 "a/B.java" = .ok [121] :=
  ⟨by decide, by decide, rfl, by decide, rfl, rfl, by decide +kernel⟩

end OpenedStore

end Renaming
