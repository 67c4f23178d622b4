import Renaming.Proofs.Application.Clean
import Renaming.Proofs.Java.Resolver

/-!
# From extraction to application

A map that was extracted from a store is applied to that store without errors, whatever the table
says, and whatever trees the units have: all that counts is that their nodes lie within the texts.
The units that the resolver handles are the sources of an application with the usual endings.
-/

namespace Renaming

theorem isSource_eq_isJavaUnit (overwriteUnmapped : Bool) (unit : String) :
    ({ overwriteUnmapped } : ApplyOptions).isSource unit = Java.isJavaUnit unit := by
  simp [ApplyOptions.isSource, Java.isJavaUnit]

/-- Applying any table with the map of an extraction to the same store reports no errors, in place
or into an empty store. The trees of the units may have errors in them. This includes extractions
beyond their tolerance, whose maps are empty. -/
theorem applyTable_extracted_clean (store : MemoryStore)
    (hids : ∀ unit ∈ store.units.keys, UnitId.isValid unit = true)
    {parse : String → Option Java.Node} (hparse : Java.ReadsWithin parse) (files : FileTree)
    (classpath : List String) (tolerance : Tolerance) (e : Extraction)
    (hextract : extractRangeMap store (Java.resolverWith parse files classpath) tolerance = .ok e)
    (table : RenameTable) (overwriteUnmapped : Bool) :
    (∃ done : ApplyReport × MemoryStore,
      applyInPlace store e.rangeMap table { overwriteUnmapped } = .ok done ∧
        done.1.errors = []) ∧
    ∃ done : ApplyReport × MemoryStore,
      applyTable .separate store ({} : MemoryStore) e.rangeMap table { overwriteUnmapped } =
        .ok done ∧ done.1.errors = [] := by
  obtain ⟨ids, henum, hfits, htexts⟩ :=
    extractRangeMap_fits (Java.resolverWith_faithful files classpath hparse) hextract
  obtain ⟨hopen, rfl⟩ := MemoryStore.enumerate_eq_ok henum
  have hsources : ∀ unit ∈ store.units.keys,
      ({ overwriteUnmapped } : ApplyOptions).isSource unit = true →
        ∃ text, SourceStore.readText store unit = .ok text := by
    intro unit hunit hsource
    rw [isSource_eq_isJavaUnit] at hsource
    exact htexts unit hunit hsource
  exact ⟨applyTable_clean hopen hids hfits hsources .inPlace store table,
    applyTable_clean hopen hids hfits hsources .separate {} table⟩

/-- A source, and a unit that is no text. -/
def plainStore : MemoryStore where
  units := .ofList [("a/A.java", Bytes.ofText "class A {}"), ("a/notes.txt", [254])]

def plainTable : RenameTable := RenameTable.empty.insert (.symbol "A" "Z")

theorem applyTable_extracted_clean_plainStore :
    ∃ e, extractRangeMap plainStore (Java.resolver {} []) {} = .ok e ∧ e.worked = true ∧
      e.rangeMap.occurrences "a/A.java" = [⟨⟨6, 7⟩, "A", .type, []⟩] ∧
      (∃ done : ApplyReport × MemoryStore,
        applyInPlace plainStore e.rangeMap plainTable {} = .ok done ∧ done.1.errors = []) ∧
      ∃ done : ApplyReport × MemoryStore,
        applyTable .separate plainStore ({} : MemoryStore) e.rangeMap plainTable {} = .ok done ∧
          done.1.errors = [] := by
  have hfound : (extractRangeMap plainStore (Java.resolver {} []) {}).toOption.any (fun e =>
      e.worked && e.rangeMap.occurrences "a/A.java" == [⟨⟨6, 7⟩, "A", .type, []⟩]) = true := by
    decide +kernel
  cases hextract : extractRangeMap plainStore (Java.resolver {} []) {} with
  | error err =>
    rw [hextract] at hfound
    cases hfound
  | ok e =>
    rw [hextract] at hfound
    obtain ⟨hworked, hoccurrences⟩ := Bool.and_eq_true_iff.1 hfound
    refine ⟨e, rfl, hworked, eq_of_beq hoccurrences, ?_⟩
    exact applyTable_extracted_clean plainStore (by decide +kernel) Java.readsWhole_ofText?.within
      {} [] {} e hextract plainTable false

end Renaming
