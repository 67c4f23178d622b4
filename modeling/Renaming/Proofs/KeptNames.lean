import Renaming.Proofs.Application.Log
import Renaming.Proofs.Pipeline

/-!
# Tables that keep names

A table keeps the names of a map if it gives each type its own binary name, and each field, method
and local variable its own name. Fields, methods and local variables then stay as they are. A type
is still put in the spelling of its binary name, which is how most types are written: a member type
by the part after the last separator, a qualified one with dots. The binary name of a local type
has a number before its simple name, and this number is written out.
-/

namespace Renaming

/-- What a text that stands for a type is put into: all of the binary name for a qualified text,
the last part of it otherwise. -/
def typeSpelling (binary written : String) : String :=
  if Text.containsChar '.' written then sourceName binary else simpleName binary

/-- Whether the new name of a symbol is the one that it has. Parameters are given none. -/
def RenameTable.KeepsName (t : RenameTable) (o : Occurrence) : Prop :=
  match o.kind with
  | .type => t.symbol? o.signature = some o.signature
  | .field | .method | .localVariable => t.symbol? o.signature = o.name?
  | .parameter => t.ownParameter? o = none ∧ t.firstOf o.signatures = none

instance (t : RenameTable) : (o : Occurrence) → Decidable (t.KeepsName o)
  | ⟨_, s, .type, _⟩ => inferInstanceAs (Decidable (t.symbol? s = some s))
  | ⟨_, s, .field, _⟩ => inferInstanceAs (Decidable (t.symbol? s = some s.fieldName))
  | ⟨_, s, .method, _⟩ => inferInstanceAs (Decidable (t.symbol? s = some s.methodName))
  | ⟨_, s, .localVariable, _⟩ => inferInstanceAs (Decidable (t.symbol? s = some s.localName))
  | ⟨span, s, .parameter, fallbacks⟩ => inferInstanceAs (Decidable
      (t.ownParameter? ⟨span, s, .parameter, fallbacks⟩ = none ∧ t.firstOf (s :: fallbacks) = none))

/-- A type that is put into the spelling of its own binary name, and was written otherwise. -/
structure RenameEntry.Respells (entry : RenameEntry) (text : String) (o : Occurrence) : Prop where
  kind : o.kind = .type
  offset : entry.offset = o.span.start
  old : entry.old = String.ofList (o.span.slice text.toList)
  new : entry.new = typeSpelling o.signature entry.old
  changed : entry.new ≠ entry.old

theorem RenameTable.firstOf_of_symbol? {t : RenameTable} {o : Occurrence} {new : String}
    (h : t.symbol? o.signature = some new) : t.firstOf o.signatures = some new := by
  rw [firstOf, Occurrence.signatures, List.findSome?_cons, h]

section Replacement

variable {t : RenameTable} {o : Occurrence} {text : String}

theorem RenameTable.KeepsName.replacement_type (h : t.KeepsName o) (hkind : o.kind = .type)
    (written : String) : replacement t o written = some (typeSpelling o.signature written) := by
  simp only [KeepsName, hkind] at h
  simp only [replacement, ownParameter?, hkind, reduceCtorEq, if_false, if_true, typeReplacement,
    firstOf_of_symbol? h, typeSpelling]

/-- No other symbol is given another text than the one that it has. -/
theorem RenameTable.KeepsName.replacement_member (h : t.KeepsName o) (hstands : o.Stands text)
    (hkind : o.kind ≠ .type) {new : String}
    (hnew : replacement t o (String.ofList (o.span.slice text.toList)) = some new) :
    new = String.ofList (o.span.slice text.toList) := by
  have hname : ∀ name, t.symbol? o.signature = o.name? → o.name? = some name →
      o.kind ≠ .parameter → new = String.ofList (o.span.slice text.toList) := by
    intro name hsymbol hname hparameter
    obtain ⟨hwritten, hdot⟩ := hstands.named name hname
    rw [hname] at hsymbol
    simp only [replacement, ownParameter?, hparameter, hkind, if_false, memberReplacement,
      firstOf_of_symbol? hsymbol, Option.map_some, Option.some.injEq,
      Text.afterLast_of_notMem hdot] at hnew
    rw [← hnew, hwritten]
  unfold KeepsName at h
  cases hk : o.kind with
  | type => exact absurd hk hkind
  | parameter =>
    simp only [hk] at h
    simp [replacement, h.1, hk, memberReplacement, h.2] at hnew
  | field | method | localVariable =>
    simp only [hk] at h
    exact hname _ h (by rw [Occurrence.name?, hk]) (by simp [hk])

/-- The substitutions of a table that keeps names put types into other spellings. -/
theorem RenameTable.KeepsName.substitution?_eq_some_iff (h : t.KeepsName o)
    (hstands : o.Stands text) {entry : RenameEntry} :
    t.substitution? entry.unit text.toList o = some entry ↔ entry.Respells text o := by
  rw [RenameTable.substitution?_eq_some_iff]
  constructor
  · rintro ⟨-, hoffset, hold, hnew, hne⟩
    by_cases hkind : o.kind = .type
    · rw [h.replacement_type hkind, Option.some.injEq] at hnew
      exact ⟨hkind, hoffset, hold, hnew.symm, hne⟩
    · rw [hold] at hnew hne
      exact absurd (h.replacement_member hstands hkind hnew) hne
  · rintro ⟨hkind, hoffset, hold, hnew, hne⟩
    exact ⟨rfl, hoffset, hold, by rw [h.replacement_type hkind, hnew], hne⟩

end Replacement

/-! ## Extracted maps -/

section Extracted

variable {store : MemoryStore} {parse : String → Option Java.Node} (hparse : Java.ReadsWhole parse)
  {files : FileTree} {classpath : List String} {tolerance : Tolerance} {e : Extraction}
include hparse

/-- The occurrences of an extraction stand in sources of the store. -/
theorem stands_of_extractRangeMap
    (h : extractRangeMap store (Java.resolverWith parse files classpath) tolerance = .ok e)
    (overwriteUnmapped : Bool) {unit : String} {o : Occurrence}
    (ho : o ∈ e.rangeMap.occurrences unit) :
    ({ overwriteUnmapped } : ApplyOptions).isSource unit = true ∧
      ∃ text, SourceStore.readText store unit = .ok text ∧ o.Stands text := by
  obtain ⟨ids, henum, hmap, htexts⟩ :=
    extractRangeMap_describes (Java.resolverWith_stands files classpath hparse) h
  obtain ⟨-, rfl⟩ := MemoryStore.enumerate_eq_ok henum
  obtain ⟨hunit, hjava⟩ := List.mem_filter.1
    (hmap.present unit (RangeMap.mem_unitIds_of_mem_occurrences ho))
  obtain ⟨text, htext⟩ := htexts unit hunit hjava
  rw [isSource_eq_isJavaUnit]
  exact ⟨hjava, text, htext, hmap.holds unit text htext o ho⟩

theorem applies_of_extractRangeMap
    (h : extractRangeMap store (Java.resolverWith parse files classpath) tolerance = .ok e) :
    e.rangeMap.Applies store := by
  obtain ⟨ids, henum, hfits, -⟩ :=
    extractRangeMap_fits (Java.resolverWith_faithful files classpath hparse.within) h
  obtain ⟨-, rfl⟩ := MemoryStore.enumerate_eq_ok henum
  refine ⟨hfits, fun unit o ho => ?_, extractRangeMap_ordered h⟩
  obtain ⟨-, text, -, hstands⟩ := stands_of_extractRangeMap hparse h false ho
  exact hstands.start_le_stop

/-- With a table that keeps names, the substitutions put types into other spellings. -/
theorem asked_iff_of_keepsName
    (h : extractRangeMap store (Java.resolverWith parse files classpath) tolerance = .ok e)
    {table : RenameTable}
    (hkeeps : ∀ unit, ∀ o ∈ e.rangeMap.occurrences unit, table.KeepsName o)
    (overwriteUnmapped : Bool) (entry : RenameEntry) :
    entry.Asked store e.rangeMap table { overwriteUnmapped } ↔
      ∃ text, SourceStore.readText store entry.unit = .ok text ∧
        ∃ o ∈ e.rangeMap.occurrences entry.unit, entry.Respells text o := by
  have hstands : ∀ {text}, SourceStore.readText store entry.unit = .ok text →
      ∀ o ∈ e.rangeMap.occurrences entry.unit, o.Stands text := by
    intro text htext o ho
    obtain ⟨-, text', htext', hstands⟩ := stands_of_extractRangeMap hparse h overwriteUnmapped ho
    rw [htext] at htext'
    cases htext'
    exact hstands
  constructor
  · rintro ⟨-, text, htext, o, ho, hentry⟩
    refine ⟨text, htext, o, ho, ?_⟩
    exact ((hkeeps _ o ho).substitution?_eq_some_iff (hstands htext o ho)).1 hentry
  · rintro ⟨text, htext, o, ho, hentry⟩
    refine ⟨(stands_of_extractRangeMap hparse h overwriteUnmapped ho).1, text, htext, o, ho, ?_⟩
    exact ((hkeeps _ o ho).substitution?_eq_some_iff (hstands htext o ho)).2 hentry

end Extracted

/-- A table that keeps the names of the map of an extraction substitutes nothing but types that are
written in another way than their binary names are spelled, and all of these. A run without such
types leaves every unit as it was, in place or in an empty store. -/
theorem applyTable_keepsNames (store : MemoryStore)
    (hids : ∀ unit ∈ store.units.keys, UnitId.isValid unit = true)
    {parse : String → Option Java.Node} (hparse : Java.ReadsWhole parse) (files : FileTree)
    (classpath : List String) (tolerance : Tolerance) (e : Extraction)
    (hextract : extractRangeMap store (Java.resolverWith parse files classpath) tolerance = .ok e)
    (table : RenameTable)
    (hkeeps : ∀ unit, ∀ o ∈ e.rangeMap.occurrences unit, table.KeepsName o)
    (overwriteUnmapped : Bool) :
    ∀ run ∈ [(ApplyTarget.inPlace, store), (ApplyTarget.separate, ({} : MemoryStore))],
      ∃ done : ApplyReport × MemoryStore,
        applyTable run.1 store run.2 e.rangeMap table { overwriteUnmapped } = .ok done ∧
        (∀ entry, entry ∈ done.1.log ↔ ∃ text, SourceStore.readText store entry.unit = .ok text ∧
          ∃ o ∈ e.rangeMap.occurrences entry.unit, entry.Respells text o) ∧
        (done.1.log = [] → done.2.units = store.units) := by
  obtain ⟨ids, henum, -, -⟩ :=
    extractRangeMap_fits (Java.resolverWith_faithful files classpath hparse.within) hextract
  obtain ⟨hopen, rfl⟩ := MemoryStore.enumerate_eq_ok henum
  have happlies := applies_of_extractRangeMap hparse hextract
  intro run hrun
  have houtput : run.2 = store ∨ run.1 = .separate ∧ run.2.units = .empty := by
    simp only [List.mem_cons, List.not_mem_nil, or_false] at hrun
    rcases hrun with rfl | rfl
    · exact .inl rfl
    · exact .inr ⟨rfl, rfl⟩
  have hdone := applyTable_eq_foldl henum run.1 run.2 e.rangeMap table { overwriteUnmapped }
  refine ⟨_, hdone, fun entry => ?_, units_applyTable happlies hopen hids houtput hdone⟩
  rw [mem_log_applyTable happlies hopen hids hdone,
    asked_iff_of_keepsName hparse hextract hkeeps overwriteUnmapped]

/-! ## Runs on one unit -/

/-- An extraction of one unit whose names are all bound, in the order of the text. -/
theorem extractRangeMap_of_single {store : MemoryStore} {resolver : Resolver} {u : SourceUnit}
    {os : List Occurrence} (hunits : readUnits store resolver.handles = .ok [u])
    (hresolve : resolver.resolve [u] = .ok [(u.id, { occurrences := os })])
    (horder : firstDisorder none os = none) :
    extractRangeMap store resolver {} = .ok
      { rangeMap := ⟨.ofList [(u.id, os)]⟩,
        stats := { units := 1, occurrences := os.length } } := by
  have hinsert : RangeMap.empty.insertUnit u.id os = .ok ⟨.ofList [(u.id, os)]⟩ :=
    RangeMap.insertUnit_eq_ok_iff.2 ⟨by simp, horder, rfl⟩
  have hratio : decide (Float.ofNat 0 / Float.ofNat 1 > 0.5) = false := by decide +kernel
  have hadd : Extraction.addUnits { stats := { units := 1 } } [(u.id, { occurrences := os })] =
      .ok { rangeMap := ⟨.ofList [(u.id, os)]⟩,
            stats := { units := 1, occurrences := os.length } } := by
    simp [Extraction.addUnits, Extraction.addUnit, orderOccurrences_of_ordered horder, hinsert,
      Except.map]
  simp [extractRangeMap, hunits, hresolve, hadd, Tolerance.exceeded, hratio]

/-- A type, a field, a local variable and a member type. -/
def memberTypeUnit : SourceUnit := ⟨"A.java", "class A { int f; { int x; } class B { } }"⟩

def memberTypeOccurrences : List Occurrence :=
  [⟨⟨6, 7⟩, "A", .type, []⟩, ⟨⟨14, 15⟩, "A.f", .field, []⟩,
    ⟨⟨23, 24⟩, "A.<instinit>()V@x:0", .localVariable, []⟩, ⟨⟨34, 35⟩, "A$B", .type, []⟩]

def memberTypeTable : RenameTable := RenameTable.empty.insertAll
  [.symbol "A" "A", .symbol "A.f" "f", .symbol "A.<instinit>()V@x:0" "x", .symbol "A$B" "A$B"]

/-- The store with one unit. -/
def SourceUnit.store (u : SourceUnit) : MemoryStore where
  units := .ofList [(u.id, Bytes.ofText u.text)]

theorem applyTable_keepsNames_memberType :
    ∃ e, extractRangeMap memberTypeUnit.store (Java.resolver {} []) {} = .ok e ∧
      e.rangeMap.occurrences "A.java" = memberTypeOccurrences ∧
      ∀ run ∈ [(ApplyTarget.inPlace, memberTypeUnit.store), (ApplyTarget.separate, {})],
        ∃ done : ApplyReport × MemoryStore,
          applyTable run.1 memberTypeUnit.store run.2 e.rangeMap memberTypeTable {} = .ok done ∧
          (∀ entry, entry ∈ done.1.log ↔
            ∃ text, SourceStore.readText memberTypeUnit.store entry.unit = .ok text ∧
              ∃ o ∈ e.rangeMap.occurrences entry.unit, entry.Respells text o) ∧
          (done.1.log = [] → done.2.units = memberTypeUnit.store.units) := by
  have hresolve : (Java.resolver {} []).resolve [memberTypeUnit] =
      .ok [("A.java", { occurrences := memberTypeOccurrences })] := by decide +kernel
  have hunits : readUnits memberTypeUnit.store (Java.resolver {} []).handles =
      .ok [memberTypeUnit] := by decide +kernel
  have hextract := extractRangeMap_of_single hunits hresolve (by decide)
  have hkeeps : ∀ r ∈ (⟨.ofList [("A.java", memberTypeOccurrences)]⟩ : RangeMap).records,
      memberTypeTable.KeepsName r.2 := by decide +kernel
  refine ⟨_, hextract, rfl, ?_⟩
  exact applyTable_keepsNames memberTypeUnit.store (by decide +kernel) Java.readsWhole_ofText? {} []
    {} _ hextract memberTypeTable
    (fun unit o ho => hkeeps (unit, o) (RangeMap.mem_records_iff.2 ho)) false

/-- A local type. -/
def localTypeUnit : SourceUnit := ⟨"A.java", "class A { { class B { } } }"⟩

def localTypeOccurrences : List Occurrence :=
  [⟨⟨6, 7⟩, "A", .type, []⟩, ⟨⟨18, 19⟩, "A$1B", .type, []⟩]

def localTypeTable : RenameTable :=
  RenameTable.empty.insertAll [.symbol "A" "A", .symbol "A$1B" "A$1B"]

/-- A local type is given its number as a part of its name, although the table keeps all names. -/
theorem localType_respelled :
    ∃ e, extractRangeMap localTypeUnit.store (Java.resolver {} []) {} = .ok e ∧
      (∀ unit, ∀ o ∈ e.rangeMap.occurrences unit, localTypeTable.KeepsName o) ∧
      ∃ done : ApplyReport × MemoryStore,
        applyInPlace localTypeUnit.store e.rangeMap localTypeTable {} = .ok done ∧
        done.1.log = [⟨"B", "1B", "A.java", 18⟩] ∧
        done.2.units = .ofList [("A.java", Bytes.ofText "class A { { class 1B { } } }")] := by
  have hresolve : (Java.resolver {} []).resolve [localTypeUnit] =
      .ok [("A.java", { occurrences := localTypeOccurrences })] := by decide +kernel
  have hunits : readUnits localTypeUnit.store (Java.resolver {} []).handles =
      .ok [localTypeUnit] := by decide +kernel
  have hkeeps : ∀ r ∈ (⟨.ofList [("A.java", localTypeOccurrences)]⟩ : RangeMap).records,
      localTypeTable.KeepsName r.2 := by decide +kernel
  refine ⟨_, extractRangeMap_of_single hunits hresolve (by decide),
    fun unit o ho => hkeeps (unit, o) (RangeMap.mem_records_iff.2 ho), ?_⟩
  exact ⟨_, rfl, by decide +kernel, by decide +kernel⟩

end Renaming
