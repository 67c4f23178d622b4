import Renaming.Proofs.Java.QualifiedNames

/-!
# Package tables

An index is what entries make of it: types, and links of member types. The catalogue, a class path
and units are entered in this order, so no entry is outranked by what is there, and whether a type
is at the top level is told by the last entry for it. The table of a package is only ever added to.
So it leads to types of the package, but also to a type that was at the top level once and that a
later entry has put inside of another one.
-/

namespace Renaming.Java

/-- What is entered into an index: a type, or the link of a member type. -/
inductive IndexEntry where
  | type (d : TypeDeclaration)
  | link (outer simple inner : String)

namespace IndexEntry

/-- The type that an entry is for. -/
def binary : IndexEntry → String
  | type d => d.binary
  | link _ _ inner => inner

@[simp] theorem binary_type (d : TypeDeclaration) : (type d).binary = d.binary := rfl

@[simp] theorem binary_link (outer simple inner : String) :
    (link outer simple inner).binary = inner := rfl

/-- Whether an entry puts its type at the top level. -/
def isTopLevel : IndexEntry → Bool
  | type d => d.outer.isNone && !d.isLocal
  | link .. => false

/-- Whether an entry puts its type into the table of a package under a simple name. -/
def isNamed (package simple : String) : IndexEntry → Bool
  | type d =>
    (d.outer.isNone && !d.isLocal) && (packageOf d.binary == package && d.simple == simple)
  | link .. => false

def type? : IndexEntry → Option TypeDeclaration
  | type d => some d
  | link .. => none

/-- Types that are entered, and then the links of member types. -/
def ofTypes (ds : List TypeDeclaration) (links : List (String × String × String)) :
    List IndexEntry :=
  ds.map type ++ links.map fun (outer, simple, inner) => link outer simple inner

theorem filterMap_type?_ofTypes (ds : List TypeDeclaration)
    (links : List (String × String × String)) : (ofTypes ds links).filterMap type? = ds := by
  have htypes : (ds.map type).filterMap type? = ds := by
    rw [List.filterMap_map]
    exact List.filterMap_some
  have hlinks : (links.map fun (outer, simple, inner) => link outer simple inner).filterMap type? =
      [] := by
    simp [type?]
  rw [ofTypes, List.filterMap_append, htypes, hlinks, List.append_nil]

end IndexEntry

/-- The last entry that passes a test. -/
def lastWith? (test : IndexEntry → Bool) (entries : List IndexEntry) : Option IndexEntry :=
  entries.reverse.find? test

/-- Whether the last entry for a type puts it at the top level. -/
def EndsAtTopLevel (entries : List IndexEntry) (binary : String) : Prop :=
  (lastWith? (·.binary == binary) entries).map IndexEntry.isTopLevel = some true

theorem lastWith?_concat (test : IndexEntry → Bool) (entries : List IndexEntry) (e : IndexEntry) :
    lastWith? test (entries ++ [e]) = if test e then some e else lastWith? test entries := by
  rw [lastWith?, List.reverse_concat, List.find?_cons]
  cases test e <;> rfl

theorem lastWith?_append (test : IndexEntry → Bool) (entries later : List IndexEntry) :
    lastWith? test (entries ++ later) = (lastWith? test later).or (lastWith? test entries) := by
  rw [lastWith?, List.reverse_append, List.find?_append]
  rfl

namespace TypeIndex

def enter (index : TypeIndex) : IndexEntry → TypeIndex
  | .type d => index.insert d
  | .link outer simple inner => index.addMember outer simple inner

theorem foldl_enter_ofTypes (index : TypeIndex) (ds : List TypeDeclaration)
    (links : List (String × String × String)) :
    (IndexEntry.ofTypes ds links).foldl enter index = (index.insertAll ds).addMembers links := by
  rw [IndexEntry.ofTypes, List.foldl_append, List.foldl_map, List.foldl_map]
  rfl

/-- What an index has of the types that were entered. -/
structure Records (index : TypeIndex) (entries : List IndexEntry) : Prop where
  table : ∀ package simple, index.topLevel? package simple =
    (lastWith? (·.isNamed package simple) entries).map IndexEntry.binary
  isTopLevel : ∀ {binary d}, index.get? binary = some d →
    ((d.outer.isNone && !d.isLocal) = true ↔ EndsAtTopLevel entries binary)
  contains : ∀ {d}, .type d ∈ entries → index.contains d.binary = true
  origin : ∀ {binary d}, index.get? binary = some d →
    ∃ e ∈ entries.filterMap IndexEntry.type?, e.origin = d.origin

namespace Records

variable {index : TypeIndex} {entries : List IndexEntry} {d : TypeDeclaration}

theorem empty : Records {} [] where
  table _ _ := rfl
  isTopLevel h := by cases h
  contains h := by cases h
  origin h := by cases h

theorem outranked_eq_false (h : index.Records entries)
    (hrank : ∀ e ∈ entries.filterMap IndexEntry.type?, e.origin.rank ≤ d.origin.rank) :
    index.outranked d = false := by
  rw [outranked, Option.any_eq_false]
  intro existing hget
  obtain ⟨e, he, horigin⟩ := h.origin hget
  have hle := hrank e he
  rw [horigin] at hle
  simpa using hle

/-- A type that is not outranked is entered. -/
theorem type (h : index.Records entries)
    (hrank : ∀ e ∈ entries.filterMap IndexEntry.type?, e.origin.rank ≤ d.origin.rank) :
    (index.insert d).Records (entries ++ [.type d]) where
  table package simple := by
    rw [topLevel?_insert, lastWith?_concat, h.outranked_eq_false hrank, IndexEntry.isNamed,
      h.table]
    simp only [true_and, Bool.and_eq_true, beq_iff_eq, eq_comm (a := package),
      eq_comm (a := simple)]
    split <;> rfl
  isTopLevel := by
    intro binary d' hget
    rw [get?_insert, h.outranked_eq_false hrank, if_neg Bool.false_ne_true] at hget
    rw [EndsAtTopLevel, lastWith?_concat, IndexEntry.binary_type]
    split at hget
    · rename_i hbinary
      cases hget
      rw [if_pos (beq_iff_eq.2 (eq_of_beq hbinary).symm)]
      exact Option.some_inj.symm
    · rename_i hbinary
      rw [if_neg fun heq => hbinary (beq_iff_eq.2 (eq_of_beq heq).symm)]
      exact h.isTopLevel hget
  contains := by
    intro e he
    rw [contains_insert, Bool.or_eq_true, beq_iff_eq]
    rcases List.mem_append.1 he with he | he
    · exact .inr (h.contains he)
    · cases List.mem_singleton.1 he
      exact .inl rfl
  origin := by
    intro binary d' hget
    rw [get?_insert, h.outranked_eq_false hrank, if_neg Bool.false_ne_true] at hget
    rw [List.filterMap_append]
    split at hget
    · cases hget
      exact ⟨d, List.mem_append_right _ (List.mem_singleton_self d), rfl⟩
    · obtain ⟨e, he, horigin⟩ := h.origin hget
      exact ⟨e, List.mem_append_left _ he, horigin⟩

/-- A link puts its type inside of another one. -/
theorem link (h : index.Records entries) (outer simple inner : String) :
    (index.addMember outer simple inner).Records (entries ++ [.link outer simple inner]) where
  table package simple' := by
    rw [topLevel?_addMember, lastWith?_concat, IndexEntry.isNamed, if_neg Bool.false_ne_true,
      h.table]
  isTopLevel := by
    intro binary d' hget
    rw [get?_addMember] at hget
    obtain ⟨d, hbefore, rfl⟩ := Option.map_eq_some_iff.1 hget
    rw [EndsAtTopLevel, lastWith?_concat, IndexEntry.binary_link]
    dsimp only
    by_cases hinner : binary = inner
    · rw [if_pos hinner, if_pos (beq_iff_eq.2 hinner.symm)]
      cases d.outer <;> simp [IndexEntry.isTopLevel]
    · rw [if_neg hinner, if_neg fun heq => hinner (eq_of_beq heq).symm]
      exact h.isTopLevel hbefore
  contains := by
    intro e he
    rw [contains_addMember]
    rcases List.mem_append.1 he with he | he
    · exact h.contains he
    · cases List.mem_singleton.1 he
  origin := by
    intro binary d' hget
    rw [get?_addMember] at hget
    obtain ⟨d, hbefore, rfl⟩ := Option.map_eq_some_iff.1 hget
    obtain ⟨e, he, horigin⟩ := h.origin hbefore
    exact ⟨e, by rw [List.filterMap_append]; exact List.mem_append_left _ he, horigin⟩

/-- The table of a package leads to types of this package that were entered. -/
theorem spec_of_topLevel? (h : index.Records entries) {package simple binary : String}
    (hfound : index.topLevel? package simple = some binary) :
    index.contains binary = true ∧ packageOf binary = package := by
  rw [h.table] at hfound
  obtain ⟨e, he, rfl⟩ := Option.map_eq_some_iff.1 hfound
  have hmem := List.mem_reverse.1 (List.mem_of_find?_eq_some he)
  have hnamed := List.find?_some he
  cases e with
  | type d =>
    simp only [IndexEntry.isNamed, Bool.and_eq_true, beq_iff_eq] at hnamed
    exact ⟨h.contains hmem, hnamed.2.1⟩
  | link outer simple inner => cases hnamed

/-- Entries of one origin are recorded after those of no higher origin. -/
theorem enterAll {o : Origin} {later : List IndexEntry} (h : index.Records entries)
    (hentries : ∀ d ∈ entries.filterMap IndexEntry.type?, d.origin.rank ≤ o.rank)
    (hlater : ∀ d ∈ later.filterMap IndexEntry.type?, d.origin = o) :
    (later.foldl enter index).Records (entries ++ later) := by
  induction later generalizing index entries with
  | nil =>
    rw [List.append_nil]
    exact h
  | cons e rest ih =>
    have hrest : ∀ d ∈ rest.filterMap IndexEntry.type?, d.origin = o := by
      intro d hd
      obtain ⟨e', he', htype⟩ := List.mem_filterMap.1 hd
      exact hlater d (List.mem_filterMap.2 ⟨e', List.mem_cons_of_mem e he', htype⟩)
    rw [List.foldl_cons, List.append_cons]
    cases e with
    | type d =>
      have hd : d.origin = o := hlater d List.mem_cons_self
      refine ih (h.type fun e he => hd ▸ hentries e he) ?_ hrest
      intro e he
      rw [List.filterMap_append] at he
      rcases List.mem_append.1 he with he | he
      · exact hentries e he
      · rw [List.mem_singleton.1 he, hd]
    | link outer simple inner =>
      refine ih (h.link outer simple inner) ?_ hrest
      rw [List.filterMap_append]
      simpa [IndexEntry.type?] using hentries

theorem ofTypes {o : Origin} {ds : List TypeDeclaration} (h : index.Records entries)
    (hentries : ∀ d ∈ entries.filterMap IndexEntry.type?, d.origin.rank ≤ o.rank)
    (hds : ∀ d ∈ ds, d.origin = o) (links : List (String × String × String)) :
    ((index.insertAll ds).addMembers links).Records (entries ++ IndexEntry.ofTypes ds links) := by
  rw [← foldl_enter_ofTypes]
  refine h.enterAll hentries ?_
  rwa [IndexEntry.filterMap_type?_ofTypes]

end Records

end TypeIndex

namespace Program

/-- What is entered for types that are installed. -/
def installEntries (ds : List TypeDeclaration) : List IndexEntry :=
  IndexEntry.ofTypes ds (ds.filterMap TypeIndex.memberLink?)

/-- What is entered for units. -/
def unitEntries (parsed : List ParsedUnit) : List IndexEntry :=
  let found := parsed.flatMap ParsedUnit.registered
  IndexEntry.ofTypes (found.map RegisteredType.declaration)
    (found.filterMap RegisteredType.memberLink?)

/-- What is entered for the catalogue, a class path and units. -/
def entries (classes : List ClassFile) (parsed : List ParsedUnit) : List IndexEntry :=
  installEntries Catalogue.declarations ++ installEntries (Classpath.declarations classes) ++
    unitEntries parsed

theorem records_catalogue :
    TypeIndex.catalogue.Records (installEntries Catalogue.declarations) := by
  rw [TypeIndex.catalogue, TypeIndex.install, installEntries,
    ← List.nil_append (IndexEntry.ofTypes _ _)]
  exact TypeIndex.Records.empty.ofTypes (o := .catalogue) (by simp)
    (fun d hd => (Catalogue.spec_of_mem_declarations hd).2) _

theorem rank_of_mem_catalogue {d : TypeDeclaration}
    (hd : d ∈ (installEntries Catalogue.declarations).filterMap IndexEntry.type?) :
    d.origin.rank ≤ Origin.library.rank := by
  rw [installEntries, IndexEntry.filterMap_type?_ofTypes] at hd
  rw [(Catalogue.spec_of_mem_declarations hd).2]
  decide

/-- The program of some units on top of a class path and the catalogue. -/
def ofClasses (classes : List ClassFile) (parsed : List ParsedUnit) : Program :=
  ofUnits (TypeIndex.catalogue.install (Classpath.declarations classes)) parsed

/-- What the index of a program has is what was entered; supertypes and members are read later, and
leave the place of a type. -/
theorem records_register (classes : List ClassFile) (parsed : List ParsedUnit) :
    ((TypeIndex.catalogue.install (Classpath.declarations classes)).register parsed).Records
      (entries classes parsed) := by
  have hclasspath : (TypeIndex.catalogue.install (Classpath.declarations classes)).Records
      (installEntries Catalogue.declarations ++ installEntries (Classpath.declarations classes)) :=
    records_catalogue.ofTypes (o := .library) (fun d hd => rank_of_mem_catalogue hd)
      (fun d hd => (Classpath.spec_of_mem_declarations hd).2) _
  refine hclasspath.ofTypes (o := .source) (fun d _ => ?_) (fun d hd => ?_) _
  · cases d.origin <;> decide
  · obtain ⟨t, ht, rfl⟩ := List.mem_map.1 hd
    obtain ⟨p, -, ht⟩ := List.mem_flatMap.1 ht
    exact (p.regular_of_mem_registered ht).origin

theorem topLevel?_ofClasses (classes : List ClassFile) (parsed : List ParsedUnit)
    (package simple : String) : (ofClasses classes parsed).index.topLevel? package simple =
      (lastWith? (·.isNamed package simple) (entries classes parsed)).map IndexEntry.binary := by
  rw [ofClasses, topLevel?_index, entered, (records_register classes parsed).table]

section Place

variable {classes : List ClassFile} {parsed : List ParsedUnit} {binary : String}

/-- A type that is entered has the place that the last entry for it gives it: supertypes and members
are read later, and leave it. -/
theorem exists_place (h : ((TypeIndex.catalogue.install (Classpath.declarations classes)).register
      parsed).contains binary = true) :
    ∃ d, (ofClasses classes parsed).index.get? binary = some d ∧
      (d.outer = none ∧ d.isLocal = false ↔ EndsAtTopLevel (entries classes parsed) binary) := by
  rw [TypeIndex.contains_eq_isSome] at h
  obtain ⟨d, hget⟩ := Option.isSome_iff_exists.1 h
  let isTopLevel (d : TypeDeclaration) : Bool := d.outer.isNone && !d.isLocal
  have hplace : ((ofClasses classes parsed).index.get? binary).map isTopLevel =
      ((entered (TypeIndex.catalogue.install (Classpath.declarations classes)) parsed).get?
        binary).map isTopLevel :=
    part_index (fun _ _ => rfl) (fun _ _ _ => rfl) binary
  rw [entered, hget] at hplace
  obtain ⟨d', hget', hplace⟩ := Option.map_eq_some_iff.1 hplace
  refine ⟨d', hget', ?_⟩
  have hsame : (d.outer.isNone && !d.isLocal) = (d'.outer.isNone && !d'.isLocal) := hplace.symm
  rw [← (records_register classes parsed).isTopLevel hget, hsame]
  simp

/-- What is found in the table of a package was entered as a type of this package. -/
theorem spec_of_topLevel? {package simple : String}
    (h : (ofClasses classes parsed).index.topLevel? package simple = some binary) :
    ((TypeIndex.catalogue.install (Classpath.declarations classes)).register
      parsed).contains binary = true ∧ packageOf binary = package := by
  rw [ofClasses, topLevel?_index] at h
  exact (records_register classes parsed).spec_of_topLevel? h

end Place

/-- What is found in the table of a package is a type of this package. It is at the top level
exactly if the last entry for it, of the catalogue, the class path and the units in this order, puts
it there. -/
theorem package_tables_exact {classes : List ClassFile} {parsed : List ParsedUnit}
    {package simple binary : String}
    (h : (ofClasses classes parsed).index.topLevel? package simple = some binary) :
    packageOf binary = package ∧ ∃ d, (ofClasses classes parsed).index.get? binary = some d ∧
      (d.outer = none ∧ d.isLocal = false ↔ EndsAtTopLevel (entries classes parsed) binary) := by
  obtain ⟨hcontains, hpackage⟩ := spec_of_topLevel? h
  exact ⟨hpackage, exists_place hcontains⟩

/-- A class that is not known to be nested in another one, by any record or by its name. -/
def strippedClass : ClassFile where
  access := 33
  name := "A$B"
  superclass := some objectName
  interfaces := []
  fields := []
  methods := []
  nestings := []
  signature := none

/-- A class with a member class. -/
def nestingUnit : ParsedUnit := .ofText "A.java" "class A { class B { } }"

theorem lastWith?_nesting {β : Type} (test : IndexEntry → Bool) (f : IndexEntry → β) {b : β}
    (h : (lastWith? test (installEntries (Classpath.declarations [strippedClass]) ++
      unitEntries [nestingUnit])).map f = some b) :
    (lastWith? test (entries [strippedClass] [nestingUnit])).map f = some b := by
  obtain ⟨e, he, rfl⟩ := Option.map_eq_some_iff.1 h
  rw [entries, List.append_assoc, lastWith?_append, he, Option.some_or, Option.map_some]

theorem package_tables_exact_nesting :
    (ofClasses [strippedClass] [nestingUnit]).index.topLevel? "" "A" = some "A" ∧
    ∃ d, (ofClasses [strippedClass] [nestingUnit]).index.get? "A" = some d ∧
      d.outer = none ∧ d.isLocal = false := by
  have hfacts : (lastWith? (·.isNamed "" "A") (installEntries (Classpath.declarations
        [strippedClass]) ++ unitEntries [nestingUnit])).map IndexEntry.binary = some "A" ∧
      (lastWith? (·.binary == "A") (installEntries (Classpath.declarations
        [strippedClass]) ++ unitEntries [nestingUnit])).map IndexEntry.isTopLevel = some true := by
    decide +kernel
  have htable : (ofClasses [strippedClass] [nestingUnit]).index.topLevel? "" "A" = some "A" := by
    rw [topLevel?_ofClasses]
    exact lastWith?_nesting _ _ hfacts.1
  obtain ⟨-, d, hget, hplace⟩ := package_tables_exact htable
  exact ⟨htable, d, hget, hplace.2 (lastWith?_nesting _ _ hfacts.2)⟩

/-- The table of the unnamed package still leads to the class when the unit has put it inside of its
own class. -/
theorem stale_package_table :
    (ofClasses [strippedClass] [nestingUnit]).index.topLevel? "" "B" = some "A$B" ∧
    ∃ d, (ofClasses [strippedClass] [nestingUnit]).index.get? "A$B" = some d ∧
      ¬ (d.outer = none ∧ d.isLocal = false) := by
  have hfacts : (lastWith? (·.isNamed "" "B") (installEntries (Classpath.declarations
        [strippedClass]) ++ unitEntries [nestingUnit])).map IndexEntry.binary = some "A$B" ∧
      (lastWith? (·.binary == "A$B") (installEntries (Classpath.declarations
        [strippedClass]) ++ unitEntries [nestingUnit])).map IndexEntry.isTopLevel = some false := by
    decide +kernel
  have htable : (ofClasses [strippedClass] [nestingUnit]).index.topLevel? "" "B" = some "A$B" := by
    rw [topLevel?_ofClasses]
    exact lastWith?_nesting _ _ hfacts.1
  obtain ⟨d, hget, hplace⟩ := exists_place (spec_of_topLevel? htable).1
  refine ⟨htable, d, hget, fun htop => ?_⟩
  have hends := hplace.1 htop
  rw [EndsAtTopLevel, lastWith?_nesting _ _ hfacts.2] at hends
  cases hends

end Program

end Renaming.Java
