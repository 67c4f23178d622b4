import Renaming.Proofs.Java.QualifiedNames

/-!
# Imports of unknown types

Where capital letters tell types and packages apart, an import spells the binary name that it is
resolved to, so its type can be named without the library that declares it. The name is looked up
last, however: a type of the same name in the package of the unit, in a package that is imported on
demand, or in the package that every unit imports hides an unknown import, while it does not hide a
known one. Where there is no such type, a method has the same signature with the library and
without it.
-/

namespace Renaming.Java

/-- Whether a name starts with a capital letter. -/
def isCapitalized (name : String) : Bool := (name.toList.head?).any Text.isCapital

/-! ## Binary names that are spelled out -/

/-- An index in which capital letters tell types and packages apart, and binary names tell where
types are declared. -/
structure TypeIndex.Conventional (index : TypeIndex) : Prop where
  topLevel : ∀ {package simple binary : String}, index.topLevel? package simple = some binary →
    (∀ s ∈ Text.fields '.' package, isCapitalized s = false) ∧ isCapitalized simple = true ∧
      binary = Registration.topLevelName package simple
  member : ∀ {outer simple inner : String} {d : TypeDeclaration}, index.get? outer = some d →
    d.members.get? simple = some inner →
      isCapitalized simple = true ∧ inner = outer ++ "$" ++ simple

namespace TypeIndex

theorem conventional_iff {index : TypeIndex} : index.Conventional ↔
    (∀ e ∈ index.topLevels.entries, ∀ t ∈ e.2.entries,
      (∀ s ∈ Text.fields '.' e.1, isCapitalized s = false) ∧ isCapitalized t.1 = true ∧
        t.2 = Registration.topLevelName e.1 t.1) ∧
    ∀ e ∈ index.types.entries, ∀ m ∈ e.2.members.entries,
      isCapitalized m.1 = true ∧ m.2 = e.1 ++ "$" ++ m.1 := by
  constructor
  · intro h
    refine ⟨fun e he t ht => h.topLevel (Option.bind_eq_some_iff.2 ⟨e.2, ?_, ?_⟩),
      fun e he m hm => h.member (SortedMap.get?_of_mem he) (SortedMap.get?_of_mem hm)⟩
    · exact SortedMap.get?_of_mem he
    · exact SortedMap.get?_of_mem ht
  · rintro ⟨htop, hmember⟩
    refine ⟨fun {package simple binary} h => ?_, fun {outer simple inner d} hd h => ?_⟩
    · obtain ⟨table, htable, h⟩ := Option.bind_eq_some_iff.1 h
      exact htop (package, table) (SortedMap.get?_eq_some_iff.1 htable) (simple, binary)
        (SortedMap.get?_eq_some_iff.1 h)
    · exact hmember (outer, d) (SortedMap.get?_eq_some_iff.1 hd) (simple, inner)
        (SortedMap.get?_eq_some_iff.1 h)

instance (index : TypeIndex) : Decidable index.Conventional :=
  decidable_of_iff _ conventional_iff.symm

/-- The names of member types follow that of the type they lead from. -/
theorem Conventional.eq_of_reaches {index : TypeIndex} (hindex : index.Conventional)
    {owner binary : String} {members : List String} (h : index.Reaches owner members binary) :
    binary = owner ++ String.join (members.map ("$" ++ ·)) := by
  induction h with
  | here => simp
  | member hd hinner _ ih =>
    rw [ih, (hindex.member hd hinner).2, List.map_cons, String.join_cons]
    simp only [String.append_assoc]

end TypeIndex

/-- The first name with a capital letter is that of a type in a package. -/
theorem spelledBinary_append {package : List String} {top : String} (members : List String)
    (hpackage : ∀ s ∈ package, isCapitalized s = false) (htop : isCapitalized top = true) :
    spelledBinary (package ++ top :: members) =
      Text.join "." (package ++ [top]) ++ String.join (members.map ("$" ++ ·)) := by
  have hsplit : (package ++ top :: members).findIdx? isCapitalized = some package.length := by
    rw [List.findIdx?_append, List.findIdx?_eq_none_iff.2 hpackage, Option.none_or,
      List.findIdx?_cons, htop]
    simp
  change Text.join "." ((package ++ top :: members).take
      (((package ++ top :: members).findIdx? isCapitalized).getD _ + 1)) ++
    String.join (((package ++ top :: members).drop
      (((package ++ top :: members).findIdx? isCapitalized).getD _ + 1)).map ("$" ++ ·)) = _
  rw [hsplit, Option.getD_some, List.append_cons,
    List.take_left' (by simp), List.drop_left' (by simp)]

theorem join_topLevelName {package : List String} (hpackage : ∀ s ∈ package, s ≠ "")
    (top : String) : Text.join "." (package ++ [top]) =
      Registration.topLevelName (Text.join "." package) top := by
  cases package with
  | nil => simp [Text.join, Registration.topLevelName]
  | cons p rest =>
    have hjoined : (Text.join "." (p :: rest)).isEmpty = false := by
      obtain ⟨c, hc⟩ := List.exists_mem_of_ne_nil p.toList
        (by simpa using hpackage p List.mem_cons_self)
      have hmem := Text.mem_join_of_mem "." (List.mem_cons_self (a := p) (l := rest)) hc
      rw [← Bool.not_eq_true, String.isEmpty_iff]
      intro hempty
      rw [hempty] at hmem
      cases hmem
    rw [Registration.topLevelName, hjoined, if_neg Bool.false_ne_true, Text.join,
      String.intercalate_append_of_ne_nil (List.cons_ne_nil p rest) (List.cons_ne_nil top [])]
    rfl

/-- An import spells the name that it is resolved to. -/
theorem TypeIndex.Conventional.spelledBinary_eq {index : TypeIndex} (hindex : index.Conventional)
    {path : List String} (hpath : ∀ s ∈ path, s ≠ "" ∧ '.' ∉ s.toList) {binary : String}
    (h : index.resolveQualified? path = some binary) : spelledBinary path = binary := by
  obtain ⟨package, top, members, rfl, ⟨owner, htop, hreaches⟩, -⟩ :=
    TypeIndex.resolveQualified?_eq_some_iff.1 h
  have hparts : ∀ s ∈ package, s ≠ "" ∧ '.' ∉ s.toList :=
    fun s hs => hpath s (List.mem_append_left _ hs)
  obtain ⟨hlower, hupper, rfl⟩ := hindex.topLevel htop
  have hpackage : ∀ s ∈ package, isCapitalized s = false := by
    intro s hs
    refine hlower s ?_
    rwa [Text.fields_join "." '.' rfl (List.ne_nil_of_mem hs) fun p hp => (hparts p hp).2]
  rw [spelledBinary_append members hpackage hupper, join_topLevelName fun s hs => (hparts s hs).1,
    hindex.eq_of_reaches hreaches]

/-! ## What a name stands for where it is imported -/

/-- Whether a declaration imports a single type by its last name. -/
def ImportDeclaration.names (d : ImportDeclaration) (name : String) : Bool :=
  !d.isStatic && !d.onDemand && d.segments.getLast? == some name

namespace Imports

/-- The type that the import of a name is resolved to. -/
def known? (index : TypeIndex) (name : String) (d : ImportDeclaration) : Option String :=
  if d.names name then index.resolveQualified? d.segments else none

/-- The type that the import of a name spells, if it is not resolved. -/
def spelled? (index : TypeIndex) (name : String) (d : ImportDeclaration) : Option String :=
  if d.names name && (index.resolveQualified? d.segments).isNone then
    some (spelledBinary d.segments)
  else none

theorem get?_add (index : TypeIndex) (name : String) (imports : Imports) (d : ImportDeclaration) :
    (imports.add index d).single.get? name = (known? index name d).or (imports.single.get? name) ∧
    (imports.add index d).unknown.get? name =
      (spelled? index name d).or (imports.unknown.get? name) := by
  obtain ⟨segments, isStatic, onDemand⟩ := d
  unfold add
  match isStatic, onDemand with
  | true, true =>
    dsimp only
    split <;> exact ⟨rfl, rfl⟩
  | true, false =>
    dsimp only
    split <;> exact ⟨rfl, rfl⟩
  | false, true => exact ⟨rfl, rfl⟩
  | false, false =>
    rcases Option.eq_none_or_eq_some segments.getLast? with hlast | ⟨last, hlast⟩
    · simp [known?, spelled?, ImportDeclaration.names, hlast]
    · have hnames : ImportDeclaration.names ⟨segments, false, false⟩ name = (last == name) := by
        simp [ImportDeclaration.names, hlast]
      have hget (m : SortedMap String String) (binary : String) :
          (m.insert last binary).get? name =
            (if last == name then some binary else none).or (m.get? name) := by
        rw [SortedMap.get?_insert, BEq.comm]
        split <;> rfl
      cases hresolved : index.resolveQualified? segments with
      | none => simp [known?, spelled?, hnames, hlast, hresolved, hget]
      | some binary => simp [known?, spelled?, hnames, hlast, hresolved, hget]

/-- The last import of a name that is resolved tells what is known by it, and the last one that is
not resolved tells how an unknown type of this name is spelled. -/
theorem get?_resolve (index : TypeIndex) (name : String) (declarations : List ImportDeclaration) :
    (resolve index declarations).single.get? name =
      declarations.reverse.findSome? (known? index name) ∧
    (resolve index declarations).unknown.get? name =
      declarations.reverse.findSome? (spelled? index name) := by
  induction declarations using List.reverseRecOn with
  | nil => exact ⟨rfl, rfl⟩
  | append_singleton declarations d ih =>
    have hadd := get?_add index name (resolve index declarations) d
    rw [ih.1, ih.2] at hadd
    rw [List.reverse_append, List.reverse_singleton, List.findSome?_append, List.findSome?_append,
      List.findSome?_singleton, List.findSome?_singleton, resolve, List.foldl_append]
    exact hadd

end Imports

/-- A path is imported, and no other one under its last name. -/
structure ImportedOnce (declarations : List ImportDeclaration) (path : List String)
    (name : String) : Prop where
  last : path.getLast? = some name
  mem : ⟨path, false, false⟩ ∈ declarations
  unique : ∀ d ∈ declarations, d.names name = true → d.segments = path

namespace ImportedOnce

variable {declarations : List ImportDeclaration} {path : List String} {name : String}
  (h : ImportedOnce declarations path name) {index : TypeIndex}
include h

theorem names : ImportDeclaration.names ⟨path, false, false⟩ name = true := by
  simp [ImportDeclaration.names, h.last]

/-- Of the declarations that import the name, all say what the path says. -/
theorem findSome?_eq {f : ImportDeclaration → Option String} {binary : String}
    (hpath : f ⟨path, false, false⟩ = some binary)
    (hf : ∀ d ∈ declarations, ∀ other, f d = some other → other = binary) :
    declarations.reverse.findSome? f = some binary := by
  have hsome : (declarations.reverse.findSome? f).isSome = true :=
    List.findSome?_isSome_iff.2 ⟨_, List.mem_reverse.2 h.mem, by rw [hpath]; rfl⟩
  obtain ⟨other, hother⟩ := Option.isSome_iff_exists.1 hsome
  obtain ⟨d, hd, hdother⟩ := List.exists_of_findSome?_eq_some hother
  rw [hother, hf d (List.mem_reverse.1 hd) other hdother]

theorem get?_single {binary : String} (hknown : index.resolveQualified? path = some binary) :
    (Imports.resolve index declarations).single.get? name = some binary := by
  rw [(Imports.get?_resolve index name declarations).1]
  refine h.findSome?_eq ?_ fun d hd other hother => ?_
  · rw [Imports.known?, if_pos h.names, hknown]
  · rw [Imports.known?] at hother
    split at hother
    · rename_i hnames
      rw [h.unique d hd hnames, hknown] at hother
      exact (Option.some.inj hother).symm
    · cases hother

theorem get?_single_eq_none (hunknown : index.resolveQualified? path = none) :
    (Imports.resolve index declarations).single.get? name = none := by
  rw [(Imports.get?_resolve index name declarations).1, List.findSome?_eq_none_iff]
  intro d hd
  rw [Imports.known?]
  split
  · rename_i hnames
    rw [h.unique d (List.mem_reverse.1 hd) hnames, hunknown]
  · rfl

theorem get?_unknown (hunknown : index.resolveQualified? path = none) :
    (Imports.resolve index declarations).unknown.get? name = some (spelledBinary path) := by
  rw [(Imports.get?_resolve index name declarations).2]
  refine h.findSome?_eq ?_ fun d hd other hother => ?_
  · rw [Imports.spelled?, if_pos (by rw [h.names, hunknown]; rfl)]
  · rw [Imports.spelled?] at hother
    split at hother
    · rename_i hnames
      rw [h.unique d hd (Bool.and_eq_true_iff.1 hnames).1] at hother
      exact (Option.some.inj hother).symm
    · cases hother

end ImportedOnce

/-- The type that a name stands for by the package of the unit, by what is imported on demand, or by
the package that every unit imports. -/
def TypeScope.byPackage? (index : TypeIndex) (header : UnitHeader) (name : String) :
    Option String :=
  index.topLevel? header.package name
    |>.or (header.imports.onDemand.findSome? (onDemand? index name))
    |>.or (index.topLevel? "java.lang" name)

theorem TypeScope.resolveGlobal?_eq (index : TypeIndex) (header : UnitHeader) (name : String) :
    resolveGlobal? index header name =
      (header.imports.single.get? name).or (byPackage? index header name) := by
  rw [resolveGlobal?, byPackage?, Option.or_assoc, Option.or_assoc, Option.or_assoc]

namespace TypeContext

/-- A place among scopes in a unit that imports what it declares. -/
def importing (index : TypeIndex) (source : SourceText) (package : String)
    (declarations : List ImportDeclaration) (frames : List TypeFrame) : TypeContext :=
  ⟨index, source, ⟨⟨package, .resolve index declarations⟩, frames⟩⟩

section Names

variable {declarations : List ImportDeclaration} {path : List String} {name : String}
  {index : TypeIndex} {source : SourceText} {package : String} {frames : List TypeFrame}

/-- The import of a known type tells what its name stands for. -/
theorem named?_of_known (h : ImportedOnce declarations path name) {binary : String}
    (hknown : index.resolveQualified? path = some binary)
    (hframes : frames.findSome? (TypeFrame.find? index name) = none) :
    (importing index source package declarations frames).named? name = some (.raw binary) := by
  rw [named?, importing, TypeScope.resolveSimple?, hframes, TypeScope.resolveGlobal?_eq,
    h.get?_single hknown]
  rfl

/-- The import of an unknown type tells what its name stands for if nothing else does. -/
theorem named?_of_unknown (h : ImportedOnce declarations path name)
    (hunknown : index.resolveQualified? path = none)
    (hframes : frames.findSome? (TypeFrame.find? index name) = none) :
    (importing index source package declarations frames).named? name =
      some (.raw ((TypeScope.byPackage? index ⟨package, .resolve index declarations⟩ name).getD
        (spelledBinary path))) := by
  rw [named?, importing, TypeScope.resolveSimple?, hframes, Option.none_or,
    TypeScope.resolveGlobal?_eq, h.get?_single_eq_none hunknown, Option.none_or]
  dsimp only
  cases TypeScope.byPackage? index ⟨package, .resolve index declarations⟩ name with
  | some other => rfl
  | none => rw [Option.map_none, h.get?_unknown hunknown]; rfl

end Names

section Methods

variable {T : Node → Prop} [Descends T] {ctx ctx' : TypeContext} (h : ctx.AgreeOn T ctx')
include h

theorem parameterTypes?_eq {params : Node} (hn : T params) :
    ctx.parameterTypes? params = ctx'.parameterTypes? params := by
  have htype (n : Node) (hn : T n) : ctx.parameterType? n = ctx'.parameterType? n := by
    unfold parameterType? dims
    rw [h.source]
    split
    · cases htype : n.child? .type with
      | none => rfl
      | some type =>
        rw [Option.map_some, Option.map_some, type?_eq h (Descends.child hn _ type htype)]
    · cases htype : n.namedChildren.find? (·.kind.isType) with
      | none => rfl
      | some type =>
        rw [Option.map_some, Option.map_some,
          type?_eq h (Descends.named hn type (List.mem_of_find?_eq_some htype))]
    · rfl
  rw [parameterTypes?, parameterTypes?,
    List.filterMap_congr fun n hmem => htype n (Descends.named hn n hmem)]

theorem resultType?_eq {n : Node} (hn : T n) : ctx.resultType? n = ctx'.resultType? n := by
  unfold resultType? dims
  rw [h.source]
  split
  · rfl
  · cases htype : (n.child? .type).filter (·.kind != .voidType) with
    | none => rfl
    | some type =>
      have hmem := Descends.child hn _ type (Option.mem_filter_iff.1 htype).1
      dsimp only
      rw [type?_eq h hmem]

/-- A declaration makes the same method where the names in it stand for the same types. -/
theorem method?_eq {n : Node} (hn : T n) (inInterface : Bool) :
    ctx.method? inInterface n = ctx'.method? inInterface n := by
  have hvars : (ctx.parametersOf n).value = (ctx'.parametersOf n).value :=
    (agree_parametersOf h hn).value_eq
  have hinner := h.push_typeVars (ctx'.parametersOf n).value
  have htext : ctx'.text = ctx.text := funext h.text
  unfold method?
  rw [hvars, htext]
  dsimp only
  rw [resultType?_eq hinner hn]
  cases hparams : n.child? .parameters with
  | none => rfl
  | some params =>
    dsimp only
    rw [parameterTypes?_eq hinner (Descends.child hn _ params hparams)]

end Methods

end TypeContext

/-- Where capital letters tell types and packages apart, an import spells the name that it is
resolved to. Its simple name stands for this type where the type is known, and also where it is not,
unless it stands for another type there by the package of the unit, by what is imported on demand,
or by the package that every unit imports. Where it does not, a declaration all of whose other names
stand for the same types makes the same method. -/
theorem imports_spell_what_they_name {known : TypeIndex} (hknown : known.Conventional)
    {path : List String} (hpath : ∀ s ∈ path, s ≠ "" ∧ '.' ∉ s.toList) {binary : String}
    (hresolved : known.resolveQualified? path = some binary) :
    spelledBinary path = binary ∧
    ∀ {unknown : TypeIndex} {declarations : List ImportDeclaration} {name : String}
      {frames : List TypeFrame}, unknown.resolveQualified? path = none →
      ImportedOnce declarations path name →
      (∀ index ∈ [known, unknown], frames.findSome? (TypeFrame.find? index name) = none) →
      ∀ (source : SourceText) (package : String),
        let ctx := TypeContext.importing known source package declarations frames
        let ctx' := TypeContext.importing unknown source package declarations frames
        let hiding? := TypeScope.byPackage? unknown ctx'.scope.header name
        ctx.named? name = some (.raw binary) ∧
        ctx'.named? name = some (.raw (hiding?.getD binary)) ∧
        ((∀ other, hiding? = some other → other = binary) → ∀ (n : Node) (inInterface : Bool),
          (∀ m, n.Below m → m.kind = .typeIdentifier → source.text m ≠ name →
            ctx.named? (source.text m) = ctx'.named? (source.text m)) →
          (∀ m, n.Below m → m.kind = .scopedType → ctx.dotted? m = ctx'.dotted? m) →
          ctx.method? inInterface n = ctx'.method? inInterface n) := by
  have hspelled : spelledBinary path = binary := hknown.spelledBinary_eq hpath hresolved
  refine ⟨hspelled, ?_⟩
  intro unknown declarations name frames hunresolved honce hframes source package ctx ctx' hiding?
  have hnamed : ctx.named? name = some (.raw binary) :=
    TypeContext.named?_of_known honce hresolved (hframes known (by simp))
  have hnamed' : ctx'.named? name = some (.raw (hiding?.getD binary)) := by
    rw [← hspelled]
    exact TypeContext.named?_of_unknown honce hunresolved (hframes unknown (by simp))
  refine ⟨hnamed, hnamed', fun hsame n inInterface hothers hdotted => ?_⟩
  have hagree : ctx.AgreeOn n.Below ctx' := by
    refine ⟨rfl, fun {m} hm hkind => ?_, fun {m} hm hkind => hdotted m hm hkind⟩
    by_cases htext : source.text m = name
    · have hsame' : hiding?.getD binary = binary := by
        cases hhiding : hiding? with
        | none => rfl
        | some other => exact hsame other hhiding
      rw [hsame'] at hnamed'
      change ctx.named? (source.text m) = ctx'.named? (source.text m)
      rw [htext, hnamed, hnamed']
    · exact hothers m hm hkind htext
  exact TypeContext.method?_eq hagree .self inInterface

/-- A public class without members that extends the root class. -/
def plainClass (name : String) (nestings : List ClassFile.Nesting) : ClassFile where
  access := 33
  name
  superclass := some objectName
  interfaces := []
  fields := []
  methods := []
  nestings
  signature := none

/-- A library with a class and a member class of it. -/
def partLibrary : TypeIndex :=
  let nesting : ClassFile.Nesting := ⟨"org.lib.Outer$Part", some "org.lib.Outer", some "Part", 9⟩
  ({} : TypeIndex).install
    (Classpath.declarations
      (["org.lib.Outer", "org.lib.Outer$Part"].map fun name => plainClass name [nesting]))

/-- The declaration of a method without parameters. -/
def partMethod : Node :=
  .mk .methodDeclaration none ⟨0, 8⟩ ""
    [.mk .typeIdentifier (some .type) ⟨0, 4⟩ "Part" [], .mk .identifier (some .name) ⟨5, 6⟩ "m" []]

theorem imports_spell_what_they_name_partMethod :
    let path := ["org", "lib", "Outer", "Part"]
    let source := SourceText.ofString "Part m()"
    let ctx := TypeContext.importing partLibrary source "p" [⟨path, false, false⟩] []
    let ctx' := TypeContext.importing {} source "p" [⟨path, false, false⟩] []
    partLibrary.Conventional ∧ spelledBinary path = "org.lib.Outer$Part" ∧
      ctx.method? false partMethod = ctx'.method? false partMethod ∧
      (ctx'.method? false partMethod).map (·.signature "p.A") =
        some "p.A.m()Lorg/lib/Outer$Part;" := by
  intro path source ctx ctx'
  have hfacts : partLibrary.Conventional ∧ (∀ s ∈ path, s ≠ "" ∧ '.' ∉ s.toList) ∧
      partLibrary.resolveQualified? path = some "org.lib.Outer$Part" ∧
      ({} : TypeIndex).resolveQualified? path = none := by
    decide +kernel
  obtain ⟨hconventional, hpath, hresolved, hunresolved⟩ := hfacts
  have honce : ImportedOnce [⟨path, false, false⟩] path "Part" := by
    refine ⟨rfl, by simp, fun d hd _ => ?_⟩
    rw [List.mem_singleton.1 hd]
  have hnames : ∀ m, partMethod.Below m →
      m.kind ≠ .scopedType ∧ (m.kind = .typeIdentifier → source.text m = "Part") := by
    intro m hm
    cases hm with
    | self => exact ⟨nofun, nofun⟩
    | down hc hm =>
      rcases List.mem_pair.1 hc with rfl | rfl
      · cases hm with
        | self => exact ⟨nofun, fun _ => rfl⟩
        | down hc _ => cases hc
      · cases hm with
        | self => exact ⟨nofun, nofun⟩
        | down hc _ => cases hc
  have hvisible : TypeScope.byPackage? {} ctx'.scope.header "Part" = none := by decide +kernel
  have hframes : ∀ index ∈ [partLibrary, {}],
      ([] : List TypeFrame).findSome? (TypeFrame.find? index "Part") = none := fun _ _ => rfl
  obtain ⟨hspelled, hnamed⟩ := imports_spell_what_they_name hconventional hpath hresolved
  obtain ⟨-, -, hmethod⟩ := hnamed hunresolved honce hframes source "p"
  refine ⟨hconventional, hspelled, hmethod ?_ partMethod false ?_ ?_, by decide +kernel⟩
  · intro other hother
    rw [hvisible] at hother
    cases hother
  · intro m hm hkind hname
    exact absurd ((hnames m hm).2 hkind) hname
  · intro m hm hkind
    exact absurd hkind (hnames m hm).1

/-- A library with the class that the units below import. -/
def widgetLibrary : TypeIndex :=
  ({} : TypeIndex).install (Classpath.declarations [plainClass "org.lib.Widget" []])

/-- A unit that imports a class, and a class of the same name next to it. -/
def widgetProgram (known : TypeIndex) : Program :=
  .ofUnits known
    [.ofText "A.java" "package p; import org.lib.Widget; class A { void m(Widget w) { } }",
      .ofText "B.java" "package p; class Widget { }"]

/-- With the library an import means the class that it names, and without it the class of the same
name in the package of the unit, so the signature of a method is another one. -/
theorem import_hidden_by_neighbour :
    let path := ["org", "lib", "Widget"]
    (widgetProgram widgetLibrary).index.Conventional ∧
      (widgetProgram widgetLibrary).index.resolveQualified? path = some (spelledBinary path) ∧
      ((widgetProgram widgetLibrary).index.get? "p.A").map
          (fun d => (d.methods.filter (·.name == "m")).map (·.signature "p.A")) =
        some ["p.A.m(Lorg/lib/Widget;)V"] ∧
      ((widgetProgram {}).index.get? "p.A").map
          (fun d => (d.methods.filter (·.name == "m")).map (·.signature "p.A")) =
        some ["p.A.m(Lp/Widget;)V"] := by
  decide +kernel

end Renaming.Java
