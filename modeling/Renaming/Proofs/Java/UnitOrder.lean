import Renaming.Java.Resolver
import Renaming.Proofs.Java.Declared.Index
import Renaming.Proofs.Symbol

/-!
# The order of units

A program does not depend on the order of its units if no two declarations have the same binary
name. Each stage enters into the index what was read against the index before it, and entries of
different types, as those of different units are, can be entered in either order.
-/

namespace Renaming.Java

/-! ## Registered types -/

namespace Registration

@[simp] theorem topLevelName_unnamed (name : String) : topLevelName "" name = name := rfl

theorem topLevelName_of_ne {package : String} (h : package ≠ "") (name : String) :
    topLevelName package name = package ++ "." ++ name :=
  if_neg (by simpa using h)

/-- A name in a package is not a name of the unnamed package. -/
theorem packageOf_append_ne {package : String} (h : package ≠ "") (name : String) :
    packageOf (package ++ "." ++ name) ≠ packageOf name := by
  rw [packageOf_append]
  split
  · intro heq
    have hlength := congrArg String.length heq
    have hdot : ".".length = 1 := rfl
    simp only [String.length_append] at hlength
    omega
  · rename_i hdot
    rwa [packageOf_of_notMem hdot]

/-- A simple name is a name of the package that it is put in. -/
theorem packageOf_topLevelName (package : String) {name : String} (h : '.' ∉ name.toList) :
    packageOf (topLevelName package name) = package := by
  by_cases hpackage : package = ""
  · rw [hpackage, topLevelName_unnamed, packageOf_of_notMem h]
  · rw [topLevelName_of_ne hpackage, packageOf_append, if_neg h]

/-- Within one package, types with one simple name have one binary name. -/
theorem topLevelName_eq {package package' name : String}
    (h : packageOf (topLevelName package name) = packageOf (topLevelName package' name)) :
    topLevelName package name = topLevelName package' name := by
  by_cases hp : package = ""
  · by_cases hq : package' = ""
    · rw [hp, hq]
    · rw [hp, topLevelName_unnamed, topLevelName_of_ne hq] at h
      exact absurd h.symm (packageOf_append_ne hq name)
  · by_cases hq : package' = ""
    · rw [hq, topLevelName_unnamed, topLevelName_of_ne hp] at h
      exact absurd h (packageOf_append_ne hp name)
    · rw [topLevelName_of_ne hp, topLevelName_of_ne hq, packageOf_append, packageOf_append] at h
      split at h
      · rw [String.append_assoc, String.append_assoc, String.append_left_inj] at h
        rw [h]
      · rw [h]

end Registration

/-- What is known of a type that is registered, whichever unit declares it. -/
structure RegisteredType.Regular (t : RegisteredType) : Prop where
  origin : t.declaration.origin = .source
  isLocal : t.declaration.outer = none → t.declaration.isLocal = false
  topLevel : t.declaration.outer = none →
    ∃ package, t.binary = Registration.topLevelName package t.declaration.simple
  link : ∀ {outer simple inner : String}, t.memberLink? = some (outer, simple, inner) →
    inner = outer ++ "$" ++ simple

theorem Registration.regular_anonymous (outer : String) (found : List RegisteredType) (n : Node) :
    (anonymous outer found n).Regular where
  origin := rfl
  isLocal h := by cases h
  topLevel h := by cases h
  link h := by cases h

theorem Registration.regular_named (package : String) (outer : Option String) (parent : NodeKind)
    (found : List RegisteredType) (name : String) (n : Node) :
    (named package outer parent found name n).Regular := by
  cases outer with
  | none => exact ⟨rfl, fun _ => rfl, fun _ => ⟨package, rfl⟩, fun h => nomatch h⟩
  | some outer =>
    unfold named
    dsimp only
    split
    · refine ⟨rfl, fun h => (nomatch h), fun h => (nomatch h), fun h => ?_⟩
      cases h
      rfl
    · exact ⟨rfl, fun h => (nomatch h), fun h => (nomatch h), fun h => (nomatch h)⟩

theorem ParsedUnit.regular_of_mem_registered {p : ParsedUnit} {t : RegisteredType}
    (ht : t ∈ p.registered) : t.Regular := by
  unfold registered at ht
  cases htree : p.tree with
  | none =>
    rw [htree] at ht
    cases ht
  | some root =>
    rw [htree] at ht
    exact Registration.forall_visit Registration.regular_anonymous
      (Registration.regular_named _) (by simp) root t ht

/-! ## Entries in either order -/

namespace TypeIndex

theorem ext_get? {a b : TypeIndex} (htypes : ∀ binary, a.get? binary = b.get? binary)
    (htopLevels : a.topLevels = b.topLevels) : a = b := by
  obtain ⟨types, topLevels⟩ := a
  obtain ⟨types', topLevels'⟩ := b
  obtain rfl : types = types' := SortedMap.ext_get? htypes
  obtain rfl : topLevels = topLevels' := htopLevels
  rfl

@[simp] theorem topLevels_modify (index : TypeIndex) (binary : String)
    (f : TypeDeclaration → TypeDeclaration) :
    (index.modify binary f).topLevels = index.topLevels := by
  unfold modify
  split <;> rfl

/-- Changes of different types, or of different parts of one type, commute. -/
theorem modify_comm (index : TypeIndex) {a b : String} {f g : TypeDeclaration → TypeDeclaration}
    (h : a = b → ∀ d, f (g d) = g (f d)) :
    (index.modify a f).modify b g = (index.modify b g).modify a f := by
  apply ext_get?
  · intro binary
    simp only [get?_modify]
    by_cases ha : binary = a
    · subst ha
      by_cases hb : binary = b
      · have hfg : g ∘ f = f ∘ g := funext fun d => (h hb d).symm
        simp [← hb, hfg]
      · simp [hb]
    · simp [ha]
  · simp

/-- Links of different types to different names commute. -/
theorem addMember_comm (index : TypeIndex) {outer simple inner outer' simple' inner' : String}
    (houter : outer = outer' → simple ≠ simple') (hinner : inner ≠ inner') :
    (index.addMember outer simple inner).addMember outer' simple' inner' =
      (index.addMember outer' simple' inner').addMember outer simple inner := by
  let enclose (simple inner : String) (d : TypeDeclaration) : TypeDeclaration :=
    { d with members := d.members.insertIfNew simple inner }
  let name (outer simple : String) (d : TypeDeclaration) : TypeDeclaration :=
    { d with outer := d.outer.or (some outer), simple }
  change (((index.modify outer (enclose simple inner)).modify inner (name outer simple)).modify
      outer' (enclose simple' inner')).modify inner' (name outer' simple') =
    (((index.modify outer' (enclose simple' inner')).modify inner' (name outer' simple')).modify
      outer (enclose simple inner)).modify inner (name outer simple)
  -- only the two lists of members, and the two names, are the same parts of a type
  have hmembers : outer = outer' → ∀ d,
      enclose simple inner (enclose simple' inner' d) =
        enclose simple' inner' (enclose simple inner d) := by
    intro heq d
    simp only [enclose, SortedMap.insertIfNew_comm d.members (houter heq)]
  have hnames : inner = inner' → ∀ d,
      name outer simple (name outer' simple' d) = name outer' simple' (name outer simple d) :=
    fun heq => absurd heq hinner
  have hparts (simple inner outer simple' : String) (d : TypeDeclaration) :
      enclose simple inner (name outer simple' d) = name outer simple' (enclose simple inner d) :=
    rfl
  rw [(index.modify outer _).modify_comm fun _ d => (hparts simple' inner' outer simple d).symm,
    index.modify_comm hmembers, modify_comm _ hnames,
    (index.modify outer' _).modify_comm fun _ d => hparts simple inner outer' simple' d]

theorem addTopLevel_comm (index : TypeIndex) {d e : TypeDeclaration}
    (h : packageOf d.binary = packageOf e.binary → d.simple ≠ e.simple) :
    ((index.addTopLevel d).addTopLevel e).topLevels =
      ((index.addTopLevel e).addTopLevel d).topLevels := by
  apply SortedMap.ext_get?
  intro package
  simp only [addTopLevel, SortedMap.get?_insert]
  by_cases hsame : packageOf d.binary = packageOf e.binary
  · simp only [hsame, beq_self_eq_true, if_true, Option.getD_some]
    rw [SortedMap.insert_comm _ (h hsame)]
    by_cases he : package = packageOf e.binary <;> simp [he]
  · by_cases hd : package = packageOf d.binary
    · simp [hd, hsame]
    · simp [hd, Ne.symm hsame]

section Source

variable (index : TypeIndex) {d e : TypeDeclaration}

/-- Nothing outranks a type of a unit. -/
theorem outranked_of_source (hd : d.origin = .source) : index.outranked d = false := by
  rw [outranked, Option.any_eq_false]
  intro existing _
  rw [hd]
  cases existing.origin <;> decide

theorem insert_of_source (hd : d.origin = .source) :
    index.insert d =
      ⟨index.types.insert d.binary d,
        if d.outer.isNone && !d.isLocal then (index.addTopLevel d).topLevels
        else index.topLevels⟩ := by
  simp only [insert, index.outranked_of_source hd, Bool.false_eq_true, if_false]
  split <;> rfl

/-- Types of units with names of their own may be entered in either order. -/
theorem insert_comm (hd : d.origin = .source) (he : e.origin = .source)
    (hbinary : d.binary ≠ e.binary)
    (htopLevel : d.outer = none → e.outer = none → packageOf d.binary = packageOf e.binary →
      d.simple ≠ e.simple) :
    (index.insert d).insert e = (index.insert e).insert d := by
  rw [insert_of_source _ he, insert_of_source _ hd, insert_of_source _ hd, insert_of_source _ he]
  apply ext_get?
  · intro binary
    exact congrArg (·.get? binary) (index.types.insert_comm hbinary d e)
  · cases hdtop : d.outer.isNone && !d.isLocal with
    | false => rfl
    | true =>
      cases hetop : e.outer.isNone && !e.isLocal with
      | false => rfl
      | true =>
        simp only [Bool.and_eq_true, Option.isNone_iff_eq_none] at hdtop hetop
        exact index.addTopLevel_comm (htopLevel hdtop.1 hetop.1)

end Source

section Modify

variable {α : Type} {f : α → TypeDeclaration → TypeDeclaration}

theorem foldl_modify_comm_one {entries : List (String × α)} {binary : String}
    (h : ∀ e ∈ entries, e.1 ≠ binary) (g : TypeDeclaration → TypeDeclaration) (index : TypeIndex) :
    entries.foldl (fun index e => index.modify e.1 (f e.2)) (index.modify binary g) =
      (entries.foldl (fun index e => index.modify e.1 (f e.2)) index).modify binary g := by
  induction entries generalizing index with
  | nil => rfl
  | cons e rest ih =>
    have he : e.1 ≠ binary := h e List.mem_cons_self
    rw [List.foldl_cons, List.foldl_cons,
      index.modify_comm fun heq => absurd heq.symm he,
      ih fun e' he' => h e' (List.mem_cons_of_mem _ he')]

/-- Two lists of entries for different types may be entered in either order. -/
theorem foldl_modify_comm {entries entries' : List (String × α)}
    (h : ∀ e ∈ entries, ∀ e' ∈ entries', e.1 ≠ e'.1) (index : TypeIndex) :
    entries'.foldl (fun index e => index.modify e.1 (f e.2))
        (entries.foldl (fun index e => index.modify e.1 (f e.2)) index) =
      entries.foldl (fun index e => index.modify e.1 (f e.2))
        (entries'.foldl (fun index e => index.modify e.1 (f e.2)) index) := by
  induction entries generalizing index with
  | nil => rfl
  | cons e rest ih =>
    have he : ∀ e' ∈ entries', e'.1 ≠ e.1 := fun e' he' => (h e List.mem_cons_self e' he').symm
    rw [List.foldl_cons, List.foldl_cons,
      ih fun a ha => h a (List.mem_cons_of_mem _ ha), foldl_modify_comm_one he]

/-- What is read of units that share no type may be entered in any order of the units. -/
theorem foldl_modify_perm {υ : Type} {units units' : List υ} (hperm : units.Perm units')
    {read : υ → List (String × α)}
    (h : ∀ u ∈ units, ∀ v ∈ units, u ≠ v → ∀ e ∈ read u, ∀ e' ∈ read v, e.1 ≠ e'.1)
    (index : TypeIndex) :
    (units.flatMap read).foldl (fun index e => index.modify e.1 (f e.2)) index =
      (units'.flatMap read).foldl (fun index e => index.modify e.1 (f e.2)) index := by
  rw [List.foldl_flatMap, List.foldl_flatMap]
  refine hperm.foldl_eq' (fun u hu v hv index => ?_) index
  by_cases huv : u = v
  · rw [huv]
  · exact foldl_modify_comm (h u hu v hv huv) index

end Modify

end TypeIndex

/-! ## Registration in any order -/

section Register

variable {found found' : List RegisteredType}

theorem RegisteredType.insert_comm (index : TypeIndex) {s t : RegisteredType} (hs : s.Regular)
    (ht : t.Regular) (hbinary : s.binary ≠ t.binary) :
    (index.insert s.declaration).insert t.declaration =
      (index.insert t.declaration).insert s.declaration := by
  refine index.insert_comm hs.origin ht.origin hbinary fun houter houter' hpackage hsimple => ?_
  obtain ⟨package, hs⟩ := hs.topLevel houter
  obtain ⟨package', ht⟩ := ht.topLevel houter'
  rw [hsimple] at hs
  change packageOf s.binary = packageOf t.binary at hpackage
  rw [hs, ht] at hpackage hbinary
  exact hbinary (Registration.topLevelName_eq hpackage)

theorem insertAll_perm (hperm : found.Perm found') (hregular : ∀ t ∈ found, t.Regular)
    (hdistinct : (found.map RegisteredType.binary).Nodup) (index : TypeIndex) :
    index.insertAll (found.map RegisteredType.declaration) =
      index.insertAll (found'.map RegisteredType.declaration) := by
  unfold TypeIndex.insertAll
  rw [List.foldl_map, List.foldl_map]
  refine hperm.foldl_eq' (fun s hs t ht index => ?_) index
  by_cases hst : s = t
  · rw [hst]
  · refine RegisteredType.insert_comm index (hregular s hs) (hregular t ht) fun heq => ?_
    exact hst (List.inj_on_of_nodup_map hdistinct hs ht heq)

theorem RegisteredType.inner_of_memberLink? {t : RegisteredType} {link : String × String × String}
    (h : t.memberLink? = some link) : link.2.2 = t.binary := by
  unfold memberLink? at h
  split at h
  · cases h
    rfl
  · cases h

theorem addMembers_perm (hperm : found.Perm found') (hregular : ∀ t ∈ found, t.Regular)
    (hdistinct : (found.map RegisteredType.binary).Nodup) (index : TypeIndex) :
    index.addMembers (found.filterMap RegisteredType.memberLink?) =
      index.addMembers (found'.filterMap RegisteredType.memberLink?) := by
  unfold TypeIndex.addMembers
  refine (hperm.filterMap _).foldl_eq' (fun link hlink link' hlink' index => ?_) index
  obtain ⟨s, hs, hlink⟩ := List.mem_filterMap.1 hlink
  obtain ⟨t, ht, hlink'⟩ := List.mem_filterMap.1 hlink'
  by_cases hst : s = t
  · subst hst
    rw [hlink] at hlink'
    cases hlink'
    rfl
  · have hinner : link.2.2 ≠ link'.2.2 := by
      rw [s.inner_of_memberLink? hlink, t.inner_of_memberLink? hlink']
      exact fun heq => hst (List.inj_on_of_nodup_map hdistinct hs ht heq)
    obtain ⟨outer, simple, inner⟩ := link
    obtain ⟨outer', simple', inner'⟩ := link'
    refine index.addMember_comm (fun houter hsimple => hinner ?_) hinner
    -- the links of one name from one type lead to one type
    rw [(hregular s hs).link hlink, (hregular t ht).link hlink', houter, hsimple]

end Register

/-! ## Programs in any order -/

/-- A site of a unit has the name of a type that is registered in the unit. -/
theorem ParsedUnit.exists_registered_of_site {p : ParsedUnit} {index index' : TypeIndex}
    {site : DeclarationSite} (hsite : site ∈ (p.declared index).sites index') :
    ∃ t ∈ p.registered, t.binary = site.binary := by
  cases htree : p.tree with
  | none =>
    rw [DeclaredUnit.sites, unit_declared, htree] at hsite
    cases hsite
  | some root =>
    have htypes : (p.declared index).types =
        .ofList (p.registered.map fun t => (t.start, t.binary)) := by
      simp only [declared, htree]
    have houtline := List.mem_map_of_mem (f := DeclarationSite.outline) hsite
    rw [DeclaredUnit.sites, unit_declared, htree] at houtline
    dsimp only at houtline
    rw [declarationSites, Sites.outline_visit, htypes, List.map_nil, List.nil_append] at houtline
    obtain ⟨e, -, houtline⟩ := List.mem_filterMap.1 houtline
    obtain ⟨binary, hbinary, heq⟩ := Option.map_eq_some_iff.1 houtline
    obtain ⟨t, ht, hentry⟩ := List.mem_map.1 (SortedMap.mem_of_get?_ofList hbinary)
    exact ⟨t, ht, (Prod.mk.inj hentry).2.trans (Prod.mk.inj heq).1⟩

namespace Program

variable (known : TypeIndex) (parsed : List ParsedUnit)

/-- What is found in a unit of a program. -/
def resolution (p : ParsedUnit) : UnitResolution :=
  let unit := p.declared (entered known parsed)
  (ofUnits known parsed).resolveUnit (unit.withMethods (unit.members (linked known parsed)))

theorem resolveUnits_ofUnits : (ofUnits known parsed).resolveUnits =
    parsed.map fun p => (p.id, resolution known parsed p) := by
  rw [resolveUnits, units_ofUnits, List.map_map]
  refine List.map_congr_left fun p _ => ?_
  rw [Function.comp_apply, DeclaredUnit.unit_withMethods, ParsedUnit.unit_declared]
  rfl

end Program

section Programs

variable {parsed parsed' : List ParsedUnit}
  (hdistinct : ((parsed.flatMap ParsedUnit.registered).map RegisteredType.binary).Nodup)

include hdistinct

/-- Sites of different units are of different types. -/
theorem ParsedUnit.site_binary_ne {p q : ParsedUnit} (hp : p ∈ parsed) (hq : q ∈ parsed)
    (hne : p ≠ q) {index index' : TypeIndex} {site site' : DeclarationSite}
    (hsite : site ∈ (p.declared index).sites index')
    (hsite' : site' ∈ (q.declared index).sites index') : site.binary ≠ site'.binary := by
  obtain ⟨s, hs, hsbinary⟩ := exists_registered_of_site hsite
  obtain ⟨t, ht, htbinary⟩ := exists_registered_of_site hsite'
  intro heq
  exact hne (Program.parsed_eq_of_binary_eq hdistinct hp hq hs ht
    (hsbinary.trans (heq.trans htbinary.symm)))

variable (hperm : parsed.Perm parsed')

include hperm

namespace TypeIndex

theorem register_perm (known : TypeIndex) : known.register parsed = known.register parsed' := by
  have hfound := hperm.flatMap_right ParsedUnit.registered
  have hregular : ∀ t ∈ parsed.flatMap ParsedUnit.registered, t.Regular := by
    intro t ht
    obtain ⟨p, -, ht⟩ := List.mem_flatMap.1 ht
    exact ParsedUnit.regular_of_mem_registered ht
  rw [register, register, insertAll_perm hfound hregular hdistinct,
    addMembers_perm hfound hregular hdistinct]

/-- What is read at the sites of units may be entered in any order of the units. -/
theorem foldl_sites_perm {α : Type} (f : α → TypeDeclaration → TypeDeclaration)
    (read : ParsedUnit → DeclarationSite → α) (index index' start : TypeIndex) :
    (parsed.flatMap fun p => ((p.declared index).sites index').map fun site =>
        (site.binary, read p site)).foldl (fun index e => index.modify e.1 (f e.2)) start =
      (parsed'.flatMap fun p => ((p.declared index).sites index').map fun site =>
        (site.binary, read p site)).foldl (fun index e => index.modify e.1 (f e.2)) start := by
  refine foldl_modify_perm hperm (fun p hp q hq hne e he e' he' => ?_) start
  obtain ⟨site, hsite, rfl⟩ := List.mem_map.1 he
  obtain ⟨site', hsite', rfl⟩ := List.mem_map.1 he'
  exact ParsedUnit.site_binary_ne hdistinct hp hq hne hsite hsite'

theorem readSupertypes_perm (index start : TypeIndex) :
    start.readSupertypes (parsed.map (·.declared index)) =
      start.readSupertypes (parsed'.map (·.declared index)) := by
  rw [readSupertypes, readSupertypes, List.flatMap_map, List.flatMap_map]
  exact foldl_sites_perm hdistinct hperm DeclaredSupertypes.apply
    (fun p site => site.supertypes start (p.declared index).unit.source) index start start

end TypeIndex

namespace Program

variable (known : TypeIndex)

theorem linked_perm : linked known parsed = linked known parsed' := by
  rw [linked, linked, entered, entered, TypeIndex.register_perm hdistinct hperm,
    TypeIndex.readSupertypes_perm hdistinct hperm, TypeIndex.readSupertypes_perm hdistinct hperm]

theorem index_perm : (ofUnits known parsed).index = (ofUnits known parsed').index := by
  rw [index_ofUnits, index_ofUnits, linked_perm hdistinct hperm, entered, entered,
    TypeIndex.register_perm hdistinct hperm]
  exact TypeIndex.foldl_sites_perm hdistinct hperm
    (fun m d => { d with fields := m.fields, methods := m.methods })
    (fun p site => site.members (linked known parsed')
      (p.declared (known.register parsed')).unit.source) _ _ (linked known parsed')

/-- What is found in a unit is the same, whatever the order of the units. -/
theorem resolution_perm (p : ParsedUnit) :
    resolution known parsed p = resolution known parsed' p := by
  rw [resolution, resolution, resolveUnit, resolveUnit, index_perm hdistinct hperm,
    linked_perm hdistinct hperm, entered, entered, TypeIndex.register_perm hdistinct hperm]

end Program

end Programs

theorem resolve_eq {parse : String → Option Node} {tree : FileTree} {classpath : List String}
    {known : TypeIndex} (hknown : TypeIndex.catalogue.addClasspath tree classpath = .ok known)
    (units : List SourceUnit) :
    (resolverWith parse tree classpath).resolve units = .ok (units.map fun u =>
      (u.id, Program.resolution known (units.map fun u => .read parse u.id u.text)
        (.read parse u.id u.text))) := by
  simp only [resolverWith, hknown, Program.resolveUnits_ofUnits, List.map_map]
  rfl

/-- The order of units does not matter, whatever trees their parser reads: if no two declarations
have the same binary name, then units in any order give the same index, and what is found in a unit
is the same. A class path that cannot be read is the same failure for all of them. -/
theorem resolve_perm (parse : String → Option Node) (tree : FileTree) (classpath : List String)
    {units units' : List SourceUnit} (hperm : units.Perm units')
    (hdistinct : ((units.flatMap fun u => (ParsedUnit.read parse u.id u.text).registered).map
      RegisteredType.binary).Nodup) :
    match TypeIndex.catalogue.addClasspath tree classpath with
    | .error e =>
      (resolverWith parse tree classpath).resolve units = .error e.message ∧
        (resolverWith parse tree classpath).resolve units' = .error e.message
    | .ok known =>
      (Program.ofUnits known (units.map fun u => .read parse u.id u.text)).index =
          (Program.ofUnits known (units'.map fun u => .read parse u.id u.text)).index ∧
        ∃ found : SourceUnit → UnitResolution,
          (resolverWith parse tree classpath).resolve units =
            .ok (units.map fun u => (u.id, found u)) ∧
          (resolverWith parse tree classpath).resolve units' =
            .ok (units'.map fun u => (u.id, found u)) := by
  cases hknown : TypeIndex.catalogue.addClasspath tree classpath with
  | error e => simp only [resolverWith, hknown, and_self]
  | ok known =>
    have hparsed := hperm.map fun u => ParsedUnit.read parse u.id u.text
    rw [← List.flatMap_map] at hdistinct
    have hfound := Program.resolution_perm hdistinct hparsed known
    refine ⟨Program.index_perm hdistinct hparsed known, _, resolve_eq hknown units, ?_⟩
    simp only [resolve_eq hknown, hfound]

/-- Two units, each of which names the type of the other. -/
def crossingUnits : List SourceUnit :=
  [⟨"p/A.java", "package p; class A extends B { class C { } C f; }"⟩,
    ⟨"p/B.java", "package p; class B { A g; int h() { return new A().g.h(); } }"⟩]

theorem resolve_perm_crossingUnits :
    (crossingUnits.flatMap fun u => (ParsedUnit.ofText u.id u.text).registered).map
        RegisteredType.binary = ["p.A", "p.A$C", "p.B"] ∧
      (Program.ofUnits (TypeIndex.catalogue.install [])
          (crossingUnits.map fun u => .ofText u.id u.text)).index =
        (Program.ofUnits (TypeIndex.catalogue.install [])
          (crossingUnits.reverse.map fun u => .ofText u.id u.text)).index ∧
      ∃ found : SourceUnit → UnitResolution,
        (resolver {} []).resolve crossingUnits =
          .ok (crossingUnits.map fun u => (u.id, found u)) ∧
        (resolver {} []).resolve crossingUnits.reverse =
          .ok (crossingUnits.reverse.map fun u => (u.id, found u)) := by
  have hnames : (crossingUnits.flatMap fun u => (ParsedUnit.ofText u.id u.text).registered).map
      RegisteredType.binary = ["p.A", "p.A$C", "p.B"] := by
    decide +kernel
  have hdistinct : ((crossingUnits.flatMap fun u => (ParsedUnit.ofText u.id u.text).registered).map
      RegisteredType.binary).Nodup := by
    rw [hnames]
    decide
  exact ⟨hnames, resolve_perm Node.ofText? {} [] (List.reverse_perm crossingUnits).symm hdistinct⟩

end Renaming.Java
