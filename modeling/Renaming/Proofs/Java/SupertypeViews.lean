import Renaming.Java.Inference
import Renaming.Proofs.Java.Overload.Exact

/-!
# Types seen as their supertypes

A type is seen as one of its supertypes by a search over types with their arguments, which goes
deep first and gives up at a fixed depth; whether a type is below another is settled by a search
over names, which goes broad first and remembers what it met. Both searches end in any hierarchy.
If the supertypes that declarations give with and without arguments are the same, a type can only be
seen as what it is below, and it is seen as everything that a short enough chain leads to.
-/

namespace Renaming.Java

open Relation (ReflTransGen)

/-- Whether the supertypes given with arguments are class types, and those given without. -/
structure TypeDeclaration.NamesSupertypes (d : TypeDeclaration) : Prop where
  isObject : ∀ t ∈ d.genericSupertypes, ∃ binary args, t = .object binary args
  named : ∀ b, b ∈ d.directSupertypes ↔ ∃ args, .object b args ∈ d.genericSupertypes

/-- Supertypes that are given without arguments only are raw. -/
theorem TypeDeclaration.namesSupertypes_of_raw {d : TypeDeclaration} (h : d.genericSupers = []) :
    d.NamesSupertypes := by
  have hraw : d.genericSupertypes = d.directSupertypes.map GenericType.raw := by
    simp [genericSupertypes, h]
  constructor
  · intro t ht
    rw [hraw] at ht
    obtain ⟨b, -, rfl⟩ := List.mem_map.1 ht
    exact ⟨b, [], rfl⟩
  · intro b
    simp [hraw, GenericType.raw]

namespace TypeIndex

/-! ## The searches by their steps -/

/-- The search for supertypes by name, however long it takes: the types met so far, those that still
wait, and the types met in the end. -/
inductive Visits (index : TypeIndex) : List String → List String → List String → Prop
  | idle (seen : List String) : Visits index seen [] seen
  | next {seen queue result : List String} {current : String} :
      Visits index (seen ++ fresh seen (index.parents current))
        (queue ++ fresh seen (index.parents current)) result →
      Visits index seen (current :: queue) result

mutual

/-- The search for the arguments of a type seen as `target`, with a count of the types on the way
to it. -/
inductive Views (index : TypeIndex) (target : String) :
    Nat → GenericType → Option (List TypeArgument) → Prop
  | tooDeep {depth : Nat} {t : GenericType} : maxDepth < depth → Views index target depth t none
  | prim {depth : Nat} {p : Primitive} : depth ≤ maxDepth → Views index target depth (.prim p) none
  | array {depth : Nat} {element : GenericType} : depth ≤ maxDepth →
      Views index target depth (.array element) none
  | var {depth : Nat} {name : String} {bound : GenericType} {result : Option (List TypeArgument)} :
      depth ≤ maxDepth → Views index target (depth + 1) bound result →
      Views index target depth (.var name bound) result
  | itself {depth : Nat} {args : List TypeArgument} : depth ≤ maxDepth →
      Views index target depth (.object target args) (some args)
  | root {depth : Nat} {binary : String} {args : List TypeArgument} : depth ≤ maxDepth →
      binary ≠ target → target = objectName →
      Views index target depth (.object binary args) (some [])
  | unknown {depth : Nat} {binary : String} {args : List TypeArgument} : depth ≤ maxDepth →
      binary ≠ target → target ≠ objectName → index.get? binary = none →
      Views index target depth (.object binary args) none
  | inherited {depth : Nat} {binary : String} {args : List TypeArgument} {d : TypeDeclaration}
      {result : Option (List TypeArgument)} : depth ≤ maxDepth →
      binary ≠ target → target ≠ objectName → index.get? binary = some d →
      ViewsFirst index target (depth + 1)
        (d.genericSupertypes.map (·.subst (.ofArguments d.typeParams args))) result →
      Views index target depth (.object binary args) result

/-- The search through several types for the first that can be seen as `target`. -/
inductive ViewsFirst (index : TypeIndex) (target : String) :
    Nat → List GenericType → Option (List TypeArgument) → Prop
  | none {depth : Nat} : ViewsFirst index target depth [] none
  | here {depth : Nat} {t : GenericType} {later : List GenericType} {args : List TypeArgument} :
      Views index target depth t (some args) →
      ViewsFirst index target depth (t :: later) (some args)
  | later {depth : Nat} {t : GenericType} {later : List GenericType}
      {result : Option (List TypeArgument)} : Views index target depth t .none →
      ViewsFirst index target depth later result →
      ViewsFirst index target depth (t :: later) result

end

variable {index : TypeIndex} {a b c target : String}

theorem Visiting.visits {start : String} {fuel : Nat} {visited queue : List String}
    (h : Visiting index start visited queue)
    (hfuel : fuel + visited.length = index.supertypeMentions + 1) :
    index.Visits (visited ++ queue) queue
      (index.visitSupertypes fuel (visited ++ queue) queue) := by
  induction fuel generalizing visited queue with
  | zero =>
    have hlength := h.length_le
    obtain rfl : queue = [] := List.eq_nil_of_length_eq_zero (by omega)
    exact .idle _
  | succ fuel ih =>
    cases queue with
    | nil => exact .idle _
    | cons current queue =>
      have hrest := ih h.step (by rw [List.length_append, List.length_singleton]; omega)
      refine .next ?_
      rw [TypeIndex.visitSupertypes]
      simpa using hrest

theorem visits_properChain (index : TypeIndex) (a : String) :
    index.Visits [a] [a] (index.properChain a) :=
  (Visiting.initial index a).visits rfl

theorem viewsFirst_findSome? {depth : Nat} {view : GenericType → Option (List TypeArgument)}
    (hview : ∀ t, index.Views target depth t (view t)) (ts : List GenericType) :
    index.ViewsFirst target depth ts (ts.findSome? view) := by
  induction ts with
  | nil => exact .none
  | cons t rest ih =>
    have ht := hview t
    rw [List.findSome?_cons]
    cases hresult : view t with
    | none => exact .later (hresult ▸ ht) ih
    | some args => exact .here (hresult ▸ ht)

/-- A search that may still go on for some types ends. -/
theorem views_asSuperWithin {fuel depth : Nat} (hdepth : depth + fuel = maxDepth + 1)
    (t : GenericType) : index.Views target depth t (index.asSuperWithin target fuel t) := by
  induction fuel generalizing depth t with
  | zero => exact .tooDeep (by omega)
  | succ fuel ih =>
    have hle : depth ≤ maxDepth := by omega
    have hnext : ∀ t, index.Views target (depth + 1) t (index.asSuperWithin target fuel t) :=
      fun t => ih (by omega) t
    cases t with
    | prim p => exact .prim hle
    | array element => exact .array hle
    | var name bound => exact .var hle (hnext bound)
    | object binary args =>
      rw [asSuperWithin]
      split
      · rename_i hself
        subst hself
        exact .itself hle
      split
      · rename_i hne hroot
        exact .root hle hne hroot
      rename_i hne hroot
      cases hget : index.get? binary with
      | none => exact .unknown hle hne hroot hget
      | some d =>
        refine .inherited hle hne hroot hget ?_
        have hfirst := viewsFirst_findSome? hnext
          (d.genericSupertypes.map (·.subst (.ofArguments d.typeParams args)))
        rw [List.findSome?_map] at hfirst
        exact hfirst

theorem Visits.unique {seen queue result result' : List String}
    (h : index.Visits seen queue result) (h' : index.Visits seen queue result') :
    result = result' := by
  induction h with
  | idle seen =>
    cases h'
    rfl
  | next _ ih =>
    cases h' with
    | next h' => exact ih h'

theorem exists_fuel {depth fuel : Nat} (hle : depth ≤ maxDepth)
    (hfuel : depth + fuel = maxDepth + 1) :
    ∃ rest, fuel = rest + 1 ∧ depth + 1 + rest = maxDepth + 1 :=
  ⟨fuel - 1, by omega, by omega⟩

mutual

theorem Views.eq {depth fuel : Nat} {t : GenericType} {result : Option (List TypeArgument)}
    (h : index.Views target depth t result) (hfuel : depth + fuel = maxDepth + 1) :
    result = index.asSuperWithin target fuel t := by
  cases h with
  | tooDeep hdeep =>
    obtain rfl : fuel = 0 := by omega
    rfl
  | prim hle | array hle =>
    obtain ⟨rest, rfl, -⟩ := exists_fuel hle hfuel
    rfl
  | var hle hbound =>
    obtain ⟨rest, rfl, hrest⟩ := exists_fuel hle hfuel
    exact hbound.eq hrest
  | itself hle =>
    obtain ⟨rest, rfl, -⟩ := exists_fuel hle hfuel
    rw [asSuperWithin, if_pos rfl]
  | root hle hne hroot =>
    obtain ⟨rest, rfl, -⟩ := exists_fuel hle hfuel
    rw [asSuperWithin, if_neg hne, if_pos hroot]
  | unknown hle hne hroot hget =>
    obtain ⟨rest, rfl, -⟩ := exists_fuel hle hfuel
    rw [asSuperWithin, if_neg hne, if_neg hroot, hget]
    rfl
  | inherited hle hne hroot hget hfirst =>
    obtain ⟨rest, rfl, hrest⟩ := exists_fuel hle hfuel
    rw [asSuperWithin, if_neg hne, if_neg hroot, hget, hfirst.eq hrest, List.findSome?_map]
    rfl

theorem ViewsFirst.eq {depth fuel : Nat} {ts : List GenericType}
    {result : Option (List TypeArgument)} (h : index.ViewsFirst target depth ts result)
    (hfuel : depth + fuel = maxDepth + 1) :
    result = ts.findSome? (index.asSuperWithin target fuel) := by
  cases h with
  | none => rfl
  | here h => rw [List.findSome?_cons, ← h.eq hfuel]
  | later h hlater => rw [List.findSome?_cons, ← h.eq hfuel, ← hlater.eq hfuel]

end

/-! ## Chains of supertypes -/

/-- A declared supertype, the root class included. -/
def DirectlyBelow (index : TypeIndex) (a b : String) : Prop :=
  ∃ d, index.get? a = some d ∧ b ∈ d.directSupertypes

/-- A chain of so many declared supertypes. -/
inductive Climbs (index : TypeIndex) : Nat → String → String → Prop
  | stay (a : String) : Climbs index 0 a a
  | up {n : Nat} {a b c : String} : index.DirectlyBelow a b → Climbs index n b c →
      Climbs index (n + 1) a c

/-- A declared supertype is the root class or one that the search by name follows. -/
theorem DirectlyBelow.extends (h : index.DirectlyBelow a b) :
    b = objectName ∨ index.Extends a b := by
  obtain ⟨d, hd, hb⟩ := h
  by_cases hroot : b = objectName
  · exact .inl hroot
  · refine .inr ?_
    rw [Extends, parents, hd]
    exact List.mem_filter.2 ⟨hb, by simpa using hroot⟩

/-- A chain to another type goes on from a declared supertype. -/
theorem exists_lt_climbs_iff (hne : a ≠ c) {k : Nat} :
    (∃ n < k + 1, index.Climbs n a c) ↔
      ∃ b, index.DirectlyBelow a b ∧ ∃ n < k, index.Climbs n b c := by
  constructor
  · rintro ⟨n, hn, hchain⟩
    cases hchain with
    | stay => exact absurd rfl hne
    | up hab hbc => exact ⟨_, hab, _, Nat.lt_of_succ_lt_succ hn, hbc⟩
  · rintro ⟨b, hab, n, hn, hbc⟩
    exact ⟨n + 1, Nat.succ_lt_succ hn, .up hab hbc⟩

/-- Nothing is above the root class, so a chain that does not end there never comes by. -/
theorem Climbs.reaches {n : Nat} (hroot : index.supertypes objectName = [])
    (h : index.Climbs n a c) : c = objectName ∨ ReflTransGen index.Extends a c := by
  induction h with
  | stay a => exact .inr .refl
  | @up n a b c hab _ ih =>
    rcases ih with rfl | hbc
    · exact .inl rfl
    rcases hab.extends with rfl | hext
    · refine .inl ?_
      by_contra hne
      have habove : c ∈ index.supertypes objectName := mem_supertypes_iff.2 ⟨hne, .inl hbc⟩
      rw [hroot] at habove
      cases habove
    · exact .inr (.head hext hbc)

theorem Climbs.isSubtype {n : Nat} (hroot : index.supertypes objectName = [])
    (h : index.Climbs n a c) : index.isSubtype a c = true := by
  rw [isSubtype_iff]
  by_cases hself : a = c
  · exact .inl hself
  · exact .inr (mem_supertypes_iff.2 ⟨Ne.symm hself, (h.reaches hroot).symm⟩)

/-! ## Views of class types -/

section Agreement

variable (hnames : ∀ binary d, index.get? binary = some d → d.NamesSupertypes)

include hnames

theorem isSome_asSuperWithin_iff {fuel : Nat} {args : List TypeArgument} :
    (index.asSuperWithin c fuel (.object a args)).isSome = true ↔
      0 < fuel ∧ (c = objectName ∨ ∃ n < fuel, index.Climbs n a c) := by
  induction fuel generalizing a args with
  | zero => simp [asSuperWithin]
  | succ fuel ih =>
    rw [asSuperWithin]
    split
    · rename_i hself
      subst hself
      exact iff_of_true rfl ⟨Nat.succ_pos _, .inr ⟨0, Nat.succ_pos _, .stay _⟩⟩
    split
    · rename_i hroot
      exact iff_of_true rfl ⟨Nat.succ_pos _, .inl hroot⟩
    rename_i hne hroot
    simp only [hroot, false_or, Nat.succ_pos, true_and, exists_lt_climbs_iff hne]
    cases hget : index.get? a with
    | none =>
      refine iff_of_false Bool.false_ne_true ?_
      rintro ⟨b, ⟨d, hd, -⟩, -⟩
      rw [hget] at hd
      cases hd
    | some d =>
      rw [Option.bind_eq_bind, Option.bind_some, List.findSome?_isSome_iff]
      have hnamed := hnames a d hget
      constructor
      · rintro ⟨t, ht, hview⟩
        obtain ⟨b, bargs, rfl⟩ := hnamed.isObject t ht
        obtain ⟨-, hchain⟩ := ih.1 hview
        exact ⟨b, ⟨d, hget, (hnamed.named b).2 ⟨bargs, ht⟩⟩, hchain.resolve_left hroot⟩
      · rintro ⟨b, ⟨d', hd', hb⟩, n, hn, hchain⟩
        obtain rfl : d = d' := Option.some.inj (hget.symm.trans hd')
        obtain ⟨bargs, ht⟩ := (hnamed.named b).1 hb
        exact ⟨_, ht, ih.2 ⟨by omega, .inr ⟨n, hn, hchain⟩⟩⟩

theorem isSome_asSuper?_iff {args : List TypeArgument} :
    (index.asSuper? (.object a args) c).isSome = true ↔
      c = objectName ∨ ∃ n ≤ maxDepth, index.Climbs n a c := by
  rw [asSuper?, isSome_asSuperWithin_iff hnames, and_iff_right (Nat.succ_pos maxDepth)]
  exact or_congr_right (exists_congr fun n => and_congr_left' Nat.lt_succ_iff)

end Agreement

/-- Both searches end, each with the one outcome that its steps allow. Where declarations give the
same supertypes with and without arguments, and the root class has none, a class type is seen only
as what its name is below, and it is seen as itself, as the root class, and as everything that a
chain of at most 64 declared supertypes leads to. -/
theorem asSuper?_agrees_isSubtype (index : TypeIndex) :
    (∀ a result, index.Visits [a] [a] result ↔ result = index.properChain a) ∧
    (∀ t c result, index.Views c 0 t result ↔ result = index.asSuper? t c) ∧
    (index.supertypes objectName = [] →
      (∀ binary d, index.get? binary = some d → d.NamesSupertypes) → ∀ a args c,
        ((index.asSuper? (.object a args) c).isSome = true → index.isSubtype a c = true) ∧
        (a = c ∨ c = objectName ∨ (∃ n ≤ 64, index.Climbs n a c) →
          (index.asSuper? (.object a args) c).isSome = true)) := by
  refine ⟨fun a result => ⟨fun h => h.unique (visits_properChain index a), ?_⟩,
    fun t c result => ⟨fun h => h.eq (Nat.zero_add _), ?_⟩, fun hroot hnames a args c => ?_⟩
  · rintro rfl
    exact visits_properChain index a
  · rintro rfl
    exact views_asSuperWithin (Nat.zero_add _) t
  rw [isSome_asSuper?_iff hnames]
  constructor
  · rintro (rfl | ⟨n, -, hchain⟩)
    · simp [isSubtype]
    · exact hchain.isSubtype hroot
  · rintro (rfl | hroot | hchain)
    · exact .inr ⟨0, Nat.zero_le _, .stay a⟩
    · exact .inl hroot
    · exact .inr hchain

section Instances

/-- A class below an array type of itself, by way of another class that has an unknown interface. -/
def cyclicDeclarations : List TypeDeclaration := [
  { binary := objectName, kind := .class_, origin := .catalogue },
  { binary := "p.A", kind := .class_, origin := .source, superclass := some "p.B"
    typeParams := [⟨"T", .objectClass⟩]
    genericSupers := [.object "p.B" [.exact (.array (.var "T" .objectClass))]] },
  { binary := "p.B", kind := .class_, origin := .source, superclass := some "p.A"
    interfaces := ["p.I"], typeParams := [⟨"U", .objectClass⟩]
    genericSupers := [.object "p.A" [.exact (.var "U" .objectClass)], .raw "p.I"] }]

def cyclicClasses : TypeIndex where
  types := .ofList (cyclicDeclarations.map fun d => (d.binary, d))

theorem namesSupertypes_cyclicClasses (binary : String) (d : TypeDeclaration)
    (hd : cyclicClasses.get? binary = some d) : d.NamesSupertypes := by
  have hall : ∀ d ∈ cyclicDeclarations, d.NamesSupertypes := by
    rw [cyclicDeclarations, List.forall_mem_cons, List.forall_mem_cons, List.forall_mem_singleton]
    refine ⟨TypeDeclaration.namesSupertypes_of_raw rfl, ⟨?_, ?_⟩, ⟨?_, ?_⟩⟩ <;>
      simp [TypeDeclaration.genericSupertypes, TypeDeclaration.directSupertypes, GenericType.raw,
        exists_or]
  obtain ⟨d', hd', heq⟩ := List.mem_map.1 (SortedMap.mem_of_get?_ofList hd)
  cases heq
  exact hall d hd'

theorem asSuper?_agrees_isSubtype_cyclicClasses :
    cyclicClasses.supertypes objectName = [] ∧
      (∀ binary d, cyclicClasses.get? binary = some d → d.NamesSupertypes) ∧
      cyclicClasses.Climbs 2 "p.A" "p.I" ∧
      (cyclicClasses.asSuper? (.object "p.A" [.any]) "p.I").isSome = true ∧
      cyclicClasses.isSubtype "p.A" "p.I" = true ∧
      cyclicClasses.asSuper? (.object "p.A" [.any]) "p.C" = none := by
  have hroot : cyclicClasses.supertypes objectName = [] := by decide +kernel
  have hchain : cyclicClasses.Climbs 2 "p.A" "p.I" :=
    .up (b := "p.B") ⟨_, rfl, .head _⟩ (.up ⟨_, rfl, .tail _ (.head _)⟩ (.stay _))
  obtain ⟨-, -, hagree⟩ := asSuper?_agrees_isSubtype cyclicClasses
  obtain ⟨hsound, hfound⟩ :=
    hagree hroot namesSupertypes_cyclicClasses "p.A" [.any] "p.I"
  obtain ⟨hother, -⟩ := hagree hroot namesSupertypes_cyclicClasses "p.A" [.any] "p.C"
  have hviewed := hfound (.inr (.inr ⟨2, by decide, hchain⟩))
  have hunrelated : cyclicClasses.isSubtype "p.A" "p.C" = false := by decide +kernel
  refine ⟨hroot, namesSupertypes_cyclicClasses, hchain, hviewed, hsound hviewed, ?_⟩
  rw [← Option.not_isSome_iff_eq_none]
  exact fun hsome => Bool.false_ne_true (hunrelated.symm.trans (hother hsome))

end Instances

end TypeIndex

end Renaming.Java
