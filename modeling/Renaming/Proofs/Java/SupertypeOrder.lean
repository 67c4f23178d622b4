import Mathlib.Data.List.Basic
import Mathlib.Data.Nat.Find
import Mathlib.Order.Bounds.Basic
import Renaming.Proofs.Java.Declared.Rounds
import Renaming.Proofs.Java.SupertypeViews

/-!
# The order of supertypes

The visit of a type ends with an empty queue. What it has met by then is a list that tells its own
order: behind the type stand, once each, the supertypes that the types of the list name, in the
order of these types and of their declarations. So nearer types come first, and of two supertypes
of one type the one that is declared first, unless the other one was named earlier in the list.
-/

namespace Renaming.Java

/-! ## First places in lists -/

section Places

variable {x y : String}

theorem idxOf_cons_lt_iff {first : String} {rest : List String} :
    (first :: rest).idxOf x < (first :: rest).idxOf y ↔
      first ≠ y ∧ (first = x ∨ rest.idxOf x < rest.idxOf y) := by
  by_cases hy : first = y
  · subst hy
    simp
  · rw [List.idxOf_cons_ne _ hy]
    by_cases hx : first = x
    · subst hx
      simp [hy]
    · rw [List.idxOf_cons_ne _ hx, Nat.succ_lt_succ_iff]
      simp [hy, hx]

theorem idxOf_filter_lt_iff {p : String → Bool} (hx : p x = true) (hy : p y = true)
    (l : List String) : (l.filter p).idxOf x < (l.filter p).idxOf y ↔ l.idxOf x < l.idxOf y := by
  induction l with
  | nil => rfl
  | cons first rest ih =>
    by_cases hfirst : p first = true
    · rw [List.filter_cons_of_pos hfirst, idxOf_cons_lt_iff, idxOf_cons_lt_iff, ih]
    · have hxf : first ≠ x := by
        rintro rfl
        exact hfirst hx
      have hyf : first ≠ y := by
        rintro rfl
        exact hfirst hy
      rw [List.filter_cons_of_neg hfirst, ih, idxOf_cons_lt_iff]
      simp [hxf, hyf]

/-- Dropping what is taken or repeated keeps the order of the first places. -/
theorem idxOf_fresh_lt_iff {taken : List String} (hx : x ∉ taken) (hy : y ∉ taken)
    (l : List String) : (fresh taken l).idxOf x < (fresh taken l).idxOf y ↔
      l.idxOf x < l.idxOf y := by
  induction l generalizing taken with
  | nil => rfl
  | cons first rest ih =>
    rw [fresh, idxOf_cons_lt_iff]
    by_cases htaken : first ∈ taken
    · have hxf : first ≠ x := fun heq => hx (heq ▸ htaken)
      have hyf : first ≠ y := fun heq => hy (heq ▸ htaken)
      rw [if_pos (List.contains_iff_mem.2 htaken), ih hx hy]
      simp [hxf, hyf]
    · rw [if_neg (mt List.contains_iff_mem.1 htaken), idxOf_cons_lt_iff]
      by_cases hxf : first = x
      · simp [hxf]
      · by_cases hyf : first = y
        · simp [hyf]
        · have hx' : x ∉ first :: taken := by simp [Ne.symm hxf, hx]
          have hy' : y ∉ first :: taken := by simp [Ne.symm hyf, hy]
          rw [ih hx' hy']

/-- In lists one after the other `x` comes before `y` if one of them has `x` before `y`, and none
before it has `y`. -/
theorem idxOf_flatMap_lt_iff {f : String → List String} {l : List String} :
    (l.flatMap f).idxOf x < (l.flatMap f).idxOf y ↔ ∃ before a after, l = before ++ a :: after ∧
      (∀ e ∈ before, y ∉ f e) ∧ (f a).idxOf x < (f a).idxOf y := by
  induction l with
  | nil => simp
  | cons a rest ih =>
    have hcons : (∃ before b after, a :: rest = before ++ b :: after ∧ (∀ e ∈ before, y ∉ f e) ∧
        (f b).idxOf x < (f b).idxOf y) ↔ (f a).idxOf x < (f a).idxOf y ∨
          y ∉ f a ∧ (rest.flatMap f).idxOf x < (rest.flatMap f).idxOf y := by
      rw [ih]
      constructor
      · rintro ⟨before, b, after, hsplit, hfree, hlt⟩
        cases before with
        | nil =>
          cases hsplit
          exact .inl hlt
        | cons first before =>
          cases hsplit
          rw [List.forall_mem_cons] at hfree
          exact .inr ⟨hfree.1, before, b, after, rfl, hfree.2, hlt⟩
      · rintro (hlt | ⟨hy, before, b, after, rfl, hfree, hlt⟩)
        · exact ⟨[], a, rest, rfl, by simp, hlt⟩
        · exact ⟨a :: before, b, after, rfl, List.forall_mem_cons.2 ⟨hy, hfree⟩, hlt⟩
    rw [hcons, List.flatMap_cons]
    by_cases hx : x ∈ f a
    · have hplace := List.idxOf_lt_length_of_mem hx
      rw [List.idxOf_append_of_mem hx]
      by_cases hy : y ∈ f a
      · simp [List.idxOf_append_of_mem hy, hy]
      · rw [List.idxOf_append_of_notMem hy, List.idxOf_of_notMem hy]
        exact iff_of_true (by omega) (.inl hplace)
    · rw [List.idxOf_append_of_notMem hx, List.idxOf_of_notMem hx]
      by_cases hy : y ∈ f a
      · have hplace := List.idxOf_lt_length_of_mem hy
        rw [List.idxOf_append_of_mem hy]
        exact iff_of_false (by omega) (by rintro (hlt | ⟨hnot, -⟩); omega; exact hnot hy)
      · rw [List.idxOf_append_of_notMem hy, List.idxOf_of_notMem hy]
        simp [hy]

end Places

section Fresh

variable {taken taken' : List String}

theorem fresh_congr (h : ∀ name, name ∈ taken ↔ name ∈ taken') (l : List String) :
    fresh taken l = fresh taken' l := by
  induction l generalizing taken taken' with
  | nil => rfl
  | cons first rest ih =>
    have hcontains : taken.contains first = taken'.contains first := by
      rw [Bool.eq_iff_iff, List.contains_iff_mem, List.contains_iff_mem, h]
    have hcons : ∀ name, name ∈ first :: taken ↔ name ∈ first :: taken' := by simp [h]
    rw [fresh, fresh, hcontains, ih h, ih hcons]

theorem fresh_append (taken l m : List String) :
    fresh taken (l ++ m) = fresh taken l ++ fresh (taken ++ fresh taken l) m := by
  induction l generalizing taken with
  | nil => simp [fresh]
  | cons first rest ih =>
    rw [List.cons_append, fresh, fresh]
    split
    · exact ih taken
    · rw [ih, List.cons_append]
      congr 2
      refine fresh_congr (fun name => ?_) m
      simp only [List.mem_append, List.mem_cons]
      tauto

end Fresh

namespace TypeIndex

variable {index : TypeIndex} {start : String}

/-! ## The visit ends -/

/-- What was met is the start of the visit and, without repetitions, what was named by the types
that were looked at. When the visit ends, these are all types that it has met. -/
theorem Visits.eq_fresh {seen queue all : List String} (h : index.Visits seen queue all)
    (visited : List String) (hseen : seen = visited ++ queue)
    (hnamed : seen = start :: fresh [start] (visited.flatMap index.parents)) :
    all = start :: fresh [start] (all.flatMap index.parents) := by
  induction h generalizing visited with
  | idle seen =>
    rw [List.append_nil] at hseen
    exact hseen ▸ hnamed
  | @next seen queue all current _ ih =>
    refine ih (visited ++ [current]) (by simp [hseen]) ?_
    have htaken : fresh seen (index.parents current) =
        fresh ([start] ++ fresh [start] (visited.flatMap index.parents)) (index.parents current) :=
      congrArg (fresh · (index.parents current)) hnamed
    rw [List.flatMap_append, List.flatMap_singleton, fresh_append, ← htaken, ← List.cons_append,
      ← hnamed]

/-- The types met by a visit are, without repetitions, its start and what these types name. -/
theorem properChain_eq_fresh (index : TypeIndex) (start : String) :
    index.properChain start =
      start :: fresh [start] ((index.properChain start).flatMap index.parents) :=
  (index.visits_properChain start).eq_fresh [] rfl rfl

/-! ## Chains -/

/-- A chain of one or more steps from a type to direct supertypes, through types of the index and
with the root class nowhere in its interior. -/
inductive SupertypeChain (index : TypeIndex) (start : String) : String → Nat → Prop
  | direct {b : String} (hb : b ∈ index.declaredSupertypes start) : SupertypeChain index start b 1
  | further {a b : String} {n : Nat} (front : SupertypeChain index start a n)
      (hinner : a ≠ objectName) (hb : b ∈ index.declaredSupertypes a) :
      SupertypeChain index start b (n + 1)

namespace SupertypeChain

variable {t : String} {n : Nat}

theorem reaches (h : index.SupertypeChain start t n) (ht : t ≠ objectName) :
    Relation.ReflTransGen index.Extends start t := by
  induction h with
  | direct hb => exact .single (extends_iff.2 ⟨hb, ht⟩)
  | further _ hinner hb ih => exact (ih hinner).tail (extends_iff.2 ⟨hb, ht⟩)

theorem of_reaches (h : Relation.ReflTransGen index.Extends start t) :
    t = start ∨ t ≠ objectName ∧ ∃ n, index.SupertypeChain start t n := by
  induction h with
  | refl => exact .inl rfl
  | tail _ hlast ih =>
    obtain ⟨hb, hne⟩ := extends_iff.1 hlast
    rcases ih with rfl | ⟨hinner, n, hchain⟩
    · exact .inr ⟨hne, 1, .direct hb⟩
    · exact .inr ⟨hne, n + 1, .further hchain hinner hb⟩

end SupertypeChain

/-! ## The order of what is met -/

section Order

variable {x y : String}

theorem mem_parents_iff (hx : x ≠ objectName) {a : String} :
    x ∈ index.parents a ↔ x ∈ index.declaredSupertypes a := by
  rw [← Extends, extends_iff]
  exact and_iff_left hx

theorem idxOf_parents_lt_iff (hx : x ≠ objectName) (hy : y ≠ objectName) (a : String) :
    (index.parents a).idxOf x < (index.parents a).idxOf y ↔
      (index.declaredSupertypes a).idxOf x < (index.declaredSupertypes a).idxOf y := by
  rw [parents_eq_filter]
  exact idxOf_filter_lt_iff (by simpa using hx) (by simpa using hy) _

/-- Types are met behind the start in the order in which they are named. -/
theorem idxOf_properChain_lt_iff (hx : x ≠ start) (hy : y ≠ start) :
    (index.properChain start).idxOf x < (index.properChain start).idxOf y ↔
      ((index.properChain start).flatMap index.parents).idxOf x <
        ((index.properChain start).flatMap index.parents).idxOf y := by
  conv_lhs => rw [properChain_eq_fresh, idxOf_cons_lt_iff]
  rw [idxOf_fresh_lt_iff (by simpa using hx) (by simpa using hy)]
  simp [hx.symm, hy.symm]

theorem mem_named_of_mem_properChain (hx : x ∈ index.properChain start) (hne : x ≠ start) :
    x ∈ (index.properChain start).flatMap index.parents := by
  rw [properChain_eq_fresh] at hx
  exact (mem_fresh_iff.1 ((List.mem_cons.1 hx).resolve_left hne)).1

theorem ne_root_of_mem_properChain (hx : x ∈ index.properChain start) (hne : x ≠ start) :
    x ≠ objectName :=
  ((SupertypeChain.of_reaches (mem_properChain_iff.1 hx)).resolve_left hne).1

theorem idxOf_start (index : TypeIndex) (start : String) :
    (index.properChain start).idxOf start = 0 := by
  rw [properChain_eq_fresh]
  exact List.idxOf_cons_self

/-- Whatever names the later one of two types comes no earlier than one that names the other. -/
theorem exists_parent_of_idxOf_lt {a : String} (hya : y ∈ index.parents a) (hx : x ≠ start)
    (hy : y ≠ start)
    (hlt : (index.properChain start).idxOf x < (index.properChain start).idxOf y) :
    ∃ b ∈ index.properChain start, x ∈ index.parents b ∧
      (b = a ∨ (index.properChain start).idxOf b < (index.properChain start).idxOf a) := by
  obtain ⟨before, b, after, hsplit, hfree, hfirst⟩ :=
    idxOf_flatMap_lt_iff.1 ((idxOf_properChain_lt_iff hx hy).1 hlt)
  have hbefore : a ∉ before := fun hmem => hfree a hmem hya
  refine ⟨b, by simp [hsplit], ?_, ?_⟩
  · exact List.idxOf_lt_length_iff.1 (hfirst.trans_le List.idxOf_le_length)
  · by_cases hba : b = a
    · exact .inl hba
    · have hplace : (before ++ b :: after).idxOf b ≤ before.length := by
        by_cases hb : b ∈ before
        · rw [List.idxOf_append_of_mem hb]
          exact List.idxOf_le_length
        · rw [List.idxOf_append_of_notMem hb, List.idxOf_cons_self, Nat.add_zero]
      rw [hsplit, List.idxOf_append_of_notMem hbefore, List.idxOf_cons_ne _ hba]
      exact .inr (by omega)

/-- What is met before a type is no further away: by induction on a chain to that type, the last
step of which starts no earlier than one to the type that was met before. -/
theorem exists_chain_of_idxOf_lt {n : Nat} (hchain : index.SupertypeChain start y n)
    (hroot : y ≠ objectName) (hx : x ≠ start) (hy : y ≠ start)
    (hlt : (index.properChain start).idxOf x < (index.properChain start).idxOf y) :
    ∃ m ≤ n, index.SupertypeChain start x m := by
  have hstart := index.idxOf_start start
  induction hchain generalizing x with
  | @direct y hb =>
    obtain ⟨b, -, hxb, rfl | hearlier⟩ :=
      exists_parent_of_idxOf_lt (extends_iff.2 ⟨hb, hroot⟩) hx hy hlt
    · exact ⟨1, le_rfl, .direct (extends_iff.1 hxb).1⟩
    · omega
  | @further a y n front hinner hb ih =>
    obtain ⟨b, hbmet, hxb, hcomes⟩ :=
      exists_parent_of_idxOf_lt (extends_iff.2 ⟨hb, hroot⟩) hx hy hlt
    have hxb := (extends_iff.1 hxb).1
    rcases hcomes with rfl | hearlier
    · exact ⟨n + 1, le_rfl, .further front hinner hxb⟩
    by_cases hbs : b = start
    · exact ⟨1, by omega, .direct (hbs ▸ hxb)⟩
    · have has : a ≠ start := by
        rintro rfl
        omega
      obtain ⟨m, hm, hchain⟩ := ih hinner hbs has hearlier
      exact ⟨m + 1, by omega, .further hchain (ne_root_of_mem_properChain hbmet hbs) hxb⟩

end Order

/-! ## The list of supertypes -/

/-- Whether a list has the supertypes of a type as a search breadth first comes to them, and behind
them the root class. -/
structure BreadthFirst (index : TypeIndex) (start : String) (listed : List String) : Prop where
  nodup : listed.Nodup
  start_notMem : start ∉ listed
  root_last : start ≠ objectName → ∃ nearer, listed = nearer ++ [objectName] ∧ objectName ∉ nearer
  mem_iff : ∀ t, t ≠ start → t ≠ objectName →
    (t ∈ listed ↔ ∃ n, index.SupertypeChain start t n)
  /-- The shortest chains to types that are listed later are no shorter. -/
  nearest_first : ∀ x ∈ listed, ∀ y ∈ listed, x ≠ objectName → y ≠ objectName →
    listed.idxOf x < listed.idxOf y → ∃ m n, IsLeast {k | index.SupertypeChain start x k} m ∧
      IsLeast {k | index.SupertypeChain start y k} n ∧ m ≤ n
  /-- Types come in the order in which the types of the list, from the first one on, declare them:
  `x` before `y` if one declares `x`, not behind `y`, and none before it declares `y`. -/
  as_declared : ∀ x ∈ listed, ∀ y ∈ listed, x ≠ objectName → y ≠ objectName →
    (listed.idxOf x < listed.idxOf y ↔ ∃ before a after, start :: listed = before ++ a :: after ∧
      (∀ e ∈ before, y ∉ index.declaredSupertypes e) ∧
      (index.declaredSupertypes a).idxOf x < (index.declaredSupertypes a).idxOf y)

section Listed

variable {x y : String} {nearer : List String}

theorem supertypes_eq (hchain : index.properChain start = start :: nearer) :
    index.supertypes start = nearer ++ if start = objectName then [] else [objectName] := by
  rw [supertypes, hchain, List.tail_cons]

theorem mem_nearer (hchain : index.properChain start = start :: nearer)
    (hx : x ∈ index.supertypes start) (hroot : x ≠ objectName) : x ∈ nearer := by
  rw [supertypes_eq hchain] at hx
  refine (List.mem_append.1 hx).resolve_right fun hlast => hroot ?_
  split at hlast
  · cases hlast
  · exact List.mem_singleton.1 hlast

/-- Types other than the root class are listed in the order in which they are met. -/
theorem idxOf_supertypes_lt_iff (hchain : index.properChain start = start :: nearer)
    (hx : x ∈ nearer) (hy : y ∈ nearer) (hxs : x ≠ start) (hys : y ≠ start) :
    (index.supertypes start).idxOf x < (index.supertypes start).idxOf y ↔
      (index.properChain start).idxOf x < (index.properChain start).idxOf y := by
  rw [supertypes_eq hchain, hchain, List.idxOf_append_of_mem hx, List.idxOf_append_of_mem hy,
    List.idxOf_cons_ne _ hxs.symm, List.idxOf_cons_ne _ hys.symm, Nat.succ_lt_succ_iff]

/-- Shortest chains to listed types, in the order of the list. -/
theorem exists_isLeast_chain (hx : x ∈ index.supertypes start) (hroot : x ≠ objectName) :
    ∃ m, IsLeast {k | index.SupertypeChain start x k} m := by
  classical
  obtain ⟨hstart, hreached⟩ := mem_supertypes_iff.1 hx
  have hchain := (SupertypeChain.of_reaches (hreached.resolve_right hroot)).resolve_left hstart
  exact ⟨Nat.find hchain.2, Nat.find_spec hchain.2, fun k hk => Nat.find_min' hchain.2 hk⟩

/-- The types that are listed name, in this order, what the types that are met name. -/
theorem idxOf_named_lt_iff (hchain : index.properChain start = start :: nearer)
    (hx : x ∈ nearer) (hy : y ∈ nearer) (hxs : x ≠ start) (hys : y ≠ start) :
    ((start :: index.supertypes start).flatMap index.parents).idxOf x <
        ((start :: index.supertypes start).flatMap index.parents).idxOf y ↔
      (index.properChain start).idxOf x < (index.properChain start).idxOf y := by
  have hnamed {z : String} (hz : z ∈ nearer) (hzs : z ≠ start) :
      z ∈ (index.properChain start).flatMap index.parents :=
    mem_named_of_mem_properChain (hchain ▸ List.mem_cons_of_mem _ hz) hzs
  rw [supertypes_eq hchain, ← List.cons_append, ← hchain, List.flatMap_append,
    List.idxOf_append_of_mem (hnamed hx hxs), List.idxOf_append_of_mem (hnamed hy hys),
    idxOf_properChain_lt_iff hxs hys]

end Listed

/-- For every index, cycles and missing types included, the visit of a type ends, in one way only,
and lists its supertypes breadth first. -/
theorem supertypes_breadthFirst (index : TypeIndex) (start : String) :
    (∃ visited, (∀ all, index.Visits [start] [start] all ↔ all = visited) ∧
      index.supertypes start = visited.tail ++ if start = objectName then [] else [objectName]) ∧
    index.BreadthFirst start (index.supertypes start) := by
  obtain ⟨nearer, hchain, hnew⟩ := index.properChain_eq_cons start
  have hlisted := supertypes_eq hchain
  have hplace {x : String} (hx : x ∈ index.supertypes start) (hroot : x ≠ objectName) :
      x ∈ nearer ∧ x ≠ start :=
    have hmem := mem_nearer hchain hx hroot
    ⟨hmem, fun heq => hnew (heq ▸ hmem)⟩
  refine ⟨⟨_, fun all => ⟨fun h => h.unique (index.visits_properChain start), ?_⟩, rfl⟩, ?_⟩
  · rintro rfl
    exact index.visits_properChain start
  refine ⟨index.nodup_supertypes start, fun hmem => (mem_supertypes_iff.1 hmem).1 rfl,
    fun hstart => ?_, fun t hstart hroot => ?_, fun x hx y hy hxroot hyroot hlt => ?_,
    fun x hx y hy hxroot hyroot => ?_⟩
  · rw [if_neg hstart] at hlisted
    have hnodup := index.nodup_supertypes start
    rw [hlisted] at hnodup
    exact ⟨nearer, hlisted, fun hmem =>
      (List.nodup_append.1 hnodup).2.2 _ hmem _ (List.mem_singleton_self _) rfl⟩
  · rw [mem_supertypes_iff]
    constructor
    · rintro ⟨-, hreached | rfl⟩
      · exact ((SupertypeChain.of_reaches hreached).resolve_left hstart).2
      · exact absurd rfl hroot
    · rintro ⟨n, hn⟩
      exact ⟨hstart, .inl (hn.reaches hroot)⟩
  · obtain ⟨m, hm⟩ := exists_isLeast_chain hx hxroot
    obtain ⟨n, hn⟩ := exists_isLeast_chain hy hyroot
    obtain ⟨hxn, hxs⟩ := hplace hx hxroot
    obtain ⟨hyn, hys⟩ := hplace hy hyroot
    obtain ⟨k, hk, hchain⟩ := exists_chain_of_idxOf_lt hn.1 hyroot hxs hys
      ((idxOf_supertypes_lt_iff hchain hxn hyn hxs hys).1 hlt)
    exact ⟨m, n, hm, hn, (hm.2 hchain).trans hk⟩
  · obtain ⟨hxn, hxs⟩ := hplace hx hxroot
    obtain ⟨hyn, hys⟩ := hplace hy hyroot
    rw [idxOf_supertypes_lt_iff hchain hxn hyn hxs hys, ← idxOf_named_lt_iff hchain hxn hyn hxs hys,
      idxOf_flatMap_lt_iff]
    simp only [mem_parents_iff hyroot, idxOf_parents_lt_iff hxroot hyroot]

end TypeIndex

namespace Program

/-- A class that comes to the interface `I` through its superclass and, behind `Y`, through the
interface `J`. -/
def sharedInterface : List ParsedUnit :=
  [.ofText "A.java" ("interface I { } interface Y { } interface J extends Y, I { } " ++
    "class X implements I { } class B extends X implements J { }")]

/-- The supertypes of `J` are not listed in the order in which `J` declares them. -/
theorem shared_interface_listed_first :
    (∀ p ∈ sharedInterface, p.tree.isSome = true) ∧
    (ofUnits {} sharedInterface).index.declaredSupertypes "J" = ["Y", "I"] ∧
    (ofUnits {} sharedInterface).index.supertypes "B" = ["X", "J", "I", "Y", objectName] := by
  decide +kernel

end Program

end Renaming.Java
