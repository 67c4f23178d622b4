/-!
# Sorted maps

A finite map as the list of its entries in ascending order of their keys. Two maps with the same
entries are equal, and the order of the entries is the order in which they are shown.
-/

namespace Renaming

/-- Keys with a strict linear order. -/
class Key (κ : Type) where
  before : κ → κ → Bool
  irrefl : ∀ a, before a a = false
  trans : ∀ {a b c}, before a b = true → before b c = true → before a c = true
  eq_of_not_before : ∀ {a b}, before a b = false → before b a = false → a = b

instance : Key String where
  before a b := decide (a < b)
  irrefl a := decide_eq_false (String.lt_irrefl a)
  trans := by
    intro a b c hab hbc
    simp only [decide_eq_true_eq] at *
    exact String.lt_trans hab hbc
  eq_of_not_before := by
    intro a b hab hba
    simp only [decide_eq_false_iff_not, String.not_lt] at *
    exact String.le_antisymm hba hab

instance : Key Nat where
  before a b := decide (a < b)
  irrefl a := by simp
  trans := by
    intro a b c hab hbc
    simp only [decide_eq_true_eq] at *
    exact Nat.lt_trans hab hbc
  eq_of_not_before := by
    intro a b hab hba
    simp only [decide_eq_false_iff_not] at *
    omega

def Entries.Sorted {κ ν : Type} [Key κ] (entries : List (κ × ν)) : Prop :=
  entries.Pairwise fun a b => Key.before a.1 b.1 = true

structure SortedMap (κ ν : Type) [Key κ] where
  entries : List (κ × ν)
  sorted : Entries.Sorted entries

namespace Entries

variable {κ ν : Type} [Key κ]

/-- Puts an entry at its place, replacing one with the same key. -/
def insert (k : κ) (v : ν) : List (κ × ν) → List (κ × ν)
  | [] => [(k, v)]
  | (k', v') :: rest =>
    if Key.before k k' then (k, v) :: (k', v') :: rest
    else if Key.before k' k then (k', v') :: insert k v rest
    else (k, v) :: rest

theorem mem_insert {k : κ} {v : ν} {e : κ × ν} :
    ∀ {l : List (κ × ν)}, e ∈ insert k v l → e = (k, v) ∨ e ∈ l
  | [], h => by simp [insert] at h; exact .inl h
  | (k', v') :: rest, h => by
    rw [insert] at h
    split at h
    · simp only [List.mem_cons] at h ⊢; exact h
    · split at h
      · simp only [List.mem_cons] at h ⊢
        rcases h with h | h
        · exact .inr (.inl h)
        · exact (mem_insert h).imp_right .inr
      · simp only [List.mem_cons] at h ⊢; exact h.imp_right .inr

theorem sorted_insert (k : κ) (v : ν) :
    ∀ {l : List (κ × ν)}, Sorted l → Sorted (insert k v l)
  | [], _ => by simp [insert, Sorted]
  | (k', v') :: rest, h => by
    have hrest := (List.pairwise_cons.1 h).2
    have hhead := (List.pairwise_cons.1 h).1
    rw [insert]
    split
    · rename_i hk
      refine List.pairwise_cons.2 ⟨?_, h⟩
      intro e he
      rcases List.mem_cons.1 he with rfl | he
      · exact hk
      · exact Key.trans hk (hhead e he)
    · rename_i hk
      split
      · rename_i hk'
        refine List.pairwise_cons.2 ⟨?_, sorted_insert k v hrest⟩
        intro e he
        rcases mem_insert he with rfl | he
        · exact hk'
        · exact hhead e he
      · rename_i hk'
        have : k = k' := Key.eq_of_not_before (by simpa using hk) (by simpa using hk')
        subst this
        exact List.pairwise_cons.2 ⟨hhead, hrest⟩

variable [BEq κ] [LawfulBEq κ]

theorem lookup_insert_self (k : κ) (v : ν) :
    ∀ l : List (κ × ν), (insert k v l).lookup k = some v
  | [] => by simp [insert]
  | (k', v') :: rest => by
    rw [insert]
    split
    · simp
    · rename_i hk
      split
      · rename_i hk'
        have hne : (k == k') = false := by
          apply beq_false_of_ne
          rintro rfl
          simp [Key.irrefl] at hk'
        simp [List.lookup_cons, hne, lookup_insert_self k v rest]
      · simp

theorem lookup_insert_of_ne {k j : κ} (v : ν) (h : j ≠ k) :
    ∀ l : List (κ × ν), (insert k v l).lookup j = l.lookup j
  | [] => by simp [insert, List.lookup_cons, beq_false_of_ne h]
  | (k', v') :: rest => by
    rw [insert]
    split
    · simp [List.lookup_cons, beq_false_of_ne h]
    · rename_i hk
      split
      · simp [List.lookup_cons, lookup_insert_of_ne v h rest]
      · rename_i hk'
        have : k = k' := Key.eq_of_not_before (by simpa using hk) (by simpa using hk')
        subst this
        simp [List.lookup_cons, beq_false_of_ne h]

omit [BEq κ] [LawfulBEq κ] in
theorem sorted_filter {l : List (κ × ν)} (p : κ × ν → Bool) (h : Sorted l) :
    Sorted (l.filter p) :=
  List.Pairwise.sublist List.filter_sublist h

end Entries

namespace SortedMap

variable {κ ν : Type} [Key κ]

def empty : SortedMap κ ν := ⟨[], List.Pairwise.nil⟩

instance : EmptyCollection (SortedMap κ ν) := ⟨empty⟩

instance : Inhabited (SortedMap κ ν) := ⟨empty⟩

instance [DecidableEq κ] [DecidableEq ν] : DecidableEq (SortedMap κ ν) := fun a b =>
  decidable_of_iff (a.entries = b.entries) (by cases a; cases b; simp)

variable [BEq κ]

def get? (m : SortedMap κ ν) (k : κ) : Option ν := m.entries.lookup k

def contains (m : SortedMap κ ν) (k : κ) : Bool := (m.get? k).isSome

def insert (m : SortedMap κ ν) (k : κ) (v : ν) : SortedMap κ ν :=
  ⟨Entries.insert k v m.entries, Entries.sorted_insert k v m.sorted⟩

def insertIfNew (m : SortedMap κ ν) (k : κ) (v : ν) : SortedMap κ ν :=
  if m.contains k then m else m.insert k v

def erase (m : SortedMap κ ν) (k : κ) : SortedMap κ ν :=
  ⟨m.entries.filter (fun e => !(e.1 == k)), Entries.sorted_filter _ m.sorted⟩

def filter (m : SortedMap κ ν) (p : κ → ν → Bool) : SortedMap κ ν :=
  ⟨m.entries.filter (fun e => p e.1 e.2), Entries.sorted_filter _ m.sorted⟩

def keys (m : SortedMap κ ν) : List κ := m.entries.map Prod.fst

def values (m : SortedMap κ ν) : List ν := m.entries.map Prod.snd

def size (m : SortedMap κ ν) : Nat := m.entries.length

def isEmpty (m : SortedMap κ ν) : Bool := m.entries.isEmpty

def ofList (l : List (κ × ν)) : SortedMap κ ν := l.foldl (fun m e => m.insert e.1 e.2) empty

variable [LawfulBEq κ]

omit [LawfulBEq κ] in
@[simp] theorem get?_empty (k : κ) : (empty : SortedMap κ ν).get? k = none := rfl

@[simp] theorem get?_insert_self (m : SortedMap κ ν) (k : κ) (v : ν) :
    (m.insert k v).get? k = some v :=
  Entries.lookup_insert_self k v m.entries

theorem get?_insert_of_ne (m : SortedMap κ ν) {k j : κ} (v : ν) (h : j ≠ k) :
    (m.insert k v).get? j = m.get? j :=
  Entries.lookup_insert_of_ne v h m.entries

end SortedMap

end Renaming
