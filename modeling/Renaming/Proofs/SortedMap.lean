import Renaming.SortedMap

/-!
# Sorted maps by their look-up

A sorted map is determined by what it gives for each key. Entries, keys and look-ups say the same,
and every operation is described by its effect on look-ups.
-/

namespace Renaming

namespace Entries

variable {κ ν : Type} [Key κ]

theorem not_before_of_mem {k : κ} {v : ν} {rest : List (κ × ν)} (h : Sorted ((k, v) :: rest))
    {e : κ × ν} (he : e ∈ rest) : e.1 ≠ k := by
  have hlt := (List.pairwise_cons.1 h).1 e he
  intro heq
  rw [heq, Key.irrefl] at hlt
  cases hlt

theorem nodup_of_sorted {l : List (κ × ν)} (h : Sorted l) : l.Nodup := by
  apply List.Pairwise.imp _ h
  rintro a b hab rfl
  rw [Key.irrefl] at hab
  cases hab

/-- Sorted lists with the same members are equal. -/
theorem eq_of_mem_iff {l₁ l₂ : List (κ × ν)} (h₁ : Sorted l₁) (h₂ : Sorted l₂)
    (hmem : ∀ e, e ∈ l₁ ↔ e ∈ l₂) : l₁ = l₂ := by
  have hperm : l₁.Perm l₂ :=
    (List.perm_ext_iff_of_nodup (nodup_of_sorted h₁) (nodup_of_sorted h₂)).2 hmem
  refine hperm.eq_of_pairwise ?_ h₁ h₂
  intro a b _ _ hab hba
  have := Key.trans hab hba
  rw [Key.irrefl] at this
  cases this

theorem lookup_eq_some_iff_mem [BEq κ] [LawfulBEq κ] {k : κ} {v : ν} {l : List (κ × ν)}
    (h : Sorted l) : l.lookup k = some v ↔ (k, v) ∈ l := by
  induction l with
  | nil => simp
  | cons e rest ih =>
    obtain ⟨k', v'⟩ := e
    have hrest : Sorted rest := (List.pairwise_cons.1 h).2
    by_cases hk : k = k'
    · subst hk
      have hnot : (k, v) ∉ rest := fun hm => not_before_of_mem h hm rfl
      simp [hnot, eq_comm]
    · have hne : (k == k') = false := beq_false_of_ne hk
      simp [List.lookup_cons, hne, ih hrest, hk]

/-- A new entry is put somewhere among the others. -/
theorem insert_perm {k : κ} {v : ν} {l : List (κ × ν)} (hnew : k ∉ l.map Prod.fst) :
    (insert k v l).Perm ((k, v) :: l) := by
  induction l with
  | nil => exact .refl _
  | cons e rest ih =>
    obtain ⟨k', v'⟩ := e
    rw [List.map_cons, List.mem_cons, not_or] at hnew
    rw [insert]
    split
    · exact .refl _
    · rename_i hk
      split
      · exact ((ih hnew.2).cons _).trans (.swap ..)
      · rename_i hk'
        exact absurd (Key.eq_of_not_before (by simpa using hk) (by simpa using hk')) hnew.1

end Entries

namespace SortedMap

variable {κ ν : Type} [Key κ] [BEq κ] [LawfulBEq κ]

theorem get?_eq_some_iff {m : SortedMap κ ν} {k : κ} {v : ν} :
    m.get? k = some v ↔ (k, v) ∈ m.entries :=
  Entries.lookup_eq_some_iff_mem m.sorted

theorem get?_of_mem {m : SortedMap κ ν} {e : κ × ν} (h : e ∈ m.entries) :
    m.get? e.1 = some e.2 :=
  get?_eq_some_iff.2 h

theorem ext_get? {a b : SortedMap κ ν} (h : ∀ k, a.get? k = b.get? k) : a = b := by
  have hentries : a.entries = b.entries := by
    apply Entries.eq_of_mem_iff a.sorted b.sorted
    rintro ⟨k, v⟩
    rw [← get?_eq_some_iff, ← get?_eq_some_iff, h k]
  cases a
  cases b
  cases hentries
  rfl

theorem mem_keys_iff {m : SortedMap κ ν} {k : κ} : k ∈ m.keys ↔ ∃ v, m.get? k = some v := by
  simp [keys, get?_eq_some_iff]

theorem get?_eq_none_iff {m : SortedMap κ ν} {k : κ} : m.get? k = none ↔ k ∉ m.keys := by
  rw [mem_keys_iff]
  cases m.get? k <;> simp

theorem contains_iff_mem_keys {m : SortedMap κ ν} {k : κ} : m.contains k = true ↔ k ∈ m.keys := by
  rw [contains, Option.isSome_iff_exists, mem_keys_iff]

theorem get?_insert (m : SortedMap κ ν) (k j : κ) (v : ν) :
    (m.insert k v).get? j = if j == k then some v else m.get? j := by
  by_cases h : j = k
  · subst h
    simp
  · rw [get?_insert_of_ne m v h]
    simp [h]

theorem mem_keys_insert_iff {m : SortedMap κ ν} {k j : κ} {v : ν} :
    j ∈ (m.insert k v).keys ↔ j = k ∨ j ∈ m.keys := by
  rw [mem_keys_iff, mem_keys_iff, get?_insert]
  by_cases hj : j = k
  · simp [hj]
  · simp [hj]

theorem get?_insertIfNew (m : SortedMap κ ν) (k j : κ) (v : ν) :
    (m.insertIfNew k v).get? j = if j == k then some ((m.get? k).getD v) else m.get? j := by
  unfold insertIfNew contains
  cases hk : m.get? k with
  | none => simp [get?_insert]
  | some w =>
    by_cases hj : j = k
    · simp [hj, hk]
    · simp [hj]

theorem get?_foldl_insertIfNew (v : ν) (ks : List κ) (m : SortedMap κ ν) (k : κ) :
    (ks.foldl (fun m a => m.insertIfNew a v) m).get? k =
      if ks.elem k then some ((m.get? k).getD v) else m.get? k := by
  induction ks generalizing m with
  | nil => rfl
  | cons first rest ih =>
    rw [List.foldl_cons, ih, get?_insertIfNew]
    by_cases hk : k = first
    · subst hk
      simp
    · have hne : (k == first) = false := beq_false_of_ne hk
      simp [hne]

/-- Keeps what a key led to, unless something is kept for it already. -/
def remember (m : SortedMap κ ν) (k : κ) : Option ν → SortedMap κ ν
  | none => m
  | some v => m.insertIfNew k v

theorem get?_remember (m : SortedMap κ ν) (k j : κ) (old : Option ν) :
    (m.remember k old).get? j = if j == k then (m.get? k).or old else m.get? j := by
  cases old with
  | none =>
    by_cases hj : j = k
    · simp [remember, hj]
    · simp [remember, hj]
  | some v =>
    rw [remember, get?_insertIfNew]
    cases m.get? k <;> rfl

/-- What is kept before a key is changed hides the change: whoever looks at what is kept first sees
what was there before. -/
theorem get?_remember_or (m : SortedMap κ ν) (current changed : κ → Option ν) {k j : κ} {v : ν}
    (hothers : j ≠ k → changed j = current j) (h : (m.get? j).or (current j) = some v) :
    ((m.remember k (current k)).get? j).or (changed j) = some v := by
  rw [get?_remember]
  by_cases hj : j = k
  · subst hj
    simp [h]
  · simp [hj, hothers hj, h]

/-- Entries of different keys may be put in either order. -/
theorem insert_comm (m : SortedMap κ ν) {j k : κ} (h : j ≠ k) (a b : ν) :
    (m.insert j a).insert k b = (m.insert k b).insert j a := by
  apply ext_get?
  intro i
  simp only [get?_insert]
  by_cases hk : i = k
  · subst hk
    simp [h.symm]
  · simp [hk]

theorem contains_insert_of_ne (m : SortedMap κ ν) {j k : κ} (v : ν) (h : j ≠ k) :
    (m.insert k v).contains j = m.contains j := by
  rw [contains, get?_insert_of_ne m v h, contains]

theorem insertIfNew_comm (m : SortedMap κ ν) {j k : κ} (h : j ≠ k) (a b : ν) :
    (m.insertIfNew j a).insertIfNew k b = (m.insertIfNew k b).insertIfNew j a := by
  unfold insertIfNew
  by_cases hj : m.contains j = true
  · by_cases hk : m.contains k = true
    · simp [hj, hk]
    · simp [hj, hk, contains_insert_of_ne m b h]
  · by_cases hk : m.contains k = true
    · simp [hj, hk, contains_insert_of_ne m a h.symm]
    · simp [hj, hk, contains_insert_of_ne m a h.symm, contains_insert_of_ne m b h,
        insert_comm m h a b]

theorem get?_filter (m : SortedMap κ ν) (p : κ → ν → Bool) (k : κ) :
    (m.filter p).get? k = (m.get? k).filter (p k) := by
  apply Option.ext
  intro v
  rw [get?_eq_some_iff, Option.filter_eq_some_iff, get?_eq_some_iff]
  exact List.mem_filter

/-- What a list of entries leads to is in the list. -/
theorem mem_of_get?_ofList {l : List (κ × ν)} {k : κ} {v : ν} (h : (ofList l).get? k = some v) :
    (k, v) ∈ l := by
  have hfold : ∀ (l : List (κ × ν)) (m : SortedMap κ ν),
      (l.foldl (fun m e => m.insert e.1 e.2) m).get? k = some v →
        (k, v) ∈ l ∨ m.get? k = some v := by
    intro l
    induction l with
    | nil => exact fun m h => .inr h
    | cons e rest ih =>
      intro m h
      rcases ih _ h with h | h
      · exact .inl (List.mem_cons_of_mem _ h)
      · rw [get?_insert] at h
        split at h
        · rename_i hk
          cases h
          rw [eq_of_beq hk]
          exact .inl List.mem_cons_self
        · exact .inr h
  rcases hfold l empty h with h | h
  · exact h
  · cases h

/-- Every key of a list of entries leads somewhere. -/
theorem contains_ofList {l : List (κ × ν)} {e : κ × ν} (h : e ∈ l) :
    (ofList l).contains e.1 = true := by
  have hfold : ∀ (l : List (κ × ν)) (m : SortedMap κ ν), e ∈ l ∨ m.contains e.1 = true →
      (l.foldl (fun m e => m.insert e.1 e.2) m).contains e.1 = true := by
    intro l
    induction l with
    | nil => exact fun m h => h.resolve_left (by simp)
    | cons first rest ih =>
      intro m h
      refine ih _ ?_
      simp only [contains, get?_insert]
      rcases h with h | h
      · rcases List.mem_cons.1 h with rfl | h
        · simp
        · exact .inl h
      · split
        · simp
        · exact .inr h
  exact hfold l empty (.inl h)

theorem mem_keys_ofList_iff {l : List (κ × ν)} {k : κ} :
    k ∈ (ofList l).keys ↔ k ∈ l.map Prod.fst := by
  constructor
  · intro hk
    obtain ⟨v, hv⟩ := mem_keys_iff.1 hk
    exact List.mem_map_of_mem (mem_of_get?_ofList hv)
  · intro hk
    obtain ⟨e, he, rfl⟩ := List.mem_map.1 hk
    exact contains_iff_mem_keys.1 (contains_ofList he)

theorem get?_ofList_map {μ : Type} (l : List (κ × ν)) (φ : ν → μ) (k : κ) :
    (ofList (l.map fun e => (e.1, φ e.2))).get? k = ((ofList l).get? k).map φ := by
  have hfold : ∀ (l : List (κ × ν)) (m : SortedMap κ ν) (m' : SortedMap κ μ),
      m'.get? k = (m.get? k).map φ →
        ((l.map fun e => (e.1, φ e.2)).foldl (fun m e => m.insert e.1 e.2) m').get? k =
          ((l.foldl (fun m e => m.insert e.1 e.2) m).get? k).map φ := by
    intro l
    induction l with
    | nil => exact fun _ _ h => h
    | cons e rest ih =>
      intro m m' h
      refine ih _ _ ?_
      rw [get?_insert, get?_insert]
      split
      · rfl
      · exact h
  exact hfold l empty empty rfl

/-- Entries are found again under other keys that are told apart. -/
theorem get?_ofList_mapKeys (l : List (κ × ν)) {φ : κ → κ} (hφ : Function.Injective φ) (k : κ) :
    (ofList (l.map fun e => (φ e.1, e.2))).get? (φ k) = (ofList l).get? k := by
  have hfold : ∀ (l : List (κ × ν)) (m m' : SortedMap κ ν), m'.get? (φ k) = m.get? k →
      ((l.map fun e => (φ e.1, e.2)).foldl (fun m e => m.insert e.1 e.2) m').get? (φ k) =
        (l.foldl (fun m e => m.insert e.1 e.2) m).get? k := by
    intro l
    induction l with
    | nil => exact fun _ _ h => h
    | cons e rest ih =>
      intro m m' h
      refine ih _ _ ?_
      have hkey : (φ k == φ e.1) = (k == e.1) := by
        rw [Bool.eq_iff_iff, beq_iff_eq, beq_iff_eq, hφ.eq_iff]
      rw [get?_insert, get?_insert, hkey, h]
  exact hfold l empty empty rfl

omit [BEq κ] [LawfulBEq κ] in
/-- The keys of a map are given by which keys they are. -/
theorem keys_eq_of_mem_iff {μ : Type} {a : SortedMap κ ν} {b : SortedMap κ μ}
    (h : ∀ k, k ∈ a.keys ↔ k ∈ b.keys) : a.keys = b.keys := by
  have hsorted : ∀ {ξ : Type} (m : SortedMap κ ξ),
      Entries.Sorted (m.keys.map fun k => (k, ())) := by
    intro ξ m
    rw [keys, List.map_map]
    exact List.Pairwise.map _ (fun _ _ hab => hab) m.sorted
  have hmap : a.keys.map (fun k => (k, ())) = b.keys.map fun k => (k, ()) := by
    apply Entries.eq_of_mem_iff (hsorted a) (hsorted b)
    rintro ⟨k, -⟩
    simpa using h k
  exact (List.map_inj_right fun _ _ hkk => (Prod.mk.inj hkk).1).1 hmap

/-- A map is what its own entries make. -/
theorem ofList_entries (m : SortedMap κ ν) : ofList m.entries = m := by
  apply ext_get?
  intro k
  cases hk : m.get? k with
  | some v =>
    have hmem := get?_eq_some_iff.1 hk
    obtain ⟨w, hw⟩ := Option.isSome_iff_exists.1 (contains_ofList hmem)
    rw [hw, ← hk, get?_of_mem (mem_of_get?_ofList hw)]
  | none =>
    cases hw : (ofList m.entries).get? k with
    | none => rfl
    | some w =>
      rw [get?_of_mem (mem_of_get?_ofList hw)] at hk
      cases hk

omit [BEq κ] [LawfulBEq κ] in
theorem nodup_keys (m : SortedMap κ ν) : m.keys.Nodup := by
  refine List.Pairwise.map Prod.fst ?_ m.sorted
  rintro a b hab heq
  rw [heq, Key.irrefl] at hab
  cases hab

end SortedMap

end Renaming
