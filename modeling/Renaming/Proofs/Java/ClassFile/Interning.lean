import Renaming.Proofs.Java.ClassFile.Reading

/-!
# Constants put into the pool

Writing only ever adds to the pool of constants, and what it adds refers to what is there. A slot
handed out therefore holds its constant in the finished pool too, so that what is written can be read
back against that pool.
-/

namespace Renaming.Java.ClassFile

namespace ConstantPool

/-- A text that two octets can count, or a class whose name is in the pool. -/
def Admits (pool : ConstantPool) : Constant → Prop
  | .text s => (Bytes.ofText s).length < 65536
  | .classAt name => ∃ s, pool.slot? name = some (.text s)
  | .other _ _ | .unused => False

def Sound (pool : ConstantPool) : Prop := ∀ c ∈ pool, pool.Admits c

variable {pool final : ConstantPool} {c : Constant} {i : Nat}

theorem slot?_of_prefix (h : pool <+: final) (hslot : pool.slot? i = some c) :
    final.slot? i = some c := by
  cases i with
  | zero => exact hslot
  | succ i =>
    obtain ⟨rest, rfl⟩ := h
    obtain ⟨hlt, _⟩ := List.getElem?_eq_some_iff.1 hslot
    exact (List.getElem?_append_left hlt).trans hslot

theorem slot?_bounds (h : pool.slot? i = some c) : 0 < i ∧ i ≤ pool.length := by
  cases i with
  | zero => cases h
  | succ i =>
    obtain ⟨hlt, _⟩ := List.getElem?_eq_some_iff.1 h
    omega

/-- A slot that holds something is given by two octets. -/
theorem slot_lt_of_slot? (h : pool.slot? i = some c) (hlength : pool.length < 65535) :
    i < 65536 := by
  have hbounds := slot?_bounds h
  omega

theorem text_of_slot? {s : String} (h : pool.slot? i = some (.text s)) : pool.text i = .ok s := by
  rw [ConstantPool.text, h]

theorem className_of_slot? {name : Nat} {s : String} (h : pool.slot? i = some (.classAt name))
    (hname : pool.slot? name = some (.text s)) :
    pool.className i = .ok (Text.replaceChar '/' '.' s) := by
  simp only [ConstantPool.className, h, text_of_slot? hname]
  rfl

theorem Admits.of_prefix (h : pool <+: final) (hc : pool.Admits c) : final.Admits c := by
  cases c with
  | text s => exact hc
  | classAt name =>
    obtain ⟨s, hs⟩ := hc
    exact ⟨s, slot?_of_prefix h hs⟩
  | other tag payload => exact hc
  | unused => exact hc

theorem Sound.append_singleton (h : pool.Sound) (hc : pool.Admits c) :
    ConstantPool.Sound (pool ++ [c]) := by
  intro d hd
  apply Admits.of_prefix (List.prefix_append pool [c])
  rcases List.mem_append.1 hd with hold | hnew
  · exact h d hold
  · obtain rfl := List.mem_singleton.1 hnew
    exact hc

/-- The constants of a pool that is sound and not too long can be read back. -/
theorem Sound.fits (h : pool.Sound) (hlength : pool.length < 65535) : ∀ c ∈ pool, c.Fits := by
  intro c hc
  have hadmits := h c hc
  cases c with
  | text s => exact hadmits
  | classAt name =>
    obtain ⟨s, hs⟩ := hadmits
    exact slot_lt_of_slot? hs hlength
  | other tag payload => exact hadmits
  | unused => exact hadmits

end ConstantPool

/-- Onto a sound pool, writing adds constants that keep it sound; and against any pool that goes on
from there and is not too long, what is written means what is said. -/
def Writes {α : Type} (write : PoolWriter α) (Means : ConstantPool → α → Prop) : Prop :=
  ∀ pool : ConstantPool, pool.Sound →
    ConstantPool.Sound (write.run pool).2 ∧ pool <+: (write.run pool).2 ∧
      ∀ final, (write.run pool).2 <+: final → final.length < 65535 →
        Means final (write.run pool).1

namespace Writes

variable {α β : Type} {write : PoolWriter α} {Means : ConstantPool → α → Prop}

theorem pure {a : α} (h : ∀ pool, Means pool a) : Writes (Pure.pure a) Means :=
  fun pool hsound => ⟨hsound, List.prefix_refl pool, fun final _ _ => h final⟩

theorem bind {next : α → PoolWriter β} {Then : ConstantPool → β → Prop} (h : Writes write Means)
    (hnext : ∀ a, Writes (next a) fun final b => Means final a → Then final b) :
    Writes (write >>= next) Then := by
  intro pool hsound
  obtain ⟨hmid, hpre, hmeans⟩ := h pool hsound
  obtain ⟨hafter, hpost, hthen⟩ := hnext (write.run pool).1 _ hmid
  refine ⟨hafter, hpre.trans hpost, fun final hfinal hlength => ?_⟩
  -- The final pool goes on from the one after the first step too.
  exact hthen final hfinal hlength (hmeans final (hpost.trans hfinal) hlength)

theorem mono {Then : ConstantPool → α → Prop} (h : Writes write Means)
    (himp : ∀ final a, Means final a → Then final a) : Writes write Then := by
  intro pool hsound
  obtain ⟨hafter, hpre, hmeans⟩ := h pool hsound
  exact ⟨hafter, hpre, fun final hfinal hlength => himp final _ (hmeans final hfinal hlength)⟩

end Writes

open PoolWriter

/-- The slot handed out holds the constant, which is new unless the pool held it before. -/
theorem slot_spec {pool : ConstantPool} {c : Constant} (hsound : pool.Sound) (hc : pool.Admits c) :
    ConstantPool.Sound (slot c pool).2 ∧ pool <+: (slot c pool).2 ∧
      ConstantPool.slot? (slot c pool).2 (slot c pool).1 = some c := by
  unfold slot
  cases hfound : pool.idxOf? c with
  | some i =>
    obtain ⟨hlt, hget, _⟩ := List.idxOf?_eq_some_iff.1 hfound
    have hslot : pool.slot? (i + 1) = some c := List.getElem?_eq_some_iff.2 ⟨hlt, hget⟩
    exact ⟨hsound, List.prefix_refl pool, hslot⟩
  | none =>
    have hslot : ConstantPool.slot? (pool ++ [c]) (pool.length + 1) = some c :=
      List.getElem?_concat_length
    exact ⟨hsound.append_singleton hc, List.prefix_append pool [c], hslot⟩

/-- The octets give the slot at which the value is looked up. -/
def Names {α : Type} (lookup : Nat → Except ReadError α) (octets : Bytes) (a : α) : Prop :=
  ∃ i, octets = bigEndian 2 i ∧ i < 65536 ∧ lookup i = .ok a

namespace Names

variable {α β : Type} {lookup : Nat → Except ReadError α} {octets back : Bytes} {a : α} {b : β}

theorem reads (h : Names lookup octets a) :
    Reads (ByteReader.number 2 >>= fun i => ByteReader.lift (lookup i)) octets a := by
  obtain ⟨i, rfl, hlt, hlookup⟩ := h
  exact (reads_number hlt).bind (Reads.lift hlookup)

theorem reads_then {next : α → ByteReader β} (h : Names lookup octets a)
    (hnext : Reads (next a) back b) :
    Reads (ByteReader.number 2 >>= fun i => ByteReader.lift (lookup i) >>= next) (octets ++ back)
      b := by
  obtain ⟨i, rfl, hlt, hlookup⟩ := h
  exact (reads_number hlt).bind ((Reads.lift hlookup).bind hnext)

variable {pool : ConstantPool} {s : String}

-- Slot 0 holds nothing, so a slot that was handed out is not taken for none.
theorem text? (h : Names pool.text octets s) : Names pool.text? octets (some s) := by
  obtain ⟨i, hoctets, hlt, htext⟩ := h
  have hi : i ≠ 0 := by
    rintro rfl
    cases htext
  refine ⟨i, hoctets, hlt, ?_⟩
  rw [ConstantPool.text?, if_neg hi, htext]
  rfl

theorem className? (h : Names pool.className octets s) :
    Names pool.className? octets (some s) := by
  obtain ⟨i, hoctets, hlt, hname⟩ := h
  have hi : i ≠ 0 := by
    rintro rfl
    cases hname
  refine ⟨i, hoctets, hlt, ?_⟩
  rw [ConstantPool.className?, if_neg hi, hname]
  rfl

end Names

theorem writes_text {s : String} (h : (Bytes.ofText s).length < 65536) :
    Writes (text s) fun final octets => Names final.text octets s := by
  intro pool hsound
  obtain ⟨hafter, hpre, hslot⟩ := slot_spec hsound (c := .text s) h
  refine ⟨hafter, hpre, fun final hfinal hlength => ?_⟩
  have hin := ConstantPool.slot?_of_prefix hfinal hslot
  exact ⟨_, rfl, ConstantPool.slot_lt_of_slot? hin hlength, ConstantPool.text_of_slot? hin⟩

theorem writes_className {s : String} (h : (Bytes.ofText s).length < 65536) :
    Writes (className s) fun final octets =>
      Names final.className octets (Text.replaceChar '/' '.' s) := by
  intro pool hsound
  obtain ⟨hmid, hpre, hname⟩ := slot_spec hsound (c := .text s) h
  obtain ⟨hafter, hpost, hclass⟩ :=
    slot_spec hmid (c := .classAt (slot (.text s) pool).1) ⟨s, hname⟩
  refine ⟨hafter, hpre.trans hpost, fun final hfinal hlength => ?_⟩
  have hclassIn := ConstantPool.slot?_of_prefix hfinal hclass
  have hnameIn := ConstantPool.slot?_of_prefix (hpost.trans hfinal) hname
  exact ⟨_, rfl, ConstantPool.slot_lt_of_slot? hclassIn hlength,
    ConstantPool.className_of_slot? hclassIn hnameIn⟩

section Each

variable {α β : Type} {write : α → PoolWriter Bytes} {read : ConstantPool → ByteReader β}
  {value : α → β} {items : List α}

theorem each_cons (a : α) :
    each write (a :: items) = do
      let front ← write a
      let back ← each write items
      return front ++ back := by
  simp only [each, List.mapM_cons, bind_assoc, pure_bind, List.flatten_cons]

theorem writes_each
    (h : ∀ a ∈ items, Writes (write a) fun final octets => Reads (read final) octets (value a)) :
    Writes (each write items) fun final octets =>
      ReadsEach (read final) octets (items.map value) := by
  induction items with
  | nil => exact Writes.pure fun _ => ReadsEach.nil
  | cons a items ih =>
    have hrest := ih fun b hb => h b (List.mem_cons_of_mem a hb)
    rw [each_cons]
    apply (h a List.mem_cons_self).bind
    intro front
    apply hrest.bind
    intro back
    exact Writes.pure fun final hback hfront => ReadsEach.cons hfront hback

theorem writes_counted
    (h : ∀ a ∈ items, Writes (write a) fun final octets => Reads (read final) octets (value a))
    (hcount : items.length < 65536) :
    Writes (PoolWriter.counted write items) fun final octets =>
      Reads (ByteReader.counted (read final)) octets (items.map value) := by
  apply (writes_each h).bind
  intro octets
  apply Writes.pure
  intro final hoctets
  have hlength : (items.map value).length = items.length := List.length_map value
  have hreads := hoctets.counted (by omega)
  rwa [hlength] at hreads

end Each

end Renaming.Java.ClassFile
