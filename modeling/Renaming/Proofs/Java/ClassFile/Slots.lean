import Renaming.Proofs.Java.ClassFile.Interning

/-!
# The slots of constants

The constants of a file stand one after the other, and each takes one slot or two; the slots are
numbered from 1 on. The pool that is read has at the slot where a constant begins that constant, and
nothing that could be named at any other. Main statement: `pool_slots_line_up`, for constants in
every mixture and order.
-/

namespace Renaming.Java.ClassFile

/-- The constants whose content is of no interest. -/
inductive ContentKind where
  | integer
  | float
  | long
  | double
  | string
  | field
  | method
  | interfaceMethod
  | nameAndType
  | methodHandle
  | methodType
  | dynamic
  | invocation
  | module
  | package
  deriving DecidableEq, Repr

namespace ContentKind

def tag : ContentKind → Nat
  | integer => 3
  | float => 4
  | long => 5
  | double => 6
  | string => 8
  | field => 9
  | method => 10
  | interfaceMethod => 11
  | nameAndType => 12
  | methodHandle => 15
  | methodType => 16
  | dynamic => 17
  | invocation => 18
  | module => 19
  | package => 20

/-- How many octets follow the tag: a number, one or two slots, or a slot after a kind. -/
def size : ContentKind → Nat
  | integer | float => 4
  | long | double => 8
  | string | methodType | module | package => 2
  | field | method | interfaceMethod | nameAndType | dynamic | invocation => 4
  | methodHandle => 3

/-- How many slots a constant of the kind takes. -/
def slots : ContentKind → Nat
  | long | double => 2
  | _ => 1

theorem tag_lt (kind : ContentKind) : kind.tag < 256 := by
  cases kind <;> decide

end ContentKind

/-- A constant as it stands in a file. The octets of a text need not be UTF-8. -/
inductive StoredConstant where
  | text (octets : Bytes) (length_le : octets.length ≤ 65535)
  | classAt (name : UInt16)
  | other (kind : ContentKind) (payload : Bytes) (length_eq : payload.length = kind.size)

namespace StoredConstant

/-- The tag of a constant and what follows it. -/
def octets : StoredConstant → Bytes
  | text octets _ => 1 :: bigEndian 2 octets.length ++ octets
  | classAt name => 7 :: bigEndian 2 name.toNat
  | other kind payload _ => UInt8.ofNat kind.tag :: payload

def slots : StoredConstant → Nat
  | other kind _ _ => kind.slots
  | _ => 1

/-- What a reader makes of the constant. -/
def constant : StoredConstant → Constant
  | text octets _ => .text octets.lossyText
  | classAt name => .classAt name.toNat
  | other kind payload _ => .other kind.tag payload

theorem isWide_constant (c : StoredConstant) : c.constant.isWide = (c.slots == 2) := by
  cases c with
  | text octets h => rfl
  | classAt name => rfl
  | other kind payload h => cases kind <;> rfl

theorem slots_cases (c : StoredConstant) : c.slots = 1 ∨ c.slots = 2 := by
  cases c with
  | text octets h => exact .inl rfl
  | classAt name => exact .inl rfl
  | other kind payload h => cases kind <;> simp [slots, ContentKind.slots]

theorem reads (c : StoredConstant) (index : Nat) :
    Reads (readConstant index) c.octets c.constant := by
  cases c with
  | text octets h =>
    have htag : Reads (ByteReader.number 1) [1] 1 := reads_tag (by decide)
    have hlength : Reads (ByteReader.number 2) (bigEndian 2 octets.length) octets.length :=
      reads_number (Nat.lt_succ_of_le h)
    have htext := (Reads.take octets).map fun bytes => Constant.text bytes.lossyText
    exact htag.bind (hlength.bind htext)
  | classAt name =>
    have htag : Reads (ByteReader.number 1) [7] 7 := reads_tag (by decide)
    have hname : Reads (ByteReader.number 2) (bigEndian 2 name.toNat) name.toNat :=
      reads_number name.toNat_lt
    exact htag.bind (hname.map Constant.classAt)
  | other kind payload h =>
    have htake := (Reads.take payload).map (Constant.other kind.tag)
    rw [h] at htake
    refine (reads_tag kind.tag_lt).bind ?_
    cases kind <;> exact htake

/-! ## Pools -/

/-- How many slots the constants take. -/
def slotCount : List StoredConstant → Nat
  | [] => 0
  | c :: later => c.slots + slotCount later

/-- A constant begins at the slot, the first slot being 1. -/
inductive BeginsAt : List StoredConstant → Nat → StoredConstant → Prop
  | here (c : StoredConstant) (later : List StoredConstant) : BeginsAt (c :: later) 1 c
  | later {before c : StoredConstant} {cs : List StoredConstant} {i : Nat} (h : BeginsAt cs i c) :
      BeginsAt (before :: cs) (before.slots + i) c

/-- The pool that is read from the constants. -/
def pool : List StoredConstant → ConstantPool
  | [] => []
  | c :: later => c.constant :: (List.replicate (c.slots - 1) .unused ++ pool later)

theorem reads_readConstants (cs : List StoredConstant) (index : Nat) :
    Reads (readConstants (slotCount cs) index) (cs.flatMap octets) (pool cs) := by
  induction cs generalizing index with
  | nil => exact Reads.pure []
  | cons c later ih =>
    have hfirst := c.reads index
    have hwide := c.isWide_constant
    rw [List.flatMap_cons, slotCount, pool]
    rcases c.slots_cases with hone | htwo
    · rw [hone] at hwide ⊢
      cases later with
      | nil => exact hfirst.bind (Reads.pure [c.constant])
      | cons d later =>
        -- at least one slot is left for what follows
        obtain ⟨slots, hslots⟩ : ∃ slots, slotCount (d :: later) = slots + 1 :=
          Nat.exists_eq_add_one.2 (by
            have hd := d.slots_cases
            rw [slotCount]
            omega)
        have hlater := ih (index + 1)
        rw [hslots] at hlater ⊢
        rw [Nat.add_comm 1, readConstants]
        apply hfirst.bind
        rw [hwide]
        exact hlater.map (c.constant :: ·)
    · rw [htwo] at hwide ⊢
      rw [Nat.add_comm 2, readConstants]
      apply hfirst.bind
      rw [hwide]
      exact (ih (index + 2)).map fun rest => c.constant :: .unused :: rest

/-- The pool is read from the number of its slots, itself counted, and the constants. -/
theorem reads_readPool (cs : List StoredConstant) (h : slotCount cs + 1 < 65536) :
    Reads readPool (bigEndian 2 (slotCount cs + 1) ++ cs.flatMap octets) (pool cs) :=
  (reads_number h).bind (reads_readConstants cs 1)

theorem getElem?_replicate_unused_append {n i : Nat} {pool : ConstantPool} {d : Constant}
    (hd : d ≠ .unused) (h : (List.replicate n .unused ++ pool)[i]? = some d) :
    ∃ j, i = n + j ∧ pool[j]? = some d := by
  by_cases hi : i < n
  · rw [List.getElem?_append_left (by simpa using hi), List.getElem?_replicate, if_pos hi] at h
    exact absurd (Option.some.inj h).symm hd
  · rw [List.getElem?_append_right (by simpa using hi), List.length_replicate] at h
    exact ⟨i - n, by omega, h⟩

/-- A slot holds a constant exactly if that begins there. -/
theorem slot?_pool {cs : List StoredConstant} {i : Nat} {d : Constant} (hd : d ≠ .unused) :
    (pool cs).slot? i = some d ↔ ∃ c, BeginsAt cs i c ∧ c.constant = d := by
  constructor
  · intro h
    induction cs generalizing i with
    | nil => cases i <;> cases h
    | cons c later ih =>
      cases i with
      | zero => cases h
      | succ i =>
        cases i with
        | zero => exact ⟨c, .here c later, Option.some.inj h⟩
        | succ i =>
          obtain ⟨j, rfl, hj⟩ := getElem?_replicate_unused_append hd h
          obtain ⟨found, hfound, rfl⟩ := ih (i := j + 1) hj
          have hslots := c.slots_cases
          have hplace : c.slots - 1 + j + 1 + 1 = c.slots + (j + 1) := by omega
          rw [hplace]
          exact ⟨found, hfound.later, rfl⟩
  · rintro ⟨c, hc, rfl⟩
    clear hd
    induction hc with
    | here c later => rfl
    | @later before c cs i hlater ih =>
      cases i with
      | zero => cases ih
      | succ i =>
        have hslots := before.slots_cases
        have hplace : before.slots + (i + 1) = before.slots - 1 + i + 1 + 1 := by omega
        have hbehind : (List.replicate (before.slots - 1) .unused ++ pool cs)[before.slots - 1 + i]? =
            (pool cs)[i]? := by
          rw [List.getElem?_append_right (by simp)]
          simp
        rw [hplace]
        exact hbehind.trans ih

end StoredConstant

/-! ## Looking up -/

namespace ConstantPool

variable {pool : ConstantPool} {i : Nat}

theorem text_of_ne (h : ∀ s, pool.slot? i ≠ some (.text s)) :
    pool.text i = .error (.badConstant i) := by
  unfold text
  split
  · rename_i s hs
    exact absurd hs (h s)
  · rfl

theorem className_of_classAt {name : Nat} (h : pool.slot? i = some (.classAt name)) :
    pool.className i = (pool.text name).map (Text.replaceChar '/' '.') := by
  rw [className, h]

theorem className_of_ne (h : ∀ name, pool.slot? i ≠ some (.classAt name)) :
    pool.className i = .error (.badConstant i) := by
  unfold className
  split
  · rename_i name hname
    exact absurd hname (h name)
  · rfl

end ConstantPool

namespace StoredConstant

variable {cs : List StoredConstant} {i : Nat}

/-- A text begins at the slot. -/
def TextAt (cs : List StoredConstant) (i : Nat) (octets : Bytes) : Prop :=
  ∃ h, BeginsAt cs i (.text octets h)

/-- A class begins at the slot, with its name at another one. -/
def ClassAt (cs : List StoredConstant) (i : Nat) (name : UInt16) : Prop :=
  BeginsAt cs i (.classAt name)

theorem slot?_pool_text {s : String} :
    (pool cs).slot? i = some (.text s) ↔ ∃ octets, TextAt cs i octets ∧ octets.lossyText = s := by
  rw [slot?_pool (by simp)]
  constructor
  · rintro ⟨c, hc, heq⟩
    cases c with
    | text octets h => exact ⟨octets, ⟨h, hc⟩, Constant.text.inj heq⟩
    | classAt name => cases heq
    | other kind payload h => cases heq
  · rintro ⟨octets, ⟨h, hc⟩, rfl⟩
    exact ⟨_, hc, rfl⟩

theorem slot?_pool_classAt {name : Nat} :
    (pool cs).slot? i = some (.classAt name) ↔ ∃ n, ClassAt cs i n ∧ n.toNat = name := by
  rw [slot?_pool (by simp)]
  constructor
  · rintro ⟨c, hc, heq⟩
    cases c with
    | text octets h => cases heq
    | classAt n => exact ⟨n, hc, Constant.classAt.inj heq⟩
    | other kind payload h => cases heq
  · rintro ⟨n, hn, rfl⟩
    exact ⟨_, hn, rfl⟩

theorem text_pool_eq_ok {octets : Bytes} (h : TextAt cs i octets) :
    (pool cs).text i = .ok octets.lossyText :=
  ConstantPool.text_of_slot? (slot?_pool_text.2 ⟨octets, h, rfl⟩)

theorem text_pool_eq_error (h : ∀ octets, ¬ TextAt cs i octets) :
    (pool cs).text i = .error (.badConstant i) := by
  apply ConstantPool.text_of_ne
  intro s hs
  obtain ⟨octets, htext, -⟩ := slot?_pool_text.1 hs
  exact h octets htext

theorem className_pool_of_classAt {name : UInt16} (h : ClassAt cs i name) :
    (pool cs).className i = ((pool cs).text name.toNat).map (Text.replaceChar '/' '.') :=
  ConstantPool.className_of_classAt (slot?_pool_classAt.2 ⟨name, h, rfl⟩)

theorem className_pool_eq_error (h : ∀ name, ¬ ClassAt cs i name) :
    (pool cs).className i = .error (.badConstant i) := by
  apply ConstantPool.className_of_ne
  intro name hname
  obtain ⟨n, hn, -⟩ := slot?_pool_classAt.1 hname
  exact h n hn

end StoredConstant

open StoredConstant in
/-- Constants that are written one after the other behind the number of their slots are all read,
up to the end of the last one, and every slot names what was written there. A slot where a text
begins gives that text, and each other slot is bad. A slot where a class begins gives the text at
the slot of its name with dots, and that slot is bad where no text begins; each other slot is bad
as well. -/
theorem pool_slots_line_up (cs : List StoredConstant) (hcount : slotCount cs + 1 < 65536) :
    ∃ pool : ConstantPool,
      Reads readPool (bigEndian 2 (slotCount cs + 1) ++ cs.flatMap StoredConstant.octets) pool ∧
      (∀ i s, TextAt cs i (Bytes.ofText s) → pool.text i = .ok s) ∧
      (∀ i octets, TextAt cs i octets → pool.text i = .ok octets.lossyText) ∧
      (∀ i, (∀ octets, ¬ TextAt cs i octets) → pool.text i = .error (.badConstant i)) ∧
      (∀ i name octets, ClassAt cs i name → TextAt cs name.toNat octets →
        pool.className i = .ok (Text.replaceChar '/' '.' octets.lossyText)) ∧
      (∀ i name, ClassAt cs i name → (∀ octets, ¬ TextAt cs name.toNat octets) →
        pool.className i = .error (.badConstant name.toNat)) ∧
      ∀ i, (∀ name, ¬ ClassAt cs i name) → pool.className i = .error (.badConstant i) := by
  refine ⟨pool cs, reads_readPool cs hcount, ?_, fun i octets => text_pool_eq_ok,
    fun i => text_pool_eq_error, ?_, ?_, fun i => className_pool_eq_error⟩
  · intro i s h
    rw [text_pool_eq_ok h, Bytes.lossyText_ofText]
  · intro i name octets hclass htext
    rw [className_pool_of_classAt hclass, text_pool_eq_ok htext]
    rfl
  · intro i name hclass hnone
    rw [className_pool_of_classAt hclass, text_pool_eq_error hnone]
    rfl

/-- A text, a class and a class without a name behind constants of eight and of three octets. -/
def shiftedConstants : List StoredConstant :=
  [.other .long [0, 0, 0, 0, 0, 0, 0, 42] rfl, .text (Bytes.ofText "a/B") (by decide),
    .other .methodHandle [5, 0, 9] rfl, .classAt 3, .classAt 2]

open StoredConstant in
theorem pool_slots_line_up_shiftedConstants :
    slotCount shiftedConstants + 1 < 65536 ∧ ∃ pool : ConstantPool,
      Reads readPool ([0, 7] ++ shiftedConstants.flatMap StoredConstant.octets) pool ∧
      pool.text 3 = .ok "a/B" ∧ pool.text 2 = .error (.badConstant 2) ∧
      pool.className 5 = .ok "a.B" ∧ pool.className 6 = .error (.badConstant 2) := by
  have htext : TextAt shiftedConstants 3 (Bytes.ofText "a/B") := ⟨_, .later (.here _ _)⟩
  have hclass : ClassAt shiftedConstants 5 3 := .later (.later (.later (.here _ _)))
  have hother : ClassAt shiftedConstants 6 2 := .later (.later (.later (.later (.here _ _))))
  -- slot 2 is the second one of the wide constant
  have hnone : ∀ octets, ¬ TextAt shiftedConstants 2 octets := by
    intro octets h
    have hslot := slot?_pool_text.2 ⟨octets, h, rfl⟩
    cases hslot
  obtain ⟨pool, hread, hof, -, hbad, hnamed, hunnamed, -⟩ :=
    pool_slots_line_up shiftedConstants (by decide)
  have hname := hnamed 5 3 _ hclass htext
  rw [Bytes.lossyText_ofText] at hname
  exact ⟨by decide, pool, hread, hof 3 _ htext, hbad 2 hnone, hname, hunnamed 6 2 hother hnone⟩

end Renaming.Java.ClassFile
