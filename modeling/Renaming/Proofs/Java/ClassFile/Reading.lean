import Renaming.Java.ClassFile.Reader
import Renaming.Java.ClassFile.Writer
import Renaming.Proofs.Octets.Lossy

/-!
# Octets of class files read back

A reader takes the octets of a value off the front of whatever follows them. This is put together as
readers are: one after the other, a number of times, or as many times as a count says. Numbers,
constants and the pool of constants are read back from their octets.
-/

namespace Renaming.Java.ClassFile

/-- The reader takes the octets off the front and gives the value. -/
def Reads {α : Type} (read : ByteReader α) (octets : Bytes) (a : α) : Prop :=
  ∀ offset rest, read ⟨offset, octets ++ rest⟩ = .ok (a, ⟨offset + octets.length, rest⟩)

namespace Reads

variable {α β : Type} {read : ByteReader α} {front back : Bytes} {a : α} {b : β}

theorem pure (a : α) : Reads (Pure.pure a) [] a := fun _ _ => rfl

theorem bind {next : α → ByteReader β} (h : Reads read front a) (hnext : Reads (next a) back b) :
    Reads (read >>= next) (front ++ back) b := by
  intro offset rest
  have hfirst := h offset (back ++ rest)
  have hthen := hnext (offset + front.length) rest
  rw [List.append_assoc, List.length_append, ← Nat.add_assoc, ← hthen]
  show (read _).bind _ = _
  rw [hfirst]
  rfl

theorem map (f : α → β) (h : Reads read front a) :
    Reads (read >>= fun a => Pure.pure (f a)) front (f a) := by
  rw [← List.append_nil front]
  exact h.bind (Reads.pure (f a))

/-- A step that takes no octets. -/
theorem lift {e : Except ReadError α} (h : e = .ok a) : Reads (ByteReader.lift e) [] a := by
  subst h
  exact Reads.pure a

theorem take (octets : Bytes) : Reads (ByteReader.take octets.length) octets octets := by
  intro offset rest
  unfold ByteReader.take
  simp

end Reads

theorem length_bigEndian (n value : Nat) : (bigEndian n value).length = n := by
  induction n generalizing value with
  | zero => rfl
  | succ n ih => rw [bigEndian, List.length_append, ih, List.length_singleton]

/-- The value of octets, the highest first, is the number they were made of, as far as they reach. -/
theorem foldl_bigEndian (n value : Nat) :
    (bigEndian n value).foldl (fun value b => value * 256 + b.toNat) 0 = value % Nat.pow 256 n := by
  induction n generalizing value with
  | zero => exact (Nat.mod_one value).symm
  | succ n ih =>
    have hoctet : (UInt8.ofNat (value % 256)).toNat = value % 256 := by
      rw [UInt8.toNat_ofNat']
      omega
    have hsplit : value % Nat.pow 256 (n + 1) = value % (256 * Nat.pow 256 n) := by
      rw [Nat.mul_comm]
      rfl
    rw [bigEndian, List.foldl_append, ih, hsplit, Nat.mod_mul]
    simp only [List.foldl_cons, List.foldl_nil, hoctet]
    omega

theorem reads_number_mod (n value : Nat) :
    Reads (ByteReader.number n) (bigEndian n value) (value % Nat.pow 256 n) := by
  have htake := Reads.take (bigEndian n value)
  rw [length_bigEndian] at htake
  rw [← foldl_bigEndian]
  exact htake.map _

theorem reads_number {n value : Nat} (h : value < Nat.pow 256 n) :
    Reads (ByteReader.number n) (bigEndian n value) value := by
  have hread := reads_number_mod n value
  rwa [Nat.mod_eq_of_lt h] at hread

theorem reads_tag {tag : Nat} (h : tag < 256) :
    Reads (ByteReader.number 1) [UInt8.ofNat tag] tag := by
  have hread : Reads (ByteReader.number 1) (bigEndian 1 tag) tag := reads_number h
  have hoctets : bigEndian 1 tag = [UInt8.ofNat (tag % 256)] := rfl
  rwa [hoctets, Nat.mod_eq_of_lt h] at hread

/-- The octets are those of the values, one after the other. -/
inductive ReadsEach {α : Type} (read : ByteReader α) : Bytes → List α → Prop
  | nil : ReadsEach read [] []
  | cons {front back : Bytes} {a : α} {as : List α} :
      Reads read front a → ReadsEach read back as → ReadsEach read (front ++ back) (a :: as)

namespace ReadsEach

variable {α : Type} {read : ByteReader α} {front back : Bytes} {as bs : List α}

theorem append (h : ReadsEach read front as) (hback : ReadsEach read back bs) :
    ReadsEach read (front ++ back) (as ++ bs) := by
  induction h with
  | nil => exact hback
  | cons hfirst _ ih =>
    rw [List.append_assoc]
    exact .cons hfirst ih

theorem times (h : ReadsEach read front as) :
    Reads (ByteReader.times read as.length) front as := by
  induction h with
  | nil => exact Reads.pure []
  | @cons _ _ a _ hfirst _ ih => exact hfirst.bind (ih.map (a :: ·))

theorem counted (h : ReadsEach read front as) (hcount : as.length < 65536) :
    Reads (ByteReader.counted read) (bigEndian 2 as.length ++ front) as :=
  (reads_number hcount).bind h.times

end ReadsEach

/-- A text or a class whose length or slot two octets can hold. -/
def Constant.Fits : Constant → Prop
  | .text s => (Bytes.ofText s).length < 65536
  | .classAt name => name < 65536
  | .other _ _ | .unused => False

theorem Constant.Fits.not_isWide {c : Constant} (h : c.Fits) : c.isWide = false := by
  cases c with
  | text s => rfl
  | classAt name => rfl
  | other tag payload => exact h.elim
  | unused => exact h.elim

theorem reads_constant {c : Constant} (h : c.Fits) (index : Nat) :
    Reads (readConstant index) c.encode c := by
  cases c with
  | text s =>
    have htag : Reads (ByteReader.number 1) [1] 1 := reads_tag (by decide)
    have htext : Reads (ByteReader.take (Bytes.ofText s).length >>= fun bytes =>
        pure (Constant.text bytes.lossyText)) (Bytes.ofText s) (.text s) := by
      have hmap := (Reads.take (Bytes.ofText s)).map fun bytes => Constant.text bytes.lossyText
      rwa [Bytes.lossyText_ofText] at hmap
    have hlength := reads_number (n := 2) h
    exact htag.bind (hlength.bind htext)
  | classAt name =>
    have htag : Reads (ByteReader.number 1) [7] 7 := reads_tag (by decide)
    have hname := reads_number (n := 2) h
    exact htag.bind (hname.map Constant.classAt)
  | other tag payload => exact h.elim
  | unused => exact h.elim

theorem reads_constants {pool : ConstantPool} (h : ∀ c ∈ pool, c.Fits) (index : Nat) :
    Reads (readConstants pool.length index) (pool.flatMap Constant.encode) pool := by
  induction pool generalizing index with
  | nil => exact Reads.pure []
  | cons c later ih =>
    have hc := h c List.mem_cons_self
    have hfirst := reads_constant hc index
    cases later with
    | nil => exact hfirst.bind (Reads.pure [c])
    | cons d later =>
      have hlater := ih (fun e he => h e (List.mem_cons_of_mem c he)) (index + 1)
      rw [List.flatMap_cons, List.length_cons, List.length_cons, readConstants]
      apply hfirst.bind
      rw [hc.not_isWide]
      exact hlater.map (c :: ·)

/-- The pool is read back from its count and its constants. -/
theorem reads_pool {pool : ConstantPool} (h : ∀ c ∈ pool, c.Fits) (hcount : pool.length < 65535) :
    Reads readPool (bigEndian 2 (pool.length + 1) ++ pool.flatMap Constant.encode) pool := by
  have hnumber : pool.length + 1 < 65536 := by omega
  exact (reads_number hnumber).bind (reads_constants h 1)

end Renaming.Java.ClassFile
