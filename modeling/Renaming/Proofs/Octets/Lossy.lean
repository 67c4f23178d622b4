import Renaming.Proofs.Octets

/-!
# Lossy reading of octets

Reading octets that need not be UTF-8 loses nothing of those that are: each character is found where
its encoding stands, whatever follows it.
-/

namespace Renaming.Bytes

theorem readTail_octet {low high : UInt8} {n : Nat} (hn : n < 64) (hlow : low.toNat ≤ n + 128)
    (hhigh : n + 128 ≤ high.toNat) (count value : Nat) (rest : Bytes) :
    readTail (count + 1) low high value (UInt8.ofNat (n + 128) :: rest) =
      readTail count 0x80 0xBF (value * 64 + n) rest := by
  have hoctet : (UInt8.ofNat (n + 128)).toNat = n + 128 := by
    rw [UInt8.toNat_ofNat']
    omega
  have hin : (decide (low ≤ UInt8.ofNat (n + 128)) && decide (UInt8.ofNat (n + 128) ≤ high)) =
      true := by
    simp only [Bool.and_eq_true, decide_eq_true_eq, UInt8.le_iff_toNat_le, hoctet]
    exact ⟨hlow, hhigh⟩
  have hvalue : value * 64 + (n + 128) % 64 = value * 64 + n := by omega
  rw [readTail, if_pos hin, hoctet, hvalue]

theorem readTail_further {n : Nat} (hn : n < 64) (count value : Nat) (rest : Bytes) :
    readTail (count + 1) 0x80 0xBF value (UInt8.ofNat (n + 128) :: rest) =
      readTail count 0x80 0xBF (value * 64 + n) rest := by
  have hlow : (0x80 : UInt8).toNat = 128 := rfl
  have hhigh : (0xBF : UInt8).toNat = 191 := rfl
  exact readTail_octet hn (by omega) (by omega) count value rest

/-- The octets that a character of two octets may go on with. -/
theorem continuation_two : ∀ lead : Fin 32, 2 ≤ lead.val →
    continuation (UInt8.ofNat (lead.val + 192)) = some (0x80, 0xBF, 1) := by
  decide

/-- The second of three octets is bounded where it would be a longer form or a surrogate. -/
theorem continuation_three : ∀ lead : Fin 16, continuation (UInt8.ofNat (lead.val + 224)) =
    some (if lead.val = 0 then 0xA0 else 0x80, if lead.val = 13 then 0x9F else 0xBF, 2) := by
  decide

/-- The second of four octets is bounded where it would be a longer form or beyond the last
character. -/
theorem continuation_four : ∀ lead : Fin 5, continuation (UInt8.ofNat (lead.val + 240)) =
    some (if lead.val = 0 then 0x90 else 0x80, if lead.val = 4 then 0x8F else 0xBF, 3) := by
  decide

/-- A lead octet and what follows it are read as one character. -/
theorem lossyChar_of_continuation {lead : Nat} {low high : UInt8} {follow value : Nat}
    {octets rest : Bytes} (hlead : 128 ≤ lead ∧ lead < 256)
    (hcontinuation : continuation (UInt8.ofNat lead) = some (low, high, follow))
    (htail : readTail follow low high (leadBits (UInt8.ofNat lead) follow) octets =
      (some value, rest)) :
    lossyChar (UInt8.ofNat lead) octets = (Char.ofNat value, rest) := by
  have hnot : ¬ UInt8.ofNat lead < 0x80 := by
    have hlimit : (0x80 : UInt8).toNat = 128 := rfl
    rw [UInt8.lt_iff_toNat_lt, UInt8.toNat_ofNat']
    omega
  rw [lossyChar, if_neg hnot, hcontinuation]
  simp only [htail]

theorem lossyChar_two {v : Nat} (hlow : 127 < v) (hhigh : v ≤ 2047) (rest : Bytes) :
    lossyChar (UInt8.ofNat (v / 64 % 32 + 192)) (UInt8.ofNat (v % 64 + 128) :: rest) =
      (Char.ofNat v, rest) := by
  have hlead := continuation_two ⟨v / 64 % 32, by omega⟩ (by simp only; omega)
  have hbits : leadBits (UInt8.ofNat (v / 64 % 32 + 192)) 1 = v / 64 := by
    simp only [leadBits, UInt8.toNat_ofNat']
    omega
  have hvalue : v / 64 * 64 + v % 64 = v := by omega
  apply lossyChar_of_continuation (by omega) hlead
  rw [hbits, readTail_further (by omega), hvalue, readTail]

theorem lossyChar_three {v : Nat} (hlow : 2047 < v) (hhigh : v ≤ 65535)
    (hvalid : v < 0xD800 ∨ 0xDFFF < v) (rest : Bytes) :
    lossyChar (UInt8.ofNat (v / 4096 % 16 + 224))
        (UInt8.ofNat (v / 64 % 64 + 128) :: UInt8.ofNat (v % 64 + 128) :: rest) =
      (Char.ofNat v, rest) := by
  have hlead := continuation_three ⟨v / 4096 % 16, by omega⟩
  have hbits : leadBits (UInt8.ofNat (v / 4096 % 16 + 224)) 2 = v / 4096 := by
    simp only [leadBits, UInt8.toNat_ofNat']
    omega
  have hvalue : (v / 4096 * 64 + v / 64 % 64) * 64 + v % 64 = v := by omega
  have hfloor : (if v / 4096 % 16 = 0 then (0xA0 : UInt8) else 0x80).toNat ≤
      v / 64 % 64 + 128 := by
    split
    · show 160 ≤ v / 64 % 64 + 128
      omega
    · show 128 ≤ v / 64 % 64 + 128
      omega
  have hceiling : v / 64 % 64 + 128 ≤
      (if v / 4096 % 16 = 13 then (0x9F : UInt8) else 0xBF).toNat := by
    split
    · show v / 64 % 64 + 128 ≤ 159
      omega
    · show v / 64 % 64 + 128 ≤ 191
      omega
  apply lossyChar_of_continuation (by omega) hlead
  rw [hbits, readTail_octet (by omega) hfloor hceiling,
    readTail_further (by omega), hvalue, readTail]

theorem lossyChar_four {v : Nat} (hlow : 65535 < v) (hhigh : v < 0x110000) (rest : Bytes) :
    lossyChar (UInt8.ofNat (v / 262144 % 8 + 240)) (UInt8.ofNat (v / 4096 % 64 + 128) ::
        UInt8.ofNat (v / 64 % 64 + 128) :: UInt8.ofNat (v % 64 + 128) :: rest) =
      (Char.ofNat v, rest) := by
  have hlead := continuation_four ⟨v / 262144 % 8, by omega⟩
  have hbits : leadBits (UInt8.ofNat (v / 262144 % 8 + 240)) 3 = v / 262144 := by
    simp only [leadBits, UInt8.toNat_ofNat']
    omega
  have hvalue : ((v / 262144 * 64 + v / 4096 % 64) * 64 + v / 64 % 64) * 64 + v % 64 = v := by omega
  have hfloor : (if v / 262144 % 8 = 0 then (0x90 : UInt8) else 0x80).toNat ≤
      v / 4096 % 64 + 128 := by
    split
    · show 144 ≤ v / 4096 % 64 + 128
      omega
    · show 128 ≤ v / 4096 % 64 + 128
      omega
  have hceiling : v / 4096 % 64 + 128 ≤
      (if v / 262144 % 8 = 4 then (0x8F : UInt8) else 0xBF).toNat := by
    split
    · show v / 4096 % 64 + 128 ≤ 143
      omega
    · show v / 4096 % 64 + 128 ≤ 191
      omega
  apply lossyChar_of_continuation (by omega) hlead
  rw [hbits, readTail_octet (by omega) hfloor hceiling,
    readTail_further (by omega), readTail_further (by omega), hvalue, readTail]

theorem lossyChar_one {v : Nat} (h : v ≤ 127) (rest : Bytes) :
    lossyChar (UInt8.ofNat v) rest = (Char.ofNat v, rest) := by
  have hoctet : (UInt8.ofNat v).toNat = v := by
    rw [UInt8.toNat_ofNat']
    omega
  have hlow : UInt8.ofNat v < 0x80 := by
    have hlimit : (0x80 : UInt8).toNat = 128 := rfl
    rw [UInt8.lt_iff_toNat_lt]
    omega
  rw [lossyChar, if_pos hlow, hoctet]

/-- A character is read off the front of its encoding. -/
theorem lossyChar_utf8EncodeChar (c : Char) (rest : Bytes) :
    ∃ b octets, String.utf8EncodeChar c ++ rest = b :: octets ∧ lossyChar b octets = (c, rest) := by
  have hcode : c.val.toNat = c.toNat := rfl
  have hvalid : c.toNat < 0xD800 ∨ 0xDFFF < c.toNat ∧ c.toNat < 0x110000 := c.valid
  have hback : (Char.ofNat c.toNat, rest) = (c, rest) := by rw [Char.ofNat_toNat]
  simp only [String.utf8EncodeChar, hcode]
  by_cases hone : c.toNat ≤ 127
  · rw [if_pos hone]
    exact ⟨_, _, rfl, (lossyChar_one hone rest).trans hback⟩
  · rw [if_neg hone]
    by_cases htwo : c.toNat ≤ 2047
    · rw [if_pos htwo]
      exact ⟨_, _, rfl, (lossyChar_two (by omega) htwo rest).trans hback⟩
    · rw [if_neg htwo]
      by_cases hthree : c.toNat ≤ 65535
      · rw [if_pos hthree]
        exact ⟨_, _, rfl, (lossyChar_three (by omega) hthree (by omega) rest).trans hback⟩
      · rw [if_neg hthree]
        have hlast : c.toNat < 0x110000 := by omega
        exact ⟨_, _, rfl, (lossyChar_four (by omega) hlast rest).trans hback⟩

theorem lossyChars_flatMap {cs : List Char} {fuel : Nat}
    (h : (cs.flatMap String.utf8EncodeChar).length ≤ fuel) :
    lossyChars fuel (cs.flatMap String.utf8EncodeChar) = cs := by
  induction cs generalizing fuel with
  | nil => cases fuel <;> rfl
  | cons c later ih =>
    obtain ⟨b, octets, heq, hchar⟩ :=
      lossyChar_utf8EncodeChar c (later.flatMap String.utf8EncodeChar)
    have hsize : 0 < (String.utf8EncodeChar c).length := by
      rw [String.length_utf8EncodeChar]
      exact c.utf8Size_pos
    rw [List.flatMap_cons, List.length_append] at h
    cases fuel with
    | zero => omega
    | succ fuel =>
      have hlater : lossyChars fuel (later.flatMap String.utf8EncodeChar) = later :=
        ih (by omega)
      rw [List.flatMap_cons, heq, lossyChars, hchar]
      simp only [hlater]

/-- Octets that encode a text are read as that text. -/
@[simp] theorem lossyText_ofText (s : String) : (ofText s).lossyText = s := by
  rw [lossyText, ofText_eq_flatMap, lossyChars_flatMap le_rfl, String.ofList_toList]

end Renaming.Bytes
