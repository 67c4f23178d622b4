import Renaming.Bytes
import Renaming.Proofs.Text

/-!
# Text and its octets

The octets of a text decode to that text, and octets that decode to a text are those of that text.
An octet below 128 stands for one character wherever it is found, so that lines may be cut before
they are decoded.
-/

namespace Renaming.Bytes

theorem toByteArray_ofText (s : String) : (⟨(ofText s).toArray⟩ : ByteArray) = s.toByteArray := rfl

@[simp] theorem text?_ofText (s : String) : (ofText s).text? = some s := by
  have hvalid : s.toByteArray.IsValidUTF8 := s.isValidUTF8
  unfold text?
  rw [toByteArray_ofText, String.fromUTF8?, dif_pos hvalid]
  rfl

theorem ofText_of_text? {content : Bytes} {s : String} (h : content.text? = some s) :
    ofText s = content := by
  unfold text? String.fromUTF8? at h
  split at h
  · cases h
    rfl
  · cases h

theorem ofText_eq_flatMap (s : String) : ofText s = s.toList.flatMap String.utf8EncodeChar := by
  have h : s.toList.utf8Encode = s.toByteArray := String.utf8Encode_toList
  change s.toByteArray.data.toList = _
  rw [← h, List.utf8Encode]
  simp

@[simp] theorem ofText_append (s t : String) : ofText (s ++ t) = ofText s ++ ofText t := by
  simp [ofText_eq_flatMap]

theorem utf8EncodeChar_ne_nil (c : Char) : String.utf8EncodeChar c ≠ [] := by
  intro hnil
  have := c.utf8Size_pos
  rw [← String.length_utf8EncodeChar, hnil] at this
  cases this

/-- An octet below 128 is the whole encoding of a character. -/
theorem utf8EncodeChar_of_mem_lt {c : Char} {b : UInt8} (hmem : b ∈ String.utf8EncodeChar c)
    (hlt : b.toNat < 128) : String.utf8EncodeChar c = [b] ∧ c.toNat = b.toNat := by
  have hcode : c.toNat = c.val.toNat := rfl
  rw [hcode]
  simp only [String.utf8EncodeChar] at hmem ⊢
  split at hmem
  · rename_i hv
    rw [if_pos hv]
    obtain rfl := List.mem_singleton.1 hmem
    refine ⟨rfl, ?_⟩
    rw [UInt8.toNat_ofNat']
    omega
  · -- Every octet of a longer encoding is at least 128.
    exfalso
    split at hmem
    · simp only [List.mem_cons, List.not_mem_nil, or_false] at hmem
      rcases hmem with rfl | rfl <;> rw [UInt8.toNat_ofNat'] at hlt <;> omega
    · split at hmem
      · simp only [List.mem_cons, List.not_mem_nil, or_false] at hmem
        rcases hmem with rfl | rfl | rfl <;> rw [UInt8.toNat_ofNat'] at hlt <;> omega
      · simp only [List.mem_cons, List.not_mem_nil, or_false] at hmem
        rcases hmem with rfl | rfl | rfl | rfl <;> rw [UInt8.toNat_ofNat'] at hlt <;> omega

theorem mem_of_mem_ofText {s : String} {c : Char} {b : UInt8} (hc : c.toNat = b.toNat)
    (hlt : b.toNat < 128) (h : b ∈ ofText s) : c ∈ s.toList := by
  rw [ofText_eq_flatMap] at h
  obtain ⟨d, hd, hb⟩ := List.mem_flatMap.1 h
  have hcode := (utf8EncodeChar_of_mem_lt hb hlt).2
  have heq : c = d := Char.toNat_inj.1 (hc.trans hcode.symm)
  exact heq ▸ hd

theorem getLast?_of_getLast?_ofText {s : String} {c : Char} {b : UInt8} (hc : c.toNat = b.toNat)
    (hlt : b.toNat < 128) (h : (ofText s).getLast? = some b) : s.toList.getLast? = some c := by
  rw [ofText_eq_flatMap] at h
  generalize s.toList = cs at h ⊢
  rcases List.eq_nil_or_concat cs with rfl | ⟨front, d, rfl⟩
  · cases h
  · rw [List.concat_eq_append, List.flatMap_append, List.flatMap_singleton] at h
    have hne := utf8EncodeChar_ne_nil d
    rw [List.getLast?_append, Option.or_of_isSome (by simp)] at h
    have hcode := (utf8EncodeChar_of_mem_lt (List.mem_of_getLast? h) hlt).2
    have heq : d = c := Char.toNat_inj.1 (hcode.trans hc.symm)
    simp [heq]

theorem ofText_join (texts : List String) : ofText (String.join texts) = texts.flatMap ofText := by
  induction texts with
  | nil => rfl
  | cons s rest ih => simp [ih]

theorem feed_mem_ofText {s : String} (h : '\n' ∈ s.toList) : 10 ∈ ofText s := by
  rw [ofText_eq_flatMap]
  exact List.mem_flatMap.2 ⟨'\n', h, by decide⟩

theorem feed_notMem_of_mem_lines {content : Bytes} {line : String} (h : some line ∈ content.lines) :
    '\n' ∉ line.toList := by
  obtain ⟨piece, hpiece, htext⟩ := List.mem_map.1 h
  intro hfeed
  have hmem := feed_mem_ofText hfeed
  rw [ofText_of_text? htext] at hmem
  exact Text.notMem_of_mem_splitLines hpiece hmem

theorem ofText_terminated (texts : List String) :
    ofText (String.join (texts.map (· ++ "\n"))) = (texts.map ofText).flatMap (· ++ [10]) := by
  rw [ofText_join, List.flatMap_map, List.flatMap_map]
  simp only [ofText_append]
  rfl

theorem feed_notMem_ofText {s : String} (h : '\n' ∉ s.toList) : 10 ∉ ofText s :=
  fun hmem => h (mem_of_mem_ofText (by decide) (by decide) hmem)

theorem getLast?_ofText_ne_return {s : String} (h : s.toList.getLast? ≠ some '\r') :
    (ofText s).getLast? ≠ some 13 :=
  fun hlast => h (getLast?_of_getLast?_ofText (by decide) (by decide) hlast)

/-- Lines of text that are terminated one by one are read back from the octets of the whole. -/
theorem lines_terminated {texts : List String} (hfeed : ∀ s ∈ texts, '\n' ∉ s.toList)
    (hreturn : ∀ s ∈ texts, s.toList.getLast? ≠ some '\r') :
    (ofText (String.join (texts.map (· ++ "\n")))).lines = texts.map some := by
  rw [lines, ofText_terminated, Text.splitLines_terminated
    (List.forall_mem_map.2 fun s hs => feed_notMem_ofText (hfeed s hs))
    (List.forall_mem_map.2 fun s hs => getLast?_ofText_ne_return (hreturn s hs)), List.map_map]
  exact List.map_congr_left fun s _ => text?_ofText s

/-- The same with a last line that is not terminated. -/
theorem lines_terminated_append {texts : List String} (hfeed : ∀ s ∈ texts, '\n' ∉ s.toList)
    (hreturn : ∀ s ∈ texts, s.toList.getLast? ≠ some '\r') {last : String}
    (hlast : '\n' ∉ last.toList) (hne : last ≠ "") :
    (ofText (String.join (texts.map (· ++ "\n")) ++ last)).lines = (texts ++ [last]).map some := by
  have hoctets : ofText last ≠ [] := by
    intro hnil
    have htext := text?_ofText last
    rw [hnil] at htext
    exact hne (Option.some.inj htext).symm
  rw [lines, ofText_append, ofText_terminated, Text.splitLines_terminated_append
    (List.forall_mem_map.2 fun s hs => feed_notMem_ofText (hfeed s hs))
    (List.forall_mem_map.2 fun s hs => getLast?_ofText_ne_return (hreturn s hs))
    (feed_notMem_ofText hlast) hoctets]
  simp

end Renaming.Bytes
