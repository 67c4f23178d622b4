import Mathlib.Data.List.Forall2
import Renaming.Proofs.Symbol

/-!
# Descriptors read back

The text of a type ends where the type ends, whatever follows it. So types that are written one
after the other are read one by one, and a method descriptor is read back from its text.
-/

namespace Renaming

/-- A class name that can be told from what stands around it in a descriptor. -/
structure IsClassName (name : String) : Prop where
  nonempty : name ≠ ""
  semicolon_notMem : ';' ∉ name.toList
  slash_notMem : '/' ∉ name.toList

namespace FieldType

/-- The class that a type is, or that the elements of an array are of. -/
def className? : FieldType → Option String
  | prim _ => none
  | object name => some name
  | array element => element.className?

end FieldType

/-- The class names in a method descriptor. -/
def MethodDescriptor.classNames (d : MethodDescriptor) : List String :=
  (d.params ++ d.ret.toList).filterMap FieldType.className?

namespace Text

theorem replaceChar_replaceChar {a b : Char} {s : String} (h : b ∉ s.toList) :
    replaceChar b a (replaceChar a b s) = s := by
  have hback : ∀ c ∈ s.toList,
      ((fun c => if c = b then a else c) ∘ fun c => if c = a then b else c) c = id c := by
    intro c hc
    have hcb : c ≠ b := fun heq => h (heq ▸ hc)
    by_cases hca : c = a
    · simp [hca]
    · simp [hca, hcb]
  rw [replaceChar, replaceChar, String.toList_ofList, List.map_map, List.map_congr_left hback,
    List.map_id, String.ofList_toList]

theorem notMem_toList_replaceChar {a b c : Char} {s : String} (hb : c ≠ b) (h : c ∉ s.toList) :
    c ∉ (replaceChar a b s).toList := by
  rw [replaceChar, String.toList_ofList, List.mem_map]
  rintro ⟨d, hd, heq⟩
  split at heq
  · exact hb heq.symm
  · exact h (heq ▸ hd)

theorem toList_replaceChar_ne_nil {a b : Char} {s : String} (h : s ≠ "") :
    (replaceChar a b s).toList ≠ [] := by
  simpa [replaceChar] using h

end Text

namespace Descriptor

theorem fieldType_prim (p : Primitive) (rest : List Char) :
    fieldType (p.letter :: rest) = some (.prim p, rest) := by
  cases p <;> rfl

theorem fieldType_object {name : List Char} (hne : name ≠ []) (hend : ';' ∉ name)
    (rest : List Char) :
    fieldType ('L' :: (name ++ ';' :: rest)) =
      some (.object (Text.replaceChar '/' '.' (String.ofList name)), rest) := by
  have hname : ∀ c ∈ name, (c != ';') = true := by
    intro c hc
    rw [bne_iff_ne]
    rintro rfl
    exact hend hc
  obtain ⟨first, later, rfl⟩ := List.exists_cons_of_ne_nil hne
  rw [fieldType, List.takeWhile_append_of_pos hname, List.dropWhile_append_of_pos hname]
  simp

theorem fieldType_array (rest : List Char) :
    fieldType ('[' :: rest) = (fieldType rest).map fun (t, after) => (.array t, after) := by
  rw [fieldType]

theorem fieldType_close (rest : List Char) : fieldType (')' :: rest) = none := rfl

/-- A type is read off the front of what begins with its text. -/
theorem fieldType_text {t : FieldType} (h : ∀ name ∈ t.className?, IsClassName name)
    (rest : List Char) : fieldType (t.text.toList ++ rest) = some (t, rest) := by
  induction t with
  | prim p => simpa [FieldType.text] using fieldType_prim p rest
  | object name =>
    have hname : IsClassName name := h name rfl
    have hfree : ';' ∉ (Text.replaceChar '.' '/' name).toList :=
      Text.notMem_toList_replaceChar (by decide) hname.semicolon_notMem
    have hread := fieldType_object (Text.toList_replaceChar_ne_nil hname.nonempty) hfree rest
    rw [String.ofList_toList, Text.replaceChar_replaceChar hname.slash_notMem] at hread
    simpa [FieldType.text] using hread
  | array element ih =>
    simp [FieldType.text, fieldType_array, ih h]

/-- Pieces that are each read as a type are read one by one, up to what is no type. -/
theorem fieldTypes_flatten {pieces : List (List Char)} {ts : List FieldType}
    (h : List.Forall₂ (fun piece t => ∀ rest, fieldType (piece ++ rest) = some (t, rest)) pieces ts)
    {rest : List Char} (hrest : fieldType rest = none) {fuel : Nat}
    (hfuel : pieces.length ≤ fuel) : fieldTypes fuel (pieces.flatten ++ rest) = (ts, rest) := by
  induction h generalizing fuel with
  | nil =>
    cases fuel with
    | zero => rfl
    | succ fuel => simp [fieldTypes, hrest]
  | @cons piece t pieces ts hfirst hlater ih =>
    cases fuel with
    | zero => simp at hfuel
    | succ fuel =>
      have hnext := ih (Nat.le_of_succ_le_succ hfuel)
      rw [List.flatten_cons, List.append_assoc, fieldTypes, hfirst]
      simp only [hnext]

/-- Types that are written one after the other are read one by one, up to what is no type. -/
theorem fieldTypes_text {ts : List FieldType}
    (h : ∀ t ∈ ts, ∀ name ∈ t.className?, IsClassName name) {rest : List Char}
    (hrest : fieldType rest = none) {fuel : Nat} (hfuel : ts.length ≤ fuel) :
    fieldTypes fuel (ts.flatMap (·.text.toList) ++ rest) = (ts, rest) := by
  have hread : List.Forall₂ (fun piece t => ∀ rest, fieldType (piece ++ rest) = some (t, rest))
      (ts.map (·.text.toList)) ts := by
    rw [List.forall₂_map_left_iff, List.forall₂_same]
    exact fun t ht => fieldType_text (h t ht)
  rw [List.flatMap_def]
  exact fieldTypes_flatten hread hrest (by rwa [List.length_map])

theorem toList_text_ne_nil (t : FieldType) : t.text.toList ≠ [] := by
  cases t <;> simp [FieldType.text]

theorem returnType_text {ret : Option FieldType}
    (h : ∀ t ∈ ret, ∀ name ∈ t.className?, IsClassName name) :
    returnType ((ret.map FieldType.text).getD "V").toList = some ret := by
  cases ret with
  | none => rfl
  | some t =>
    have hread := fieldType_text (h t rfl) []
    rw [List.append_nil] at hread
    have hvoid : t.text.toList ≠ ['V'] := by
      -- no type is read off the letter for no result
      intro heq
      rw [heq] at hread
      cases hread
    rw [Option.map_some, Option.getD_some, returnType.eq_def]
    split
    · contradiction
    · rw [hread]

end Descriptor

namespace MethodDescriptor

/-- The characters of a descriptor after the parenthesis that it begins with. -/
def tail (d : MethodDescriptor) : List Char :=
  d.params.flatMap (·.text.toList) ++ ')' :: ((d.ret.map FieldType.text).getD "V").toList

theorem toList_text_eq (d : MethodDescriptor) : d.text.toList = '(' :: d.tail := by
  simp [text, tail, paramsText, String.toList_join, List.flatMap_map]

theorem isClassName_of_mem {d : MethodDescriptor} (h : ∀ name ∈ d.classNames, IsClassName name) :
    (∀ t ∈ d.params, ∀ name ∈ t.className?, IsClassName name) ∧
      ∀ t ∈ d.ret, ∀ name ∈ t.className?, IsClassName name := by
  constructor
  · intro t ht name hname
    exact h name (List.mem_filterMap.2 ⟨t, List.mem_append_left _ ht, hname⟩)
  · intro t ht name hname
    have hmem : t ∈ d.params ++ d.ret.toList := List.mem_append_right _ (Option.mem_toList.2 ht)
    exact h name (List.mem_filterMap.2 ⟨t, hmem, hname⟩)

/-- A descriptor is read back from its text. -/
theorem parseMethod_text {d : MethodDescriptor} (h : ∀ name ∈ d.classNames, IsClassName name) :
    Descriptor.parseMethod d.text = .ok d := by
  obtain ⟨hparams, hret⟩ := isClassName_of_mem h
  have hclose := Descriptor.fieldType_close ((d.ret.map FieldType.text).getD "V").toList
  have hfuel : d.params.length ≤ d.tail.length := by
    have hle := Text.length_le_length_flatMap fun t (_ : t ∈ d.params) =>
      Descriptor.toList_text_ne_nil t
    rw [tail, List.length_append]
    omega
  have htypes : Descriptor.fieldTypes d.tail.length d.tail =
      (d.params, ')' :: ((d.ret.map FieldType.text).getD "V").toList) :=
    Descriptor.fieldTypes_text hparams hclose hfuel
  rw [Descriptor.parseMethod, d.toList_text_eq]
  simp only [htypes, Descriptor.returnType_text hret]

theorem text_inj {d e : MethodDescriptor} (hd : ∀ name ∈ d.classNames, IsClassName name)
    (he : ∀ name ∈ e.classNames, IsClassName name) (h : d.text = e.text) : d = e := by
  have hread := parseMethod_text hd
  rw [h, parseMethod_text he] at hread
  cases hread
  rfl

end MethodDescriptor

end Renaming
