import Renaming.Proofs.Descriptor

/-!
# The grammar of descriptors

    field  := "B" | "C" | "D" | "F" | "I" | "J" | "S" | "Z" | "L" name ";" | "[" field
    method := "(" field* ")" (field | "V")

A name is any nonempty text without a semicolon. What a reader takes off the front of a text is
derived by the grammar, and what the grammar derives is taken as a whole, whatever follows it. So
the texts that are read are those that the grammar derives. A text without dots is the text of what
it is read as.
-/

namespace Renaming

namespace Descriptor

/-- What the grammar derives from `field`. -/
inductive IsField : List Char → Prop
  | letter {c : Char} (h : c ∈ ['B', 'C', 'D', 'F', 'I', 'J', 'S', 'Z']) : IsField [c]
  | object {name : List Char} (hne : name ≠ []) (hend : ';' ∉ name) :
      IsField ('L' :: (name ++ [';']))
  | array {element : List Char} (h : IsField element) : IsField ('[' :: element)

/-- What the grammar derives from `method`. -/
inductive IsMethod : List Char → Prop
  | intro {params : List (List Char)} {result : List Char} (hparams : ∀ p ∈ params, IsField p)
      (hresult : result = ['V'] ∨ IsField result) :
      IsMethod ('(' :: (params.flatten ++ ')' :: result))

theorem exists_primitive_of_mem {c : Char} (h : c ∈ ['B', 'C', 'D', 'F', 'I', 'J', 'S', 'Z']) :
    ∃ p : Primitive, p.letter = c := by
  simp only [List.mem_cons, List.not_mem_nil, or_false] at h
  rcases h with rfl | rfl | rfl | rfl | rfl | rfl | rfl | rfl
  · exact ⟨.byte, rfl⟩
  · exact ⟨.char, rfl⟩
  · exact ⟨.double, rfl⟩
  · exact ⟨.float, rfl⟩
  · exact ⟨.int, rfl⟩
  · exact ⟨.long, rfl⟩
  · exact ⟨.short, rfl⟩
  · exact ⟨.boolean, rfl⟩

theorem letter_of_ofLetter? {c : Char} {p : Primitive} (h : Primitive.ofLetter? c = some p) :
    p.letter = c := by
  unfold Primitive.ofLetter? at h
  split at h <;> cases h <;> rfl

theorem IsField.of_letter (p : Primitive) : IsField [p.letter] := by
  apply IsField.letter
  cases p <;> simp [Primitive.letter]

theorem IsField.ne_nil {cs : List Char} (h : IsField cs) : cs ≠ [] := by
  cases h <;> simp

/-- What the grammar derives is read as a type, whatever follows it. -/
theorem IsField.exists_fieldType {cs : List Char} (h : IsField cs) :
    ∃ t, ∀ rest, fieldType (cs ++ rest) = some (t, rest) := by
  induction h with
  | letter hc =>
    obtain ⟨p, rfl⟩ := exists_primitive_of_mem hc
    exact ⟨.prim p, fieldType_prim p⟩
  | @object name hne hend =>
    refine ⟨.object (Text.replaceChar '/' '.' (String.ofList name)), fun rest => ?_⟩
    simpa using fieldType_object hne hend rest
  | array _ ih =>
    obtain ⟨t, ht⟩ := ih
    refine ⟨.array t, fun rest => ?_⟩
    rw [List.cons_append, fieldType_array, ht rest, Option.map_some]

/-- A text that a type is read from: the grammar derives it, and without dots it is the text of the
type. -/
structure TakenAs (front : List Char) (t : FieldType) : Prop where
  isField : IsField front
  text : '.' ∉ front → t.text.toList = front

namespace TakenAs

theorem object {name : List Char} (hne : name ≠ []) (hend : ';' ∉ name) :
    TakenAs ('L' :: (name ++ [';']))
      (.object (Text.replaceChar '/' '.' (String.ofList name))) := by
  refine ⟨.object hne hend, fun hdot => ?_⟩
  have hname : '.' ∉ (String.ofList name).toList := by
    rw [String.toList_ofList]
    exact fun hmem => hdot (List.mem_cons_of_mem _ (List.mem_append_left _ hmem))
  simp [FieldType.text, Text.replaceChar_replaceChar hname]

theorem array {front : List Char} {t : FieldType} (h : TakenAs front t) :
    TakenAs ('[' :: front) (.array t) := by
  refine ⟨.array h.isField, fun hdot => ?_⟩
  have htext := h.text fun hmem => hdot (List.mem_cons_of_mem _ hmem)
  simp [FieldType.text, htext]

theorem forall_isField {pieces : List (List Char)} {ts : List FieldType}
    (h : List.Forall₂ TakenAs pieces ts) : ∀ p ∈ pieces, IsField p := by
  induction h with
  | nil => simp
  | cons hfirst _ ih => exact List.forall_mem_cons.2 ⟨hfirst.isField, ih⟩

theorem texts {pieces : List (List Char)} {ts : List FieldType}
    (h : List.Forall₂ TakenAs pieces ts) (hdot : '.' ∉ pieces.flatten) :
    ts.flatMap (·.text.toList) = pieces.flatten := by
  induction h with
  | nil => rfl
  | cons hfirst hlater ih =>
    rw [List.flatten_cons, List.mem_append, not_or] at hdot
    rw [List.flatMap_cons, List.flatten_cons, hfirst.text hdot.1, ih hdot.2]

end TakenAs

/-- What reading a type takes off the front of a text. -/
theorem exists_of_fieldType {cs rest : List Char} {t : FieldType}
    (h : fieldType cs = some (t, rest)) : ∃ front, cs = front ++ rest ∧ TakenAs front t := by
  fun_induction fieldType cs generalizing t with
  | case1 | case2 | case3 => cases h
  | case4 cs last after hdrop hname =>
    cases h
    -- the name ends at the first semicolon
    have hlast : last = ';' := by
      have hstop := List.head?_dropWhile_not (fun c => c != ';') cs
      rw [hdrop] at hstop
      simpa using hstop
    have hend : ';' ∉ cs.takeWhile (fun c => c != ';') := by
      intro hmem
      simpa using List.mem_takeWhile_imp hmem
    refine ⟨'L' :: (cs.takeWhile (fun c => c != ';') ++ [';']), ?_, TakenAs.object hname hend⟩
    rw [hlast] at hdrop
    rw [List.cons_append, List.append_assoc, List.singleton_append, ← hdrop,
      List.takeWhile_append_dropWhile]
  | case5 cs ih =>
    obtain ⟨⟨element, after⟩, hread, heq⟩ := Option.map_eq_some_iff.1 h
    cases heq
    obtain ⟨front, rfl, htaken⟩ := ih hread
    exact ⟨'[' :: front, rfl, htaken.array⟩
  | case6 c cs =>
    obtain ⟨p, hp, heq⟩ := Option.map_eq_some_iff.1 h
    cases heq
    obtain rfl := letter_of_ofLetter? hp
    exact ⟨[p.letter], rfl, .of_letter p, fun _ => String.toList_ofList⟩

/-- What reading as many types as there are takes off the front of a text. -/
theorem exists_of_fieldTypes {fuel : Nat} {cs rest : List Char} {ts : List FieldType}
    (h : fieldTypes fuel cs = (ts, rest)) :
    ∃ pieces, cs = pieces.flatten ++ rest ∧ List.Forall₂ TakenAs pieces ts := by
  induction fuel generalizing cs ts with
  | zero =>
    cases h
    exact ⟨[], rfl, .nil⟩
  | succ fuel ih =>
    rw [fieldTypes] at h
    split at h
    · cases h
      exact ⟨[], rfl, .nil⟩
    · rename_i t after hread
      cases hlater : fieldTypes fuel after with
      | mk later left =>
        rw [hlater] at h
        cases h
        obtain ⟨front, rfl, hfirst⟩ := exists_of_fieldType hread
        obtain ⟨pieces, rfl, hpieces⟩ := ih hlater
        exact ⟨front :: pieces, by simp, .cons hfirst hpieces⟩

theorem parseField_eq_ok_iff {s : String} {t : FieldType} :
    parseField s = .ok t ↔ fieldType s.toList = some (t, []) := by
  unfold parseField
  split <;> simp_all

theorem returnType_void : returnType ['V'] = some none := rfl

theorem returnType_of_fieldType {cs : List Char} {t : FieldType}
    (h : fieldType cs = some (t, [])) : returnType cs = some (some t) := by
  rw [returnType.eq_def]
  split
  · cases h
  · rw [h]

/-- A result is the letter for none, or a type that takes up the rest of the text. -/
theorem of_returnType {cs : List Char} {ret : Option FieldType} (h : returnType cs = some ret) :
    cs = ['V'] ∧ ret = none ∨ ∃ t, ret = some t ∧ fieldType cs = some (t, []) := by
  rw [returnType.eq_def] at h
  split at h
  · cases h
    exact .inl ⟨rfl, rfl⟩
  · split at h
    · rename_i t hread
      cases h
      exact .inr ⟨t, rfl, hread⟩
    · cases h

theorem parseMethod_eq_ok_iff {s : String} {d : MethodDescriptor} :
    parseMethod s = .ok d ↔ ∃ rest result, s.toList = '(' :: rest ∧
      fieldTypes rest.length rest = (d.params, ')' :: result) ∧
      returnType result = some d.ret := by
  constructor
  · intro h
    unfold parseMethod at h
    split at h
    · rename_i rest hopen
      split at h
      · rename_i params result hparams
        split at h
        · rename_i ret hret
          cases h
          exact ⟨rest, result, hopen, hparams, hret⟩
        · cases h
      · cases h
    · cases h
  · rintro ⟨rest, result, hopen, hparams, hret⟩
    unfold parseMethod
    rw [hopen]
    simp only [hparams, hret]

theorem exists_parseField_iff (s : String) : (∃ t, parseField s = .ok t) ↔ IsField s.toList := by
  constructor
  · rintro ⟨t, ht⟩
    obtain ⟨front, hfront, htaken⟩ := exists_of_fieldType (parseField_eq_ok_iff.1 ht)
    rw [hfront, List.append_nil]
    exact htaken.isField
  · intro h
    obtain ⟨t, ht⟩ := h.exists_fieldType
    have hread := ht []
    rw [List.append_nil] at hread
    exact ⟨t, parseField_eq_ok_iff.2 hread⟩

theorem exists_forall₂_fieldType {pieces : List (List Char)} (h : ∀ p ∈ pieces, IsField p) :
    ∃ ts, List.Forall₂ (fun piece t => ∀ rest, fieldType (piece ++ rest) = some (t, rest))
      pieces ts := by
  induction pieces with
  | nil => exact ⟨[], .nil⟩
  | cons piece later ih =>
    obtain ⟨t, ht⟩ := (h piece List.mem_cons_self).exists_fieldType
    obtain ⟨ts, hts⟩ := ih fun p hp => h p (List.mem_cons_of_mem piece hp)
    exact ⟨t :: ts, .cons ht hts⟩

theorem IsMethod.exists_parseMethod {s : String} (h : IsMethod s.toList) :
    ∃ d, parseMethod s = .ok d := by
  generalize hcs : s.toList = cs at h
  obtain @⟨pieces, result, hparams, hresult⟩ := h
  obtain ⟨params, hread⟩ := exists_forall₂_fieldType hparams
  have hfuel : pieces.length ≤ (pieces.flatten ++ ')' :: result).length := by
    have hle := Text.length_le_length_flatten fun p hp => (hparams p hp).ne_nil
    rw [List.length_append]
    omega
  have htypes := fieldTypes_flatten hread (fieldType_close result) hfuel
  obtain ⟨ret, hret⟩ : ∃ ret, returnType result = some ret := by
    rcases hresult with rfl | hfield
    · exact ⟨none, returnType_void⟩
    · obtain ⟨t, ht⟩ := hfield.exists_fieldType
      have hwhole := ht []
      rw [List.append_nil] at hwhole
      exact ⟨some t, returnType_of_fieldType hwhole⟩
  exact ⟨⟨params, ret⟩, parseMethod_eq_ok_iff.2 ⟨_, result, hcs, htypes, hret⟩⟩

/-- What a method descriptor is read from: the pieces of its parameters and its result. -/
theorem exists_of_parseMethod {s : String} {d : MethodDescriptor} (h : parseMethod s = .ok d) :
    ∃ pieces result, s.toList = '(' :: (pieces.flatten ++ ')' :: result) ∧
      List.Forall₂ TakenAs pieces d.params ∧
      (result = ['V'] ∧ d.ret = none ∨ ∃ t, d.ret = some t ∧ TakenAs result t) := by
  obtain ⟨rest, result, hopen, hparams, hret⟩ := parseMethod_eq_ok_iff.1 h
  obtain ⟨pieces, rfl, hpieces⟩ := exists_of_fieldTypes hparams
  refine ⟨pieces, result, hopen, hpieces, ?_⟩
  rcases of_returnType hret with hvoid | ⟨t, ht, hread⟩
  · exact .inl hvoid
  · obtain ⟨front, rfl, htaken⟩ := exists_of_fieldType hread
    rw [List.append_nil]
    exact .inr ⟨t, ht, htaken⟩

theorem exists_parseMethod_iff (s : String) :
    (∃ d, parseMethod s = .ok d) ↔ IsMethod s.toList := by
  constructor
  · rintro ⟨d, hd⟩
    obtain ⟨pieces, result, hs, hpieces, hresult⟩ := exists_of_parseMethod hd
    rw [hs]
    apply IsMethod.intro
    · exact TakenAs.forall_isField hpieces
    · rcases hresult with ⟨hvoid, -⟩ | ⟨t, -, htaken⟩
      · exact .inl hvoid
      · exact .inr htaken.isField
  · exact IsMethod.exists_parseMethod

theorem text_of_parseField {s : String} {t : FieldType} (hdot : '.' ∉ s.toList)
    (h : parseField s = .ok t) : t.text = s := by
  obtain ⟨front, hfront, htaken⟩ := exists_of_fieldType (parseField_eq_ok_iff.1 h)
  rw [List.append_nil] at hfront
  rw [← String.toList_inj, hfront]
  exact htaken.text (hfront ▸ hdot)

theorem text_of_parseMethod {s : String} {d : MethodDescriptor} (hdot : '.' ∉ s.toList)
    (h : parseMethod s = .ok d) : d.text = s := by
  obtain ⟨pieces, result, hs, hpieces, hresult⟩ := exists_of_parseMethod h
  rw [hs, List.mem_cons, List.mem_append, List.mem_cons, not_or, not_or, not_or] at hdot
  obtain ⟨-, hparams, -, hend⟩ := hdot
  have hret : ((d.ret.map FieldType.text).getD "V").toList = result := by
    rcases hresult with ⟨rfl, hnone⟩ | ⟨t, hsome, htaken⟩
    · rw [hnone]
      rfl
    · rw [hsome]
      exact htaken.text hend
  rw [← String.toList_inj, d.toList_text_eq, MethodDescriptor.tail,
    TakenAs.texts hpieces hparams, hret, hs]

end Descriptor

namespace FieldType

/-- A type is read back from its text. -/
theorem parseField_text {t : FieldType} (h : ∀ name ∈ t.className?, IsClassName name) :
    Descriptor.parseField t.text = .ok t := by
  have hread := Descriptor.fieldType_text h []
  rw [List.append_nil] at hread
  exact Descriptor.parseField_eq_ok_iff.2 hread

end FieldType

namespace MethodDescriptor

/-- Parameter parts tell parameter lists apart: each is read back from a descriptor without
result. -/
theorem paramsText_eq_iff {d e : MethodDescriptor}
    (hd : ∀ t ∈ d.params, ∀ name ∈ t.className?, IsClassName name)
    (he : ∀ t ∈ e.params, ∀ name ∈ t.className?, IsClassName name) :
    d.paramsText = e.paramsText ↔ d.params = e.params := by
  constructor
  · intro h
    have hnames : ∀ {params : List FieldType},
        (∀ t ∈ params, ∀ name ∈ t.className?, IsClassName name) →
        ∀ name ∈ (⟨params, none⟩ : MethodDescriptor).classNames, IsClassName name := by
      intro params hparams name hname
      obtain ⟨t, ht, htname⟩ := List.mem_filterMap.1 hname
      rw [Option.toList_none, List.append_nil] at ht
      exact hparams t ht name htname
    have htext : (⟨d.params, none⟩ : MethodDescriptor).text = text ⟨e.params, none⟩ :=
      congrArg (· ++ "V") h
    have hsame := text_inj (hnames hd) (hnames he) htext
    injection hsame
  · intro h
    rw [paramsText, paramsText, h]

end MethodDescriptor

namespace Descriptor

/-- Reading accepts what the grammar derives and nothing else; it gives back what was written, and
what it reads from a text without dots is written as that text. So parameter parts are equal only
for equal parameters. -/
theorem reading_exact_and_inverse :
    (∀ s, (∃ t, parseField s = .ok t) ↔ IsField s.toList) ∧
    (∀ s, (∃ d, parseMethod s = .ok d) ↔ IsMethod s.toList) ∧
    (∀ t : FieldType, (∀ name ∈ t.className?, IsClassName name) → parseField t.text = .ok t) ∧
    (∀ d : MethodDescriptor, (∀ name ∈ d.classNames, IsClassName name) →
      parseMethod d.text = .ok d) ∧
    (∀ s t, '.' ∉ s.toList → parseField s = .ok t → t.text = s) ∧
    (∀ s d, '.' ∉ s.toList → parseMethod s = .ok d → d.text = s) ∧
    ∀ d e : MethodDescriptor, (∀ t ∈ d.params, ∀ name ∈ t.className?, IsClassName name) →
      (∀ t ∈ e.params, ∀ name ∈ t.className?, IsClassName name) →
      (d.paramsText = e.paramsText ↔ d.params = e.params) := by
  refine ⟨exists_parseField_iff, exists_parseMethod_iff, ?_, ?_, ?_, ?_, ?_⟩
  · exact fun t h => FieldType.parseField_text h
  · exact fun d h => MethodDescriptor.parseMethod_text h
  · exact fun s t hdot h => text_of_parseField hdot h
  · exact fun s d hdot h => text_of_parseMethod hdot h
  · exact fun d e hd he => MethodDescriptor.paramsText_eq_iff hd he

/-- A method with an array of arrays of a nested class among its parameters. -/
def nestedArrays : MethodDescriptor :=
  ⟨[.array (.array (.object "a.b.C$D")), .prim .long], some (.prim .boolean)⟩

theorem isClassName_of_nestedArrays : ∀ name ∈ nestedArrays.classNames, IsClassName name := by
  intro name hname
  obtain rfl : name = "a.b.C$D" := List.mem_singleton.1 hname
  exact ⟨by decide, by decide, by decide⟩

theorem reading_exact_and_inverse_nestedArrays :
    (∀ name ∈ nestedArrays.classNames, IsClassName name) ∧
      parseMethod nestedArrays.text = .ok nestedArrays ∧ IsMethod nestedArrays.text.toList := by
  obtain ⟨-, hderived, -, hmethod, -⟩ := reading_exact_and_inverse
  have hread := hmethod nestedArrays isClassName_of_nestedArrays
  exact ⟨isClassName_of_nestedArrays, hread, (hderived _).1 ⟨_, hread⟩⟩

end Descriptor

end Renaming
