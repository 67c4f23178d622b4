import Renaming.Occurrence
import Renaming.Proofs.Text

/-!
# Names in signatures

A signature ends in the name of its symbol, or in the name and what tells apart the symbols of that
name. The name is read back from the signature of a member or of a local variable.
-/

namespace Renaming

namespace Text

theorem cutLastP_eq {p : Char → Bool} {s : String} {c : Char} (before after : String)
    (hs : s.toList = before.toList ++ c :: after.toList) (hc : p c = true)
    (hafter : ∀ d ∈ after.toList, p d = false) : cutLastP p s = some (before, after) := by
  have hback : s.toList.reverse = after.toList.reverse ++ c :: before.toList.reverse := by
    simp [hs]
  have hfree : ∀ d ∈ after.toList.reverse, (!p d) = true := by
    intro d hd
    rw [hafter d (List.mem_reverse.1 hd)]
    rfl
  rw [cutLastP, hback, List.dropWhile_append_of_pos hfree, List.takeWhile_append_of_pos hfree]
  simp [hc]

theorem cutLastP_of_free {p : Char → Bool} {s : String} (h : ∀ d ∈ s.toList, p d = false) :
    cutLastP p s = none := by
  have hdrop : s.toList.reverse.dropWhile (!p ·) = [] := by
    rw [List.dropWhile_eq_nil_iff]
    intro d hd
    rw [h d (List.mem_reverse.1 hd)]
    rfl
  simp [cutLastP, hdrop]

theorem cutLast_eq {s : String} {c : Char} (before after : String)
    (hs : s.toList = before.toList ++ c :: after.toList) (hafter : c ∉ after.toList) :
    cutLast c s = some (before, after) := by
  refine cutLastP_eq before after hs (by simp) fun d hd => ?_
  rw [beq_eq_false_iff_ne]
  rintro rfl
  exact hafter hd

theorem afterLast_eq {s : String} {c : Char} (before after : String)
    (hs : s.toList = before.toList ++ c :: after.toList) (hafter : c ∉ after.toList) :
    afterLast c s = after := by
  rw [afterLast, cutLast_eq before after hs hafter]
  rfl

theorem afterLast_of_notMem {c : Char} {s : String} (h : c ∉ s.toList) : afterLast c s = s := by
  have hnone : cutLast c s = none := by
    refine cutLastP_of_free fun d hd => ?_
    rw [beq_eq_false_iff_ne]
    rintro rfl
    exact h hd
  rw [afterLast, hnone]
  rfl

end Text

/-! ## Binary names -/

/-- A name without separators of packages or types. -/
def IsPlain (name : String) : Prop := '.' ∉ name.toList ∧ '$' ∉ name.toList

theorem IsPlain.separates_eq_false {name : String} (h : IsPlain name) :
    ∀ d ∈ name.toList, (d == '.' || d == '$') = false := by
  intro d hd
  simp only [Bool.or_eq_false_iff, beq_eq_false_iff_ne]
  refine ⟨?_, ?_⟩
  · rintro rfl
    exact h.1 hd
  · rintro rfl
    exact h.2 hd

theorem simpleName_of_plain {name : String} (h : IsPlain name) : simpleName name = name := by
  rw [simpleName, Text.cutLastP_of_free h.separates_eq_false]
  rfl

theorem simpleName_of_separated {binary name : String} {c : Char} (before : String)
    (h : IsPlain name) (hc : c = '.' ∨ c = '$')
    (hbinary : binary.toList = before.toList ++ c :: name.toList) :
    simpleName binary = name := by
  have hsep : (c == '.' || c == '$') = true := by simpa using hc
  rw [simpleName, Text.cutLastP_eq before name hbinary hsep h.separates_eq_false]
  rfl

theorem packageOf_of_notMem {name : String} (h : '.' ∉ name.toList) : packageOf name = "" := by
  have hnone : Text.cutLast '.' name = none := by
    refine Text.cutLastP_of_free fun d hd => ?_
    rw [beq_eq_false_iff_ne]
    rintro rfl
    exact h hd
  rw [packageOf, hnone]
  rfl

theorem packageOf_eq {name : String} (before after : String)
    (hname : name.toList = before.toList ++ '.' :: after.toList) (hafter : '.' ∉ after.toList) :
    packageOf name = before := by
  rw [packageOf, Text.cutLast_eq before after hname hafter]
  rfl

/-- What a dotted name is behind a package is behind all of it. -/
theorem packageOf_append (package name : String) :
    packageOf (package ++ "." ++ name) =
      if '.' ∈ name.toList then package ++ "." ++ packageOf name else package := by
  split
  · rename_i hdot
    -- the last dot of the name is the last one of all
    obtain ⟨back, front, hback, hfree⟩ :=
      List.eq_append_cons_of_mem (List.mem_reverse.2 hdot)
    have hname : name.toList =
        (String.ofList front.reverse).toList ++ '.' :: (String.ofList back.reverse).toList := by
      have hboth := congrArg List.reverse hback
      simpa using hboth
    have hafter : '.' ∉ (String.ofList back.reverse).toList := by simpa using hfree
    rw [packageOf_eq _ _ hname hafter]
    refine packageOf_eq _ (String.ofList back.reverse) ?_ hafter
    simp [hname]
  · rename_i hdot
    exact packageOf_eq package name (by simp) hdot

/-! ## Descriptors -/

theorem Primitive.letter_ne_dot (p : Primitive) : p.letter ≠ '.' := by cases p <;> decide

theorem FieldType.dot_notMem_text (t : FieldType) : '.' ∉ t.text.toList := by
  induction t with
  | prim p => simpa [text] using p.letter_ne_dot.symm
  | object name =>
    simp only [text, Text.replaceChar, String.toList_append, String.toList_ofList, List.mem_append,
      List.mem_map, not_or, not_exists, not_and]
    refine ⟨⟨by decide, fun c _ => ?_⟩, by decide⟩
    split
    · decide
    · rename_i hc
      exact hc
  | array element ih => simpa [text] using ih

theorem MethodDescriptor.dot_notMem_text (d : MethodDescriptor) : '.' ∉ d.text.toList := by
  have hparams : '.' ∉ (String.join (d.params.map FieldType.text)).toList := by
    rw [String.toList_join]
    simp [FieldType.dot_notMem_text]
  have hret : '.' ∉ ((d.ret.map FieldType.text).getD "V").toList := by
    cases d.ret with
    | none => decide
    | some t => exact t.dot_notMem_text
  simp only [text, paramsText, String.toList_append, List.mem_append, not_or]
  exact ⟨⟨⟨by decide, hparams⟩, by decide⟩, hret⟩

theorem MethodDescriptor.toList_text (d : MethodDescriptor) :
    ∃ rest, d.text.toList = '(' :: rest := by
  rw [text, paramsText, String.toList_append, String.toList_append, String.toList_append]
  exact ⟨_, rfl⟩

namespace Signature

/-- The name of a field, after the type that declares it. -/
def fieldName (s : Signature) : String := Text.afterLast '.' s

/-- The name of a method, between the type that declares it and the descriptor. -/
def methodName (s : Signature) : String :=
  String.ofList ((Text.afterLast '.' s).toList.takeWhile (· != '('))

/-- The name of a local variable, between its method and its ordinal. -/
def localName (s : Signature) : String :=
  ((Text.cutLast ':' (Text.afterLast '@' s)).map Prod.fst).getD ""

theorem fieldName_ofField {owner name : String} (h : '.' ∉ name.toList) :
    (ofField owner name).fieldName = name :=
  Text.afterLast_eq owner name (by simp [ofField]) h

theorem methodName_ofMethod {owner name : String} {d : MethodDescriptor} (hdot : '.' ∉ name.toList)
    (hopen : '(' ∉ name.toList) : (ofMethod owner name d).methodName = name := by
  have hafter : Text.afterLast '.' (ofMethod owner name d) = name ++ d.text := by
    refine Text.afterLast_eq owner _ (by simp [ofMethod]) ?_
    simp [hdot, d.dot_notMem_text]
  obtain ⟨rest, hrest⟩ := d.toList_text
  have hfree : ∀ c ∈ name.toList, (c != '(') = true := by
    intro c hc
    rw [bne_iff_ne]
    rintro rfl
    exact hopen hc
  rw [methodName, hafter, String.toList_append, hrest, List.takeWhile_append_of_pos hfree]
  simp

theorem localName_ofLocal {method : Signature} {name : String} {ordinal : Nat}
    (hat : '@' ∉ name.toList) : (ofLocal method name ordinal).localName = name := by
  have hdigits (c : Char) (hc : c.isDigit = false) : c ∉ (toString ordinal).toList := by
    intro hmem
    rw [Text.isDigit_of_mem_toString hmem] at hc
    cases hc
  have hafter : Text.afterLast '@' (ofLocal method name ordinal) =
      name ++ ":" ++ toString ordinal := by
    refine Text.afterLast_eq method _ (by simp [ofLocal]) ?_
    rw [String.toList_append, String.toList_append, List.mem_append, List.mem_append, not_or,
      not_or]
    exact ⟨⟨hat, by decide⟩, hdigits '@' rfl⟩
  rw [localName, hafter, Text.cutLast_eq name _ (by simp) (hdigits ':' rfl)]
  rfl

end Signature

/-- The name that the signature of a field, a method or a local variable ends in. -/
def Occurrence.name? (o : Occurrence) : Option String :=
  match o.kind with
  | .field => some o.signature.fieldName
  | .method => some o.signature.methodName
  | .localVariable => some o.signature.localName
  | .type | .parameter => none

end Renaming
