import Renaming.Proofs.Descriptor.Grammar
import Renaming.Proofs.Java.GenericSignature

/-!
# Descriptors are signatures

Whatever is read as a descriptor is read as a signature too, to the same types and with nothing
generic in it. Signatures end a class name at more characters than descriptors do, so the names have
to be free of the characters that open arguments and inner classes.
-/

namespace Renaming.Java.GenericSignature

/-- No class name goes on with arguments or an inner class. In a descriptor the two characters can
stand nowhere else. -/
structure IsPlain (cs : List Char) : Prop where
  arguments : '<' ∉ cs
  inner : '.' ∉ cs

namespace IsPlain

variable {c : Char} {cs front back : List Char}

theorem tail (h : IsPlain (c :: cs)) : IsPlain cs :=
  ⟨fun hmem => h.arguments (List.mem_cons_of_mem c hmem),
    fun hmem => h.inner (List.mem_cons_of_mem c hmem)⟩

theorem left (h : IsPlain (front ++ back)) : IsPlain front :=
  ⟨fun hmem => h.arguments (List.mem_append_left back hmem),
    fun hmem => h.inner (List.mem_append_left back hmem)⟩

theorem right (h : IsPlain (front ++ back)) : IsPlain back :=
  ⟨fun hmem => h.arguments (List.mem_append_right front hmem),
    fun hmem => h.inner (List.mem_append_right front hmem)⟩

end IsPlain

/-! ## Types -/

/-- A class name is read up to its semicolon. -/
theorem classType_plain (reference : Reader GenericType) {name : List Char} (hne : name ≠ [])
    (hend : ';' ∉ name) (hname : IsPlain name) (rest : List Char) :
    classType reference (name ++ ';' :: rest) =
      some (.raw (Text.replaceChar '/' '.' (String.ofList name)), rest) := by
  have hgo : ∀ c ∈ name, segmentEnd c = false := by
    intro c hc
    apply segmentEnd_eq_false
    · rintro rfl
      exact hend hc
    · rintro rfl
      exact hname.arguments hc
    · rintro rfl
      exact hname.inner hc
  have hstop : ∀ c ∈ (';' :: rest).head?, segmentEnd c = true := by
    intro c hc
    obtain rfl := Option.some.inj hc
    rfl
  unfold classType
  rw [word_append hne hgo hstop]
  rfl

/-- What the grammar of descriptors derives is the same type for both readers. -/
theorem exists_reads_of_isField {cs : List Char} (h : Descriptor.IsField cs) (hplain : IsPlain cs) :
    ∃ t, (∀ rest, Descriptor.fieldType (cs ++ rest) = some (t, rest)) ∧
      ∀ fuel, cs.length ≤ fuel → Reads (typeWith (referenceUpTo fuel)) cs (.ofErased t) := by
  induction h with
  | letter hc =>
    obtain ⟨p, rfl⟩ := Descriptor.exists_primitive_of_mem hc
    refine ⟨.prim p, Descriptor.fieldType_prim p, fun fuel _ => ⟨by simp, ?_, fun rest _ => ?_⟩⟩
    · cases p <;> simp [Primitive.letter]
    · cases p <;> rfl
  | @object name hne hend =>
    have htext (rest : List Char) : 'L' :: (name ++ [';']) ++ rest = 'L' :: (name ++ ';' :: rest) := by
      simp
    refine ⟨.object (Text.replaceChar '/' '.' (String.ofList name)), fun rest => ?_,
      fun fuel hfuel => ⟨by simp, by simp, fun rest _ => ?_⟩⟩
    · rw [htext, Descriptor.fieldType_object hne hend]
    · obtain ⟨fuel, rfl⟩ := Nat.exists_eq_add_one_of_ne_zero (n := fuel) (by
        rintro rfl
        cases hfuel)
      rw [htext, typeWith, if_pos (.inl rfl), referenceUpTo]
      exact classType_plain _ hne hend hplain.tail.left rest
  | @array element _ ih =>
    obtain ⟨t, hfield, htype⟩ := ih hplain.tail
    refine ⟨.array t, fun rest => ?_, fun fuel hfuel => ⟨by simp, by simp, fun rest hrest => ?_⟩⟩
    · rw [List.cons_append, Descriptor.fieldType_array, hfield, Option.map_some]
    · cases fuel with
      | zero => cases hfuel
      | succ fuel =>
        have hread := (htype fuel (Nat.le_of_succ_le_succ hfuel)).takes rest hrest
        rw [List.cons_append, typeWith, if_pos (.inr (.inr rfl)), referenceUpTo]
        simp only [hread, Option.map_some]
        rfl

theorem type_eq_typeWith (cs : List Char) :
    type cs = typeWith (referenceUpTo (cs.length + 1)) cs := by
  cases cs <;> rfl

theorem reads_of_fieldType {cs rest : List Char} {t : FieldType}
    (h : Descriptor.fieldType cs = some (t, rest)) (hplain : IsPlain cs) :
    ∃ front, cs = front ++ rest ∧ Reads type front (.ofErased t) := by
  obtain ⟨front, rfl, htaken⟩ := Descriptor.exists_of_fieldType h
  obtain ⟨read, hfield, htype⟩ := exists_reads_of_isField htaken.isField hplain.left
  -- the type that is derived is the one that was read
  have hsame : read = t := by
    rw [hfield rest, Option.some.injEq, Prod.mk.injEq] at h
    exact h.1
  subst hsame
  have hread := htype front.length le_rfl
  refine ⟨front, rfl, hread.nonempty, hread.opens, fun rest hrest => ?_⟩
  have hfuel : front.length ≤ (front ++ rest).length + 1 := by
    rw [List.length_append]
    omega
  rw [type_eq_typeWith]
  exact (htype _ hfuel).takes rest hrest

/-! ## Methods -/

theorem reads_of_fieldTypes {fuel : Nat} {cs rest : List Char} {ts : List FieldType}
    (h : Descriptor.fieldTypes fuel cs = (ts, rest)) (hplain : IsPlain cs) :
    ∃ pieces, cs = pieces.flatten ++ rest ∧
      List.Forall₂ (Reads type) pieces (ts.map GenericType.ofErased) := by
  induction fuel generalizing cs ts with
  | zero =>
    cases h
    exact ⟨[], rfl, .nil⟩
  | succ fuel ih =>
    rw [Descriptor.fieldTypes] at h
    split at h
    · cases h
      exact ⟨[], rfl, .nil⟩
    · rename_i t after hread
      cases hlater : Descriptor.fieldTypes fuel after with
      | mk later left =>
        rw [hlater] at h
        cases h
        obtain ⟨front, rfl, hfirst⟩ := reads_of_fieldType hread hplain
        obtain ⟨pieces, rfl, hpieces⟩ := ih hlater hplain.right
        exact ⟨front :: pieces, by simp, .cons hfirst hpieces⟩

theorem returnType_of_descriptor {cs : List Char} {ret : Option FieldType}
    (h : Descriptor.returnType cs = some ret) (hplain : IsPlain cs) :
    returnType cs = some (ret.map GenericType.ofErased, []) := by
  rcases Descriptor.of_returnType h with ⟨rfl, rfl⟩ | ⟨t, rfl, hread⟩
  · rfl
  · obtain ⟨front, hfront, htype⟩ := reads_of_fieldType hread hplain
    have hwhole := htype.takes [] nofun
    rw [← hfront] at hwhole
    rw [returnType.eq_def]
    split
    · -- no type begins with the letter for no result
      cases hread
    · rw [hwhole]
      rfl

theorem isGeneric_ofErased (t : FieldType) : (GenericType.ofErased t).isGeneric = false := by
  induction t with
  | prim p => rfl
  | object name => rfl
  | array element ih => exact ih

/-- The header that a descriptor gives as a signature. -/
def plainMethod (d : MethodDescriptor) : GenericMethod :=
  ⟨[], d.params.map .ofErased, d.ret.map .ofErased⟩

theorem erasure_plainMethod (d : MethodDescriptor) : (plainMethod d).erasure = d := by
  obtain ⟨params, ret⟩ := d
  cases ret <;> simp [plainMethod, GenericMethod.erasure, Function.comp_def]

theorem isGeneric_plainMethod (d : MethodDescriptor) : (plainMethod d).isGeneric = false := by
  obtain ⟨params, ret⟩ := d
  cases ret <;> simp [plainMethod, GenericMethod.isGeneric, isGeneric_ofErased]

theorem parseMethod_of_descriptor {s : String} {d : MethodDescriptor}
    (h : Descriptor.parseMethod s = .ok d) (hplain : IsPlain s.toList) :
    parseMethod s = .ok (plainMethod d) := by
  obtain ⟨rest, result, hopen, hparams, hret⟩ := Descriptor.parseMethod_eq_ok_iff.1 h
  rw [hopen] at hplain
  obtain ⟨pieces, rfl, hpieces⟩ := reads_of_fieldTypes hparams hplain.tail
  have hclose : type (')' :: result) = none := rfl
  have htypes := many_flatten hpieces (by simp) hclose
  have hreturn := returnType_of_descriptor hret hplain.tail.right.tail
  have hparameters : typeParameters ('(' :: (pieces.flatten ++ ')' :: result)) =
      some ([], '(' :: (pieces.flatten ++ ')' :: result)) := rfl
  have hthrown : many thrown [] = ([], []) := rfl
  unfold parseMethod whole method
  rw [hopen]
  simp only [hparameters, Option.bind_eq_bind, Option.bind_some, literal_cons, htypes, hreturn,
    hthrown]
  rfl

theorem parseField_of_descriptor {s : String} {t : FieldType}
    (h : Descriptor.parseField s = .ok t) (hplain : IsPlain s.toList) :
    parseField s = .ok (.ofErased t) := by
  obtain ⟨front, hfront, htype⟩ := reads_of_fieldType (Descriptor.parseField_eq_ok_iff.1 h) hplain
  rw [List.append_nil] at hfront
  rw [← String.ofList_toList (s := s), hfront]
  exact whole_of_reads htype

/-- Every descriptor whose class names are free of `<` and `.` is a signature of the same types: for
a method without type parameters, with the descriptor as its erasure and nothing generic in it. -/
theorem descriptors_are_signatures :
    (∀ s d, Descriptor.parseMethod s = .ok d → IsPlain s.toList →
      ∃ m, parseMethod s = .ok m ∧ m.typeParams = [] ∧ m.erasure = d ∧ m.isGeneric = false) ∧
    ∀ s t, Descriptor.parseField s = .ok t → IsPlain s.toList →
      parseField s = .ok (.ofErased t) :=
  ⟨fun _ d h hplain => ⟨plainMethod d, parseMethod_of_descriptor h hplain, rfl,
      erasure_plainMethod d, isGeneric_plainMethod d⟩,
    fun _ _ h hplain => parseField_of_descriptor h hplain⟩

theorem descriptors_are_signatures_nested :
    let s := "([[La/b/C$D;J[I)La/T;"
    let d : MethodDescriptor :=
      ⟨[.array (.array (.object "a.b.C$D")), .prim .long, .array (.prim .int)], some (.object "a.T")⟩
    Descriptor.parseMethod s = .ok d ∧ IsPlain s.toList ∧
      ∃ m, parseMethod s = .ok m ∧ m.typeParams = [] ∧ m.erasure = d ∧ m.isGeneric = false := by
  intro s d
  have hread : Descriptor.parseMethod s = .ok d := by decide +kernel
  have hplain : IsPlain s.toList := ⟨by decide, by decide⟩
  exact ⟨hread, hplain, descriptors_are_signatures.1 s d hread hplain⟩

end Renaming.Java.GenericSignature
