import Renaming.Proofs.Java.GenericSignature.Types

/-!
# Generic signatures read back

Headers of methods with their type parameters, parameters, results and thrown types. A type
parameter is read up to where no colon follows it, and the last one is found by there being no colon
behind it. With the types this gives every signature back that is written.
-/

namespace Renaming.Java.GenericSignature

/-- A type parameter as it is declared; the bound is written after one colon, or after two. -/
structure DeclaredParameter where
  parameter : TypeParameter
  doubled : Bool

def DeclaredParameter.written (p : DeclaredParameter) : List Char :=
  p.parameter.name.toList ++
    ':' :: ((if p.doubled then [':'] else []) ++ p.parameter.bound.written)

structure DeclaredParameter.Writable (p : DeclaredParameter) : Prop where
  name : IsSimpleName p.parameter.name
  bound : p.parameter.bound.Writable
  isReference : p.parameter.bound.isPrimitive = false

/-- The parts that a method's signature writes one after the other. -/
structure MethodParts where
  declared : List DeclaredParameter
  params : List GenericType
  ret : Option GenericType
  thrown : List GenericType

namespace MethodParts

/-- The parameters in parentheses, the result and the thrown types. -/
def types (m : MethodParts) : List Char :=
  '(' :: ((m.params.map GenericType.written).flatten ++
    ')' :: ((m.ret.map GenericType.written).getD ['V'] ++
      (m.thrown.map fun t => '^' :: t.written).flatten))

def written (m : MethodParts) : List Char :=
  angled (m.declared.map DeclaredParameter.written).flatten ++ m.types

/-- What the signature declares; thrown types are left out. -/
def header (m : MethodParts) : GenericMethod :=
  ⟨m.declared.map DeclaredParameter.parameter, m.params, m.ret⟩

structure Writable (m : MethodParts) : Prop where
  declared : ∀ p ∈ m.declared, p.Writable
  params : ∀ t ∈ m.params, t.Writable
  ret : ∀ t ∈ m.ret, t.Writable
  thrown : ∀ t ∈ m.thrown, t.Writable ∧ t.isPrimitive = false

end MethodParts

theorem many_of_none {α : Type} {read : Reader α} {cs : List Char} (h : read cs = none) :
    many read cs = ([], cs) := by
  unfold many
  cases cs with
  | nil => rfl
  | cons c cs => simp [manyUpTo, h]

theorem many_of_one {α : Type} {read : Reader α} {c : Char} {cs rest : List Char} {a : α}
    (hfirst : read (c :: cs) = some (a, rest)) (hend : read rest = none) :
    many read (c :: cs) = ([a], rest) := by
  have hlater : manyUpTo read cs.length rest = ([], rest) := by
    cases cs.length with
    | zero => rfl
    | succ fuel => simp [manyUpTo, hend]
  rw [many, List.length_cons, manyUpTo, hfirst]
  simp only [hlater]

theorem furtherBound_eq_none {rest : List Char} (h : rest.head? ≠ some ':') :
    furtherBound rest = none := by
  unfold furtherBound
  rw [literal_eq_none h]
  rfl

theorem word_colon {name : String} (h : IsSimpleName name) (rest : List Char) :
    word (· == ':') (name.toList ++ ':' :: rest) = some (name, ':' :: rest) := by
  have hname : ∀ c ∈ name.toList, (c == ':') = false := by
    intro c hc
    rw [beq_eq_false_iff_ne]
    rintro rfl
    exact h.unmarked ':' (by simp [signatureMarks]) hc
  rw [word_append h.toList_ne_nil hname (by simp), String.ofList_toList]

theorem typeParameter_single {name : String} {bound : GenericType} (hname : IsSimpleName name)
    (hbound : bound.Writable) (hprim : bound.isPrimitive = false) {rest : List Char}
    (hrest : rest.head? ≠ some ':') :
    typeParameter (name.toList ++ ':' :: (bound.written ++ rest)) = some (⟨name, bound⟩, rest) := by
  have hread := (reads_reference hbound hprim).takes rest hrest
  have hfurther := many_of_none (furtherBound_eq_none hrest)
  obtain ⟨c, cs, hc, -, -, hkind⟩ := bound.written_eq_cons
  unfold typeParameter
  rw [word_colon hname]
  rw [hc, List.cons_append] at hread ⊢
  rcases hkind hprim with rfl | rfl | rfl <;>
    simp [literal_cons, hread, hfurther, literal_eq_none hrest]

theorem typeParameter_doubled {name : String} {bound : GenericType} (hname : IsSimpleName name)
    (hbound : bound.Writable) (hprim : bound.isPrimitive = false) {rest : List Char}
    (hrest : rest.head? ≠ some ':') :
    typeParameter (name.toList ++ ':' :: ':' :: (bound.written ++ rest)) =
      some (⟨name, bound⟩, rest) := by
  have hread : furtherBound (':' :: (bound.written ++ rest)) = some (bound, rest) := by
    unfold furtherBound
    rw [literal_cons]
    exact (reads_reference hbound hprim).takes rest hrest
  have hfurther := many_of_one hread (furtherBound_eq_none hrest)
  unfold typeParameter
  rw [word_colon hname]
  simp [literal_cons, hfurther, literal_eq_none hrest]

theorem reads_typeParameter {p : DeclaredParameter} (h : p.Writable) :
    Reads typeParameter p.written p.parameter := by
  obtain ⟨⟨name, bound⟩, doubled⟩ := p
  obtain ⟨hname, hbound, hprim⟩ := h
  obtain ⟨c, cs, hc⟩ := List.exists_cons_of_ne_nil hname.toList_ne_nil
  refine ⟨?_, ?_, fun rest hrest => ?_⟩
  · simp [DeclaredParameter.written]
  · have hcolon : c ≠ ':' := by
      rintro rfl
      exact hname.unmarked ':' (by simp [signatureMarks]) (by simp [hc])
    simp [DeclaredParameter.written, hc, hcolon]
  · cases doubled with
    | false => simpa [DeclaredParameter.written] using typeParameter_single hname hbound hprim hrest
    | true => simpa [DeclaredParameter.written] using typeParameter_doubled hname hbound hprim hrest

/-- Where no colon follows there is no further type parameter. -/
theorem typeParameter_eq_none {cs : List Char} (h : ':' ∉ cs) : typeParameter cs = none := by
  have hcolon : ∀ c ∈ cs, (c == ':') = false := by
    intro c hc
    rw [beq_eq_false_iff_ne]
    rintro rfl
    exact h hc
  unfold typeParameter
  cases cs with
  | nil => rfl
  | cons c cs =>
    have hnil : ∀ d ∈ ([] : List Char).head?, (d == ':') = true := nofun
    have hword := word_append (List.cons_ne_nil c cs) hcolon hnil
    rw [List.append_nil] at hword
    rw [hword]
    rfl

theorem reads_thrown {t : GenericType} (h : t.Writable) (hprim : t.isPrimitive = false) :
    Reads thrown ('^' :: t.written) t := by
  refine ⟨by simp, by simp, fun rest hrest => ?_⟩
  unfold thrown
  rw [List.cons_append, literal_cons]
  exact (reads_reference h hprim).takes rest hrest

theorem returnType_written {ret : Option GenericType} (h : ∀ t ∈ ret, t.Writable)
    {rest : List Char} (hrest : rest.head? ≠ some ':') :
    returnType ((ret.map GenericType.written).getD ['V'] ++ rest) = some (ret, rest) := by
  cases ret with
  | none => rfl
  | some t =>
    have hread := (reads_type (h t rfl)).takes rest hrest
    obtain ⟨c, cs, hc, -, hvoid, -⟩ := t.written_eq_cons
    rw [Option.map_some, Option.getD_some]
    rw [hc, List.cons_append] at hread ⊢
    rw [returnType.eq_def]
    split
    · rename_i heq
      exact absurd (List.cons.inj heq).1 hvoid
    · rw [hread, Option.map_some]

theorem forall₂_reads {α : Type} {read : Reader α} {written : α → List Char} {items : List α}
    (h : ∀ x ∈ items, Reads read (written x) x) :
    List.Forall₂ (Reads read) (items.map written) items := by
  rw [List.forall₂_map_left_iff, List.forall₂_same]
  exact h

section Methods

variable {m : MethodParts}

theorem colon_notMem_types (h : m.Writable) : ':' ∉ m.types := by
  have hparams : ':' ∉ (m.params.map GenericType.written).flatten := by
    intro hmem
    obtain ⟨text, htext, hcolon⟩ := List.mem_flatten.1 hmem
    obtain ⟨t, ht, rfl⟩ := List.mem_map.1 htext
    exact t.colon_notMem_written (h.params t ht) hcolon
  have hret : ':' ∉ (m.ret.map GenericType.written).getD ['V'] := by
    cases hm : m.ret with
    | none => simp
    | some t => exact t.colon_notMem_written (h.ret t hm)
  have hthrown : ':' ∉ (m.thrown.map fun t => '^' :: t.written).flatten := by
    intro hmem
    obtain ⟨text, htext, hcolon⟩ := List.mem_flatten.1 hmem
    obtain ⟨t, ht, rfl⟩ := List.mem_map.1 htext
    have hnot := t.colon_notMem_written (h.thrown t ht).1
    simp [hnot] at hcolon
  simp only [MethodParts.types, List.mem_cons, List.mem_append, not_or]
  exact ⟨by decide, hparams, by decide, hret, hthrown⟩

theorem typeParameters_written (h : m.Writable) :
    typeParameters m.written = some (m.declared.map DeclaredParameter.parameter, m.types) := by
  have hdeclared : List.Forall₂ (Reads typeParameter) (m.declared.map DeclaredParameter.written)
      (m.declared.map DeclaredParameter.parameter) := by
    rw [List.forall₂_map_left_iff, List.forall₂_map_right_iff, List.forall₂_same]
    exact fun p hp => reads_typeParameter (h.declared p hp)
  have hclose : typeParameter ('>' :: m.types) = none := by
    apply typeParameter_eq_none
    simp [colon_notMem_types h]
  exact bracketed_angled hdeclared (by simp [MethodParts.types]) hclose

/-- All parts of a method's signature are read, up to its end. -/
theorem method_written (h : m.Writable) : method m.written = some (m.header, []) := by
  have hparams := forall₂_reads fun t ht => reads_type (h.params t ht)
  have hthrown := forall₂_reads fun t ht => reads_thrown (h.thrown t ht).1 (h.thrown t ht).2
  have hclose : ∀ rest, type (')' :: rest) = none := fun rest => rfl
  have hend : thrown [] = none := rfl
  have hnil : ([] : List Char).head? ≠ some ':' := nofun
  have hexceptions := many_flatten hthrown hnil hend
  have hreturn := returnType_written h.ret (head?_flatten_append hthrown hnil)
  rw [List.append_nil] at hexceptions hreturn
  have htypes : many type ((m.params.map GenericType.written).flatten ++
      ')' :: ((m.ret.map GenericType.written).getD ['V'] ++
        (m.thrown.map fun t => '^' :: t.written).flatten)) = (m.params, _) :=
    many_flatten hparams (by simp) (hclose _)
  unfold method
  rw [typeParameters_written h, MethodParts.types]
  simp only [Option.bind_eq_bind, Option.bind_some, literal_cons, htypes, hreturn, hexceptions]
  rfl

end Methods

theorem whole_of_reads {α : Type} {read : Reader α} {text : List Char} {a : α}
    (h : Reads read text a) : whole read (String.ofList text) = .ok a := by
  have hread := h.takes [] nofun
  rw [List.append_nil] at hread
  unfold whole
  rw [String.toList_ofList]
  simp only [hread]

/-- A class inside of a class is read as the inner one, with the arguments of the inner one. -/
theorem reads_inner {outer inner : String} {args innerArgs : List TypeArgument}
    (houter : IsBinaryName outer) (hinner : IsSimpleName inner) (hargs : WritableArguments args)
    (hinnerArgs : WritableArguments innerArgs) :
    Reads type ('L' :: (slashed outer ++ (angled (writtenArguments args) ++
        '.' :: (inner.toList ++ (angled (writtenArguments innerArgs) ++ [';'])))))
      (.object (outer ++ "$" ++ inner) innerArgs) := by
  refine ⟨by simp, by simp, fun rest _ => ?_⟩
  have htext : 'L' :: (slashed outer ++ (angled (writtenArguments args) ++
        '.' :: (inner.toList ++ (angled (writtenArguments innerArgs) ++ [';'])))) ++ rest =
      'L' :: (slashed outer ++ (angled (writtenArguments args) ++
        (InnerClasses.written [(inner, innerArgs)] ++ ';' :: rest))) := by
    simp [InnerClasses.written]
  have hle := length_le_length_angled (writtenArguments args)
  have hinnerLe := length_le_length_angled (writtenArguments innerArgs)
  rw [htext, type, typeWith, if_pos (.inl rfl), reference, referenceUpTo]
  apply classType_written houter (readsArguments hargs ?_) [(inner, innerArgs)]
  · simpa using hinner
  · intro s hs
    obtain rfl : s = (inner, innerArgs) := List.mem_singleton.1 hs
    apply readsArguments hinnerArgs
    simp only [InnerClasses.written, List.flatMap_cons, List.length_cons, List.length_append]
    omega
  · simp only [List.length_cons, List.length_append]
    omega

/-- Generic signatures are read back: types, headers of methods with any number of type parameters
and thrown types, and classes inside of classes. -/
theorem signatures_read_back :
    (∀ t : GenericType, t.Writable → parseField (String.ofList t.written) = .ok t) ∧
    (∀ m : MethodParts, m.Writable → parseMethod (String.ofList m.written) = .ok m.header) ∧
    ∀ (outer inner : String) (args innerArgs : List TypeArgument), IsBinaryName outer →
      IsSimpleName inner → WritableArguments args → WritableArguments innerArgs →
      parseField (String.ofList ('L' :: (slashed outer ++ (angled (writtenArguments args) ++
        '.' :: (inner.toList ++ (angled (writtenArguments innerArgs) ++ [';'])))))) =
        .ok (.object (outer ++ "$" ++ inner) innerArgs) := by
  refine ⟨fun t h => whole_of_reads (reads_type h), fun m h => ?_, ?_⟩
  · unfold parseMethod whole
    rw [String.toList_ofList, method_written h]
  · intro outer inner args innerArgs houter hinner hargs hinnerArgs
    exact whole_of_reads (reads_inner houter hinner hargs hinnerArgs)

/-- A method with two type parameters, one of them bounded by an interface, and a thrown type. -/
def sortingMethod : MethodParts where
  declared := [⟨⟨"X", .objectClass⟩, false⟩,
    ⟨⟨"Y", .object "java.lang.Comparable" [.superOf (.var "X" .objectClass)]⟩, true⟩]
  params := [.array (.prim .int),
    .object "java.util.Map" [.any, .extending (.var "Y" .objectClass)]]
  ret := some (.var "X" .objectClass)
  thrown := [.raw "java.io.IOException"]

theorem writable_sortingMethod : sortingMethod.Writable := by
  have hX : IsSimpleName "X" := by decide
  have hY : IsSimpleName "Y" := by decide
  have hobject : IsBinaryName "java.lang.Object" := by decide
  have hcomparable : IsBinaryName "java.lang.Comparable" := by decide
  have hmap : IsBinaryName "java.util.Map" := by decide
  have hexception : IsBinaryName "java.io.IOException" := by decide
  constructor
  · intro p hp
    rcases List.mem_cons.1 hp with rfl | hp
    · exact ⟨hX, ⟨hobject, trivial⟩, rfl⟩
    · obtain rfl := List.mem_singleton.1 hp
      exact ⟨hY, ⟨hcomparable, ⟨rfl, hX, rfl⟩, trivial⟩, rfl⟩
  · intro t ht
    rcases List.mem_cons.1 ht with rfl | ht
    · exact trivial
    · obtain rfl := List.mem_singleton.1 ht
      exact ⟨hmap, trivial, ⟨rfl, hY, rfl⟩, trivial⟩
  · intro t ht
    obtain rfl := Option.mem_some_iff.1 ht
    exact ⟨hX, rfl⟩
  · intro t ht
    obtain rfl := List.mem_singleton.1 ht
    exact ⟨⟨hexception, trivial⟩, rfl⟩

theorem signatures_read_back_sortingMethod :
    sortingMethod.Writable ∧
      parseMethod (String.ofList sortingMethod.written) = .ok sortingMethod.header :=
  ⟨writable_sortingMethod, signatures_read_back.2.1 sortingMethod writable_sortingMethod⟩

end Renaming.Java.GenericSignature
