import Mathlib.Data.List.Forall2
import Renaming.Java.GenericSignature
import Renaming.Proofs.Java.GenericSignature.Written

/-!
# Types in signatures read back

The form of a type or of an argument ends where it ends, whatever follows it. Only a type parameter
could go on with a colon, so reading is stated for what does not go on with one. Arguments are read
one by one up to the closing bracket, and classes inside of a class up to the innermost one.
-/

namespace Renaming.Java.GenericSignature

theorem word_append {stop : Char → Bool} {name rest : List Char} (hne : name ≠ [])
    (hname : ∀ c ∈ name, stop c = false) (hrest : ∀ c ∈ rest.head?, stop c = true) :
    word stop (name ++ rest) = some (String.ofList name, rest) := by
  have hgo : ∀ c ∈ name, (!stop c) = true := by
    intro c hc
    rw [hname c hc, Bool.not_false]
  have hend : rest.takeWhile (fun c => !stop c) = [] ∧
      rest.dropWhile (fun c => !stop c) = rest := by
    cases rest with
    | nil => exact ⟨rfl, rfl⟩
    | cons c rest =>
      have hc := hrest c rfl
      simp [hc]
  unfold word
  rw [List.takeWhile_append_of_pos hgo, List.dropWhile_append_of_pos hgo, hend.1, hend.2,
    List.append_nil]
  obtain ⟨first, later, rfl⟩ := List.exists_cons_of_ne_nil hne
  rfl

theorem literal_cons (c : Char) (rest : List Char) : literal c (c :: rest) = some rest := by
  simp [literal]

theorem literal_eq_none {c : Char} {rest : List Char} (h : rest.head? ≠ some c) :
    literal c rest = none := by
  cases rest with
  | nil => rfl
  | cons d rest =>
    have hd : d ≠ c := fun heq => h (by rw [heq]; rfl)
    simp [literal, hd]

/-- The reader takes the text off the front of whatever does not go on with a colon. -/
structure Reads {α : Type} (read : Reader α) (text : List Char) (a : α) : Prop where
  nonempty : text ≠ []
  opens : text.head? ≠ some ':'
  takes : ∀ rest, rest.head? ≠ some ':' → read (text ++ rest) = some (a, rest)

section Runs

variable {α : Type} {read : Reader α} {pieces : List (List Char)} {values : List α}

theorem head?_flatten_append (h : List.Forall₂ (Reads read) pieces values) {rest : List Char}
    (hrest : rest.head? ≠ some ':') : (pieces.flatten ++ rest).head? ≠ some ':' := by
  cases h with
  | nil => exact hrest
  | cons hfirst _ =>
    rw [List.flatten_cons, List.append_assoc, List.head?_append_of_ne_nil _ hfirst.nonempty]
    exact hfirst.opens

theorem manyUpTo_flatten (h : List.Forall₂ (Reads read) pieces values) {rest : List Char}
    (hrest : rest.head? ≠ some ':') (hend : read rest = none) {fuel : Nat}
    (hfuel : pieces.length ≤ fuel) : manyUpTo read fuel (pieces.flatten ++ rest) = (values, rest) := by
  induction h generalizing fuel with
  | nil =>
    cases fuel with
    | zero => rfl
    | succ fuel => simp [manyUpTo, hend]
  | cons hfirst hlater ih =>
    cases fuel with
    | zero => simp at hfuel
    | succ fuel =>
      have hnext := ih (Nat.le_of_succ_le_succ hfuel)
      rw [List.flatten_cons, List.append_assoc, manyUpTo,
        hfirst.takes _ (head?_flatten_append hlater hrest)]
      simp only [hnext]

/-- Values that are written one after the other are read up to what is none. -/
theorem many_flatten (h : List.Forall₂ (Reads read) pieces values) {rest : List Char}
    (hrest : rest.head? ≠ some ':') (hend : read rest = none) :
    many read (pieces.flatten ++ rest) = (values, rest) := by
  apply manyUpTo_flatten h hrest hend
  have hnonempty : ∀ piece ∈ pieces, piece ≠ [] :=
    ((List.forall₂_and_left pieces values).1 (h.imp fun _ _ hread => ⟨hread.nonempty, hread⟩)).1
  have hle := Text.length_le_length_flatten hnonempty
  rw [List.length_append]
  omega

theorem bracketed_angled (h : List.Forall₂ (Reads read) pieces values) {rest : List Char}
    (hrest : rest.head? ≠ some '<') (hend : read ('>' :: rest) = none) :
    bracketed read (angled pieces.flatten ++ rest) = some (values, rest) := by
  cases h with
  | nil =>
    rw [List.flatten_nil, angled, if_pos rfl, List.nil_append, bracketed.eq_def]
    split
    · exact absurd rfl hrest
    · rfl
  | @cons piece a pieces values hfirst hlater =>
    have hne : (piece :: pieces).flatten ≠ [] := by
      rw [List.flatten_cons]
      exact List.append_ne_nil_of_left_ne_nil hfirst.nonempty _
    have hcolon : ('>' :: rest).head? ≠ some ':' := by simp
    have hread := many_flatten (.cons hfirst hlater) hcolon hend
    rw [angled, if_neg hne, List.cons_append, List.append_assoc, List.singleton_append, bracketed]
    simp only [hread]

end Runs

/-- The names and arguments of the classes inside of a class, the outermost first. -/
abbrev InnerClasses := List (String × List TypeArgument)

namespace InnerClasses

def written (inner : InnerClasses) : List Char :=
  inner.flatMap fun s => '.' :: (s.1.toList ++ angled (writtenArguments s.2))

/-- The binary name of the innermost class. -/
def binaryName (inner : InnerClasses) (outer : String) : String :=
  inner.foldl (fun binary s => binary ++ "$" ++ s.1) outer

/-- The arguments of the innermost class. -/
def arguments (inner : InnerClasses) (args : List TypeArgument) : List TypeArgument :=
  inner.foldl (fun _ s => s.2) args

theorem length_le_length_written (inner : InnerClasses) : inner.length ≤ inner.written.length :=
  Text.length_le_length_flatMap fun _ _ => List.cons_ne_nil _ _

/-- What follows the name and arguments of a class. -/
theorem head?_written_append (inner : InnerClasses) (rest : List Char) :
    ∃ c, (inner.written ++ ';' :: rest).head? = some c ∧ (c = '.' ∨ c = ';') := by
  cases inner with
  | nil => exact ⟨';', rfl, .inr rfl⟩
  | cons s later => exact ⟨'.', rfl, .inl rfl⟩

end InnerClasses

theorem head?_angled_append (text : List Char) {rest : List Char} {stop : Char → Bool}
    (hopen : stop '<' = true) (hrest : ∀ c ∈ rest.head?, stop c = true) :
    ∀ c ∈ (angled text ++ rest).head?, stop c = true := by
  by_cases htext : text = []
  · rw [angled, if_pos htext, List.nil_append]
    exact hrest
  · rw [angled, if_neg htext]
    intro c hc
    obtain rfl : '<' = c := by simpa using hc
    exact hopen

section Classes

variable {reference : Reader GenericType}

/-- The arguments can be read one by one, and reading ends at the closing bracket. -/
structure ReadsArguments (reference : Reader GenericType) (args : List TypeArgument) : Prop where
  each : List.Forall₂ (Reads (typeArgument reference)) (args.map TypeArgument.written) args
  close : ∀ rest, typeArgument reference ('>' :: rest) = none

theorem ReadsArguments.bracketed {args : List TypeArgument} (h : ReadsArguments reference args)
    {rest : List Char} (hrest : rest.head? ≠ some '<') :
    bracketed (typeArgument reference) (angled (writtenArguments args) ++ rest) =
      some (args, rest) := by
  rw [writtenArguments_eq_flatten]
  exact bracketed_angled h.each hrest (h.close rest)

/-- Name and arguments of a class are read up to an inner class or the end. -/
theorem segment_written {name : List Char} (hne : name ≠ [])
    (hname : ∀ c ∈ name, segmentEnd c = false) {args : List TypeArgument}
    (hargs : ReadsArguments reference args) (inner : InnerClasses) (rest : List Char) :
    word segmentEnd (name ++ (angled (writtenArguments args) ++ (inner.written ++ ';' :: rest))) =
        some (String.ofList name,
          angled (writtenArguments args) ++ (inner.written ++ ';' :: rest)) ∧
      bracketed (typeArgument reference)
          (angled (writtenArguments args) ++ (inner.written ++ ';' :: rest)) =
        some (args, inner.written ++ ';' :: rest) := by
  obtain ⟨c, hc, hcases⟩ := inner.head?_written_append rest
  have hstop : ∀ d ∈ (inner.written ++ ';' :: rest).head?, segmentEnd d = true := by
    intro d hd
    rw [hc, Option.mem_some_iff] at hd
    subst hd
    rcases hcases with rfl | rfl <;> rfl
  have hopen : (inner.written ++ ';' :: rest).head? ≠ some '<' := by
    rw [hc]
    rcases hcases with rfl | rfl <;> simp
  exact ⟨word_append hne hname (head?_angled_append _ rfl hstop), hargs.bracketed hopen⟩

theorem segmentEnd_eq_false {c : Char} (hend : c ≠ ';') (hopen : c ≠ '<') (hdot : c ≠ '.') :
    segmentEnd c = false := by
  simp [segmentEnd, hend, hopen, hdot]

theorem segmentEnd_of_isSimpleName {name : String} (h : IsSimpleName name) :
    ∀ c ∈ name.toList, segmentEnd c = false := by
  intro c hc
  apply segmentEnd_eq_false
  · rintro rfl
    exact h.unmarked ';' (by simp [signatureMarks]) hc
  · rintro rfl
    exact h.unmarked '<' (by simp [signatureMarks]) hc
  · rintro rfl
    exact h.dot_notMem hc

theorem segmentEnd_of_isBinaryName {binary : String} (h : IsBinaryName binary) :
    ∀ c ∈ slashed binary, segmentEnd c = false := by
  intro c hc
  apply segmentEnd_eq_false
  · rintro rfl
    exact h.notMem_slashed (by simp [signatureMarks]) (by decide) hc
  · rintro rfl
    exact h.notMem_slashed (by simp [signatureMarks]) (by decide) hc
  · rintro rfl
    exact dot_notMem_slashed binary hc

/-- Inner classes are read to the innermost one, which keeps its arguments. -/
theorem innerClasses_written {inner : InnerClasses} (hnames : ∀ s ∈ inner, IsSimpleName s.1)
    (hargs : ∀ s ∈ inner, ReadsArguments reference s.2) {fuel : Nat} (hfuel : inner.length < fuel)
    (binary : String) (args : List TypeArgument) (rest : List Char) :
    innerClasses reference fuel binary args (inner.written ++ ';' :: rest) =
      some (.object (inner.binaryName binary) (inner.arguments args), rest) := by
  induction inner generalizing fuel binary args with
  | nil =>
    cases fuel with
    | zero => cases hfuel
    | succ fuel => rfl
  | cons s later ih =>
    cases fuel with
    | zero => cases hfuel
    | succ fuel =>
      have hs := hnames s List.mem_cons_self
      obtain ⟨hword, hbracketed⟩ := segment_written hs.toList_ne_nil (segmentEnd_of_isSimpleName hs)
        (hargs s List.mem_cons_self) later rest
      have hnext := ih (fun u hu => hnames u (List.mem_cons_of_mem s hu))
        (fun u hu => hargs u (List.mem_cons_of_mem s hu)) (Nat.lt_of_succ_lt_succ hfuel)
        (binary ++ "$" ++ s.1) s.2
      have htext : InnerClasses.written (s :: later) ++ ';' :: rest =
          '.' :: (s.1.toList ++ (angled (writtenArguments s.2) ++
            (InnerClasses.written later ++ ';' :: rest))) := by
        simp [InnerClasses.written]
      rw [htext, innerClasses, hword]
      simp only [Option.bind_eq_bind, Option.bind_some, hbracketed, String.ofList_toList, hnext]
      rfl

theorem classType_written {binary : String} (hname : IsBinaryName binary)
    {args : List TypeArgument} (hargs : ReadsArguments reference args) (inner : InnerClasses)
    (hnames : ∀ s ∈ inner, IsSimpleName s.1)
    (hinner : ∀ s ∈ inner, ReadsArguments reference s.2) (rest : List Char) :
    classType reference
        (slashed binary ++ (angled (writtenArguments args) ++ (inner.written ++ ';' :: rest))) =
      some (.object (inner.binaryName binary) (inner.arguments args), rest) := by
  obtain ⟨hword, hbracketed⟩ := segment_written hname.slashed_ne_nil
    (segmentEnd_of_isBinaryName hname) hargs inner rest
  have hfuel : inner.length < (inner.written ++ ';' :: rest).length + 1 := by
    have hle := inner.length_le_length_written
    rw [List.length_append]
    omega
  unfold classType
  rw [hword]
  simp only [Option.bind_eq_bind, Option.bind_some, hbracketed, hname.replaceChar_slashed]
  exact innerClasses_written hnames hinner hfuel binary args rest

end Classes

theorem reads_typeWith {reference : Reader GenericType} {t : GenericType}
    (h : t.isPrimitive = false → Reads reference t.written t) :
    Reads (typeWith reference) t.written t := by
  refine ⟨t.written_ne_nil, t.head?_written, fun rest hrest => ?_⟩
  by_cases hprim : t.isPrimitive = false
  · obtain ⟨c, cs, ht, -, -, hkind⟩ := t.written_eq_cons
    have hread := (h hprim).takes rest hrest
    rw [ht, List.cons_append] at hread ⊢
    rw [typeWith, if_pos (hkind hprim), hread]
  · cases t with
    | prim p =>
      rw [GenericType.written]
      cases p <;> rfl
    | object binary args => exact absurd rfl hprim
    | array element => exact absurd rfl hprim
    | var name bound => exact absurd rfl hprim

theorem reads_typeVariable {name : String} (h : IsSimpleName name) (rest : List Char) :
    typeVariable (name.toList ++ ';' :: rest) = some (.var name .objectClass, rest) := by
  have hname : ∀ c ∈ name.toList, (c == ';') = false := by
    intro c hc
    rw [beq_eq_false_iff_ne]
    rintro rfl
    exact h.unmarked ';' (by simp [signatureMarks]) hc
  have hword : word (· == ';') (name.toList ++ ';' :: rest) = some (name, ';' :: rest) := by
    rw [word_append h.toList_ne_nil hname (by simp), String.ofList_toList]
  unfold typeVariable
  rw [hword]
  simp only [Option.bind_eq_bind, Option.bind_some, literal_cons]
  rfl

theorem typeArgument_close (fuel : Nat) (rest : List Char) :
    typeArgument (referenceUpTo fuel) ('>' :: rest) = none := by
  cases fuel <;> rfl

theorem typeArgument_reference {reference : Reader GenericType} {t : GenericType}
    (h : t.isPrimitive = false) (rest : List Char) :
    typeArgument reference (t.written ++ rest) =
      (reference (t.written ++ rest)).map fun (t, rest) => (.exact t, rest) := by
  obtain ⟨c, cs, ht, -, -, hkind⟩ := t.written_eq_cons
  rw [ht]
  rcases hkind h with rfl | rfl | rfl <;> rfl

mutual

/-- A reference type is read back when the depth allowed is at least its length. -/
theorem reads_referenceUpTo : ∀ (t : GenericType), t.Writable → t.isPrimitive = false →
    ∀ fuel, t.written.length ≤ fuel → Reads (referenceUpTo fuel) t.written t
  | .prim p, _, hprim, _, _ => by cases hprim
  | .object binary args, h, _, fuel, hfuel => by
    rw [GenericType.Writable] at h
    refine ⟨GenericType.written_ne_nil _, GenericType.head?_written _, fun rest _ => ?_⟩
    rw [GenericType.written] at hfuel ⊢
    cases fuel with
    | zero => cases hfuel
    | succ fuel =>
      have hlength : (writtenArguments args).length ≤ fuel := by
        have hle := length_le_length_angled (writtenArguments args)
        simp only [List.length_cons, List.length_append] at hfuel
        omega
      have hargs := reads_arguments args h.2 fuel hlength
      rw [List.cons_append, List.append_assoc, List.append_assoc, List.singleton_append,
        referenceUpTo]
      exact classType_written h.1 ⟨hargs, typeArgument_close fuel⟩ [] nofun nofun rest
  | .array element, h, _, fuel, hfuel => by
    rw [GenericType.Writable] at h
    refine ⟨GenericType.written_ne_nil _, GenericType.head?_written _, fun rest hrest => ?_⟩
    rw [GenericType.written] at hfuel ⊢
    cases fuel with
    | zero => cases hfuel
    | succ fuel =>
      have hread := reads_typeWith fun hprim =>
        reads_referenceUpTo element h hprim fuel (Nat.le_of_succ_le_succ hfuel)
      rw [List.cons_append, referenceUpTo]
      simp only [hread.takes rest hrest, Option.map_some]
  | .var name bound, h, _, fuel, hfuel => by
    rw [GenericType.Writable] at h
    refine ⟨GenericType.written_ne_nil _, GenericType.head?_written _, fun rest _ => ?_⟩
    rw [GenericType.written] at hfuel ⊢
    cases fuel with
    | zero => cases hfuel
    | succ fuel =>
      rw [h.2, List.cons_append, List.append_assoc, List.singleton_append, referenceUpTo]
      exact reads_typeVariable h.1 rest

theorem reads_arguments : ∀ (args : List TypeArgument), WritableArguments args →
    ∀ fuel, (writtenArguments args).length ≤ fuel →
    List.Forall₂ (Reads (typeArgument (referenceUpTo fuel))) (args.map TypeArgument.written) args
  | [], _, _, _ => .nil
  | a :: later, h, fuel, hfuel => by
    rw [WritableArguments] at h
    rw [writtenArguments, List.length_append] at hfuel
    have hfirst := reads_argument a h.1 fuel (by omega)
    have hlater := reads_arguments later h.2 fuel (by omega)
    exact .cons hfirst hlater

theorem reads_argument : ∀ (a : TypeArgument), a.Writable →
    ∀ fuel, a.written.length ≤ fuel → Reads (typeArgument (referenceUpTo fuel)) a.written a
  | .exact t, h, fuel, hfuel => by
    rw [TypeArgument.Writable] at h
    rw [TypeArgument.written] at hfuel ⊢
    have hread := reads_referenceUpTo t h.2 h.1 fuel hfuel
    refine ⟨t.written_ne_nil, t.head?_written, fun rest hrest => ?_⟩
    rw [typeArgument_reference h.1, hread.takes rest hrest, Option.map_some]
  | .extending t, h, fuel, hfuel => by
    rw [TypeArgument.Writable] at h
    rw [TypeArgument.written] at hfuel ⊢
    have hread := reads_referenceUpTo t h.2 h.1 fuel (Nat.le_of_succ_le hfuel)
    refine ⟨by simp, by simp, fun rest hrest => ?_⟩
    rw [List.cons_append, typeArgument, hread.takes rest hrest, Option.map_some]
  | .superOf t, h, fuel, hfuel => by
    rw [TypeArgument.Writable] at h
    rw [TypeArgument.written] at hfuel ⊢
    have hread := reads_referenceUpTo t h.2 h.1 fuel (Nat.le_of_succ_le hfuel)
    refine ⟨by simp, by simp, fun rest hrest => ?_⟩
    rw [List.cons_append, typeArgument, hread.takes rest hrest, Option.map_some]
  | .any, _, _, _ => by
    rw [TypeArgument.written]
    exact ⟨by simp, by simp, fun rest _ => rfl⟩

end

theorem reads_reference {t : GenericType} (h : t.Writable) (hprim : t.isPrimitive = false) :
    Reads reference t.written t := by
  refine ⟨t.written_ne_nil, t.head?_written, fun rest hrest => ?_⟩
  have hfuel : t.written.length ≤ (t.written ++ rest).length + 1 := by
    rw [List.length_append]
    omega
  exact (reads_referenceUpTo t h hprim _ hfuel).takes rest hrest

theorem reads_type {t : GenericType} (h : t.Writable) : Reads type t.written t :=
  reads_typeWith (reads_reference h)

theorem readsArguments {args : List TypeArgument} (h : WritableArguments args) {fuel : Nat}
    (hfuel : (writtenArguments args).length ≤ fuel) :
    ReadsArguments (referenceUpTo fuel) args :=
  ⟨reads_arguments args h fuel hfuel, typeArgument_close fuel⟩

end Renaming.Java.GenericSignature
