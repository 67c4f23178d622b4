import Renaming.Java.GenericType
import Renaming.Proofs.Descriptor

/-!
# The written form of generic types

How a signature writes a type, its arguments and the names in it, and which types it can tell. A
type's first character says of what kind the type is, and no colon stands in it.
-/

namespace Renaming.Java

/-- What marks the parts of a signature and cannot stand in a name. -/
def signatureMarks : List Char := [';', '[', '/', '<', '>', ':']

/-- A class name, in which dots separate packages. -/
structure IsBinaryName (name : String) : Prop where
  nonempty : name ≠ ""
  unmarked : ∀ c ∈ signatureMarks, c ∉ name.toList

/-- A name without packages: that of a variable, of a parameter or of an inner class. -/
structure IsSimpleName (name : String) : Prop extends IsBinaryName name where
  dot_notMem : '.' ∉ name.toList

instance (name : String) : Decidable (IsBinaryName name) :=
  decidable_of_iff (name ≠ "" ∧ signatureMarks.all fun c => !name.toList.contains c)
    ⟨fun h => ⟨h.1, by simpa using h.2⟩, fun h => ⟨h.nonempty, by simpa using h.unmarked⟩⟩

instance (name : String) : Decidable (IsSimpleName name) :=
  decidable_of_iff (IsBinaryName name ∧ !name.toList.contains '.')
    ⟨fun h => ⟨h.1, by simpa using h.2⟩, fun h => ⟨h.toIsBinaryName, by simpa using h.dot_notMem⟩⟩

/-- Text between angle brackets; without text there are none. -/
def angled (text : List Char) : List Char :=
  if text = [] then [] else '<' :: (text ++ ['>'])

/-- A class name as signatures write it. -/
def slashed (binary : String) : List Char := (Text.replaceChar '.' '/' binary).toList

mutual

/-- The form of a type in a signature. -/
def GenericType.written : GenericType → List Char
  | .prim p => [p.letter]
  | .object binary args => 'L' :: (slashed binary ++ (angled (writtenArguments args) ++ [';']))
  | .array element => '[' :: element.written
  | .var name _ => 'T' :: (name.toList ++ [';'])

def writtenArguments : List TypeArgument → List Char
  | [] => []
  | a :: rest => a.written ++ writtenArguments rest

def TypeArgument.written : TypeArgument → List Char
  | .exact t => t.written
  | .extending t => '+' :: t.written
  | .superOf t => '-' :: t.written
  | .any => ['*']

end

mutual

/-- Types that signatures can tell: names are free of marks, variables are bounded by the root
class, and no argument is primitive. -/
def GenericType.Writable : GenericType → Prop
  | .prim _ => True
  | .object binary args => IsBinaryName binary ∧ WritableArguments args
  | .array element => element.Writable
  | .var name bound => IsSimpleName name ∧ bound = .objectClass

def WritableArguments : List TypeArgument → Prop
  | [] => True
  | a :: rest => a.Writable ∧ WritableArguments rest

def TypeArgument.Writable : TypeArgument → Prop
  | .exact t => t.isPrimitive = false ∧ t.Writable
  | .extending t => t.isPrimitive = false ∧ t.Writable
  | .superOf t => t.isPrimitive = false ∧ t.Writable
  | .any => True

end

theorem length_le_length_angled (text : List Char) : text.length ≤ (angled text).length := by
  by_cases htext : text = []
  · simp [htext]
  · rw [angled, if_neg htext, List.length_cons, List.length_append]
    omega

theorem writtenArguments_eq_flatten (args : List TypeArgument) :
    writtenArguments args = (args.map TypeArgument.written).flatten := by
  induction args with
  | nil => rfl
  | cons a rest ih => rw [writtenArguments, ih, List.map_cons, List.flatten_cons]

theorem IsBinaryName.slashed_ne_nil {binary : String} (h : IsBinaryName binary) :
    slashed binary ≠ [] :=
  Text.toList_replaceChar_ne_nil h.nonempty

theorem IsBinaryName.notMem_slashed {binary : String} (h : IsBinaryName binary) {c : Char}
    (hc : c ∈ signatureMarks) (hslash : c ≠ '/') : c ∉ slashed binary :=
  Text.notMem_toList_replaceChar hslash (h.unmarked c hc)

theorem dot_notMem_slashed (binary : String) : '.' ∉ slashed binary := by
  rw [slashed, Text.replaceChar, String.toList_ofList, List.mem_map]
  rintro ⟨c, -, hc⟩
  by_cases hdot : c = '.'
  · simp [hdot] at hc
  · simp [hdot] at hc

/-- Slashes become dots again. -/
theorem IsBinaryName.replaceChar_slashed {binary : String} (h : IsBinaryName binary) :
    Text.replaceChar '/' '.' (String.ofList (slashed binary)) = binary := by
  rw [slashed, String.ofList_toList]
  exact Text.replaceChar_replaceChar (h.unmarked '/' (by simp [signatureMarks]))

theorem IsSimpleName.toList_ne_nil {name : String} (h : IsSimpleName name) : name.toList ≠ [] := by
  simpa using h.nonempty

/-- The first character of a type tells what kind of type it is. -/
theorem GenericType.written_eq_cons (t : GenericType) :
    ∃ c cs, t.written = c :: cs ∧ c ≠ ':' ∧ c ≠ 'V' ∧
      (t.isPrimitive = false → c = 'L' ∨ c = 'T' ∨ c = '[') := by
  cases t with
  | prim p =>
    refine ⟨p.letter, [], by rw [GenericType.written], ?_, ?_, nofun⟩ <;> cases p <;> decide
  | object binary args =>
    exact ⟨'L', _, by rw [GenericType.written], by decide, by decide, fun _ => .inl rfl⟩
  | array element =>
    exact ⟨'[', _, by rw [GenericType.written], by decide, by decide, fun _ => .inr (.inr rfl)⟩
  | var name bound =>
    exact ⟨'T', _, by rw [GenericType.written], by decide, by decide, fun _ => .inr (.inl rfl)⟩

theorem GenericType.written_ne_nil (t : GenericType) : t.written ≠ [] := by
  obtain ⟨c, cs, ht, -⟩ := t.written_eq_cons
  simp [ht]

theorem GenericType.head?_written (t : GenericType) : t.written.head? ≠ some ':' := by
  obtain ⟨c, cs, ht, hc, -⟩ := t.written_eq_cons
  simp [ht, hc]

theorem colon_notMem_angled {text : List Char} (h : ':' ∉ text) : ':' ∉ angled text := by
  by_cases htext : text = []
  · simp [angled, htext]
  · simp [angled, htext, h]

mutual

theorem GenericType.colon_notMem_written : ∀ t : GenericType, t.Writable → ':' ∉ t.written
  | .prim p, _ => by
    rw [GenericType.written]
    cases p <;> decide
  | .object binary args, h => by
    rw [GenericType.Writable] at h
    have hname := h.1.notMem_slashed (c := ':') (by simp [signatureMarks]) (by decide)
    have hargs := colon_notMem_angled (colon_notMem_writtenArguments args h.2)
    simp [GenericType.written, hname, hargs]
  | .array element, h => by
    rw [GenericType.Writable] at h
    simp [GenericType.written, element.colon_notMem_written h]
  | .var name bound, h => by
    rw [GenericType.Writable] at h
    have hname := h.1.unmarked ':' (by simp [signatureMarks])
    simp [GenericType.written, hname]

theorem colon_notMem_writtenArguments : ∀ args : List TypeArgument,
    WritableArguments args → ':' ∉ writtenArguments args
  | [], _ => by simp [writtenArguments]
  | a :: later, h => by
    rw [WritableArguments] at h
    have hfirst := a.colon_notMem_written h.1
    have hlater := colon_notMem_writtenArguments later h.2
    simp [writtenArguments, hfirst, hlater]

theorem TypeArgument.colon_notMem_written : ∀ a : TypeArgument, a.Writable → ':' ∉ a.written
  | .exact t, h => by
    rw [TypeArgument.Writable] at h
    simp [TypeArgument.written, t.colon_notMem_written h.2]
  | .extending t, h => by
    rw [TypeArgument.Writable] at h
    simp [TypeArgument.written, t.colon_notMem_written h.2]
  | .superOf t, h => by
    rw [TypeArgument.Writable] at h
    simp [TypeArgument.written, t.colon_notMem_written h.2]
  | .any, _ => by simp [TypeArgument.written]

end

end Renaming.Java
