import Renaming.Proofs.FileTree
import Renaming.Store

/-!
# Unit ids and the roots they are joined to

An id is accepted for the parts of its path, but what is opened is the root with the text of the id
put behind it. Repeated separators, dots inside of an id and separators at its end are no parts;
wherever they stand, the joined path goes on from the root by names.
-/

namespace Renaming

namespace Path

theorem isName_of_mem_fields {path part : String} (h : part ∈ Text.fields '/' path)
    (hstay : staysHere part = false) (hup : part ≠ "..") : IsName part := by
  rw [staysHere, Bool.or_eq_false_iff, String.isEmpty_eq_false_iff, beq_eq_false_iff_ne] at hstay
  exact ⟨hstay.1, hstay.2, hup, Text.notMem_of_mem_fields h⟩

/-- A path on which nothing leads up ends in the last of its names. -/
theorem leadsDown_of_names_ne_nil {path : String} (hup : ".." ∉ Text.fields '/' path)
    (hne : names path ≠ []) : LeadsDown path := by
  have hcut := List.takeWhile_append_dropWhile (p := staysHere) (l := (Text.fields '/' path).reverse)
  cases hrest : (Text.fields '/' path).reverse.dropWhile staysHere with
  | nil =>
    have hstay := List.dropWhile_eq_nil_iff.1 hrest
    refine absurd (List.filter_eq_nil_iff.2 fun part hpart => ?_) hne
    simp [hstay part (List.mem_reverse.2 hpart)]
  | cons name front =>
    have hfields : Text.fields '/' path = front.reverse ++
        name :: ((Text.fields '/' path).reverse.takeWhile staysHere).reverse := by
      rw [hrest] at hcut
      simpa using (congrArg List.reverse hcut).symm
    have hmem : name ∈ Text.fields '/' path := by
      rw [hfields]
      simp
    have hstay : staysHere name = false := by
      have := List.head?_dropWhile_not staysHere (Text.fields '/' path).reverse
      rw [hrest] at this
      simpa using this
    refine ⟨_, name, _, hfields, isName_of_mem_fields hmem hstay ?_, ?_⟩
    · rintro rfl
      exact hup hmem
    · intro part hpart
      exact List.mem_takeWhile_imp (List.mem_reverse.1 hpart)

end Path

namespace UnitId

theorem isValid_iff {id : String} :
    isValid id = true ↔ id ≠ "" ∧ '\\' ∉ id.toList ∧ (Text.fields '/' id).head? ≠ some "" ∧
      (Text.fields '/' id).head? ≠ some "." ∧ ".." ∉ Text.fields '/' id := by
  simp [isValid, Text.containsChar, and_assoc]

/-- An id whose path goes down, by one name at least. -/
structure GoesDown (id : String) : Prop where
  up : ".." ∉ Text.fields '/' id
  names_ne_nil : Path.names id ≠ []

namespace GoesDown

variable {id : String}

theorem isName (h : GoesDown id) : ∀ name ∈ Path.names id, Path.IsName name := by
  intro name hname
  obtain ⟨hmem, hstay⟩ := List.mem_filter.1 hname
  refine Path.isName_of_mem_fields hmem (by simpa using hstay) ?_
  rintro rfl
  exact h.up hmem

theorem leadsDown (h : GoesDown id) : Path.LeadsDown id :=
  Path.leadsDown_of_names_ne_nil h.up h.names_ne_nil

end GoesDown

theorem goesDown_of_isValid {id : String} (h : isValid id = true) : GoesDown id := by
  obtain ⟨-, -, hroot, hhere, hup⟩ := isValid_iff.1 h
  obtain ⟨first, later, hfields⟩ := List.exists_cons_of_ne_nil (Text.fields_ne_nil '/' id)
  rw [hfields, List.head?_cons, ne_eq, Option.some.injEq] at hroot hhere
  refine ⟨hup, ?_⟩
  simp [Path.names, hfields, Path.staysHere, hroot, hhere]

/-- An accepted id stays below every root it is joined to: the joined path goes through the names of
the root and then through those of the id, of which there is one at least and none leads up. It is
absolute if the root is, and where the root leads to a location it leads to a place below that. An id
is refused exactly if it is empty, contains a backslash, begins with a separator or with a dot, or
steps up anywhere. -/
theorem accepted_id_stays_below_root (id : String) :
    (isValid id = true → ∃ below, below ≠ [] ∧ (∀ name ∈ below, Path.IsName name) ∧
      ∀ root, Path.names (Path.join root id) = Path.names root ++ below ∧
        Text.startsWith "/" (Path.join root id) = Text.startsWith "/" root ∧
        ∀ r, Path.location? root = some r →
          Path.location? (Path.join root id) = some (r ++ below)) ∧
    (isValid id = false ↔ id = "" ∨ '\\' ∈ id.toList ∨ Text.startsWith "/" id = true ∨
      (Text.fields '/' id).head? = some "." ∨ ".." ∈ Text.fields '/' id) := by
  refine ⟨fun h => ?_, ?_⟩
  · have hdown := goesDown_of_isValid h
    refine ⟨Path.names id, hdown.names_ne_nil, hdown.isName, fun root => ?_⟩
    refine ⟨Path.names_join root id, ?_, fun r hr => Path.location?_join_of_down hr hdown.up⟩
    obtain ⟨hne, -, hslash, -, -⟩ := isValid_iff.1 h
    by_cases hroot : root = ""
    · subst hroot
      rw [ne_eq, ← Path.startsWith_slash_eq hne, Bool.not_eq_true] at hslash
      exact hslash
    · rw [Bool.eq_iff_iff, Path.startsWith_slash_eq (Path.join_ne_empty hroot id),
        Path.startsWith_slash_eq hroot, Path.head?_fields_join hroot]
  · rw [← Bool.not_eq_true, isValid_iff]
    by_cases hne : id = ""
    · simp [hne]
    · rw [Path.startsWith_slash_eq hne]
      tauto

/-- An id with repeated separators, a dot inside and a separator at its end. -/
theorem accepted_id_stays_below_root_detours :
    isValid "a//./B.java/" = true ∧
      ∃ below, below ≠ [] ∧
        Path.names (Path.join "../t/./d//" "a//./B.java/") = ["..", "t", "d"] ++ below ∧
        Path.location? (Path.join "t/../d//" "a//./B.java/") = some (["d"] ++ below) := by
  have hvalid : isValid "a//./B.java/" = true := by decide
  obtain ⟨below, hne, -, hbelow⟩ := (accepted_id_stays_below_root "a//./B.java/").1 hvalid
  exact ⟨hvalid, below, hne, (hbelow "../t/./d//").1, (hbelow "t/../d//").2.2 ["d"] (by decide)⟩

end UnitId

end Renaming
