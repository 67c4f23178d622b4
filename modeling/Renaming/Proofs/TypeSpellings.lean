import Renaming.Proofs.Symbol
import Renaming.Splice

/-!
# The two spellings of a type

An import spells a type with its package and the types around it, and most uses spell its last part
alone. Both are renamed by the same entry, so that after it the last part of the one is the other
again. A new package is seen in the qualified spelling only, and leaves the last part as it is.
-/

namespace Renaming

namespace Text

/-- A text has a last character of a kind, or none of this kind at all. -/
theorem free_or_last (p : Char → Bool) (s : String) :
    (∀ c ∈ s.toList, p c = false) ∨ ∃ (before after : String) (c : Char),
      s.toList = before.toList ++ c :: after.toList ∧ p c = true ∧
        ∀ d ∈ after.toList, p d = false := by
  generalize s.toList = cs
  induction cs with
  | nil => exact .inl fun c hc => nomatch hc
  | cons first rest ih =>
    rcases ih with hfree | ⟨before, after, c, hrest, hc, hafter⟩
    · cases hfirst : p first with
      | false =>
        refine .inl fun c hc => ?_
        rcases List.mem_cons.1 hc with rfl | hc
        · exact hfirst
        · exact hfree c hc
      | true => exact .inr ⟨"", String.ofList rest, first, by simp, hfirst, by simpa using hfree⟩
    · exact .inr ⟨String.ofList (first :: before.toList), after, c, by simp [hrest], hc, hafter⟩

theorem afterLast_append (c : Char) (front name : String) :
    afterLast c (front ++ String.ofList [c] ++ name) = afterLast c name := by
  rcases free_or_last (· == c) name with hfree | ⟨before, after, d, hname, hd, hafter⟩
  · have hnot : c ∉ name.toList := fun hc => by simpa using hfree c hc
    rw [afterLast_of_notMem hnot, afterLast_eq front name (by simp) hnot]
  · obtain rfl := beq_iff_eq.1 hd
    have hnot : d ∉ after.toList := fun hc => by simpa using hafter d hc
    rw [afterLast_eq before after hname hnot,
      afterLast_eq (front ++ String.ofList [d] ++ before) after (by simp [hname]) hnot]

end Text

/-! ## Names -/

/-- What separates the parts of a binary name. -/
def separates (c : Char) : Bool := c == '.' || c == '$'

theorem isPlain_of_free {name : String} (h : ∀ c ∈ name.toList, separates c = false) :
    IsPlain name :=
  ⟨fun hdot => by simpa [separates] using h '.' hdot,
    fun hdollar => by simpa [separates] using h '$' hdollar⟩

theorem sourceName_append (front name : String) :
    sourceName (front ++ name) = sourceName front ++ sourceName name := by
  simp [sourceName, Text.replaceChar]

theorem sourceName_of_notMem {name : String} (h : '$' ∉ name.toList) : sourceName name = name := by
  have hsame : name.toList.map (fun c => if c = '$' then '.' else c) = name.toList.map id := by
    refine List.map_congr_left fun c hc => if_neg ?_
    rintro rfl
    exact h hc
  rw [sourceName, Text.replaceChar, hsame, List.map_id, String.ofList_toList]

/-- The last part of a name, of which the separators of types are no longer told from those of
packages. -/
theorem afterLast_sourceName (name : String) :
    Text.afterLast '.' (sourceName name) = simpleName name := by
  rcases Text.free_or_last separates name with hfree | ⟨before, after, c, hname, hc, hafter⟩
  · have hplain := isPlain_of_free hfree
    rw [sourceName_of_notMem hplain.2, Text.afterLast_of_notMem hplain.1,
      simpleName_of_plain hplain]
  · have hplain := isPlain_of_free hafter
    have hc : c = '.' ∨ c = '$' := by simpa [separates] using hc
    have hsource :
        (sourceName name).toList = (sourceName before).toList ++ '.' :: after.toList := by
      have hname : name = before ++ String.ofList [c] ++ after := by
        rw [← String.toList_inj]
        simp [hname]
      have hdot : sourceName (String.ofList [c]) = "." := by
        rcases hc with rfl | rfl <;> decide
      rw [hname, sourceName_append, sourceName_append, hdot, sourceName_of_notMem hplain.2]
      simp
    rw [Text.afterLast_eq _ _ hsource hplain.1, simpleName_of_separated before hplain hc hname]

theorem simpleName_append (front name : String) :
    simpleName (front ++ "." ++ name) = simpleName name := by
  rw [← afterLast_sourceName, ← afterLast_sourceName, sourceName_append, sourceName_append]
  exact Text.afterLast_append '.' _ _

/-- A binary name is its package, a dot and the rest, or just the rest in the unnamed package. -/
theorem exists_rest (binary : String) : ∃ rest, '.' ∉ rest.toList ∧
    (binary = rest ∨ binary = packageOf binary ++ "." ++ rest) := by
  rcases Text.free_or_last (· == '.') binary with hfree | ⟨before, after, c, hbinary, hc, hafter⟩
  · exact ⟨binary, fun hdot => by simpa using hfree '.' hdot, .inl rfl⟩
  · obtain rfl := beq_iff_eq.1 hc
    have hnot : '.' ∉ after.toList := fun hdot => by simpa using hafter '.' hdot
    refine ⟨after, hnot, .inr ?_⟩
    rw [packageOf_eq before after hbinary hnot, ← String.toList_inj]
    simpa using hbinary

section Rest

variable {binary rest : String}

theorem simpleName_rest (h : binary = rest ∨ binary = packageOf binary ++ "." ++ rest) :
    simpleName binary = simpleName rest := by
  rcases h with rfl | h
  · rfl
  · rw [h, simpleName_append]

/-- A type gets into a new package without its old one. -/
theorem inPackage_eq (package : String) (hrest : '.' ∉ rest.toList)
    (h : binary = rest ∨ binary = packageOf binary ++ "." ++ rest) :
    inPackage package binary =
      sourceName (if package.isEmpty then rest else package ++ "." ++ rest) := by
  have hkept : rest.toList.dropWhile (· == '.') = rest.toList := by
    cases hlist : rest.toList with
    | nil => rfl
    | cons first later =>
      rw [hlist] at hrest
      rw [List.dropWhile_cons_of_neg]
      simpa using fun heq : first = '.' => hrest (heq ▸ List.mem_cons_self)
  have hdropped : (binary.toList.drop (packageOf binary).toList.length).dropWhile (· == '.') =
      rest.toList := by
    rcases h with rfl | h
    · rw [packageOf_of_notMem hrest]
      exact hkept
    · generalize packageOf binary = front at h
      subst h
      rw [String.append_assoc, String.toList_append, List.drop_left, String.toList_append]
      exact hkept
  rw [inPackage, hdropped, String.ofList_toList]

end Rest

/-! ## Replacements -/

section Replacements

variable {t : RenameTable} {o : Occurrence} {written new : String}

theorem RenameTable.exists_firstOf {signatures : List Signature}
    (h : ∃ s ∈ signatures, (t.symbol? s).isSome = true) :
    ∃ new, t.firstOf signatures = some new := by
  rw [← Option.isSome_iff_exists, firstOf, List.findSome?_isSome_iff]
  exact h

theorem replacement_type (hkind : o.kind = .type) (written : String) :
    replacement t o written = typeReplacement t o written := by
  simp only [replacement, RenameTable.ownParameter?, hkind, reduceCtorEq, if_false, if_true]

/-- A type with a new name takes all of it or its last part. -/
theorem replacement_of_firstOf (hkind : o.kind = .type)
    (hnew : t.firstOf o.signatures = some new) : replacement t o written =
      some (if '.' ∈ written.toList then sourceName new else simpleName new) := by
  rw [replacement_type hkind, typeReplacement, hnew]
  simp [Text.containsChar]

/-- A type without a new name follows its package where it is qualified. -/
theorem replacement_of_package (hkind : o.kind = .type) (hnone : t.firstOf o.signatures = none) :
    replacement t o written = if '.' ∈ written.toList then
      (t.package? (packageOf o.signature)).map (inPackage · o.signature) else none := by
  rw [replacement_type hkind, typeReplacement, hnone]
  simp [Text.containsChar]

end Replacements

/-- Two occurrences of one type, the first with a dot in its text and the second without, are
renamed alike. If the type or a fallback has a new name, the first takes the source form of the
first such name, and the second the part of this behind its last dot. If none has, but the package
of the type, the first moves to the new package with what is behind the old one, which leaves the
part behind the last dot as it was, and the second stays. If the package has no new name either,
both stay. -/
theorem type_texts_renamed_alike (t : RenameTable) (o o' : Occurrence) (qualified simple : String)
    (hkind : o.kind = .type) (hkind' : o'.kind = .type) (hsignature : o'.signature = o.signature)
    (hfallbacks : o'.fallbacks = o.fallbacks) (hqualified : '.' ∈ qualified.toList)
    (hsimple : '.' ∉ simple.toList) :
    ((∃ s ∈ o.signature :: o.fallbacks, (t.symbol? s).isSome = true) →
      ∃ new, t.firstOf (o.signature :: o.fallbacks) = some new ∧
        replacement t o qualified = some (sourceName new) ∧
        replacement t o' simple = some (Text.afterLast '.' (sourceName new))) ∧
    ((∀ s ∈ o.signature :: o.fallbacks, t.symbol? s = none) →
      (∀ package, t.package? (packageOf o.signature) = some package → '$' ∉ package.toList →
        ∃ rest, '.' ∉ rest.toList ∧
          (o.signature = rest ∨ o.signature = packageOf o.signature ++ "." ++ rest) ∧
          let moved := (if package = "" then "" else package ++ ".") ++ sourceName rest
          replacement t o qualified = some moved ∧
            Text.afterLast '.' moved = simpleName o.signature ∧ replacement t o' simple = none) ∧
      (t.package? (packageOf o.signature) = none →
        replacement t o qualified = none ∧ replacement t o' simple = none)) := by
  have hsignatures : o'.signatures = o.signatures := by
    rw [Occurrence.signatures, Occurrence.signatures, hsignature, hfallbacks]
  refine ⟨fun hmapped => ?_, fun hunmapped => ?_⟩
  · obtain ⟨new, hnew⟩ := RenameTable.exists_firstOf hmapped
    have hnew' : t.firstOf o'.signatures = some new := by rw [hsignatures]; exact hnew
    refine ⟨new, hnew, ?_, ?_⟩
    · rw [replacement_of_firstOf hkind hnew, if_pos hqualified]
    · rw [replacement_of_firstOf hkind' hnew', if_neg hsimple, afterLast_sourceName]
  · have hnone : t.firstOf o.signatures = none := List.findSome?_eq_none_iff.2 hunmapped
    have hnone' : t.firstOf o'.signatures = none := by rw [hsignatures]; exact hnone
    have hstays : replacement t o' simple = none := by
      rw [replacement_of_package hkind' hnone', if_neg hsimple]
    have hmoves : replacement t o qualified =
        (t.package? (packageOf o.signature)).map (inPackage · o.signature) := by
      rw [replacement_of_package hkind hnone, if_pos hqualified]
    have hneither (hpackage : t.package? (packageOf o.signature) = none) :
        replacement t o qualified = none ∧ replacement t o' simple = none :=
      ⟨by rw [hmoves, hpackage, Option.map_none], hstays⟩
    refine ⟨fun package hpackage hdollar => ?_, hneither⟩
    obtain ⟨rest, hrest, hsplit⟩ := exists_rest o.signature
    have hmoved : inPackage package o.signature =
        (if package = "" then "" else package ++ ".") ++ sourceName rest := by
      rw [inPackage_eq package hrest hsplit]
      by_cases hempty : package = ""
      · simp [hempty]
      · rw [if_neg hempty, if_neg (by simpa using hempty), sourceName_append, sourceName_append,
          sourceName_of_notMem hdollar]
        rfl
    refine ⟨rest, hrest, hsplit, ?_, ?_, hstays⟩
    · rw [hmoves, hpackage, Option.map_some, hmoved]
    · rw [← hmoved, inPackage_eq package hrest hsplit, afterLast_sourceName,
        simpleName_rest hsplit]
      split
      · rfl
      · exact simpleName_append package rest

section Instances

/-- An import of a member type, and a use of it. -/
def spelledTwice : Occurrence × Occurrence :=
  (⟨⟨7, 24⟩, "com.x.Outer$Inner", .type, ["com.y.Base"]⟩,
    ⟨⟨40, 45⟩, "com.x.Outer$Inner", .type, ["com.y.Base"]⟩)

/-- A table with a new name for the fallback. -/
def fallbackRenamed : RenameTable := RenameTable.empty.insert (.symbol "com.y.Base" "org.New$Part")

/-- A table with a new name for the package. -/
def packageRenamed : RenameTable := RenameTable.empty.insert (.package "com.x" "org.z")

theorem type_texts_renamed_alike_member :
    (replacement fallbackRenamed spelledTwice.1 "com.x.Outer.Inner" = some "org.New.Part" ∧
      replacement fallbackRenamed spelledTwice.2 "Inner" = some "Part") ∧
    replacement packageRenamed spelledTwice.1 "com.x.Outer.Inner" = some "org.z.Outer.Inner" ∧
      replacement packageRenamed spelledTwice.2 "Inner" = none := by
  have halike (t : RenameTable) := type_texts_renamed_alike t spelledTwice.1 spelledTwice.2
    "com.x.Outer.Inner" "Inner" rfl rfl rfl rfl (by decide) (by decide)
  constructor
  · obtain ⟨new, hnew, hqualified, hsimple⟩ :=
      (halike fallbackRenamed).1 ⟨"com.y.Base", by decide, by decide +kernel⟩
    obtain rfl : "org.New$Part" = new := by
      rw [← Option.some_inj, ← hnew]
      decide +kernel
    exact ⟨hqualified.trans (by decide +kernel), hsimple.trans (by decide +kernel)⟩
  · obtain ⟨rest, hrest, hsplit, hqualified, -, hsimple⟩ :=
      ((halike packageRenamed).2 (by decide +kernel)).1 "org.z" (by decide +kernel) (by decide)
    obtain rfl : "Outer$Inner" = rest := by
      rcases hsplit with rfl | hsplit
      · exact absurd (by decide) hrest
      · have hnames : "com.x.".toList ++ "Outer$Inner".toList = "com.x.".toList ++ rest.toList := by
          have hpackage : packageOf spelledTwice.1.signature ++ "." = "com.x." := by decide +kernel
          rw [hpackage] at hsplit
          exact (congrArg String.toList hsplit).trans String.toList_append
        exact String.toList_inj.1 (List.append_cancel_left hnames)
    exact ⟨hqualified.trans (by decide +kernel), hsimple⟩

end Instances

end Renaming
