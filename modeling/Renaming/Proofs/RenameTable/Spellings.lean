import Renaming.Proofs.Descriptor.Grammar
import Renaming.Proofs.KeptNames
import Renaming.Proofs.RenameTable.Loading
import Renaming.Proofs.Text.Words

/-!
# Spellings of one entry

A symbol can be named by a mapping line in the compact form with slashes, or by a kind word and its
key; the key of a method may have its descriptor apart. The key that is put into the table is the
signature of the symbol in each case, so occurrences of the symbol get the new name whichever line
was loaded. Where the descriptor apart is no descriptor, the two forms of a method line differ if it
completes a key all the same.
-/

namespace Renaming

namespace Text

theorem bne_of_notMem {c : Char} {cs : List Char} (h : c ∉ cs) : ∀ d ∈ cs, (d != c) = true := by
  intro d hd
  rw [bne_iff_ne]
  rintro rfl
  exact h hd

theorem cutFirst_eq {s : String} {c : Char} (before after : String)
    (hs : s.toList = before.toList ++ c :: after.toList) (hbefore : c ∉ before.toList) :
    cutFirst c s = some (before, after) := by
  have hfree := bne_of_notMem hbefore
  rw [cutFirst, hs, List.dropWhile_append_of_pos hfree, List.takeWhile_append_of_pos hfree]
  simp

theorem cutFirst_of_notMem {c : Char} {s : String} (h : c ∉ s.toList) : cutFirst c s = none := by
  rw [cutFirst, List.dropWhile_eq_nil_iff.2 (bne_of_notMem h)]

theorem containsChar_iff {c : Char} {s : String} : containsChar c s = true ↔ c ∈ s.toList :=
  List.contains_iff_mem

theorem containsChar_eq_false {c : Char} {s : String} (h : c ∉ s.toList) :
    containsChar c s = false := by
  rwa [← Bool.not_eq_true, containsChar_iff]

end Text

/-! ## A line of words -/

namespace MappingLine

open Text

variable {head : String} {args : List String}

theorem isStatement_of_head {line : String} {c : Char} (hline : line.toList.head? = some c)
    (hc : c ≠ '#') : isStatement line = true := by
  obtain ⟨rest, hrest⟩ := List.head?_eq_some_iff.1 hline
  have hne : line ≠ "" := by
    rintro rfl
    cases hrest
  simp [isStatement, hne, startsWith, hrest, List.isPrefixOf, hc.symm]

theorem numbered_eq_singleton {line : String} (hfeed : '\n' ∉ line.toList)
    (htrim : trim line = line) (hstates : isStatement line = true) :
    numbered line = [(line, 1)] := by
  have hne : line.toList ≠ [] := by
    intro hnil
    rw [String.toList_eq_nil_iff.1 hnil] at hstates
    exact absurd hstates (by decide)
  have hlines : lines line = [line] := by
    have hone : splitLines '\n' '\r' line.toList = [line.toList] := by
      rw [splitLines, List.splitOn_eq_singleton hfeed]
      simp
    rw [lines, hone, List.map_singleton, String.ofList_toList]
  simp [numbered, hlines, htrim, hstates]

theorem numbered_join (h : ∀ w ∈ head :: args, IsWord w) (hhead : head.toList.head? ≠ some '#') :
    numbered (join " " (head :: args)) = [(join " " (head :: args), 1)] := by
  obtain ⟨c, cs, hcs, -⟩ := (h head List.mem_cons_self).exists_cons
  refine numbered_eq_singleton (feed_notMem_join h) (trim_join h) ?_
  refine isStatement_of_head (c := c) ?_ (by simpa [hcs] using hhead)
  rw [head?_join (h head List.mem_cons_self), hcs]
  rfl

theorem primaryEntries_join (h : ∀ w ∈ head :: args, IsWord w) :
    primaryEntries (join " " (head :: args)) =
      if endsWith ":" head then codedEntries head args else kindEntries head args := by
  rw [primaryEntries, words_join h]

end MappingLine

namespace RenameTable.Loading

open MappingLine Text

variable (l : Loading) {head : String} {args : List String}

/-- Whether a line is accepted and makes the table into `t`. -/
def Accepts (line : String) (t : RenameTable) : Prop :=
  ∀ source, l.primary source line = ⟨t, { l.report with accepted := l.report.accepted + 1 }⟩

/-- Whether a line is skipped with a reason and leaves the table as it is. -/
def Refuses (line : String) : Prop :=
  ∃ reason, ∀ source, l.primary source line =
    ⟨l.table, { l.report with skipped := l.report.skipped ++ [⟨source, 1, reason⟩] }⟩

/-- Whether two lines are both accepted and make the same table, or are both skipped. -/
def Interchangeable (a b : String) : Prop :=
  (∃ t, l.Accepts a t ∧ l.Accepts b t) ∨ (l.Refuses a ∧ l.Refuses b)

variable {l}

theorem Accepts.not_refuses {line : String} {t : RenameTable} (h : l.Accepts line t) :
    ¬ l.Refuses line := by
  rintro ⟨reason, hrefused⟩
  have hsame := (h "").symm.trans (hrefused "")
  simp at hsame

theorem not_interchangeable {a b : String} {t : RenameTable} (ha : l.Refuses a)
    (hb : l.Accepts b t) : ¬ l.Interchangeable a b := by
  rintro (⟨t', ha', -⟩ | ⟨-, hb'⟩)
  · exact ha'.not_refuses ha
  · exact hb.not_refuses hb'

theorem primary_join (l : Loading) (source : String) (h : ∀ w ∈ head :: args, IsWord w)
    (hhead : head.toList.head? ≠ some '#') :
    l.primary source (join " " (head :: args)) =
      l.note source 1
        (if endsWith ":" head then codedEntries head args else kindEntries head args) := by
  rw [primary, readText_eq source reads_primaryLine, numbered_join h hhead, ← primaryEntries_join h]
  rfl

theorem accepts_of_codedEntries (l : Loading) (h : ∀ w ∈ head :: args, IsWord w)
    (hhead : head.toList.head? ≠ some '#') (hcode : endsWith ":" head = true) {e : Renamed}
    (hread : codedEntries head args = .ok [e]) :
    l.Accepts (join " " (head :: args)) (l.table.insert e) := by
  intro source
  rw [primary_join l source h hhead, if_pos hcode, hread]
  rfl

theorem accepts_of_kindEntries (l : Loading) (h : ∀ w ∈ head :: args, IsWord w)
    (hhead : head.toList.head? ≠ some '#') (hkind : endsWith ":" head = false) {e : Renamed}
    (hread : kindEntries head args = .ok [e]) :
    l.Accepts (join " " (head :: args)) (l.table.insert e) := by
  intro source
  rw [primary_join l source h hhead, if_neg (Bool.eq_false_iff.1 hkind), hread]
  rfl

theorem refuses_of_kindEntries (l : Loading) (h : ∀ w ∈ head :: args, IsWord w)
    (hhead : head.toList.head? ≠ some '#') (hkind : endsWith ":" head = false)
    {reason : LineError} (hread : kindEntries head args = .error reason) :
    l.Refuses (join " " (head :: args)) := by
  refine ⟨reason, fun source => ?_⟩
  rw [primary_join l source h hhead, if_neg (Bool.eq_false_iff.1 hkind), hread]
  rfl

end RenameTable.Loading

/-! ## Method keys -/

namespace Descriptor

theorem isMethod_of_parseMethod {s : String} {d : MethodDescriptor} (h : parseMethod s = .ok d) :
    IsMethod s.toList :=
  (exists_parseMethod_iff s).1 ⟨d, h⟩

theorem IsMethod.head?_eq {cs : List Char} (h : IsMethod cs) : cs.head? = some '(' := by
  cases h
  rfl

end Descriptor

namespace MappingLine

open Text

/-- An owner and a name with a dot between them, and a descriptor from the first parenthesis on. -/
def IsMethodKey (key : String) : Prop :=
  ∃ path desc, key = path ++ desc ∧ '.' ∈ path.toList ∧ '(' ∉ path.toList ∧
    Descriptor.IsMethod desc.toList

theorem IsMethodKey.paren_mem {key : String} (h : IsMethodKey key) : '(' ∈ key.toList := by
  obtain ⟨path, desc, rfl, -, -, hdesc⟩ := h
  rw [String.toList_append]
  exact List.mem_append_right _ (List.mem_of_head? hdesc.head?_eq)

theorem checkDescriptor_of_isMethod {text : String} (h : Descriptor.IsMethod text.toList) :
    checkDescriptor text = .ok () := by
  obtain ⟨d, hd⟩ := h.exists_parseMethod
  rw [checkDescriptor, hd]

theorem exists_checkDescriptor_eq {text : String} (h : ¬ Descriptor.IsMethod text.toList) :
    ∃ reason, checkDescriptor text = .error reason := by
  rw [← Descriptor.exists_parseMethod_iff] at h
  unfold checkDescriptor
  split
  · rename_i d hd
    exact absurd ⟨d, hd⟩ h
  · exact ⟨_, rfl⟩

theorem cutAtParen_append {path desc : String} (hpath : '(' ∉ path.toList)
    (hdesc : desc.toList.head? = some '(') : cutAtParen (path ++ desc) = some (path, desc) := by
  obtain ⟨rest, hrest⟩ := List.head?_eq_some_iff.1 hdesc
  have hcut : cutFirst '(' (path ++ desc) = some (path, String.ofList rest) :=
    cutFirst_eq path (String.ofList rest) (by simp [hrest]) hpath
  have hback : "(" ++ String.ofList rest = desc := by
    rw [← String.toList_inj, hrest]
    simp
  rw [cutAtParen, hcut, ← hback]
  rfl

theorem checkMethodKey_of_isMethodKey {key : String} (h : IsMethodKey key) :
    checkMethodKey key = .ok () := by
  obtain ⟨path, desc, rfl, hdot, hparen, hdesc⟩ := h
  rw [checkMethodKey, cutAtParen_append hparen hdesc.head?_eq]
  dsimp only
  rw [if_pos (containsChar_iff.2 hdot), checkDescriptor_of_isMethod hdesc]

/-- A key with a parenthesis is cut at the first one. -/
theorem exists_eq_append_of_paren {key : String} (h : '(' ∈ key.toList) :
    ∃ path desc, key = path ++ desc ∧ '(' ∉ path.toList ∧ desc.toList.head? = some '(' := by
  obtain ⟨front, rest, hkey, hfront⟩ := List.eq_append_cons_of_mem h
  refine ⟨String.ofList front, String.ofList ('(' :: rest), ?_, by simpa using hfront, by simp⟩
  rw [← String.toList_inj, hkey]
  simp

theorem exists_checkMethodKey_eq {key : String} (hparen : '(' ∈ key.toList)
    (h : ¬ IsMethodKey key) : ∃ reason, checkMethodKey key = .error reason := by
  obtain ⟨path, desc, rfl, hpath, hdesc⟩ := exists_eq_append_of_paren hparen
  rw [checkMethodKey, cutAtParen_append hpath hdesc]
  dsimp only
  split
  · rename_i hdot
    exact exists_checkDescriptor_eq fun hmethod =>
      h ⟨path, desc, rfl, containsChar_iff.1 hdot, hpath, hmethod⟩
  · exact ⟨_, rfl⟩

/-- With the descriptor apart, only the descriptor is checked. -/
theorem kindEntries_apart {old : String} (hparen : '(' ∉ old.toList) (new desc : String) :
    kindEntries "method" [old, new, desc] =
      (checkDescriptor desc).map fun _ => [.symbol (old ++ desc) new] := by
  simp only [kindEntries, methodKey, containsChar_eq_false hparen, Bool.false_eq_true, if_false]
  cases checkDescriptor desc <;> rfl

/-- A whole key is checked for an owner, too. -/
theorem kindEntries_joined {key : String} (hparen : '(' ∈ key.toList) (new : String) :
    kindEntries "method" [key, new] = (checkMethodKey key).map fun _ => [.symbol key new] := by
  simp only [kindEntries, methodKey, containsChar_iff.2 hparen, if_true]
  cases checkMethodKey key <;> rfl

theorem kindEntries_joined_of_notMem {key : String} (hparen : '(' ∉ key.toList) (new : String) :
    kindEntries "method" [key, new] = .error (.methodWithoutDescriptor key) := by
  simp only [kindEntries, methodKey, containsChar_eq_false hparen, Bool.false_eq_true, if_false]
  rfl

end MappingLine

namespace RenameTable.Loading

open MappingLine Text

variable (l : Loading) {old new desc key : String}

theorem isWord_of_mem_apart (hold : IsWord old) (hnew : IsWord new) (hdesc : IsWord desc) :
    ∀ w ∈ ["method", old, new, desc], IsWord w := by
  simp [hold, hnew, hdesc, (by decide : IsWord "method")]

theorem isWord_of_mem_joined (hkey : IsWord key) (hnew : IsWord new) :
    ∀ w ∈ ["method", key, new], IsWord w := by
  simp [hkey, hnew, (by decide : IsWord "method")]

theorem accepts_apart (hold : IsWord old) (hnew : IsWord new) (hdesc : IsWord desc)
    (hparen : '(' ∉ old.toList) (hmethod : Descriptor.IsMethod desc.toList) :
    l.Accepts (join " " ["method", old, new, desc])
      (l.table.insert (.symbol (old ++ desc) new)) := by
  refine accepts_of_kindEntries l (isWord_of_mem_apart hold hnew hdesc) (by decide) rfl ?_
  rw [kindEntries_apart hparen, checkDescriptor_of_isMethod hmethod]
  rfl

theorem refuses_apart (hold : IsWord old) (hnew : IsWord new) (hdesc : IsWord desc)
    (hparen : '(' ∉ old.toList) (hmethod : ¬ Descriptor.IsMethod desc.toList) :
    l.Refuses (join " " ["method", old, new, desc]) := by
  obtain ⟨reason, hreason⟩ := exists_checkDescriptor_eq hmethod
  have hread : kindEntries "method" [old, new, desc] = .error reason := by
    rw [kindEntries_apart hparen, hreason]
    rfl
  exact refuses_of_kindEntries l (isWord_of_mem_apart hold hnew hdesc) (by decide) rfl hread

theorem accepts_joined (hkey : IsWord key) (hnew : IsWord new) (hmethod : IsMethodKey key) :
    l.Accepts (join " " ["method", key, new]) (l.table.insert (.symbol key new)) := by
  refine accepts_of_kindEntries l (isWord_of_mem_joined hkey hnew) (by decide) rfl ?_
  rw [kindEntries_joined hmethod.paren_mem, checkMethodKey_of_isMethodKey hmethod]
  rfl

theorem refuses_joined (hkey : IsWord key) (hnew : IsWord new) (hmethod : ¬ IsMethodKey key) :
    l.Refuses (join " " ["method", key, new]) := by
  obtain ⟨reason, hread⟩ : ∃ reason, kindEntries "method" [key, new] = .error reason := by
    by_cases hparen : '(' ∈ key.toList
    · obtain ⟨reason, hreason⟩ := exists_checkMethodKey_eq hparen hmethod
      refine ⟨reason, ?_⟩
      rw [kindEntries_joined hparen, hreason]
      rfl
    · exact ⟨_, kindEntries_joined_of_notMem hparen new⟩
  exact refuses_of_kindEntries l (isWord_of_mem_joined hkey hnew) (by decide) rfl hread

theorem Interchangeable.symm {a b : String} (h : l.Interchangeable a b) :
    l.Interchangeable b a := by
  rcases h with ⟨t, ha, hb⟩ | ⟨ha, hb⟩
  · exact .inl ⟨t, hb, ha⟩
  · exact .inr ⟨hb, ha⟩

/-- A method line with its descriptor apart does what the line with the joined key does, if there is
an owner before the name or what stands for the descriptor is none. The exception is a key that is
completed by what is no descriptor: only the joined line is accepted then. -/
theorem method_forms_interchangeable_iff (hold : IsWord old) (hnew : IsWord new)
    (hdesc : IsWord desc) (hparen : '(' ∉ old.toList)
    (howner : '.' ∈ old.toList ∨ ¬ Descriptor.IsMethod desc.toList) :
    let apart := join " " ["method", old, new, desc]
    let joined := join " " ["method", old ++ desc, new]
    (l.Interchangeable apart joined ↔
      Descriptor.IsMethod desc.toList ∨ ¬ IsMethodKey (old ++ desc)) ∧
    (¬ Descriptor.IsMethod desc.toList → IsMethodKey (old ++ desc) →
      l.Refuses apart ∧ l.Accepts joined (l.table.insert (.symbol (old ++ desc) new))) := by
  intro apart joined
  have hkey : IsWord (old ++ desc) := hold.append hdesc
  by_cases hmethod : Descriptor.IsMethod desc.toList
  · -- the key is cut again where it was joined
    have hwhole : IsMethodKey (old ++ desc) :=
      ⟨old, desc, rfl, howner.resolve_right (not_not_intro hmethod), hparen, hmethod⟩
    have hboth : l.Interchangeable apart joined :=
      .inl ⟨_, accepts_apart l hold hnew hdesc hparen hmethod, accepts_joined l hkey hnew hwhole⟩
    exact ⟨iff_of_true hboth (.inl hmethod), fun hnone => absurd hmethod hnone⟩
  · have hrefused : l.Refuses apart := refuses_apart l hold hnew hdesc hparen hmethod
    by_cases hwhole : IsMethodKey (old ++ desc)
    · have haccepted := accepts_joined l hkey hnew hwhole
      refine ⟨iff_of_false (not_interchangeable hrefused haccepted) ?_, fun _ _ =>
        ⟨hrefused, haccepted⟩⟩
      exact not_or.2 ⟨hmethod, not_not_intro hwhole⟩
    · have hboth : l.Interchangeable apart joined :=
        .inr ⟨hrefused, refuses_joined l hkey hnew hwhole⟩
      exact ⟨iff_of_true hboth (.inr hwhole), fun _ hkey => absurd hkey hwhole⟩

theorem not_isMethod_o : ¬ Descriptor.IsMethod "o()V".toList := fun h => by
  have hhead := h.head?_eq
  revert hhead
  decide

theorem method_forms_interchangeable_iff_completed :
    let l : Loading := {}
    l.Interchangeable (join " " ["method", "A.foo", "baz", "(I)I"])
        (join " " ["method", "A.foo" ++ "(I)I", "baz"]) ∧
      l.Refuses (join " " ["method", "A.f", "g", "o()V"]) ∧
      l.Accepts (join " " ["method", "A.f" ++ "o()V", "g"])
        (l.table.insert (.symbol ("A.f" ++ "o()V") "g")) := by
  intro l
  have hmethod : Descriptor.IsMethod "(I)I".toList :=
    Descriptor.isMethod_of_parseMethod (d := ⟨[.prim .int], some (.prim .int)⟩) (by decide)
  have hkey : IsMethodKey ("A.f" ++ "o()V") :=
    ⟨"A.fo", "()V", by decide, by decide, by decide,
      Descriptor.isMethod_of_parseMethod (d := ⟨[], none⟩) (by decide)⟩
  obtain ⟨hiff, -⟩ := method_forms_interchangeable_iff l (by decide : IsWord "A.foo")
    (by decide : IsWord "baz") (by decide : IsWord "(I)I") (by decide) (.inl (by decide))
  obtain ⟨-, hexception⟩ := method_forms_interchangeable_iff l (by decide : IsWord "A.f")
    (by decide : IsWord "g") (by decide : IsWord "o()V") (by decide) (.inl (by decide))
  exact ⟨hiff.2 (.inl hmethod), hexception not_isMethod_o hkey⟩

/-- A descriptor behind a part of the name, and a method without an owner. -/
theorem method_forms_differ :
    let l : Loading := {}
    (∀ w ∈ ["A.f", "g", "o()V", "foo", "bar", "()V"], IsWord w) ∧
      ('(' ∉ "A.f".toList ∧
        ¬ l.Interchangeable (join " " ["method", "A.f", "g", "o()V"])
          (join " " ["method", "A.f" ++ "o()V", "g"])) ∧
      ('(' ∉ "foo".toList ∧
        ¬ l.Interchangeable (join " " ["method", "foo", "bar", "()V"])
          (join " " ["method", "foo" ++ "()V", "bar"])) := by
  intro l
  have hvoid : Descriptor.IsMethod "()V".toList :=
    Descriptor.isMethod_of_parseMethod (d := ⟨[], none⟩) (by decide)
  have hkey : IsMethodKey ("A.f" ++ "o()V") :=
    ⟨"A.fo", "()V", by decide, by decide, by decide, hvoid⟩
  have hnokey : ¬ IsMethodKey ("foo" ++ "()V") := by
    rintro ⟨path, desc, hpath, hdot, -, -⟩
    have hmem : '.' ∈ ("foo" ++ "()V").toList := by
      rw [hpath, String.toList_append]
      exact List.mem_append_left _ hdot
    exact absurd hmem (by decide)
  refine ⟨by decide, ⟨by decide, ?_⟩, by decide, ?_⟩
  · exact not_interchangeable
      (refuses_apart l (by decide) (by decide) (by decide) (by decide) not_isMethod_o)
      (accepts_joined l (by decide) (by decide) hkey)
  · intro h
    exact not_interchangeable (refuses_joined l (by decide) (by decide) hnokey)
      (accepts_apart l (by decide) (by decide) (by decide) (by decide) hvoid) h.symm

end RenameTable.Loading

/-! ## Keys of signatures -/

namespace MappingLine

open Text

/-- The name of a field or a method as one word. -/
structure IsMemberWord (name : String) : Prop extends IsWord name where
  slash_notMem : '/' ∉ name.toList
  dot_notMem : '.' ∉ name.toList
  paren_notMem : '(' ∉ name.toList

instance (name : String) : Decidable (IsMemberWord name) :=
  decidable_of_iff
    (IsWord name ∧ '/' ∉ name.toList ∧ '.' ∉ name.toList ∧ '(' ∉ name.toList)
    ⟨fun ⟨hword, hslash, hdot, hparen⟩ => ⟨hword, hslash, hdot, hparen⟩,
      fun h => ⟨h.toIsWord, h.slash_notMem, h.dot_notMem, h.paren_notMem⟩⟩

theorem splitMember_append {owner name : String} (howner : owner ≠ "")
    (hname : IsMemberWord name) : splitMember (owner ++ "/" ++ name) = .ok (owner, name) := by
  have hcut : cutLast '/' (owner ++ "/" ++ name) = some (owner, name) :=
    cutLast_eq owner name (by simp) hname.slash_notMem
  rw [splitMember, hcut]
  simp [howner, hname.nonempty]

theorem isWord_dotted {path : String} (h : IsWord path) : IsWord (dotted path) :=
  h.replaceChar '/' rfl

theorem isWord_slashed {owner name : String} (howner : IsWord owner) (hname : IsWord name) :
    IsWord (owner ++ "/" ++ name) :=
  (howner.append (by decide)).append hname

theorem isWord_ofField {owner name : String} (howner : IsWord owner) (hname : IsWord name) :
    IsWord (Signature.ofField owner name) :=
  (howner.append (by decide)).append hname

theorem codedEntries_field {owner name new x : String} (howner : owner ≠ "")
    (hname : IsMemberWord name) (hx : x ≠ "") (hnew : IsMemberWord new) :
    codedEntries "FD:" [owner ++ "/" ++ name, x ++ "/" ++ new] =
      .ok [.symbol (Signature.ofField (dotted owner) name) new] := by
  simp only [codedEntries, two, bind, Except.bind, splitMember_append howner hname,
    splitMember_append hx hnew]
  rfl

theorem kindEntries_field {old : String} (hdot : '.' ∈ old.toList) (new : String) :
    kindEntries "field" [old, new] = .ok [.symbol old new] := by
  simp only [kindEntries, two, bind, Except.bind, containsChar_iff.2 hdot, if_true]
  rfl

theorem codedEntries_method {owner name new x y : String} {d : MethodDescriptor}
    (howner : owner ≠ "") (hname : IsMemberWord name) (hx : x ≠ "") (hnew : IsMemberWord new)
    (hd : Descriptor.IsMethod d.text.toList) :
    codedEntries "MD:" [owner ++ "/" ++ name, d.text, x ++ "/" ++ new, y] =
      .ok [.symbol (Signature.ofMethod (dotted owner) name d) new] := by
  simp only [codedEntries, four, bind, Except.bind, checkDescriptor_of_isMethod hd,
    splitMember_append howner hname, splitMember_append hx hnew]
  rfl

end MappingLine

theorem RenameTable.symbol?_insert (t : RenameTable) (old : Signature) (new : String) :
    (t.insert (.symbol old new)).symbol? old = some new :=
  SortedMap.get?_insert_self t.symbols old new

theorem replacement_member_eq {t : RenameTable} {o : Occurrence}
    (hkind : o.kind = .field ∨ o.kind = .method) {new : String}
    (hnew : t.symbol? o.signature = some new) (hdot : '.' ∉ new.toList) (written : String) :
    replacement t o written = some new := by
  have hmember : memberReplacement t o = some new := by
    rw [memberReplacement, RenameTable.firstOf_of_symbol? hnew, Option.map_some,
      Text.afterLast_of_notMem hdot]
  rcases hkind with hkind | hkind
  · simp [replacement, RenameTable.ownParameter?, hkind, hmember]
  · simp [replacement, RenameTable.ownParameter?, hkind, hmember]

theorem replacement_type_eq {t : RenameTable} {o : Occurrence} (hkind : o.kind = .type)
    {new : String} (hnew : t.symbol? o.signature = some new) (written : String) :
    replacement t o written = some (typeSpelling new written) := by
  simp [replacement, RenameTable.ownParameter?, hkind, typeReplacement,
    RenameTable.firstOf_of_symbol? hnew, typeSpelling]

namespace RenameTable.Loading

open MappingLine Text

variable (l : Loading)

/-- Lines that all make the same table, in which a symbol has a new name. Occurrences of the symbol
become what `respell` makes of their text. -/
structure Spells (lines : List String) (kind : SymbolKind) (symbol : Signature) (new : String)
    (respell : String → String) : Prop where
  accepted : ∀ line ∈ lines, l.Accepts line (l.table.insert (.symbol symbol new))
  renamed : ∀ o written, o.kind = kind → o.signature = symbol →
    replacement (l.table.insert (.symbol symbol new)) o written = some (respell written)

theorem spells_method {owner name new x y : String} {d : MethodDescriptor} (howner : IsWord owner)
    (hparen : '(' ∉ owner.toList) (hname : IsMemberWord name) (hnew : IsMemberWord new)
    (hd : IsWord d.text) (hmethod : Descriptor.IsMethod d.text.toList) (hx : IsWord x)
    (hy : IsWord y) :
    l.Spells
      [join " " ["MD:", owner ++ "/" ++ name, d.text, x ++ "/" ++ new, y],
        join " " ["method", dotted owner ++ "." ++ name, new, d.text],
        join " " ["method", dotted owner ++ "." ++ name ++ d.text, new]]
      .method (Signature.ofMethod (dotted owner) name d) new fun _ => new where
  accepted := by
    have hpath : IsWord (dotted owner ++ "." ++ name) :=
      isWord_ofField (isWord_dotted howner) hname.toIsWord
    have hfree : '(' ∉ (dotted owner ++ "." ++ name).toList := by
      have hdotted : '(' ∉ (dotted owner).toList := notMem_toList_replaceChar (by decide) hparen
      simp [hdotted, hname.paren_notMem]
    have hkey : IsMethodKey (dotted owner ++ "." ++ name ++ d.text) :=
      ⟨dotted owner ++ "." ++ name, d.text, rfl, by simp, hfree, hmethod⟩
    have hwords : ∀ w ∈ ["MD:", owner ++ "/" ++ name, d.text, x ++ "/" ++ new, y], IsWord w := by
      simp [isWord_slashed howner hname.toIsWord, isWord_slashed hx hnew.toIsWord, hd, hy,
        (by decide : IsWord "MD:")]
    rw [List.forall_mem_cons, List.forall_mem_cons, List.forall_mem_singleton]
    refine ⟨accepts_of_codedEntries l hwords (by decide) rfl ?_,
      accepts_apart l hpath hnew.toIsWord hd hfree hmethod,
      accepts_joined l (hpath.append hd) hnew.toIsWord hkey⟩
    exact codedEntries_method howner.nonempty hname hx.nonempty hnew hmethod
  renamed := by
    intro o written hkind hsymbol
    exact replacement_member_eq (.inr hkind) (hsymbol ▸ symbol?_insert _ _ _) hnew.dot_notMem
      written

theorem spells_field {owner name new x : String} (howner : IsWord owner)
    (hname : IsMemberWord name) (hnew : IsMemberWord new) (hx : IsWord x) :
    l.Spells
      [join " " ["FD:", owner ++ "/" ++ name, x ++ "/" ++ new],
        join " " ["field", dotted owner ++ "." ++ name, new]]
      .field (Signature.ofField (dotted owner) name) new fun _ => new where
  accepted := by
    have hpath : IsWord (dotted owner ++ "." ++ name) :=
      isWord_ofField (isWord_dotted howner) hname.toIsWord
    have hcoded : ∀ w ∈ ["FD:", owner ++ "/" ++ name, x ++ "/" ++ new], IsWord w := by
      simp [isWord_slashed howner hname.toIsWord, isWord_slashed hx hnew.toIsWord,
        (by decide : IsWord "FD:")]
    have hkind : ∀ w ∈ ["field", dotted owner ++ "." ++ name, new], IsWord w := by
      simp [hpath, hnew.toIsWord, (by decide : IsWord "field")]
    rw [List.forall_mem_cons, List.forall_mem_singleton]
    exact ⟨accepts_of_codedEntries l hcoded (by decide) rfl
        (codedEntries_field howner.nonempty hname hx.nonempty hnew),
      accepts_of_kindEntries l hkind (by decide) rfl (kindEntries_field (by simp) new)⟩
  renamed := by
    intro o written hkind hsymbol
    exact replacement_member_eq (.inl hkind) (hsymbol ▸ symbol?_insert _ _ _) hnew.dot_notMem
      written

theorem spells_type {a b : String} (ha : IsWord a) (hb : IsWord b) :
    l.Spells [join " " ["CL:", a, b], join " " ["class", dotted a, dotted b]]
      .type (Signature.ofType (dotted a)) (dotted b) (typeSpelling (dotted b)) where
  accepted := by
    have hcoded : ∀ w ∈ ["CL:", a, b], IsWord w := by
      simp [ha, hb, (by decide : IsWord "CL:")]
    have hkind : ∀ w ∈ ["class", dotted a, dotted b], IsWord w := by
      simp [isWord_dotted ha, isWord_dotted hb, (by decide : IsWord "class")]
    rw [List.forall_mem_cons, List.forall_mem_singleton]
    exact ⟨accepts_of_codedEntries l hcoded (by decide) rfl rfl,
      accepts_of_kindEntries l hkind (by decide) rfl rfl⟩
  renamed := by
    intro o written hkind hsymbol
    exact replacement_type_eq hkind (hsymbol ▸ symbol?_insert _ _ _) written

/-- The lines for a method, a field or a type, with slashes or with the dotted owner, put the
signature of the symbol into the table. -/
theorem lines_key_signatures (l : Loading) :
    (∀ (owner name new x y : String) (d : MethodDescriptor), IsWord owner → '(' ∉ owner.toList →
      IsMemberWord name → IsMemberWord new → IsWord d.text →
      (∃ e, Descriptor.parseMethod d.text = .ok e) → IsWord x → IsWord y →
      l.Spells
        [join " " ["MD:", owner ++ "/" ++ name, d.text, x ++ "/" ++ new, y],
          join " " ["method", dotted owner ++ "." ++ name, new, d.text],
          join " " ["method", dotted owner ++ "." ++ name ++ d.text, new]]
        .method (Signature.ofMethod (dotted owner) name d) new fun _ => new) ∧
    (∀ (owner name new x : String), IsWord owner → IsMemberWord name → IsMemberWord new →
      IsWord x →
      l.Spells
        [join " " ["FD:", owner ++ "/" ++ name, x ++ "/" ++ new],
          join " " ["field", dotted owner ++ "." ++ name, new]]
        .field (Signature.ofField (dotted owner) name) new fun _ => new) ∧
    ∀ (a b : String), IsWord a → IsWord b →
      l.Spells [join " " ["CL:", a, b], join " " ["class", dotted a, dotted b]]
        .type (Signature.ofType (dotted a)) (dotted b) (typeSpelling (dotted b)) := by
  refine ⟨?_, fun _ _ _ _ => spells_field l, fun _ _ => spells_type l⟩
  intro owner name new x y d howner hparen hname hnew hd hparse hx hy
  have hmethod := (Descriptor.exists_parseMethod_iff d.text).1 hparse
  exact spells_method l howner hparen hname hnew hd hmethod hx hy

theorem lines_key_signatures_outer :
    let l : Loading := {}
    l.Spells
        ["MD: p/A$B/foo (ILp/C;)I q/D/baz ()V", "method p.A$B.foo baz (ILp/C;)I",
          "method p.A$B.foo(ILp/C;)I baz"]
        .method "p.A$B.foo(ILp/C;)I" "baz" (fun _ => "baz") ∧
      l.Spells ["FD: p/A$B/count q/total", "field p.A$B.count total"]
        .field "p.A$B.count" "total" (fun _ => "total") ∧
      l.Spells ["CL: p/A$B q/D$E", "class p.A$B q.D$E"]
        .type "p.A$B" "q.D$E" (typeSpelling "q.D$E") := by
  intro l
  obtain ⟨hmethod, hfield, htype⟩ := lines_key_signatures l
  let d : MethodDescriptor := ⟨[.prim .int, .object "p.C"], some (.prim .int)⟩
  refine ⟨?_, ?_, ?_⟩
  · exact hmethod "p/A$B" "foo" "baz" "q/D" "()V" d (by decide) (by decide) (by decide)
      (by decide) (by decide) ⟨d, by decide⟩ (by decide) (by decide)
  · exact hfield "p/A$B" "count" "total" "q" (by decide) (by decide) (by decide) (by decide)
  · exact htype "p/A$B" "q/D$E" (by decide) (by decide)

end RenameTable.Loading

end Renaming
