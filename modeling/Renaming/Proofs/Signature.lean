import Mathlib.Data.List.Basic
import Renaming.Proofs.Descriptor

/-!
# Signatures tell symbols apart

The signatures of fields, methods, parameters and local variables share one space of texts, and
those of parameters and local variables go on from that of their method. The kind of a symbol can be
read off the separators that occur in its signature; between symbols of one kind the parts are found
again at the separators. So no two symbols have the same signature.
-/

namespace Renaming

/-- What the signature of a method is made of. -/
structure MethodSymbol where
  owner : String
  name : String
  descriptor : MethodDescriptor
  deriving DecidableEq

/-- What the signature of a member, a parameter or a local variable is made of. -/
inductive MemberSymbol where
  | field (owner name : String)
  | method (m : MethodSymbol)
  | parameter (m : MethodSymbol) (index : Nat)
  | localVariable (m : MethodSymbol) (name : String) (ordinal : Nat)
  deriving DecidableEq

def MethodSymbol.signature (m : MethodSymbol) : Signature :=
  .ofMethod m.owner m.name m.descriptor

def MemberSymbol.signature : MemberSymbol → Signature
  | field owner name => .ofField owner name
  | method m => m.signature
  | parameter m index => .ofParameter m.signature index
  | localVariable m name ordinal => .ofLocal m.signature name ordinal

def MemberSymbol.kind : MemberSymbol → SymbolKind
  | field _ _ => .field
  | method _ => .method
  | parameter _ _ => .parameter
  | localVariable _ _ _ => .localVariable

/-- Text without the marks that set apart descriptors, parameters and local variables. -/
structure IsUnmarked (s : String) : Prop where
  paren_notMem : '(' ∉ s.toList
  hash_notMem : '#' ∉ s.toList
  at_notMem : '@' ∉ s.toList

/-- A name that may stand for a member or a local variable. -/
structure IsMemberName (name : String) : Prop extends IsUnmarked name where
  nonempty : name ≠ ""
  dot_notMem : '.' ∉ name.toList
  colon_notMem : ':' ∉ name.toList

structure MethodSymbol.Regular (m : MethodSymbol) : Prop where
  owner : IsUnmarked m.owner
  name : IsMemberName m.name
  classes : ∀ name ∈ m.descriptor.classNames, IsClassName name ∧ IsUnmarked name

def MemberSymbol.Regular : MemberSymbol → Prop
  | field owner name => IsUnmarked owner ∧ IsMemberName name
  | method m => m.Regular
  | parameter m _ => m.Regular
  | localVariable m name _ => m.Regular ∧ IsMemberName name

/-! ## Characters in the text of a descriptor -/

/-- The characters of a descriptor, behind the parenthesis it begins with, that are not those of
class names. -/
def descriptorMarks : List Char :=
  [')', '[', 'L', ';', '/', 'V', 'B', 'C', 'D', 'F', 'I', 'J', 'S', 'Z']

theorem Primitive.letter_mem_descriptorMarks (p : Primitive) : p.letter ∈ descriptorMarks := by
  cases p <;> decide

section Marks

variable {c : Char} (hc : c ∉ descriptorMarks)

include hc

theorem ne_of_mem_descriptorMarks {d : Char} (hd : d ∈ descriptorMarks) : c ≠ d :=
  fun heq => hc (heq ▸ hd)

theorem FieldType.notMem_text {t : FieldType} (hname : ∀ name ∈ t.className?, c ∉ name.toList) :
    c ∉ t.text.toList := by
  induction t with
  | prim p =>
    have hletter := ne_of_mem_descriptorMarks hc p.letter_mem_descriptorMarks
    simpa [text] using hletter
  | object name =>
    have hfirst := ne_of_mem_descriptorMarks hc (d := 'L') (by decide)
    have hlast := ne_of_mem_descriptorMarks hc (d := ';') (by decide)
    have hslash := ne_of_mem_descriptorMarks hc (d := '/') (by decide)
    have hfree := Text.notMem_toList_replaceChar (a := '.') hslash (hname name rfl)
    simp [text, hfree, hfirst, hlast]
  | array element ih =>
    have hbracket := ne_of_mem_descriptorMarks hc (d := '[') (by decide)
    simp [text, hbracket, ih hname]

theorem MethodDescriptor.notMem_tail {d : MethodDescriptor}
    (h : ∀ name ∈ d.classNames, c ∉ name.toList) : c ∉ d.tail := by
  have htype : ∀ t ∈ d.params ++ d.ret.toList, c ∉ t.text.toList := by
    intro t ht
    apply FieldType.notMem_text hc
    intro name hname
    exact h name (List.mem_filterMap.2 ⟨t, ht, hname⟩)
  have hparams : c ∉ d.params.flatMap (·.text.toList) := by
    rw [List.mem_flatMap]
    rintro ⟨t, ht, hmem⟩
    exact htype t (List.mem_append_left _ ht) hmem
  have hret : c ∉ ((d.ret.map FieldType.text).getD "V").toList := by
    cases hd : d.ret with
    | none =>
      have hvoid := ne_of_mem_descriptorMarks hc (d := 'V') (by decide)
      simpa using hvoid
    | some t => exact htype t (List.mem_append_right _ (by simp [hd]))
  have hclose := ne_of_mem_descriptorMarks hc (d := ')') (by decide)
  simp [tail, hparams, hret, hclose]

end Marks

/-! ## Parts found again -/

theorem notMem_toString {c : Char} (h : c.isDigit = false) (n : Nat) : c ∉ (toString n).toList := by
  intro hmem
  rw [Text.isDigit_of_mem_toString hmem] at h
  cases h

theorem eq_of_toList_toString_eq {i j : Nat} (h : (toString i).toList = (toString j).toList) :
    i = j := by
  rw [← Text.digitsValue_toString i, h, Text.digitsValue_toString j]

namespace Signature

theorem toList_ofField (owner name : String) :
    (ofField owner name).toList = owner.toList ++ '.' :: name.toList := by
  simp [ofField]

theorem toList_ofMethod (owner name : String) (d : MethodDescriptor) :
    (ofMethod owner name d).toList = (ofField owner name).toList ++ '(' :: d.tail := by
  rw [ofMethod, String.toList_append, d.toList_text_eq, ofField]

theorem toList_ofParameter (method : Signature) (index : Nat) :
    (ofParameter method index).toList = method.toList ++ '#' :: (toString index).toList := by
  simp [ofParameter]

theorem toList_ofLocal (method : Signature) (name : String) (ordinal : Nat) :
    (ofLocal method name ordinal).toList =
      method.toList ++ '@' :: (name.toList ++ ':' :: (toString ordinal).toList) := by
  simp [ofLocal]

theorem isUnmarked_ofField {owner name : String} (howner : IsUnmarked owner)
    (hname : IsUnmarked name) : IsUnmarked (ofField owner name) where
  paren_notMem := by simp [toList_ofField, howner.paren_notMem, hname.paren_notMem]
  hash_notMem := by simp [toList_ofField, howner.hash_notMem, hname.hash_notMem]
  at_notMem := by simp [toList_ofField, howner.at_notMem, hname.at_notMem]

theorem ofField_inj {owner name owner' name' : String} (hname : '.' ∉ name.toList)
    (hname' : '.' ∉ name'.toList) (h : ofField owner name = ofField owner' name') :
    owner = owner' ∧ name = name' := by
  have hcut := Text.cutLast_eq owner name (toList_ofField owner name) hname
  have hcut' := Text.cutLast_eq owner' name' (toList_ofField owner' name') hname'
  rw [h, hcut'] at hcut
  cases hcut
  exact ⟨rfl, rfl⟩

theorem cutLast_ofLocal (method : Signature) (name : String) (ordinal : Nat) :
    Text.cutLast ':' (ofLocal method name ordinal) =
      some (method ++ "@" ++ name, toString ordinal) :=
  Text.cutLast_eq _ _ (by simp [ofLocal]) (notMem_toString rfl ordinal)

theorem ordinal_eq_of_ofLocal_eq {method name method' name' : String} {i j : Nat}
    (h : ofLocal method name i = ofLocal method' name' j) : i = j := by
  have hcut := cutLast_ofLocal method name i
  rw [h, cutLast_ofLocal, Option.some_inj, Prod.mk.injEq] at hcut
  exact eq_of_toList_toString_eq (congrArg String.toList hcut.2.symm)

/-- The method and the name of a local variable. -/
def splitLocal (s : Signature) : Option (Signature × String) :=
  (Text.cutLast ':' s).bind fun (stem, _) => Text.cutLast '@' stem

theorem splitLocal_ofLocal {method : Signature} {name : String} (h : '@' ∉ name.toList)
    (ordinal : Nat) : (ofLocal method name ordinal).splitLocal = some (method, name) := by
  rw [splitLocal, cutLast_ofLocal, Option.bind_some]
  exact Text.cutLast_eq method name (by simp) h

theorem ofLocal_inj {method name method' name' : String} {i j : Nat} (hname : '@' ∉ name.toList)
    (hname' : '@' ∉ name'.toList) (h : ofLocal method name i = ofLocal method' name' j) :
    method = method' ∧ name = name' ∧ i = j := by
  have hsplit := @splitLocal_ofLocal method name hname i
  rw [h, splitLocal_ofLocal hname'] at hsplit
  cases hsplit
  exact ⟨rfl, rfl, ordinal_eq_of_ofLocal_eq h⟩

end Signature

namespace MethodSymbol

variable {m n : MethodSymbol}

theorem Regular.ofField (hm : m.Regular) : IsUnmarked (Signature.ofField m.owner m.name) :=
  Signature.isUnmarked_ofField hm.owner hm.name.toIsUnmarked

theorem Regular.paren_notMem_tail (hm : m.Regular) : '(' ∉ m.descriptor.tail :=
  MethodDescriptor.notMem_tail (by decide) fun name hname => (hm.classes name hname).2.paren_notMem

theorem Regular.hash_notMem (hm : m.Regular) : '#' ∉ m.signature.toList := by
  have htail : '#' ∉ m.descriptor.tail :=
    MethodDescriptor.notMem_tail (by decide) fun name hname => (hm.classes name hname).2.hash_notMem
  simp [signature, Signature.toList_ofMethod, hm.ofField.hash_notMem, htail]

theorem Regular.at_notMem (hm : m.Regular) : '@' ∉ m.signature.toList := by
  have htail : '@' ∉ m.descriptor.tail :=
    MethodDescriptor.notMem_tail (by decide) fun name hname => (hm.classes name hname).2.at_notMem
  simp [signature, Signature.toList_ofMethod, hm.ofField.at_notMem, htail]

/-- The first parenthesis ends the name, and the last dot before it the owner. -/
theorem eq_of_signature_eq (hm : m.Regular) (hn : n.Regular) (h : m.signature = n.signature) :
    m = n := by
  have hlist := congrArg String.toList h
  rw [signature, signature, Signature.toList_ofMethod, Signature.toList_ofMethod,
    List.append_cons_inj_of_notMem hm.ofField.paren_notMem hm.paren_notMem_tail] at hlist
  obtain ⟨hmember, -, htail⟩ := hlist
  obtain ⟨howner, hname⟩ := Signature.ofField_inj hm.name.dot_notMem hn.name.dot_notMem
    (String.toList_inj.1 hmember)
  have htext : m.descriptor.text = n.descriptor.text := by
    rw [← String.toList_inj, MethodDescriptor.toList_text_eq, MethodDescriptor.toList_text_eq,
      htail]
  have hdescriptor : m.descriptor = n.descriptor :=
    MethodDescriptor.text_inj (fun name hname => (hm.classes name hname).1)
      (fun name hname => (hn.classes name hname).1) htext
  cases m
  cases n
  cases howner
  cases hname
  cases hdescriptor
  rfl

end MethodSymbol

namespace MemberSymbol

variable {a b : MemberSymbol}

/-- The kind of symbol that a signature stands for, by the separators in it. -/
def kindOf (s : Signature) : SymbolKind :=
  if Text.containsChar '#' s then .parameter
  else if Text.containsChar '@' s then .localVariable
  else if Text.containsChar '(' s then .method
  else .field

theorem kindOf_signature (ha : a.Regular) : kindOf a.signature = a.kind := by
  cases a with
  | field owner name =>
    have hfree := Signature.isUnmarked_ofField ha.1 ha.2.toIsUnmarked
    simp [kindOf, kind, signature, Text.containsChar, hfree.hash_notMem, hfree.at_notMem,
      hfree.paren_notMem]
  | method m =>
    have hm : m.Regular := ha
    have hparen : '(' ∈ m.signature.toList := by
      simp [MethodSymbol.signature, Signature.toList_ofMethod]
    simp [kindOf, kind, signature, Text.containsChar, hm.hash_notMem, hm.at_notMem, hparen]
  | parameter m index =>
    have hhash : '#' ∈ (Signature.ofParameter m.signature index).toList := by
      simp [Signature.toList_ofParameter]
    simp [kindOf, kind, signature, Text.containsChar, hhash]
  | localVariable m name ordinal =>
    obtain ⟨hm, hname⟩ := ha
    have hdigits : '#' ∉ (toString ordinal).toList := notMem_toString rfl ordinal
    have hhash : '#' ∉ (Signature.ofLocal m.signature name ordinal).toList := by
      rw [Signature.toList_ofLocal, List.mem_append, List.mem_cons, List.mem_append, List.mem_cons]
      simp only [hm.hash_notMem, hname.hash_notMem, hdigits]
      decide
    have hat : '@' ∈ (Signature.ofLocal m.signature name ordinal).toList := by
      simp [Signature.toList_ofLocal]
    simp [kindOf, kind, signature, Text.containsChar, hhash, hat]

theorem eq_of_parameter_signature_eq {m n : MethodSymbol} {i j : Nat} (hm : m.Regular)
    (hn : n.Regular) (h : Signature.ofParameter m.signature i = .ofParameter n.signature j) :
    m = n ∧ i = j := by
  have hlist := congrArg String.toList h
  rw [Signature.toList_ofParameter, Signature.toList_ofParameter,
    List.append_cons_inj_of_notMem hm.hash_notMem (notMem_toString rfl i)] at hlist
  obtain ⟨hmethod, -, hindex⟩ := hlist
  exact ⟨MethodSymbol.eq_of_signature_eq hm hn (String.toList_inj.1 hmethod),
    eq_of_toList_toString_eq hindex⟩

theorem eq_of_local_signature_eq {m n : MethodSymbol} {x y : String} {i j : Nat} (hm : m.Regular)
    (hn : n.Regular) (hx : IsMemberName x)
    (h : Signature.ofLocal m.signature x i = .ofLocal n.signature y j) :
    m = n ∧ x = y ∧ i = j := by
  have hdigits : '@' ∉ (toString i).toList := notMem_toString rfl i
  have hat : '@' ∉ x.toList ++ ':' :: (toString i).toList := by
    rw [List.mem_append, List.mem_cons]
    simp only [hx.at_notMem, hdigits]
    decide
  have hlist := congrArg String.toList h
  rw [Signature.toList_ofLocal, Signature.toList_ofLocal,
    List.append_cons_inj_of_notMem hm.at_notMem hat,
    List.append_cons_inj_of_notMem hx.colon_notMem (notMem_toString rfl i)] at hlist
  obtain ⟨hmethod, -, hname, -, hordinal⟩ := hlist
  exact ⟨MethodSymbol.eq_of_signature_eq hm hn (String.toList_inj.1 hmethod),
    String.toList_inj.1 hname, eq_of_toList_toString_eq hordinal⟩

/-- Two symbols with the same signature are of one kind and made of the same parts. -/
theorem signature_eq_iff (ha : a.Regular) (hb : b.Regular) :
    a.signature = b.signature ↔ a = b := by
  refine ⟨fun h => ?_, fun h => h ▸ rfl⟩
  have hkind : a.kind = b.kind := by rw [← kindOf_signature ha, h, kindOf_signature hb]
  cases a with
  | field owner name =>
    cases b with
    | field owner' name' =>
      obtain ⟨rfl, rfl⟩ := Signature.ofField_inj ha.2.dot_notMem hb.2.dot_notMem h
      rfl
    | _ => cases hkind
  | method m =>
    cases b with
    | method n => rw [MethodSymbol.eq_of_signature_eq ha hb h]
    | _ => cases hkind
  | parameter m i =>
    cases b with
    | parameter n j =>
      obtain ⟨rfl, rfl⟩ := eq_of_parameter_signature_eq ha hb h
      rfl
    | _ => cases hkind
  | localVariable m x i =>
    cases b with
    | localVariable n y j =>
      obtain ⟨rfl, rfl, rfl⟩ := eq_of_local_signature_eq ha.1 hb.1 ha.2 h
      rfl
    | _ => cases hkind

/-- A method whose descriptor names a class with a closing parenthesis in it. -/
def parenthesized : MethodSymbol :=
  ⟨"p.A", "f", ⟨[.array (.object "q.B)V"), .prim .int], some (.object "C")⟩⟩

theorem regular_parenthesized : parenthesized.Regular where
  owner := ⟨by decide, by decide, by decide⟩
  name := ⟨⟨by decide, by decide, by decide⟩, by decide, by decide, by decide⟩
  classes := by
    have hnames : parenthesized.descriptor.classNames = ["q.B)V", "C"] := rfl
    rw [hnames, List.forall_mem_cons, List.forall_mem_cons]
    exact ⟨⟨⟨by decide, by decide, by decide⟩, by decide, by decide, by decide⟩,
      ⟨⟨by decide, by decide, by decide⟩, by decide, by decide, by decide⟩, nofun⟩

/-- Two local variables of one method that differ in their ordinals only. -/
theorem signature_ne_of_ordinals :
    (localVariable parenthesized "x" 1).signature = "p.A.f([Lq/B)V;I)LC;@x:1" ∧
    (localVariable parenthesized "x" 1).signature ≠
      (localVariable parenthesized "x" 11).signature := by
  have hname : IsMemberName "x" :=
    ⟨⟨by decide, by decide, by decide⟩, by decide, by decide, by decide⟩
  have hregular : ∀ k, (localVariable parenthesized "x" k).Regular :=
    fun _ => ⟨regular_parenthesized, hname⟩
  refine ⟨by decide, fun h => ?_⟩
  have heq := (signature_eq_iff (hregular 1) (hregular 11)).1 h
  simp at heq

end MemberSymbol

end Renaming
