import Renaming.Java.Classpath
import Renaming.Proofs.Java.GenericSignature.Bounds

/-!
# Generic forms of compiled members

A compiled member has its type twice, as a descriptor and as a signature, and the first is the
erasure of the second. The signature names variables whose bounds are written elsewhere: in front of
the method, in the signature of the class, in the signatures of the classes around it. Only the
sections of the method and of the class itself are looked at where a member is read, each with a
single pass, and a header is kept for the number of its parameters alone.
-/

namespace Renaming.Java.Classpath

open BoundChain
open GenericSignature (UnboundedMethod)
open GenericType (ErasesIn Unbounded)

/-- The variables of a class as its signature has them. -/
def writtenParams (c : ClassFile) : List TypeParameter :=
  ((c.signature.bind fun s => (GenericSignature.whole GenericSignature.classHeader s).toOption).map
    (·.typeParams)).getD []

/-- The variables of a class as its members are read with them. -/
def boundedParams (c : ClassFile) : List TypeParameter :=
  (writtenParams c).map (TypeParameter.withBounds (writtenParams c))

theorem unbounded_writtenParams (c : ClassFile) : ∀ p ∈ writtenParams c, p.bound.Unbounded := by
  unfold writtenParams
  cases c.signature with
  | none => exact nofun
  | some s =>
    cases hread : GenericSignature.whole GenericSignature.classHeader s with
    | error e =>
      rw [Option.bind_some, hread]
      exact nofun
    | ok h =>
      rw [Option.bind_some, hread]
      exact GenericSignature.of_whole GenericSignature.gives_classHeader hread

theorem boundedParams_eq (c : ClassFile) :
    ((c.signature.bind fun s => (GenericSignature.parseClass s).toOption).map
      (·.typeParams)).getD [] = boundedParams c := by
  unfold boundedParams writtenParams
  cases c.signature with
  | none => rfl
  | some s =>
    rw [Option.bind_some, Option.bind_some, GenericSignature.parseClass]
    cases GenericSignature.whole GenericSignature.classHeader s with
    | error e => rfl
    | ok h => rfl

/-! ## What is known of a variable -/

/-- The chain of a variable ends, or reaches the third variable of the class at the root class. A
variable of a class further out stands for the root class. -/
def KnownInClass (params : List TypeParameter) (around : List (List TypeParameter)) :
    TypeParameter → Prop :=
  Settles params around (fun v => ErasesIn around v.var (.object objectName)) 2

/-- As in a class, with the section of a method in front. -/
def KnownInMethod (own params : List TypeParameter) (around : List (List TypeParameter)) :
    TypeParameter → Prop :=
  Settles own (params :: around) (KnownInClass params around) 2

theorem carries_boundedParams_iff (c : ClassFile) {around : List (List TypeParameter)}
    {v : TypeParameter} (hv : v.bound = .objectClass) :
    Carries (writtenParams c :: around) (boundedParams c) v ↔
      KnownInClass (writtenParams c) around v := by
  have hparams := unbounded_writtenParams c
  have hpass : Carries (writtenParams c :: around) (boundedParams c ++ []) v ↔
      Settles (writtenParams c) around (Carries around []) 2 v :=
    carries_pass_iff hparams fun u _ => by
      rw [← carries_section_iff hparams, List.append_nil]
  rw [List.append_nil] at hpass
  refine hpass.trans (settles_congr hparams (fun u hu => ?_) 2 hv)
  change ErasesIn around u.var u.bound.erasure ↔ _
  rw [hu]
  rfl

theorem carries_method_iff (c : ClassFile) {around : List (List TypeParameter)}
    {g : GenericMethod} (hg : UnboundedMethod g) {v : TypeParameter}
    (hv : v.bound = .objectClass) :
    Carries (g.typeParams :: writtenParams c :: around)
        ((g.withBounds (boundedParams c)).typeParams ++ boundedParams c) v ↔
      KnownInMethod g.typeParams (writtenParams c) around v := by
  refine (carries_pass_iff hg.typeParams fun u _ => carries_section_iff hg.typeParams).trans ?_
  exact settles_congr hg.typeParams (fun u hu => carries_boundedParams_iff c hu) 2 hv

/-! ## Signatures that agree with descriptors -/

/-- The descriptor of a method has the erased parameters and the erased result of its signature. A
constructor may have parameters that source text does not show, in front of the others, starting
with the enclosing instance if there is one, and behind them. -/
structure HeaderAgrees (sections : List (List TypeParameter)) (enclosing : Option FieldType)
    (name : String) (g : GenericMethod) (d : MethodDescriptor) : Prop where
  params : ∃ before shown after, d.params = before ++ (shown ++ after) ∧
    List.Forall₂ (ErasesIn (g.typeParams :: sections)) g.params shown ∧
    if name = constructorName then ∀ o ∈ enclosing, before.head? = some o
    else before = [] ∧ after = []
  ret : Option.Rel (ErasesIn (g.typeParams :: sections)) g.ret d.ret

/-- The signatures of a class erase to its descriptors, with the variables of the given sections. -/
structure Agrees (sections : List (List TypeParameter)) (enclosing : Option FieldType)
    (c : ClassFile) : Prop where
  fields : ∀ m ∈ c.fields, ∀ s ∈ m.signature, ∀ t e, GenericSignature.parseField s = .ok t →
    Descriptor.parseField m.descriptor = .ok e → ErasesIn sections t e
  methods : ∀ m ∈ c.methods, ∀ s ∈ m.signature, ∀ g d, GenericSignature.parseMethod s = .ok g →
    Descriptor.parseMethod m.descriptor = .ok d → HeaderAgrees sections enclosing m.name g d

/-- Parameters that source text does not show are told by the number of all parameters. -/
theorem HeaderAgrees.forall₂_params {sections : List (List TypeParameter)}
    {enclosing : Option FieldType} {name : String} {g : GenericMethod} {d : MethodDescriptor}
    (h : HeaderAgrees sections enclosing name g d)
    (hlength : g.params.length = (sourceDescriptor enclosing name d).params.length) :
    List.Forall₂ (ErasesIn (g.typeParams :: sections)) g.params
      (sourceDescriptor enclosing name d).params := by
  obtain ⟨before, shown, after, hparams, herases, hhidden⟩ := h.params
  have hshown := herases.length_eq
  have hsource : (sourceDescriptor enclosing name d).params = shown := by
    by_cases hname : name = constructorName
    · rw [if_pos hname] at hhidden
      cases enclosing with
      | none =>
        have hsame : sourceDescriptor none name d = d := by simp [sourceDescriptor]
        rw [hsame, hparams] at hlength ⊢
        simp only [List.length_append] at hlength
        obtain rfl : before = [] := List.length_eq_zero_iff.1 (by omega)
        obtain rfl : after = [] := List.length_eq_zero_iff.1 (by omega)
        rw [List.nil_append, List.append_nil]
      | some o =>
        obtain ⟨rest, rfl⟩ := List.head?_eq_some_iff.1 (hhidden o rfl)
        have htail : (sourceDescriptor (some o) name d).params = rest ++ (shown ++ after) := by
          simp [sourceDescriptor, hname, hparams]
        rw [htail] at hlength ⊢
        simp only [List.length_append] at hlength
        obtain rfl : rest = [] := List.length_eq_zero_iff.1 (by omega)
        obtain rfl : after = [] := List.length_eq_zero_iff.1 (by omega)
        rw [List.nil_append, List.append_nil]
    · rw [if_neg hname] at hhidden
      obtain ⟨rfl, rfl⟩ := hhidden
      simp [sourceDescriptor, hname, hparams]
  rwa [hsource]

/-! ## Members as they are read -/

theorem eq_ok_of_toOption {ε α : Type} {x : Except ε α} {a : α} (h : x.toOption = some a) :
    x = .ok a := by
  cases x with
  | error e => cases h
  | ok b => exact congrArg Except.ok (Option.some.inj h)

theorem exists_of_field? {params : List TypeParameter} {m : ClassFile.Member}
    {f : FieldDeclaration} {g : GenericType} (h : field? params m = some f)
    (hg : f.generic = some g) : ∃ s t, m.signature = some s ∧
      GenericSignature.parseField s = .ok t ∧ Descriptor.parseField m.descriptor = .ok f.type ∧
      g = t.withBounds params := by
  simp only [field?, Option.bind_eq_bind] at h
  split at h
  · cases h
  obtain ⟨type, htype, h⟩ := Option.bind_eq_some_iff.1 h
  split at h
  · rename_i t hsignature
    obtain ⟨s, hs, ht⟩ := Option.bind_eq_some_iff.1 hsignature
    cases h
    obtain ⟨-, ⟨⟩⟩ := Option.ite_none_right_eq_some.1 hg
    exact ⟨s, t, hs, eq_ok_of_toOption ht, eq_ok_of_toOption htype, rfl⟩
  · cases h
    cases hg

theorem exists_of_method? {params : List TypeParameter} {enclosing : Option FieldType}
    {m : ClassFile.Member} {f : MethodDeclaration} {g : GenericMethod}
    (h : method? params enclosing m = some f) (hg : f.generic = some g) :
    ∃ s raw d, m.signature = some s ∧ GenericSignature.parseMethod s = .ok raw ∧
      Descriptor.parseMethod m.descriptor = .ok d ∧
      f.descriptor = sourceDescriptor enclosing m.name d ∧ g = raw.withBounds params ∧
      raw.params.length = f.descriptor.params.length := by
  simp only [method?, Option.bind_eq_bind] at h
  split at h
  · cases h
  obtain ⟨d, hd, h⟩ := Option.bind_eq_some_iff.1 h
  split at h
  · rename_i raw hsignature
    obtain ⟨s, hs, hraw⟩ := Option.bind_eq_some_iff.1 hsignature
    cases h
    obtain ⟨hkept, ⟨⟩⟩ := Option.ite_none_right_eq_some.1 hg
    have hlength : raw.params.length = (sourceDescriptor enclosing m.name d).params.length := by
      simpa [GenericMethod.withBounds] using (Bool.and_eq_true_iff.1 hkept).2
    exact ⟨s, raw, d, hs, eq_ok_of_toOption hraw, eq_ok_of_toOption hd, rfl, rfl, hlength⟩
  · cases h
    cases hg
/-- The parts of a header whose place is the same. -/
theorem rel_getElem? {α β : Type} {R : α → β → Prop} {l : List α} {l' : List β}
    (h : List.Forall₂ R l l') (i : Nat) : Option.Rel R l[i]? l'[i]? := by
  induction h generalizing i with
  | nil => exact .none
  | cons hfirst _ ih =>
    cases i with
    | zero => exact .some hfirst
    | succ i => exact ih i

theorem map_erasure_eq_iff {sections : List (List TypeParameter)} {scope : List TypeParameter}
    {t : Option GenericType} {e : Option FieldType} (h : Option.Rel (ErasesIn sections) t e) :
    (t.map fun t => (t.withBounds scope).erasure) = e ↔
      ∀ t' ∈ t, ∀ v ∈ t'.typeVar?, Carries sections scope v := by
  cases h with
  | none => exact iff_of_true rfl nofun
  | some h =>
    rw [Option.map_some, Option.some.injEq, erasure_withBounds_iff h]
    exact ⟨fun hcarries t' ht' => Option.some.inj ht' ▸ hcarries, fun hcarries => hcarries _ rfl⟩

section Read

variable {c : ClassFile} {around : List (List TypeParameter)} {enclosing : Option FieldType}
  {m : ClassFile.Member} (hagree : Agrees (writtenParams c :: around) enclosing c)
include hagree

theorem erasure_field_iff (hm : m ∈ c.fields) {f : FieldDeclaration} {g : GenericType}
    (hf : field? (boundedParams c) m = some f) (hg : f.generic = some g) :
    ∃ s t, m.signature = some s ∧ GenericSignature.parseField s = .ok t ∧
      (g.erasure = f.type ↔ ∀ v ∈ t.typeVar?, KnownInClass (writtenParams c) around v) := by
  obtain ⟨s, t, hs, ht, htype, rfl⟩ := exists_of_field? hf hg
  have hunbounded : t.Unbounded := GenericSignature.of_whole GenericSignature.gives_type ht
  refine ⟨s, t, hs, ht, ?_⟩
  rw [erasure_withBounds_iff (hagree.fields m hm s hs t f.type ht htype)]
  exact forall₂_congr fun v hv => carries_boundedParams_iff c (hunbounded v hv)

theorem erasure_method_iff (hm : m ∈ c.methods) {f : MethodDeclaration} {g : GenericMethod}
    (hf : method? (boundedParams c) enclosing m = some f) (hg : f.generic = some g) :
    ∃ s raw, m.signature = some s ∧ GenericSignature.parseMethod s = .ok raw ∧
      (∀ i : Nat, g.erasure.params[i]? = f.descriptor.params[i]? ↔ ∀ t ∈ raw.params[i]?,
        ∀ v ∈ t.typeVar?, KnownInMethod raw.typeParams (writtenParams c) around v) ∧
      (g.erasure.ret = f.descriptor.ret ↔ ∀ t ∈ raw.ret,
        ∀ v ∈ t.typeVar?, KnownInMethod raw.typeParams (writtenParams c) around v) := by
  obtain ⟨s, raw, d, hs, hraw, hd, hdescriptor, rfl, hlength⟩ := exists_of_method? hf hg
  have hunbounded : UnboundedMethod raw :=
    GenericSignature.of_whole GenericSignature.gives_method hraw
  have hheader := hagree.methods m hm s hs raw d hraw hd
  have hpart {t : Option GenericType} {e : Option FieldType}
      (h : Option.Rel (ErasesIn (raw.typeParams :: writtenParams c :: around)) t e)
      (ht : ∀ t' ∈ t, t'.Unbounded) :=
    (map_erasure_eq_iff h).trans (forall₂_congr fun t' ht' => forall₂_congr fun v hv =>
      carries_method_iff c hunbounded (ht t' ht' v hv))
  refine ⟨s, raw, hs, hraw, fun i => ?_, ?_⟩
  · have hparams : (raw.withBounds (boundedParams c)).erasure.params =
        raw.params.map fun t => (t.withBounds ((raw.withBounds (boundedParams c)).typeParams ++
          boundedParams c)).erasure := List.map_map
    rw [hdescriptor] at hlength ⊢
    rw [hparams, List.getElem?_map]
    exact hpart (rel_getElem? (hheader.forall₂_params hlength) i) fun t ht =>
      hunbounded.params t (List.mem_of_getElem? ht)
  · have hret : (raw.withBounds (boundedParams c)).erasure.ret =
        raw.ret.map fun t => (t.withBounds ((raw.withBounds (boundedParams c)).typeParams ++
          boundedParams c)).erasure := Option.map_map ..
    have hsource : f.descriptor.ret = d.ret := by
      rw [hdescriptor, sourceDescriptor]
      split
      · rfl
      · rfl
    rw [hret, hsource]
    exact hpart hheader.ret hunbounded.ret

end Read

/-- The enclosing instance that the constructors of a class take, as the given classes tell. -/
def enclosingOf (classes : List ClassFile) (c : ClassFile) : Option FieldType :=
  enclosingInstance? (kindOf c)
    (placeOf (classes.flatMap (·.nestings)) (classes.map (·.name)) c.name)

/-- The generic form of a compiled member, where it is kept, erases to the descriptor in exactly
those parts whose variables are known in the class or the method: those that are two bounds away
from a class, and those whose chain gets to the root class. Bounds of the classes around the class
are never known. -/
theorem generic_forms_erase_iff (classes : List ClassFile) (around : ClassFile → List ClassFile)
    (hagree : ∀ c ∈ classes, Agrees (writtenParams c :: (around c).map writtenParams)
      (enclosingOf classes c) c) :
    ∀ d ∈ declarations classes, ∃ c ∈ classes, d.binary = c.name ∧
      (∀ f ∈ d.fields, ∀ g, f.generic = some g →
        ∃ m ∈ c.fields, field? d.typeParams m = some f ∧ ∃ s t, m.signature = some s ∧
          GenericSignature.parseField s = .ok t ∧ (g.erasure = f.type ↔ ∀ v ∈ t.typeVar?,
            KnownInClass (writtenParams c) ((around c).map writtenParams) v)) ∧
      (∀ f ∈ d.methods, ∀ g, f.generic = some g →
        ∃ m ∈ c.methods, method? d.typeParams (enclosingOf classes c) m = some f ∧
          ∃ s raw, m.signature = some s ∧ GenericSignature.parseMethod s = .ok raw ∧
            (∀ i : Nat, g.erasure.params[i]? = f.descriptor.params[i]? ↔ ∀ t ∈ raw.params[i]?,
              ∀ v ∈ t.typeVar?, KnownInMethod raw.typeParams (writtenParams c)
                ((around c).map writtenParams) v) ∧
            (g.erasure.ret = f.descriptor.ret ↔ ∀ t ∈ raw.ret, ∀ v ∈ t.typeVar?,
              KnownInMethod raw.typeParams (writtenParams c)
                ((around c).map writtenParams) v)) := by
  intro d hd
  obtain ⟨c, hc, rfl⟩ := List.mem_map.1 hd
  have hmem := (List.mem_filter.1 hc).1
  refine ⟨c, hmem, rfl, fun f hf g hg => ?_, fun f hf g hg => ?_⟩
  · obtain ⟨m, hm, hread⟩ := List.mem_filterMap.1 hf
    refine ⟨m, hm, hread, ?_⟩
    rw [boundedParams_eq] at hread
    exact erasure_field_iff (hagree c hmem) hm hread hg
  · obtain ⟨m, hm, hread⟩ := List.mem_filterMap.1 hf
    refine ⟨m, hm, hread, ?_⟩
    rw [boundedParams_eq] at hread
    exact erasure_method_iff (hagree c hmem) hm hread hg

/-! ## An inner class -/

def slotNesting : ClassFile.Nesting where
  inner := "Box$Slot"
  outer := some "Box"
  simple := some "Slot"
  access := 0

/-- A class with a bounded variable. -/
def boxClass : ClassFile where
  access := 0
  name := "Box"
  superclass := some objectName
  interfaces := []
  fields := [⟨0, "first", "Ljava/lang/Number;", some "TT;"⟩]
  methods := [⟨0, "put", "(Ljava/lang/Number;)Ljava/lang/Number;", some "<U:TT;>(TU;)TT;"⟩]
  nestings := [slotNesting]
  signature := some "<T:Ljava/lang/Number;>Ljava/lang/Object;"

/-- A class inside of it that uses the variable. -/
def slotClass : ClassFile where
  access := 0
  name := "Box$Slot"
  superclass := some objectName
  interfaces := []
  fields := [⟨0, "value", "Ljava/lang/Number;", some "TT;"⟩]
  methods := [⟨0, "<init>", "(LBox;Ljava/lang/Number;)V", some "(TT;)V"⟩]
  nestings := [slotNesting]
  signature := none

def classesAround (c : ClassFile) : List ClassFile := if c.name = "Box$Slot" then [boxClass] else []

theorem parsed_number : Descriptor.parseField "Ljava/lang/Number;" =
    .ok (.object "java.lang.Number") := by
  decide +kernel

theorem parsed_variable : GenericSignature.parseField "TT;" = .ok (.var "T" .objectClass) := by
  decide +kernel

theorem writtenParams_boxClass : writtenParams boxClass = [⟨"T", .raw "java.lang.Number"⟩] := by
  decide +kernel

theorem erasesIn_variable (bound : GenericType) : ErasesIn [[⟨"T", .raw "java.lang.Number"⟩]]
    (.var "T" bound) (.object "java.lang.Number") :=
  .declared rfl (.object "java.lang.Number" [])

theorem agrees_boxClass :
    Agrees (writtenParams boxClass :: (classesAround boxClass).map writtenParams)
      (enclosingOf [boxClass, slotClass] boxClass) boxClass := by
  have hsignature : GenericSignature.parseMethod "<U:TT;>(TU;)TT;" =
      .ok ⟨[⟨"U", .var "T" .objectClass⟩], [.var "U" .objectClass],
        some (.var "T" .objectClass)⟩ := by decide +kernel
  have hdescriptor : Descriptor.parseMethod "(Ljava/lang/Number;)Ljava/lang/Number;" =
      .ok ⟨[.object "java.lang.Number"], some (.object "java.lang.Number")⟩ := by decide +kernel
  rw [writtenParams_boxClass]
  constructor
  · rintro m hm s hs t e ht he
    obtain rfl := List.mem_singleton.1 hm
    cases hs
    cases parsed_variable.symm.trans ht
    cases parsed_number.symm.trans he
    exact erasesIn_variable _
  · rintro m hm s hs g d hg hd
    obtain rfl := List.mem_singleton.1 hm
    cases hs
    cases hsignature.symm.trans hg
    cases hdescriptor.symm.trans hd
    have hvariable : ErasesIn [[⟨"U", .var "T" .objectClass⟩], [⟨"T", .raw "java.lang.Number"⟩]]
        (.var "T" .objectClass) (.object "java.lang.Number") :=
      .undeclared rfl (erasesIn_variable _)
    refine ⟨⟨[], _, [], rfl, .cons (.declared rfl hvariable) .nil, ?_⟩, .some hvariable⟩
    exact ⟨rfl, rfl⟩

theorem agrees_slotClass :
    Agrees (writtenParams slotClass :: (classesAround slotClass).map writtenParams)
      (enclosingOf [boxClass, slotClass] slotClass) slotClass := by
  have hsignature : GenericSignature.parseMethod "(TT;)V" =
      .ok ⟨[], [.var "T" .objectClass], none⟩ := by decide +kernel
  have hdescriptor : Descriptor.parseMethod "(LBox;Ljava/lang/Number;)V" =
      .ok ⟨[.object "Box", .object "java.lang.Number"], none⟩ := by decide +kernel
  have henclosing : enclosingOf [boxClass, slotClass] slotClass = some (.object "Box") := by
    decide +kernel
  have haround : (classesAround slotClass).map writtenParams =
      [[⟨"T", .raw "java.lang.Number"⟩]] := congrArg (· :: []) writtenParams_boxClass
  rw [haround, henclosing]
  constructor
  · rintro m hm s hs t e ht he
    obtain rfl := List.mem_singleton.1 hm
    cases hs
    cases parsed_variable.symm.trans ht
    cases parsed_number.symm.trans he
    exact .undeclared rfl (erasesIn_variable _)
  · rintro m hm s hs g d hg hd
    obtain rfl := List.mem_singleton.1 hm
    cases hs
    cases hsignature.symm.trans hg
    cases hdescriptor.symm.trans hd
    refine ⟨⟨[.object "Box"], _, [], rfl, .cons ?_ .nil, ?_⟩, .none⟩
    · exact .undeclared rfl (.undeclared rfl (erasesIn_variable _))
    · rintro o ⟨⟩
      rfl

theorem agrees_boxes : ∀ c ∈ [boxClass, slotClass],
    Agrees (writtenParams c :: (classesAround c).map writtenParams)
      (enclosingOf [boxClass, slotClass] c) c := by
  simp only [List.forall_mem_cons, List.not_mem_nil, false_imp_iff, implies_true, and_true]
  exact ⟨agrees_boxClass, agrees_slotClass⟩

/-- Both classes have a field of the same type. It is right in the class that declares the variable
and wrong in the class inside. -/
theorem generic_forms_erase_iff_boxes :
    (declarations [boxClass, slotClass]).map TypeDeclaration.binary = ["Box", "Box$Slot"] ∧
    ∀ d ∈ declarations [boxClass, slotClass], ∀ f ∈ d.fields, ∀ g, f.generic = some g →
      (g.erasure = f.type ↔ d.binary = "Box") := by
  refine ⟨by decide +kernel, fun d hd f hf g hg => ?_⟩
  obtain ⟨c, hc, hname, hfields, -⟩ :=
    generic_forms_erase_iff [boxClass, slotClass] classesAround agrees_boxes d hd
  obtain ⟨m, hm, -, s, t, hs, ht, hiff⟩ := hfields f hf g hg
  rw [hiff, hname]
  obtain rfl | rfl : c = boxClass ∨ c = slotClass := by simpa using hc
  · obtain rfl := List.mem_singleton.1 hm
    cases hs
    cases parsed_variable.symm.trans ht
    rw [writtenParams_boxClass]
    refine iff_of_true ?_ rfl
    rintro _ ⟨⟩ _ ⟨⟩
  · obtain rfl := List.mem_singleton.1 hm
    cases hs
    cases parsed_variable.symm.trans ht
    refine iff_of_false (fun hknown => ?_) (by decide)
    have hroot : ErasesIn [writtenParams boxClass] (.var "T" .objectClass) (.object objectName) :=
      hknown ⟨"T", .objectClass⟩ rfl
    rw [writtenParams_boxClass] at hroot
    exact absurd (hroot.unique (erasesIn_variable _)) (by decide)

/-- The signatures agree with the descriptors, and the type of a field of the inner class is kept
with the root class in place of the bound. -/
theorem outer_bound_lost :
    (∀ c ∈ [boxClass, slotClass],
      Agrees (writtenParams c :: (classesAround c).map writtenParams)
        (enclosingOf [boxClass, slotClass] c) c) ∧
    (declarations [boxClass, slotClass]).map (fun d => d.fields.map fun f =>
        (f.type, f.generic.map GenericType.erasure)) =
      [[(.object "java.lang.Number", some (.object "java.lang.Number"))],
        [(.object "java.lang.Number", some (.object objectName))]] := by
  refine ⟨agrees_boxes, ?_⟩
  decide +kernel

end Renaming.Java.Classpath
