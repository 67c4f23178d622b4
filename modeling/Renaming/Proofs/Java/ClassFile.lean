import Renaming.Proofs.Java.ClassFile.Interning

/-!
# Class files read back

A class file written from an outline is read as the class of that outline: the same members and
nestings in the same order, class names with dots, and for each member the first signature given for
its name.
-/

namespace Renaming.Java.ClassFile

open PoolWriter

theorem writes_signature {s : String} (h : (Bytes.ofText s).length < 65536) :
    Writes (PoolWriter.signature s) fun final octets =>
      Reads (readMemberAttribute final) octets (.signature s) ∧
        Reads (readClassAttribute final) octets (.signature s) := by
  have hkind : (Bytes.ofText "Signature").length < 65536 := by decide
  have hlength : 2 < Nat.pow 256 4 := by decide
  apply (writes_text hkind).bind
  intro name
  apply (writes_text h).bind
  intro value
  apply Writes.pure
  intro final hvalue hname
  have htext := hvalue.reads.map Attribute.signature
  rw [List.append_assoc]
  exact ⟨hname.reads.bind ((reads_number hlength).bind htext),
    hname.reads.bind ((reads_number hlength).bind htext)⟩

/-- The first signature given for the name. -/
def firstSignature (signatures : List (String × String)) (name : String) : Option String :=
  (signatures.find? fun s => s.1 = name).map Prod.snd

theorem lookup_eq_firstSignature (signatures : List (String × String)) (name : String) :
    signatures.lookup name = firstSignature signatures name := by
  induction signatures with
  | nil => rfl
  | cons s signatures ih =>
    obtain ⟨key, value⟩ := s
    by_cases hname : key = name
    · simp [firstSignature, hname]
    · have hkey : (name == key) = false := beq_false_of_ne (Ne.symm hname)
      rw [List.lookup_cons, hkey]
      simpa [firstSignature, hname] using ih

theorem mem_of_firstSignature {signatures : List (String × String)} {name s : String}
    (h : firstSignature signatures name = some s) : ∃ entry ∈ signatures, entry.2 = s := by
  obtain ⟨entry, hfind, hs⟩ := Option.map_eq_some_iff.1 h
  exact ⟨entry, List.mem_of_find?_eq_some hfind, hs⟩

/-- The member of a class file for one of an outline. -/
def memberOf (signatures : List (String × String)) (m : Nat × String × String) : Member :=
  ⟨m.1, m.2.1, m.2.2, firstSignature signatures m.2.1⟩

theorem lastSignature_toList (s : Option String) :
    Attribute.lastSignature (s.toList.map Attribute.signature) = s := by
  cases s with
  | none => rfl
  | some s => rfl

theorem writes_member {signatures : List (String × String)} {m : Nat × String × String}
    (haccess : m.1 < 65536) (hname : (Bytes.ofText m.2.1).length < 65536)
    (hdescriptor : (Bytes.ofText m.2.2).length < 65536)
    (hsignatures : ∀ s ∈ signatures, (Bytes.ofText s.2).length < 65536) :
    Writes (member signatures m) fun final octets =>
      Reads (readMember final) octets (memberOf signatures m) := by
  have hattributes : Writes
      (PoolWriter.counted PoolWriter.signature (signatures.lookup m.2.1).toList) fun final octets =>
        Reads (ByteReader.counted (readMemberAttribute final)) octets
          ((firstSignature signatures m.2.1).toList.map Attribute.signature) := by
    rw [lookup_eq_firstSignature]
    apply writes_counted
    · intro s hs
      obtain ⟨entry, hentry, rfl⟩ := mem_of_firstSignature (Option.mem_toList.1 hs)
      exact (writes_signature (hsignatures entry hentry)).mono fun _ _ h => h.1
    · have hone := Option.length_toList_le (o := firstSignature signatures m.2.1)
      omega
  apply (writes_text hname).bind
  intro name
  apply (writes_text hdescriptor).bind
  intro descriptor
  apply hattributes.bind
  intro attributes
  apply Writes.pure
  intro final hread hdescriptorRead hnameRead
  have hmember := hread.map fun as => Member.mk m.1 m.2.1 m.2.2 (Attribute.lastSignature as)
  rw [lastSignature_toList] at hmember
  rw [List.append_assoc, List.append_assoc]
  exact (reads_number haccess).bind (hnameRead.reads.bind (hdescriptorRead.reads.bind hmember))

/-- The nesting that a class file records for one of an outline. -/
def nestingOf (e : String × String × String × Nat) : Nesting :=
  ⟨Text.replaceChar '/' '.' e.1, some (Text.replaceChar '/' '.' e.2.1), some e.2.2.1, e.2.2.2⟩

theorem writes_nesting {e : String × String × String × Nat}
    (hinner : (Bytes.ofText e.1).length < 65536) (houter : (Bytes.ofText e.2.1).length < 65536)
    (hsimple : (Bytes.ofText e.2.2.1).length < 65536) (haccess : e.2.2.2 < 65536) :
    Writes (nesting e) fun final octets => Reads (readNesting final) octets (nestingOf e) := by
  apply (writes_className hinner).bind
  intro inner
  apply (writes_className houter).bind
  intro outer
  apply (writes_text hsimple).bind
  intro simple
  apply Writes.pure
  intro final hsimpleRead houterRead hinnerRead
  have hlast := (reads_number (n := 2) haccess).map fun access => Nesting.mk
    (Text.replaceChar '/' '.' e.1) (some (Text.replaceChar '/' '.' e.2.1)) (some e.2.2.1) access
  rw [List.append_assoc, List.append_assoc]
  exact hinnerRead.reads.bind
    (houterRead.className?.reads_then (hsimpleRead.text?.reads_then hlast))

/-- The attribute of a class for its nestings, if it has any. -/
def nestingAttributes (entries : List (String × String × String × Nat)) : List Attribute :=
  if entries.isEmpty then [] else [.nestings (entries.map nestingOf)]

theorem writes_nestings {entries : List (String × String × String × Nat)}
    (h : ∀ e ∈ entries, Writes (nesting e) fun final octets =>
      Reads (readNesting final) octets (nestingOf e))
    (hcount : entries.length < 65536) :
    Writes (PoolWriter.nestings entries) fun final octets =>
      ReadsEach (readClassAttribute final) octets (nestingAttributes entries) := by
  cases entries with
  | nil => exact Writes.pure fun _ => ReadsEach.nil
  | cons e entries =>
    have hkind : (Bytes.ofText "InnerClasses").length < 65536 := by decide
    apply (writes_text hkind).bind
    intro name
    apply (writes_counted h hcount).bind
    intro body
    apply Writes.pure
    intro final hbody hname
    -- The length of the attribute is not looked at, so it may be any.
    have hlength := reads_number_mod 4 body.length
    have hattribute : Reads (readClassAttribute final) (name ++ (bigEndian 4 body.length ++ body))
        (.nestings ((e :: entries).map nestingOf)) :=
      hname.reads.bind (hlength.bind (hbody.map Attribute.nestings))
    rw [← List.append_nil (name ++ _ ++ _), List.append_assoc name]
    exact .cons hattribute .nil

namespace Outline

/-- All texts of an outline that are written. -/
def texts (c : Outline) : List String :=
  c.name :: c.superclass.toList ++ c.interfaces ++
    (c.fields ++ c.methods).flatMap (fun m => [m.2.1, m.2.2]) ++
    c.nestings.flatMap (fun e => [e.1, e.2.1, e.2.2.1]) ++ c.signatures.map Prod.snd

/-- An outline whose numbers and counts two octets can hold. -/
structure Fits (c : Outline) : Prop where
  access : c.access < 65536
  memberAccess : ∀ m ∈ c.fields ++ c.methods, m.1 < 65536
  nestingAccess : ∀ e ∈ c.nestings, e.2.2.2 < 65536
  texts : ∀ s ∈ c.texts, (Bytes.ofText s).length < 65536
  interfaces : c.interfaces.length < 65536
  fields : c.fields.length < 65536
  methods : c.methods.length < 65536
  nestings : c.nestings.length < 65536
  /-- One more than the number of constants is written. -/
  constants : ((PoolWriter.body c).run []).2.length < 65535

/-- The class that the outline is of. -/
def classFile (c : Outline) : ClassFile where
  access := c.access
  name := Text.replaceChar '/' '.' c.name
  superclass := c.superclass.map (Text.replaceChar '/' '.')
  interfaces := c.interfaces.map (Text.replaceChar '/' '.')
  fields := c.fields.map (memberOf c.signatures)
  methods := c.methods.map (memberOf c.signatures)
  nestings := c.nestings.map nestingOf
  signature := firstSignature c.signatures ""

namespace Fits

variable {c : Outline}

theorem signature_lt (h : c.Fits) : ∀ s ∈ c.signatures, (Bytes.ofText s.2).length < 65536 := by
  intro s hs
  exact h.texts s.2 (List.mem_append_right _ (List.mem_map_of_mem hs))

theorem writes_member (h : c.Fits) {m : Nat × String × String} (hm : m ∈ c.fields ++ c.methods) :
    Writes (member c.signatures m) fun final octets =>
      Reads (readMember final) octets (memberOf c.signatures m) := by
  have htexts : ∀ s ∈ [m.2.1, m.2.2], s ∈ c.texts := by
    intro s hs
    simp only [Outline.texts, List.mem_append, List.mem_flatMap]
    exact .inl (.inl (.inr ⟨m, List.mem_append.1 hm, hs⟩))
  exact ClassFile.writes_member (h.memberAccess m hm) (h.texts _ (htexts _ (by simp)))
    (h.texts _ (htexts _ (by simp))) h.signature_lt

theorem writes_nesting (h : c.Fits) {e : String × String × String × Nat} (he : e ∈ c.nestings) :
    Writes (nesting e) fun final octets => Reads (readNesting final) octets (nestingOf e) := by
  have htexts : ∀ s ∈ [e.1, e.2.1, e.2.2.1], s ∈ c.texts := by
    intro s hs
    simp only [Outline.texts, List.mem_append, List.mem_flatMap]
    exact .inl (.inr ⟨e, he, hs⟩)
  exact ClassFile.writes_nesting (h.texts _ (htexts _ (by simp))) (h.texts _ (htexts _ (by simp)))
    (h.texts _ (htexts _ (by simp))) (h.nestingAccess e he)

end Fits

end Outline

/-- What is read of a class after its constants. -/
def readBody (pool : ConstantPool) : ByteReader ClassFile := do
  let access ← ByteReader.number 2
  let name ← readClassName pool
  let superclass ← ByteReader.number 2
  let superclass ← ByteReader.lift (pool.className? superclass)
  let interfaces ← ByteReader.counted (readClassName pool)
  let fields ← ByteReader.counted (readMember pool)
  let methods ← ByteReader.counted (readMember pool)
  let attributes ← ByteReader.counted (readClassAttribute pool)
  pure
    { access, name, superclass, interfaces, fields, methods
      nestings := attributes.flatMap Attribute.nestings?
      signature := Attribute.lastSignature attributes }

theorem reads_class {constants body : Bytes} {pool : ConstantPool} {c : ClassFile}
    (hpool : Reads readPool constants pool) (hbody : Reads (readBody pool) body c) :
    Reads readClass
      (bigEndian 4 magic ++ (bigEndian 2 0 ++ (bigEndian 2 52 ++ (constants ++ body)))) c := by
  have hmagic : Reads (ByteReader.number 4) (bigEndian 4 magic) magic := reads_number (by decide)
  have hminor : Reads (ByteReader.number 2) (bigEndian 2 0) 0 := reads_number (by decide)
  have hmajor : Reads (ByteReader.number 2) (bigEndian 2 52) 52 := reads_number (by decide)
  apply hmagic.bind
  rw [if_neg (fun h => h rfl)]
  exact hminor.bind (hmajor.bind (hpool.bind hbody))

theorem writes_superclass {parent : Option String}
    (h : ∀ s ∈ parent, (Bytes.ofText s).length < 65536) :
    Writes (PoolWriter.superclass parent) fun final octets =>
      Names final.className? octets (parent.map (Text.replaceChar '/' '.')) := by
  cases parent with
  | none => exact Writes.pure fun final => ⟨0, rfl, by decide, rfl⟩
  | some s => exact (writes_className (h s rfl)).mono fun _ _ hname => hname.className?

namespace Outline

/-- The attributes of the class itself: its signature and then its nestings. -/
def attributes (c : Outline) : List Attribute :=
  (firstSignature c.signatures "").toList.map Attribute.signature ++ nestingAttributes c.nestings

theorem length_attributes (c : Outline) :
    c.attributes.length = (firstSignature c.signatures "").toList.length +
      if c.nestings.isEmpty then 0 else 1 := by
  rw [attributes, List.length_append, List.length_map, nestingAttributes]
  split <;> rfl

theorem length_attributes_lt (c : Outline) : c.attributes.length < 65536 := by
  have hone := Option.length_toList_le (o := firstSignature c.signatures "")
  rw [length_attributes]
  split <;> omega

theorem attributes_lastSignature (c : Outline) :
    Attribute.lastSignature c.attributes = firstSignature c.signatures "" := by
  have hnone : (nestingAttributes c.nestings).filterMap Attribute.signature? = [] := by
    unfold nestingAttributes
    split <;> rfl
  rw [Attribute.lastSignature, attributes, List.filterMap_append, hnone, List.append_nil]
  exact lastSignature_toList _

theorem attributes_nestings (c : Outline) :
    c.attributes.flatMap Attribute.nestings? = c.nestings.map nestingOf := by
  have hnone (s : Option String) :
      (s.toList.map Attribute.signature).flatMap Attribute.nestings? = [] := by
    cases s with
    | none => rfl
    | some s => rfl
  rw [attributes, List.flatMap_append, hnone, List.nil_append, nestingAttributes]
  by_cases hempty : c.nestings = []
  · rw [hempty]
    rfl
  · rw [if_neg (by simpa using hempty)]
    exact List.append_nil _

theorem Fits.writes_body {c : Outline} (h : c.Fits) :
    Writes (PoolWriter.body c) fun final octets => Reads (readBody final) octets c.classFile := by
  have hname : (Bytes.ofText c.name).length < 65536 := h.texts _ (by simp [Outline.texts])
  have hsuperclass : ∀ s ∈ c.superclass, (Bytes.ofText s).length < 65536 := by
    intro s hs
    apply h.texts
    simp [Outline.texts, Option.mem_def.1 hs]
  have hinterface : ∀ s ∈ c.interfaces, Writes (className s) fun final octets =>
      Reads (readClassName final) octets (Text.replaceChar '/' '.' s) := by
    intro s hs
    have htext := h.texts s (by simp [Outline.texts, hs])
    exact (writes_className htext).mono fun _ _ hnames => hnames.reads
  have hfield := fun m hm => h.writes_member (m := m) (List.mem_append_left c.methods hm)
  have hmethod := fun m hm => h.writes_member (m := m) (List.mem_append_right c.fields hm)
  have hsignature : ∀ s ∈ (firstSignature c.signatures "").toList,
      Writes (PoolWriter.signature s) fun final octets =>
        Reads (readClassAttribute final) octets (.signature s) := by
    intro s hs
    obtain ⟨entry, hentry, rfl⟩ := mem_of_firstSignature (Option.mem_toList.1 hs)
    exact (writes_signature (h.signature_lt entry hentry)).mono fun _ _ hreads => hreads.2
  -- What is written is followed in its order; the hypotheses on the parts then come last first.
  unfold PoolWriter.body
  apply (writes_className hname).bind
  intro name
  apply (writes_superclass hsuperclass).bind
  intro parent
  apply (writes_counted hinterface h.interfaces).bind
  intro interfaces
  apply (writes_counted hfield h.fields).bind
  intro fields
  apply (writes_counted hmethod h.methods).bind
  intro methods
  rw [lookup_eq_firstSignature]
  apply (writes_each hsignature).bind
  intro signature
  apply (writes_nestings (fun e he => h.writes_nesting he) h.nestings).bind
  intro inner
  apply Writes.pure
  intro final hinner hsignature hmethods hfields hinterfaces hparent hname
  have hattributes : Reads (ByteReader.counted (readClassAttribute final))
      (bigEndian 2 c.attributes.length ++ (signature ++ inner)) c.attributes :=
    (hsignature.append hinner).counted c.length_attributes_lt
  have hclass := hattributes.map fun as =>
    { c.classFile with
      nestings := as.flatMap Attribute.nestings?, signature := Attribute.lastSignature as }
  rw [attributes_nestings, attributes_lastSignature, length_attributes] at hclass
  simp only [List.append_assoc]
  exact (reads_number h.access).bind (hname.reads.bind (hparent.reads_then
    (hinterfaces.bind (hfields.bind (hmethods.bind hclass)))))

end Outline

theorem parse_of_reads {octets : Bytes} {c : ClassFile} (h : Reads readClass octets c) :
    parse octets = .ok c := by
  have hread := h 0 []
  rw [List.append_nil] at hread
  show (readClass _).map Prod.fst = _
  rw [hread]
  rfl

/-- A class file that is written is read back as the class of its outline. -/
theorem parse_encode {c : Outline} (h : c.Fits) : parse c.encode = .ok c.classFile := by
  have hempty : ConstantPool.Sound [] := fun d hd => absurd hd List.not_mem_nil
  obtain ⟨hsound, _, hmeans⟩ := h.writes_body [] hempty
  have hbody := hmeans _ (List.prefix_refl _) h.constants
  have hpool := reads_pool (hsound.fits h.constants) h.constants
  have hclass : Reads readClass c.encode c.classFile := by
    have hparts := reads_class hpool hbody
    simp only [List.append_assoc] at hparts
    unfold Outline.encode
    simp only [List.append_assoc]
    exact hparts
  exact parse_of_reads hclass

/-- A generic class inside another one, with a field, an overloaded method and signatures of which
two have the same name. -/
def nodeOutline : Outline where
  access := 0x21
  name := "demo/Tree$Node"
  superclass := some "java/lang/Object"
  interfaces := ["java/lang/Comparable"]
  fields := [(2, "value", "Ljava/lang/Object;")]
  methods := [(1, "value", "()Ljava/lang/Object;"), (1, "value", "(I)V")]
  nestings := [("demo/Tree$Node", "demo/Tree", "Node", 9)]
  signatures := [("value", "TE;"), ("", "<E:Ljava/lang/Object;>Ljava/lang/Object;"),
    ("value", "()TE;")]

theorem fits_nodeOutline : nodeOutline.Fits where
  access := by decide
  memberAccess := by decide
  nestingAccess := by decide
  texts := by decide
  interfaces := by decide
  fields := by decide
  methods := by decide
  nestings := by decide
  constants := by decide

theorem parse_encode_nodeOutline : nodeOutline.Fits ∧
    parse nodeOutline.encode = .ok nodeOutline.classFile :=
  ⟨fits_nodeOutline, parse_encode fits_nodeOutline⟩

end Renaming.Java.ClassFile
