import Renaming.Java.ClassFile

/-!
# Reading class files

A cursor runs once over the octets. Code and unknown attributes are stepped over; a file that ends
early is truncated at the place where the octets ran out.
-/

namespace Renaming.Java.ClassFile

structure Cursor where
  offset : Nat
  rest : Bytes

/-- A step of reading: it takes octets off the cursor or fails. -/
abbrev ByteReader := StateT Cursor (Except ReadError)

namespace ByteReader

def fail (e : ReadError) : ByteReader α := fun _ => .error e

/-- The next `n` octets. -/
def take (n : Nat) : ByteReader Bytes := fun c =>
  let taken := c.rest.take n
  if taken.length = n then .ok (taken, ⟨c.offset + n, c.rest.drop n⟩)
  else .error (.truncated c.offset)

/-- An unsigned number of `n` octets, the highest first. -/
def number (n : Nat) : ByteReader Nat := do
  let bytes ← take n
  pure (bytes.foldl (fun value b => value * 256 + b.toNat) 0)

def lift (e : Except ReadError α) : ByteReader α :=
  match e with
  | .ok a => pure a
  | .error e => fail e

def times (read : ByteReader α) : Nat → ByteReader (List α)
  | 0 => pure []
  | n + 1 => do
    let a ← read
    let as ← times read n
    pure (a :: as)

/-- A count of two octets and as many values. -/
def counted (read : ByteReader α) : ByteReader (List α) := do
  let n ← number 2
  times read n

end ByteReader

open ByteReader

/-- The constant at the given slot. -/
def readConstant (index : Nat) : ByteReader Constant := do
  let tag ← number 1
  match tag with
  | 1 => do
    let length ← number 2
    let bytes ← take length
    pure (.text bytes.lossyText)
  | 7 => do
    let name ← number 2
    pure (.classAt name)
  | tag =>
    match Constant.payloadSize? tag with
    | some size => do
      let payload ← take size
      pure (.other tag payload)
    | none => fail (.badTag tag index)

/-- The constants of the given number of slots, the first at `index`. -/
def readConstants : Nat → Nat → ByteReader ConstantPool
  | 0, _ => pure []
  | 1, index => do
    let c ← readConstant index
    pure [c]
  | slots + 2, index => do
    let c ← readConstant index
    if c.isWide then
      let rest ← readConstants slots (index + 2)
      pure (c :: .unused :: rest)
    else
      let rest ← readConstants (slots + 1) (index + 1)
      pure (c :: rest)

def readPool : ByteReader ConstantPool := do
  let count ← number 2
  readConstants (count - 1) 1

inductive Attribute where
  | signature (text : String)
  | nestings (entries : List Nesting)
  | skipped

namespace Attribute

def signature? : Attribute → Option String
  | signature text => some text
  | _ => none

def nestings? : Attribute → List Nesting
  | nestings entries => entries
  | _ => []

/-- The last signature among the attributes. -/
def lastSignature (attributes : List Attribute) : Option String :=
  (attributes.filterMap signature?).getLast?

end Attribute

def readText (pool : ConstantPool) : ByteReader String := do
  let i ← number 2
  lift (pool.text i)

def readClassName (pool : ConstantPool) : ByteReader String := do
  let i ← number 2
  lift (pool.className i)

def readNesting (pool : ConstantPool) : ByteReader Nesting := do
  let inner ← readClassName pool
  let outer ← number 2
  let outer ← lift (pool.className? outer)
  let simple ← number 2
  let simple ← lift (pool.text? simple)
  let access ← number 2
  pure ⟨inner, outer, simple, access⟩

def readMemberAttribute (pool : ConstantPool) : ByteReader Attribute := do
  let name ← readText pool
  let length ← number 4
  if name = "Signature" then
    let text ← readText pool
    pure (.signature text)
  else
    let _ ← take length
    pure .skipped

def readClassAttribute (pool : ConstantPool) : ByteReader Attribute := do
  let name ← readText pool
  let length ← number 4
  if name = "Signature" then
    let text ← readText pool
    pure (.signature text)
  else if name = "InnerClasses" then
    let entries ← counted (readNesting pool)
    pure (.nestings entries)
  else
    let _ ← take length
    pure .skipped

def readMember (pool : ConstantPool) : ByteReader Member := do
  let access ← number 2
  let name ← readText pool
  let descriptor ← readText pool
  let attributes ← counted (readMemberAttribute pool)
  pure ⟨access, name, descriptor, Attribute.lastSignature attributes⟩

def readClass : ByteReader ClassFile := do
  let word ← number 4
  if word ≠ magic then fail .badMagic
  let _ ← number 2
  let _ ← number 2
  let pool ← readPool
  let access ← number 2
  let name ← readClassName pool
  let superclass ← number 2
  let superclass ← lift (pool.className? superclass)
  let interfaces ← counted (readClassName pool)
  let fields ← counted (readMember pool)
  let methods ← counted (readMember pool)
  let attributes ← counted (readClassAttribute pool)
  pure
    { access, name, superclass, interfaces, fields, methods
      nestings := attributes.flatMap Attribute.nestings?
      signature := Attribute.lastSignature attributes }

/-- The class that the octets start with. -/
def parse (bytes : Bytes) : Except ReadError ClassFile :=
  (readClass.run ⟨0, bytes⟩).map Prod.fst

end Renaming.Java.ClassFile
