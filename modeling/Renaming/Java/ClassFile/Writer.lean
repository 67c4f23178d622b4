import Renaming.Java.ClassFile

/-!
# Writing class files

The shortest class file for a given outline. Each text and each class is put into the constant pool
once, at its first use.
-/

namespace Renaming.Java.ClassFile

/-- What to write; names are written as given, so with slashes. -/
structure Outline where
  access : Nat
  name : String
  superclass : Option String
  interfaces : List String
  fields : List (Nat × String × String)
  methods : List (Nat × String × String)
  nestings : List (String × String × String × Nat)
  /-- Signatures by member name; the empty name is the class itself. -/
  signatures : List (String × String)

/-- The low `n` octets of a number, the highest first. -/
def bigEndian : Nat → Nat → Bytes
  | 0, _ => []
  | n + 1, value => bigEndian n (value / 256) ++ [UInt8.ofNat (value % 256)]

def Constant.encode : Constant → Bytes
  | text s => 1 :: bigEndian 2 (Bytes.ofText s).length ++ Bytes.ofText s
  | classAt name => 7 :: bigEndian 2 name
  | other tag payload => UInt8.ofNat tag :: payload
  | unused => []

/-- Output that puts constants into the pool as it needs them. -/
abbrev PoolWriter := StateM ConstantPool

namespace PoolWriter

/-- The slot of a constant, a new one unless the pool holds it. -/
def slot (c : Constant) : PoolWriter Nat := fun pool =>
  match pool.idxOf? c with
  | some i => (i + 1, pool)
  | none => (pool.length + 1, pool ++ [c])

def text (s : String) : PoolWriter Bytes := return bigEndian 2 (← slot (.text s))

def className (name : String) : PoolWriter Bytes := do
  let name ← slot (.text name)
  let i ← slot (.classAt name)
  return bigEndian 2 i

def superclass : Option String → PoolWriter Bytes
  | none => return bigEndian 2 0
  | some name => className name

def each (write : α → PoolWriter Bytes) (items : List α) : PoolWriter Bytes := do
  return (← items.mapM write).flatten

/-- A count of two octets and the items. -/
def counted (write : α → PoolWriter Bytes) (items : List α) : PoolWriter Bytes := do
  return bigEndian 2 items.length ++ (← each write items)

def signature (text : String) : PoolWriter Bytes := do
  let name ← PoolWriter.text "Signature"
  let value ← PoolWriter.text text
  return name ++ bigEndian 4 2 ++ value

def member (signatures : List (String × String)) (m : Nat × String × String) :
    PoolWriter Bytes := do
  let name ← text m.2.1
  let descriptor ← text m.2.2
  let attributes ← counted signature (signatures.lookup m.2.1).toList
  return bigEndian 2 m.1 ++ name ++ descriptor ++ attributes

def nesting (e : String × String × String × Nat) : PoolWriter Bytes := do
  let inner ← className e.1
  let outer ← className e.2.1
  let simple ← text e.2.2.1
  return inner ++ outer ++ simple ++ bigEndian 2 e.2.2.2

def nestings : List (String × String × String × Nat) → PoolWriter Bytes
  | [] => return []
  | entries => do
    let name ← text "InnerClasses"
    let body ← counted nesting entries
    return name ++ bigEndian 4 body.length ++ body

/-- All that follows the constant pool. -/
def body (c : Outline) : PoolWriter Bytes := do
  let name ← className c.name
  let parent ← superclass c.superclass
  let interfaces ← counted className c.interfaces
  let fields ← counted (member c.signatures) c.fields
  let methods ← counted (member c.signatures) c.methods
  let own := (c.signatures.lookup "").toList
  let signature ← each signature own
  let inner ← nestings c.nestings
  let attributes := own.length + if c.nestings.isEmpty then 0 else 1
  return bigEndian 2 c.access ++ name ++ parent ++ interfaces ++ fields ++ methods ++
    bigEndian 2 attributes ++ signature ++ inner

end PoolWriter

/-- The octets of a class file, in the format of version 52. -/
def Outline.encode (c : Outline) : Bytes :=
  let (body, pool) := (PoolWriter.body c).run []
  bigEndian 4 magic ++ bigEndian 2 0 ++ bigEndian 2 52 ++ bigEndian 2 (pool.length + 1) ++
    pool.flatMap Constant.encode ++ body

end Renaming.Java.ClassFile
