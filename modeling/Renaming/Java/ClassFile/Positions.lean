import Renaming.Java.ClassFile.Reader

/-!
# Reading class files by position

The octets of a file stand in one row, and a position runs over them; the constants stand in a table
that has a slot for every number from 0 on. A reader breaks off where it looks at octets that are
not in the file or enters a constant into a slot that is not in the table.
-/

namespace Renaming.Java.ClassFile

/-- Why a reader by position ends early. -/
inductive ReadFault where
  | file (error : ReadError)
  /-- Octets of which some are not there. -/
  | octets (first last : Nat)
  /-- A slot that the table does not have. -/
  | slot (index : Nat)
  deriving DecidableEq, Repr

/-- A step of reading: it moves the position over octets of the file or ends early. -/
abbrev PositionReader := ReaderT Bytes (StateT Nat (Except ReadFault))

/-- The constants by slot. The slots that no constant begins in are unused, slot 0 among them. -/
abbrev ConstantTable := List Constant

namespace ConstantTable

def text (table : ConstantTable) (i : Nat) : Except ReadError String :=
  match table[i]? with
  | some (.text s) => .ok s
  | _ => .error (.badConstant i)

def className (table : ConstantTable) (i : Nat) : Except ReadError String :=
  match table[i]? with
  | some (.classAt name) => (table.text name).map (Text.replaceChar '/' '.')
  | _ => .error (.badConstant i)

def className? (table : ConstantTable) (i : Nat) : Except ReadError (Option String) :=
  if i = 0 then .ok none else (table.className i).map some

def text? (table : ConstantTable) (i : Nat) : Except ReadError (Option String) :=
  if i = 0 then .ok none else (table.text i).map some

end ConstantTable

namespace PositionReader

def fault (f : ReadFault) : PositionReader α := fun _ _ => .error f

def fail (e : ReadError) : PositionReader α := fault (.file e)

def lift (e : Except ReadError α) : PositionReader α :=
  match e with
  | .ok a => pure a
  | .error e => fail e

/-- The octets from one position up to another. -/
def slice (octets : Bytes) (first last : Nat) : PositionReader Bytes :=
  if first ≤ last && last ≤ octets.length then pure ((octets.drop first).take (last - first))
  else fault (.octets first last)

def octetAt (octets : Bytes) (i : Nat) : PositionReader UInt8 :=
  match octets[i]? with
  | some octet => pure octet
  | none => fault (.octets i (i + 1))

/-- The next `n` octets. -/
def take (n : Nat) : PositionReader Bytes := do
  let octets ← read
  let position ← get
  if position + n ≤ octets.length then
    let taken ← slice octets position (position + n)
    set (position + n)
    pure taken
  else fail (.truncated position)

/-- An unsigned number of `n` octets, the highest first. -/
def number (n : Nat) : PositionReader Nat := do
  let octets ← take n
  (List.range n).foldlM (fun value i => do
    let octet ← octetAt octets i
    pure (value * 256 + octet.toNat)) 0

def times (read : PositionReader α) : Nat → PositionReader (List α)
  | 0 => pure []
  | n + 1 => do
    let a ← read
    let as ← times read n
    pure (a :: as)

/-- A count of two octets and as many values. -/
def counted (read : PositionReader α) : PositionReader (List α) := do
  let n ← number 2
  times read n

/-- The constant at the given slot. -/
def constant (index : Nat) : PositionReader Constant := do
  let tag ← number 1
  match tag with
  | 1 => do
    let length ← number 2
    let octets ← take length
    pure (.text octets.lossyText)
  | 7 => do
    let name ← number 2
    pure (.classAt name)
  | tag =>
    match Constant.payloadSize? tag with
    | some size => do
      let payload ← take size
      pure (.other tag payload)
    | none => fail (.badTag tag index)

/-- Puts a constant into a slot of the table. -/
def enter (table : ConstantTable) (index : Nat) (c : Constant) : PositionReader ConstantTable :=
  if index < table.length then pure (table.set index c) else fault (.slot index)

/-- Fills the slots from `index` on; what follows a wide constant is left unused. -/
def fill (count index : Nat) (table : ConstantTable) : PositionReader ConstantTable := do
  if index < count then
    let c ← constant index
    let table ← enter table index c
    if c.isWide then fill count (index + 2) table else fill count (index + 1) table
  else pure table
termination_by count - index

def constantTable : PositionReader ConstantTable := do
  let count ← number 2
  fill count 1 (List.replicate (max count 1) .unused)

section Table

variable (table : ConstantTable)

def text : PositionReader String := do
  let i ← number 2
  lift (table.text i)

def className : PositionReader String := do
  let i ← number 2
  lift (table.className i)

def nesting : PositionReader Nesting := do
  let inner ← className table
  let outer ← number 2
  let outer ← lift (table.className? outer)
  let simple ← number 2
  let simple ← lift (table.text? simple)
  let access ← number 2
  pure ⟨inner, outer, simple, access⟩

def memberAttribute : PositionReader Attribute := do
  let name ← text table
  let length ← number 4
  if name = "Signature" then
    let text ← text table
    pure (.signature text)
  else
    let _ ← take length
    pure .skipped

def classAttribute : PositionReader Attribute := do
  let name ← text table
  let length ← number 4
  if name = "Signature" then
    let text ← text table
    pure (.signature text)
  else if name = "InnerClasses" then
    let entries ← counted (nesting table)
    pure (.nestings entries)
  else
    let _ ← take length
    pure .skipped

def member : PositionReader Member := do
  let access ← number 2
  let name ← text table
  let descriptor ← text table
  let attributes ← counted (memberAttribute table)
  pure ⟨access, name, descriptor, Attribute.lastSignature attributes⟩

end Table

def classFile : PositionReader ClassFile := do
  let word ← number 4
  if word ≠ magic then fail .badMagic
  let _ ← number 2
  let _ ← number 2
  let table ← constantTable
  let access ← number 2
  let name ← className table
  let superclass ← number 2
  let superclass ← lift (table.className? superclass)
  let interfaces ← counted (className table)
  let fields ← counted (member table)
  let methods ← counted (member table)
  let attributes ← counted (classAttribute table)
  pure
    { access, name, superclass, interfaces, fields, methods
      nestings := attributes.flatMap Attribute.nestings?
      signature := Attribute.lastSignature attributes }

end PositionReader

/-- The class that the octets start with, read by position. -/
def parseAt (octets : Bytes) : Except ReadFault ClassFile :=
  ((PositionReader.classFile.run octets).run 0).map Prod.fst

end Renaming.Java.ClassFile
