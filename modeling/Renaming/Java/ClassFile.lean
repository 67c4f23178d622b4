import Renaming.Bytes

/-!
# Class files

What member lookup needs of a compiled class: its name, its supertypes, its members with their
descriptors, the nesting of classes it knows of, and generic signatures. Names are binary names with
dots.
-/

namespace Renaming.Java

/-- Access flags of classes and members. -/
inductive AccessFlag where
  | isPrivate
  | isStatic
  | bridge
  | varargs
  | interface
  | isAbstract
  | synthetic
  | annotationType
  | enum
  deriving DecidableEq, Repr

/-- The place of a flag among the sixteen access bits. -/
def AccessFlag.bit : AccessFlag → Nat
  | isPrivate => 1
  | isStatic => 3
  | bridge => 6
  | varargs => 7
  | interface => 9
  | isAbstract => 10
  | synthetic => 12
  | annotationType => 13
  | enum => 14

/-- Whether the access bits hold the flag. -/
def AccessFlag.isIn (flag : AccessFlag) (access : Nat) : Bool := access.testBit flag.bit

namespace ClassFile

structure Member where
  access : Nat
  name : String
  descriptor : String
  signature : Option String
  deriving DecidableEq, Repr

def Member.has (m : Member) (flag : AccessFlag) : Bool := flag.isIn m.access

/-- What a class records about the nesting of a class. -/
structure Nesting where
  inner : String
  outer : Option String
  simple : Option String
  access : Nat
  deriving DecidableEq, Repr

end ClassFile

structure ClassFile where
  access : Nat
  name : String
  superclass : Option String
  interfaces : List String
  fields : List ClassFile.Member
  methods : List ClassFile.Member
  nestings : List ClassFile.Nesting
  signature : Option String
  deriving DecidableEq, Repr

namespace ClassFile

def has (c : ClassFile) (flag : AccessFlag) : Bool := flag.isIn c.access

def magic : Nat := 0xCAFEBABE

inductive ReadError where
  | badMagic
  | truncated (offset : Nat)
  | badTag (tag index : Nat)
  | badConstant (index : Nat)
  deriving DecidableEq, Repr

def ReadError.message : ReadError → String
  | badMagic => "not a class file (bad magic)"
  | truncated offset => "class file truncated at byte " ++ toString offset
  | badTag tag index =>
    "unknown constant pool tag " ++ toString tag ++ " at entry " ++ toString index
  | badConstant index =>
    "constant pool entry " ++ toString index ++ " is missing or has the wrong type"

/-- A constant: a text, a class by the slot of its name, or one whose content is of no interest. -/
inductive Constant where
  | text (value : String)
  | classAt (name : Nat)
  | other (tag : Nat) (payload : Bytes)
  /-- The second slot of a constant that takes two. -/
  | unused
  deriving DecidableEq, Repr

/-- How many octets follow the tag of a constant whose content is of no interest. -/
def Constant.payloadSize? : Nat → Option Nat
  | 3 | 4 | 9 | 10 | 11 | 12 | 17 | 18 => some 4
  | 5 | 6 => some 8
  | 8 | 16 | 19 | 20 => some 2
  | 15 => some 3
  | _ => none

/-- Eight-byte numbers take two slots. -/
def Constant.isWide : Constant → Bool
  | other 5 _ | other 6 _ => true
  | _ => false

/-- The constants of a class from slot 1 on. -/
abbrev ConstantPool := List Constant

namespace ConstantPool

def slot? (pool : ConstantPool) : Nat → Option Constant
  | 0 => none
  | i + 1 => pool[i]?

def text (pool : ConstantPool) (i : Nat) : Except ReadError String :=
  match pool.slot? i with
  | some (.text s) => .ok s
  | _ => .error (.badConstant i)

/-- The name of the class at slot `i`, with dots. -/
def className (pool : ConstantPool) (i : Nat) : Except ReadError String :=
  match pool.slot? i with
  | some (.classAt name) => (pool.text name).map (Text.replaceChar '/' '.')
  | _ => .error (.badConstant i)

/-- Slot 0 stands for no class. -/
def className? (pool : ConstantPool) (i : Nat) : Except ReadError (Option String) :=
  if i = 0 then .ok none else (pool.className i).map some

/-- Slot 0 stands for no text. -/
def text? (pool : ConstantPool) (i : Nat) : Except ReadError (Option String) :=
  if i = 0 then .ok none else (pool.text i).map some

end ConstantPool

end ClassFile

end Renaming.Java
