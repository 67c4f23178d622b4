import Renaming.Zip.Inflate

/-!
# Zip archives

Reading goes through the directory at the end of an archive, which says where each entry starts.
Writing stores entries as they are. An entry whose content does not fit its checksum is refused. The
checksum is the cyclic redundancy check with the reflected polynomial 0xEDB88320, computed bit by
bit.
-/

namespace Renaming

inductive ZipError where
  | invalid (reason : String)
  | unsupported (reason : String)
  | checksum
  | corrupt
  | short
  deriving DecidableEq, Repr

def ZipError.message : ZipError → String
  | invalid reason => "invalid Zip archive: " ++ reason
  | unsupported reason => "unsupported Zip archive: " ++ reason
  | checksum => "Invalid checksum"
  | corrupt => "corrupt deflate stream"
  | short => "failed to fill whole buffer"

structure ZipEntry where
  name : String
  content : Bytes
  deriving DecidableEq, Repr

def ZipEntry.isDirectory (e : ZipEntry) : Bool :=
  Text.endsWith "/" e.name || Text.endsWith "\\" e.name

namespace Zip

/-! ## Checksums -/

def crcBit (r : UInt32) : UInt32 :=
  if r &&& 1 == 1 then (r >>> 1) ^^^ 0xEDB88320 else r >>> 1

def crcByte (r : UInt32) (b : UInt8) : UInt32 :=
  crcBit (crcBit (crcBit (crcBit (crcBit (crcBit (crcBit (crcBit (r ^^^ b.toUInt32))))))))

def crc (content : Bytes) : UInt32 := content.foldl crcByte 0xFFFFFFFF ^^^ 0xFFFFFFFF

/-! ## Numbers -/

/-- A number of `count` octets, low octet first. -/
def littleEndian : Nat → Nat → Bytes
  | 0, _ => []
  | count + 1, n => UInt8.ofNat n :: littleEndian count (n / 256)

def readLittle (b : Bytes) : Nat := b.foldr (fun octet n => 256 * n + octet.toNat) 0

/-- The number of `width` octets at an offset of the content. -/
def number (width offset : Nat) (b : Bytes) : Except ZipError Nat :=
  let octets := (b.drop offset).take width
  if octets.length < width then .error .short else .ok (readLittle octets)

def octets (offset count : Nat) (b : Bytes) : Except ZipError Bytes :=
  let found := (b.drop offset).take count
  if found.length < count then .error .short else .ok found

def endMagic : Bytes := [0x50, 0x4B, 5, 6]

def directoryMagic : Bytes := [0x50, 0x4B, 1, 2]

def localMagic : Bytes := [0x50, 0x4B, 3, 4]

/-- The last offset at which an end record may start, scanning from `offset`. -/
def lastEnd (offset : Nat) (found : Option Nat) : Bytes → Option Nat
  | [] => found
  | b :: rest =>
    let isEnd := endMagic.isPrefixOf (b :: rest) && 22 ≤ rest.length + 1
    let here := if isEnd then some offset else found
    lastEnd (offset + 1) here rest

/-- A directory record: where its entry starts and what it says of it. -/
structure Record where
  name : String
  method : Nat
  check : Nat
  packed : Nat
  start : Nat

def readRecord (shift offset : Nat) (b : Bytes) : Except ZipError (Record × Nat) := do
  let magic ← octets offset 4 b
  if magic != directoryMagic then throw (.invalid "Invalid Central Directory header")
  let method ← number 2 (offset + 10) b
  let check ← number 4 (offset + 16) b
  let packed ← number 4 (offset + 20) b
  let nameLength ← number 2 (offset + 28) b
  let extraLength ← number 2 (offset + 30) b
  let commentLength ← number 2 (offset + 32) b
  let start ← number 4 (offset + 42) b
  let name ← octets (offset + 46) nameLength b
  return (⟨name.lossyText, method, check, packed, start + shift⟩,
    offset + 46 + nameLength + extraLength + commentLength)

def readRecords (shift : Nat) : Nat → Nat → Bytes → Except ZipError (List Record)
  | 0, _, _ => .ok []
  | count + 1, offset, b => do
    let (record, next) ← readRecord shift offset b
    let records ← readRecords shift count next b
    return record :: records

/-- The packed octets of an entry. -/
def locate (b : Bytes) (r : Record) : Except ZipError Bytes := do
  let magic ← octets r.start 4 b
  if magic != localMagic then throw (.invalid "Invalid local file header")
  let nameLength ← number 2 (r.start + 26) b
  let extraLength ← number 2 (r.start + 28) b
  if r.method != 0 && r.method != 8 then throw (.unsupported "Compression method not supported")
  return (b.drop (r.start + 30 + nameLength + extraLength)).take r.packed

/-- The content of an entry from its packed octets. -/
def unpack (r : Record) (packed : Bytes) : Except ZipError Bytes := do
  let content ←
    if r.method == 0 then .ok packed
    else
      match inflate packed with
      | some content => .ok content
      | none => .error .corrupt
  if (crc content).toNat != r.check then throw .checksum
  return content

def readEntry (b : Bytes) (r : Record) : Except ZipError ZipEntry := do
  let packed ← locate b r
  let content ← unpack r packed
  return ⟨r.name, content⟩

/-- The records of an archive, in the order of its directory. -/
def records (b : Bytes) : Except ZipError (List Record) := do
  if b.length < 22 then throw (.invalid "Invalid zip header")
  match lastEnd 0 none b with
  | none => throw (.invalid "Could not find central directory end")
  | some last =>
    if last + 22 + 65535 < b.length then throw (.invalid "Could not find central directory end")
    let count ← number 2 (last + 10) b
    let size ← number 4 (last + 12) b
    let offset ← number 4 (last + 16) b
    if last < size + offset then throw (.invalid "Invalid central directory size or offset")
    let shift := last - size - offset
    readRecords shift count (offset + shift) b

/-- The entries of an archive, in the order of its directory. -/
def decode (b : Bytes) : Except ZipError (List ZipEntry) := do
  let records ← records b
  records.mapM (readEntry b)

/-- The fields that an entry and its directory record share. -/
def sharedFields (e : ZipEntry) : Bytes :=
  let name := Bytes.ofText e.name
  littleEndian 2 20 ++ littleEndian 2 0x800 ++ littleEndian 2 0 ++ littleEndian 2 0 ++
    littleEndian 2 0x21 ++ littleEndian 4 (crc e.content).toNat ++
    littleEndian 4 e.content.length ++ littleEndian 4 e.content.length ++
    littleEndian 2 name.length ++ littleEndian 2 0

def localRecord (e : ZipEntry) : Bytes :=
  localMagic ++ sharedFields e ++ Bytes.ofText e.name ++ e.content

def directoryRecord (offset : Nat) (e : ZipEntry) : Bytes :=
  directoryMagic ++ littleEndian 2 20 ++ sharedFields e ++ littleEndian 2 0 ++
    littleEndian 2 0 ++ littleEndian 2 0 ++ littleEndian 4 0 ++ littleEndian 4 offset ++
    Bytes.ofText e.name

def directory : Nat → List ZipEntry → Bytes
  | _, [] => []
  | offset, e :: rest =>
    directoryRecord offset e ++ directory (offset + (localRecord e).length) rest

def endRecord (count size offset : Nat) : Bytes :=
  endMagic ++ littleEndian 2 0 ++ littleEndian 2 0 ++ littleEndian 2 count ++
    littleEndian 2 count ++ littleEndian 4 size ++ littleEndian 4 offset ++ littleEndian 2 0

/-- An archive with the given entries, stored without compression. -/
def encode (entries : List ZipEntry) : Bytes :=
  let body := entries.flatMap localRecord
  let dir := directory 0 entries
  body ++ dir ++ endRecord entries.length dir.length body.length

end Zip

end Renaming
