import Renaming.Bytes

/-!
# Deflated data

A decoder for the deflate format: blocks that are stored, or coded with fixed or with transmitted
prefix codes, in which lengths and distances refer back to the output.
-/

namespace Renaming.Zip

/-- The unread bits of an input, the low bit of an octet first. -/
abbrev Bits := List Bool

def Bits.ofBytes (b : Bytes) : Bits :=
  b.flatMap fun octet => (List.range 8).map fun i => octet.toNat.testBit i

/-- A number of `count` bits, low bit first. -/
def takeNumber : Nat → Bits → Option (Nat × Bits)
  | 0, bits => some (0, bits)
  | _ + 1, [] => none
  | count + 1, bit :: rest =>
    (takeNumber count rest).map fun (n, rest) => (2 * n + bit.toNat, rest)

/-- A symbol of a prefix code with its length and its code word. -/
structure CodeWord where
  length : Nat
  code : Nat
  symbol : Nat

/-- The canonical code with the given word lengths; a length of zero leaves a symbol out. -/
def canonicalCode (lengths : List Nat) : List CodeWord :=
  let indexed := lengths.zipIdx
  let step (state : Nat × List CodeWord) (length : Nat) : Nat × List CodeWord :=
    let symbols := indexed.filterMap fun (l, s) => if l == length then some s else none
    let words := symbols.zipIdx.map fun (s, i) => ⟨length, state.1 + i, s⟩
    (2 * (state.1 + symbols.length), state.2 ++ words)
  (((List.range 16).drop 1).foldl step (0, [])).2

/-- Reads a code word, high bit first, with at most `fuel` more bits. -/
def takeSymbol (code : List CodeWord) : Nat → Nat → Nat → Bits → Option (Nat × Bits)
  | 0, _, _, _ => none
  | _, _, _, [] => none
  | fuel + 1, length, value, bit :: rest =>
    let length := length + 1
    let value := 2 * value + bit.toNat
    match code.find? fun w => w.length == length && w.code == value with
    | some w => some (w.symbol, rest)
    | none => takeSymbol code fuel length value rest

def symbolOf (code : List CodeWord) (bits : Bits) : Option (Nat × Bits) :=
  takeSymbol code 15 0 0 bits

/-- The base and the number of extra bits of each length symbol from 257 on. -/
def lengthBases : List (Nat × Nat) :=
  [(3, 0), (4, 0), (5, 0), (6, 0), (7, 0), (8, 0), (9, 0), (10, 0), (11, 1), (13, 1), (15, 1),
    (17, 1), (19, 2), (23, 2), (27, 2), (31, 2), (35, 3), (43, 3), (51, 3), (59, 3), (67, 4),
    (83, 4), (99, 4), (115, 4), (131, 5), (163, 5), (195, 5), (227, 5), (258, 0)]

/-- The base and the number of extra bits of each distance symbol. -/
def distanceBases : List (Nat × Nat) :=
  [(1, 0), (2, 0), (3, 0), (4, 0), (5, 1), (7, 1), (9, 2), (13, 2), (17, 3), (25, 3), (33, 4),
    (49, 4), (65, 5), (97, 5), (129, 6), (193, 6), (257, 7), (385, 7), (513, 8), (769, 8),
    (1025, 9), (1537, 9), (2049, 10), (3073, 10), (4097, 11), (6145, 11), (8193, 12), (12289, 12),
    (16385, 13), (24577, 13)]

def takeBased (bases : List (Nat × Nat)) (symbol : Nat) (bits : Bits) : Option (Nat × Bits) := do
  let (base, extra) ← bases[symbol]?
  let (n, bits) ← takeNumber extra bits
  return (base + n, bits)

/-- Appends `count` octets, each the one `distance` before the end of the output. -/
def copyBack (output : Array UInt8) (distance : Nat) : Nat → Option (Array UInt8)
  | 0 => some output
  | count + 1 =>
    if distance == 0 || output.size < distance then none
    else
      match output[output.size - distance]? with
      | none => none
      | some b => copyBack (output.push b) distance count

def inflateCoded (literals distances : List CodeWord) :
    Nat → Array UInt8 → Bits → Option (Array UInt8 × Bits)
  | 0, _, _ => none
  | fuel + 1, output, bits => do
    let (symbol, bits) ← symbolOf literals bits
    if symbol < 256 then
      inflateCoded literals distances fuel (output.push (UInt8.ofNat symbol)) bits
    else if symbol == 256 then return (output, bits)
    else
      let (length, bits) ← takeBased lengthBases (symbol - 257) bits
      let (code, bits) ← symbolOf distances bits
      let (distance, bits) ← takeBased distanceBases code bits
      let output ← copyBack output distance length
      inflateCoded literals distances fuel output bits

def fixedLiterals : List CodeWord :=
  canonicalCode (List.replicate 144 8 ++ List.replicate 112 9 ++ List.replicate 24 7 ++
    List.replicate 8 8)

def fixedDistances : List CodeWord := canonicalCode (List.replicate 30 5)

/-- The order in which the lengths of the length code are sent. -/
def lengthOrder : List Nat :=
  [16, 17, 18, 0, 8, 7, 9, 6, 10, 5, 11, 4, 12, 3, 13, 2, 14, 1, 15]

def takeNumbers (width : Nat) : Nat → Bits → Option (List Nat × Bits)
  | 0, bits => some ([], bits)
  | count + 1, bits => do
    let (n, bits) ← takeNumber width bits
    let (ns, bits) ← takeNumbers width count bits
    return (n :: ns, bits)

/-- Reads word lengths until there are `count` of them. -/
def takeLengths (code : List CodeWord) (count : Nat) :
    Nat → List Nat → Bits → Option (List Nat × Bits)
  | 0, _, _ => none
  | fuel + 1, lengths, bits =>
    if count ≤ lengths.length then some (lengths, bits)
    else do
      let (symbol, bits) ← symbolOf code bits
      if symbol < 16 then takeLengths code count fuel (lengths ++ [symbol]) bits
      else
        let (value, base, width) ←
          match symbol with
          | 16 => lengths.getLast?.map fun last => (last, 3, 2)
          | 17 => some (0, 3, 3)
          | _ => some (0, 11, 7)
        let (n, bits) ← takeNumber width bits
        takeLengths code count fuel (lengths ++ List.replicate (base + n) value) bits

def takeCodes (bits : Bits) : Option (List CodeWord × List CodeWord × Bits) := do
  let (literals, bits) ← takeNumber 5 bits
  let (distances, bits) ← takeNumber 5 bits
  let (count, bits) ← takeNumber 4 bits
  let (sent, bits) ← takeNumbers 3 (count + 4) bits
  let paired := lengthOrder.zip sent
  let code := canonicalCode ((List.range 19).map fun s => (paired.lookup s).getD 0)
  let total := literals + 257 + distances + 1
  let (lengths, bits) ← takeLengths code total (total + 1) [] bits
  return (canonicalCode (lengths.take (literals + 257)),
    canonicalCode ((lengths.drop (literals + 257)).take (distances + 1)), bits)

def takeOctets : Nat → Array UInt8 → Bits → Option (Array UInt8 × Bits)
  | 0, output, bits => some (output, bits)
  | count + 1, output, bits => do
    let (n, bits) ← takeNumber 8 bits
    takeOctets count (output.push (UInt8.ofNat n)) bits

/-- Reads blocks up to the last one; `total` is the number of bits of the whole input. -/
def inflateBlocks (total : Nat) : Nat → Array UInt8 → Bits → Option (Array UInt8)
  | 0, _, _ => none
  | fuel + 1, output, bits => do
    let (final, bits) ← takeNumber 1 bits
    let (kind, bits) ← takeNumber 2 bits
    let (output, bits) ←
      match kind with
      | 0 => do
        let bits := bits.drop (bits.length % 8)
        let (length, bits) ← takeNumber 16 bits
        takeOctets length output (bits.drop 16)
      | 1 => inflateCoded fixedLiterals fixedDistances total output bits
      | 2 => do
        let (literals, distances, bits) ← takeCodes bits
        inflateCoded literals distances total output bits
      | _ => none
    if final == 1 then return output else inflateBlocks total fuel output bits

/-- The data that deflated octets stand for. -/
def inflate (content : Bytes) : Option Bytes :=
  let bits := Bits.ofBytes content
  (inflateBlocks (bits.length + 1) (bits.length + 1) #[] bits).map Array.toList

end Renaming.Zip
