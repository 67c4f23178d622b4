/-!
# Decimal text of floating-point numbers

The fewest digits that read back as a number, and among those the nearest. Two notations of them are
used: the plain one never has an exponent and the data one always has a point or an exponent.
-/

namespace Renaming.Decimal

/-- A finite positive number `mantissa * 2 ^ (exponent - 1075)`. -/
structure Binary where
  mantissa : Nat
  exponent : Nat

def Binary.ofBits (bits : Nat) : Binary :=
  let fraction := bits % 0x10000000000000
  let field := bits / 0x10000000000000 % 0x800
  if field = 0 then ⟨fraction, 1⟩ else ⟨0x10000000000000 + fraction, field⟩

/-- A positive fraction. -/
structure Ratio where
  num : Nat
  den : Nat

def Ratio.lt (a b : Ratio) : Bool := a.num * b.den < b.num * a.den

def Ratio.le (a b : Ratio) : Bool := a.num * b.den ≤ b.num * a.den

/-- `n * 2 ^ (e - 1077)`: quarters of a unit in the last place. -/
def quarters (n e : Nat) : Ratio :=
  if 1077 ≤ e then ⟨n * Nat.pow 2 (e - 1077), 1⟩ else ⟨n, Nat.pow 2 (1077 - e)⟩

/-- The numbers that round to a given one; the ends belong to it if the mantissa is even. -/
structure Interval where
  low : Ratio
  high : Ratio
  closed : Bool

def Binary.interval (b : Binary) : Interval :=
  let below := if b.mantissa = 0x10000000000000 && 1 < b.exponent then 1 else 2
  ⟨quarters (4 * b.mantissa - below) b.exponent, quarters (4 * b.mantissa + 2) b.exponent,
    b.mantissa % 2 = 0⟩

def Interval.contains (i : Interval) (r : Ratio) : Bool :=
  if i.closed then i.low.le r && r.le i.high else i.low.lt r && r.lt i.high

/-- The digits of a decimal number, and the power of ten of the last one. -/
structure Digits where
  value : Nat
  power : Int
  deriving DecidableEq, Repr

/-- `value * 10 ^ power` as a fraction. -/
def Digits.ratio (d : Digits) : Ratio :=
  if 0 ≤ d.power then ⟨d.value * Nat.pow 10 d.power.toNat, 1⟩
  else ⟨d.value, Nat.pow 10 (-d.power).toNat⟩

/-- The whole part of `r / 10 ^ power`. -/
def scaled (r : Ratio) (power : Int) : Nat :=
  if 0 ≤ power then r.num / (r.den * Nat.pow 10 power.toNat)
  else r.num * Nat.pow 10 (-power).toNat / r.den

def digitCount (n : Nat) : Nat := (Nat.toDigits 10 n).length

/-- The power of ten of the first digit of a positive fraction. -/
def leadingPower (r : Ratio) : Int :=
  let guess : Int := (digitCount r.num : Int) - (digitCount r.den : Int)
  if scaled r guess = 0 then guess - 1 else guess

/-- Which of two neighbours on a decimal grid is nearer to `r`; a tie goes to the even one. -/
def nearer (r : Ratio) (low : Digits) : Digits :=
  let high : Digits := ⟨low.value + 1, low.power⟩
  let middle : Ratio := ⟨(2 * low.value + 1) * low.ratio.num, 2 * low.value * low.ratio.den⟩
  if low.value = 0 then high
  else if r.lt middle then low
  else if middle.lt r then high
  else if low.value % 2 = 0 then low else high

/-- The number with `count` digits that reads back, if there is one. -/
def withDigits (r : Ratio) (i : Interval) (count : Nat) : Option Digits :=
  let power := leadingPower r - (count : Int) + 1
  let low : Digits := ⟨scaled r power, power⟩
  let high : Digits := ⟨low.value + 1, power⟩
  match i.contains low.ratio, i.contains high.ratio with
  | true, true => some (nearer r low)
  | true, false => some low
  | false, true => some high
  | false, false => none

def shortest (b : Binary) : Digits :=
  let r := quarters (4 * b.mantissa) b.exponent
  let i := b.interval
  ((List.range 17).findSome? fun n => withDigits r i (n + 1)).getD
    ⟨scaled r (leadingPower r - 16), leadingPower r - 16⟩

def zeros (n : Nat) : String := String.ofList (List.replicate n '0')

/-- Digits with a point where it belongs; a whole number has none. -/
def positional (d : Digits) : String :=
  let text := toString d.value
  if 0 ≤ d.power then text ++ zeros d.power.toNat
  else
    let places := (-d.power).toNat
    if places < text.length then
      String.ofList (text.toList.take (text.length - places)) ++ "." ++
        String.ofList (text.toList.drop (text.length - places))
    else "0." ++ zeros (places - text.length) ++ text

/-- Digits with an exponent after the first of them. -/
def scientific (d : Digits) : String :=
  let text := toString d.value
  let exponent := d.power + (text.length : Int) - 1
  let tail := String.ofList (text.toList.drop 1)
  String.ofList (text.toList.take 1) ++ (if tail.isEmpty then "" else "." ++ tail) ++ "e" ++
    toString exponent

def isNegative (x : Float) : Bool := x.toBits.toNat / 0x8000000000000000 = 1

def magnitude (x : Float) : Binary := Binary.ofBits x.toBits.toNat

def isZero (x : Float) : Bool := (magnitude x).mantissa = 0

/-- The notation in messages: no exponent, and no point in a whole number. -/
def plain (x : Float) : String :=
  if x.isNaN then "NaN"
  else
    let text :=
      if x.isInf then "inf" else if isZero x then "0" else positional (shortest (magnitude x))
    if isNegative x then "-" ++ text else text

/-- The notation in data: a point or an exponent in every number, an exponent outside the range
from 0.00001 up to sixteen digits. What is no number has none. -/
def data? (x : Float) : Option String :=
  if x.isNaN || x.isInf then none
  else
    let text :=
      if isZero x then "0.0"
      else
        let d := shortest (magnitude x)
        let point : Int := d.power + (digitCount d.value : Int)
        if -5 < point && point ≤ 16 then
          if 0 ≤ d.power then positional d ++ ".0" else positional d
        else scientific d
    some (if isNegative x then "-" ++ text else text)

/-- Powers of ten beyond this one, up or down, have no finite positive value. -/
def beyond : Nat := 400

/-- A decimal number in text: digits with at most one point, and perhaps an exponent. -/
def readUnsigned (cs : List Char) : Option Float :=
  let isDigit (c : Char) : Bool := '0' ≤ c && c ≤ '9'
  let value (ds : List Char) : Nat := ds.foldl (fun n c => 10 * n + (c.toNat - '0'.toNat)) 0
  let whole := cs.takeWhile isDigit
  let rest := cs.dropWhile isDigit
  let (fraction, rest) :=
    match rest with
    | '.' :: more => (more.takeWhile isDigit, more.dropWhile isDigit)
    | _ => ([], rest)
  let exponent? : Option Int :=
    match rest with
    | [] => some 0
    | e :: more =>
      if e = 'e' || e = 'E' then
        let (negative, ds) :=
          match more with
          | '-' :: ds => (true, ds)
          | '+' :: ds => (false, ds)
          | ds => (false, ds)
        if ds.isEmpty || !ds.all isDigit then none
        else some (if negative then -(value ds : Int) else (value ds : Int))
      else none
  if whole.isEmpty && fraction.isEmpty then none
  else
    exponent?.map fun e =>
      let power := e - (fraction.length : Int)
      let digits := value (whole ++ fraction)
      let point := power + (digitCount digits : Int)
      if digits = 0 || point < -beyond then 0.0
      else if (beyond : Int) < point then 1.0 / 0.0
      else if 0 ≤ power then Float.ofScientific digits false power.toNat
      else Float.ofScientific digits true (-power).toNat

/-- Reads a number, with a sign or not; infinity and not-a-number are spelled out. -/
def read (s : String) : Option Float :=
  let unsigned (cs : List Char) : Option Float :=
    let word := (String.ofList cs).toLower
    if word = "nan" then some (0.0 / 0.0)
    else if word = "inf" || word = "infinity" then some (1.0 / 0.0)
    else readUnsigned cs
  match s.toList with
  | '-' :: cs => (unsigned cs).map fun x => -x
  | '+' :: cs => unsigned cs
  | cs => unsigned cs

end Renaming.Decimal
