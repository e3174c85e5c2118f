import Mathlib.Data.Int.Order.Basic
import ServerCore.Core.Charconv
import ServerCore.Foundations.Binary64

/-! Numbers on the JSON wire: the `<charconv>` conversions and the underflow test of
the parser. -/

namespace ServerCore.Protocol

open ServerCore.Core ServerCore.Foundations

/-- What the standard leaves to its implementation: the shortest form `to_chars` writes for a
double (`none` when it does not fit the buffer), and whether `from_chars` reports a token as out of
range whose value is below the normal doubles. -/
structure Charconv where
  toChars : UInt64 → Option Bytes
  reportsUnderflow : Bytes → Bool

def digitsValue (digits : Bytes) : ℕ := digits.foldl (fun acc b => acc * 10 + (b.toNat - 48)) 0

def fromCharsUInt64 (text : Bytes) : Option UInt64 :=
  if digitsValue text < 2 ^ 64 then some (UInt64.ofNat (digitsValue text)) else none

/-- `std::from_chars` into an `int64_t`, for a text with a minus sign. -/
def fromCharsNegative (text : Bytes) : Option Int64 :=
  let magnitude := digitsValue (text.drop 1)
  if magnitude ≤ 2 ^ 63 then some (Int64.ofInt (-magnitude)) else none

structure NumberParts where
  negative : Bool
  integer : Bytes
  fraction : Bytes
  exponentNegative : Bool
  exponent : Bytes

def splitExponent (rest : Bytes) : Bool × Bytes :=
  match rest with
  | mark :: rest =>
    if mark = 101 || mark = 69 then
      match rest with
      | sign :: digits =>
        if sign = 43 || sign = 45 then (sign = 45, digits.takeWhile isDigit)
        else (false, (sign :: digits).takeWhile isDigit)
      | [] => (false, [])
    else (false, [])
  | [] => (false, [])

def splitFraction (rest : Bytes) : Bytes × Bytes :=
  match rest with
  | point :: rest => if point = 46 then (rest.takeWhile isDigit, rest.dropWhile isDigit) else ([], point :: rest)
  | [] => ([], [])

def splitNumber (token : Bytes) : NumberParts :=
  let negative := token.head? = some 45
  let digits := if token.head? = some 45 then token.drop 1 else token
  let (fraction, rest) := splitFraction (digits.dropWhile isDigit)
  let (exponentNegative, exponent) := splitExponent rest
  ⟨negative, digits.takeWhile isDigit, fraction, exponentNegative, exponent⟩

def NumberParts.scale (t : NumberParts) : ℤ :=
  (if t.exponentNegative then -(digitsValue t.exponent : ℤ) else digitsValue t.exponent) -
    t.fraction.length

def NumberParts.numerator (t : NumberParts) : ℕ :=
  digitsValue (t.integer ++ t.fraction) * 10 ^ t.scale.toNat

def NumberParts.denominator (t : NumberParts) : ℕ := 10 ^ (-t.scale).toNat

def NumberParts.bits (t : NumberParts) : ℕ := Binary64.magnitudeBits t.numerator t.denominator

def signedBits (negative : Bool) (magnitude : ℕ) : UInt64 :=
  UInt64.ofNat ((if negative then Binary64.signBit else 0) + magnitude)

/-- `std::from_chars` into a `double`; `none` is `result_out_of_range`. -/
def fromCharsDouble (charconv : Charconv) (token : Bytes) : Option UInt64 :=
  let t := splitNumber token
  if Binary64.infinityBits ≤ t.bits then none
  else if t.numerator ≠ 0 ∧ t.bits < Binary64.normalBits ∧ charconv.reportsUnderflow token then none
  else some (signedBits t.negative t.bits)

def isFinite (bits : UInt64) : Bool := bits.toNat % Binary64.signBit < Binary64.infinityBits

def exponentLimit : ℤ := 100000000000000000

def saturatedExponent (digits : Bytes) : ℤ :=
  digits.foldl (fun exponent b => min (exponent * 10 + (b.toNat - 48 : ℕ)) exponentLimit) 0

def leadingPower (t : NumberParts) : Option ℤ :=
  match t.integer.findIdx? (· ≠ 48) with
  | some index => some (t.integer.length - 1 - index)
  | none => (t.fraction.findIdx? (· ≠ 48)).map fun (index : ℕ) => -1 - (index : ℤ)

def magnitudeBelowOne (token : Bytes) : Bool :=
  let t := splitNumber token
  match leadingPower t with
  | none => true
  | some leading =>
    let exponent := if t.exponentNegative then -saturatedExponent t.exponent
      else saturatedExponent t.exponent
    leading + exponent < 0

end ServerCore.Protocol
