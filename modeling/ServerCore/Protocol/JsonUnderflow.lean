import Mathlib.Algebra.Order.Field.Basic
import Mathlib.Data.Rat.Cast.Order
import Mathlib.Tactic.FieldSimp
import Mathlib.Tactic.Positivity
import ServerCore.Protocol.JsonMagnitude

/-! `MagnitudeBelowOne` with its 64-bit arithmetic checked, and the rational number it decides about. -/

namespace ServerCore.Protocol.Json

open ServerCore.Core ServerCore.Foundations

def int64 (n : ℤ) : Option ℤ := if -2 ^ 63 ≤ n ∧ n < 2 ^ 63 then some n else none

lemma int64_eq {n : ℤ} (h : -2 ^ 63 ≤ n ∧ n < 2 ^ 63) : int64 n = some n := if_pos h

section Loops

/-- The loop over the integer digits from `index` on: the power of ten of the first one that is not zero. -/
def integerLeading (integerDigits : ℤ) : Bytes → ℕ → Option (Option ℤ)
  | [], _ => some none
  | b :: rest, index =>
    if b ≠ 48 then
      (int64 index).bind fun offset => (int64 (integerDigits - 1)).bind fun highest =>
        (int64 (highest - offset)).map some
    else integerLeading integerDigits rest (index + 1)

/-- The loop over the fraction; `leading` is `none` as long as `nonZero` is not set. -/
def fractionLeading : Option ℤ → Bytes → ℕ → Option (Option ℤ)
  | leading, [], _ => some leading
  | leading, b :: rest, index =>
    if leading.isNone ∧ b ≠ 48 then
      (int64 index).bind fun offset => (int64 (-1 - offset)).bind fun power =>
        fractionLeading (some power) rest (index + 1)
    else fractionLeading leading rest (index + 1)

def exponentLoop : Bytes → ℤ → Option ℤ
  | [], exponent => some exponent
  | b :: rest, exponent =>
    (int64 (exponent * 10)).bind fun shifted => (int64 (shifted + (b.toNat - 48 : ℕ))).bind fun next =>
      exponentLoop rest (min next exponentLimit)

/-- `MagnitudeBelowOne` with every value of `std::int64_t` checked; `none` is an overflow. -/
def checkedBelowOne (token : Bytes) : Option Bool :=
  let t := splitNumber token
  (int64 t.integer.length).bind fun integerDigits =>
  (integerLeading integerDigits t.integer 0).bind fun leading =>
  (fractionLeading leading t.fraction 0).bind fun
    | none => some true
    | some leading =>
      (exponentLoop t.exponent 0).bind fun exponent =>
      (if t.exponentNegative then int64 (-exponent) else some exponent).bind fun exponent =>
      (int64 (leading + exponent)).map fun sum => sum < 0

lemma integerLeading_eq (digits : Bytes) (total index : ℕ) (htotal : (total : ℤ) < exponentLimit)
    (h : index + digits.length ≤ total) : integerLeading total digits index =
      some ((digits.findIdx? (· ≠ 48)).map fun (i : ℕ) => (total : ℤ) - 1 - (index + i : ℕ)) := by
  rw [exponentLimit] at htotal
  induction digits generalizing index with
  | nil => rfl
  | cons b digits ih =>
    rw [List.length_cons] at h
    rw [integerLeading, List.findIdx?_cons]
    by_cases hb : b = 48
    · rw [if_neg (not_not.mpr hb), ih (index + 1) (by omega), if_neg (by simp [hb])]
      simp only [Option.map_map, Option.some.injEq]
      congr 1
      funext i
      simp only [Function.comp_apply]
      push_cast
      omega
    · rw [if_pos hb, int64_eq (by omega), Option.bind_some, int64_eq (by omega), Option.bind_some, int64_eq (by omega),
        if_pos (by simp [hb])]
      rfl

lemma fractionLeading_some (power : ℤ) (digits : Bytes) (index : ℕ) :
    fractionLeading (some power) digits index = some (some power) := by
  induction digits generalizing index with
  | nil => rfl
  | cons b digits ih =>
    rw [fractionLeading, if_neg (by simp)]
    exact ih (index + 1)

lemma fractionLeading_none (digits : Bytes) (index : ℕ) (h : ((index + digits.length : ℕ) : ℤ) < exponentLimit) :
    fractionLeading none digits index =
      some ((digits.findIdx? (· ≠ 48)).map fun (i : ℕ) => -1 - ((index + i : ℕ) : ℤ)) := by
  rw [exponentLimit] at h
  induction digits generalizing index with
  | nil => rfl
  | cons b digits ih =>
    rw [List.length_cons] at h
    rw [fractionLeading, List.findIdx?_cons]
    by_cases hb : b = 48
    · rw [if_neg (by simp [hb]), ih (index + 1) (by omega), if_neg (by simp [hb])]
      simp only [Option.map_map, Option.some.injEq]
      congr 1
      funext i
      simp only [Function.comp_apply]
      push_cast
      omega
    · rw [if_pos ⟨rfl, hb⟩, int64_eq (by omega), Option.bind_some, int64_eq (by omega), Option.bind_some,
        fractionLeading_some, if_pos (by simp [hb])]
      rfl

lemma exponentLoop_eq (digits : Bytes) (hdigits : ∀ b ∈ digits, isDigit b = true) (exponent : ℤ)
    (h : 0 ≤ exponent ∧ exponent ≤ exponentLimit) : exponentLoop digits exponent = some
      (digits.foldl (fun (exponent : ℤ) b => min (exponent * 10 + (b.toNat - 48 : ℕ)) exponentLimit) exponent) := by
  induction digits generalizing exponent with
  | nil => rfl
  | cons b digits ih =>
    rw [List.forall_mem_cons, isDigit_iff] at hdigits
    have hlimit : exponentLimit = 100000000000000000 := rfl
    rw [exponentLoop, int64_eq (by omega), Option.bind_some, int64_eq (by omega), Option.bind_some, List.foldl_cons]
    exact ih hdigits.2 _ (by omega)

lemma checkedBelowOne_eq (t : NumberToken) (hlen : (t.text.length : ℤ) < exponentLimit) :
    checkedBelowOne t.text = some (magnitudeBelowOne t.text) := by
  have hparts := parts_length t
  have hlimit : exponentLimit = 100000000000000000 := rfl
  have hexponent : ∀ b ∈ t.parts.exponent, isDigit b = true := by
    intro b hb
    cases he : t.exponent with
    | none => simp [NumberToken.parts, he] at hb
    | some e =>
      obtain ⟨mark, sign, digits⟩ := e
      exact (t.exponent_digits mark sign digits he).2.2.2 b (by simpa [NumberToken.parts, he] using hb)
  have hleading : (fractionLeading (t.parts.integer.findIdx? (· ≠ 48) |>.map fun (i : ℕ) => (t.parts.integer.length : ℤ) - 1 - i)
      t.parts.fraction 0) = some (leadingPower t.parts) := by
    rw [leadingPower]
    cases t.parts.integer.findIdx? (· ≠ 48) with
    | some i => exact fractionLeading_some _ _ _
    | none =>
      rw [Option.map_none, fractionLeading_none _ _ (by omega)]
      simp only [Nat.zero_add]
  have hbounds : ∀ power, leadingPower t.parts = some power → -exponentLimit ≤ power ∧ power ≤ exponentLimit := by
    intro power hpower
    rw [leadingPower_eq] at hpower
    obtain ⟨i, hi, rfl⟩ := Option.map_eq_some_iff.mp hpower
    have hlt := (digitsValue_findIdx (parts_digits t)).2 i hi |>.1
    rw [List.length_append] at hlt
    omega
  have hsaturated := saturatedExponent_eq t.parts.exponent
  rw [checkedBelowOne, magnitudeBelowOne, splitNumber_text]
  dsimp only
  rw [int64_eq (by omega), Option.bind_some, integerLeading_eq _ _ _ (by omega) (by omega), Option.bind_some]
  simp only [Nat.zero_add]
  rw [hleading, Option.bind_some]
  cases hpower : leadingPower t.parts with
  | none => rfl
  | some power =>
    have hpower := hbounds power hpower
    dsimp only
    have hloop : exponentLoop t.parts.exponent 0 = some (saturatedExponent t.parts.exponent) :=
      exponentLoop_eq _ hexponent 0 (by omega)
    rw [hloop, Option.bind_some]
    cases t.parts.exponentNegative with
    | true =>
      rw [if_pos rfl, if_pos rfl, int64_eq (by omega), Option.bind_some, int64_eq (by omega)]
      rfl
    | false =>
      rw [if_neg (by decide), if_neg (by decide), Option.bind_some, int64_eq (by omega)]
      rfl

end Loops

section Value

def NumberToken.power (t : NumberToken) : ℤ :=
  match t.exponent with
  | some (_, some sign, digits) => if sign = 45 then -(digitsValue digits : ℤ) else digitsValue digits
  | some (_, none, digits) => digitsValue digits
  | none => 0

def NumberToken.value (t : NumberToken) : ℚ :=
  (if t.negative then (-1 : ℚ) else 1) *
    ((digitsValue t.integer : ℚ) + (digitsValue (t.fraction.getD []) : ℚ) / (10 : ℚ) ^ (t.fraction.getD []).length) *
    (10 : ℚ) ^ t.power

lemma NumberToken.abs_value (t : NumberToken) : |t.value| =
    (digitsValue (t.parts.integer ++ t.parts.fraction) : ℚ) * 10 ^ t.parts.scale := by
  have hsign : |(if t.negative then (-1 : ℚ) else 1)| = 1 := by
    split_ifs
    · rw [abs_neg, abs_one]
    · exact abs_one
  have hexponent : t.power = t.parts.scale + t.parts.fraction.length := by
    rw [NumberParts.scale, sub_add_cancel, NumberToken.parts, NumberToken.power]
    rcases t.exponent with _ | ⟨mark, _ | sign, digits⟩
    · rfl
    · rfl
    · simp only [decide_eq_true_eq]
  have hten : (10 : ℚ) ≠ 0 := by norm_num
  have hpow : (10 : ℚ) ^ t.parts.fraction.length ≠ 0 := pow_ne_zero _ hten
  have hmantissa : 0 ≤ (digitsValue t.integer : ℚ) +
      (digitsValue (t.fraction.getD []) : ℚ) / (10 : ℚ) ^ (t.fraction.getD []).length := by positivity
  have hscale : 0 ≤ (10 : ℚ) ^ (t.parts.scale + t.parts.fraction.length) := zpow_nonneg (by norm_num) _
  rw [NumberToken.value, hexponent, abs_mul, abs_mul, hsign, one_mul, abs_of_nonneg hmantissa, abs_of_nonneg hscale,
    zpow_add₀ hten, zpow_natCast, digitsValue_append]
  change ((digitsValue t.parts.integer : ℚ) + (digitsValue t.parts.fraction : ℚ) / 10 ^ t.parts.fraction.length) * _ = _
  push_cast
  field_simp

lemma NumberToken.abs_value_lt_one_iff (t : NumberToken) : |t.value| < 1 ↔ t.parts.numerator < t.parts.denominator := by
  have hten : (10 : ℚ) ≠ 0 := by norm_num
  rw [NumberToken.abs_value, NumberParts.numerator, NumberParts.denominator]
  rcases le_total 0 t.parts.scale with h | h
  · obtain ⟨n, hn⟩ := Int.eq_ofNat_of_zero_le h
    have hzero : (-t.parts.scale).toNat = 0 := by omega
    rw [hzero, hn, zpow_natCast, Int.toNat_natCast, pow_zero]
    norm_cast
  · obtain ⟨n, hn⟩ := Int.eq_ofNat_of_zero_le (neg_nonneg.mpr h)
    have hscale : t.parts.scale = -(n : ℤ) := by omega
    rw [hscale, zpow_neg, zpow_natCast, neg_neg, Int.toNat_natCast, ← div_eq_mul_inv, div_lt_one (by positivity)]
    have hzero : (-(n : ℤ)).toNat = 0 := by omega
    rw [hzero, pow_zero, mul_one]
    norm_cast

end Value

/-- The underflow test is exact and does not overflow; a conversion that is out of range gives zero exactly below one. -/
theorem checkedBelowOne_exact (t : NumberToken) (hlen : t.text.length < 10 ^ 17) :
    checkedBelowOne t.text = some (magnitudeBelowOne t.text) ∧
    (magnitudeBelowOne t.text = true ↔ |t.value| < 1) ∧
    ∀ charconv, fromCharsDouble charconv t.text = none → doubleValue charconv t.text =
      if |t.value| < 1 then .ok (.number (signedBits t.negative 0)) else .error "number is out of range" := by
  have hlimit : (t.text.length : ℤ) < exponentLimit := by
    rw [exponentLimit]
    omega
  have hiff : magnitudeBelowOne t.text = true ↔ |t.value| < 1 := by
    rw [magnitudeBelowOne_iff t hlimit, NumberToken.abs_value_lt_one_iff]
  refine ⟨checkedBelowOne_eq t hlimit, hiff, ?_⟩
  intro charconv hnone
  have hsign : decide (t.text.head? = some 45) = t.negative := by
    rw [Bool.eq_iff_iff, decide_eq_true_eq]
    exact (numberText_sign t).1
  rw [doubleValue, hnone, convertedValue, hsign]
  exact if_congr hiff rfl rfl

def zeroToken : NumberToken where
  negative := false
  integer := [48]
  fraction := some [48, 48]
  exponent := some (101, some 43, [55])
  integer_digits := zero_digits
  no_leading_zero := zero_alone
  fraction_digits := by
    rintro _ ⟨⟩
    simp [Digits, isDigit]
  exponent_digits := by
    rintro _ _ _ ⟨⟩
    simp [Digits, isDigit]

theorem checkedBelowOne_exact_zero : zeroToken.text.length < 10 ^ 17 ∧ checkedBelowOne zeroToken.text = some true ∧
    |zeroToken.value| < 1 := by
  obtain ⟨hchecked, hiff, -⟩ := checkedBelowOne_exact zeroToken (by decide)
  have hbelow : magnitudeBelowOne zeroToken.text = true := by decide
  exact ⟨by decide, by rw [hchecked, hbelow], hiff.mp hbelow⟩

end ServerCore.Protocol.Json
