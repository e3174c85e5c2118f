import Mathlib.Data.Nat.Basic
import Mathlib.Tactic.Ring

/-! Rounding a non-negative rational to an IEEE 754 binary64 value, to nearest with ties
to even. Magnitudes are the 63 bits below the sign, so that they count the
representable numbers upwards from zero. -/

namespace ServerCore.Foundations.Binary64

def roundHalfEven (n d : ℕ) : ℕ :=
  let q := n / d
  let r := n % d
  if 2 * r < d then q else if d < 2 * r then q + 1 else q + q % 2

/-- The smallest subnormal is two to the minus this. -/
def unitExponent : ℕ := 1074

/-- The magnitude nearest to `n / d`; from `infinityBits` on it has no finite value.
The unit is the smallest subnormal, and `shift` is the exponent of the last of 53 bits in it. -/
def magnitudeBits (n d : ℕ) : ℕ :=
  let scaled := n * 2 ^ unitExponent
  let shift := Nat.log2 (scaled / d) - 52
  shift * 2 ^ 52 + roundHalfEven scaled (d * 2 ^ shift)

def infinityBits : ℕ := 2047 * 2 ^ 52

/-- The smallest normal number. -/
def normalBits : ℕ := 2 ^ 52

def signBit : ℕ := 2 ^ 63

/-- The value of a finite magnitude, in units of the smallest subnormal. -/
def units (bits : ℕ) : ℕ :=
  if bits < 2 ^ 52 then bits else (2 ^ 52 + bits % 2 ^ 52) * 2 ^ (bits / 2 ^ 52 - 1)

lemma roundHalfEven_le (n d : ℕ) : roundHalfEven n d ≤ n / d + 1 := by
  simp only [roundHalfEven]
  split_ifs <;> omega

lemma roundHalfEven_exact (a : ℕ) {d : ℕ} (hd : 0 < d) : roundHalfEven (a * d) d = a := by
  simp only [roundHalfEven, Nat.mul_div_cancel _ hd, Nat.mul_mod_left, Nat.mul_zero, hd, ↓reduceIte]

lemma roundHalfEven_mul (n d : ℕ) {c : ℕ} (hc : 0 < c) :
    roundHalfEven (n * c) (d * c) = roundHalfEven n d := by
  have h (a b : ℕ) : 2 * (a * c) < b * c ↔ 2 * a < b := by
    rw [← Nat.mul_assoc, Nat.mul_lt_mul_right hc]
  have h' (a b : ℕ) : b * c < 2 * (a * c) ↔ b < 2 * a := by
    rw [← Nat.mul_assoc, Nat.mul_lt_mul_right hc]
  simp only [roundHalfEven, Nat.mul_div_mul_right _ _ hc, Nat.mul_mod_mul_right, h, h']

/-- Rounding depends on the ratio only. -/
lemma magnitudeBits_mul (n d : ℕ) {c : ℕ} (hc : 0 < c) :
    magnitudeBits (n * c) (d * c) = magnitudeBits n d := by
  have hs : n * c * 2 ^ unitExponent = n * 2 ^ unitExponent * c := by ring
  simp only [magnitudeBits, hs, Nat.mul_div_mul_right _ _ hc]
  rw [Nat.mul_right_comm d c, roundHalfEven_mul _ _ hc]

/-- Nothing below one rounds to infinity. -/
lemma magnitudeBits_lt_infinityBits {n d : ℕ} (h : n < d) : magnitudeBits n d < infinityBits := by
  have hd : 0 < d := by omega
  simp only [magnitudeBits]
  generalize hs : n * 2 ^ unitExponent = scaled
  generalize hk : Nat.log2 (scaled / d) - 52 = shift
  have hlt : scaled / d < 2 ^ (shift + 53) := by
    have := Nat.lt_log2_self (n := scaled / d)
    exact this.trans_le (Nat.pow_le_pow_right (by decide) (by omega))
  have hq : scaled / (d * 2 ^ shift) < 2 ^ 53 := by
    rw [← Nat.div_div_eq_div_mul, Nat.div_lt_iff_lt_mul (Nat.two_pow_pos _), ← Nat.pow_add, Nat.add_comm]
    exact hlt
  have hshift : shift ≤ 1021 := by
    by_cases h0 : scaled / d = 0
    · simp [h0] at hk
      omega
    · have : Nat.log2 (scaled / d) < unitExponent := by
        rw [Nat.log2_lt h0, Nat.div_lt_iff_lt_mul hd, ← hs, Nat.mul_comm]
        exact Nat.mul_lt_mul_of_pos_left h (Nat.two_pow_pos _)
      simp only [unitExponent] at this
      omega
  have hr := roundHalfEven_le scaled (d * 2 ^ shift)
  have hm : shift * 2 ^ 52 ≤ 1021 * 2 ^ 52 := Nat.mul_le_mul_right _ hshift
  simp only [infinityBits]
  omega

/-- One and everything above it is a normal number. -/
lemma magnitudeBits_normal {n d : ℕ} (hd : 0 < d) (h : d ≤ n) : normalBits ≤ magnitudeBits n d := by
  simp only [magnitudeBits, normalBits]
  generalize hs : n * 2 ^ unitExponent = scaled
  have hge : 2 ^ unitExponent ≤ scaled / d := by
    rw [Nat.le_div_iff_mul_le hd, ← hs, Nat.mul_comm]
    exact Nat.mul_le_mul_right _ h
  have hlog : unitExponent ≤ Nat.log2 (scaled / d) := by
    have h0 : scaled / d ≠ 0 := by
      have := Nat.two_pow_pos unitExponent
      omega
    exact (Nat.le_log2 h0).mpr hge
  have hshift : 1 ≤ Nat.log2 (scaled / d) - 52 := by
    simp only [unitExponent] at hlog
    omega
  calc 2 ^ 52 = 1 * 2 ^ 52 := (Nat.one_mul _).symm
    _ ≤ (Nat.log2 (scaled / d) - 52) * 2 ^ 52 := Nat.mul_le_mul_right _ hshift
    _ ≤ _ := Nat.le_add_right _ _

/-- Every finite magnitude is read back from its exact value. -/
lemma magnitudeBits_units (bits : ℕ) : magnitudeBits (units bits) (2 ^ unitExponent) = bits := by
  have hp : 0 < 2 ^ unitExponent := Nat.two_pow_pos _
  simp only [magnitudeBits, Nat.mul_div_cancel _ hp, units]
  split_ifs with hb
  · have hlog : Nat.log2 bits - 52 = 0 := by
      by_cases h0 : bits = 0
      · simp [h0]
      · have := (Nat.log2_lt h0).mpr hb
        omega
    rw [hlog, Nat.zero_mul, Nat.pow_zero, Nat.mul_one, roundHalfEven_exact _ hp, Nat.zero_add]
  · generalize hm : bits % 2 ^ 52 = m
    generalize hk : bits / 2 ^ 52 - 1 = k
    have hlog : Nat.log2 ((2 ^ 52 + m) * 2 ^ k) = k + 52 := by
      have h1 : m < 2 ^ 52 := by omega
      have hpow : 2 ^ (k + 52) = 2 ^ 52 * 2 ^ k := by ring
      have hpow' : 2 ^ (k + 52 + 1) = 2 ^ 53 * 2 ^ k := by ring
      rw [Nat.log2_eq_iff (Nat.mul_ne_zero (by omega) (Nat.two_pow_pos k).ne'), hpow, hpow']
      exact ⟨Nat.mul_le_mul_right _ (by omega), Nat.mul_lt_mul_of_pos_right (by omega) (Nat.two_pow_pos k)⟩
    rw [hlog, Nat.add_sub_cancel, Nat.mul_assoc, Nat.mul_comm (2 ^ k),
      roundHalfEven_exact _ (Nat.mul_pos (Nat.two_pow_pos _) (Nat.two_pow_pos _))]
    omega

-- comparing open terms with these literals would count them down
attribute [irreducible] magnitudeBits infinityBits normalBits signBit

end ServerCore.Foundations.Binary64
