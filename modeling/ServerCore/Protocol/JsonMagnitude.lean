import Mathlib.Tactic.Ring
import ServerCore.Protocol.JsonLexical

/-! The value of number tokens: what the conversions and the underflow test make of
the parts of a token. -/

namespace ServerCore.Protocol.Json

open ServerCore.Core ServerCore.Foundations

section Digits

lemma digitsValue_append (x y : Bytes) : digitsValue (x ++ y) = digitsValue x * 10 ^ y.length + digitsValue y := by
  have h (acc : ℕ) (y : Bytes) :
      y.foldl (fun acc b => acc * 10 + (b.toNat - 48)) acc = acc * 10 ^ y.length + digitsValue y := by
    induction y generalizing acc with
    | nil => simp [digitsValue]
    | cons b y ih =>
      simp only [List.foldl_cons, digitsValue, List.length_cons]
      rw [ih, ih (0 * 10 + (b.toNat - 48)), Nat.pow_succ]
      ring
  rw [digitsValue, List.foldl_append, h]
  rfl

lemma digitsValue_cons (b : Byte) (x : Bytes) :
    digitsValue (b :: x) = (b.toNat - 48) * 10 ^ x.length + digitsValue x := by
  rw [← List.singleton_append, digitsValue_append]
  simp [digitsValue]

lemma isDigit_iff (b : Byte) : isDigit b = true ↔ 48 ≤ b.toNat ∧ b.toNat ≤ 57 := by
  simp [isDigit, UInt8.le_iff_toNat_le]

lemma digitsValue_lt {digits : Bytes} (h : ∀ b ∈ digits, isDigit b = true) :
    digitsValue digits < 10 ^ digits.length := by
  induction digits with
  | nil => simp [digitsValue]
  | cons b digits ih =>
    have hb := (isDigit_iff b).mp (h b (by simp))
    have hrest := ih fun b' hb' => h b' (by simp [hb'])
    rw [digitsValue_cons, List.length_cons, Nat.pow_succ]
    have : (b.toNat - 48) * 10 ^ digits.length ≤ 9 * 10 ^ digits.length := Nat.mul_le_mul_right _ (by omega)
    omega

lemma digitsValue_findIdx {digits : Bytes} (h : ∀ b ∈ digits, isDigit b = true) :
    (digits.findIdx? (· ≠ 48) = none → digitsValue digits = 0) ∧
    ∀ i, digits.findIdx? (· ≠ 48) = some i → i < digits.length ∧
      10 ^ (digits.length - 1 - i) ≤ digitsValue digits ∧ digitsValue digits < 10 ^ (digits.length - i) := by
  induction digits with
  | nil => simp [digitsValue]
  | cons b digits ih =>
    have hb := (isDigit_iff b).mp (h b (by simp))
    have hall : ∀ b' ∈ digits, isDigit b' = true := fun b' hb' => h b' (by simp [hb'])
    obtain ⟨hnone, hsome⟩ := ih hall
    rw [digitsValue_cons]
    by_cases hz : b = 48
    · subst hz
      simp only [List.findIdx?_cons, ne_eq, not_true_eq_false, decide_false, Bool.false_eq_true, ↓reduceIte,
        Option.map_eq_none_iff, Option.map_eq_some_iff, UInt8.reduceToNat, Nat.sub_self, Nat.zero_mul,
        Nat.zero_add, List.length_cons]
      refine ⟨hnone, ?_⟩
      rintro _ ⟨i, hi, rfl⟩
      obtain ⟨hlt, hlo, hhi⟩ := hsome i hi
      have e₁ : digits.length + 1 - 1 - (i + 1) = digits.length - 1 - i := by omega
      have e₂ : digits.length + 1 - (i + 1) = digits.length - i := by omega
      rw [e₁, e₂]
      exact ⟨by omega, hlo, hhi⟩
    · have hb48 : b.toNat ≠ 48 := fun heq => hz (UInt8.toNat_inj.mp heq)
      simp only [List.findIdx?_cons, ne_eq, hz, not_false_eq_true, decide_true, ↓reduceIte, reduceCtorEq,
        false_implies, true_and, Option.some.injEq, List.length_cons]
      rintro i rfl
      have hlt := digitsValue_lt hall
      refine ⟨by omega, ?_, ?_⟩
      · have : 1 * 10 ^ digits.length ≤ (b.toNat - 48) * 10 ^ digits.length := Nat.mul_le_mul_right _ (by omega)
        simp only [Nat.add_sub_cancel, Nat.sub_zero]
        omega
      · have : (b.toNat - 48) * 10 ^ digits.length ≤ 9 * 10 ^ digits.length := Nat.mul_le_mul_right _ (by omega)
        rw [Nat.sub_zero, Nat.pow_succ]
        omega

lemma saturatedExponent_eq (digits : Bytes) :
    saturatedExponent digits = min (digitsValue digits : ℤ) exponentLimit := by
  have h (acc : ℕ) : digits.foldl (fun (e : ℤ) (b : Byte) => min (e * 10 + (b.toNat - 48 : ℕ)) exponentLimit)
      (min (acc : ℤ) exponentLimit) =
      min ((digits.foldl (fun acc b => acc * 10 + (b.toNat - 48)) acc : ℕ) : ℤ) exponentLimit := by
    induction digits generalizing acc with
    | nil => rfl
    | cons b digits ih =>
      simp only [List.foldl_cons]
      rw [← ih]
      congr 1
      simp only [exponentLimit]
      push_cast
      omega
  have h0 := h 0
  simpa [saturatedExponent, digitsValue, exponentLimit] using h0

end Digits

def NumberToken.parts (t : NumberToken) : NumberParts where
  negative := t.negative
  integer := t.integer
  fraction := t.fraction.getD []
  exponentNegative := match t.exponent with
    | some (_, some sign, _) => sign = 45
    | _ => false
  exponent := match t.exponent with
    | some (_, _, digits) => digits
    | none => []

lemma splitExponent_text (t : NumberToken) :
    splitExponent (exponentText t.exponent) = (t.parts.exponentNegative, t.parts.exponent) := by
  simp only [NumberToken.parts]
  cases h : t.exponent with
  | none => rfl
  | some e =>
    obtain ⟨mark, sign, digits⟩ := e
    obtain ⟨hm, hsign, hd⟩ := t.exponent_digits mark sign digits h
    have hm' : (mark = 101 || mark = 69) = true := by simpa using hm
    have htake := takeWhile_digits hd.2 (y := []) rfl
    rw [List.append_nil] at htake
    cases sign with
    | none =>
      obtain ⟨b, rest, rfl, hb⟩ := hd.cons
      have hb43 : b ≠ 43 := by rintro rfl; simp [isDigit] at hb
      have hb45 : b ≠ 45 := by rintro rfl; simp [isDigit] at hb
      simp only [exponentText, splitExponent, hm', ↓reduceIte, Option.toList_none, List.nil_append,
        List.cons_append]
      simp [hb43, hb45, htake]
    | some b =>
      have hb := hsign b rfl
      simp only [exponentText, splitExponent, hm', ↓reduceIte, Option.toList_some, List.cons_append,
        List.nil_append]
      simp [hb, htake]

lemma splitFraction_text (t : NumberToken) :
    splitFraction (fractionText t.fraction ++ exponentText t.exponent) =
      (t.fraction.getD [], exponentText t.exponent) := by
  have hempty : Follows [] := by
    intro b hb
    cases hb
  obtain ⟨he, -⟩ := noDigit_tail (t := t) hempty
  rw [List.append_nil] at he
  cases h : t.fraction with
  | none =>
    cases h' : t.exponent with
    | none => rfl
    | some e =>
      obtain ⟨hm, -, -⟩ := t.exponent_digits e.1 e.2.1 e.2.2 h'
      rcases hm with hm | hm <;> simp [splitFraction, fractionText, exponentText, hm]
  | some digits =>
    have hd := t.fraction_digits digits h
    simp [splitFraction, fractionText, takeWhile_digits hd.2 he, dropWhile_digits hd.2 he]

lemma numberText_sign (t : NumberToken) : (t.text.head? = some 45 ↔ t.negative = true) ∧
    (if t.negative then t.text.drop 1 else t.text) =
      t.integer ++ (fractionText t.fraction ++ exponentText t.exponent) := by
  cases hn : t.negative with
  | true => simp [NumberToken.text, hn]
  | false =>
    obtain ⟨b, rest, hint, hb⟩ := t.integer_digits.cons
    have hb45 : b ≠ 45 := by rintro rfl; simp [isDigit] at hb
    simp [NumberToken.text, hn, hint, hb45]

lemma splitNumber_text (t : NumberToken) : splitNumber t.text = t.parts := by
  have hempty : Follows [] := by
    intro b hb
    cases hb
  obtain ⟨-, hf⟩ := noDigit_tail (t := t) hempty
  rw [List.append_nil] at hf
  obtain ⟨hneg, hdigits⟩ := numberText_sign t
  simp only [splitNumber, hneg]
  rw [hdigits, takeWhile_digits t.integer_digits.2 hf, dropWhile_digits t.integer_digits.2 hf,
    splitFraction_text, splitExponent_text]
  simp [NumberToken.parts]

lemma leadingPower_eq (p : NumberParts) : leadingPower p =
    ((p.integer ++ p.fraction).findIdx? (· ≠ 48)).map fun (i : ℕ) => (p.integer.length : ℤ) - 1 - i := by
  simp only [leadingPower, List.findIdx?_append]
  cases p.integer.findIdx? (· ≠ 48) with
  | some i => simp
  | none =>
    cases p.fraction.findIdx? (· ≠ 48) with
    | none => rfl
    | some j =>
      simp only [Option.map_some, Option.none_or, Option.some.injEq]
      push_cast
      omega

def NumberParts.signedExponent (p : NumberParts) : ℤ :=
  if p.exponentNegative then -(digitsValue p.exponent : ℤ) else digitsValue p.exponent

lemma numerator_lt_denominator_iff {p : NumberParts} {i : ℕ}
    (hd : ∀ b ∈ p.integer ++ p.fraction, isDigit b = true)
    (hi : (p.integer ++ p.fraction).findIdx? (· ≠ 48) = some i) :
    p.numerator < p.denominator ↔ (p.integer.length : ℤ) - 1 - i + NumberParts.signedExponent p < 0 := by
  obtain ⟨hlt, hlo, hhi⟩ := (digitsValue_findIdx hd).2 i hi
  have hlen : (p.integer ++ p.fraction).length = p.integer.length + p.fraction.length := List.length_append
  have hscale : p.scale = NumberParts.signedExponent p - p.fraction.length := rfl
  simp only [NumberParts.numerator, NumberParts.denominator]
  by_cases hs : 0 ≤ p.scale
  · have h0 : (-p.scale).toNat = 0 := by omega
    have hpos : 1 ≤ digitsValue (p.integer ++ p.fraction) * 10 ^ p.scale.toNat :=
      Nat.mul_pos (Nat.lt_of_lt_of_le (Nat.pow_pos (by decide)) hlo) (Nat.pow_pos (by decide))
    rw [h0, Nat.pow_zero]
    omega
  · have h0 : p.scale.toNat = 0 := by omega
    rw [h0, Nat.pow_zero, Nat.mul_one]
    generalize hm : (-p.scale).toNat = m
    constructor
    · intro h
      have := (Nat.pow_lt_pow_iff_right (by decide)).mp (hlo.trans_lt h)
      omega
    · intro h
      exact hhi.trans_le (Nat.pow_le_pow_right (by decide) (by omega))

lemma parts_digits (t : NumberToken) : ∀ b ∈ t.parts.integer ++ t.parts.fraction, isDigit b = true := by
  intro b hb
  rcases List.mem_append.mp hb with hb | hb
  · exact t.integer_digits.2 b hb
  · cases hf : t.fraction with
    | none => simp [NumberToken.parts, hf] at hb
    | some digits => exact (t.fraction_digits digits hf).2 b (by simpa [NumberToken.parts, hf] using hb)

lemma parts_length (t : NumberToken) :
    t.parts.integer.length + t.parts.fraction.length ≤ t.text.length := by
  simp only [NumberToken.parts, NumberToken.text, List.length_append]
  cases t.fraction with
  | none => simp [fractionText]; omega
  | some digits => simp [fractionText]; omega

lemma magnitudeBelowOne_iff (t : NumberToken) (hlen : (t.text.length : ℤ) < exponentLimit) :
    magnitudeBelowOne t.text = true ↔ t.parts.numerator < t.parts.denominator := by
  have hp := parts_length t
  simp only [magnitudeBelowOne, splitNumber_text, leadingPower_eq, saturatedExponent_eq]
  cases hi : (t.parts.integer ++ t.parts.fraction).findIdx? (· ≠ 48) with
  | none =>
    have hz := (digitsValue_findIdx (parts_digits t)).1 hi
    have hden : 0 < t.parts.denominator := Nat.pow_pos (by decide)
    simpa [NumberParts.numerator, hz] using hden
  | some i =>
    have hidx := ((digitsValue_findIdx (parts_digits t)).2 i hi).1
    rw [List.length_append] at hidx
    rw [numerator_lt_denominator_iff (parts_digits t) hi]
    simp only [Option.map_some, decide_eq_true_eq, NumberParts.signedExponent]
    split_ifs <;> omega

lemma signedBits_finite (negative : Bool) {bits : ℕ} (h : bits < Binary64.infinityBits) :
    isFinite (signedBits negative bits) = true := by
  simp only [isFinite, signedBits, Binary64.infinityBits, Binary64.signBit, decide_eq_true_eq,
    UInt64.toNat_ofNat'] at h ⊢
  split_ifs <;> omega

lemma fromCharsDouble_finite {charconv : Charconv} {token : Bytes} {p : NumberParts} (hp : splitNumber token = p)
    (h : p.bits < Binary64.infinityBits) :
    fromCharsDouble charconv token = none ∨ fromCharsDouble charconv token = some (signedBits p.negative p.bits) := by
  have hn : ¬ Binary64.infinityBits ≤ p.bits := Nat.not_le.mpr h
  rw [fromCharsDouble, hp]
  simp only [hn, ↓reduceIte]
  split_ifs
  · exact .inl rfl
  · exact .inr rfl

lemma convertedValue_some {token : Bytes} {d : UInt64} (h : isFinite d = true) :
    convertedValue token (some d) = .ok (.number d) := by
  simp only [convertedValue, h, Bool.not_true, Bool.false_eq_true, ↓reduceIte]

lemma convertedValue_none_ok_iff (token : Bytes) :
    (∃ v, convertedValue token none = .ok v) ↔ magnitudeBelowOne token = true := by
  simp only [convertedValue]
  split_ifs with h <;> simp [h]

lemma doubleValue_ok_iff (charconv : Charconv) (t : NumberToken) (hlen : (t.text.length : ℤ) < exponentLimit) :
    (∃ v, doubleValue charconv t.text = .ok v) ↔ t.parts.bits < Binary64.infinityBits := by
  have hden : 0 < t.parts.denominator := Nat.pow_pos (by decide)
  constructor
  · rintro ⟨v, hv⟩
    by_contra hbig
    have hnone : fromCharsDouble charconv t.text = none := by
      rw [fromCharsDouble, splitNumber_text]
      simp only [not_lt.mp hbig, ↓reduceIte]
    have hbelow : magnitudeBelowOne t.text = false := by
      rw [Bool.eq_false_iff, ne_eq, magnitudeBelowOne_iff t hlen]
      exact fun hlt => hbig (Binary64.magnitudeBits_lt_infinityBits hlt)
    rw [doubleValue, hnone] at hv
    have := (convertedValue_none_ok_iff t.text).mp ⟨v, hv⟩
    rw [hbelow] at this
    cases this
  · intro h
    rcases fromCharsDouble_finite (splitNumber_text t) h with hnone | hsome
    · -- only an underflow is left, and that the test recognises
      have hbelow : magnitudeBelowOne t.text = true := by
        rw [magnitudeBelowOne_iff t hlen]
        by_contra hge
        have hnormal := Binary64.magnitudeBits_normal hden (not_lt.mp hge)
        have hn : ¬ Binary64.infinityBits ≤ t.parts.bits := Nat.not_le.mpr h
        have hs : ¬ t.parts.bits < Binary64.normalBits := not_lt.mpr hnormal
        rw [fromCharsDouble, splitNumber_text] at hnone
        simp only [hn, hs, false_and, and_false, ↓reduceIte] at hnone
        cases hnone
      rw [doubleValue, hnone]
      exact (convertedValue_none_ok_iff t.text).mpr hbelow
    · rw [doubleValue, hsome]
      exact ⟨_, convertedValue_some (signedBits_finite _ h)⟩

namespace NumberToken

/-- An integer token other than `-0` fits the 64-bit type of its sign. -/
def IntegerFits (t : NumberToken) : Prop :=
  t.isInteger = true → t.text ≠ [45, 48] →
    if t.negative then digitsValue t.integer ≤ 2 ^ 63 else digitsValue t.integer < 2 ^ 64

def RoundsFinite (t : NumberToken) : Prop := t.isInteger = false → t.parts.bits < Binary64.infinityBits

lemma mark_any (t : NumberToken) : (t.text.any fun b => b = 46 || b = 101 || b = 69) = !t.isInteger := by
  have hdigit {digits : Bytes} (h : ∀ b ∈ digits, isDigit b = true) :
      (digits.any fun b => b = 46 || b = 101 || b = 69) = false := by
    rw [List.any_eq_false]
    intro b hb
    have := (isDigit_iff b).mp (h b hb)
    simp only [Bool.or_eq_true, decide_eq_true_eq, not_or]
    refine ⟨⟨?_, ?_⟩, ?_⟩ <;> rintro rfl <;> simp at this
  have hsign : ((if t.negative then [45] else [] : Bytes).any fun b => b = 46 || b = 101 || b = 69) = false := by
    cases t.negative <;> rfl
  simp only [text, isInteger, List.any_append, hsign, hdigit t.integer_digits.2, Bool.false_or, Bool.not_and]
  cases t.fraction with
  | some digits => simp [fractionText]
  | none =>
    cases he : t.exponent with
    | none => rfl
    | some e =>
      obtain ⟨hm, -, -⟩ := t.exponent_digits e.1 e.2.1 e.2.2 he
      rcases hm with hm | hm <;> simp [fractionText, exponentText, hm]

lemma text_ascii (t : NumberToken) : ∀ b ∈ t.text, b < 0x80 := by
  have hdigit {digits : Bytes} (h : Digits digits) : ∀ b ∈ digits, b < 0x80 := by
    intro b hb
    have := (isDigit_iff b).mp (h.2 b hb)
    rw [UInt8.lt_iff_toNat_lt]
    simp only [UInt8.reduceToNat]
    omega
  intro b hb
  simp only [text, List.mem_append] at hb
  rcases hb with ((hb | hb) | hb) | hb
  · cases hn : t.negative with
    | true =>
      obtain rfl : b = 45 := by simpa [hn] using hb
      decide
    | false => simp [hn] at hb
  · exact hdigit t.integer_digits b hb
  · cases hf : t.fraction with
    | none => simp [hf, fractionText] at hb
    | some digits =>
      rw [hf, fractionText] at hb
      rcases List.mem_cons.mp hb with rfl | hb
      · decide
      · exact hdigit (t.fraction_digits digits hf) b hb
  · cases he : t.exponent with
    | none => simp [he, exponentText] at hb
    | some e =>
      obtain ⟨mark, sign, digits⟩ := e
      obtain ⟨hm, hsign, hd⟩ := t.exponent_digits mark sign digits he
      simp only [he, exponentText, List.cons_append, List.mem_cons, List.mem_append, Option.mem_toList] at hb
      rcases hb with rfl | hb | hb
      · rcases hm with rfl | rfl <;> decide
      · rcases hsign b hb with rfl | rfl <;> decide
      · exact hdigit hd b hb

lemma text_of_isInteger {t : NumberToken} (h : t.isInteger = true) :
    t.text = (if t.negative then [45] else []) ++ t.integer := by
  simp only [isInteger, Bool.and_eq_true, Option.isNone_iff_eq_none] at h
  simp [text, h.1, h.2, fractionText, exponentText]

lemma numberValue_integer (charconv : Charconv) {t : NumberToken} (h : t.isInteger = true)
    (hz : t.text ≠ [45, 48]) : numberValue charconv t.text =
      if t.negative then
        if digitsValue t.integer ≤ 2 ^ 63 then .ok (.int64 (Int64.ofInt (-(digitsValue t.integer : ℤ))))
        else .error "integer is out of range"
      else if digitsValue t.integer < 2 ^ 64 then .ok (.uint64 (UInt64.ofNat (digitsValue t.integer)))
      else .error "integer is out of range" := by
  obtain ⟨hneg, -⟩ := numberText_sign t
  have htext := text_of_isInteger h
  simp only [numberValue, mark_any, h, Bool.not_true, Bool.false_eq_true, ↓reduceIte, hneg]
  cases hn : t.negative with
  | true =>
    have hdrop : t.text.drop 1 = t.integer := by simp [htext, hn]
    simp only [↓reduceIte, ne_eq, hz, not_false_eq_true, fromCharsNegative, hdrop]
    split_ifs <;> rfl
  | false =>
    have hint : t.text = t.integer := by simp [htext, hn]
    simp only [Bool.false_eq_true, ↓reduceIte, fromCharsUInt64, hint]
    split_ifs <;> rfl

lemma numberValue_double (charconv : Charconv) {t : NumberToken}
    (h : t.isInteger = false ∨ t.text = [45, 48]) :
    numberValue charconv t.text = doubleValue charconv t.text := by
  simp only [numberValue, mark_any]
  rcases h with h | h
  · simp [h]
  · simp [h]

lemma minusZero_finite {t : NumberToken} (h : t.text = [45, 48]) : t.parts.bits < Binary64.infinityBits := by
  have hp : t.parts = splitNumber [45, 48] := by rw [← splitNumber_text, h]
  rw [hp]
  exact Binary64.magnitudeBits_lt_infinityBits (by decide)

lemma numberValue_ok_iff (charconv : Charconv) (t : NumberToken) (hlen : (t.text.length : ℤ) < exponentLimit) :
    (∃ v, numberValue charconv t.text = .ok v) ↔ t.IntegerFits ∧ t.RoundsFinite := by
  by_cases hz : t.text = [45, 48]
  · rw [numberValue_double charconv (.inr hz), doubleValue_ok_iff charconv t hlen]
    have hint : t.isInteger = true := by
      have := mark_any t
      rw [hz] at this
      simpa using this.symm
    simp [IntegerFits, RoundsFinite, hz, hint, minusZero_finite hz]
  · cases hint : t.isInteger with
    | true =>
      rw [numberValue_integer charconv hint hz]
      simp only [IntegerFits, RoundsFinite, hint]
      cases t.negative <;> simp <;> split_ifs <;> simp_all
    | false =>
      rw [numberValue_double charconv (.inl hint), doubleValue_ok_iff charconv t hlen]
      simp [IntegerFits, RoundsFinite, hint]

end NumberToken

end ServerCore.Protocol.Json
