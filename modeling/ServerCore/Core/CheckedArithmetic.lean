import ServerCore.Core.Bytes

/-! Results of 64-bit arithmetic: an overflow has no value. -/

namespace ServerCore.Core

def signed64 (x : ℤ) : Option ℤ := if -2 ^ 63 ≤ x ∧ x < 2 ^ 63 then some x else none

def unsigned64 (x : ℕ) : Option ℕ := if x < sizeModulus then some x else none

lemma signed64_eq {x : ℤ} (h : -2 ^ 63 ≤ x) (h' : x < 2 ^ 63) : signed64 x = some x := if_pos ⟨h, h'⟩

lemma unsigned64_eq {x : ℕ} (h : x < sizeModulus) : unsigned64 x = some x := if_pos h

lemma signed64_eq_some {x y : ℤ} : signed64 x = some y ↔ x = y ∧ -2 ^ 63 ≤ x ∧ x < 2 ^ 63 := by
  simp only [signed64, Option.ite_none_right_eq_some, Option.some.injEq]
  tauto

lemma unsigned64_eq_some {x y : ℕ} : unsigned64 x = some y ↔ x = y ∧ x < sizeModulus := by
  simp only [unsigned64, Option.ite_none_right_eq_some, Option.some.injEq]
  tauto

end ServerCore.Core
