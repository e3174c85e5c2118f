import Mathlib.Algebra.Order.Ring.Int
import Mathlib.Tactic.Linarith

/-! Equidistant points of time, and how many of them a time has reached. -/

namespace ServerCore.Foundations

structure Grid where
  origin : ℤ
  step : ℤ
  step_pos : 0 < step

namespace Grid

variable (g : Grid) {x y : ℤ} {k n : ℕ}

def point (k : ℕ) : ℤ := g.origin + k * g.step

/-- The number of points up to `x`. -/
def passed (x : ℤ) : ℕ := if x < g.origin then 0 else ((x - g.origin) / g.step).toNat + 1

lemma origin_le_point (k : ℕ) : g.origin ≤ g.point k := by
  have hk : 0 ≤ (k : ℤ) * g.step := Int.mul_nonneg (by omega) g.step_pos.le
  rw [point]
  omega

lemma lt_passed_iff : k < g.passed x ↔ g.point k ≤ x := by
  rw [passed]
  split_ifs with hx
  · have := g.origin_le_point k
    omega
  · have hq : 0 ≤ (x - g.origin) / g.step := Int.ediv_nonneg (by omega) g.step_pos.le
    have hdiv : (k : ℤ) ≤ (x - g.origin) / g.step ↔ k * g.step ≤ x - g.origin := Int.le_ediv_iff_mul_le g.step_pos
    rw [point]
    omega

lemma point_sub_origin (k : ℕ) : (k : ℤ) ≤ g.point k - g.origin := by
  have hk : (k : ℤ) * 1 ≤ k * g.step := Int.mul_le_mul_of_nonneg_left g.step_pos (by omega)
  rw [point]
  omega

lemma passed_mono (h : x ≤ y) : g.passed x ≤ g.passed y := by
  by_contra hlt
  have hx := (g.lt_passed_iff (k := g.passed y) (x := x)).mp (by omega)
  have hy := g.lt_passed_iff.mpr (hx.trans h)
  omega

lemma passed_eq (h : x < g.point n) (h' : ∀ k < n, g.point k ≤ x) : g.passed x = n := by
  have hle : ¬ n < g.passed x := fun hn => absurd (g.lt_passed_iff.mp hn) (by omega)
  have hge : ¬ g.passed x < n := fun hn => absurd (g.lt_passed_iff.mpr (h' _ hn)) (by omega)
  omega

lemma point_add (k j : ℕ) : g.point (k + j) = g.point k + j * g.step := by
  rw [point, point, Nat.cast_add, Int.add_mul]
  omega

lemma point_mono (h : k ≤ n) : g.point k ≤ g.point n := by
  rw [point, point]
  have := Int.mul_le_mul_of_nonneg_right (Int.ofNat_le.mpr h) g.step_pos.le
  omega

/-- Where `m` steps are left over above the point `k`, the points up to `x` are the first `k + m + 1`. -/
lemma passed_of_ediv (h : g.point k ≤ x) : g.passed x = k + ((x - g.point k) / g.step).toNat + 1 := by
  obtain ⟨m, hm⟩ : ∃ m : ℕ, (m : ℤ) = (x - g.point k) / g.step :=
    ⟨_, Int.toNat_of_nonneg (Int.ediv_nonneg (by omega) g.step_pos.le)⟩
  have hlow : m * g.step ≤ x - g.point k := (Int.le_ediv_iff_mul_le g.step_pos).mp hm.le
  have hhigh : x - g.point k < (m + 1) * g.step := by
    have := Int.lt_ediv_add_one_mul_self (x - g.point k) g.step_pos
    rw [← hm] at this
    exact this
  rw [← hm, Int.toNat_natCast]
  apply g.passed_eq
  · rw [Nat.add_assoc, point_add, Nat.cast_succ]
    omega
  · intro j hj
    have := g.point_mono (by omega : j ≤ k + m)
    rw [point_add] at this
    omega

end Grid

end ServerCore.Foundations
