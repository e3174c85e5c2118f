import Mathlib.Data.List.Range
import Mathlib.Data.Nat.ModEq

/-! A ring of indices scanned from a moving start: whoever waits is passed by each of the others at most once. -/

namespace ServerCore.Foundations.RoundRobin

/-- How far the index `i` is ahead of `start` on a ring of `n`. -/
def ahead (n start i : ℕ) : ℕ := (i + n - start) % n

section Scan

variable {β : Type*} {n start : ℕ} {f : ℕ → Option β}

/-- The first index from `start` on, once around the ring, at which `f` has a value. -/
def firstFrom (n start : ℕ) (f : ℕ → Option β) : Option (ℕ × β) :=
  (List.range n).findSome? fun k => (f ((start + k) % n)).map fun b => ((start + k) % n, b)

lemma ahead_lt (hn : 0 < n) (i : ℕ) : ahead n start i < n := Nat.mod_lt _ hn

lemma ahead_cases {i : ℕ} (hs : start < n) (hi : i < n) :
    start ≤ i ∧ ahead n start i = i - start ∨ i < start ∧ ahead n start i = i + n - start := by
  rcases Nat.lt_or_ge i start with hlt | hle
  · right
    rw [ahead, Nat.mod_eq_of_lt (by omega)]
    exact ⟨hlt, rfl⟩
  · left
    rw [ahead, show i + n - start = i - start + n by omega, Nat.add_mod_right, Nat.mod_eq_of_lt (by omega)]
    exact ⟨hle, rfl⟩

lemma add_ahead {i : ℕ} (hs : start < n) (hi : i < n) : (start + ahead n start i) % n = i := by
  rcases ahead_cases hs hi with ⟨hle, h⟩ | ⟨hlt, h⟩ <;> rw [h]
  · rw [Nat.add_sub_cancel' hle, Nat.mod_eq_of_lt hi]
  · rw [show start + (i + n - start) = i + n by omega, Nat.add_mod_right, Nat.mod_eq_of_lt hi]

lemma ahead_add {k : ℕ} (hs : start < n) (hk : k < n) : ahead n start ((start + k) % n) = k := by
  have hmod : (start + k) % n = start + k ∧ start + k < n ∨ (start + k) % n = start + k - n ∧ n ≤ start + k := by
    rcases Nat.lt_or_ge (start + k) n with hlt | hge
    · exact .inl ⟨Nat.mod_eq_of_lt hlt, hlt⟩
    · right
      rw [Nat.mod_eq_sub_mod hge, Nat.mod_eq_of_lt (by omega)]
      exact ⟨rfl, hge⟩
  have hcases := ahead_cases hs (Nat.mod_lt (start + k) (by omega))
  omega

lemma firstFrom_eq_none (hs : start < n) : firstFrom n start f = none ↔ ∀ i < n, f i = none := by
  simp only [firstFrom, List.findSome?_eq_none_iff, List.mem_range, Option.map_eq_none_iff]
  constructor
  · intro h i hi
    have := h (ahead n start i) (ahead_lt (by omega) i)
    rwa [add_ahead hs hi] at this
  · intro h k _
    exact h _ (Nat.mod_lt _ (by omega))

/-- The scan stops at the nearest of the indices with a value. -/
lemma firstFrom_eq_some {j : ℕ} {b : β} (hs : start < n) (h : firstFrom n start f = some (j, b)) :
    j < n ∧ f j = some b ∧ ∀ i < n, (f i).isSome → ahead n start j ≤ ahead n start i := by
  obtain ⟨front, k, back, hrange, hk, hfront⟩ := List.findSome?_eq_some_iff.mp h
  obtain ⟨b', hb, heq⟩ := Option.map_eq_some_iff.mp hk
  obtain ⟨rfl, rfl⟩ := Prod.mk.inj heq
  have hkn : k < n := by
    rw [← List.mem_range, hrange]
    simp
  have hfront_eq : front = List.range k := by
    have hlen : front.length = k := by
      have hget : (List.range n)[front.length]? = some k := by rw [hrange]; simp
      rw [List.getElem?_range (by
        have := congrArg List.length hrange
        simp at this
        omega)] at hget
      exact Option.some.inj hget
    have htake : (List.range n).take k = front := by rw [hrange, ← hlen, List.take_left]
    rw [← htake, List.take_range, Nat.min_eq_left hkn.le]
  refine ⟨Nat.mod_lt _ (by omega), hb, fun i hi hsome => ?_⟩
  rw [ahead_add hs hkn]
  by_contra hlt
  have hnone := hfront (ahead n start i) (by rw [hfront_eq, List.mem_range]; omega)
  rw [add_ahead hs hi, Option.map_eq_none_iff] at hnone
  simp [hnone] at hsome

/-- Whoever the scan passes by is nearer to the next start. -/
lemma ahead_next {i j : ℕ} (hs : start < n) (hi : i < n) (hj : j < n) (hne : i ≠ j)
    (hle : ahead n start j ≤ ahead n start i) : ahead n ((j + 1) % n) i < ahead n start i := by
  have hnext : (j + 1) % n = 0 ∧ j + 1 = n ∨ (j + 1) % n = j + 1 := by
    rcases Nat.lt_or_ge (j + 1) n with hlt | hge
    · exact .inr (Nat.mod_eq_of_lt hlt)
    · have heq : j + 1 = n := by omega
      rw [heq, Nat.mod_self]
      exact .inl ⟨rfl, rfl⟩
  have hstart := ahead_cases hs hi
  have hstop := ahead_cases hs hj
  have hnew := ahead_cases (Nat.mod_lt (j + 1) (by omega)) hi
  omega

end Scan

end ServerCore.Foundations.RoundRobin
