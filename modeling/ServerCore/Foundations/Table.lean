import Mathlib.Algebra.BigOperators.Group.Finset.Basic
import Mathlib.Algebra.Order.BigOperators.Group.Finset

/-! Tables of records that are added at the end and changed in place, with the totals that
counters keep of them. -/

namespace ServerCore.Foundations

/-- Records numbered from zero. -/
structure Table (α : Type*) where
  count : ℕ
  row : ℕ → α

namespace Table

variable {α : Type*}

def set (t : Table α) (i : ℕ) (a : α) : Table α := { t with row := Function.update t.row i a }

def push (t : Table α) (a : α) : Table α := ⟨t.count + 1, Function.update t.row t.count a⟩

def pop (t : Table α) : Table α := { t with count := t.count - 1 }

def total (t : Table α) (f : α → ℕ) : ℕ := ∑ i ∈ Finset.range t.count, f (t.row i)

@[simp] lemma set_count (t : Table α) (i : ℕ) (a : α) : (t.set i a).count = t.count := rfl

@[simp] lemma set_row_self (t : Table α) (i : ℕ) (a : α) : (t.set i a).row i = a := Function.update_self ..

lemma set_row_ne (t : Table α) {i j : ℕ} (a : α) (h : j ≠ i) : (t.set i a).row j = t.row j :=
  Function.update_of_ne h ..

lemma set_row (t : Table α) (i j : ℕ) (a : α) : (t.set i a).row j = if j = i then a else t.row j :=
  Function.update_apply ..

@[simp] lemma push_count (t : Table α) (a : α) : (t.push a).count = t.count + 1 := rfl

lemma push_row (t : Table α) (j : ℕ) (a : α) : (t.push a).row j = if j = t.count then a else t.row j :=
  Function.update_apply ..

lemma push_iff (t : Table α) {a : α} {P : α → Prop} (ha : ¬ P a) (j : ℕ) :
    j < (t.push a).count ∧ P ((t.push a).row j) ↔ j < t.count ∧ P (t.row j) := by
  rw [push_count, push_row]
  split_ifs with hj
  · simp [hj, ha]
  · rw [Nat.lt_succ_iff_lt_or_eq, or_iff_left hj]

lemma total_congr {t t' : Table α} {f : α → ℕ} (hc : t'.count = t.count)
    (h : ∀ i < t.count, f (t'.row i) = f (t.row i)) : t'.total f = t.total f := by
  rw [total, total, hc]
  exact Finset.sum_congr rfl fun i hi => h i (Finset.mem_range.mp hi)

/-- Changing one record moves the total by the difference. -/
lemma total_set {t : Table α} {i : ℕ} (hi : i < t.count) (a : α) (f : α → ℕ) :
    (t.set i a).total f + f (t.row i) = t.total f + f a := by
  have hmem : i ∈ Finset.range t.count := Finset.mem_range.mpr hi
  have hrest : ∑ j ∈ (Finset.range t.count).erase i, f ((t.set i a).row j) =
      ∑ j ∈ (Finset.range t.count).erase i, f (t.row j) :=
    Finset.sum_congr rfl fun j hj => by rw [set_row_ne t a (Finset.ne_of_mem_erase hj)]
  have h₁ := Finset.add_sum_erase _ (fun j => f ((t.set i a).row j)) hmem
  have h₂ := Finset.add_sum_erase _ (fun j => f (t.row j)) hmem
  simp only [set_row_self] at h₁
  rw [total, total, set_count, ← h₁, ← h₂, hrest]
  omega

lemma total_push (t : Table α) (a : α) (f : α → ℕ) : (t.push a).total f = t.total f + f a := by
  rw [total, total, push_count, Finset.sum_range_succ, push_row, if_pos rfl]
  congr 1
  refine Finset.sum_congr rfl fun j hj => ?_
  rw [push_row, if_neg (Finset.mem_range.mp hj).ne]

lemma total_pop {t : Table α} {n : ℕ} (h : n + 1 = t.count) (f : α → ℕ) : t.pop.total f + f (t.row n) = t.total f := by
  rw [total, total, ← h, Finset.sum_range_succ]
  simp [pop, ← h]

lemma le_total {t : Table α} {i : ℕ} (hi : i < t.count) (f : α → ℕ) : f (t.row i) ≤ t.total f :=
  Finset.single_le_sum (f := fun j => f (t.row j)) (fun _ _ => Nat.zero_le _) (Finset.mem_range.mpr hi)

lemma add_le_total {t : Table α} {i j : ℕ} (hi : i < t.count) (hj : j < t.count) (hne : i ≠ j) (f : α → ℕ) :
    f (t.row i) + f (t.row j) ≤ t.total f := by
  have hmem : j ∈ (Finset.range t.count).erase i := Finset.mem_erase.mpr ⟨hne.symm, Finset.mem_range.mpr hj⟩
  rw [total, ← Finset.add_sum_erase _ (fun j => f (t.row j)) (Finset.mem_range.mpr hi)]
  exact Nat.add_le_add_left (Finset.single_le_sum (f := fun j => f (t.row j)) (fun _ _ => Nat.zero_le _) hmem) _

lemma total_add (t : Table α) (f g : α → ℕ) : t.total (fun a => f a + g a) = t.total f + t.total g :=
  Finset.sum_add_distrib

section Tally

variable {t : Table α} {i j : ℕ} {p : α → Bool}

def tally (t : Table α) (p : α → Bool) : ℕ := t.total fun a => (p a).toNat

lemma tally_set (hi : i < t.count) (a : α) (p : α → Bool) :
    (t.set i a).tally p + (p (t.row i)).toNat = t.tally p + (p a).toNat := total_set hi a _

lemma tally_push (t : Table α) (a : α) (p : α → Bool) : (t.push a).tally p = t.tally p + (p a).toNat := total_push t a _

lemma tally_pos (hi : i < t.count) (hp : p (t.row i) = true) : 0 < t.tally p := by
  have hle : (p (t.row i)).toNat ≤ t.tally p := le_total hi fun a => (p a).toNat
  rw [hp] at hle
  exact hle

lemma exists_of_tally_pos (h : 0 < t.tally p) : ∃ i < t.count, p (t.row i) = true := by
  by_contra hnone
  push Not at hnone
  have hzero : t.tally p = 0 := by
    unfold tally total
    refine Finset.sum_eq_zero fun i hi => ?_
    have hi' : p (t.row i) = false := Bool.eq_false_iff.mpr (hnone i (Finset.mem_range.mp hi))
    exact congrArg Bool.toNat hi'
  omega

lemma tally_none (h : ∀ i < t.count, p (t.row i) = false) : t.tally p = 0 := by
  apply Nat.eq_zero_of_not_pos
  intro hpos
  obtain ⟨i, hi, htrue⟩ := exists_of_tally_pos hpos
  rw [h i hi] at htrue
  cases htrue

lemma eq_of_tally_le_one (h : t.tally p ≤ 1) (hi : i < t.count) (hj : j < t.count) (hpi : p (t.row i) = true)
    (hpj : p (t.row j) = true) : i = j := by
  by_contra hne
  have hle : (p (t.row i)).toNat + (p (t.row j)).toNat ≤ t.tally p := add_le_total hi hj hne fun a => (p a).toNat
  rw [hpi, hpj] at hle
  exact absurd (hle.trans h) (by decide)

end Tally

end Table

end ServerCore.Foundations
