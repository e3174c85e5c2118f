import Mathlib.Algebra.BigOperators.Group.Finset.Basic
import Mathlib.Algebra.Order.BigOperators.Group.Finset

/-! Finite maps from keys to records, with totals over the records. -/

namespace ServerCore.Foundations

structure KeyMap (κ α : Type*) where
  domain : Finset κ
  get : κ → α

namespace KeyMap

variable {κ α : Type*} [DecidableEq κ]

def set (m : KeyMap κ α) (k : κ) (a : α) : KeyMap κ α := ⟨insert k m.domain, Function.update m.get k a⟩

def erase (m : KeyMap κ α) (k : κ) : KeyMap κ α := { m with domain := m.domain.erase k }

/-- The record of a key, or the one a new key gets. -/
def getD (m : KeyMap κ α) (k : κ) (a : α) : α := if k ∈ m.domain then m.get k else a

def total (m : KeyMap κ α) (f : α → ℕ) : ℕ := ∑ k ∈ m.domain, f (m.get k)

@[simp] lemma set_get_self (m : KeyMap κ α) (k : κ) (a : α) : (m.set k a).get k = a := Function.update_self ..

lemma set_get_ne (m : KeyMap κ α) {k k' : κ} (a : α) (h : k' ≠ k) : (m.set k a).get k' = m.get k' :=
  Function.update_of_ne h ..

@[simp] lemma set_set (m : KeyMap κ α) (k : κ) (a b : α) : (m.set k a).set k b = m.set k b := by
  simp only [set, Finset.insert_idem, Function.update_idem]

@[simp] lemma mem_set (m : KeyMap κ α) (k k' : κ) (a : α) :
    k' ∈ (m.set k a).domain ↔ k' = k ∨ k' ∈ m.domain := Finset.mem_insert

@[simp] lemma mem_erase (m : KeyMap κ α) (k k' : κ) :
    k' ∈ (m.erase k).domain ↔ k' ≠ k ∧ k' ∈ m.domain := Finset.mem_erase

@[simp] lemma erase_get (m : KeyMap κ α) (k : κ) : (m.erase k).get = m.get := rfl

lemma getD_of_mem {m : KeyMap κ α} {k : κ} (h : k ∈ m.domain) (a : α) : m.getD k a = m.get k := if_pos h

lemma getD_of_notMem {m : KeyMap κ α} {k : κ} (h : k ∉ m.domain) (a : α) : m.getD k a = a := if_neg h

lemma total_split {m : KeyMap κ α} {k : κ} (h : k ∈ m.domain) (f : α → ℕ) :
    m.total f = f (m.get k) + ∑ k' ∈ m.domain.erase k, f (m.get k') :=
  (Finset.add_sum_erase _ (fun k' => f (m.get k')) h).symm

lemma sum_erase_set (m : KeyMap κ α) (k : κ) (a : α) (f : α → ℕ) :
    ∑ k' ∈ m.domain.erase k, f ((m.set k a).get k') = ∑ k' ∈ m.domain.erase k, f (m.get k') :=
  Finset.sum_congr rfl fun k' hk' => by rw [set_get_ne m a (Finset.ne_of_mem_erase hk')]

/-- A new key counts from the record it starts with, which counts nothing. -/
lemma total_set (m : KeyMap κ α) (k : κ) (a b : α) (f : α → ℕ) (hb : f b = 0) :
    (m.set k a).total f + f (m.getD k b) = m.total f + f a := by
  have hset : (m.set k a).total f = f a + ∑ k' ∈ m.domain.erase k, f (m.get k') := by
    rw [total_split ((mem_set m k k a).mpr (.inl rfl)), set_get_self]
    congr 1
    have hdomain : (m.set k a).domain.erase k = m.domain.erase k := by
      ext k'
      simp only [Finset.mem_erase, mem_set]
      tauto
    rw [hdomain]
    exact sum_erase_set m k a f
  by_cases hk : k ∈ m.domain
  · rw [hset, total_split hk, getD_of_mem hk]
    omega
  · rw [hset, getD_of_notMem hk, hb, Finset.erase_eq_of_notMem hk, total]
    omega

lemma total_erase {m : KeyMap κ α} {k : κ} (h : k ∈ m.domain) (f : α → ℕ) :
    (m.erase k).total f + f (m.get k) = m.total f := by
  rw [total_split h, total, erase_get]
  exact Nat.add_comm _ _

end KeyMap

end ServerCore.Foundations
