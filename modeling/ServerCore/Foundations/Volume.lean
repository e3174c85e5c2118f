import Mathlib.Data.Nat.Notation
import Mathlib.Logic.Function.Basic

/-! File systems: names that lead to numbered files, and the contents of those. -/

namespace ServerCore.Foundations

structure Volume (κ β : Type*) where
  entry : κ → Option ℕ
  content : ℕ → List β
  files : ℕ

namespace Volume

variable {κ β : Type*}

def read (v : Volume κ β) (k : κ) : Option (List β) := (v.entry k).map v.content

def append (v : Volume κ β) (n : ℕ) (x : List β) : Volume κ β :=
  { v with content := Function.update v.content n (v.content n ++ x) }

/-- Every name leads to a file that was created. -/
def WellFormed (v : Volume κ β) : Prop := ∀ k n, v.entry k = some n → n < v.files

section Append

variable (v : Volume κ β) {n : ℕ} {x : List β}

@[simp] lemma append_entry : (v.append n x).entry = v.entry := rfl

@[simp] lemma append_files : (v.append n x).files = v.files := rfl

@[simp] lemma append_content_self : (v.append n x).content n = v.content n ++ x := Function.update_self ..

lemma append_content_ne {m : ℕ} (h : m ≠ n) : (v.append n x).content m = v.content m := Function.update_of_ne h ..

@[simp] lemma append_nil : v.append n [] = v := by
  rw [append, List.append_nil, Function.update_eq_self]

lemma append_append {y : List β} : (v.append n x).append n y = v.append n (x ++ y) := by
  rw [append, append_content_self, append, append, List.append_assoc, Function.update_idem]

lemma read_append {k : κ} (h : v.entry k ≠ some n) : (v.append n x).read k = v.read k := by
  rw [read, read, append_entry]
  cases hk : v.entry k with
  | none => rfl
  | some m =>
    have hm : m ≠ n := fun hm => h (by rw [hk, hm])
    rw [Option.map_some, Option.map_some, append_content_ne v hm]

end Append

variable [DecidableEq κ]

def create (v : Volume κ β) (k : κ) : Volume κ β :=
  ⟨Function.update v.entry k (some v.files), Function.update v.content v.files [], v.files + 1⟩

def unlink (v : Volume κ β) (k : κ) : Volume κ β := { v with entry := Function.update v.entry k none }

/-- The file at `a` takes the place of the one at `b`; nothing happens when both names lead to one file. -/
def rename (v : Volume κ β) (a b : κ) : Volume κ β :=
  if v.entry a = v.entry b then v
  else { v with entry := Function.update (Function.update v.entry a none) b (v.entry a) }

section Entries

variable (v : Volume κ β) {a b k : κ} {n : ℕ}

@[simp] lemma create_files : (v.create k).files = v.files + 1 := rfl

@[simp] lemma create_entry_self : (v.create k).entry k = some v.files := Function.update_self ..

lemma create_entry_ne (h : a ≠ k) : (v.create k).entry a = v.entry a := Function.update_of_ne h ..

@[simp] lemma create_content_self : (v.create k).content v.files = [] := Function.update_self ..

lemma create_content_ne (h : n ≠ v.files) : (v.create k).content n = v.content n := Function.update_of_ne h ..

@[simp] lemma unlink_content : (v.unlink k).content = v.content := rfl

@[simp] lemma unlink_files : (v.unlink k).files = v.files := rfl

@[simp] lemma unlink_entry_self : (v.unlink k).entry k = none := Function.update_self ..

lemma unlink_entry_ne (h : a ≠ k) : (v.unlink k).entry a = v.entry a := Function.update_of_ne h ..

@[simp] lemma rename_content : (v.rename a b).content = v.content := by
  rw [rename]
  split <;> rfl

@[simp] lemma rename_files : (v.rename a b).files = v.files := by
  rw [rename]
  split <;> rfl

@[simp] lemma rename_entry_target : (v.rename a b).entry b = v.entry a := by
  rw [rename]
  split
  · next h => exact h.symm
  · exact Function.update_self ..

lemma rename_entry_ne (ha : k ≠ a) (hb : k ≠ b) : (v.rename a b).entry k = v.entry k := by
  rw [rename]
  split
  · rfl
  · exact (Function.update_of_ne hb ..).trans (Function.update_of_ne ha ..)

lemma rename_entry_source (h : v.entry a ≠ v.entry b) : (v.rename a b).entry a = none := by
  have hab : a ≠ b := fun hab => h (by rw [hab])
  rw [rename, if_neg h]
  dsimp only
  rw [Function.update_of_ne hab, Function.update_self]

end Entries

variable {v : Volume κ β} {a b k : κ}

lemma WellFormed.create (h : v.WellFormed) (k : κ) : (v.create k).WellFormed := by
  intro a n ha
  rw [create_files]
  rcases eq_or_ne a k with rfl | hne
  · rw [create_entry_self] at ha
    have heq := Option.some.inj ha
    omega
  · rw [create_entry_ne v hne] at ha
    have hlt := h a n ha
    omega

lemma WellFormed.unlink (h : v.WellFormed) (k : κ) : (v.unlink k).WellFormed := by
  intro a n ha
  rcases eq_or_ne a k with rfl | hne
  · rw [unlink_entry_self] at ha
    cases ha
  · rw [unlink_entry_ne v hne] at ha
    exact h a n ha

lemma WellFormed.rename (h : v.WellFormed) (a b : κ) : (v.rename a b).WellFormed := by
  intro k n hk
  rw [rename_files]
  by_cases hb : k = b
  · rw [hb, rename_entry_target] at hk
    exact h a n hk
  · by_cases hsame : v.entry a = v.entry b
    · rw [Volume.rename, if_pos hsame] at hk
      exact h k n hk
    · by_cases ha : k = a
      · rw [ha, rename_entry_source v hsame] at hk
        cases hk
      · rw [rename_entry_ne v ha hb] at hk
        exact h k n hk

lemma read_create (h : v.WellFormed) (hk : a ≠ k) : (v.create k).read a = v.read a := by
  rw [read, read, create_entry_ne v hk]
  cases ha : v.entry a with
  | none => rfl
  | some m => rw [Option.map_some, Option.map_some, create_content_ne v (Nat.ne_of_lt (h a m ha))]

lemma read_unlink (h : a ≠ k) : (v.unlink k).read a = v.read a := by
  rw [read, read, unlink_entry_ne v h, unlink_content]

@[simp] lemma read_rename_target : (v.rename a b).read b = v.read a := by
  rw [read, read, rename_entry_target, rename_content]

lemma read_rename_ne (ha : k ≠ a) (hb : k ≠ b) : (v.rename a b).read k = v.read k := by
  rw [read, read, rename_entry_ne v ha hb, rename_content]

end Volume

end ServerCore.Foundations
