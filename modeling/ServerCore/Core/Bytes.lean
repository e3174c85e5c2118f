import Mathlib.Algebra.Order.Ring.Int
import Mathlib.Data.List.Basic
import Mathlib.Data.List.Infix

/-! Byte strings with the `std::string_view` operations the sources use, and
the 64-bit `std::size_t` arithmetic. -/

namespace ServerCore.Core

abbrev Byte := UInt8
abbrev Bytes := List Byte

def ascii (text : String) : Bytes := text.toList.map fun c => UInt8.ofNat c.toNat

lemma ascii_eq {text : String} {characters : List Char} (h : text = String.ofList characters) :
    ascii text = characters.map fun c => UInt8.ofNat c.toNat := by
  rw [h, ascii, String.toList_ofList]

/-- `std::copy` to an offset into memory that holds room for it. -/
def overwrite {α : Type*} (memory : List α) (offset : ℕ) (source : List α) : List α :=
  memory.take offset ++ source ++ memory.drop (offset + source.length)

lemma overwrite_length {α : Type*} {memory source : List α} {offset : ℕ} (h : offset + source.length ≤ memory.length) :
    (overwrite memory offset source).length = memory.length := by
  simp only [overwrite, List.length_append, List.length_take, List.length_drop]
  omega

lemma overwrite_append {α : Type*} {front old rest source : List α} {offset : ℕ} (hfront : front.length = offset)
    (hold : old.length = source.length) : overwrite (front ++ old ++ rest) offset source = front ++ source ++ rest := by
  have hend : (front ++ old).length = offset + source.length := by
    rw [List.length_append, hfront, hold]
  rw [overwrite, ← hend, List.drop_left, List.append_assoc front old, List.take_left' hfront]

def sizeModulus : ℕ := 2 ^ 64

/-- Subtraction of `std::size_t` values: it wraps around below zero. -/
def sizeSub (a b : ℕ) : ℕ := if b ≤ a then a - b else a + sizeModulus - b

lemma sizeSub_eq {a b : ℕ} (h : b ≤ a) : sizeSub a b = a - b := if_pos h

/-- `string_view::find`: the offset of the first occurrence, `none` for `npos`. -/
def find (pattern : Bytes) : Bytes → Option ℕ
  | [] => if pattern.isEmpty then some 0 else none
  | b :: rest => if pattern.isPrefixOf (b :: rest) then some 0 else (find pattern rest).map (· + 1)

lemma find_nil (pattern : Bytes) : find pattern [] = if pattern.isEmpty then some 0 else none := rfl

lemma find_cons (pattern : Bytes) (b : Byte) (rest : Bytes) :
    find pattern (b :: rest) = if pattern.isPrefixOf (b :: rest) then some 0 else (find pattern rest).map (· + 1) := rfl

/-- `string_view::find_first_of` and, with the complement, `find_first_not_of`. -/
def findFirst (p : Byte → Bool) (text : Bytes) : Option ℕ := text.findIdx? p

def upTo (text : Bytes) : Option ℕ → Bytes
  | some n => text.take n
  | none => text

def startsWith (text pattern : Bytes) : Bool := pattern.isPrefixOf text

lemma isPrefixOf_append {pattern x y : Bytes} (h : pattern.length ≤ x.length) :
    pattern.isPrefixOf (x ++ y) = pattern.isPrefixOf x := by
  rw [Bool.eq_iff_iff, List.isPrefixOf_iff_prefix, List.isPrefixOf_iff_prefix]
  exact ⟨fun hp => List.prefix_of_prefix_length_le hp (List.prefix_append x y) h,
    fun hp => hp.trans (List.prefix_append x y)⟩

lemma isPrefixOf_append_of_true {pattern x : Bytes} (y : Bytes) (h : pattern.isPrefixOf x = true) :
    pattern.isPrefixOf (x ++ y) = true := by
  rw [List.isPrefixOf_iff_prefix] at h ⊢
  exact h.trans (List.prefix_append x y)

lemma find_bound {pattern x : Bytes} {n : ℕ} (h : find pattern x = some n) :
    n + pattern.length ≤ x.length := by
  induction x generalizing n with
  | nil =>
    cases pattern with
    | nil =>
      obtain rfl : 0 = n := by simpa [find_nil] using h
      simp
    | cons => simp [find_nil] at h
  | cons b rest ih =>
    simp only [find_cons] at h
    split at h
    · rename_i hp
      obtain rfl : 0 = n := by simpa using h
      simpa using (List.isPrefixOf_iff_prefix.mp hp).length_le
    · obtain ⟨m, hm, rfl⟩ := Option.map_eq_some_iff.mp h
      have := ih hm
      simp only [List.length_cons]
      omega

lemma find_append {pattern x : Bytes} {n : ℕ} (y : Bytes) (h : find pattern x = some n) :
    find pattern (x ++ y) = some n := by
  induction x generalizing n with
  | nil =>
    cases pattern with
    | nil => cases y <;> simp_all [find_nil, find_cons, List.isPrefixOf]
    | cons => simp [find_nil] at h
  | cons b rest ih =>
    simp only [find_cons, List.cons_append] at h ⊢
    split at h
    · rename_i hp
      rw [← List.cons_append, if_pos (isPrefixOf_append_of_true y hp)]
      exact h
    · rename_i hp
      obtain ⟨m, hm, rfl⟩ := Option.map_eq_some_iff.mp h
      have hb := find_bound hm
      rw [← List.cons_append, isPrefixOf_append (by simp only [List.length_cons]; omega), if_neg hp, ih hm]
      rfl

lemma find_append_none {pattern x y : Bytes} {n : ℕ} (h : find pattern x = none)
    (h' : find pattern (x ++ y) = some n) : x.length < n + pattern.length := by
  induction x generalizing n with
  | nil =>
    cases pattern with
    | nil => simp [find_nil] at h
    | cons =>
      simp only [List.length_nil, List.length_cons]
      omega
  | cons b rest ih =>
    simp only [find_cons, List.cons_append] at h h'
    split at h
    · simp at h
    · rename_i hp
      rw [Option.map_eq_none_iff] at h
      split at h'
      · rename_i hp'
        rw [← List.cons_append] at hp'
        obtain rfl : 0 = n := by simpa using h'
        by_contra hl
        rw [isPrefixOf_append (by omega)] at hp'
        exact hp hp'
      · obtain ⟨m, hm, rfl⟩ := Option.map_eq_some_iff.mp h'
        have := ih h hm
        simp only [List.length_cons]
        omega

lemma find_starts {pattern x : Bytes} {n : ℕ} (h : find pattern x = some n) : pattern <+: x.drop n := by
  induction x generalizing n with
  | nil =>
    cases pattern with
    | nil => simp
    | cons => simp [find_nil] at h
  | cons b rest ih =>
    simp only [find_cons] at h
    split at h
    · rename_i hp
      obtain rfl : 0 = n := by simpa using h
      exact List.isPrefixOf_iff_prefix.mp hp
    · obtain ⟨m, hm, rfl⟩ := Option.map_eq_some_iff.mp h
      exact ih hm

lemma find_le {pattern x : Bytes} {j : ℕ} (hj : j ≤ x.length) (h : pattern <+: x.drop j) :
    ∃ n ≤ j, find pattern x = some n := by
  induction x generalizing j with
  | nil =>
    obtain rfl : j = 0 := by simpa using hj
    have hp : pattern = [] := by simpa using h
    exact ⟨0, le_rfl, by simp [find_nil, hp]⟩
  | cons b rest ih =>
    simp only [find_cons]
    split
    · exact ⟨0, by omega, rfl⟩
    · rename_i hp
      cases j with
      | zero => exact absurd (List.isPrefixOf_iff_prefix.mpr h) hp
      | succ j =>
        obtain ⟨n, hn, hf⟩ := ih (by simpa using hj) h
        exact ⟨n + 1, by omega, by rw [hf]; rfl⟩

lemma find_eq_some {pattern x : Bytes} {n : ℕ} (hn : n ≤ x.length) (h : pattern <+: x.drop n)
    (hbefore : ∀ j < n, ¬ pattern <+: x.drop j) : find pattern x = some n := by
  obtain ⟨m, hm, hf⟩ := find_le hn h
  rcases hm.lt_or_eq with hlt | rfl
  · exact absurd (find_starts hf) (hbefore m hlt)
  · exact hf

lemma find_eq_none {pattern x : Bytes} (h : ∀ j ≤ x.length, ¬ pattern <+: x.drop j) : find pattern x = none := by
  cases hf : find pattern x with
  | none => rfl
  | some n =>
    have hb := find_bound hf
    exact absurd (find_starts hf) (h n (by omega))

lemma findIdx?_mid {a : Bytes} {c : Byte} (ha : c ∉ a) (b : Bytes) :
    (a ++ c :: b).findIdx? (· = c) = some a.length := by
  induction a with
  | nil =>
    rw [List.nil_append, List.findIdx?_cons, if_pos (by simp)]
    rfl
  | cons x a ih =>
    rw [List.mem_cons, not_or] at ha
    rw [List.cons_append, List.findIdx?_cons, if_neg (by simpa using Ne.symm ha.1), ih ha.2]
    rfl

lemma findIdx?_absent {a : Bytes} {c : Byte} (ha : c ∉ a) : a.findIdx? (· = c) = none := by
  rw [List.findIdx?_eq_none_iff]
  intro b hb
  rw [decide_eq_false_iff_not]
  rintro rfl
  exact ha hb

lemma findIdx?_split {c : Byte} {text : Bytes} {n : ℕ} (h : text.findIdx? (· = c) = some n) :
    text = text.take n ++ c :: text.drop (n + 1) ∧ c ∉ text.take n := by
  obtain ⟨hlt, hat, hbefore⟩ := List.findIdx?_eq_some_iff_getElem.mp h
  have hc : text[n] = c := by simpa using hat
  refine ⟨?_, ?_⟩
  · rw [← hc, ← List.drop_eq_getElem_cons hlt, List.take_append_drop]
  · intro hmem
    obtain ⟨i, hi, heq⟩ := List.mem_take_iff_getElem.mp hmem
    have := hbefore i (by omega)
    simp [heq] at this

lemma findIdx?_none {c : Byte} {text : Bytes} (h : text.findIdx? (· = c) = none) : c ∉ text := by
  intro hmem
  have := List.findIdx?_eq_none_iff.mp h c hmem
  simp at this

lemma not_mem_intercalate {c d : Byte} (hne : c ≠ d) {fields : List Bytes} (h : ∀ field ∈ fields, c ∉ field) :
    c ∉ [d].intercalate fields := by
  induction fields with
  | nil => simp
  | cons field fields ih =>
    have htail := ih fun l hl => h l (List.mem_cons_of_mem _ hl)
    have hhead := h field List.mem_cons_self
    cases fields with
    | nil => simpa using hhead
    | cons next fields =>
      rw [List.intercalate_cons_cons, List.mem_append, List.mem_append, List.mem_singleton]
      rintro ((hin | heq) | hin)
      · exact hhead hin
      · exact hne heq
      · exact htail hin

/-- Reading digits in `base` with `std::from_chars` into a `std::size_t`: `none` is
`result_out_of_range`. -/
def fromCharsSize (base : ℕ) (digit : Byte → ℕ) (text : Bytes) : Option ℕ :=
  let value := text.foldl (fun acc b => acc * base + digit b) 0
  if value < sizeModulus then some value else none

def isDigit (b : Byte) : Bool := 48 ≤ b && b ≤ 57

def hexDigit (b : Byte) : ℕ :=
  if isDigit b then b.toNat - 48 else if 97 ≤ b then b.toNat - 97 + 10 else b.toNat - 65 + 10

def isHexDigit (b : Byte) : Bool :=
  isDigit b || (97 ≤ b && b ≤ 102) || (65 ≤ b && b ≤ 70)

def hexDigit? (b : Byte) : Option ℕ := if isHexDigit b then some (hexDigit b) else none

lemma byte_cases {P : Byte → Prop} (h : ∀ n < 256, P (UInt8.ofNat n)) (b : Byte) : P b := by
  have := h b.toNat b.toNat_lt
  rwa [UInt8.ofNat_toNat] at this

lemma shifted_step (n : ℕ) {j k : ℕ} (h : j = k + 8) : n / 2 ^ j * 256 + n / 2 ^ k % 256 = n / 2 ^ k := by
  rw [h, Nat.pow_add, ← Nat.div_div_eq_div_mul]
  exact Nat.div_add_mod' (n / 2 ^ k) 256

lemma shifted_eight {n : ℕ} (h : n < 2 ^ 64) :
    ((((((n / 2 ^ 56 % 256 * 256 + n / 2 ^ 48 % 256) * 256 + n / 2 ^ 40 % 256) * 256 + n / 2 ^ 32 % 256) * 256 +
      n / 2 ^ 24 % 256) * 256 + n / 2 ^ 16 % 256) * 256 + n / 2 ^ 8 % 256) * 256 + n / 2 ^ 0 % 256 = n := by
  have htop : n / 2 ^ 56 < 256 := Nat.div_lt_of_lt_mul (by rw [← Nat.pow_add 2 56 8]; exact h)
  rw [Nat.mod_eq_of_lt htop, shifted_step n (rfl : 56 = 48 + 8), shifted_step n (rfl : 48 = 40 + 8),
    shifted_step n (rfl : 40 = 32 + 8), shifted_step n (rfl : 32 = 24 + 8), shifted_step n (rfl : 24 = 16 + 8),
    shifted_step n (rfl : 16 = 8 + 8), shifted_step n (rfl : 8 = 0 + 8), Nat.pow_zero, Nat.div_one]

end ServerCore.Core
