import ServerCore.Core.Bytes

/-! `std::to_chars` for integers. -/

namespace ServerCore.Core

def digitChar (n : ℕ) : Byte := UInt8.ofNat (if n < 10 then 48 + n else 87 + n)

def toCharsLoop (base : ℕ) : ℕ → ℕ → Bytes
  | 0, n => [digitChar n]
  | fuel + 1, n => if n < base then [digitChar n] else toCharsLoop base fuel (n / base) ++ [digitChar (n % base)]

def toChars (base n : ℕ) : Bytes := toCharsLoop base n n

def toCharsInteger (n : ℤ) : Bytes := if n < 0 then 45 :: toChars 10 n.natAbs else toChars 10 n.natAbs

lemma digitChar_decimal : ∀ d < 10, isDigit (digitChar d) = true ∧ (digitChar d).toNat - 48 = d := by decide

lemma digitChar_hex : ∀ d < 16, isHexDigit (digitChar d) = true ∧ hexDigit (digitChar d) = d := by decide

section Loop

variable {base n : ℕ}

lemma toCharsLoop_fuel (hbase : 2 ≤ base) {fuel fuel' : ℕ} (h : n ≤ fuel) (h' : n ≤ fuel') :
    toCharsLoop base fuel n = toCharsLoop base fuel' n := by
  induction fuel generalizing n fuel' with
  | zero =>
    obtain rfl : n = 0 := by omega
    cases fuel' with
    | zero => rfl
    | succ fuel' => rw [toCharsLoop, toCharsLoop, if_pos (by omega)]
  | succ fuel ih =>
    cases fuel' with
    | zero =>
      obtain rfl : n = 0 := by omega
      rw [toCharsLoop, toCharsLoop, if_pos (by omega)]
    | succ fuel' =>
      rw [toCharsLoop, toCharsLoop]
      split_ifs with hn
      · rfl
      · have hlt : n / base < n := Nat.div_lt_self (by omega) (by omega)
        have hloop := @ih (n / base) fuel' (by omega) (by omega)
        rw [hloop]

lemma toChars_of_lt (h : n < base) : toChars base n = [digitChar n] := by
  cases n with
  | zero => rfl
  | succ n => rw [toChars, toCharsLoop, if_pos h]

lemma toChars_of_le (hbase : 2 ≤ base) (h : base ≤ n) :
    toChars base n = toChars base (n / base) ++ [digitChar (n % base)] := by
  have hlt : n / base < n := Nat.div_lt_self (by omega) (by omega)
  cases n with
  | zero => omega
  | succ n =>
    rw [toChars, toCharsLoop, if_neg (by omega), toChars]
    rw [toCharsLoop_fuel hbase (by omega) le_rfl]

end Loop

variable {base : ℕ} (hbase : 2 ≤ base)

include hbase

lemma toChars_ne_nil (n : ℕ) : toChars base n ≠ [] := by
  by_cases h : n < base
  · simp [toChars_of_lt h]
  · simp [toChars_of_le hbase (by omega : base ≤ n)]

lemma mem_toChars {n : ℕ} {b : Byte} (h : b ∈ toChars base n) : ∃ d < base, b = digitChar d := by
  induction n using Nat.strong_induction_on with
  | _ n ih =>
    by_cases hn : n < base
    · rw [toChars_of_lt hn] at h
      exact ⟨n, hn, List.mem_singleton.mp h⟩
    · rw [toChars_of_le hbase (by omega)] at h
      rcases List.mem_append.mp h with h | h
      · exact ih _ (Nat.div_lt_self (by omega) (by omega)) h
      · exact ⟨n % base, Nat.mod_lt _ (by omega), List.mem_singleton.mp h⟩

lemma foldl_toChars (digit : Byte → ℕ) (hdigit : ∀ d < base, digit (digitChar d) = d) (n : ℕ) :
    (toChars base n).foldl (fun value b => value * base + digit b) 0 = n := by
  induction n using Nat.strong_induction_on with
  | _ n ih =>
    by_cases hn : n < base
    · rw [toChars_of_lt hn, List.foldl_cons, List.foldl_nil, hdigit n hn]
      omega
    · rw [toChars_of_le hbase (by omega), List.foldl_append,
        ih _ (Nat.div_lt_self (by omega) (by omega)), List.foldl_cons, List.foldl_nil,
        hdigit _ (Nat.mod_lt _ (by omega))]
      exact Nat.div_add_mod' n base

lemma toChars_length_le {n digits : ℕ} (h : n < base ^ (digits + 1)) : (toChars base n).length ≤ digits + 1 := by
  induction digits generalizing n with
  | zero =>
    rw [toChars_of_lt (by simpa using h)]
    simp
  | succ digits ih =>
    by_cases hn : n < base
    · simp [toChars_of_lt hn]
    · have hq : n / base < base ^ (digits + 1) := by
        rw [Nat.div_lt_iff_lt_mul (by omega)]
        exact h
      rw [toChars_of_le hbase (by omega), List.length_append, List.length_singleton]
      have := ih hq
      omega

lemma toChars_head {n : ℕ} (h : n ≠ 0) : ∃ d rest, 0 < d ∧ d < base ∧ toChars base n = digitChar d :: rest := by
  induction n using Nat.strong_induction_on with
  | _ n ih =>
    by_cases hn : n < base
    · exact ⟨n, [], by omega, hn, toChars_of_lt hn⟩
    · have hq : n / base ≠ 0 := (Nat.div_pos (by omega) (by omega)).ne'
      obtain ⟨d, rest, hd, hlt, heq⟩ := ih _ (Nat.div_lt_self (by omega) (by omega)) hq
      refine ⟨d, rest ++ [digitChar (n % base)], hd, hlt, ?_⟩
      rw [toChars_of_le hbase (by omega), heq, List.cons_append]

omit hbase

lemma isDigit_toChars {n : ℕ} {b : Byte} (h : b ∈ toChars 10 n) : isDigit b = true := by
  obtain ⟨d, hd, rfl⟩ := mem_toChars (by decide) h
  exact (digitChar_decimal d hd).1

lemma isHexDigit_toChars {n : ℕ} {b : Byte} (h : b ∈ toChars 16 n) : isHexDigit b = true := by
  obtain ⟨d, hd, rfl⟩ := mem_toChars (by decide) h
  exact (digitChar_hex d hd).1

end ServerCore.Core
