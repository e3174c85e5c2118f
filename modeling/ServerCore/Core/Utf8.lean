import Mathlib.Data.List.Basic
import ServerCore.Core.Bytes

/-! UTF-8 as `Utf8.cpp` decides it and as the JSON parser writes it, with the
agreement of the two. -/

namespace ServerCore.Core

def appendUtf8 (codePoint : ℕ) : Bytes :=
  if codePoint ≤ 0x7F then [UInt8.ofNat codePoint]
  else if codePoint ≤ 0x7FF then
    [UInt8.ofNat (0xC0 ||| (codePoint >>> 6)), UInt8.ofNat (0x80 ||| (codePoint &&& 0x3F))]
  else if codePoint ≤ 0xFFFF then
    [UInt8.ofNat (0xE0 ||| (codePoint >>> 12)), UInt8.ofNat (0x80 ||| ((codePoint >>> 6) &&& 0x3F)),
      UInt8.ofNat (0x80 ||| (codePoint &&& 0x3F))]
  else
    [UInt8.ofNat (0xF0 ||| (codePoint >>> 18)), UInt8.ofNat (0x80 ||| ((codePoint >>> 12) &&& 0x3F)),
      UInt8.ofNat (0x80 ||| ((codePoint >>> 6) &&& 0x3F)), UInt8.ofNat (0x80 ||| (codePoint &&& 0x3F))]

def utf8Lead (lead : ℕ) : Option (ℕ × ℕ × ℕ) :=
  if lead < 0x80 then some (0, lead, 0)
  else if lead &&& 0xE0 = 0xC0 then some (1, lead &&& 0x1F, 0x80)
  else if lead &&& 0xF0 = 0xE0 then some (2, lead &&& 0x0F, 0x800)
  else if lead &&& 0xF8 = 0xF0 then some (3, lead &&& 0x07, 0x10000)
  else none

def utf8Continue : ℕ → Bytes → Option ℕ
  | codePoint, [] => some codePoint
  | codePoint, b :: rest =>
    if b.toNat &&& 0xC0 ≠ 0x80 then none
    else utf8Continue ((codePoint <<< 6) ||| (b.toNat &&& 0x3F)) rest

def isValidUtf8 : Bytes → Bool
  | [] => true
  | lead :: tail =>
    match utf8Lead lead.toNat with
    | none => false
    | some (continuationCount, bits, smallest) =>
      if 0 < continuationCount ∧ tail.length < continuationCount then false
      else
        match utf8Continue bits (tail.take continuationCount) with
        | none => false
        | some codePoint =>
          if codePoint < smallest ∨ (0xD800 ≤ codePoint ∧ codePoint ≤ 0xDFFF) ∨ 0x10FFFF < codePoint
          then false
          else isValidUtf8 (tail.drop continuationCount)
termination_by text => text.length
decreasing_by
  simp only [List.length_drop, List.length_cons]
  omega

def Utf8 (text : Bytes) : Prop := ∃ chars : List Char, text = chars.flatMap fun c => appendUtf8 c.toNat

section Bits

lemma and_mask (n k : ℕ) : n &&& (2 ^ k - 1) = n % 2 ^ k := Nat.and_two_pow_sub_one_eq_mod n k

lemma shiftLeft_six_or (n m : ℕ) : (n <<< 6) ||| (m &&& 0x3F) = n * 64 + m % 64 := by
  rw [show (0x3F : ℕ) = 2 ^ 6 - 1 from rfl, and_mask,
    ← Nat.shiftLeft_add_eq_or_of_lt (Nat.mod_lt _ (by decide)), Nat.shiftLeft_eq]

lemma lead_or {x : ℕ} (a k : ℕ) (h : x < 2 ^ k) : (a <<< k) ||| x = a * 2 ^ k + x := by
  rw [← Nat.shiftLeft_add_eq_or_of_lt h, Nat.shiftLeft_eq]

lemma high_bits (b : Byte) : b.toNat &&& 0xC0 = b.toNat / 64 * 64 ∧ b.toNat &&& 0xE0 = b.toNat / 32 * 32 ∧
    b.toNat &&& 0xF0 = b.toNat / 16 * 16 ∧ b.toNat &&& 0xF8 = b.toNat / 8 * 8 := by
  have h : ∀ n < 256, n &&& 0xC0 = n / 64 * 64 ∧ n &&& 0xE0 = n / 32 * 32 ∧ n &&& 0xF0 = n / 16 * 16 ∧
    n &&& 0xF8 = n / 8 * 8 := by decide +kernel
  exact h _ b.toNat_lt

lemma continuation_iff (b : Byte) : b.toNat &&& 0xC0 = 0x80 ↔ 0x80 ≤ b.toNat ∧ b.toNat < 0xC0 := by
  rw [(high_bits b).1]
  omega

lemma lead_two_iff (b : Byte) : b.toNat &&& 0xE0 = 0xC0 ↔ 0xC0 ≤ b.toNat ∧ b.toNat < 0xE0 := by
  rw [(high_bits b).2.1]
  omega

lemma lead_three_iff (b : Byte) : b.toNat &&& 0xF0 = 0xE0 ↔ 0xE0 ≤ b.toNat ∧ b.toNat < 0xF0 := by
  rw [(high_bits b).2.2.1]
  omega

lemma lead_four_iff (b : Byte) : b.toNat &&& 0xF8 = 0xF0 ↔ 0xF0 ≤ b.toNat ∧ b.toNat < 0xF8 := by
  rw [(high_bits b).2.2.2]
  omega

end Bits

lemma appendUtf8_eq {n : ℕ} (h : n ≤ 0x10FFFF) : appendUtf8 n =
    if n ≤ 0x7F then [UInt8.ofNat n]
    else if n ≤ 0x7FF then [UInt8.ofNat (0xC0 + n / 64), UInt8.ofNat (0x80 + n % 64)]
    else if n ≤ 0xFFFF then
      [UInt8.ofNat (0xE0 + n / 4096), UInt8.ofNat (0x80 + n / 64 % 64), UInt8.ofNat (0x80 + n % 64)]
    else
      [UInt8.ofNat (0xF0 + n / 262144), UInt8.ofNat (0x80 + n / 4096 % 64),
        UInt8.ofNat (0x80 + n / 64 % 64), UInt8.ofNat (0x80 + n % 64)] := by
  have hc (m : ℕ) : 0x80 ||| (m &&& 0x3F) = 0x80 + m % 64 := by
    rw [show (0x3F : ℕ) = 2 ^ 6 - 1 from rfl, and_mask]
    exact lead_or 2 6 (Nat.mod_lt _ (by decide))
  simp only [appendUtf8, hc, Nat.shiftRight_eq_div_pow, Nat.reducePow]
  split_ifs with h1 h2 h3
  · rfl
  · have hl : 0xC0 ||| n / 64 = 0xC0 + n / 64 := lead_or 6 5 (by omega)
    rw [hl]
  · have hl : 0xE0 ||| n / 4096 = 0xE0 + n / 4096 := lead_or 14 4 (by omega)
    rw [hl]
  · have hl : 0xF0 ||| n / 262144 = 0xF0 + n / 262144 := lead_or 30 3 (by omega)
    rw [hl]

lemma utf8Lead_eq (lead : Byte) : utf8Lead lead.toNat =
    if lead.toNat < 0x80 then some (0, lead.toNat, 0)
    else if 0xC0 ≤ lead.toNat ∧ lead.toNat < 0xE0 then some (1, lead.toNat % 32, 0x80)
    else if 0xE0 ≤ lead.toNat ∧ lead.toNat < 0xF0 then some (2, lead.toNat % 16, 0x800)
    else if 0xF0 ≤ lead.toNat ∧ lead.toNat < 0xF8 then some (3, lead.toNat % 8, 0x10000)
    else none := by
  have h5 := and_mask lead.toNat 5
  have h4 := and_mask lead.toNat 4
  have h3 := and_mask lead.toNat 3
  simp only [Nat.reducePow, Nat.add_one_sub_one] at h5 h4 h3
  simp only [utf8Lead, lead_two_iff, lead_three_iff, lead_four_iff, h5, h4, h3]

lemma utf8Lead_cases {lead : Byte} {count bits smallest : ℕ}
    (h : utf8Lead lead.toNat = some (count, bits, smallest)) :
    (count = 0 ∧ bits = lead.toNat ∧ smallest = 0 ∧ lead.toNat < 0x80) ∨
    (count = 1 ∧ bits = lead.toNat % 32 ∧ smallest = 0x80 ∧ 0xC0 ≤ lead.toNat ∧ lead.toNat < 0xE0) ∨
    (count = 2 ∧ bits = lead.toNat % 16 ∧ smallest = 0x800 ∧ 0xE0 ≤ lead.toNat ∧ lead.toNat < 0xF0) ∨
    (count = 3 ∧ bits = lead.toNat % 8 ∧ smallest = 0x10000 ∧ 0xF0 ≤ lead.toNat ∧ lead.toNat < 0xF8) := by
  rw [utf8Lead_eq] at h
  split_ifs at h <;> simp only [Option.some.injEq, Prod.mk.injEq] at h <;> omega

lemma utf8Continue_eq_some {bits codePoint : ℕ} {b : Byte} {rest : Bytes} :
    utf8Continue bits (b :: rest) = some codePoint ↔
      0x80 ≤ b.toNat ∧ b.toNat < 0xC0 ∧
        utf8Continue (bits * 64 + b.toNat % 64) rest = some codePoint := by
  simp only [utf8Continue, shiftLeft_six_or, ne_eq, continuation_iff]
  split_ifs with h
  · simp [h.1, h.2]
  · simp only [false_iff]
    omega

lemma exists_char {n : ℕ} (h : n.isValidChar) : ∃ c : Char, c.toNat = n := by
  have hlt : n < UInt32.size := by
    have : UInt32.size = 4294967296 := rfl
    simp only [Nat.isValidChar] at h
    omega
  exact ⟨⟨UInt32.ofNatLT n hlt, h⟩, rfl⟩

lemma char_toNat_range (c : Char) : c.toNat < 0xD800 ∨ (0xDFFF < c.toNat ∧ c.toNat < 0x110000) := c.valid

lemma ofNat_eq_byte {n : ℕ} {b : Byte} (h : n = b.toNat) : UInt8.ofNat n = b := by
  rw [h, UInt8.ofNat_toNat]

lemma isValidUtf8_cons {lead : Byte} {tail : Bytes} (h : isValidUtf8 (lead :: tail) = true) :
    ∃ (c : Char) (rest : Bytes), lead :: tail = appendUtf8 c.toNat ++ rest ∧ isValidUtf8 rest = true ∧
      rest.length ≤ tail.length := by
  rw [isValidUtf8] at h
  cases hl : utf8Lead lead.toNat with
  | none => simp [hl] at h
  | some announced =>
    obtain ⟨count, bits, smallest⟩ := announced
    simp only [hl] at h
    split_ifs at h with hlen
    cases hc : utf8Continue bits (tail.take count) with
    | none => simp [hc] at h
    | some n =>
      simp only [hc] at h
      split_ifs at h with hrange
      obtain ⟨c, hcn⟩ := exists_char (n := n) (by simp only [Nat.isValidChar]; omega)
      refine ⟨c, tail.drop count, ?_, h, by simp⟩
      rw [hcn, appendUtf8_eq (by omega)]
      have hlead := lead.toNat_lt
      rcases utf8Lead_cases hl with ⟨rfl, rfl, rfl, h0⟩ | ⟨rfl, rfl, rfl, h0, h1⟩ |
        ⟨rfl, rfl, rfl, h0, h1⟩ | ⟨rfl, rfl, rfl, h0, h1⟩
      · simp only [List.take_zero, utf8Continue, Option.some.injEq] at hc
        rw [if_pos (by omega), ofNat_eq_byte hc.symm]
        rfl
      · obtain _ | ⟨b1, rest⟩ := tail
        · simp at hlen
        simp only [List.take_succ_cons, List.take_zero, utf8Continue_eq_some] at hc
        simp only [utf8Continue, Option.some.injEq] at hc
        rw [if_neg (by omega), if_pos (by omega), ofNat_eq_byte (b := lead) (by omega),
          ofNat_eq_byte (b := b1) (by omega)]
        rfl
      · obtain _ | ⟨b1, _ | ⟨b2, rest⟩⟩ := tail
        · simp at hlen
        · simp at hlen
        simp only [List.take_succ_cons, List.take_zero, utf8Continue_eq_some] at hc
        simp only [utf8Continue, Option.some.injEq] at hc
        rw [if_neg (by omega), if_neg (by omega), if_pos (by omega),
          ofNat_eq_byte (b := lead) (by omega), ofNat_eq_byte (b := b1) (by omega),
          ofNat_eq_byte (b := b2) (by omega)]
        rfl
      · obtain _ | ⟨b1, _ | ⟨b2, _ | ⟨b3, rest⟩⟩⟩ := tail
        · simp at hlen
        · simp at hlen
        · simp at hlen
        simp only [List.take_succ_cons, List.take_zero, utf8Continue_eq_some] at hc
        simp only [utf8Continue, Option.some.injEq] at hc
        rw [if_neg (by omega), if_neg (by omega), if_neg (by omega),
          ofNat_eq_byte (b := lead) (by omega), ofNat_eq_byte (b := b1) (by omega),
          ofNat_eq_byte (b := b2) (by omega), ofNat_eq_byte (b := b3) (by omega)]
        rfl

lemma appendUtf8_announced {n : ℕ} (h : n ≤ 0x10FFFF) : ∃ lead tail bits smallest, appendUtf8 n = lead :: tail ∧
    utf8Lead lead.toNat = some (tail.length, bits, smallest) ∧ utf8Continue bits tail = some n ∧ smallest ≤ n := by
  have hb (m : ℕ) (h : m < 256) : (UInt8.ofNat m).toNat = m := by
    rw [UInt8.toNat_ofNat']
    omega
  rw [appendUtf8_eq h]
  split_ifs with h1 h2 h3
  · refine ⟨_, _, _, _, rfl, ?_, rfl, Nat.zero_le n⟩
    rw [utf8Lead_eq, hb _ (by omega), if_pos (by omega), List.length_nil]
  · refine ⟨_, _, (0xC0 + n / 64) % 32, 0x80, rfl, ?_, ?_, by omega⟩
    · rw [utf8Lead_eq, hb _ (by omega), if_neg (by omega), if_pos (by omega)]
      rfl
    · rw [utf8Continue_eq_some, hb _ (by omega), utf8Continue, Option.some.injEq]
      omega
  · refine ⟨_, _, (0xE0 + n / 4096) % 16, 0x800, rfl, ?_, ?_, by omega⟩
    · rw [utf8Lead_eq, hb _ (by omega), if_neg (by omega), if_neg (by omega), if_pos (by omega)]
      rfl
    · rw [utf8Continue_eq_some, utf8Continue_eq_some, hb _ (by omega), hb _ (by omega), utf8Continue, Option.some.injEq]
      omega
  · refine ⟨_, _, (0xF0 + n / 262144) % 8, 0x10000, rfl, ?_, ?_, by omega⟩
    · rw [utf8Lead_eq, hb _ (by omega), if_neg (by omega), if_neg (by omega), if_neg (by omega), if_pos (by omega)]
      rfl
    · rw [utf8Continue_eq_some, utf8Continue_eq_some, utf8Continue_eq_some, hb _ (by omega), hb _ (by omega),
        hb _ (by omega), utf8Continue, Option.some.injEq]
      omega

lemma isValidUtf8_append (c : Char) (rest : Bytes) :
    isValidUtf8 (appendUtf8 c.toNat ++ rest) = isValidUtf8 rest := by
  have hr := char_toNat_range c
  generalize c.toNat = n at hr
  obtain ⟨lead, tail, bits, smallest, happend, hlead, hcontinue, hsmallest⟩ := @appendUtf8_announced n (by omega)
  rw [happend, List.cons_append, isValidUtf8, hlead]
  dsimp only
  rw [if_neg (by rw [List.length_append]; omega), List.take_left, List.drop_left, hcontinue]
  dsimp only
  rw [if_neg (by omega)]

lemma isValidUtf8_chars_append (chars : List Char) (rest : Bytes) :
    isValidUtf8 ((chars.flatMap fun c => appendUtf8 c.toNat) ++ rest) = isValidUtf8 rest := by
  induction chars with
  | nil => rfl
  | cons c chars ih => rw [List.flatMap_cons, List.append_assoc, isValidUtf8_append, ih]

lemma isValidUtf8_iff (text : Bytes) : isValidUtf8 text = true ↔ Utf8 text := by
  constructor
  · intro h
    induction hn : text.length using Nat.strong_induction_on generalizing text with
    | _ n ih =>
      cases text with
      | nil => exact ⟨[], rfl⟩
      | cons lead tail =>
        obtain ⟨c, rest, heq, hrest, hle⟩ := isValidUtf8_cons h
        obtain ⟨chars, rfl⟩ := ih rest.length (by rw [← hn, List.length_cons]; omega) rest hrest rfl
        exact ⟨c :: chars, heq⟩
  · rintro ⟨chars, rfl⟩
    have h := isValidUtf8_chars_append chars []
    rwa [List.append_nil, isValidUtf8] at h

lemma Utf8.append {x y : Bytes} (hx : Utf8 x) (hy : Utf8 y) : Utf8 (x ++ y) := by
  obtain ⟨cs, rfl⟩ := hx
  obtain ⟨ds, rfl⟩ := hy
  exact ⟨cs ++ ds, by rw [List.flatMap_append]⟩

lemma appendUtf8_ascii {b : Byte} (h : b < 0x80) : appendUtf8 b.toNat = [b] := by
  have hb : b.toNat < 0x80 := UInt8.lt_iff_toNat_lt.mp h
  rw [appendUtf8, if_pos (by omega), UInt8.ofNat_toNat]

lemma appendUtf8_not_ascii {n : ℕ} (h : 0x80 ≤ n) (hn : n ≤ 0x10FFFF) : ∀ b ∈ appendUtf8 n, 0x80 ≤ b := by
  have hb (m : ℕ) (hm : 0x80 ≤ m) (hm' : m < 256) : 0x80 ≤ UInt8.ofNat m := by
    rw [UInt8.le_iff_toNat_le, UInt8.toNat_ofNat']
    simp only [UInt8.reduceToNat]
    omega
  rw [appendUtf8_eq hn, if_neg (by omega)]
  split_ifs
  all_goals simp only [List.forall_mem_cons]
  · exact ⟨hb _ (by omega) (by omega), hb _ (by omega) (by omega), by simp⟩
  · exact ⟨hb _ (by omega) (by omega), hb _ (by omega) (by omega), hb _ (by omega) (by omega), by simp⟩
  · exact ⟨hb _ (by omega) (by omega), hb _ (by omega) (by omega), hb _ (by omega) (by omega),
      hb _ (by omega) (by omega), by simp⟩

lemma Utf8.ofAscii {text : Bytes} (h : ∀ b ∈ text, b < 0x80) : Utf8 text := by
  induction text with
  | nil => exact ⟨[], rfl⟩
  | cons b rest ih =>
    obtain ⟨c, hc⟩ := exists_char (n := b.toNat) (.inl (by have := b.toNat_lt; omega))
    have hb : Utf8 [b] := ⟨[c], by simp [hc, appendUtf8_ascii (h b (by simp))]⟩
    exact hb.append (ih fun b' hb' => h b' (by simp [hb']))

lemma Utf8.ofAll {text : Bytes} (h : text.all (· < 0x80) = true) : Utf8 text := by
  apply Utf8.ofAscii
  simpa using h

lemma Utf8.char (c : Char) : Utf8 (appendUtf8 c.toNat) := ⟨[c], by simp⟩

lemma appendUtf8_of_mem_ascii {c : Char} {b : Byte} (hb : b < 0x80) (h : b ∈ appendUtf8 c.toNat) :
    appendUtf8 c.toNat = [b] := by
  have hr := char_toNat_range c
  have hc : c.toNat < 0x80 := by
    by_contra hc
    have := appendUtf8_not_ascii (n := c.toNat) (by omega) (by omega) b h
    exact absurd hb (UInt8.not_lt.mpr this)
  rw [appendUtf8, if_pos (by omega)] at h ⊢
  rw [List.mem_singleton.mp h]

lemma Utf8.cut {b : Byte} (hb : b < 0x80) {x y : Bytes} (h : Utf8 (x ++ b :: y)) : Utf8 x ∧ Utf8 y := by
  obtain ⟨chars, h⟩ := h
  induction chars generalizing x with
  | nil =>
    have := congrArg List.length h
    simp at this
  | cons c chars ih =>
    rw [List.flatMap_cons] at h
    rcases List.append_eq_append_iff.mp h with ⟨z, hz, hrest⟩ | ⟨z, rfl, hrest⟩
    · cases z with
      | nil =>
        rw [List.append_nil] at hz
        rw [← hz]
        exact ⟨.char c, (@ih [] hrest).2⟩
      | cons b' z =>
        obtain ⟨rfl, rfl⟩ := List.cons.inj hrest
        have hone := appendUtf8_of_mem_ascii hb (by rw [hz]; simp)
        rw [hz] at hone
        obtain ⟨rfl, rfl⟩ : x = [] ∧ z = [] := by
          have := congrArg List.length hone
          simp only [List.length_append, List.length_cons, List.length_nil] at this
          exact ⟨List.eq_nil_of_length_eq_zero (by omega), List.eq_nil_of_length_eq_zero (by omega)⟩
        exact ⟨⟨[], rfl⟩, chars, rfl⟩
    · obtain ⟨hx, hy⟩ := ih hrest.symm
      exact ⟨(Utf8.char c).append hx, hy⟩

lemma Utf8.of_append_ascii {x w : Bytes} (hw : ∀ b ∈ w, b < 0x80) (h : Utf8 (x ++ w)) : Utf8 x := by
  cases w with
  | nil => rwa [List.append_nil] at h
  | cons b w => exact (Utf8.cut (hw b (by simp)) h).1

lemma Utf8.of_ascii_append {w y : Bytes} (hw : ∀ b ∈ w, b < 0x80) (h : Utf8 (w ++ y)) : Utf8 y := by
  induction w with
  | nil => exact h
  | cons b w ih =>
    rw [List.forall_mem_cons] at hw
    exact ih hw.2 (@Utf8.cut b hw.1 [] _ h).2

lemma Utf8.flatMap {f : Byte → Bytes} (hascii : ∀ b < 0x80, ∀ b' ∈ f b, b' < 0x80)
    (hother : ∀ b, 0x80 ≤ b → f b = [b]) {text : Bytes} (h : Utf8 text) : Utf8 (text.flatMap f) := by
  obtain ⟨chars, rfl⟩ := h
  induction chars with
  | nil => exact ⟨[], rfl⟩
  | cons c chars ih =>
    rw [List.flatMap_cons, List.flatMap_append]
    refine Utf8.append ?_ ih
    have hr := char_toNat_range c
    by_cases hc : c.toNat < 0x80
    · refine Utf8.ofAscii fun b' hb' => ?_
      rw [appendUtf8, if_pos (by omega), List.flatMap_singleton] at hb'
      refine hascii _ ?_ b' hb'
      rw [UInt8.lt_iff_toNat_lt, UInt8.toNat_ofNat']
      simp only [UInt8.reduceToNat]
      omega
    · have hbytes := appendUtf8_not_ascii (n := c.toNat) (by omega) (by omega)
      have hid : (appendUtf8 c.toNat).flatMap f = appendUtf8 c.toNat := by
        rw [List.flatMap_congr fun b hb => hother b (hbytes b hb)]
        exact List.flatMap_pure_eq_map id _ |>.trans (List.map_id _)
      exact ⟨[c], by simp [hid]⟩

end ServerCore.Core
