import ServerCore.Core.Bytes

/-! The handshake of a WebSocket: `Base64`, `Sha1` and `WebSocketAccept`. -/

namespace ServerCore.Web

open ServerCore.Core

def base64Alphabet : Bytes := ascii "ABCDEFGHIJKLMNOPQRSTUVWXYZabcdefghijklmnopqrstuvwxyz0123456789+/"

def base64Digit (n : ℕ) : Byte := base64Alphabet.getD n 0

def base64Group (first : Byte) (second third : Option Byte) : Bytes :=
  let a := first.toNat
  let b := (second.map UInt8.toNat).getD 0
  let c := (third.map UInt8.toNat).getD 0
  [base64Digit (a >>> 2), base64Digit (((a &&& 3) <<< 4) ||| (b >>> 4)),
    if second.isSome then base64Digit (((b &&& 15) <<< 2) ||| (c >>> 6)) else 61,
    if third.isSome then base64Digit (c &&& 63) else 61]

def base64 : Bytes → Bytes
  | [] => []
  | [first] => base64Group first none none
  | [first, second] => base64Group first (some second) none
  | first :: second :: third :: rest => base64Group first (some second) (some third) ++ base64 rest

section Sha1

structure Sha1Hash where
  a : BitVec 32
  b : BitVec 32
  c : BitVec 32
  d : BitVec 32
  e : BitVec 32

def sha1Prepare (text : Bytes) : Bytes :=
  let bits := text.length * 8 % 2 ^ 64
  let zeros : Bytes := List.replicate ((56 + 64 - (text.length + 1) % 64) % 64) 0
  let length : Bytes := (List.range 8).map fun index => UInt8.ofNat (bits >>> (56 - 8 * index))
  text ++ [128] ++ zeros ++ length

/-- The words of a block, the first `count` of those behind the sixteen that it holds. -/
def sha1Words (block : Bytes) : ℕ → List (BitVec 32)
  | 0 => (List.range 16).map fun index =>
      ((block.drop (index * 4)).take 4).foldl (fun word b => (word <<< 8) ||| BitVec.ofNat 32 b.toNat) 0
  | count + 1 =>
    let words := sha1Words block count
    let index := count + 16
    words ++ [(words.getD (index - 3) 0 ^^^ words.getD (index - 8) 0 ^^^ words.getD (index - 14) 0 ^^^
      words.getD (index - 16) 0).rotateLeft 1]

def sha1Round (index : ℕ) (h : Sha1Hash) : BitVec 32 × BitVec 32 :=
  if index < 20 then ((h.b &&& h.c) ||| (~~~h.b &&& h.d), 0x5a827999#32)
  else if index < 40 then (h.b ^^^ h.c ^^^ h.d, 0x6ed9eba1#32)
  else if index < 60 then ((h.b &&& h.c) ||| (h.b &&& h.d) ||| (h.c &&& h.d), 0x8f1bbcdc#32)
  else (h.b ^^^ h.c ^^^ h.d, 0xca62c1d6#32)

def sha1Rounds (h : Sha1Hash) (words : List (BitVec 32)) : Sha1Hash :=
  words.zipIdx.foldl (fun h (word, index) =>
    let (function, constant) := sha1Round index h
    ⟨h.a.rotateLeft 5 + function + h.e + constant + word, h.a, h.b.rotateLeft 30, h.c, h.d⟩) h

def sha1Block (h : Sha1Hash) (block : Bytes) : Sha1Hash :=
  let r := sha1Rounds h (sha1Words block 64)
  ⟨h.a + r.a, h.b + r.b, h.c + r.c, h.d + r.d, h.e + r.e⟩

def sha1Blocks : ℕ → Sha1Hash → Bytes → Sha1Hash
  | 0, h, _ => h
  | count + 1, h, bytes => sha1Blocks count (sha1Block h (bytes.take 64)) (bytes.drop 64)

def sha1 (text : Bytes) : Bytes :=
  let bytes := sha1Prepare text
  let initial : Sha1Hash := ⟨0x67452301#32, 0xefcdab89#32, 0x98badcfe#32, 0x10325476#32, 0xc3d2e1f0#32⟩
  let h := sha1Blocks (bytes.length / 64) initial bytes
  [h.a, h.b, h.c, h.d, h.e].flatMap fun (word : BitVec 32) =>
    (List.range 4).map fun byte => UInt8.ofNat (word >>> ((3 - byte) * 8)).toNat

end Sha1

def base64Find (c : Byte) : ℕ := (base64Alphabet.findIdx? (· = c)).getD (sizeModulus - 1)

def webSocketAccept (key : Bytes) : Option Bytes :=
  if key.length ≠ 24 ∨ key.drop 22 ≠ ascii "==" then none
  else if (key.take 22).any fun c => !base64Alphabet.contains c then none
  else if base64Find (key.getD 21 0) &&& 15 ≠ 0 then none
  else some (base64 (sha1 (key ++ ascii "258EAFA5-E914-47DA-95CA-C5AB0DC85B11")))

section Digits

lemma base64Alphabet_eq : base64Alphabet =
    [65, 66, 67, 68, 69, 70, 71, 72, 73, 74, 75, 76, 77, 78, 79, 80, 81, 82, 83, 84, 85, 86, 87, 88, 89, 90,
      97, 98, 99, 100, 101, 102, 103, 104, 105, 106, 107, 108, 109, 110, 111, 112, 113, 114, 115, 116, 117, 118, 119,
      120, 121, 122, 48, 49, 50, 51, 52, 53, 54, 55, 56, 57, 43, 47] :=
  (@ascii_eq "ABCDEFGHIJKLMNOPQRSTUVWXYZabcdefghijklmnopqrstuvwxyz0123456789+/" _ rfl).trans rfl

lemma base64Alphabet_length : base64Alphabet.length = 64 := by
  rw [base64Alphabet_eq]
  rfl

lemma base64Digit_mem {n : ℕ} (h : n < 64) : base64Digit n ∈ base64Alphabet := by
  rw [base64Digit, List.getD_eq_getElem?_getD, List.getElem?_eq_getElem (by rwa [base64Alphabet_length])]
  exact List.getElem_mem _

lemma base64Find_digit {n : ℕ} (h : n < 64) : base64Find (base64Digit n) = n := by
  have hall (letters : Bytes) (hletters : base64Alphabet = letters) :
      ∀ n < 64, (letters.findIdx? (· = letters.getD n 0)).getD (sizeModulus - 1) = n := by
    obtain rfl := base64Alphabet_eq.symm.trans hletters
    decide +kernel
  exact hall base64Alphabet rfl n h

lemma mem_base64Alphabet {c : Byte} (h : c ∈ base64Alphabet) : ∃ n < 64, c = base64Digit n := by
  obtain ⟨n, hn, heq⟩ := List.getElem_of_mem h
  have hlength := base64Alphabet_length
  refine ⟨n, by omega, ?_⟩
  rw [base64Digit, List.getD_eq_getElem?_getD, List.getElem?_eq_getElem hn, heq]
  rfl

end Digits

section Groups

lemma base64Group_full (a b c : Byte) : base64Group a (some b) (some c) =
    [base64Digit (a.toNat / 4), base64Digit (a.toNat % 4 * 16 + b.toNat / 16),
      base64Digit (b.toNat % 16 * 4 + c.toNat / 64), base64Digit (c.toNat % 64)] := by
  have hb : b.toNat / 16 < 2 ^ 4 := by have := b.toNat_lt; omega
  have hc : c.toNat / 64 < 2 ^ 2 := by have := c.toNat_lt; omega
  have hsecond : ((a.toNat &&& 3) <<< 4) ||| (b.toNat >>> 4) = a.toNat % 4 * 16 + b.toNat / 16 := by
    rw [Nat.and_two_pow_sub_one_eq_mod a.toNat 2, Nat.shiftRight_eq_div_pow, ← Nat.shiftLeft_add_eq_or_of_lt hb,
      Nat.shiftLeft_eq]
  have hthird : ((b.toNat &&& 15) <<< 2) ||| (c.toNat >>> 6) = b.toNat % 16 * 4 + c.toNat / 64 := by
    rw [Nat.and_two_pow_sub_one_eq_mod b.toNat 4, Nat.shiftRight_eq_div_pow, ← Nat.shiftLeft_add_eq_or_of_lt hc,
      Nat.shiftLeft_eq]
  have hfirst : a.toNat >>> 2 = a.toNat / 4 := Nat.shiftRight_eq_div_pow ..
  have hfourth : c.toNat &&& 63 = c.toNat % 64 := Nat.and_two_pow_sub_one_eq_mod _ 6
  simp only [base64Group, Option.map_some, Option.getD_some, Option.isSome_some, if_true, hfirst, hsecond, hthird,
    hfourth]

lemma base64Group_single (a : Byte) : base64Group a none none =
    [base64Digit (a.toNat / 4), base64Digit (a.toNat % 4 * 16), 61, 61] := by
  have hsecond : ((a.toNat &&& 3) <<< 4) ||| (0 >>> 4) = a.toNat % 4 * 16 := by
    rw [Nat.and_two_pow_sub_one_eq_mod a.toNat 2, Nat.zero_shiftRight, Nat.or_zero, Nat.shiftLeft_eq]
  have hfirst : a.toNat >>> 2 = a.toNat / 4 := Nat.shiftRight_eq_div_pow ..
  simp only [base64Group, Option.map_none, Option.getD_none, Option.isSome_none, hfirst, hsecond]
  rfl

lemma exists_base64Group {n₁ n₂ n₃ n₄ : ℕ} (h₁ : n₁ < 64) (h₂ : n₂ < 64) (h₃ : n₃ < 64) (h₄ : n₄ < 64) :
    ∃ a b c, base64Group a (some b) (some c) =
      [base64Digit n₁, base64Digit n₂, base64Digit n₃, base64Digit n₄] := by
  have hbyte {n : ℕ} (h : n < 256) : (UInt8.ofNat n).toNat = n := UInt8.toNat_ofNat_of_lt' h
  refine ⟨UInt8.ofNat (n₁ * 4 + n₂ / 16), UInt8.ofNat (n₂ % 16 * 16 + n₃ / 4), UInt8.ofNat (n₃ % 4 * 64 + n₄), ?_⟩
  have hfirst : (n₁ * 4 + n₂ / 16) / 4 = n₁ := by omega
  have hsecond : (n₁ * 4 + n₂ / 16) % 4 * 16 + (n₂ % 16 * 16 + n₃ / 4) / 16 = n₂ := by omega
  have hthird : (n₂ % 16 * 16 + n₃ / 4) % 16 * 4 + (n₃ % 4 * 64 + n₄) / 64 = n₃ := by omega
  have hfourth : (n₃ % 4 * 64 + n₄) % 64 = n₄ := by omega
  rw [base64Group_full, hbyte (by omega), hbyte (by omega), hbyte (by omega), hfirst, hsecond, hthird, hfourth]

end Groups

section Image

lemma base64_whole_iff {count : ℕ} {text : Bytes} : (∃ input : Bytes, input.length = 3 * count ∧ base64 input = text) ↔
    text.length = 4 * count ∧ ∀ c ∈ text, c ∈ base64Alphabet := by
  induction count generalizing text with
  | zero =>
    constructor
    · rintro ⟨input, hlength, rfl⟩
      obtain rfl := List.length_eq_zero_iff.mp hlength
      exact ⟨rfl, by simp [base64]⟩
    · rintro ⟨hlength, -⟩
      obtain rfl := List.length_eq_zero_iff.mp hlength
      exact ⟨[], rfl, rfl⟩
  | succ count ih =>
    constructor
    · rintro ⟨input, hlength, rfl⟩
      match input, hlength with
      | a :: b :: c :: input, hlength =>
        obtain ⟨hrest, hdigits⟩ := ih.mp ⟨input, by simp only [List.length_cons] at hlength; omega, rfl⟩
        rw [base64, base64Group_full]
        refine ⟨by simp only [List.length_append, List.length_cons, List.length_nil, hrest]; omega, ?_⟩
        have ha := a.toNat_lt
        have hb := b.toNat_lt
        have hc := c.toNat_lt
        simp only [List.cons_append, List.nil_append, List.forall_mem_cons]
        exact ⟨base64Digit_mem (by omega), base64Digit_mem (by omega), base64Digit_mem (by omega),
          base64Digit_mem (by omega), hdigits⟩
    · rintro ⟨hlength, hdigits⟩
      match text, hlength with
      | c₁ :: c₂ :: c₃ :: c₄ :: text, hlength =>
        simp only [List.forall_mem_cons] at hdigits
        obtain ⟨h₁, h₂, h₃, h₄, hdigits⟩ := hdigits
        obtain ⟨n₁, hn₁, rfl⟩ := mem_base64Alphabet h₁
        obtain ⟨n₂, hn₂, rfl⟩ := mem_base64Alphabet h₂
        obtain ⟨n₃, hn₃, rfl⟩ := mem_base64Alphabet h₃
        obtain ⟨n₄, hn₄, rfl⟩ := mem_base64Alphabet h₄
        obtain ⟨a, b, c, hgroup⟩ := exists_base64Group hn₁ hn₂ hn₃ hn₄
        obtain ⟨input, hinput, rfl⟩ := ih.mpr ⟨by simp only [List.length_cons] at hlength; omega, hdigits⟩
        refine ⟨a :: b :: c :: input, by simp only [List.length_cons]; omega, ?_⟩
        rw [base64, hgroup]
        rfl

lemma base64_single_iff {text : Bytes} : (∃ a, base64 [a] = text) ↔
    ∃ c n, text = [c, base64Digit n, 61, 61] ∧ c ∈ base64Alphabet ∧ n < 64 ∧ n &&& 15 = 0 := by
  constructor
  · rintro ⟨a, rfl⟩
    have ha := a.toNat_lt
    refine ⟨base64Digit (a.toNat / 4), a.toNat % 4 * 16, base64Group_single a, base64Digit_mem (by omega), by omega, ?_⟩
    rw [Nat.and_two_pow_sub_one_eq_mod _ 4]
    omega
  · rintro ⟨c, n, rfl, hc, hn, hlow⟩
    obtain ⟨m, hm, rfl⟩ := mem_base64Alphabet hc
    rw [Nat.and_two_pow_sub_one_eq_mod _ 4] at hlow
    refine ⟨UInt8.ofNat (m * 4 + n / 16), ?_⟩
    have hbyte : (UInt8.ofNat (m * 4 + n / 16)).toNat = m * 4 + n / 16 :=
      UInt8.toNat_ofNat_of_lt' (show m * 4 + n / 16 < 256 by omega)
    have hfirst : (m * 4 + n / 16) / 4 = m := by omega
    have hsecond : (m * 4 + n / 16) % 4 * 16 = n := by omega
    rw [base64, base64Group_single, hbyte, hfirst, hsecond]

lemma base64_append {count : ℕ} {x : Bytes} (h : x.length = 3 * count) (y : Bytes) :
    base64 (x ++ y) = base64 x ++ base64 y := by
  induction count generalizing x with
  | zero =>
    obtain rfl := List.length_eq_zero_iff.mp h
    rfl
  | succ count ih =>
    match x, h with
    | a :: b :: c :: x, h =>
      have hrest := @ih x (by simp only [List.length_cons] at h; omega)
      rw [List.cons_append, List.cons_append, List.cons_append, base64, base64, hrest, List.append_assoc]

end Image

section Accept

variable {key : Bytes}

lemma webSocketAccept_isSome_iff : (webSocketAccept key).isSome ↔
    key.length = 24 ∧ key.drop 22 = ascii "==" ∧ (∀ c ∈ key.take 22, c ∈ base64Alphabet) ∧
      base64Find (key.getD 21 0) &&& 15 = 0 := by
  rw [webSocketAccept]
  split
  · next h =>
    refine iff_of_false (by simp) fun ⟨hlength, hpadding, _⟩ => ?_
    exact h.elim (fun hno => hno hlength) (fun hno => hno hpadding)
  · next h =>
    rw [not_or, not_not, not_not] at h
    split
    · next hforeign =>
      obtain ⟨c, hc, hno⟩ := List.any_eq_true.mp hforeign
      refine iff_of_false (by simp) fun h => ?_
      simp [h.2.2.1 c hc] at hno
    · next hdigits =>
      have hall : ∀ c ∈ key.take 22, c ∈ base64Alphabet := by simpa using hdigits
      split
      · next hlow => exact iff_of_false (by simp) fun h => hlow h.2.2.2
      · next hlow => exact iff_of_true rfl ⟨h.1, h.2, hall, not_not.mp hlow⟩

lemma webSocketAccept_isSome_iff_parts : (webSocketAccept key).isSome ↔
    ∃ front c n, key = front ++ [c, base64Digit n, 61, 61] ∧ front.length = 20 ∧ (∀ x ∈ front, x ∈ base64Alphabet) ∧
      c ∈ base64Alphabet ∧ n < 64 ∧ n &&& 15 = 0 := by
  have htake (front : Bytes) (c d : Byte) (h : front.length = 20) :
      (front ++ [c, d, 61, 61]).take 22 = front ++ [c, d] := by
    rw [List.take_append, List.take_of_length_le (by omega), h]
    rfl
  have hdrop (front : Bytes) (c d e f : Byte) (h : front.length = 20) : (front ++ [c, d, e, f]).drop 22 = [e, f] := by
    rw [List.drop_append, List.drop_of_length_le (by omega), h]
    rfl
  have hget (front : Bytes) (c d e f : Byte) (h : front.length = 20) : (front ++ [c, d, e, f]).getD 21 0 = d := by
    rw [List.getD_eq_getElem?_getD, List.getElem?_append_right (by omega), h]
    rfl
  have hequals : ascii "==" = [61, 61] := by decide
  rw [webSocketAccept_isSome_iff, hequals]
  constructor
  · rintro ⟨hlength, hpadding, hdigits, hlow⟩
    have hfront : (key.take 20).length = 20 := by
      rw [List.length_take]
      omega
    have hback : (key.drop 20).length = 4 := by
      rw [List.length_drop]
      omega
    rw [← List.take_append_drop 20 key] at hpadding hdigits hlow
    match hk : key.drop 20, hback with
    | [c, d, e, f], _ =>
      rw [hk, hdrop _ _ _ _ _ hfront] at hpadding
      obtain ⟨rfl, hlast⟩ := List.cons.inj hpadding
      obtain ⟨rfl, -⟩ := List.cons.inj hlast
      rw [hk, htake _ _ _ hfront] at hdigits
      rw [hk, hget _ _ _ _ _ hfront] at hlow
      obtain ⟨n, hn, rfl⟩ := mem_base64Alphabet (hdigits d (by simp))
      rw [base64Find_digit hn] at hlow
      refine ⟨key.take 20, c, n, ?_, hfront, fun x hx => hdigits x (List.mem_append_left _ hx), hdigits c (by simp), hn,
        hlow⟩
      conv_lhs => rw [← List.take_append_drop 20 key, hk]
  · rintro ⟨front, c, n, rfl, hfront, hdigits, hc, hn, hlow⟩
    refine ⟨by simp [hfront], hdrop _ _ _ _ _ hfront, ?_, ?_⟩
    · rw [htake _ _ _ hfront]
      intro x hx
      rcases List.mem_append.mp hx with hx | hx
      · exact hdigits x hx
      · simp only [List.mem_cons, List.not_mem_nil, or_false] at hx
        rcases hx with rfl | rfl
        · exact hc
        · exact base64Digit_mem hn
    · rw [hget _ _ _ _ _ hfront, base64Find_digit hn]
      exact hlow

/-- A key is accepted exactly when it is the encoding of sixteen bytes. -/
theorem webSocketAccept_iff_encoded (key : Bytes) : (∃ accept, webSocketAccept key = some accept) ↔
    ∃ nonce : Bytes, nonce.length = 16 ∧ base64 nonce = key := by
  rw [← Option.isSome_iff_exists, webSocketAccept_isSome_iff_parts]
  constructor
  · rintro ⟨front, c, n, rfl, hfront, hdigits, hc, hn, hlow⟩
    obtain ⟨x, hx, hwhole⟩ := (@base64_whole_iff 5 front).mpr ⟨hfront, hdigits⟩
    obtain ⟨a, hlast⟩ := base64_single_iff.mpr ⟨c, n, rfl, hc, hn, hlow⟩
    refine ⟨x ++ [a], by simp [hx], ?_⟩
    rw [base64_append hx, hwhole, hlast]
  · rintro ⟨nonce, hlength, rfl⟩
    have hfront : (nonce.take 15).length = 3 * 5 := by
      rw [List.length_take]
      omega
    obtain ⟨a, ha⟩ : ∃ a, nonce.drop 15 = [a] := by
      apply List.length_eq_one_iff.mp
      rw [List.length_drop]
      omega
    obtain ⟨hwhole, hdigits⟩ := base64_whole_iff.mp ⟨nonce.take 15, hfront, rfl⟩
    obtain ⟨c, n, hlast, hc, hn, hlow⟩ := base64_single_iff.mp ⟨a, rfl⟩
    refine ⟨base64 (nonce.take 15), c, n, ?_, hwhole, hdigits, hc, hn, hlow⟩
    rw [← hlast, ← base64_append hfront, ← ha, List.take_append_drop]

end Accept

end ServerCore.Web
