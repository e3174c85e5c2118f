import ServerCore.Protocol.BinaryIO

/-! Reading back what was written: whatever list of writes succeeds, the matching reads return
the written values and leave nothing. -/

namespace ServerCore.Protocol.BinaryIO

open ServerCore.Core

inductive Write
  | unsigned (value : UInt64) (width : ℕ)
  | signed (value : Int64) (width : ℕ)
  | bool (value : Bool)
  | float32 (bits : UInt32)
  | float64 (bits : UInt64)
  | bytes (value : Source)
  | lengthPrefixed (value : Source) (maximumLength : ℕ)
  | utf8 (value : Source) (maximumLength : ℕ)
  deriving DecidableEq, Repr

inductive Read
  | unsigned (width : ℕ)
  | signed (width : ℕ)
  | bool
  | float32
  | float64
  | bytes (length : ℕ)
  | lengthPrefixed (maximumLength : ℕ)
  | utf8 (maximumLength : ℕ)
  | skip (length : ℕ)
  deriving DecidableEq, Repr

inductive Value
  | unsigned (value : UInt64)
  | signed (value : Int64)
  | bool (value : Bool)
  | float32 (bits : UInt32)
  | float64 (bits : UInt64)
  | bytes (value : Bytes)
  | nothing
  deriving DecidableEq, Repr

def BinaryWriter.write (w : BinaryWriter) : Write → BinaryWriter × Except ErrorCode Unit
  | .unsigned value width => w.writeUnsigned value width
  | .signed value width => w.writeSigned value width
  | .bool value => w.writeBool value
  | .float32 bits => w.writeFloat32 bits
  | .float64 bits => w.writeFloat64 bits
  | .bytes value => w.writeBytes value
  | .lengthPrefixed value maximumLength => w.writeLengthPrefixed value maximumLength
  | .utf8 value maximumLength => w.writeUtf8 value maximumLength

def BinaryReader.read (r : BinaryReader) : Read → BinaryReader × Except ErrorCode Value
  | .unsigned width => (r.readUnsigned width).map id (·.map .unsigned)
  | .signed width => (r.readSigned width).map id (·.map .signed)
  | .bool => r.readBool.map id (·.map .bool)
  | .float32 => r.readFloat32.map id (·.map .float32)
  | .float64 => r.readFloat64.map id (·.map .float64)
  | .bytes length => (r.readBytes length).map id (·.map .bytes)
  | .lengthPrefixed maximumLength => (r.readLengthPrefixed maximumLength).map id (·.map .bytes)
  | .utf8 maximumLength => (r.readUtf8 maximumLength).map id (·.map .bytes)
  | .skip length => (r.skip length).map id (·.map fun _ => .nothing)

def Write.read (w : BinaryWriter) : Write → Read
  | .unsigned _ width => .unsigned width
  | .signed _ width => .signed width
  | .bool _ => .bool
  | .float32 _ => .float32
  | .float64 _ => .float64
  | .bytes value => .bytes (value.bytes w).length
  | .lengthPrefixed _ maximumLength => .lengthPrefixed maximumLength
  | .utf8 _ maximumLength => .utf8 maximumLength

def Write.value (w : BinaryWriter) : Write → Value
  | .unsigned value _ => .unsigned value
  | .signed value _ => .signed value
  | .bool value => .bool value
  | .float32 bits => .float32 bits
  | .float64 bits => .float64 bits
  | .bytes value => .bytes (value.bytes w)
  | .lengthPrefixed value _ => .bytes (value.bytes w)
  | .utf8 value _ => .bytes (value.bytes w)

def BinaryWriter.writeAll (w : BinaryWriter) : List Write → Option (BinaryWriter × List (Read × Value))
  | [] => some (w, [])
  | x :: rest =>
    match w.write x with
    | (_, .error _) => none
    | (w', .ok ()) => (w'.writeAll rest).map fun (last, entries) => (last, (x.read w, x.value w) :: entries)

def BinaryReader.readAll (r : BinaryReader) : List Read → Option (BinaryReader × List Value)
  | [] => some (r, [])
  | x :: rest =>
    match r.read x with
    | (_, .error _) => none
    | (r', .ok value) => (r'.readAll rest).map fun (last, values) => (last, value :: values)

def Write.Fits (w : BinaryWriter) : Write → Prop
  | .unsigned value width => width ∈ [1, 2, 4, 8] ∧ value.toNat < 2 ^ (8 * width) ∧ w.bytes.length + width ≤ w.limit
  | .signed value width => width ∈ [1, 2, 4, 8] ∧ -2 ^ (8 * width - 1) ≤ value.toInt ∧
      value.toInt < 2 ^ (8 * width - 1) ∧ w.bytes.length + width ≤ w.limit
  | .bool _ => w.bytes.length + 1 ≤ w.limit
  | .float32 _ => w.bytes.length + 4 ≤ w.limit
  | .float64 _ => w.bytes.length + 8 ≤ w.limit
  | .bytes value => w.bytes.length + (value.bytes w).length ≤ w.limit
  | .lengthPrefixed value maximumLength => (value.bytes w).length ≤ maximumLength ∧
      w.bytes.length + (4 + (value.bytes w).length) ≤ w.limit
  | .utf8 value maximumLength => (value.bytes w).length ≤ maximumLength ∧ Utf8 (value.bytes w) ∧
      w.bytes.length + (4 + (value.bytes w).length) ≤ w.limit

def Write.encoding (w : BinaryWriter) : Write → Bytes
  | .unsigned value width => store value width w.order
  | .signed value width => store value.toUInt64 width w.order
  | .bool value => store (if value then 1 else 0) 1 w.order
  | .float32 bits => store bits.toUInt64 4 w.order
  | .float64 bits => store bits 8 w.order
  | .bytes value => value.bytes w
  | .lengthPrefixed value _ => store (UInt64.ofNat (value.bytes w).length) 4 w.order ++ value.bytes w
  | .utf8 value _ => store (UInt64.ofNat (value.bytes w).length) 4 w.order ++ value.bytes w

@[simp] lemma store_length (value : UInt64) (width : ℕ) (order : ByteOrder) :
    (store value width order).length = width := by
  simp [store]

lemma isWidth_iff {width : ℕ} : isWidth width = true ↔ width ∈ [1, 2, 4, 8] := by
  simp [isWidth, or_assoc]

section Writing

variable {w w' : BinaryWriter}

-- `w'` is the writer with `x` appended.
structure Appended (w w' : BinaryWriter) (x : Bytes) : Prop where
  bytes : w'.bytes = w.bytes ++ x
  limit : w'.limit = w.limit
  order : w'.order = w.order

structure Appends (w : BinaryWriter) (fits : Prop) (x : Bytes) (result : BinaryWriter × Except ErrorCode Unit) : Prop where
  ok : result.2 = .ok () ↔ fits
  failed : result.2 ≠ .ok () → result.1 = w
  appended : fits → Appended w result.1 x

lemma Appends.refused {fits : Prop} {x : Bytes} (code : ErrorCode) (h : ¬ fits) :
    Appends w fits x (w, .error code) where
  ok := by simp [h]
  failed _ := rfl
  appended := fun hf => absurd hf h

lemma Appends.congr {p q : Prop} {x : Bytes} {result : BinaryWriter × Except ErrorCode Unit} (h : Appends w p x result)
    (hpq : p ↔ q) : Appends w q x result where
  ok := h.ok.trans hpq
  failed := h.failed
  appended hq := h.appended (hpq.mpr hq)

lemma append_appends (w : BinaryWriter) (value : Source) (hasPrefix : Bool) :
    Appends w (w.bytes.length + (BinaryWriter.headerSize hasPrefix + (value.bytes w).length) ≤ w.limit)
      ((if hasPrefix then store (UInt64.ofNat (value.bytes w).length) 4 w.order else []) ++ value.bytes w)
      (w.append value hasPrefix) := by
  have hwithin := w.within
  have hview : (value.aliases w).any (fun offset => w.bytes.length - offset < (value.bytes w).length) = false := by
    cases value with
    | elsewhere => rfl
    | view offset count =>
      simp only [Source.aliases]
      split_ifs with hempty
      · rfl
      · simp [Source.bytes]
  by_cases hroom : w.limit - w.bytes.length < BinaryWriter.headerSize hasPrefix ∨
      w.limit - w.bytes.length - BinaryWriter.headerSize hasPrefix < (value.bytes w).length
  · rw [BinaryWriter.append, dif_pos hroom]
    apply Appends.refused
    omega
  · rw [BinaryWriter.append, dif_neg hroom, hview]
    exact ⟨by simp; omega, by simp, fun _ => ⟨BinaryWriter.grown_eq w value hasPrefix, rfl, rfl⟩⟩

lemma append_plain (w : BinaryWriter) (value : Source) :
    Appends w (w.bytes.length + (value.bytes w).length ≤ w.limit) (value.bytes w) (w.append value false) := by
  simpa [BinaryWriter.headerSize] using append_appends w value false

lemma append_prefixed (w : BinaryWriter) (value : Source) :
    Appends w (w.bytes.length + (4 + (value.bytes w).length) ≤ w.limit)
      (store (UInt64.ofNat (value.bytes w).length) 4 w.order ++ value.bytes w) (w.append value true) :=
  append_appends w value true

lemma append_store (w : BinaryWriter) (value : UInt64) (width : ℕ) :
    Appends w (w.bytes.length + width ≤ w.limit) (store value width w.order)
      (w.append (.elsewhere (store value width w.order)) false) := by
  simpa [Source.bytes] using append_plain w (.elsewhere (store value width w.order))

lemma writeUnsigned_appends (w : BinaryWriter) (value : UInt64) (width : ℕ) :
    Appends w ((Write.unsigned value width).Fits w) (store value width w.order) (w.writeUnsigned value width) := by
  have hvalue := value.toNat_lt
  rw [BinaryWriter.writeUnsigned]
  split_ifs with hbad
  · apply Appends.refused
    rintro ⟨hwidth, hlt, -⟩
    rcases hbad with h | h
    · rw [← isWidth_iff, h] at hwidth
      cases hwidth
    · rw [mul_comm] at hlt
      omega
  · rw [not_or, Bool.not_eq_false, isWidth_iff] at hbad
    obtain ⟨hwidth, hlt⟩ := hbad
    apply (append_store w value width).congr
    have hfits : value.toNat < 2 ^ (8 * width) := by
      rcases Nat.lt_or_ge width 8 with h | h
      · rw [mul_comm]
        omega
      · exact lt_of_lt_of_le hvalue (Nat.pow_le_pow_right (by decide) (by omega))
    simp only [Write.Fits, hwidth, hfits, true_and]

lemma writeSigned_appends (w : BinaryWriter) (value : Int64) (width : ℕ) :
    Appends w ((Write.signed value width).Fits w) (store value.toUInt64 width w.order) (w.writeSigned value width) := by
  have hle := value.le_toInt
  have hlt := value.toInt_lt
  rw [BinaryWriter.writeSigned]
  split_ifs with hwidth hbad
  · apply Appends.refused
    rintro ⟨h, -⟩
    rw [← isWidth_iff, hwidth] at h
    cases h
  · apply Appends.refused
    rintro ⟨-, h₁, h₂, -⟩
    rw [mul_comm] at h₁ h₂
    omega
  · rw [Bool.not_eq_false, isWidth_iff] at hwidth
    apply (append_store w value.toUInt64 width).congr
    have hfits : -2 ^ (8 * width - 1) ≤ value.toInt ∧ value.toInt < 2 ^ (8 * width - 1) := by
      rcases Nat.lt_or_ge width 8 with h | h
      · rw [mul_comm]
        omega
      · obtain rfl : width = 8 := by simp at hwidth; omega
        exact ⟨hle, hlt⟩
    simp only [Write.Fits, hwidth, hfits, true_and]

lemma writeLengthPrefixed_appends (w : BinaryWriter) (value : Source) (maximumLength : ℕ) :
    Appends w ((Write.lengthPrefixed value maximumLength).Fits w)
      (store (UInt64.ofNat (value.bytes w).length) 4 w.order ++ value.bytes w)
      (w.writeLengthPrefixed value maximumLength) := by
  have hlimit := w.limit_le
  rw [BinaryWriter.writeLengthPrefixed]
  split_ifs with hbad
  · apply Appends.refused
    rintro ⟨hmax, hroom⟩
    simp only [maximumBinaryBuffer] at hlimit
    omega
  · apply (append_prefixed w value).congr
    simp only [Write.Fits]
    omega

lemma write_appends (w : BinaryWriter) (x : Write) : Appends w (x.Fits w) (x.encoding w) (w.write x) := by
  cases x with
  | unsigned value width => exact writeUnsigned_appends w value width
  | signed value width => exact writeSigned_appends w value width
  | bool value =>
    apply (writeUnsigned_appends w _ 1).congr
    cases value <;> simp [Write.Fits]
  | float32 bits =>
    apply (writeUnsigned_appends w _ 4).congr
    have := bits.toNat_lt
    simp only [Write.Fits, UInt32.toNat_toUInt64]
    simpa using fun _ => this
  | float64 bits =>
    apply (writeUnsigned_appends w _ 8).congr
    have := bits.toNat_lt
    simp only [Write.Fits]
    simpa using fun _ => this
  | bytes value => exact append_plain w value
  | lengthPrefixed value maximumLength => exact writeLengthPrefixed_appends w value maximumLength
  | utf8 value maximumLength =>
    simp only [BinaryWriter.write, BinaryWriter.writeUtf8]
    split_ifs with hmax hvalid
    · apply Appends.refused
      rintro ⟨h, -⟩
      omega
    · apply Appends.refused
      rintro ⟨-, h, -⟩
      rw [← isValidUtf8_iff, hvalid] at h
      cases h
    · rw [Bool.not_eq_false, isValidUtf8_iff] at hvalid
      apply (writeLengthPrefixed_appends w value maximumLength).congr
      simp only [Write.Fits, hvalid, true_and]

end Writing

section Bits

lemma testBit_foldl_or (f : ℕ → ℕ) (l : List ℕ) (a j : ℕ) :
    (l.foldl (fun value i => value ||| f i) a).testBit j = (a.testBit j || l.any fun i => (f i).testBit j) := by
  induction l generalizing a with
  | nil => simp
  | cons i l ih =>
    rw [List.foldl_cons, ih, Nat.testBit_or, List.any_cons, Bool.or_assoc]

lemma place_lt {order : ByteOrder} {width i : ℕ} (h : i < width) : place order width i < width := by
  cases order <;> simp only [place] <;> omega

lemma exists_place (order : ByteOrder) {width k : ℕ} (h : k < width) : ∃ i < width, place order width i = k := by
  cases order with
  | bigEndian => exact ⟨width - k - 1, by omega, by simp only [place]; omega⟩
  | littleEndian => exact ⟨k, h, rfl⟩

lemma and_byte (n : ℕ) : n &&& 255 = n % 2 ^ 8 := and_mask n 8

lemma testBit_byte (n k j : ℕ) : ((UInt8.ofNat (n >>> (8 * k) &&& 255)).toNat <<< (8 * k)).testBit j =
    (decide (j / 8 = k) && n.testBit j) := by
  have hbyte : (UInt8.ofNat (n >>> (8 * k) &&& 255)).toNat = n >>> (8 * k) % 2 ^ 8 := by
    rw [and_byte, UInt8.toNat_ofNat', Nat.mod_mod]
  rw [hbyte, Nat.testBit_shiftLeft, Nat.testBit_mod_two_pow, Nat.testBit_shiftRight]
  by_cases h : j / 8 = k
  · have h₁ : 8 * k ≤ j := by omega
    have h₂ : j - 8 * k < 8 := by omega
    simp [h, h₁, h₂, Nat.add_sub_cancel' h₁]
  · by_cases h₁ : 8 * k ≤ j
    · have h₂ : ¬ j - 8 * k < 8 := by omega
      simp [h, h₂]
    · simp [h, h₁]

lemma join_store {value width : ℕ} (order : ByteOrder) (h : value < 2 ^ (8 * width)) (f : ℕ → Byte)
    (hf : ∀ i < width, f i = UInt8.ofNat (value >>> (8 * place order width i) &&& 255)) :
    (List.range width).foldl (fun joined i => joined ||| (f i).toNat <<< (8 * place order width i)) 0 = value := by
  apply Nat.eq_of_testBit_eq
  intro j
  rw [testBit_foldl_or, Nat.zero_testBit, Bool.false_or, Bool.eq_iff_iff, List.any_eq_true]
  constructor
  · rintro ⟨i, hi, hbit⟩
    rw [hf i (List.mem_range.mp hi), testBit_byte, Bool.and_eq_true] at hbit
    exact hbit.2
  · intro hbit
    have hj : j < 8 * width := by
      by_contra hge
      rw [Nat.testBit_lt_two_pow (lt_of_lt_of_le h (Nat.pow_le_pow_right (by decide) (by omega)))] at hbit
      cases hbit
    obtain ⟨i, hi, hplace⟩ := @exists_place order width (j / 8) (by omega)
    refine ⟨i, List.mem_range.mpr hi, ?_⟩
    rw [hf i hi, testBit_byte, hplace, hbit]
    simp

lemma toUInt64_toNat (value : Int64) : (value.toUInt64.toNat : ℤ) = if value.toInt < 0 then value.toInt + 2 ^ 64 else value.toInt := by
  have hnat : value.toUInt64.toNat = value.toBitVec.toNat := rfl
  have hlt := value.toBitVec.isLt
  rw [hnat, ← Int64.toInt_toBitVec, BitVec.toInt_eq_toNat_cond]
  split_ifs <;> omega

lemma and_sign {n k : ℕ} (hn : n < 2 ^ (k + 1)) : n &&& 2 ^ k = if 2 ^ k ≤ n then 2 ^ k else 0 := by
  apply Nat.eq_of_testBit_eq
  intro j
  rw [Nat.testBit_and, Nat.testBit_two_pow]
  by_cases hj : k = j
  · subst hj
    rw [Nat.testBit_eq_decide_div_mod_eq]
    have hpos : 0 < 2 ^ k := Nat.two_pow_pos k
    rw [pow_succ] at hn
    split_ifs with hle
    · have : n / 2 ^ k = 1 := by
        apply Nat.div_eq_of_lt_le <;> omega
      simp [this]
    · simp [Nat.div_eq_of_lt (not_le.mp hle)]
  · split_ifs <;> simp [hj]

lemma signExtend_low {value : Int64} {width k : ℕ} {sign fill : UInt64} (hk : 8 * width = k + 1) (hw : width < 8)
    (hsign : (1 : UInt64) <<< UInt64.ofNat (width * 8 - 1) = sign) (hs : sign.toNat = 2 ^ k)
    (hfill : ~~~((1 : UInt64) <<< UInt64.ofNat (width * 8) - 1) = fill) (hf : fill.toNat = 2 ^ 64 - 2 ^ (k + 1))
    (h₁ : -2 ^ k ≤ value.toInt) (h₂ : value.toInt < 2 ^ k) :
    BinaryReader.signExtend (UInt64.ofNat (value.toUInt64.toNat % 2 ^ (k + 1))) width = value.toUInt64 := by
  have hv := toUInt64_toNat value
  have hpos : 0 < 2 ^ k := Nat.two_pow_pos k
  have hpow : 2 ^ (k + 1) = 2 * 2 ^ k := by ring
  have hle : (2 : ℕ) ^ (k + 1) ≤ 2 ^ 64 := Nat.pow_le_pow_right (by decide) (by omega)
  have hdvd : (2 : ℕ) ^ 64 = 2 ^ (k + 1) * 2 ^ (63 - k) := by
    rw [← pow_add]
    congr 1
    omega
  set n := value.toUInt64.toNat with hn
  have hmod : n % 2 ^ (k + 1) < 2 ^ (k + 1) := Nat.mod_lt _ (Nat.two_pow_pos _)
  have hu : (UInt64.ofNat (n % 2 ^ (k + 1))).toNat = n % 2 ^ (k + 1) := by
    rw [UInt64.toNat_ofNat', Nat.mod_eq_of_lt (by omega)]
  have hand : UInt64.ofNat (n % 2 ^ (k + 1)) &&& sign ≠ 0 ↔ 2 ^ k ≤ n % 2 ^ (k + 1) := by
    rw [ne_eq, ← UInt64.toNat_inj, UInt64.toNat_and, hu, hs, and_sign hmod]
    split_ifs with h <;> simp [h]
  simp only [BinaryReader.signExtend, hsign, hfill, hw, true_and, hand]
  rw [← UInt64.toNat_inj, ← hn]
  have hcast : ((2 ^ k : ℕ) : ℤ) = 2 ^ k := by norm_cast
  by_cases hneg : value.toInt < 0
  · rw [if_pos hneg] at hv
    have hcut : 2 ^ (k + 1) * (2 ^ (63 - k) - 1) = 2 ^ 64 - 2 ^ (k + 1) := by rw [Nat.mul_sub_one, ← hdvd]
    obtain ⟨t, ht⟩ : ∃ t, n = 2 ^ (k + 1) * (2 ^ (63 - k) - 1) + t := ⟨n - (2 ^ 64 - 2 ^ (k + 1)), by omega⟩
    have htlt : t < 2 ^ (k + 1) := by omega
    have hrem : n % 2 ^ (k + 1) = t := by rw [ht, Nat.mul_add_mod, Nat.mod_eq_of_lt htlt]
    rw [hrem] at hu ⊢
    rw [if_pos (by omega), UInt64.toNat_or, hu, hf, ← hcut, Nat.or_comm, ← Nat.two_pow_add_eq_or_of_lt htlt, ht]
  · rw [if_neg hneg] at hv
    rw [Nat.mod_eq_of_lt (by omega)] at hu ⊢
    rw [if_neg (by omega), hu]

lemma signExtend_value {value : Int64} {width : ℕ} (hw : width ∈ [1, 2, 4, 8]) (h₁ : -2 ^ (8 * width - 1) ≤ value.toInt)
    (h₂ : value.toInt < 2 ^ (8 * width - 1)) :
    BinaryReader.signExtend (UInt64.ofNat (value.toUInt64.toNat % 2 ^ (8 * width))) width = value.toUInt64 := by
  simp only [List.mem_cons, List.not_mem_nil, or_false] at hw
  rcases hw with rfl | rfl | rfl | rfl
  · exact signExtend_low rfl (by decide) rfl rfl rfl rfl h₁ h₂
  · exact signExtend_low rfl (by decide) rfl rfl rfl rfl h₁ h₂
  · exact signExtend_low rfl (by decide) rfl rfl rfl rfl h₁ h₂
  · rw [Nat.mod_eq_of_lt value.toUInt64.toNat_lt, UInt64.ofNat_toNat]
    rfl

lemma store_low (value : UInt64) (width : ℕ) (order : ByteOrder) :
    store (UInt64.ofNat (value.toNat % 2 ^ (8 * width))) width order = store value width order := by
  have hnat : (UInt64.ofNat (value.toNat % 2 ^ (8 * width))).toNat = value.toNat % 2 ^ (8 * width) := by
    rw [UInt64.toNat_ofNat', Nat.mod_eq_of_lt (lt_of_le_of_lt (Nat.mod_le _ _) value.toNat_lt)]
  rw [store, store, hnat]
  apply List.map_congr_left
  intro i hi
  have hplace := @place_lt order _ _ (List.mem_range.mp hi)
  congr 1
  apply Nat.eq_of_testBit_eq
  intro j
  rw [and_byte, and_byte, Nat.testBit_mod_two_pow, Nat.testBit_mod_two_pow, Nat.testBit_shiftRight,
    Nat.testBit_shiftRight, Nat.testBit_mod_two_pow]
  by_cases hj : j < 8
  · have : 8 * place order width i + j < 8 * width := by omega
    simp [this]
  · simp [hj]

end Bits

section Reading

variable {r : BinaryReader} {tail : Bytes}

def BinaryReader.unread (r : BinaryReader) : Bytes := r.input.drop r.position

-- `r'` is the reader behind the bytes `x`.
structure Passed (r r' : BinaryReader) (tail : Bytes) : Prop where
  unread : r'.unread = tail
  order : r'.order = r.order

lemma unread_length (r : BinaryReader) : r.unread.length = r.remaining := by
  rw [BinaryReader.unread, List.length_drop, BinaryReader.remaining]

lemma advance_passed {x : Bytes} (h : r.unread = x ++ tail) (hx : x.length ≤ r.remaining) :
    Passed r (r.advance x.length hx) tail where
  unread := by
    rw [BinaryReader.unread, BinaryReader.advance, ← List.drop_drop]
    rw [BinaryReader.unread] at h
    rw [h, List.drop_left]
  order := rfl

lemma load_store {value : UInt64} {width : ℕ} (h : r.unread = store value width r.order ++ tail)
    (hv : value.toNat < 2 ^ (8 * width)) : r.load width = value := by
  have hbyte : ∀ i < width, r.input.getD (r.position + i) 0 =
      UInt8.ofNat (value.toNat >>> (8 * place r.order width i) &&& 255) := by
    intro i hi
    have hget : r.unread[i]? = r.input[r.position + i]? := by rw [BinaryReader.unread, List.getElem?_drop]
    rw [List.getD_eq_getElem?_getD, ← hget, h, List.getElem?_append_left (by simpa using hi)]
    simp [store, hi]
  rw [BinaryReader.load, join_store r.order hv _ hbyte, UInt64.ofNat_toNat]

lemma readUnsigned_store {value : UInt64} {width : ℕ} (h : r.unread = store value width r.order ++ tail)
    (hw : width ∈ [1, 2, 4, 8]) (hv : value.toNat < 2 ^ (8 * width)) :
    ∃ r', r.readUnsigned width = (r', .ok value) ∧ Passed r r' tail := by
  have hlen : width ≤ r.remaining := by
    rw [← unread_length, h, List.length_append, store_length]
    omega
  have hok : ¬ isWidth width = false := by
    rw [Bool.not_eq_false, isWidth_iff]
    exact hw
  refine ⟨r.advance width hlen, ?_, ?_⟩
  · rw [BinaryReader.readUnsigned, if_neg hok, dif_pos hlen, load_store h hv]
  · have := advance_passed h (by simpa using hlen)
    simpa using this

lemma readSigned_store {value : Int64} {width : ℕ}
    (h : r.unread = store value.toUInt64 width r.order ++ tail) (hw : width ∈ [1, 2, 4, 8])
    (h₁ : -2 ^ (8 * width - 1) ≤ value.toInt) (h₂ : value.toInt < 2 ^ (8 * width - 1)) :
    ∃ r', r.readSigned width = (r', .ok value) ∧ Passed r r' tail := by
  rw [← store_low] at h
  obtain ⟨r', hread, hpassed⟩ := readUnsigned_store h hw (by
    rw [UInt64.toNat_ofNat']
    exact lt_of_le_of_lt (Nat.mod_le _ _) (Nat.mod_lt _ (Nat.two_pow_pos _)))
  refine ⟨r', ?_, hpassed⟩
  rw [BinaryReader.readSigned, hread]
  simp only [Except.map, signExtend_value hw h₁ h₂, Int64.toInt64_toUInt64]

lemma readBytes_append {x : Bytes} (h : r.unread = x ++ tail) :
    ∃ r', r.readBytes x.length = (r', .ok x) ∧ Passed r r' tail := by
  have hlen : x.length ≤ r.remaining := by
    rw [← unread_length, h, List.length_append]
    omega
  refine ⟨r.advance x.length hlen, ?_, advance_passed h hlen⟩
  rw [BinaryReader.readBytes, dif_pos hlen]
  rw [BinaryReader.unread] at h
  rw [h, List.take_left]

lemma readLengthPrefixed_append {x : Bytes} {maximumLength : ℕ}
    (h : r.unread = store (UInt64.ofNat x.length) 4 r.order ++ x ++ tail) (hmax : x.length ≤ maximumLength)
    (hlen : x.length < 2 ^ 32) : ∃ r', r.readLengthPrefixed maximumLength = (r', .ok x) ∧ Passed r r' tail := by
  have hnat : (UInt64.ofNat x.length).toNat = x.length := by
    rw [UInt64.toNat_ofNat', Nat.mod_eq_of_lt (by omega)]
  rw [List.append_assoc] at h
  obtain ⟨saved, hread, hsaved⟩ := readUnsigned_store h (by decide) (by rw [hnat]; exact hlen)
  obtain ⟨r', hbytes, hpassed⟩ := readBytes_append hsaved.unread
  refine ⟨r', ?_, hpassed.unread, hpassed.order.trans hsaved.order⟩
  simp only [BinaryReader.readLengthPrefixed, hread, hnat, if_neg (not_lt.mpr hmax), hbytes]

lemma readBool_store {value : Bool} (h : r.unread = store (if value then 1 else 0) 1 r.order ++ tail) :
    ∃ r', r.readBool = (r', .ok value) ∧ Passed r r' tail := by
  have hlen : 1 ≤ r.remaining := by
    rw [← unread_length, h, List.length_append, store_length]
    omega
  have hstore : store (if value then 1 else 0) 1 r.order = [if value then 1 else 0] := by
    cases value <;> cases r.order <;> rfl
  have hbyte : r.input.getD r.position 0 = if value then 1 else 0 := by
    have hget : r.unread[0]? = r.input[r.position]? := by rw [BinaryReader.unread, List.getElem?_drop, Nat.add_zero]
    rw [List.getD_eq_getElem?_getD, ← hget, h, hstore]
    rfl
  refine ⟨r.advance 1 hlen, ?_, ?_⟩
  · rw [BinaryReader.readBool, dif_pos hlen, hbyte]
    cases value <;> rfl
  · have := advance_passed h (by simpa using hlen)
    simpa using this

lemma read_encoding {w : BinaryWriter} {x : Write} (hfits : x.Fits w) (horder : r.order = w.order)
    (h : r.unread = x.encoding w ++ tail) : ∃ r', r.read (x.read w) = (r', .ok (x.value w)) ∧ Passed r r' tail := by
  have hlimit := w.limit_le
  simp only [maximumBinaryBuffer] at hlimit
  cases x with
  | unsigned value width =>
    rw [Write.encoding, ← horder] at h
    obtain ⟨hwidth, hlt, -⟩ := hfits
    obtain ⟨r', hread, hpassed⟩ := readUnsigned_store h hwidth hlt
    exact ⟨r', by rw [Write.read, BinaryReader.read, hread]; rfl, hpassed⟩
  | signed value width =>
    rw [Write.encoding, ← horder] at h
    obtain ⟨hwidth, h₁, h₂, -⟩ := hfits
    obtain ⟨r', hread, hpassed⟩ := readSigned_store h hwidth h₁ h₂
    exact ⟨r', by rw [Write.read, BinaryReader.read, hread]; rfl, hpassed⟩
  | bool value =>
    rw [Write.encoding, ← horder] at h
    obtain ⟨r', hread, hpassed⟩ := readBool_store h
    exact ⟨r', by rw [Write.read, BinaryReader.read, hread]; rfl, hpassed⟩
  | float32 bits =>
    rw [Write.encoding, ← horder] at h
    have hlt : bits.toUInt64.toNat < 2 ^ (8 * 4) := by
      rw [UInt32.toNat_toUInt64]
      exact bits.toNat_lt
    obtain ⟨r', hread, hpassed⟩ := readUnsigned_store h (by decide) hlt
    refine ⟨r', ?_, hpassed⟩
    rw [Write.read, BinaryReader.read, BinaryReader.readFloat32, hread]
    simp [Except.map, Write.value]
  | float64 bits =>
    rw [Write.encoding, ← horder] at h
    obtain ⟨r', hread, hpassed⟩ := readUnsigned_store h (by decide) bits.toNat_lt
    exact ⟨r', by rw [Write.read, BinaryReader.read, BinaryReader.readFloat64, hread]; rfl, hpassed⟩
  | bytes value =>
    obtain ⟨r', hread, hpassed⟩ := readBytes_append h
    exact ⟨r', by rw [Write.read, BinaryReader.read]; erw [hread]; rfl, hpassed⟩
  | lengthPrefixed value maximumLength =>
    rw [Write.encoding, ← horder] at h
    obtain ⟨hmax, hroom⟩ := hfits
    obtain ⟨r', hread, hpassed⟩ := readLengthPrefixed_append h hmax (by omega)
    exact ⟨r', by rw [Write.read, BinaryReader.read, hread]; rfl, hpassed⟩
  | utf8 value maximumLength =>
    rw [Write.encoding, ← horder] at h
    obtain ⟨hmax, hutf, hroom⟩ := hfits
    obtain ⟨r', hread, hpassed⟩ := readLengthPrefixed_append h hmax (by omega)
    refine ⟨r', ?_, hpassed⟩
    have hvalid := (isValidUtf8_iff _).mpr hutf
    rw [Write.read, BinaryReader.read, BinaryReader.readUtf8, hread]
    simp only [hvalid]
    rfl

lemma readLengthPrefixed_failed {maximumLength : ℕ} {code : ErrorCode}
    (h : (r.readLengthPrefixed maximumLength).2 = .error code) : (r.readLengthPrefixed maximumLength).1 = r := by
  revert h
  rw [BinaryReader.readLengthPrefixed]
  rcases r.readUnsigned 4 with ⟨saved, _ | length⟩
  · exact fun _ => rfl
  · simp only
    split_ifs
    · exact fun _ => rfl
    · rcases saved.readBytes length.toNat with ⟨saved', _ | bytes⟩
      · exact fun _ => rfl
      · rintro ⟨⟩

lemma readUnsigned_failed {width : ℕ} {code : ErrorCode} (h : (r.readUnsigned width).2 = .error code) :
    (r.readUnsigned width).1 = r := by
  revert h
  rw [BinaryReader.readUnsigned]
  split_ifs
  · exact fun _ => rfl
  · rintro ⟨⟩
  · exact fun _ => rfl

lemma map_eq_error {α β : Type*} {f : α → β} {x : Except ErrorCode α} {code : ErrorCode}
    (h : x.map f = .error code) : x = .error code := by
  cases x with
  | error => simpa [Except.map] using h
  | ok => cases h

lemma read_failed {x : Read} {code : ErrorCode} (h : (r.read x).2 = .error code) : (r.read x).1 = r := by
  cases x with
  | unsigned width => exact readUnsigned_failed (map_eq_error h)
  | signed width => exact readUnsigned_failed (map_eq_error (map_eq_error h))
  | bool =>
    revert h
    simp only [BinaryReader.read, BinaryReader.readBool]
    split_ifs
    · exact fun _ => rfl
    · rintro ⟨⟩
    · exact fun _ => rfl
  | float32 => exact readUnsigned_failed (map_eq_error (map_eq_error h))
  | float64 =>
    have hread : (r.readUnsigned 8).2 = .error code := map_eq_error h
    exact readUnsigned_failed hread
  | bytes length =>
    revert h
    rw [BinaryReader.read, BinaryReader.readBytes]
    split_ifs
    · rintro ⟨⟩
    · exact fun _ => rfl
  | lengthPrefixed maximumLength => exact readLengthPrefixed_failed (map_eq_error h)
  | utf8 maximumLength =>
    revert h
    rw [BinaryReader.read, BinaryReader.readUtf8]
    rcases r.readLengthPrefixed maximumLength with ⟨saved, _ | bytes⟩
    · exact fun _ => rfl
    · simp only
      split_ifs
      · rintro ⟨⟩
      · exact fun _ => rfl
  | skip length =>
    revert h
    rw [BinaryReader.read, BinaryReader.skip]
    split_ifs
    · rintro ⟨⟩
    · exact fun _ => rfl

end Reading

lemma writeAll_reads {w last : BinaryWriter} {writes : List Write} {entries : List (Read × Value)}
    (h : w.writeAll writes = some (last, entries)) :
    ∃ x, last.bytes = w.bytes ++ x ∧ last.limit = w.limit ∧ ∀ r : BinaryReader, r.order = w.order → r.unread = x →
      ∃ r', r.readAll (entries.map Prod.fst) = some (r', entries.map Prod.snd) ∧ r'.remaining = 0 := by
  induction writes generalizing w entries with
  | nil =>
    obtain ⟨rfl, rfl⟩ := Prod.mk.inj (Option.some.inj h)
    refine ⟨[], (List.append_nil _).symm, rfl, fun r _ hr => ⟨r, rfl, ?_⟩⟩
    rw [← unread_length, hr]
    rfl
  | cons x rest ih =>
    have happends := write_appends w x
    rw [BinaryWriter.writeAll] at h
    rcases hw : w.write x with ⟨w', _ | ⟨⟨⟩⟩⟩
    · simp [hw] at h
    · simp only [hw, Option.map_eq_some_iff] at h
      obtain ⟨⟨last', tail⟩, hrest, heq⟩ := h
      obtain ⟨rfl, rfl⟩ := Prod.mk.inj heq
      have hfits : x.Fits w := happends.ok.mp (by rw [hw])
      have happended := happends.appended hfits
      rw [hw] at happended
      obtain ⟨y, hbytes, hlimit, hread⟩ := ih hrest
      refine ⟨x.encoding w ++ y, ?_, hlimit.trans happended.limit, fun r horder hr => ?_⟩
      · rw [hbytes, happended.bytes, List.append_assoc]
      · obtain ⟨r', hx, hpassed⟩ := read_encoding hfits horder hr
        obtain ⟨r'', hall, hdone⟩ := hread r' (hpassed.order.trans (horder.trans happended.order.symm)) hpassed.unread
        refine ⟨r'', ?_, hdone⟩
        simp only [List.map_cons, BinaryReader.readAll, hx, hall]
        rfl

/-- Reading undoes writing, and a write or a read that fails does nothing. -/
theorem reader_undoes_writer (limit : ℕ) (order : ByteOrder) :
    (∀ w last writes entries maximumBytes, BinaryWriter.create limit order = .ok w →
      w.writeAll writes = some (last, entries) → 0 < maximumBytes → maximumBytes ≤ maximumBinaryBuffer →
      last.bytes.length ≤ maximumBytes →
      ∃ r r', BinaryReader.create last.bytes order maximumBytes = .ok r ∧
        r.readAll (entries.map Prod.fst) = some (r', entries.map Prod.snd) ∧ r'.remaining = 0) ∧
    (∀ (w : BinaryWriter) (x : Write), ((w.write x).2 = .ok () ↔ x.Fits w) ∧
      ((w.write x).2 ≠ .ok () → (w.write x).1.bytes = w.bytes) ∧
      (w.write x).1.limit = w.limit ∧ (w.write x).1.bytes.length ≤ w.limit) ∧
    (∀ (r : BinaryReader) (x : Read) (code : ErrorCode), (r.read x).2 = .error code →
      (r.read x).1.position = r.position) := by
  refine ⟨fun w last writes entries maximumBytes hcreate hwrites hpos hmax hfits => ?_, fun w x => ?_, fun r x code h => ?_⟩
  · rw [BinaryWriter.create] at hcreate
    split_ifs at hcreate with hlimit
    obtain rfl := Except.ok.inj hcreate
    obtain ⟨x, hbytes, -, hread⟩ := writeAll_reads hwrites
    have hinit : BinaryReader.create last.bytes order maximumBytes = .ok ⟨last.bytes, order, 0, Nat.zero_le _⟩ := by
      rw [BinaryReader.create, if_neg (by omega), if_neg (by omega)]
    obtain ⟨r', hall, hdone⟩ := hread ⟨last.bytes, order, 0, Nat.zero_le _⟩ rfl
      (by simpa [BinaryReader.unread] using hbytes)
    exact ⟨_, r', hinit, hall, hdone⟩
  · have happends := write_appends w x
    have hlimit : (w.write x).1.limit = w.limit := by
      by_cases hfits : x.Fits w
      · exact (happends.appended hfits).limit
      · rw [happends.failed (mt happends.ok.mp hfits)]
    refine ⟨happends.ok, fun hfail => by rw [happends.failed hfail], hlimit, ?_⟩
    rw [← hlimit]
    exact (w.write x).1.within
  · rw [read_failed h]

/-- A negative number, a view of its two bytes behind a length prefix, and a boolean. -/
theorem reader_undoes_writer_view : ∃ last entries,
    (⟨[], 32, .bigEndian, by decide, by decide⟩ : BinaryWriter).writeAll
      [.signed (-2) 2, .lengthPrefixed (.view 0 2) 8, .bool true] = some (last, entries) ∧
    ∃ r r', BinaryReader.create last.bytes .bigEndian 32 = .ok r ∧
      r.readAll (entries.map Prod.fst) = some (r', entries.map Prod.snd) ∧ r'.remaining = 0 := by
  refine ⟨_, _, rfl, ?_⟩
  exact (reader_undoes_writer 32 .bigEndian).1 _ _ [.signed (-2) 2, .lengthPrefixed (.view 0 2) 8, .bool true] _ 32
    rfl rfl (by decide) (by decide) (by decide)

end ServerCore.Protocol.BinaryIO
