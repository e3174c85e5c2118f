import Mathlib.Data.List.Basic
import ServerCore.Core.Bytes

/-! The datagram codec and the hexadecimal form of its tokens. -/

namespace ServerCore.Protocol.DatagramCodec

open ServerCore.Core

def headerBytes : ℕ := 28

def maximumDatagramBytes : ℕ := 1200

def maximumPayloadBytes : ℕ := maximumDatagramBytes - headerBytes

/-- `std::array<std::byte, 16>`. -/
structure Token where
  bytes : Bytes
  size : bytes.length = 16
  deriving DecidableEq

structure PacketView where
  token : Token
  sequence : UInt64
  payload : Bytes
  deriving DecidableEq

def tokenOf (bytes : Bytes) : Option Token := if h : bytes.length = 16 then some ⟨bytes, h⟩ else none

def hex : Bytes := ascii "0123456789abcdef"

def tokenToHex (token : Token) : Bytes :=
  token.bytes.flatMap fun value => [hex.getD (value.toNat >>> 4) 0, hex.getD (value.toNat &&& 15) 0]

def nibble (ch : Byte) : Option ℕ :=
  if 48 ≤ ch ∧ ch ≤ 57 then some (ch.toNat - 48)
  else if 97 ≤ ch ∧ ch ≤ 102 then some (ch.toNat - 97 + 10)
  else if 65 ≤ ch ∧ ch ≤ 70 then some (ch.toNat - 65 + 10)
  else none

def readNibbles : Bytes → Option Bytes
  | high :: low :: rest =>
    (nibble high).bind fun high => (nibble low).bind fun low =>
      (readNibbles rest).map fun bytes => UInt8.ofNat ((high <<< 4) ||| low) :: bytes
  | _ => some []

def tokenFromHex (text : Bytes) : Option Token :=
  if text.length ≠ 32 then none else (readNibbles text).bind tokenOf

def sequenceByte (sequence : UInt64) (index : ℕ) : Byte :=
  ((sequence >>> UInt64.ofNat ((7 - index) * 8)) &&& 255).toUInt8

/-- The bytes returned as written, and what `destination` holds then. -/
def encode (destination : Bytes) (token : Token) (sequence : UInt64) (payload : Bytes) : ℕ × Bytes :=
  if sequence = 0 ∨ payload = [] ∨ payload.length > maximumPayloadBytes ∨
      destination.length < headerBytes + payload.length then (0, destination)
  else
    let magic := (((destination.set 0 83).set 1 77).set 2 85).set 3 49
    let tokens := overwrite magic 4 token.bytes
    let header := (List.range 8).foldl (fun d index => d.set (20 + index) (sequenceByte sequence index)) tokens
    (headerBytes + payload.length, overwrite header headerBytes payload)

def decode (datagram : Bytes) : Option PacketView :=
  if datagram.length ≤ headerBytes ∨ datagram.length > maximumDatagramBytes ∨ datagram.getD 0 0 ≠ 83 ∨
      datagram.getD 1 0 ≠ 77 ∨ datagram.getD 2 0 ≠ 85 ∨ datagram.getD 3 0 ≠ 49 then none
  else
    (tokenOf ((datagram.drop 4).take 16)).bind fun token =>
      let sequence := (List.range 8).foldl
        (fun (sequence : UInt64) index => (sequence <<< 8) ||| (datagram.getD (20 + index) 0).toUInt64) 0
      if sequence = 0 then none else some ⟨token, sequence, datagram.drop headerBytes⟩

section Sequence

def joined (bytes : Bytes) : UInt64 := bytes.foldl (fun sequence b => (sequence <<< 8) ||| b.toUInt64) 0

def sequenceBytes (sequence : UInt64) : Bytes := (List.range 8).map (sequenceByte sequence)

lemma sequenceByte_toNat (sequence : UInt64) (index : ℕ) :
    (sequenceByte sequence index).toNat = sequence.toNat / 2 ^ ((7 - index) * 8) % 256 := by
  have hshift : (UInt64.ofNat ((7 - index) * 8)).toNat % 64 = (7 - index) * 8 := by
    rw [UInt64.toNat_ofNat']
    omega
  have hmask := Nat.and_two_pow_sub_one_eq_mod (sequence.toNat / 2 ^ ((7 - index) * 8)) 8
  rw [sequenceByte, UInt64.toNat_toUInt8, UInt64.toNat_and, UInt64.toNat_shiftRight, hshift, Nat.shiftRight_eq_div_pow]
  simp only [UInt64.reduceToNat, Nat.reducePow, Nat.add_one_sub_one] at hmask ⊢
  rw [hmask, Nat.mod_mod]

lemma joined_append (bytes : Bytes) (b : Byte) (h : (joined bytes).toNat < 2 ^ 56) :
    (joined (bytes ++ [b])).toNat = (joined bytes).toNat * 256 + b.toNat := by
  have hstep : joined (bytes ++ [b]) = (joined bytes <<< 8) ||| b.toUInt64 := by
    rw [joined, List.foldl_append]
    rfl
  rw [hstep, UInt64.toNat_or, UInt64.toNat_shiftLeft, UInt8.toNat_toUInt64]
  have hmod : (joined bytes).toNat <<< (UInt64.toNat 8 % 64) % 2 ^ 64 = (joined bytes).toNat <<< 8 := by
    apply Nat.mod_eq_of_lt
    rw [Nat.shiftLeft_eq]
    simp only [UInt64.reduceToNat, Nat.reduceMod, Nat.reducePow] at h ⊢
    omega
  rw [hmod, ← Nat.shiftLeft_add_eq_or_of_lt b.toNat_lt, Nat.shiftLeft_eq]

lemma joined_toNat_lt (bytes : Bytes) (h : bytes.length ≤ 8) : (joined bytes).toNat < 256 ^ bytes.length := by
  induction bytes using List.reverseRecOn with
  | nil => decide
  | append_singleton bytes b ih =>
    rw [List.length_append, List.length_singleton] at h
    have hlt := ih (by omega)
    have hpow : 256 ^ bytes.length ≤ 256 ^ 7 := Nat.pow_le_pow_right (by decide) (by omega)
    have hb := b.toNat_lt
    rw [joined_append bytes b (by simp only [Nat.reducePow] at hpow ⊢; omega), List.length_append,
      List.length_singleton, Nat.pow_succ]
    omega

lemma joined_eight (a b c d e f g h : Byte) : (joined [a, b, c, d, e, f, g, h]).toNat =
    ((((((a.toNat * 256 + b.toNat) * 256 + c.toNat) * 256 + d.toNat) * 256 + e.toNat) * 256 + f.toNat) * 256 +
      g.toNat) * 256 + h.toNat := by
  have hstep (bytes : Bytes) (x : Byte) (hlen : bytes.length ≤ 7) :
      (joined (bytes ++ [x])).toNat = (joined bytes).toNat * 256 + x.toNat := by
    apply joined_append
    have hpow : 256 ^ bytes.length ≤ 256 ^ 7 := Nat.pow_le_pow_right (by decide) hlen
    have hlt := joined_toNat_lt bytes (by omega)
    simp only [Nat.reducePow] at hpow ⊢
    omega
  have h₁ := hstep [] a (by simp)
  have h₂ := hstep [a] b (by simp)
  have h₃ := hstep [a, b] c (by simp)
  have h₄ := hstep [a, b, c] d (by simp)
  have h₅ := hstep [a, b, c, d] e (by simp)
  have h₆ := hstep [a, b, c, d, e] f (by simp)
  have h₇ := hstep [a, b, c, d, e, f] g (by simp)
  have h₈ := hstep [a, b, c, d, e, f, g] h (by simp)
  simp only [List.nil_append, List.cons_append] at h₁ h₂ h₃ h₄ h₅ h₆ h₇ h₈
  have h₀ : (joined []).toNat = 0 := rfl
  rw [h₈, h₇, h₆, h₅, h₄, h₃, h₂, h₁, h₀, Nat.zero_mul, Nat.zero_add]

lemma sequenceBytes_eq (sequence : UInt64) : sequenceBytes sequence =
    [sequenceByte sequence 0, sequenceByte sequence 1, sequenceByte sequence 2, sequenceByte sequence 3,
      sequenceByte sequence 4, sequenceByte sequence 5, sequenceByte sequence 6, sequenceByte sequence 7] := rfl

lemma joined_sequenceBytes (sequence : UInt64) : joined (sequenceBytes sequence) = sequence := by
  apply UInt64.toNat_inj.mp
  rw [sequenceBytes_eq, joined_eight]
  simp only [sequenceByte_toNat, Nat.reduceSub, Nat.reduceMul]
  exact shifted_eight sequence.toNat_lt

lemma sequenceBytes_joined {bytes : Bytes} (h : bytes.length = 8) : sequenceBytes (joined bytes) = bytes := by
  obtain ⟨a, b, c, d, e, f, g, i, rfl⟩ : ∃ a b c d e f g i, bytes = [a, b, c, d, e, f, g, i] := by
    match bytes, h with
    | [a, b, c, d, e, f, g, i], _ => exact ⟨a, b, c, d, e, f, g, i, rfl⟩
  have ha := a.toNat_lt
  have hb := b.toNat_lt
  have hc := c.toNat_lt
  have hd := d.toNat_lt
  have he := e.toNat_lt
  have hf := f.toNat_lt
  have hg := g.toNat_lt
  have hi := i.toNat_lt
  simp only [sequenceBytes_eq, List.cons.injEq, and_true, ← UInt8.toNat_inj, sequenceByte_toNat, joined_eight,
    Nat.reduceSub, Nat.reduceMul, Nat.reducePow] at ha hb hc hd he hf hg hi ⊢
  omega

end Sequence

section Layout

def layout (token : Token) (sequence : UInt64) (payload : Bytes) : Bytes :=
  [83, 77, 85, 49] ++ token.bytes ++ sequenceBytes sequence ++ payload

def Sendable (sequence : UInt64) (payload : Bytes) : Prop :=
  sequence ≠ 0 ∧ payload ≠ [] ∧ payload.length ≤ maximumPayloadBytes

lemma layout_length (token : Token) (sequence : UInt64) (payload : Bytes) :
    (layout token sequence payload).length = headerBytes + payload.length := by
  simp only [layout, List.length_append, token.size, sequenceBytes_eq, List.length_cons, List.length_nil, headerBytes]

lemma foldl_set (front old rest : Bytes) (f : ℕ → Byte) :
    (List.range old.length).foldl (fun d index => d.set (front.length + index) (f index)) (front ++ old ++ rest) =
      front ++ (List.range old.length).map f ++ rest := by
  induction old using List.reverseRecOn generalizing rest with
  | nil => rfl
  | append_singleton old b ih =>
    rw [List.length_append, List.length_singleton, List.range_succ, List.foldl_append, List.map_append]
    have hrest : front ++ (old ++ [b]) ++ rest = front ++ old ++ ([b] ++ rest) := by
      simp only [List.append_assoc]
    have hlength : front.length + old.length = (front ++ (List.range old.length).map f).length := by
      rw [List.length_append, List.length_map, List.length_range]
    rw [hrest, ih]
    simp only [List.foldl_cons, List.foldl_nil]
    rw [hlength, List.set_append_right _ _ le_rfl, Nat.sub_self]
    simp only [List.map_cons, List.map_nil, List.append_assoc, List.cons_append, List.nil_append, List.set_cons_zero]

lemma exists_fields {destination : Bytes} {n : ℕ} (h : headerBytes + n ≤ destination.length) :
    ∃ a b c d token sequence payload rest, destination = [a, b, c, d] ++ token ++ sequence ++ payload ++ rest ∧
      token.length = 16 ∧ sequence.length = 8 ∧ payload.length = n := by
  rw [headerBytes] at h
  obtain _ | ⟨a, _ | ⟨b, _ | ⟨c, _ | ⟨d, fields⟩⟩⟩⟩ := destination
  · simp at h
  · simp only [List.length_cons, List.length_nil] at h
    omega
  · simp only [List.length_cons, List.length_nil] at h
    omega
  · simp only [List.length_cons, List.length_nil] at h
    omega
  refine ⟨a, b, c, d, fields.take 16, (fields.drop 16).take 8, (fields.drop 24).take n, fields.drop (24 + n), ?_, ?_⟩
  · have hsplit : fields = fields.take 16 ++ ((fields.drop 16).take 8 ++
        ((fields.drop 24).take n ++ fields.drop (24 + n))) := by
      rw [← List.drop_drop, List.take_append_drop, show 24 = 16 + 8 from rfl, ← List.drop_drop,
        List.take_append_drop, List.take_append_drop]
    simp only [List.cons_append, List.nil_append, List.append_assoc]
    rw [← hsplit]
  · simp only [List.length_cons, List.length_take, List.length_drop] at h ⊢
    omega

lemma encode_refused {destination : Bytes} {token : Token} {sequence : UInt64} {payload : Bytes}
    (h : ¬ (Sendable sequence payload ∧ headerBytes + payload.length ≤ destination.length)) :
    encode destination token sequence payload = (0, destination) := by
  rw [encode, if_pos]
  by_contra hno
  simp only [not_or, not_lt] at hno
  obtain ⟨hsequence, hpayload, hmax, hroom⟩ := hno
  exact h ⟨⟨hsequence, hpayload, hmax⟩, hroom⟩

lemma encode_layout {destination : Bytes} {token : Token} {sequence : UInt64} {payload : Bytes}
    (h : Sendable sequence payload) (hroom : headerBytes + payload.length ≤ destination.length) :
    encode destination token sequence payload = (headerBytes + payload.length,
      layout token sequence payload ++ destination.drop (headerBytes + payload.length)) := by
  obtain ⟨hsequence, hpayload, hmax⟩ := h
  have hok : ¬ (sequence = 0 ∨ payload = [] ∨ payload.length > maximumPayloadBytes ∨
      destination.length < headerBytes + payload.length) := by
    simp only [not_or, not_lt]
    exact ⟨hsequence, hpayload, hmax, hroom⟩
  obtain ⟨a, b, c, d, old, counter, body, rest, rfl, hold, hcounter, hbody⟩ := exists_fields hroom
  have hdrop : ([a, b, c, d] ++ old ++ counter ++ body ++ rest).drop (headerBytes + payload.length) = rest := by
    apply List.drop_left'
    simp only [List.length_append, List.length_cons, List.length_nil, headerBytes]
    omega
  have hmagic : (((([a, b, c, d] ++ old ++ counter ++ body ++ rest).set 0 83).set 1 77).set 2 85).set 3 49 =
      [83, 77, 85, 49] ++ old ++ (counter ++ body ++ rest) := by
    simp only [List.append_assoc]
    rfl
  have htoken : overwrite ([83, 77, 85, 49] ++ old ++ (counter ++ body ++ rest)) 4 token.bytes =
      [83, 77, 85, 49] ++ token.bytes ++ counter ++ (body ++ rest) := by
    rw [@overwrite_append _ [83, 77, 85, 49] old _ token.bytes 4 rfl (by rw [hold, token.size])]
    simp only [List.append_assoc]
  have hloop := foldl_set ([83, 77, 85, 49] ++ token.bytes) counter (body ++ rest) (sequenceByte sequence)
  have hlength : ([83, 77, 85, 49] ++ token.bytes : Bytes).length = 20 := by
    rw [List.length_append, token.size]
    rfl
  rw [hlength, hcounter] at hloop
  have hcopy : overwrite ([83, 77, 85, 49] ++ token.bytes ++ sequenceBytes sequence ++ (body ++ rest)) headerBytes payload =
      layout token sequence payload ++ rest := by
    rw [← List.append_assoc, overwrite_append ?_ hbody]
    · rfl
    · rw [List.length_append, hlength]
      rfl
  rw [encode, if_neg hok, hdrop]
  dsimp only
  rw [hmagic, htoken, hloop]
  exact congrArg _ hcopy

lemma encode_length_pos {destination : Bytes} {token : Token} {sequence : UInt64} {payload : Bytes}
    (h : (encode destination token sequence payload).1 ≠ 0) :
    Sendable sequence payload ∧ headerBytes + payload.length ≤ destination.length := by
  by_contra hno
  rw [encode_refused hno] at h
  exact h rfl

lemma foldl_getD {front bytes rest : Bytes} (h : front.length = 20) (hbytes : bytes.length = 8) :
    (List.range 8).foldl (fun (sequence : UInt64) index =>
      (sequence <<< 8) ||| ((front ++ bytes ++ rest).getD (20 + index) 0).toUInt64) 0 = joined bytes := by
  have hmap : (List.range 8).map (fun index => (front ++ bytes ++ rest).getD (20 + index) 0) = bytes := by
    apply List.ext_getElem
    · rw [List.length_map, List.length_range, hbytes]
    · intro i hi hi'
      rw [List.getElem_map, List.getElem_range, List.getD_eq_getElem?_getD, List.append_assoc,
        List.getElem?_append_right (by omega), h, Nat.add_sub_cancel_left, List.getElem?_append_left hi',
        List.getElem?_eq_getElem hi', Option.getD_some]
  rw [joined, ← hmap, List.foldl_map, hmap]

lemma tokenOf_eq_some {bytes : Bytes} {token : Token} : tokenOf bytes = some token ↔ token.bytes = bytes := by
  constructor
  · intro h
    rw [tokenOf] at h
    split_ifs at h
    cases h
    rfl
  · rintro rfl
    rw [tokenOf, dif_pos token.size]

lemma decode_fields {a b c d : Byte} {bytes counter payload : Bytes} {packet : PacketView} (hbytes : bytes.length = 16)
    (hcounter : counter.length = 8) (hpayload : payload ≠ []) (hmax : payload.length ≤ maximumPayloadBytes) :
    decode ([a, b, c, d] ++ bytes ++ counter ++ payload) = some packet ↔ [a, b, c, d] = [83, 77, 85, 49] ∧
      joined counter ≠ 0 ∧ packet.token.bytes = bytes ∧ packet.sequence = joined counter ∧ packet.payload = payload := by
  have hlength : ([a, b, c, d] ++ bytes ++ counter ++ payload).length = headerBytes + payload.length := by
    simp only [List.length_append, List.length_cons, List.length_nil, hbytes, hcounter, headerBytes]
  have hpos := List.length_pos_of_ne_nil hpayload
  have htoken : (([a, b, c, d] ++ bytes ++ counter ++ payload).drop 4).take 16 = bytes := by
    simp only [List.append_assoc]
    exact List.take_left' hbytes
  have hbody : ([a, b, c, d] ++ bytes ++ counter ++ payload).drop headerBytes = payload := by
    apply List.drop_left'
    simp only [List.length_append, List.length_cons, List.length_nil, hbytes, hcounter, headerBytes]
  have hloop := @foldl_getD ([a, b, c, d] ++ bytes) counter payload (by simp [hbytes]) hcounter
  rw [decode, hloop, htoken, hbody]
  simp only [hlength, maximumPayloadBytes] at hmax ⊢
  by_cases hmagic : [a, b, c, d] = [83, 77, 85, 49]
  · obtain ⟨rfl, rfl, rfl, rfl⟩ : a = 83 ∧ b = 77 ∧ c = 85 ∧ d = 49 := by simpa using hmagic
    have haccept : ¬ (headerBytes + payload.length ≤ headerBytes ∨
        headerBytes + payload.length > maximumDatagramBytes ∨
        ([83, 77, 85, 49] ++ bytes ++ counter ++ payload).getD 0 0 ≠ 83 ∨
        ([83, 77, 85, 49] ++ bytes ++ counter ++ payload).getD 1 0 ≠ 77 ∨
        ([83, 77, 85, 49] ++ bytes ++ counter ++ payload).getD 2 0 ≠ 85 ∨
        ([83, 77, 85, 49] ++ bytes ++ counter ++ payload).getD 3 0 ≠ 49) := by
      rintro (h | h | h | h | h | h)
      · omega
      · omega
      all_goals exact h rfl
    rw [if_neg haccept]
    simp only [true_and, Option.bind_eq_some_iff, tokenOf_eq_some]
    constructor
    · rintro ⟨token, rfl, hpacket⟩
      split_ifs at hpacket with hzero
      cases hpacket
      exact ⟨hzero, rfl, rfl, rfl⟩
    · rintro ⟨hzero, htoken, hsequence, hpayload⟩
      refine ⟨packet.token, htoken, ?_⟩
      rw [if_neg hzero, ← hsequence, ← hpayload]
  · rw [if_pos]
    · simp only [reduceCtorEq, hmagic, false_and]
    · by_contra hno
      simp only [not_or, not_not] at hno
      obtain ⟨-, -, h₀, h₁, h₂, h₃⟩ := hno
      apply hmagic
      exact congrArg₂ _ h₀ (congrArg₂ _ h₁ (congrArg₂ _ h₂ (congrArg₂ _ h₃ rfl)))

lemma decode_eq_some {datagram : Bytes} {token : Token} {sequence : UInt64} {payload : Bytes} :
    decode datagram = some ⟨token, sequence, payload⟩ ↔ Sendable sequence payload ∧ datagram = layout token sequence payload := by
  by_cases hsize : datagram.length ≤ headerBytes ∨ datagram.length > maximumDatagramBytes
  · constructor
    · intro h
      rw [decode, if_pos] at h
      · cases h
      · rcases hsize with hshort | hlong
        · exact .inl hshort
        · exact .inr (.inl hlong)
    · rintro ⟨⟨-, hpayload, hmax⟩, rfl⟩
      have hpos := List.length_pos_of_ne_nil hpayload
      rw [layout_length, maximumPayloadBytes] at *
      omega
  · rw [not_or, not_le, not_lt] at hsize
    obtain ⟨n, hn⟩ := Nat.exists_eq_add_of_lt hsize.1
    obtain ⟨a, b, c, d, bytes, counter, body, rest, rfl, hbytes, hcounter, hbody⟩ :=
      @exists_fields datagram (n + 1) (by omega)
    obtain rfl : rest = [] := by
      simp only [List.length_append, List.length_cons, List.length_nil, hbytes, hcounter, hbody, headerBytes] at hn
      exact List.eq_nil_of_length_eq_zero (by omega)
    rw [List.append_nil] at hn hsize ⊢
    have hmax : body.length ≤ maximumPayloadBytes := by
      have := hsize.2
      rw [maximumPayloadBytes]
      omega
    have hne : body ≠ [] := List.ne_nil_of_length_pos (by omega)
    rw [decode_fields hbytes hcounter hne hmax]
    constructor
    · dsimp only
      rintro ⟨hmagic, hzero, rfl, rfl, rfl⟩
      exact ⟨⟨hzero, hne, hmax⟩, by rw [layout, hmagic, sequenceBytes_joined hcounter]⟩
    · rintro ⟨⟨hzero, -, -⟩, heq⟩
      rw [layout] at heq
      have hcount : (sequenceBytes sequence).length = 8 := rfl
      obtain ⟨hfront, hpayload⟩ := List.append_inj heq (by
        simp only [List.length_append, List.length_cons, List.length_nil, hbytes, hcounter, token.size, hcount])
      obtain ⟨hfields, rfl⟩ := List.append_inj hfront (by
        simp only [List.length_append, List.length_cons, List.length_nil, hbytes, token.size])
      obtain ⟨hmagic, rfl⟩ := List.append_inj hfields rfl
      rw [joined_sequenceBytes]
      exact ⟨hmagic, hzero, rfl, rfl, hpayload.symm⟩

end Layout

section Hex

def lowerCase (ch : Byte) : Byte := if 65 ≤ ch ∧ ch ≤ 90 then ch + 32 else ch

lemma hex_eq : hex = [48, 49, 50, 51, 52, 53, 54, 55, 56, 57, 97, 98, 99, 100, 101, 102] := by
  rw [hex, @ascii_eq "0123456789abcdef" _ rfl]
  rfl

lemma nibble_hex (n : ℕ) (h : n < 16) : nibble (hex.getD n 0) = some n := by
  rw [hex_eq]
  have hall : ∀ n < 16, nibble ([48, 49, 50, 51, 52, 53, 54, 55, 56, 57, 97, 98, 99, 100, 101, 102].getD n 0) = some n := by decide
  exact hall n h

lemma nibble_eq_some {ch : Byte} {n : ℕ} (h : nibble ch = some n) : n < 16 ∧ hex.getD n 0 = lowerCase ch := by
  have hall (ch : Byte) : ∀ m ∈ nibble ch, m < 16 ∧ hex.getD m 0 = lowerCase ch := by
    revert ch
    rw [hex_eq]
    apply byte_cases
    decide +kernel
  exact hall ch n h

lemma nibbles_or {high low : ℕ} (hlow : low < 16) : (high <<< 4) ||| low = 16 * high + low := by
  rw [← Nat.shiftLeft_add_eq_or_of_lt (show low < 2 ^ 4 from hlow), Nat.shiftLeft_eq, Nat.mul_comm]

lemma nibble_low (n : ℕ) : n &&& 15 = n % 16 := Nat.and_two_pow_sub_one_eq_mod n 4

lemma nibble_high (n : ℕ) : n >>> 4 = n / 16 := Nat.shiftRight_eq_div_pow n 4

lemma nibbles_join (value : Byte) : UInt8.ofNat (((value.toNat >>> 4) <<< 4) ||| (value.toNat &&& 15)) = value := by
  rw [nibble_low, nibble_high, nibbles_or (Nat.mod_lt _ (by decide)), Nat.div_add_mod, UInt8.ofNat_toNat]

lemma nibbles_split {high low : ℕ} (hhigh : high < 16) (hlow : low < 16) :
    (UInt8.ofNat ((high <<< 4) ||| low)).toNat >>> 4 = high ∧ (UInt8.ofNat ((high <<< 4) ||| low)).toNat &&& 15 = low := by
  have hvalue : (UInt8.ofNat (16 * high + low)).toNat = 16 * high + low := by
    rw [UInt8.toNat_ofNat']
    omega
  rw [nibbles_or hlow, hvalue, nibble_high, nibble_low]
  omega

def hexOf (bytes : Bytes) : Bytes :=
  bytes.flatMap fun value => [hex.getD (value.toNat >>> 4) 0, hex.getD (value.toNat &&& 15) 0]

lemma hexOf_length (bytes : Bytes) : (hexOf bytes).length = 2 * bytes.length := by
  induction bytes with
  | nil => rfl
  | cons value bytes ih =>
    rw [hexOf, List.flatMap_cons, List.length_append, ← hexOf, ih, List.length_cons]
    simp only [List.length_cons, List.length_nil]
    omega

lemma readNibbles_hexOf (bytes : Bytes) : readNibbles (hexOf bytes) = some bytes := by
  induction bytes with
  | nil => rfl
  | cons value bytes ih =>
    have hvalue := value.toNat_lt
    have hhigh := nibble_hex (value.toNat >>> 4) (by rw [Nat.shiftRight_eq_div_pow]; omega)
    have hlow := nibble_hex (value.toNat &&& 15) (Nat.lt_of_le_of_lt Nat.and_le_right (by decide))
    rw [hexOf, List.flatMap_cons, ← hexOf]
    simp only [List.cons_append, List.nil_append, readNibbles, hhigh, hlow, ih, Option.bind_some, Option.map_some,
      nibbles_join]

lemma hexOf_readNibbles {text bytes : Bytes} (heven : 2 ∣ text.length) (h : readNibbles text = some bytes) :
    hexOf bytes = text.map lowerCase := by
  induction text using readNibbles.induct generalizing bytes with
  | case1 high low rest ih =>
    simp only [readNibbles, Option.bind_eq_some_iff, Option.map_eq_some_iff] at h
    obtain ⟨m, hm, n, hn, tail, htail, rfl⟩ := h
    obtain ⟨hm16, hhigh⟩ := nibble_eq_some hm
    obtain ⟨hn16, hlow⟩ := nibble_eq_some hn
    obtain ⟨hfirst, hsecond⟩ := nibbles_split hm16 hn16
    have hrest := ih (by simp only [List.length_cons] at heven; omega) htail
    rw [hexOf, List.flatMap_cons, ← hexOf, hrest, hfirst, hsecond, hhigh, hlow]
    rfl
  | case2 text hno =>
    cases text with
    | nil =>
      obtain rfl : [] = bytes := Option.some.inj h
      rfl
    | cons high text =>
      cases text with
      | nil => simp at heven
      | cons low rest => exact absurd rfl (hno high low rest)

lemma tokenFromHex_toHex (token : Token) : tokenFromHex (tokenToHex token) = some token := by
  have hlength : (tokenToHex token).length = 32 := by
    change (hexOf token.bytes).length = 32
    rw [hexOf_length, token.size]
  rw [tokenFromHex, if_neg (not_not.mpr hlength)]
  change (readNibbles (hexOf token.bytes)).bind tokenOf = some token
  rw [readNibbles_hexOf, Option.bind_some, tokenOf_eq_some]

lemma tokenToHex_fromHex {text : Bytes} {token : Token} (h : tokenFromHex text = some token) :
    tokenToHex token = text.map lowerCase := by
  rw [tokenFromHex] at h
  split_ifs at h with hlength
  obtain ⟨bytes, hbytes, htoken⟩ := Option.bind_eq_some_iff.mp h
  rw [tokenOf_eq_some] at htoken
  subst htoken
  exact hexOf_readNibbles (by rw [not_not.mp hlength]; decide) hbytes

end Hex

/-- The decoder accepts what the encoder writes and nothing else, and the hexadecimal form of a token reads back. -/
theorem decode_iff_encode :
    (∀ datagram destination token sequence payload, headerBytes + payload.length ≤ destination.length →
      (decode datagram = some ⟨token, sequence, payload⟩ ↔ datagram ≠ [] ∧
        encode destination token sequence payload = (datagram.length, datagram ++ destination.drop datagram.length))) ∧
    (∀ destination token sequence payload, sequence ≠ 0 → 1 ≤ payload.length → payload.length ≤ maximumPayloadBytes →
      headerBytes + payload.length ≤ destination.length →
      (encode destination token sequence payload).1 = headerBytes + payload.length ∧
      decode ((encode destination token sequence payload).2.take (headerBytes + payload.length)) =
        some ⟨token, sequence, payload⟩) ∧
    (∀ datagram packet destination, decode datagram = some packet → datagram.length ≤ destination.length →
      encode destination packet.token packet.sequence packet.payload =
        (datagram.length, datagram ++ destination.drop datagram.length)) ∧
    (∀ destination token sequence payload, (encode destination token sequence payload).1 = 0 →
      (encode destination token sequence payload).2 = destination) ∧
    (∀ token, tokenFromHex (tokenToHex token) = some token) ∧
    (∀ text token, tokenFromHex text = some token → tokenToHex token = text.map lowerCase) := by
  refine ⟨?_, ?_, ?_, ?_, tokenFromHex_toHex, fun _ _ => tokenToHex_fromHex⟩
  · intro datagram destination token sequence payload hroom
    rw [decode_eq_some]
    constructor
    · rintro ⟨hsend, rfl⟩
      rw [encode_layout hsend hroom, layout_length]
      exact ⟨List.ne_nil_of_length_pos (by rw [layout_length, headerBytes]; omega), rfl⟩
    · rintro ⟨hne, hencode⟩
      have hpos := List.length_pos_of_ne_nil hne
      obtain ⟨hsend, -⟩ := @encode_length_pos destination token sequence payload (by rw [hencode]; dsimp only; omega)
      rw [encode_layout hsend hroom] at hencode
      obtain ⟨hlength, hbytes⟩ := Prod.mk.inj hencode
      exact ⟨hsend, (List.append_inj hbytes (by rw [layout_length, hlength])).1.symm⟩
  · intro destination token sequence payload hsequence hone hmax hroom
    have hsend : Sendable sequence payload := ⟨hsequence, List.ne_nil_of_length_pos hone, hmax⟩
    rw [encode_layout hsend hroom]
    refine ⟨rfl, decode_eq_some.mpr ⟨hsend, ?_⟩⟩
    exact List.take_left' (layout_length token sequence payload)
  · intro datagram packet destination hdecode hroom
    obtain ⟨hsend, rfl⟩ := decode_eq_some.mp hdecode
    rw [layout_length] at hroom ⊢
    exact encode_layout hsend hroom
  · intro destination token sequence payload hzero
    by_cases h : Sendable sequence payload ∧ headerBytes + payload.length ≤ destination.length
    · rw [encode_layout h.1 h.2, headerBytes] at hzero
      omega
    · rw [encode_refused h]

end ServerCore.Protocol.DatagramCodec
