import ServerCore.Core.Bytes

/-! WebSocket frames: `ParseClientFrame` and `EncodeServerFrame`. -/

namespace ServerCore.Web

open ServerCore.Core

inductive FrameParseKind
  | needMore
  | complete
  | error
  deriving DecidableEq, Repr

structure WebSocketFrame where
  final : Bool := true
  opcode : ℕ := 0
  payload : Bytes := []
  deriving DecidableEq, Repr

structure FrameParseResult where
  kind : FrameParseKind := .needMore
  consumed : ℕ := 0
  closeCode : ℕ := 1002
  deriving DecidableEq, Repr

namespace WebSocketFrame

def bigEndian (bytes : Bytes) : ℕ := bytes.foldl (fun length b => (length <<< 8) ||| b.toNat) 0

inductive Header
  | needMore
  | error
  | header (length size : ℕ)
  deriving DecidableEq, Repr

def readLength (length : ℕ) (input : Bytes) : Header :=
  if length = 126 then
    if input.length < 4 then .needMore
    else if bigEndian ((input.drop 2).take 2) < 126 then .error
    else .header (bigEndian ((input.drop 2).take 2)) 4
  else if length = 127 then
    if input.length < 10 then .needMore
    else if (input.getD 2 0).toNat &&& 128 ≠ 0 then .error
    else if bigEndian ((input.drop 2).take 8) < 65536 then .error
    else .header (bigEndian ((input.drop 2).take 8)) 10
  else .header length 2

def isOpcode (opcode : ℕ) : Bool :=
  opcode == 0 || opcode == 1 || opcode == 2 || opcode == 8 || opcode == 9 || opcode == 10

def validStart (first second : ℕ) : Bool :=
  (first &&& 0x70) == 0 && (second &&& 0x80) != 0 && isOpcode (first &&& 15)

def mask (key payload : Bytes) : Bytes := payload.mapIdx fun index b => b ^^^ key.getD (index % 4) 0

def takePayload (input : Bytes) (maxPayload : ℕ) (frame : WebSocketFrame) (first : ℕ) : Header → FrameParseResult × WebSocketFrame
  | .needMore => ({}, frame)
  | .error => (⟨.error, 0, 1002⟩, frame)
  | .header length header =>
    if (first &&& 15) < 8 ∧ length > maxPayload then (⟨.error, 0, 1009⟩, frame)
    else if length > sizeModulus - 1 - header - 4 then (⟨.error, 0, 1009⟩, frame)
    else if input.length < header + 4 + length then ({}, frame)
    else
      (⟨.complete, header + 4 + length, 1000⟩,
        { final := (first &&& 128) != 0
          opcode := first &&& 15
          payload := mask ((input.drop header).take 4) ((input.drop (header + 4)).take length) })

def parseClientFrame (input : Bytes) (maxPayload : ℕ) (frame : WebSocketFrame) : FrameParseResult × WebSocketFrame :=
  if input.length < 2 then ({}, frame)
  else
    let first := (input.getD 0 0).toNat
    let second := (input.getD 1 0).toNat
    if !validStart first second then (⟨.error, 0, 1002⟩, frame)
    else if (first &&& 15) ≥ 8 ∧ ((first &&& 0x80) = 0 ∨ (second &&& 127) > 125) then (⟨.error, 0, 1002⟩, frame)
    else takePayload input maxPayload frame first (readLength (second &&& 127) input)

def encodeServerFrame (opcode : ℕ) (payload : Bytes) (final : Bool) : Bytes :=
  let start := UInt8.ofNat ((if final then 0x80 else 0) ||| opcode)
  let size := payload.length
  let length :=
    if size < 126 then [UInt8.ofNat size]
    else if size ≤ 65535 then [126, UInt8.ofNat ((size >>> 8) &&& 255), UInt8.ofNat (size &&& 255)]
    else 127 :: [56, 48, 40, 32, 24, 16, 8, 0].map fun shift => UInt8.ofNat ((size >>> shift) &&& 255)
  start :: length ++ payload

section Stable

variable {x y : Bytes} {maxPayload : ℕ} {frame : WebSocketFrame}

lemma getD_append {i : ℕ} (h : i < x.length) : (x ++ y).getD i 0 = x.getD i 0 := by
  rw [List.getD_eq_getElem?_getD, List.getD_eq_getElem?_getD, List.getElem?_append_left h]

lemma slice_append {i n : ℕ} (h : i + n ≤ x.length) : ((x ++ y).drop i).take n = (x.drop i).take n := by
  rw [List.drop_append_of_le_length (by omega), List.take_append_of_le_length]
  rw [List.length_drop]
  omega

lemma readLength_append {length : ℕ} (h : readLength length x ≠ .needMore) : readLength length (x ++ y) = readLength length x := by
  have hshort (n : ℕ) (hx : ¬ x.length < n) : ¬ (x ++ y).length < n := by
    rw [List.length_append]
    omega
  by_cases h126 : length = 126
  · by_cases hx : x.length < 4
    · exact absurd (by rw [readLength, if_pos h126, if_pos hx]) h
    · rw [readLength, readLength, if_pos h126, if_pos h126, if_neg hx, if_neg (hshort 4 hx), slice_append (by omega)]
  by_cases h127 : length = 127
  · by_cases hx : x.length < 10
    · exact absurd (by rw [readLength, if_neg h126, if_pos h127, if_pos hx]) h
    · rw [readLength, readLength, if_neg h126, if_neg h126, if_pos h127, if_pos h127, if_neg hx, if_neg (hshort 10 hx),
        getD_append (by omega), slice_append (by omega)]
  · rw [readLength, readLength, if_neg h126, if_neg h126, if_neg h127, if_neg h127]

lemma readLength_le {length size n : ℕ} (h : readLength length x = .header n size) (hx : 2 ≤ x.length) : size ≤ x.length := by
  rw [readLength] at h
  split_ifs at h <;> cases h <;> omega

lemma takePayload_append {first : ℕ} {header : Header} (hsize : ∀ length size, header = .header length size → size ≤ x.length)
    (h : (takePayload x maxPayload frame first header).1.kind ≠ .needMore) :
    takePayload (x ++ y) maxPayload frame first header = takePayload x maxPayload frame first header := by
  cases header with
  | needMore => exact absurd rfl h
  | error => rfl
  | header length size =>
    have hle := hsize length size rfl
    by_cases hlarge : (first &&& 15) < 8 ∧ length > maxPayload
    · rw [takePayload, takePayload, if_pos hlarge, if_pos hlarge]
    by_cases hhuge : length > sizeModulus - 1 - size - 4
    · rw [takePayload, takePayload, if_neg hlarge, if_neg hlarge, if_pos hhuge, if_pos hhuge]
    by_cases hshort : x.length < size + 4 + length
    · rw [takePayload, if_neg hlarge, if_neg hhuge, if_pos hshort] at h
      exact absurd rfl h
    have hshort' : ¬ (x ++ y).length < size + 4 + length := by
      rw [List.length_append]
      omega
    rw [takePayload, takePayload, if_neg hlarge, if_neg hlarge, if_neg hhuge, if_neg hhuge, if_neg hshort, if_neg hshort',
      slice_append (by omega), slice_append (by omega)]

lemma parseClientFrame_append (h : (parseClientFrame x maxPayload frame).1.kind ≠ .needMore) :
    parseClientFrame (x ++ y) maxPayload frame = parseClientFrame x maxPayload frame := by
  by_cases hx : x.length < 2
  · rw [parseClientFrame, if_pos hx] at h
    exact absurd rfl h
  have hxy : ¬ (x ++ y).length < 2 := by
    rw [List.length_append]
    omega
  rw [parseClientFrame, if_neg hx] at h
  rw [parseClientFrame, parseClientFrame, if_neg hx, if_neg hxy, getD_append (by omega), getD_append (by omega)]
  dsimp only at h ⊢
  split_ifs at h ⊢ with hstart hcontrol
  · rfl
  · rfl
  have hread : readLength ((x.getD 1 0).toNat &&& 127) x ≠ .needMore := by
    intro hread
    rw [hread] at h
    exact h rfl
  rw [readLength_append hread]
  exact takePayload_append (fun length size hheader => readLength_le hheader (by omega)) h

lemma consumed_le (h : (parseClientFrame x maxPayload frame).1.kind = .complete) :
    (parseClientFrame x maxPayload frame).1.consumed ≤ x.length := by
  rw [parseClientFrame] at h ⊢
  dsimp only at h ⊢
  split_ifs at h ⊢ with hx hstart hcontrol
  cases hheader : readLength ((x.getD 1 0).toNat &&& 127) x with
  | needMore =>
    rw [hheader] at h
    cases h
  | error =>
    rw [hheader] at h
    cases h
  | header length size =>
    rw [hheader, takePayload] at h
    rw [takePayload]
    split_ifs at h ⊢ with hlarge hhuge hshort
    exact not_lt.mp hshort

end Stable

/-- A frame that a client may send. Its payload is one vector of bytes, so it is shorter than the address space. -/
structure LegalFrame (maxPayload : ℕ) where
  final : Bool
  opcode : ℕ
  payload : Bytes
  isOpcode : isOpcode opcode = true
  object : payload.length < 2 ^ 63
  control : 8 ≤ opcode → final = true ∧ payload.length ≤ 125
  data : opcode < 8 → payload.length ≤ maxPayload

def masked (key wire : Bytes) : Bytes :=
  let header := if wire.getD 1 0 = 126 then 4 else if wire.getD 1 0 = 127 then 10 else 2
  wire.take 1 ++ [wire.getD 1 0 ||| 0x80] ++ (wire.take header).drop 2 ++ key ++ mask key (wire.drop header)

section Inverse

variable {maxPayload : ℕ} {frame : WebSocketFrame}

@[simp] lemma mask_length (key payload : Bytes) : (mask key payload).length = payload.length := List.length_mapIdx

lemma mask_mask (key payload : Bytes) : mask key (mask key payload) = payload := by
  apply List.ext_getElem
  · simp
  · intro i _ _
    simp only [mask, List.getElem_mapIdx]
    rw [UInt8.xor_assoc, UInt8.xor_self, UInt8.xor_zero]

lemma shiftLeft_or_byte (n : ℕ) (b : Byte) : (n <<< 8) ||| b.toNat = n * 256 + b.toNat := by
  rw [← Nat.shiftLeft_add_eq_or_of_lt b.toNat_lt, Nat.shiftLeft_eq]

lemma shifted_byte (n k : ℕ) : (UInt8.ofNat ((n >>> k) &&& 255)).toNat = n / 2 ^ k % 256 := by
  rw [UInt8.toNat_ofNat', Nat.shiftRight_eq_div_pow, show (255 : ℕ) = 2 ^ 8 - 1 from rfl, Nat.and_two_pow_sub_one_eq_mod]
  exact Nat.mod_mod _ _

lemma bigEndian_two {n : ℕ} (h : n < 2 ^ 16) :
    bigEndian [UInt8.ofNat ((n >>> 8) &&& 255), UInt8.ofNat (n &&& 255)] = n := by
  have hlow := shifted_byte n 0
  rw [Nat.shiftRight_zero] at hlow
  simp only [bigEndian, List.foldl_cons, List.foldl_nil, shiftLeft_or_byte, shifted_byte, hlow]
  omega

lemma bigEndian_eight {n : ℕ} (h : n < 2 ^ 64) :
    bigEndian ([56, 48, 40, 32, 24, 16, 8, 0].map fun shift => UInt8.ofNat ((n >>> shift) &&& 255)) = n := by
  simp only [bigEndian, List.map_cons, List.map_nil, List.foldl_cons, List.foldl_nil, shiftLeft_or_byte, shifted_byte,
    Nat.zero_mul, Nat.zero_add]
  exact shifted_eight h

lemma start_byte {opcode : ℕ} (final : Bool) (h : isOpcode opcode = true) {start : Byte}
    (hstart : start = UInt8.ofNat ((if final then 0x80 else 0) ||| opcode)) : start.toNat &&& 0x70 = 0 ∧
      start.toNat &&& 15 = opcode ∧ ((start.toNat &&& 128) != 0) = final := by
  simp only [isOpcode, Bool.or_eq_true, beq_iff_eq] at h
  subst hstart
  rcases h with ((((rfl | rfl) | rfl) | rfl) | rfl) | rfl <;> cases final <;> decide

lemma parse_frame (f : LegalFrame maxPayload) {start second : Byte} {bytes key : Bytes}
    (hstart : start = UInt8.ofNat ((if f.final then 0x80 else 0) ||| f.opcode)) (hmask : second.toNat &&& 0x80 ≠ 0)
    (hcontrol : 125 < (second.toNat &&& 127) → 125 < f.payload.length) (hkey : key.length = 4) (hbytes : bytes.length ≤ 8)
    (hread : readLength (second.toNat &&& 127) (start :: second :: bytes ++ key ++ mask key f.payload) =
      .header f.payload.length (bytes.length + 2)) :
    parseClientFrame (start :: second :: bytes ++ key ++ mask key f.payload) maxPayload frame =
      (⟨.complete, (start :: second :: bytes ++ key ++ mask key f.payload).length, 1000⟩, ⟨f.final, f.opcode, f.payload⟩) := by
  obtain ⟨hreserved, hopcode, hfinal⟩ := start_byte f.final f.isOpcode hstart
  have hlength : (start :: second :: bytes ++ key ++ mask key f.payload).length = bytes.length + 2 + 4 + f.payload.length := by
    simp only [List.length_append, List.length_cons, mask_length]
    omega
  have hobject := f.object
  have hmax : sizeModulus = 2 ^ 64 := rfl
  have hvalid : validStart start.toNat second.toNat = true := by
    simp [validStart, hreserved, hopcode, f.isOpcode, hmask]
  have hlegal : ¬ ((start.toNat &&& 15) ≥ 8 ∧ ((start.toNat &&& 0x80) = 0 ∨ (second.toNat &&& 127) > 125)) := by
    rintro ⟨hlarge, hbad⟩
    rw [hopcode] at hlarge
    obtain ⟨hone, hsmall⟩ := f.control hlarge
    rcases hbad with hzero | hlong
    · rw [hzero, hone] at hfinal
      cases hfinal
    · have := hcontrol hlong
      omega
  have hdata : ¬ ((start.toNat &&& 15) < 8 ∧ f.payload.length > maxPayload) := by
    rintro ⟨hsmall, hlarge⟩
    rw [hopcode] at hsmall
    exact absurd (f.data hsmall) (not_le.mpr hlarge)
  have htakeKey : ((start :: second :: bytes ++ key ++ mask key f.payload).drop (bytes.length + 2)).take 4 = key := by
    rw [List.append_assoc, List.drop_left' (by rfl), List.take_left' hkey]
  have htakeBody : ((start :: second :: bytes ++ key ++ mask key f.payload).drop (bytes.length + 2 + 4)).take f.payload.length =
      mask key f.payload := by
    rw [List.drop_left' (by simp only [List.length_append, List.length_cons]; omega), List.take_of_length_le (by rw [mask_length])]
  rw [parseClientFrame, if_neg (by omega)]
  simp only [List.cons_append, List.getD_cons_zero, List.getD_cons_succ] at hread hlength htakeKey htakeBody ⊢
  rw [hvalid, if_neg (by decide), if_neg hlegal, hread, takePayload, if_neg hdata, if_neg (by omega), if_neg (by omega),
    htakeKey, htakeBody, mask_mask, hfinal, hopcode, hlength]

lemma parse_masked (f : LegalFrame maxPayload) {key : Bytes} (hkey : key.length = 4) :
    parseClientFrame (masked key (encodeServerFrame f.opcode f.payload f.final)) maxPayload frame =
      (⟨.complete, (masked key (encodeServerFrame f.opcode f.payload f.final)).length, 1000⟩,
        ⟨f.final, f.opcode, f.payload⟩) := by
  have hobject := f.object
  by_cases hshort : f.payload.length < 126
  · have hsecond : ∀ n < 126, UInt8.ofNat n ≠ 126 ∧ UInt8.ofNat n ≠ 127 ∧ (UInt8.ofNat n ||| 0x80).toNat &&& 0x80 ≠ 0 ∧
        (UInt8.ofNat n ||| 0x80).toNat &&& 127 = n := by decide +kernel
    obtain ⟨hne, hne', hmask, hlow⟩ := hsecond _ hshort
    have hwire : masked key (encodeServerFrame f.opcode f.payload f.final) =
        UInt8.ofNat ((if f.final then 0x80 else 0) ||| f.opcode) :: (UInt8.ofNat f.payload.length ||| 0x80) :: [] ++ key ++
          mask key f.payload := by
      simp [masked, encodeServerFrame, if_pos hshort, hne, hne']
    rw [hwire]
    refine parse_frame f rfl hmask (fun hlong => by omega) hkey (Nat.zero_le 8) ?_
    rw [hlow, readLength, if_neg (by omega), if_neg (by omega)]
    rfl
  by_cases hmiddle : f.payload.length ≤ 65535
  · have hwire : masked key (encodeServerFrame f.opcode f.payload f.final) =
        UInt8.ofNat ((if f.final then 0x80 else 0) ||| f.opcode) :: 254 ::
          [UInt8.ofNat ((f.payload.length >>> 8) &&& 255), UInt8.ofNat (f.payload.length &&& 255)] ++ key ++ mask key f.payload := by
      simp [masked, encodeServerFrame, if_neg hshort, if_pos hmiddle, show (126 : Byte) ||| 128 = 254 from rfl]
    have hvalue := bigEndian_two (n := f.payload.length) (by omega)
    rw [hwire]
    refine parse_frame f rfl (by decide) (fun _ => by omega) hkey (by simp) ?_
    rw [readLength, if_pos (by decide)]
    simp only [List.cons_append, List.nil_append, List.drop_succ_cons, List.drop_zero, List.take_succ_cons, List.take_zero, hvalue]
    rw [if_neg (by simp only [List.length_cons]; omega), if_neg (by omega)]
    rfl
  · have hwire : masked key (encodeServerFrame f.opcode f.payload f.final) =
        UInt8.ofNat ((if f.final then 0x80 else 0) ||| f.opcode) :: 255 ::
          ([56, 48, 40, 32, 24, 16, 8, 0].map fun shift => UInt8.ofNat ((f.payload.length >>> shift) &&& 255)) ++ key ++
            mask key f.payload := by
      simp [masked, encodeServerFrame, if_neg hshort, if_neg hmiddle, show (127 : Byte) ||| 128 = 255 from rfl]
    have hvalue := bigEndian_eight (n := f.payload.length) (by omega)
    have hhigh : (UInt8.ofNat ((f.payload.length >>> 56) &&& 255)).toNat &&& 128 = 0 := by
      have hzero : ∀ n < 128, n &&& 128 = 0 := by decide +kernel
      rw [shifted_byte]
      exact hzero _ (by omega)
    rw [hwire]
    refine parse_frame f rfl (by decide) (fun _ => by omega) hkey (by simp) ?_
    rw [readLength, if_neg (by decide), if_pos (by decide)]
    simp only [List.map_cons, List.map_nil, List.cons_append, List.nil_append, List.drop_succ_cons, List.drop_zero,
      List.take_succ_cons, List.take_zero, List.getD_cons_succ, List.getD_cons_zero] at hvalue ⊢
    rw [hvalue, hhigh, if_neg (by simp only [List.length_cons]; omega), if_neg (by simp), if_neg (by omega)]
    rfl

lemma needMore_of_prefix (f : LegalFrame maxPayload) {key x : Bytes} (hkey : key.length = 4)
    (hx : x <+: masked key (encodeServerFrame f.opcode f.payload f.final))
    (hne : x ≠ masked key (encodeServerFrame f.opcode f.payload f.final)) :
    (parseClientFrame x maxPayload frame).1.kind = .needMore := by
  by_contra hkind
  obtain ⟨y, hy⟩ := hx
  have hsame := parseClientFrame_append (y := y) hkind
  have hwhole := @parse_masked maxPayload frame f key hkey
  rw [← hy, hsame] at hwhole
  have hle := @consumed_le x maxPayload frame (by rw [hwhole])
  rw [hwhole, List.length_append] at hle
  have hnil : y = [] := List.eq_nil_of_length_eq_zero (by dsimp only at hle; omega)
  rw [hnil, List.append_nil] at hy
  exact hne hy

lemma unmasked_error {input : Bytes} (h : 2 ≤ input.length) (hmask : (input.getD 1 0).toNat &&& 0x80 = 0) :
    (parseClientFrame input maxPayload frame).1 = ⟨.error, 0, 1002⟩ := by
  have hvalid : validStart (input.getD 0 0).toNat (input.getD 1 0).toNat = false := by
    rw [validStart, hmask]
    simp
  rw [parseClientFrame, if_neg (by omega)]
  dsimp only
  rw [hvalid, if_pos (by decide)]

lemma long_error {input : Bytes} (h : 2 ≤ input.length) (hread : readLength ((input.getD 1 0).toNat &&& 127) input = .error) :
    (parseClientFrame input maxPayload frame).1 = ⟨.error, 0, 1002⟩ := by
  rw [parseClientFrame, if_neg (by omega)]
  dsimp only
  rw [hread]
  split_ifs <;> rfl

end Inverse

/-- The answer for a complete or wrong frame does not depend on what follows, decoding inverts encoding and masking and asks for more
on every proper beginning, and a frame that is unmasked or whose length is not in its shortest form is wrong. -/
theorem parseClientFrame_inverts :
    (∀ x y maxPayload frame, (parseClientFrame x maxPayload frame).1.kind ≠ .needMore →
      parseClientFrame (x ++ y) maxPayload frame = parseClientFrame x maxPayload frame) ∧
    (∀ maxPayload (f : LegalFrame maxPayload) (k₀ k₁ k₂ k₃ : Byte) frame wire,
      wire = masked [k₀, k₁, k₂, k₃] (encodeServerFrame f.opcode f.payload f.final) →
        parseClientFrame wire maxPayload frame = (⟨.complete, wire.length, 1000⟩, ⟨f.final, f.opcode, f.payload⟩) ∧
        ∀ x, x <+: wire → x ≠ wire → (parseClientFrame x maxPayload frame).1.kind = .needMore) ∧
    (∀ input maxPayload frame, 2 ≤ input.length → (input.getD 1 0).toNat &&& 0x80 = 0 →
      (parseClientFrame input maxPayload frame).1.kind = .error) ∧
    ∀ input maxPayload frame,
      4 ≤ input.length ∧ (input.getD 1 0).toNat &&& 127 = 126 ∧ bigEndian ((input.drop 2).take 2) < 126 ∨
        10 ≤ input.length ∧ (input.getD 1 0).toNat &&& 127 = 127 ∧ bigEndian ((input.drop 2).take 8) < 65536 →
      (parseClientFrame input maxPayload frame).1.kind = .error := by
  refine ⟨fun x y maxPayload frame => parseClientFrame_append, fun maxPayload f k₀ k₁ k₂ k₃ frame wire hwire => ?_,
    fun input maxPayload frame h hmask => ?_, fun input maxPayload frame h => ?_⟩
  · subst hwire
    exact ⟨parse_masked f rfl, fun x => needMore_of_prefix f rfl⟩
  · rw [unmasked_error h hmask]
  · rcases h with ⟨hlength, hfield, hshort⟩ | ⟨hlength, hfield, hshort⟩
    · rw [long_error (by omega)]
      rw [hfield, readLength, if_pos rfl, if_neg (by omega), if_pos hshort]
    · rw [long_error (by omega)]
      rw [hfield, readLength, if_neg (by decide), if_pos rfl, if_neg (by omega), if_pos hshort]
      split <;> rfl

theorem parseClientFrame_inverts_text : (parseClientFrame (masked [1, 2, 3, 4] (encodeServerFrame 1 [72, 105] true)) 125 {}).1 =
    ⟨.complete, 8, 1000⟩ := by
  have hlegal := parseClientFrame_inverts.2.1 125 ⟨true, 1, [72, 105], rfl, by decide, by decide, by decide⟩ 1 2 3 4 {} _ rfl
  exact congrArg Prod.fst hlegal.1

end WebSocketFrame

end ServerCore.Web
