import ServerCore.Core.Status
import ServerCore.Core.Utf8
import Mathlib.Tactic.Ring

/-! `BinaryReader` and `BinaryWriter`: fixed-width integers, booleans, floating-point bits,
raw and length-prefixed bytes in either byte order. -/

namespace ServerCore.Protocol.BinaryIO

open ServerCore.Core

inductive ByteOrder
  | bigEndian
  | littleEndian
  deriving DecidableEq, Repr

def maximumBinaryBuffer : ℕ := 64 * 1024 * 1024

def isWidth (width : ℕ) : Bool := width = 1 || width = 2 || width = 4 || width = 8

def place (order : ByteOrder) (width i : ℕ) : ℕ :=
  match order with
  | .bigEndian => width - i - 1
  | .littleEndian => i

def store (value : UInt64) (width : ℕ) (order : ByteOrder) : Bytes :=
  (List.range width).map fun i => UInt8.ofNat (value.toNat >>> (8 * place order width i) &&& 255)

structure BinaryReader where
  input : Bytes
  order : ByteOrder
  position : ℕ
  position_le : position ≤ input.length

structure BinaryWriter where
  bytes : Bytes
  limit : ℕ
  order : ByteOrder
  within : bytes.length ≤ limit
  limit_le : limit ≤ maximumBinaryBuffer

namespace BinaryReader

def create (input : Bytes) (order : ByteOrder) (maximumBytes : ℕ) : Except ErrorCode BinaryReader :=
  if maximumBytes = 0 ∨ maximumBinaryBuffer < maximumBytes then .error .invalidArgument
  else if maximumBytes < input.length then .error .tooLarge
  else .ok ⟨input, order, 0, Nat.zero_le _⟩

def remaining (r : BinaryReader) : ℕ := r.input.length - r.position

def advance (r : BinaryReader) (length : ℕ) (h : length ≤ r.remaining) : BinaryReader :=
  { r with
    position := r.position + length
    position_le := by
      have := r.position_le
      simp only [remaining] at h
      omega }

/-- The bytes of `mInput[mPosition, mPosition + width)` joined, each shifted to its place. -/
def load (r : BinaryReader) (width : ℕ) : UInt64 :=
  UInt64.ofNat ((List.range width).foldl
    (fun value i => value ||| (r.input.getD (r.position + i) 0).toNat <<< (8 * place r.order width i)) 0)

def readUnsigned (r : BinaryReader) (width : ℕ) : BinaryReader × Except ErrorCode UInt64 :=
  if isWidth width = false then (r, .error .invalidArgument)
  else if h : width ≤ r.remaining then (r.advance width h, .ok (r.load width))
  else (r, .error .invalidFormat)

def signExtend (bits : UInt64) (width : ℕ) : UInt64 :=
  if width < 8 ∧ bits &&& (1 <<< UInt64.ofNat (width * 8 - 1)) ≠ 0 then
    bits ||| ~~~((1 <<< UInt64.ofNat (width * 8)) - 1)
  else bits

def readSigned (r : BinaryReader) (width : ℕ) : BinaryReader × Except ErrorCode Int64 :=
  let result := r.readUnsigned width
  (result.1, result.2.map fun bits => (signExtend bits width).toInt64)

def readBool (r : BinaryReader) : BinaryReader × Except ErrorCode Bool :=
  if h : 1 ≤ r.remaining then
    let byte := r.input.getD r.position 0
    if 1 < byte.toNat then (r, .error .invalidFormat) else (r.advance 1 h, .ok (byte = 1))
  else (r, .error .invalidFormat)

def readFloat32 (r : BinaryReader) : BinaryReader × Except ErrorCode UInt32 :=
  let result := r.readUnsigned 4
  (result.1, result.2.map UInt64.toUInt32)

def readFloat64 (r : BinaryReader) : BinaryReader × Except ErrorCode UInt64 := r.readUnsigned 8

def readBytes (r : BinaryReader) (length : ℕ) : BinaryReader × Except ErrorCode Bytes :=
  if h : length ≤ r.remaining then (r.advance length h, .ok ((r.input.drop r.position).take length))
  else (r, .error .invalidFormat)

def readLengthPrefixed (r : BinaryReader) (maximumLength : ℕ) : BinaryReader × Except ErrorCode Bytes :=
  match r.readUnsigned 4 with
  | (_, .error code) => (r, .error code)
  | (saved, .ok length) =>
    if maximumLength < length.toNat then (r, .error .tooLarge)
    else
      match saved.readBytes length.toNat with
      | (_, .error code) => (r, .error code)
      | (saved, .ok bytes) => (saved, .ok bytes)

def readUtf8 (r : BinaryReader) (maximumLength : ℕ) : BinaryReader × Except ErrorCode Bytes :=
  match r.readLengthPrefixed maximumLength with
  | (_, .error code) => (r, .error code)
  | (saved, .ok bytes) => if isValidUtf8 bytes then (saved, .ok bytes) else (r, .error .invalidFormat)

def skip (r : BinaryReader) (length : ℕ) : BinaryReader × Except ErrorCode Unit :=
  if h : length ≤ r.remaining then (r.advance length h, .ok ()) else (r, .error .invalidFormat)

end BinaryReader

/-- What a source span shows: bytes elsewhere, or `Bytes().subspan(offset, count)` of the writer. -/
inductive Source
  | elsewhere (bytes : Bytes)
  | view (offset count : ℕ)
  deriving DecidableEq, Repr

def Source.bytes (w : BinaryWriter) : Source → Bytes
  | .elsewhere bytes => bytes
  | .view offset count => (w.bytes.drop offset).take count

def Source.aliases (w : BinaryWriter) : Source → Option ℕ
  | .elsewhere _ => none
  | .view offset count => if (Source.view offset count).bytes w = [] then none else some offset

namespace BinaryWriter

def create (maximumBytes : ℕ) (order : ByteOrder) : Except ErrorCode BinaryWriter :=
  if h : maximumBytes = 0 ∨ maximumBinaryBuffer < maximumBytes then .error .invalidArgument
  else .ok ⟨[], maximumBytes, order, Nat.zero_le _, by omega⟩

def headerSize (hasPrefix : Bool) : ℕ := if hasPrefix then 4 else 0

/-- The buffer after `resize`, the length prefix and the copy: an aliasing source is read from the
grown buffer. -/
def grown (w : BinaryWriter) (value : Source) (hasPrefix : Bool) : Bytes :=
  let length := (value.bytes w).length
  let old := w.bytes.length
  let resized := w.bytes ++ List.replicate (headerSize hasPrefix + length) 0
  let headed :=
    if hasPrefix then overwrite resized old (store (UInt64.ofNat length) 4 w.order) else resized
  let source :=
    match value.aliases w with
    | some offset => (headed.drop offset).take length
    | none => value.bytes w
  if length = 0 then headed else overwrite headed (old + headerSize hasPrefix) source

lemma grown_eq (w : BinaryWriter) (value : Source) (hasPrefix : Bool) :
    w.grown value hasPrefix = w.bytes ++
      ((if hasPrefix then store (UInt64.ofNat (value.bytes w).length) 4 w.order else []) ++ value.bytes w) := by
  set header := if hasPrefix then store (UInt64.ofNat (value.bytes w).length) 4 w.order else [] with hheader
  set length := (value.bytes w).length with hlength
  have hheaded : (if hasPrefix then
      overwrite (w.bytes ++ List.replicate (headerSize hasPrefix + length) 0) w.bytes.length
        (store (UInt64.ofNat length) 4 w.order)
      else w.bytes ++ List.replicate (headerSize hasPrefix + length) 0) =
      w.bytes ++ (header ++ List.replicate length 0) := by
    cases hasPrefix with
    | false => simp [hheader, headerSize]
    | true =>
      simp only [↓reduceIte, headerSize, List.replicate_add, hheader, ← List.append_assoc]
      exact overwrite_append rfl (by simp [store])
  have hsize : headerSize hasPrefix = header.length := by
    cases hasPrefix <;> simp [hheader, headerSize, store]
  have hsource : (match value.aliases w with
      | some offset => ((w.bytes ++ (header ++ List.replicate length 0)).drop offset).take length
      | none => value.bytes w) = value.bytes w := by
    cases value with
    | elsewhere => rfl
    | view offset count =>
      simp only [Source.aliases]
      split_ifs with hempty
      · rfl
      · have hbytes : (Source.view offset count).bytes w = (w.bytes.drop offset).take count := rfl
        rw [hbytes] at hempty
        have hcount : length = min count (w.bytes.length - offset) := by simp [hlength, hbytes]
        have hoffset : offset ≤ w.bytes.length := by
          by_contra hlt
          exact hempty (by rw [List.drop_eq_nil_of_le (by omega), List.take_nil])
        simp only
        rw [hbytes, List.drop_append_of_le_length hoffset, List.take_append_of_le_length, hcount, List.take_eq_take_iff]
        · simp
        · simp only [List.length_drop]
          omega
  simp only [grown, ← hlength, hheaded, hsource]
  split_ifs with hzero
  · have hnil : value.bytes w = [] := List.length_eq_zero_iff.mp hzero
    rw [hnil, hzero, List.replicate_zero]
  · rw [← List.append_assoc, hsize, ← List.length_append, ← List.append_nil (w.bytes ++ header ++ List.replicate length 0),
      overwrite_append rfl (by simp [hlength]), List.append_nil, List.append_assoc]

lemma grown_length (w : BinaryWriter) (value : Source) (hasPrefix : Bool) :
    (w.grown value hasPrefix).length = w.bytes.length + (headerSize hasPrefix + (value.bytes w).length) := by
  rw [grown_eq]
  cases hasPrefix <;> simp [headerSize, store]

def append (w : BinaryWriter) (value : Source) (hasPrefix : Bool) : BinaryWriter × Except ErrorCode Unit :=
  if h : w.limit - w.bytes.length < headerSize hasPrefix ∨
      w.limit - w.bytes.length - headerSize hasPrefix < (value.bytes w).length then (w, .error .tooLarge)
  else if (value.aliases w).any fun offset => w.bytes.length - offset < (value.bytes w).length then
    (w, .error .invalidArgument)
  else
    ({ w with
      bytes := w.grown value hasPrefix
      within := by
        have := w.within
        rw [grown_length]
        omega }, .ok ())

def writeUnsigned (w : BinaryWriter) (value : UInt64) (width : ℕ) : BinaryWriter × Except ErrorCode Unit :=
  if isWidth width = false ∨ (width < 8 ∧ 2 ^ (width * 8) ≤ value.toNat) then (w, .error .invalidArgument)
  else w.append (.elsewhere (store value width w.order)) false

def writeSigned (w : BinaryWriter) (value : Int64) (width : ℕ) : BinaryWriter × Except ErrorCode Unit :=
  if isWidth width = false then (w, .error .invalidArgument)
  else if width < 8 ∧ (value.toInt < -2 ^ (width * 8 - 1) ∨ 2 ^ (width * 8 - 1) ≤ value.toInt) then
    (w, .error .invalidArgument)
  else w.append (.elsewhere (store value.toUInt64 width w.order)) false

def writeBool (w : BinaryWriter) (value : Bool) : BinaryWriter × Except ErrorCode Unit :=
  w.writeUnsigned (if value then 1 else 0) 1

def writeFloat32 (w : BinaryWriter) (bits : UInt32) : BinaryWriter × Except ErrorCode Unit :=
  w.writeUnsigned bits.toUInt64 4

def writeFloat64 (w : BinaryWriter) (bits : UInt64) : BinaryWriter × Except ErrorCode Unit :=
  w.writeUnsigned bits 8

def writeBytes (w : BinaryWriter) (value : Source) : BinaryWriter × Except ErrorCode Unit := w.append value false

def writeLengthPrefixed (w : BinaryWriter) (value : Source) (maximumLength : ℕ) :
    BinaryWriter × Except ErrorCode Unit :=
  if maximumLength < (value.bytes w).length ∨ 2 ^ 32 - 1 < (value.bytes w).length then (w, .error .tooLarge)
  else w.append value true

def writeUtf8 (w : BinaryWriter) (value : Source) (maximumLength : ℕ) : BinaryWriter × Except ErrorCode Unit :=
  if maximumLength < (value.bytes w).length then (w, .error .tooLarge)
  else if isValidUtf8 (value.bytes w) = false then (w, .error .invalidArgument)
  else w.writeLengthPrefixed value maximumLength

end BinaryWriter

end ServerCore.Protocol.BinaryIO
