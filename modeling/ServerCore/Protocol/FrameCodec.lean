import ServerCore.Core.Bytes

/-! The length-prefixed framing of `FrameCodec.h`: the streaming reader over caller
storage and the encoder. -/

namespace ServerCore.Protocol.FrameCodec

open ServerCore.Core

def headerSize : ℕ := 4

inductive Error
  | none
  | wouldBlock
  | tooLarge
  | invalidFormat
  | invalidArgument
  | insufficientStorage
  deriving DecidableEq, Repr

structure AppendResult where
  error : Error
  consumed : ℕ
  deriving DecidableEq, Repr

structure EncodeResult where
  error : Error
  required : ℕ
  written : ℕ
  deriving DecidableEq, Repr

/-- A frame callback over a context: what it makes of a body, and whether it calls `Append` on the
same reader meanwhile. -/
structure FrameCallback (σ : Type*) where
  run : σ → Bytes → σ
  reenters : σ → Bytes → Bool

@[simps] def FrameCallback.plain {σ : Type*} (run : σ → Bytes → σ) : FrameCallback σ where
  run := run
  reenters _ _ := false

/-- The unread bytes are `storage[start, stop)`. -/
structure Reader where
  storage : Bytes
  maxBodySize : UInt32
  start : ℕ
  stop : ℕ
  terminalError : Error
  invokingCallback : Bool
  start_le_stop : start ≤ stop
  stop_le_size : stop ≤ storage.length

def requiredStorageSize (maxBodySize : UInt32) : ℕ :=
  if maxBodySize.toNat > sizeModulus - 1 - headerSize then 0 else headerSize + maxBodySize.toNat

lemma nothing_stored (storage : Bytes) : 0 ≤ storage.length := Nat.zero_le _

namespace Reader

def create (storage : Bytes) (maxBodySize : UInt32) : Reader where
  storage := storage
  maxBodySize := maxBodySize
  start := 0
  stop := 0
  terminalError :=
    let required := requiredStorageSize maxBodySize
    if required = 0 ∨ storage.length < required then .insufficientStorage else .none
  invokingCallback := false
  start_le_stop := le_rfl
  stop_le_size := nothing_stored storage

def refuse (r : Reader) (callbackIsNull : Bool) : Option (Error × Reader) :=
  if r.terminalError ≠ .none then some (r.terminalError, r)
  else if callbackIsNull then some (.invalidArgument, r)
  else if r.invokingCallback then some (.invalidFormat, { r with terminalError := .invalidFormat })
  else none

def readLittleEndianLength (r : Reader) : UInt32 :=
  let byte (i : ℕ) : UInt32 := (r.storage.getD (r.start + i) 0).toUInt32
  byte 0 ||| (byte 1 <<< 8) ||| (byte 2 <<< 16) ||| (byte 3 <<< 24)

/-- The reader while and after `callback(context, body)`, with `mInvokingCallback` set around it:
a nested `Append` returns from its checks. -/
def invoke {σ : Type*} (r : Reader) (callback : FrameCallback σ) (context : σ) (body : Bytes) :
    Reader :=
  let invoking := { r with invokingCallback := true }
  let called := if callback.reenters context body then
    ((invoking.refuse false).map Prod.snd).getD invoking else invoking
  { called with invokingCallback := false }

lemma refuse_fields {r r' : Reader} {isNull : Bool} {e : Error} (h : r.refuse isNull = some (e, r')) :
    r'.storage = r.storage ∧ r'.maxBodySize = r.maxBodySize ∧ r'.start = r.start ∧ r'.stop = r.stop := by
  simp only [refuse] at h
  split_ifs at h <;> obtain ⟨-, rfl⟩ := Prod.mk.inj (Option.some.inj h) <;> exact ⟨rfl, rfl, rfl, rfl⟩

lemma invoke_fields {σ : Type*} (r : Reader) (callback : FrameCallback σ) (context : σ) (body : Bytes) :
    (r.invoke callback context body).storage = r.storage ∧
      (r.invoke callback context body).maxBodySize = r.maxBodySize ∧
      (r.invoke callback context body).start = r.start ∧
      (r.invoke callback context body).stop = r.stop := by
  simp only [invoke]
  split_ifs with hc
  · cases hr : ({ r with invokingCallback := true } : Reader).refuse false with
    | none => exact ⟨rfl, rfl, rfl, rfl⟩
    | some result =>
      obtain ⟨e, r'⟩ := result
      have hf := refuse_fields hr
      exact hf
  · exact ⟨rfl, rfl, rfl, rfl⟩

def advance (r : Reader) (frameSize : ℕ) (h : frameSize ≤ r.stop - r.start) : Reader :=
  { r with start := r.start + frameSize, start_le_stop := by have := r.start_le_stop; omega }

def pumpCompletedFrames {σ : Type*} (callback : FrameCallback σ) (r : Reader) (context : σ) :
    Error × Reader × σ :=
  if _hh : headerSize ≤ r.stop - r.start then
    let bodyLength := r.readLittleEndianLength
    if bodyLength > r.maxBodySize then
      (.tooLarge, { r with terminalError := .tooLarge }, context)
    else
      let frameSize := headerSize + bodyLength.toNat
      if hf : r.stop - r.start < frameSize then (.none, r, context)
      else
        let body := (r.storage.drop (r.start + headerSize)).take bodyLength.toNat
        let called := r.invoke callback context body
        if called.terminalError ≠ .none then
          (called.terminalError, called, callback.run context body)
        else
          have hc : frameSize ≤ called.stop - called.start := by
            obtain ⟨-, -, hs, he⟩ := r.invoke_fields callback context body
            simp only [called, hs, he]
            omega
          pumpCompletedFrames callback (called.advance frameSize hc) (callback.run context body)
  else (.none, r, context)
termination_by r.stop - r.start
decreasing_by
  obtain ⟨-, -, hs, he⟩ := r.invoke_fields callback context
    ((r.storage.drop (r.start + headerSize)).take r.readLittleEndianLength.toNat)
  simp only [advance, hs, he, headerSize] at *
  omega

def compactUnreadBytes (r : Reader) : Reader :=
  if r.start = 0 then r
  else
    let unread := r.stop - r.start
    have hu : unread ≤ r.storage.length := (Nat.sub_le _ _).trans r.stop_le_size
    { r with
      storage := overwrite r.storage 0 ((r.storage.drop r.start).take unread)
      start := 0
      stop := unread
      start_le_stop := Nat.zero_le _
      stop_le_size := by
        rw [overwrite_length (by simp only [List.length_take, List.length_drop]; omega)]
        exact hu }

def makeRoom (r : Reader) : Reader :=
  if r.stop = r.storage.length then r.compactUnreadBytes else r

def store (r : Reader) (bytes : Bytes) (h : bytes.length ≤ r.storage.length - r.stop) : Reader :=
  { r with
    storage := overwrite r.storage r.stop bytes
    stop := r.stop + bytes.length
    start_le_stop := r.start_le_stop.trans (Nat.le_add_right _ _)
    stop_le_size := by
      have hs := r.stop_le_size
      rw [overwrite_length] <;> omega }

def appendLoop {σ : Type*} (callback : FrameCallback σ) (r : Reader) (context : σ) (bytes : Bytes)
    (consumed : ℕ) : AppendResult × Reader × σ :=
  match pumpCompletedFrames callback r context with
  | (pumped, pumpedReader, context') =>
    if pumped ≠ .none then (⟨pumped, consumed⟩, pumpedReader, context')
    else if _hne : bytes.isEmpty then (⟨.none, consumed⟩, pumpedReader, context')
    else
      let room := pumpedReader.makeRoom
      if _hfull : room.stop = room.storage.length then
        (⟨.invalidFormat, consumed⟩, { room with terminalError := .invalidFormat }, context')
      else
        let writable := room.storage.length - room.stop
        let count := if writable < bytes.length then writable else bytes.length
        have hcount : (bytes.take count).length ≤ room.storage.length - room.stop := by
          simp only [List.length_take, count, writable]
          split_ifs <;> omega
        appendLoop callback (room.store (bytes.take count) hcount) context' (bytes.drop count)
          (consumed + count)
termination_by bytes.length
decreasing_by
  have hs := pumpedReader.makeRoom.stop_le_size
  have hpos : 0 < bytes.length := List.length_pos_iff.mpr (by simpa using _hne)
  simp only [List.length_drop, count, writable, room] at *
  split_ifs <;> omega

def append {σ : Type*} (r : Reader) (bytes : Bytes) (context : σ) (callback : Option (FrameCallback σ)) :
    AppendResult × Reader × σ :=
  match r.refuse callback.isNone, callback with
  | some (error, r'), _ => (⟨error, 0⟩, r', context)
  | none, some callback => appendLoop callback r context bytes 0
  | none, none => (⟨.invalidArgument, 0⟩, r, context)

def finish (r : Reader) : Error :=
  if r.terminalError ≠ .none then r.terminalError
  else if r.start = r.stop then .none else .invalidFormat

end Reader

def encodeTo (body output : Bytes) (maxBodySize : UInt32) : EncodeResult × Bytes :=
  if body.length > maxBodySize.toNat then (⟨.tooLarge, 0, 0⟩, output)
  else if body.length > sizeModulus - 1 - headerSize then (⟨.tooLarge, 0, 0⟩, output)
  else
    let required := headerSize + body.length
    if output.length < required then (⟨.insufficientStorage, required, 0⟩, output)
    else
      let length := UInt32.ofNat body.length
      let output := if body.isEmpty then output else overwrite output headerSize body
      let output := output.set 0 (length &&& 0xFF).toUInt8
      let output := output.set 1 ((length >>> 8) &&& 0xFF).toUInt8
      let output := output.set 2 ((length >>> 16) &&& 0xFF).toUInt8
      let output := output.set 3 ((length >>> 24) &&& 0xFF).toUInt8
      (⟨.none, required, required⟩, output)

end ServerCore.Protocol.FrameCodec
