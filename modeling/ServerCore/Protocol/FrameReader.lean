import ServerCore.Core.Status
import ServerCore.Protocol.FrameDecoding

/-! `FrameReader`: the queue of completed bodies in front of the frame codec, with an admission
predicate that is asked before a body is kept. -/

namespace ServerCore.Protocol

open ServerCore.Core ServerCore.Foundations.StreamDecoder FrameCodec

def toStatus : FrameCodec.Error → Status
  | .none => ⟨.ok, ""⟩
  | .wouldBlock => .fail .wouldBlock "a complete frame is not available"
  | .tooLarge => .fail .tooLarge "the frame body exceeds the configured maximum"
  | .invalidFormat => .fail .invalidFormat "the frame stream is incomplete"
  | .invalidArgument => .fail .invalidArgument "the frame codec was called incorrectly"
  | .insufficientStorage => .fail .platformError "the frame codec could not obtain its required storage"

def allocationFailure : Status := .failWithoutMessage .platformError

/-- `CompletedFrameAdmission` over its context; a null pointer is `none`. -/
abbrev Admission (σ : Type*) := Option (σ → ℕ → Bool × σ)

structure FrameReader where
  maxBodySize : UInt32
  reader : Option Reader := none
  completed : List Bytes := []
  completedBodyBytes : ℕ := 0
  current : Bytes := []
  callbackAllocationFailed : Bool := false
  callbackAdmissionRejected : Bool := false
  admissionTerminal : Bool := false

namespace FrameReader

def create (maxBodySize : UInt32) : FrameReader := { maxBodySize := maxBodySize }

def ensureReader (f : FrameReader) : Reader × Status :=
  match f.reader with
  | some r => (r, toStatus .none)
  | none =>
    let r := Reader.create (List.replicate (headerSize + f.maxBodySize.toNat) 0) f.maxBodySize
    (r, toStatus r.finish)

variable {σ : Type*}

def copyCompletedFrame (admission : Admission σ) (call : FrameReader × σ) (body : Bytes) : FrameReader × σ :=
  let (f, context) := call
  if f.callbackAllocationFailed || f.callbackAdmissionRejected then (f, context)
  else if sizeModulus - 1 - f.completedBodyBytes < body.length then
    ({ f with callbackAllocationFailed := true }, context)
  else
    let (accepted, context') :=
      match admission with
      | none => (true, context)
      | some ask => ask context body.length
    if accepted then
      ({ f with
        completed := f.completed ++ [body]
        completedBodyBytes := f.completedBodyBytes + body.length }, context')
    else ({ f with callbackAdmissionRejected := true }, context')

def append (f : FrameReader) (bytes : Bytes) (context : σ) (admission : Admission σ) : Status × FrameReader × σ :=
  if f.admissionTerminal then (toStatus .tooLarge, f, context)
  else
    let (r, prepared) := f.ensureReader
    let f := { f with reader := some r }
    if prepared.code ≠ .ok then (prepared, f, context)
    else
      let f := { f with callbackAllocationFailed := false, callbackAdmissionRejected := false }
      let (appended, r', f', context') := r.append bytes (f, context) (some (.plain (copyCompletedFrame admission)))
      let f' := { f' with reader := some r' }
      if f'.callbackAdmissionRejected then (toStatus .tooLarge, { f' with admissionTerminal := true }, context')
      else if f'.callbackAllocationFailed then (allocationFailure, f', context')
      else (toStatus appended.error, f', context')

def nextFrame (f : FrameReader) : Except ErrorCode Bytes × FrameReader :=
  match f.completed with
  | [] => (.error .wouldBlock, { f with current := [] })
  | body :: rest =>
    (.ok body, { f with
      current := body
      completed := rest
      completedBodyBytes := f.completedBodyBytes - body.length })

def takeNextFrame (f : FrameReader) : Except ErrorCode Bytes × FrameReader :=
  match f.completed with
  | [] => (.error .wouldBlock, { f with current := [] })
  | body :: rest =>
    (.ok body, { f with
      current := []
      completed := rest
      completedBodyBytes := f.completedBodyBytes - body.length })

def completedFrameCount (f : FrameReader) : ℕ := f.completed.length

def discardCompletedFrames (f : FrameReader) : FrameReader := { f with completed := [], completedBodyBytes := 0 }

def releaseStorage (f : FrameReader) : FrameReader :=
  { ({ f with reader := none } : FrameReader).discardCompletedFrames with
    current := []
    callbackAllocationFailed := false
    callbackAdmissionRejected := false
    admissionTerminal := false }

def finish (f : FrameReader) : Status :=
  if f.admissionTerminal then toStatus .tooLarge
  else
    match f.reader with
    | some r => toStatus r.finish
    | none => toStatus .none

end FrameReader

def admitted {σ : Type*} (admission : Admission σ) : σ → List Bytes → List Bytes × σ × Bool
  | context, [] => ([], context, false)
  | context, body :: rest =>
    match admission with
    | none => (body :: rest, context, false)
    | some ask =>
      match ask context body.length with
      | (true, context') =>
        let (bodies, context'', refused) := admitted admission context' rest
        (body :: bodies, context'', refused)
      | (false, context') => ([], context', true)

/-- A reader with the bytes appended to it and the bodies that left its queue, since it was made or
last released. -/
structure Session where
  reader : FrameReader
  stream : Bytes := []
  removed : List Bytes := []

inductive Operation (σ : Type*)
  | append (bytes : Bytes) (context : σ) (admission : Admission σ)
  | nextFrame
  | takeNextFrame
  | discardCompletedFrames
  | releaseStorage

namespace Session

variable {σ : Type*}

def step (s : Session) : Operation σ → Session
  | .append bytes context admission =>
    { s with reader := (s.reader.append bytes context admission).2.1, stream := s.stream ++ bytes }
  | .nextFrame => { s with reader := s.reader.nextFrame.2, removed := s.removed ++ s.reader.nextFrame.1.toOption.toList }
  | .takeNextFrame =>
    { s with reader := s.reader.takeNextFrame.2, removed := s.removed ++ s.reader.takeNextFrame.1.toOption.toList }
  | .discardCompletedFrames =>
    { s with reader := s.reader.discardCompletedFrames, removed := s.removed ++ s.reader.completed }
  | .releaseStorage => ⟨s.reader.releaseStorage, [], []⟩

def unread (f : FrameReader) : Bytes := (f.reader.map Reader.unread).getD []

/-- The queued bodies, the incomplete frame and the span passed to `Append` are objects of one
address space. -/
def Addressable (s : Session) (bytes : Bytes) : Prop :=
  s.reader.completedBodyBytes + (unread s.reader).length + bytes.length < sizeModulus

inductive Reaches (σ : Type*) (maxBodySize : UInt32) : Session → Prop
  | start : Reaches σ maxBodySize ⟨.create maxBodySize, [], []⟩
  | step {s : Session} (operation : Operation σ) : Reaches σ maxBodySize s →
      (∀ bytes context admission, operation = .append bytes context admission → s.Addressable bytes) →
      Reaches σ maxBodySize (s.step operation)

end Session

end ServerCore.Protocol
