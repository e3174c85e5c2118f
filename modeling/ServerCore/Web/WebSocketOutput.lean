import ServerCore.Foundations.Transition
import ServerCore.Web.Utf8Fragments
import ServerCore.Web.WebSocketReassembly

/-! What a peer of an upgraded connection sends. The calls hold one recursive lock, so that those of other threads wait
while those made from inside a `Send` nest. -/

namespace ServerCore.Web.WebSocketOutput

open ServerCore.Core
open WebSocketInput (Options Phase WebSocketMessage WebSocketMessageType validCloseCode)

/-- The members of `Peer` that its sends use. -/
structure Sender where
  phase : Phase := .webSocket
  isOpen : Bool := true
  nextOutgoingId : ℕ := 0
  outgoingId : ℕ := 0
  outgoingBytes : ℕ := 0
  outgoingOpcode : ℕ := 0
  outgoingStarted : Bool := false
  outgoingWriting : Bool := false
  outgoingUtf8 : Utf8FragmentState := {}

/-- What `WriteMessage` keeps while it is in `Send`. -/
structure Write where
  id : ℕ
  bytes : Bytes
  utf8 : Utf8FragmentState
  final : Bool
  queued : Bool

/-- A call that is not back yet. `closing` has yet to send its frame. -/
inductive Pending
  | sendFrame
  | writeMessage (write : Write)
  | closing (payload : Bytes)
  | sendClose (queued : Bool)

inductive Accepted
  | message (type : WebSocketMessageType) (bytes : Bytes)
  | part (type : WebSocketMessageType) (bytes : Bytes) (final : Bool)

structure System where
  sender : Sender := {}
  wire : Bytes := []
  pending : List Pending := []
  frames : List WebSocketFrame := []
  accepted : List Accepted := []

/-- The calls, with the answer of `Send` where they reach it, the steps of a call that is under way, and the end of the
connection. -/
inductive Event
  | sendText (text : Bytes) (code : ErrorCode)
  | sendBinary (bytes : Bytes) (code : ErrorCode)
  | ping (payload : Bytes) (code : ErrorCode)
  | pong (payload : Bytes) (code : ErrorCode)
  | beginMessage (type : WebSocketMessageType)
  | writeMessage (id : ℕ) (bytes : Bytes) (final : Bool) (code : ErrorCode)
  | abortMessage (id : ℕ)
  | close (code : ℕ) (reason : Bytes)
  | answerClose (payload : Bytes)
  | send (code : ErrorCode)
  | back
  | connectionClose
  | disconnected
  | finishDisconnect

def uint64Modulus : ℕ := 2 ^ 64

def nextId (id : ℕ) : ℕ := if (id + 1) % uint64Modulus = 0 then 1 else (id + 1) % uint64Modulus

namespace System

variable (o : Options)

def ready (s : System) : Bool := s.sender.phase = .webSocket && s.sender.isOpen

/-- `Send` queues the frame or nothing. A closed connection takes nothing. -/
def send (opcode : ℕ) (payload : Bytes) (final : Bool) (code : ErrorCode) (accepted : List Accepted) (s : System) : Option System :=
  if code = .ok then
    if s.sender.isOpen then
      some { s with
        wire := s.wire ++ WebSocketFrame.encodeServerFrame opcode payload final
        frames := s.frames ++ [⟨final, opcode, payload⟩]
        accepted := s.accepted ++ accepted }
    else none
  else some s

def push (call : WebSocketOutput.Pending) (s : System) : System := { s with pending := call :: s.pending }

def refuses (opcode : ℕ) (payload : Bytes) (closingControl : Bool) (s : System) : Bool :=
  s.sender.phase ≠ .webSocket && !(closingControl && s.sender.phase = .wsClosing) ||
    payload.length > (if opcode < 8 then o.maxWebSocketFrameBytes else 125) ||
    opcode = 1 && !isValidUtf8 payload ||
    opcode < 8 && (s.sender.outgoingId ≠ 0 || s.sender.outgoingWriting)

def sendFrame (opcode : ℕ) (payload : Bytes) (closingControl : Bool) (code : ErrorCode) (accepted : List Accepted) (s : System) :
    Option System :=
  if s.refuses o opcode payload closingControl then some s
  else (s.send opcode payload true code accepted).map (push .sendFrame)

def beginMessage (type : WebSocketMessageType) (s : System) : System :=
  if !s.ready || s.sender.outgoingId ≠ 0 || s.sender.outgoingWriting then s
  else
    { s with sender := { s.sender with
        nextOutgoingId := nextId s.sender.nextOutgoingId
        outgoingId := nextId s.sender.nextOutgoingId
        outgoingBytes := 0
        outgoingStarted := false
        outgoingOpcode := type.opcode
        outgoingUtf8 := {} } }

/-- What `WriteMessage` refuses, after the state of its text is known. -/
def refusesWrite (id : ℕ) (bytes : Bytes) (valid : Bool) (s : System) : Bool :=
  !s.ready || id ≠ s.sender.outgoingId || s.sender.outgoingWriting || bytes.length > o.maxWebSocketFrameBytes ||
    bytes.length > sizeSub o.maxWebSocketMessageBytes s.sender.outgoingBytes || s.sender.outgoingOpcode = 1 && !valid

def messageType (opcode : ℕ) : WebSocketMessageType := if opcode = 1 then .text else .binary

def writeMessage (id : ℕ) (bytes : Bytes) (final : Bool) (code : ErrorCode) (s : System) : Option System :=
  let appended := s.sender.outgoingUtf8.append bytes final
  if s.refusesWrite o id bytes appended.1 then some s
  else
    let utf8 := if s.sender.outgoingOpcode = 1 then appended.2 else s.sender.outgoingUtf8
    let opcode := if s.sender.outgoingStarted then 0 else s.sender.outgoingOpcode
    ({ s with sender := { s.sender with outgoingWriting := true } }.send opcode bytes final code
      [.part (messageType s.sender.outgoingOpcode) bytes final]).map (push (.writeMessage ⟨id, bytes, utf8, final, code = ErrorCode.ok⟩))

def abortMessage (id : ℕ) (s : System) : System :=
  if s.sender.outgoingId ≠ id then s
  else
    { s with sender := { s.sender with
        outgoingId := 0
        isOpen := s.sender.isOpen && !(s.sender.outgoingStarted || s.sender.outgoingWriting) } }

def sendClose (payload : Bytes) (s : System) : System :=
  if s.sender.phase ≠ .webSocket then s
  else push (.closing payload) { s with sender := { s.sender with phase := .wsClosing, outgoingId := 0 } }

def close (code : ℕ) (reason : Bytes) (s : System) : System :=
  if s.sender.phase = .closed || reason.length > 123 || !validCloseCode code || code = 1010 || !isValidUtf8 reason then s
  else s.sendClose (UInt8.ofNat (code >>> 8) :: UInt8.ofNat (code &&& 255) :: reason)

end System

def Write.commit (w : Write) (p : Sender) : Sender :=
  if w.queued && p.outgoingId = w.id then
    { p with
      outgoingWriting := false
      outgoingBytes := p.outgoingBytes + w.bytes.length
      outgoingUtf8 := w.utf8
      outgoingStarted := true
      outgoingId := if w.final then 0 else p.outgoingId }
  else { p with outgoingWriting := false }

namespace System

def sendClosing (code : ErrorCode) (s : System) : Option System :=
  match s.pending with
  | .closing payload :: pending =>
    ({ s with pending := pending }.send 8 payload true code []).map (push (.sendClose (code = ErrorCode.ok)))
  | _ => none

def back (s : System) : Option System :=
  match s.pending with
  | .sendFrame :: pending => some { s with pending := pending }
  | .writeMessage w :: pending => some { s with pending := pending, sender := w.commit s.sender }
  | .sendClose queued :: pending => some { s with pending := pending, sender := { s.sender with isOpen := s.sender.isOpen && queued } }
  | _ => none

end System

def step (o : Options) (s : System) : Event → Option System
  | .sendText text code => s.sendFrame o 1 text false code [.message .text text]
  | .sendBinary bytes code => s.sendFrame o 2 bytes false code [.message .binary bytes]
  | .ping payload code => s.sendFrame o 9 payload false code []
  | .pong payload code => s.sendFrame o 10 payload true code []
  | .beginMessage type => some (s.beginMessage type)
  | .writeMessage id bytes final code => if id = 0 then none else s.writeMessage o id bytes final code
  | .abortMessage id => if id = 0 then none else some (s.abortMessage id)
  | .close code reason => some (s.close code reason)
  | .answerClose payload => if payload.length > 125 then none else some (s.sendClose payload)
  | .send code => s.sendClosing code
  | .back => s.back
  | .connectionClose => some { s with sender := { s.sender with isOpen := false } }
  | .disconnected => some { s with sender := { s.sender with phase := .closed, isOpen := false } }
  | .finishDisconnect => some { s with sender := { s.sender with phase := .closed, isOpen := false, outgoingId := 0 } }

def Initial (s : System) : Prop := s = {}

end ServerCore.Web.WebSocketOutput
