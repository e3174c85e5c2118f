import ServerCore.Core.Status
import ServerCore.Core.Utf8
import ServerCore.Web.WebSocketFrame

/-! What a WebSocket peer does with the bytes it receives: `OnBytesReceived`, `ProcessInput`
and `ProcessWebSocketFrame`. -/

namespace ServerCore.Web.WebSocketInput

open ServerCore.Core

structure Options where
  maxWebSocketFrameBytes : ℕ := 64 * 1024
  maxWebSocketMessageBytes : ℕ := 256 * 1024

inductive Phase
  | webSocket
  | wsClosing
  | closed
  deriving DecidableEq

inductive WebSocketMessageType
  | text
  | binary
  deriving DecidableEq

structure WebSocketMessage where
  type : WebSocketMessageType
  bytes : Bytes
  deriving DecidableEq

inductive Call
  | send (wire : Bytes)
  | close
  | closeAfterSend
  | pauseReceive
  | resumeReceive
  deriving DecidableEq

/-- What an application does with its peer. The frames that it sends and a writer that it gives up are
calls of the connection. -/
inductive Action
  | close (code : ℕ) (reason : Bytes)
  | call (call : Call)
  | pauseReceive
  | resumeReceive
  deriving DecidableEq

inductive Event
  | message (message : WebSocketMessage)
  | call (call : Call)
  | disconnected
  | violation (code : ℕ)
  | received (code : ℕ)
  | closing (own : Bool)
  | threw
  deriving DecidableEq

structure Answer where
  code : ErrorCode := .ok
  disconnected : Bool := false

structure Reaction where
  actions : List Action := []
  throws : Bool := false

structure World where
  answer : List Event → Answer
  isOpen : List Event → Bool
  onMessage : List Event → Reaction

structure Peer where
  phase : Phase := .webSocket
  held : Bool := false
  ignoreInput : Bool := false
  fragmentOpcode : ℕ := 0
  message : Bytes := []
  receivedCloseCode : ℕ := 1006
  receivedCloseReason : Bytes := []
  heartbeatPending : Bool := false
  heartbeatPayload : Bytes := []
  trace : List Event := []
  deriving DecidableEq

def validCloseCode (code : ℕ) : Bool :=
  (1000 ≤ code && code ≤ 1014 && code != 1004 && code != 1005 && code != 1006) || (3000 ≤ code && code ≤ 4999)

namespace Peer

def note (e : Event) (p : Peer) : Peer := { p with trace := p.trace ++ [e] }

def setHeld (held : Bool) (p : Peer) : Peer := { p with held }

def disconnect (p : Peer) : Peer := { p.note .disconnected with phase := .closed }

def beginClose (own : Bool) (p : Peer) : Peer :=
  { p.note (.closing own) with phase := .wsClosing, heartbeatPending := false }

def fail (code : ℕ) (p : Peer) : Peer := { p.note (.violation code) with ignoreInput := true }

variable (o : Options) (w : World)

/-- A call of the connection. `OnDisconnected` may run inside it, where the rest of its work is put off. -/
def call (c : Call) (p : Peer) : ErrorCode × Peer :=
  let p := p.note (.call c)
  let a := w.answer p.trace
  (a.code, if a.disconnected then p.disconnect else p)

def orClose (r : ErrorCode × Peer) : Peer := if r.1 = .ok then r.2 else (r.2.call w .close).2

def resumeHeld (p : Peer) : Peer := if p.held then ((p.setHeld false).call w .resumeReceive).2 else p

def isOpen (p : Peer) : Bool := p.phase = .webSocket && w.isOpen p.trace

def sendControl (opcode : ℕ) (payload : Bytes) (closingControl : Bool) (p : Peer) : ErrorCode × Peer :=
  if p.phase ≠ .webSocket ∧ ¬(closingControl = true ∧ p.phase = .wsClosing) then (.closed, p)
  else if payload.length > 125 then (.tooLarge, p)
  else p.call w (.send (WebSocketFrame.encodeServerFrame opcode payload true))

/-- `own` tells a close of the server from its answer to a close or to a violation. -/
def sendClose (own : Bool) (payload : Bytes) (p : Peer) : Peer :=
  if p.phase ≠ .webSocket then p
  else orClose w (((p.beginClose own).resumeHeld w).call w (.send (WebSocketFrame.encodeServerFrame 8 payload true)))

def close (own : Bool) (code : ℕ) (reason : Bytes) (p : Peer) : Peer :=
  if p.phase = .closed then p
  else if reason.length > 123 then p
  else if !validCloseCode code || code = 1010 then p
  else if !isValidUtf8 reason then p
  else p.sendClose w own (UInt8.ofNat (code >>> 8) :: UInt8.ofNat (code &&& 255) :: reason)

def webSocketError (code : ℕ) (p : Peer) : Peer :=
  (((p.fail code).close w false code []).call w .closeAfterSend).2

def pauseReceive (p : Peer) : Peer :=
  if !p.isOpen w then p
  else
    let p := ((p.setHeld true).call w .pauseReceive).2
    if !p.isOpen w then p.resumeHeld w else p

def resumeReceive (p : Peer) : Peer :=
  if !p.isOpen w then p else ((p.setHeld false).call w .resumeReceive).2

def act (p : Peer) : Action → Peer
  | .close code reason => p.close w true code reason
  | .call c => (p.call w c).2
  | .pauseReceive => p.pauseReceive w
  | .resumeReceive => p.resumeReceive w

def acceptClose (code : ℕ) (reason payload : Bytes) (p : Peer) : Peer :=
  let p := { p.note (.received code) with receivedCloseReason := reason, receivedCloseCode := code, ignoreInput := true }
  ((p.sendClose w false payload).call w .closeAfterSend).2

def takeClose (payload : Bytes) (p : Peer) : Peer :=
  if payload.length = 1 then p.webSocketError w 1002
  else if 2 ≤ payload.length then
    let code := ((payload.getD 0 0).toNat <<< 8) ||| (payload.getD 1 0).toNat
    let reason := payload.drop 2
    if !validCloseCode code then p.webSocketError w 1002
    else if !isValidUtf8 reason then p.webSocketError w 1007
    else p.acceptClose w code reason (if code = 1010 then 0x03 :: 0xe8 :: reason else payload)
  else p.acceptClose w 1005 [] payload

def takePing (payload : Bytes) (p : Peer) : Peer := orClose w (p.sendControl w 10 payload true)

def takePong (payload : Bytes) (p : Peer) : Peer :=
  if p.heartbeatPending && payload = p.heartbeatPayload then { p with heartbeatPending := false } else p

def deliver (type : WebSocketMessageType) (p : Peer) : Bool × Peer :=
  let p := { p with fragmentOpcode := 0 }.note (.message ⟨type, p.message⟩)
  let r := w.onMessage p.trace
  let p := r.actions.foldl (act w) p
  if r.throws then (false, (p.note .threw).webSocketError w 1011) else (true, { p with message := [] })

def finishMessage (p : Peer) : Bool × Peer :=
  if p.fragmentOpcode = 1 ∧ isValidUtf8 p.message = false then (false, p.webSocketError w 1007)
  else p.deliver w (if p.fragmentOpcode = 1 then .text else .binary)

def append (payload : Bytes) (p : Peer) : Peer := { p with message := p.message ++ payload }

def openMessage (opcode : ℕ) (p : Peer) : Peer := if opcode = 0 then p else { p with fragmentOpcode := opcode }

def collect (frame : WebSocketFrame) (p : Peer) : Bool × Peer :=
  if frame.payload.length > sizeSub o.maxWebSocketMessageBytes p.message.length then (false, p.webSocketError w 1009)
  else if !frame.final then (true, p.append frame.payload)
  else (p.append frame.payload).finishMessage w

def takeData (frame : WebSocketFrame) (p : Peer) : Bool × Peer :=
  if p.phase = .wsClosing then (true, p)
  else if frame.opcode = 0 ∧ p.fragmentOpcode = 0 ∨ frame.opcode ≠ 0 ∧ p.fragmentOpcode ≠ 0 then
    (false, p.webSocketError w 1002)
  else (p.openMessage frame.opcode).collect o w frame

def takeFrame (frame : WebSocketFrame) (p : Peer) : Bool × Peer :=
  if frame.opcode = 8 then (false, p.takeClose w frame.payload)
  else if frame.opcode = 9 then (true, p.takePing w frame.payload)
  else if frame.opcode = 10 then (true, p.takePong frame.payload)
  else p.takeData o w frame

def stopped (p : Peer) : Bool := p.phase = .closed || p.ignoreInput

def heldReceiveSlack : ℕ := 64 * 1024

def limit (p : Peer) : ℕ := max o.maxWebSocketFrameBytes 125 + 14 + if p.held then heldReceiveSlack else 0

def checkHeartbeat (payload : Bytes) (p : Peer) : Peer :=
  if p.held then p
  else if p.heartbeatPending then p.close w true 1001 (ascii "pong timeout")
  else
    let (code, p) := p.sendControl w 9 payload false
    if code = .ok ∧ p.phase = .webSocket then { p with heartbeatPayload := payload, heartbeatPending := true }
    else if code ≠ .ok ∧ code ≠ .wouldBlock then (p.call w .close).2
    else p

end Peer

structure Reader where
  peer : Peer := {}
  input : Bytes := []
  deriving DecidableEq

namespace Reader

variable (o : Options) (w : World)

def processWebSocketFrame (s : Reader) : Bool × Reader :=
  let (result, frame) := WebSocketFrame.parseClientFrame s.input o.maxWebSocketFrameBytes {}
  match result.kind with
  | .needMore => (false, s)
  | .error => (false, ⟨s.peer.webSocketError w result.closeCode, s.input⟩)
  | .complete =>
    let (more, peer) := s.peer.takeFrame o w frame
    (more, ⟨peer, s.input.drop result.consumed⟩)

def turn (s : Reader) : Bool × Reader :=
  if s.peer.stopped then (false, s)
  else if s.peer.held then (false, s)
  else s.processWebSocketFrame o w

def processLoop : ℕ → Reader → Reader
  | 0, s => s
  | turns + 1, s =>
    match s.turn o w with
    | (false, s) => s
    | (true, s) => processLoop turns s

def processInput (s : Reader) : Reader := s.processLoop o w (s.input.length + 1)

def receiveLoop : ℕ → Bytes → Reader → Reader
  | 0, _, s => s
  | turns + 1, bytes, s =>
    if bytes = [] then s
    else if s.peer.stopped then s
    else if s.input.length ≥ s.peer.limit o then ⟨s.peer.webSocketError w 1009, s.input⟩
    else
      let count := min bytes.length (s.peer.limit o - s.input.length)
      receiveLoop turns (bytes.drop count) (processInput o w ⟨s.peer, s.input ++ bytes.take count⟩)

def onBytesReceived (bytes : Bytes) (s : Reader) : Reader := receiveLoop o w (bytes.length + 1) bytes s

end Reader

inductive Input
  | receive (bytes : Bytes)
  | progress
  | act (action : Action)
  | heartbeat (payload : Bytes)
  | disconnected

def step (o : Options) (w : World) (s : Reader) : Input → Reader
  | .receive bytes => s.onBytesReceived o w bytes
  | .progress => s.processInput o w
  | .act action => ⟨s.peer.act w action, s.input⟩
  | .heartbeat payload => if s.peer.phase = .webSocket then ⟨s.peer.checkHeartbeat w payload, s.input⟩ else s
  | .disconnected => ⟨s.peer.disconnect, s.input⟩

def run (o : Options) (w : World) (s : Reader) (inputs : List Input) : Reader := inputs.foldl (step o w) s

def messages (trace : List Event) : List WebSocketMessage :=
  trace.filterMap fun | .message message => some message | _ => none

end ServerCore.Web.WebSocketInput
