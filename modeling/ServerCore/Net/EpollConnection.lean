import ServerCore.Foundations.Table
import ServerCore.Foundations.Transition
import ServerCore.Net.SendQueue

/-! `TcpConnection` over epoll: every section under its mutex is one event. Each call, each event fetched by
a worker and each call that an observer makes is a thread of its own. -/

namespace ServerCore.Net.EpollConnection

open ServerCore.Core ServerCore.Foundations

-- `EPOLLIN | EPOLLRDHUP` and `EPOLLOUT`.
structure Interest where
  input : Bool
  output : Bool
  deriving DecidableEq, Repr

structure Events where
  input : Bool := false
  output : Bool := false
  hangUp : Bool := false
  error : Bool := false
  deriving DecidableEq, Repr

structure Shared where
  connectionLimit : ℕ
  descriptor : Bool := true
  registration : Bool := false
  armed : Option Interest := none
  observer : Bool := false
  observerAssigned : Bool := false
  started : Bool := false
  receivePaused : Bool := false
  processing : Bool := false
  closeAfterSend : Bool := false
  lingering : Bool := false
  disconnectNotified : Bool := false
  closed : Bool := false
  closeReason : Status := ⟨.ok, ""⟩
  sends : SendQueue := {}
  closings : List (Status × Bool) := []
  shutWrite : Bool := false
  accepted : Bytes := []
  kernel : Bytes := []
  disconnects : List Status := []

inductive Received
  | interrupted
  | wouldBlock
  | failed (reason : Status)
  | taken (bytes : Bytes)
  deriving DecidableEq, Repr

inductive Sent
  | interrupted
  | wouldBlock
  | failed (reason : Status)
  | taken (count : ℕ)
  deriving DecidableEq, Repr

structure Choice where
  ok : Bool := true
  failure : Status := .failWithoutMessage .platformError
  copied : Bool := true
  reserved : Bool := true
  allocated : Bool := true
  received : Received := .wouldBlock
  socketError : Option Status := none
  sent : ℕ → Sent := fun _ => .wouldBlock

inductive Place
  | starting
  | sending (bytes : Bytes)
  | pausingReceive
  | resumingReceive
  | closing
  | closingAfterSend
  | settingObserver (alive : Bool)
  | event (events : Events)
  | ready (events : Events)
  | receiving (events : Events) (attempts : ℕ)
  | delivering (events : Events) (attempts : ℕ) (bytes : Bytes)
  | sendingReady (events : Events)
  | notifying
  | disconnecting (reason : Status)
  | disconnected (reason : Status)
  | finished
  deriving DecidableEq, Repr

def closedStatus : Status := .failWithoutMessage .closed

namespace Shared

def interestLocked (s : Shared) : Interest :=
  if s.lingering then ⟨true, false⟩ else ⟨!s.receivePaused, !s.sends.empty⟩

def rearm (s : Shared) (interest : Interest) (ok : Bool) : Bool × Shared :=
  if s.registration && ok then (true, { s with armed := some interest }) else (false, s)

def rearmLocked (s : Shared) (ok : Bool) : Bool × Shared :=
  if s.interestLocked = ⟨false, false⟩ then (true, s) else s.rearm s.interestLocked ok

def discardSendsLocked (s : Shared) : Shared := { s with sends := s.sends.clear }

def releaseDescriptorLocked (s : Shared) : Shared :=
  let s := { s with lingering := false }
  if !s.descriptor then s else { s with registration := false, armed := none, descriptor := false }

def closeLocked (s : Shared) (reason : Status) (graceful ok : Bool) : Shared :=
  let s := { s with closings := s.closings ++ [(reason, graceful)] }
  if s.closed then
    if s.lingering then s.releaseDescriptorLocked else s
  else
    let s := { s with closed := true, closeReason := reason }
    let s :=
      if graceful && s.descriptor && s.registration then
        let s := { s with shutWrite := true, lingering := true }
        if s.processing then s
        else
          let (rearmed, s) := s.rearmLocked ok
          if rearmed then s else s.releaseDescriptorLocked
      else { s with shutWrite := graceful && s.descriptor }.releaseDescriptorLocked
    if s.processing then s else s.discardSendsLocked

def closeWithFailureLocked (s : Shared) (c : Choice) : Shared :=
  s.closeLocked (if c.copied then c.failure else .failWithoutMessage .platformError) false c.ok

-- The end of `Start`, `Send`, `PauseReceive` and `ResumeReceive`, with the answer of the event set.
def checked (c : Choice) (answer : Bool × Shared) : Shared × Place :=
  if answer.1 then (answer.2, .finished) else (answer.2.closeWithFailureLocked c, .notifying)

def register (s : Shared) (ok : Bool) : Bool × Shared :=
  if ok then (true, { s with registration := true, armed := some s.interestLocked }) else (false, s)

def start (s : Shared) (c : Choice) : Option (Shared × Place) :=
  if s.started then none
  else
    let s := { s with started := true }
    if s.closed then some (s, .finished) else some (checked c (s.register c.ok))

def sendWithOutcome (s : Shared) (bytes : Bytes) (c : Choice) : Shared × Place :=
  if s.closed || s.closeAfterSend then (s, .finished)
  else if bytes = [] then (s, .finished)
  else
    match s.sends.enqueue s.connectionLimit bytes c.reserved c.allocated with
    | .error _ => (s, .finished)
    | .ok sends =>
      let s := { s with sends }
      let (rearmed, s) := if s.started && !s.processing then s.rearmLocked c.ok else (true, s)
      checked c (rearmed, if rearmed then { s with accepted := s.accepted ++ bytes } else s)

def pauseReceive (s : Shared) (c : Choice) : Shared × Place :=
  if s.closed || s.receivePaused then (s, .finished)
  else
    let s := { s with receivePaused := true }
    if s.started && !s.processing then checked c (s.rearm s.interestLocked c.ok) else (s, .finished)

def resumeReceive (s : Shared) (c : Choice) : Shared × Place :=
  if s.closed || !s.receivePaused then (s, .finished)
  else
    let s := { s with receivePaused := false }
    if s.started && !s.processing then checked c (s.rearmLocked c.ok) else (s, .finished)

def close (s : Shared) (c : Choice) : Shared := s.closeLocked closedStatus false c.ok

def closeAfterSendNow (s : Shared) (c : Choice) : Shared :=
  if s.closed then s
  else
    let s := { s with closeAfterSend := true }
    if s.sends.empty then s.closeLocked closedStatus true c.ok else s

def setObserver (s : Shared) (alive : Bool) : Option Shared :=
  if s.observerAssigned then none else some { s with observerAssigned := true, observer := alive }

def notifyDisconnected (s : Shared) : Shared × Place :=
  if !s.closed || s.lingering || s.processing || !s.observerAssigned || s.disconnectNotified then (s, .finished)
  else ({ s with disconnectNotified := true }, .disconnecting s.closeReason)

def onReady (s : Shared) (events : Events) : Shared × Place :=
  if (s.closed && !s.lingering) || s.processing then (s, .finished)
  else
    ({ s with processing := true },
      if events.input || events.hangUp || events.error then .receiving events 16 else .sendingReady events)

def receive (s : Shared) (events : Events) (attempts : ℕ) (c : Choice) : Shared × Place :=
  if !s.lingering && (s.closed || s.receivePaused) then (s, .sendingReady events)
  else
    match c.received with
    | .interrupted => (s, .receiving events attempts)
    | .wouldBlock => (s, .sendingReady events)
    | .failed reason => (s.closeLocked reason false c.ok, .sendingReady events)
    | .taken [] => (s.closeLocked closedStatus false c.ok, .sendingReady events)
    | .taken (b :: bytes) =>
      if s.lingering || !s.observer then (s, .receiving events attempts)
      else (s, .delivering events attempts (b :: bytes))

def sendLoop (c : Choice) : ℕ → Shared → Bool × Shared
  | 0, s => (false, s)
  | attempts + 1, s =>
    if s.closed || s.sends.empty then (false, s)
    else
      match c.sent attempts with
      | .interrupted => sendLoop c attempts s
      | .wouldBlock => (true, s)
      | .failed reason => (false, s.closeLocked reason false c.ok)
      | .taken count =>
        let count := min count s.sends.front.length
        if count = 0 then (false, s.closeLocked closedStatus false c.ok)
        else
          sendLoop c attempts
            { s with kernel := s.kernel ++ s.sends.front.take count, sends := s.sends.consume count }

def checkSocket (s : Shared) (events : Events) (c : Choice) : Shared :=
  if !s.closed && s.receivePaused && events.error then
    match c.socketError with
    | none => s
    | some failure => s.closeLocked failure false c.ok
  else s

def finishSends (s : Shared) (events : Events) (sendBlocked : Bool) (c : Choice) : Shared :=
  let s :=
    if !s.closed && s.receivePaused && events.hangUp && sendBlocked then s.closeLocked closedStatus false c.ok else s
  if !s.closed && s.closeAfterSend && s.sends.empty then s.closeLocked closedStatus true c.ok else s

def leave (s : Shared) (c : Choice) : Shared :=
  let s := { s with processing := false }
  if s.closed && !s.lingering then s.discardSendsLocked
  else
    let (rearmed, s) := s.rearmLocked c.ok
    if rearmed then s else s.closeLocked c.failure false c.ok

def sendReady (s : Shared) (events : Events) (c : Choice) : Shared :=
  let (sendBlocked, s) := (s.checkSocket events c).sendLoop c 64
  (s.finishSends events sendBlocked c).leave c

end Shared

def advance (s : Shared) (c : Choice) : Place → Option (Shared × Place)
  | .starting => s.start c
  | .sending bytes => some (s.sendWithOutcome bytes c)
  | .pausingReceive => some (s.pauseReceive c)
  | .resumingReceive => some (s.resumeReceive c)
  | .closing => some (s.close c, .notifying)
  | .closingAfterSend => some (s.closeAfterSendNow c, .notifying)
  | .settingObserver alive => (s.setObserver alive).map (·, .notifying)
  | .event events => some (s, if s.registration then .ready events else .finished)
  | .ready events => some (s.onReady events)
  | .receiving events 0 => some (s, .sendingReady events)
  | .receiving events (attempts + 1) => some (s.receive events attempts c)
  | .delivering events attempts _ => some (s, .receiving events attempts)
  | .sendingReady events => some (s.sendReady events c, .notifying)
  | .notifying => some s.notifyDisconnected
  | .disconnecting reason =>
    if s.observer then some ({ s with disconnects := s.disconnects ++ [reason] }, .disconnected reason)
    else some (s, .finished)
  | .disconnected _ => some (s, .finished)
  | .finished => none

structure State where
  shared : Shared
  threads : Table Place := ⟨0, fun _ => .finished⟩

inductive Call
  | start
  | send (bytes : Bytes)
  | pauseReceive
  | resumeReceive
  | close
  | closeAfterSend
  | setObserver (alive : Bool)
  deriving DecidableEq, Repr

def Call.place : Call → Place
  | .start => .starting
  | .send bytes => .sending bytes
  | .pauseReceive => .pausingReceive
  | .resumeReceive => .resumingReceive
  | .close => .closing
  | .closeAfterSend => .closingAfterSend
  | .setObserver alive => .settingObserver alive

inductive Event
  | call (call : Call)
  | poll (events : Events)
  | expire
  | advance (i : ℕ) (c : Choice)

def Interest.reports (interest : Interest) (events : Events) : Bool :=
  (!events.input || interest.input) && (!events.output || interest.output)

def step (s : State) : Event → Option State
  | .call call => some { s with threads := s.threads.push call.place }
  | .poll events =>
    if s.shared.armed.any (·.reports events) then
      some ⟨{ s.shared with armed := none }, s.threads.push (.event events)⟩
    else none
  | .expire => some { s with shared := { s.shared with observer := false } }
  | .advance i c =>
    if i < s.threads.count then
      (advance s.shared c (s.threads.row i)).map fun (shared, place) => ⟨shared, s.threads.set i place⟩
    else none

def Fresh (s : State) : Prop := ∃ connectionLimit, s = { shared := { connectionLimit } }

abbrev Reached (s : State) : Prop := Reachable step Fresh s

namespace Place

def processes : Place → Bool
  | .receiving .. | .delivering .. | .sendingReady _ => true
  | _ => false

def carries : Place → Bool
  | .event _ | .ready _ => true
  | _ => false

def notifies : Place → Bool
  | .notifying => true
  | _ => false

def disconnects : Place → Bool
  | .disconnecting _ => true
  | _ => false

def runs : Place → Bool
  | .event _ | .finished => false
  | _ => true

end Place

end ServerCore.Net.EpollConnection
