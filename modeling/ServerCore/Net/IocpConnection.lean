import ServerCore.Foundations.Table
import ServerCore.Foundations.Transition
import ServerCore.Net.SendQueue

/-! `TcpConnection` over a completion port: every section under its mutex is one event. Each call, each
completion fetched by a worker and each call that an observer makes is a thread of its own. -/

namespace ServerCore.Net.IocpConnection

open ServerCore.Core ServerCore.Foundations

structure Shared where
  connectionLimit : ℕ
  socket : Bool := true
  observer : Bool := false
  observerAssigned : Bool := false
  started : Bool := false
  sendQueue : SendQueue := {}
  sendInFlight : Bool := false
  receiveInFlight : Bool := false
  receivePaused : Bool := false
  closeAfterSendRequested : Bool := false
  lingering : Bool := false
  pendingOperations : ℕ := 0
  receiveCallbackActive : Bool := false
  closed : Bool := false
  closeReason : Status := ⟨.ok, ""⟩
  disconnectNotified : Bool := false
  receiving : Bool := false
  sending : Bool := false
  borrowed : Bytes := []
  closings : List Status := []
  disconnects : List Status := []
  failed : Bool := false

inductive Result
  | failed (reason : Status)
  | transferred (count : ℕ)
  deriving DecidableEq, Repr

structure Choice where
  ok : Bool := true
  failure : Status := .failWithoutMessage .platformError
  copied : Bool := true
  reserved : Bool := true
  allocated : Bool := true

inductive Place
  | starting
  | sending (bytes : Bytes)
  | pausingReceive
  | resumingReceive
  | closing
  | closingAfterSend
  | settingObserver (alive : Bool)
  | receiveCompleted (result : Result)
  | sendCompleted (result : Result)
  | received (count : ℕ)
  | delivering (count : ℕ)
  | returned
  | notifying
  | disconnecting (reason : Status)
  | disconnected (reason : Status)
  | finished
  deriving DecidableEq, Repr

def closedStatus : Status := .failWithoutMessage .closed

namespace Shared

def check (s : Shared) (condition : Bool) : Shared := { s with failed := s.failed || !condition }

def discardQueuedSendsLocked (s : Shared) : Shared :=
  let s := s.check !s.sendInFlight
  { s with sendQueue := s.sendQueue.clear }

def markClosedLocked (s : Shared) (reason : Status) : Shared :=
  let s := { s with closings := s.closings ++ [reason] }
  if s.closed then s
  else
    let s := { s with closeReason := reason, closed := true }
    if s.sendInFlight then s else s.discardQueuedSendsLocked

def closeSocketLocked (s : Shared) : Shared :=
  if !s.socket then s else { s with socket := false, lingering := false }

def failLocked (s : Shared) (c : Choice) : Shared :=
  (s.markClosedLocked (if c.copied then c.failure else .failWithoutMessage .platformError)).closeSocketLocked

def startReceiveLocked (s : Shared) (c : Choice) : Bool × Shared :=
  if (s.closed && !s.lingering) || !s.socket then (false, s)
  else if !s.lingering && (!s.started || s.receivePaused) then (true, s)
  else if s.receiveInFlight || s.receiveCallbackActive then (true, s)
  else if !c.ok then (false, s.failLocked c)
  else (true, { s with receiving := true, receiveInFlight := true, pendingOperations := s.pendingOperations + 1 })

def startSendLocked (s : Shared) (c : Choice) : Bool × Shared :=
  if s.closed || !s.socket then (false, s)
  else
    let s := (s.check !s.sendQueue.empty).check !s.sendInFlight
    if !c.ok then (false, s.failLocked c)
    else
      (true,
        { s with
          sending := true
          borrowed := s.sendQueue.front
          sendInFlight := true
          pendingOperations := s.pendingOperations + 1 })

def closeSocketAfterSendLocked (s : Shared) (c : Choice) : Shared :=
  if !s.socket then s else ({ s with lingering := true }.startReceiveLocked c).2

def finishCloseAfterSendLocked (s : Shared) (c : Choice) : Shared :=
  if !s.closeAfterSendRequested || s.closed || s.sendInFlight || !s.sendQueue.empty then s
  else (s.markClosedLocked closedStatus).closeSocketAfterSendLocked c

-- The end of `Start`, `Send` and `ResumeReceive`, with the answer of the system.
def checked (answer : Bool × Shared) : Shared × Place := (answer.2, if answer.1 then .finished else .notifying)

def start (s : Shared) (c : Choice) : Option (Shared × Place) :=
  if s.started then none else some (checked ({ s with started := true }.startReceiveLocked c))

def sendInternal (s : Shared) (bytes : Bytes) (c : Choice) : Shared × Place :=
  if s.closed || s.closeAfterSendRequested then (s, .finished)
  else if bytes = [] then (s, .finished)
  else
    match s.sendQueue.enqueue s.connectionLimit bytes c.reserved c.allocated with
    | .error _ => (s, .finished)
    | .ok sendQueue =>
      let s := { s with sendQueue }
      if s.sendInFlight then (s, .finished) else checked (s.startSendLocked c)

def pauseReceive (s : Shared) : Shared := if s.closed then s else { s with receivePaused := true }

def resumeReceive (s : Shared) (c : Choice) : Shared × Place :=
  if s.closed then (s, .finished) else checked ({ s with receivePaused := false }.startReceiveLocked c)

def close (s : Shared) : Shared :=
  ({ s with closeAfterSendRequested := false }.markClosedLocked closedStatus).closeSocketLocked

def closeAfterSend (s : Shared) (c : Choice) : Shared :=
  if s.closed then s else { s with closeAfterSendRequested := true }.finishCloseAfterSendLocked c

def setObserver (s : Shared) (alive : Bool) : Option Shared :=
  if s.observerAssigned then none else some { s with observerAssigned := true, observer := alive }

def takeReceive (s : Shared) : Shared :=
  let s := (s.check s.receiveInFlight).check (s.pendingOperations ≠ 0)
  { s with receiveInFlight := false, pendingOperations := s.pendingOperations - 1 }

def takeSend (s : Shared) : Shared :=
  let s := s.check (s.pendingOperations ≠ 0)
  { s with sendInFlight := false, pendingOperations := s.pendingOperations - 1 }

def onReceiveCompleted (s : Shared) (result : Result) (c : Choice) : Shared × Place :=
  let s := s.takeReceive
  if s.lingering then
    match result with
    | .failed _ | .transferred 0 => (s.closeSocketLocked, .notifying)
    | .transferred _ => ((s.startReceiveLocked c).2, .notifying)
  else if s.closed then (s, .notifying)
  else
    match result with
    | .failed reason => ((s.markClosedLocked reason).closeSocketLocked, .notifying)
    | .transferred 0 => ((s.markClosedLocked closedStatus).closeSocketLocked, .notifying)
    | .transferred count => ({ s.check !s.receiveCallbackActive with receiveCallbackActive := true }, .received count)

def finishReceive (s : Shared) (c : Choice) : Shared :=
  let s := { s.check s.receiveCallbackActive with receiveCallbackActive := false }
  if !s.closed || s.lingering then (s.startReceiveLocked c).2 else s

def onSendCompleted (s : Shared) (result : Result) (c : Choice) : Shared :=
  let s := s.takeSend
  if s.closed then s.discardQueuedSendsLocked
  else
    match result with
    | .failed reason => (s.markClosedLocked reason).closeSocketLocked
    | .transferred 0 => (s.markClosedLocked closedStatus).closeSocketLocked
    | .transferred count =>
      let s := s.check (!s.sendQueue.empty && count ≤ s.sendQueue.front.length)
      let s := { s with sendQueue := s.sendQueue.consume count }
      let s := if s.sendQueue.empty then s else (s.startSendLocked c).2
      s.finishCloseAfterSendLocked c

def maybeNotifyDisconnected (s : Shared) : Shared × Place :=
  if !s.observerAssigned || !s.closed || s.pendingOperations ≠ 0 || s.receiveCallbackActive then (s, .finished)
  else if s.disconnectNotified then (s, .finished)
  else ({ s with disconnectNotified := true }, .disconnecting s.closeReason)

end Shared

def advance (s : Shared) (c : Choice) : Place → Option (Shared × Place)
  | .starting => s.start c
  | .sending bytes => some (s.sendInternal bytes c)
  | .pausingReceive => some (s.pauseReceive, .finished)
  | .resumingReceive => some (s.resumeReceive c)
  | .closing => some (s.close, .notifying)
  | .closingAfterSend => some (s.closeAfterSend c, .notifying)
  | .settingObserver alive => (s.setObserver alive).map (·, .notifying)
  | .receiveCompleted result => some (s.onReceiveCompleted result c)
  | .sendCompleted result => some (s.onSendCompleted result c, .notifying)
  | .received count => some (s, if s.observer then .delivering count else .returned)
  | .delivering _ => some (s, .returned)
  | .returned => some (s.finishReceive c, .notifying)
  | .notifying => some s.maybeNotifyDisconnected
  | .disconnecting reason =>
    if s.observer then some ({ s with disconnects := s.disconnects ++ [reason] }, .disconnected reason)
    else some (s, .finished)
  | .disconnected _ => some (s, .finished)
  | .finished => none

structure State where
  shared : Shared
  threads : Table Place := ⟨0, fun _ => .finished⟩

inductive Call
  | start
  | send (bytes : Bytes)
  | pauseReceive
  | resumeReceive
  | close
  | closeAfterSend
  | setObserver (alive : Bool)
  deriving DecidableEq, Repr

def Call.place : Call → Place
  | .start => .starting
  | .send bytes => .sending bytes
  | .pauseReceive => .pausingReceive
  | .resumeReceive => .resumingReceive
  | .close => .closing
  | .closeAfterSend => .closingAfterSend
  | .setObserver alive => .settingObserver alive

inductive Event
  | call (call : Call)
  | completeReceive (result : Result)
  | completeSend (result : Result)
  | expire
  | advance (i : ℕ) (c : Choice)

def Result.within (limit : ℕ) : Result → Bool
  | .failed _ => true
  | .transferred count => count ≤ limit

def step (s : State) : Event → Option State
  | .call call => some { s with threads := s.threads.push call.place }
  | .completeReceive result =>
    if s.shared.receiving then
      some ⟨{ s.shared with receiving := false }, s.threads.push (.receiveCompleted result)⟩
    else none
  | .completeSend result =>
    if s.shared.sending && result.within s.shared.borrowed.length then
      some ⟨{ s.shared with sending := false }, s.threads.push (.sendCompleted result)⟩
    else none
  | .expire => some { s with shared := { s.shared with observer := false } }
  | .advance i c =>
    if i < s.threads.count then
      (advance s.shared c (s.threads.row i)).map fun (shared, place) => ⟨shared, s.threads.set i place⟩
    else none

def Fresh (s : State) : Prop := ∃ connectionLimit, s = { shared := { connectionLimit } }

abbrev Reached (s : State) : Prop := Reachable step Fresh s

namespace Place

def completesReceive : Place → Bool
  | .receiveCompleted _ => true
  | _ => false

def completesSend : Place → Bool
  | .sendCompleted _ => true
  | _ => false

def borrows : Place → Bool
  | .received _ | .delivering _ | .returned => true
  | _ => false

def notifies : Place → Bool
  | .notifying => true
  | _ => false

def disconnects : Place → Bool
  | .disconnecting _ => true
  | _ => false

def runs : Place → Bool
  | .receiveCompleted _ | .sendCompleted _ | .finished => false
  | _ => true

end Place

end ServerCore.Net.IocpConnection
