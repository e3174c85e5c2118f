import ServerCore.Core.Status
import ServerCore.Foundations.Table
import ServerCore.Foundations.Transition

/-! The life of one `NetworkSession` from `OnConnectionAccepted` to its finalization. Every section
under `mFinalizationMutex` or `mCloseReasonMutex`, every access to the registry and to the host's slots
and every post to the runner is one event; what a thread does between two of them is its place. A call
made inside another one is a thread of its own here, which allows more orders than the code has. -/

namespace ServerCore.Runtime.SessionLifecycle

open ServerCore.Core ServerCore.Foundations

inductive SessionState
  | connected
  | authenticated
  | closing
  | closed
  deriving DecidableEq, Repr

namespace SessionState

def rank : SessionState → ℕ
  | connected => 0
  | authenticated => 1
  | closing => 2
  | closed => 3

def ended (state : SessionState) : Bool := state = closing || state = closed

end SessionState

-- `SessionRegistry` as far as it concerns the id of this session.
structure Registry where
  issued : Bool
  listed : Bool
  deriving DecidableEq, Repr

namespace Registry

def register (r : Registry) : Status × Registry :=
  if r.listed then
    (.fail .alreadyExists "SessionRegistry::Register() was given a SessionId that is already registered", r)
  else if !r.issued then
    (.fail .invalidArgument "SessionRegistry::Register() was given a SessionId not issued by this registry", r)
  else (⟨.ok, ""⟩, { issued := false, listed := true })

def unregister (r : Registry) : Registry := { r with listed := false }

def discardIssuedId (r : Registry) : Registry := { r with issued := false }

end Registry

inductive Job
  | openOnRunner
  | receive
  | finalizeOnRunner
  deriving DecidableEq, Repr

structure Shared where
  sessionState : SessionState := .connected
  registered : Bool := false
  opened : Bool := false
  finalized : Bool := false
  lifecycleNotificationDepth : ℕ := 0
  finalizeAfterNotification : Bool := false
  closeReason : Status := ⟨.ok, ""⟩
  hasCloseReason : Bool := false
  registry : Registry := { issued := true, listed := false }
  slot : Bool := true
  outstandingSessions : ℕ
  others : ℕ
  accepting : Bool := true
  jobs : List Job := []
  notified : Bool := false
  claims : ℕ := 0
  returns : ℕ := 0
  openedBegun : Bool := false
  openedReturned : Bool := false
  closedWith : List Status := []
  firstReason : Option Status := none
  deriving DecidableEq, Repr

namespace Shared

def rememberCloseReasonLocked (s : Shared) (reason : Status) : Shared :=
  let s := { s with firstReason := s.firstReason.or (some reason) }
  if s.hasCloseReason then s else { s with closeReason := reason, hasCloseReason := true }

def takeCloseReason (s : Shared) : Status × Shared :=
  if s.hasCloseReason then (s.closeReason, { s with hasCloseReason := false })
  else (.failWithoutMessage .closed, s)

def canSendLocked (s : Shared) : Bool := !s.sessionState.ended

def beginGracefulCloseLocked (s : Shared) (reason : Status) : Bool × Shared :=
  if s.sessionState.ended then (false, s)
  else (true, ({ s with sessionState := .closing } : Shared).rememberCloseReasonLocked reason)

def disconnectLocked (s : Shared) (reason : Status) : Bool × Shared :=
  if s.sessionState = .closed then (false, s)
  else if s.sessionState = .closing then (true, s)
  else (true, ({ s with sessionState := .closing } : Shared).rememberCloseReasonLocked reason)

def beginFinalizationDeferral (s : Shared) : Bool × Shared :=
  if s.finalized then (false, s)
  else (true, { s with lifecycleNotificationDepth := s.lifecycleNotificationDepth + 1 })

def beginMessageDispatch (s : Shared) : Bool × Shared :=
  if s.finalized || s.sessionState.ended then (false, s)
  else (true, { s with lifecycleNotificationDepth := s.lifecycleNotificationDepth + 1 })

def markAuthenticated (s : Shared) : Bool × Shared :=
  if s.finalized || s.sessionState = .authenticated || s.sessionState.ended then (false, s)
  else
    (true, { s with
      sessionState := .authenticated
      lifecycleNotificationDepth := s.lifecycleNotificationDepth + 1 })

-- `CompleteLifecycleNotification`, and whether the deferred finalization follows
def completeLifecycleNotification (s : Shared) : Bool × Shared :=
  let depth := s.lifecycleNotificationDepth - 1
  if depth = 0 then
    (s.finalizeAfterNotification, { s with lifecycleNotificationDepth := depth, finalizeAfterNotification := false })
  else (false, { s with lifecycleNotificationDepth := depth })

def onDisconnected (s : Shared) (reason : Status) : Shared :=
  { s.rememberCloseReasonLocked reason with sessionState := .closed }

inductive Opening
  | finalizedBefore
  | finalizeClosedSession
  | rejectClosingSession
  | failed (status : Status)
  | opened
  deriving DecidableEq, Repr

-- The section of `OpenOnRunner`; `token` is what the datagram transport answers, or the failure of an
-- allocation.
def openOnRunner (s : Shared) (token : Status) : Opening × Shared :=
  if s.finalized then (.finalizedBefore, s)
  else if s.sessionState = .closed then (.finalizeClosedSession, s)
  else if !s.accepting || s.sessionState = .closing then (.rejectClosingSession, s)
  else if token.code ≠ .ok then (.failed token, s)
  else
    let (registered, registry) := s.registry.register
    if registered.code = .ok then
      (.opened, { s with
        registry, registered := true, opened := true
        lifecycleNotificationDepth := s.lifecycleNotificationDepth + 1, openedBegun := true })
    else (.failed registered, s)

-- The finalization takes effect; what it found in `mRegistered` and `mOpened` goes with it.
def claim (s : Shared) : Shared :=
  { s with finalized := true, registered := false, opened := false, claims := s.claims + 1 }

def discardUnregisteredId (s : Shared) : Shared :=
  if s.registered then s else { s with registry := s.registry.discardIssuedId }

def finishNetworkSession (s : Shared) : Shared :=
  { s with slot := false, outstandingSessions := s.outstandingSessions - 1, returns := s.returns + 1 }

end Shared

-- The calls that hold a `FinalizationDeferral`: `Send`, `SendPrepared` and `SendBinary` are one.
inductive Operation
  | send
  | sendAndDisconnect (reason : Status)
  | drainSends
  | disconnect (reason : Status)
  deriving DecidableEq, Repr

inductive Path
  | runner
  | fallback
  deriving DecidableEq, Repr

inductive Place
  | accepting
  | aborting (reason : Status)
  | abandoning
  | entering (operation : Operation)
  | operating (operation : Operation) (active : Bool)
  | connection (operation : Operation) (active : Bool)
  | leaving (operation : Operation) (active : Bool)
  | authenticating (timedOut : Bool)
  | authenticated
  | disconnected (reason : Status)
  | posting
  | opening
  | observing
  | dispatching
  | handling
  | dispatched
  | finalizing
  | falling
  | unlisting (path : Path) (registered opened : Bool)
  | finishing (path : Path) (opened : Bool)
  | notifying (path : Path)
  | delivering (path : Path) (reason : Status)
  | finished
  deriving DecidableEq, Repr

-- What the surroundings decide at an event: whether a post, a parse or a further frame succeeds, and
-- with which status it fails.
structure Choice where
  flag : Bool := true
  status : Status := ⟨.ok, ""⟩
  deriving DecidableEq, Repr

def complete (s : Shared) (next : Place) : Shared × Place :=
  let (again, s) := s.completeLifecycleNotification
  (s, if again then .falling else next)

def operate (s : Shared) (c : Choice) (active : Bool) : Operation → Shared × Place
  | .send => (s, if s.canSendLocked && c.flag then .connection .send active else .leaving .send active)
  | .sendAndDisconnect reason =>
    if !c.flag then (s, .leaving (.sendAndDisconnect reason) active)
    else
      let (begun, s) := s.beginGracefulCloseLocked reason
      (s, if begun then .connection (.sendAndDisconnect reason) active else .leaving (.sendAndDisconnect reason) active)
  | .drainSends =>
    let (begun, s) := s.beginGracefulCloseLocked (.failWithoutMessage .closed)
    (s, if begun then .connection .drainSends active else .leaving .drainSends active)
  | .disconnect reason =>
    let (closes, s) := s.disconnectLocked reason
    (s, if closes then .connection (.disconnect reason) active else .leaving (.disconnect reason) active)

def stoppedAccepting : Status := .fail .closed "the ServerHost stopped accepting this session"

def openPlace (s : Shared) (c : Choice) : Shared × Place :=
  match s.openOnRunner c.status with
  | (.finalizedBefore, s) => (s, .finished)
  | (.finalizeClosedSession, s) => (s, .finalizing)
  | (.rejectClosingSession, s) =>
    (s, .entering (.disconnect (if c.flag then stoppedAccepting else .failWithoutMessage .platformError)))
  | (.failed status, s) => (s, .entering (.disconnect status))
  | (.opened, s) => (s, .observing)

def advance (s : Shared) (c : Choice) : Place → Option (Shared × Place)
  | .accepting =>
    if c.flag then some ({ s with jobs := s.jobs ++ [.openOnRunner] }, .finished) else some (s, .aborting c.status)
  | .aborting reason => some (s.rememberCloseReasonLocked reason, .abandoning)
  | .abandoning => some ({ s with sessionState := .closed }, .falling)
  | .entering operation =>
    let (active, s) := s.beginFinalizationDeferral
    some (s, .operating operation active)
  | .operating operation active => some (operate s c active operation)
  | .connection operation active => some (s, .leaving operation active)
  | .leaving _ active => some (if active then complete s .finished else (s, .finished))
  | .authenticating timedOut =>
    if s.sessionState = .connected && timedOut then
      some (s, .entering (.disconnect (.failWithoutMessage .timeout)))
    else
      let (marked, s) := s.markAuthenticated
      some (s, if marked then .authenticated else .finished)
  | .authenticated => some (complete s .finished)
  | .disconnected reason => some (s.onDisconnected reason, .posting)
  | .posting =>
    if s.finalized then some (s, .finished)
    else if c.flag then some ({ s with jobs := s.jobs ++ [.finalizeOnRunner] }, .finished)
    else some (s, .falling)
  | .opening => some (openPlace s c)
  | .observing => some (complete { s with openedReturned := true } .finished)
  | .dispatching =>
    if !c.flag then some (s, .entering (.disconnect c.status))
    else
      let (begun, s) := s.beginMessageDispatch
      some (s, if begun then .handling else .finished)
  | .handling => some (complete s .dispatched)
  | .dispatched => some (s, if s.sessionState.ended || !c.flag then .finished else .dispatching)
  | .finalizing =>
    if s.finalized then some (s, .finished) else some (s.claim, .unlisting .runner s.registered s.opened)
  | .falling =>
    if s.lifecycleNotificationDepth ≠ 0 then some ({ s with finalizeAfterNotification := true }, .finished)
    else if s.finalized then some (s, .finished)
    else some (s.claim, .unlisting .fallback s.registered s.opened)
  | .unlisting path registered opened =>
    some (if registered then { s with registry := s.registry.unregister } else s.discardUnregisteredId,
      .finishing path opened)
  | .finishing path opened => some (s.finishNetworkSession, if opened then .notifying path else .finished)
  | .notifying path =>
    let (reason, s) := s.takeCloseReason
    some ({ s with closedWith := s.closedWith ++ [reason] }, .delivering path reason)
  | .delivering _ _ => some (s, .finished)
  | .finished => none

inductive Call
  | operation (operation : Operation)
  | markAuthenticated (timedOut : Bool)
  deriving DecidableEq, Repr

def Call.place : Call → Place
  | .operation op => .entering op
  | .markAuthenticated timedOut => .authenticating timedOut

def Job.place : Job → Place
  | .openOnRunner => .opening
  | .receive => .dispatching
  | .finalizeOnRunner => .finalizing

structure State where
  shared : Shared
  threads : Table Place
  runner : Option ℕ

inductive Event
  | advance (i : ℕ) (c : Choice)
  | call (call : Call)
  | disconnect (reason : Status)
  | postReceive
  | runJob
  | runnerReturns
  | stopAccepting
  | otherBegins
  | otherEnds

def step (s : State) : Event → Option State
  | .advance i c =>
    if i < s.threads.count then
      (advance s.shared c (s.threads.row i)).map fun (shared, place) =>
        { s with shared, threads := s.threads.set i place }
    else none
  | .call call => some { s with threads := s.threads.push call.place }
  | .disconnect reason =>
    if s.shared.notified then none
    else some { s with
      shared := { s.shared with notified := true }
      threads := s.threads.push (.disconnected reason) }
  | .postReceive => some { s with shared := { s.shared with jobs := s.shared.jobs ++ [.receive] } }
  | .runJob =>
    match s.runner, s.shared.jobs with
    | none, job :: jobs => some
      { s with
        shared := { s.shared with jobs }
        threads := s.threads.push job.place
        runner := some s.threads.count }
    | _, _ => none
  | .runnerReturns =>
    match s.runner with
    | some i => if s.threads.row i = .finished then some { s with runner := none } else none
    | none => none
  | .stopAccepting => some { s with shared := { s.shared with accepting := false } }
  | .otherBegins =>
    some { s with shared := { s.shared with
      others := s.shared.others + 1, outstandingSessions := s.shared.outstandingSessions + 1 } }
  | .otherEnds =>
    if s.shared.others = 0 then none
    else some { s with shared := { s.shared with
      others := s.shared.others - 1, outstandingSessions := s.shared.outstandingSessions - 1 } }

def start (others : ℕ) : State where
  shared := { outstandingSessions := others + 1, others }
  threads := ⟨1, fun _ => .accepting⟩
  runner := none

def Initial (s : State) : Prop := ∃ others, s = start others

end ServerCore.Runtime.SessionLifecycle
