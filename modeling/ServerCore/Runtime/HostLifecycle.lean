import ServerCore.Foundations.Table
import ServerCore.Foundations.Transition

/-! `ServerHost` from `Start` to `Stop`: every section under the lifecycle mutex and every use of one of its
owners is one event. A thread is the stack of its calls, because the observer of a closed session may call the
host again. -/

namespace ServerCore.Runtime.HostLifecycle

open ServerCore.Foundations

inductive Lifecycle
  | ready
  | starting
  | running
  | stopping
  | stopped
  deriving DecidableEq, Repr

-- What a `unique_ptr` of the host owns.
inductive Owner
  | absent
  | alive
  | destroyed
  deriving DecidableEq, Repr

structure Options where
  maxConcurrentSessions : ℕ
  parseWorkers : Bool
  deriving DecidableEq, Repr

inductive Session
  | begun
  | tracked (slot : ℕ)
  | finished
  deriving DecidableEq, Repr

structure Shared where
  options : Options
  lifecycle : Lifecycle := .ready
  startSucceeded : Bool := false
  stopRequestedDuringStart : Bool := false
  drainStarting : Bool := false
  drainSendsStarted : Bool := false
  outstandingSessions : ℕ := 0
  inFlightCloseNotifications : ℕ := 0
  sessionSlots : List (Option ℕ) := []
  freeSessionSlots : List ℕ := []
  jobThread : Bool := false
  parsePool : Owner := .absent
  io : Owner := .absent
  acceptor : Owner := .absent
  accepting : Bool := false
  draining : Bool := false
  running : Bool := false
  sessions : Table Session := ⟨0, fun _ => .finished⟩
  prepared : Bool := false
  tearDowns : ℕ := 0
  dangling : Bool := false
  failed : Bool := false

inductive StartStep
  | allocate
  | sendLimits
  | io
  | runner
  | parse
  | timer
  | handler
  | listen
  | accept
  | publish
  deriving DecidableEq, Repr

-- `CompleteFailedStart` and the end of `Stop` take the host down in the same order.
inductive TearStep
  | timer
  | acceptor
  | parse
  | sessions (index : ℕ)
  | waiting
  | io
  | runner
  | destroy
  deriving DecidableEq, Repr

inductive DrainStep
  | acceptor
  | sessions (index : ℕ)
  | started
  deriving DecidableEq, Repr

inductive Place
  | start
  | starting (step : StartStep)
  | tearing (failed : Bool) (step : TearStep)
  | stop
  | stopWaiting
  | notificationsWaiting
  | stopped (started : Bool)
  | beginDrain
  | drainWaiting
  | draining (step : DrainStep)
  | advanceDrain
  | drainingSends (index : ℕ)
  | run
  | runWaiting
  | finishing (session : ℕ) (opened : Bool)
  | closing
  | notified
  | completing
  deriving DecidableEq, Repr

structure Choice where
  ok : Bool := true
  allocations : ℕ := 7
  created : Bool := false
  deriving DecidableEq, Repr

namespace Shared

def check (s : Shared) (condition : Bool) : Shared := { s with failed := s.failed || !condition }

def touch (s : Shared) (owner : Owner) : Shared := { s with dangling := s.dangling || owner = .destroyed }

def start (s : Shared) (c : Choice) : Shared × Option Place :=
  if s.lifecycle = .ready && c.ok then ({ s with lifecycle := .starting }, some (.starting .allocate)) else (s, none)

def fail (s : Shared) : Shared × Option Place :=
  ({ s with tearDowns := s.tearDowns + 1 }, some (.tearing true .timer))

def next (s : Shared) (ok : Bool) (step : StartStep) : Shared × Option Place :=
  if ok then (s, some (.starting step)) else s.fail

def allocate (s : Shared) (c : Choice) : Shared × Option Place :=
  let s := if 1 ≤ c.allocations then { s with sessionSlots := List.replicate s.options.maxConcurrentSessions none } else s
  let s :=
    if 4 ≤ c.allocations then { s with freeSessionSlots := List.range s.options.maxConcurrentSessions, prepared := true }
    else s
  let s := if 5 ≤ c.allocations then { s with io := .alive } else s
  let s := if 6 ≤ c.allocations then { s with acceptor := .alive } else s
  let s := if 7 ≤ c.allocations && s.options.parseWorkers then { s with parsePool := .alive } else s
  s.next (7 ≤ c.allocations || 6 ≤ c.allocations && !s.options.parseWorkers) .sendLimits

def publish (s : Shared) : Shared × Option Place :=
  ({ s with running := true, lifecycle := .running, startSucceeded := !s.stopRequestedDuringStart },
    if s.stopRequestedDuringStart then some .stop else none)

def startStep (s : Shared) (c : Choice) : StartStep → Shared × Option Place
  | .allocate => s.allocate c
  | .sendLimits => (s.touch s.acceptor).next c.ok .io
  | .io => (s.touch s.io).next c.ok .runner
  | .runner => { s with jobThread := c.ok || c.created }.next c.ok .parse
  | .parse => (s.touch s.parsePool).next (c.ok || !s.options.parseWorkers) .timer
  | .timer => s.next c.ok .handler
  | .handler => (s.touch s.acceptor).next c.ok .listen
  | .listen => if c.ok then ({ s.touch s.acceptor with accepting := true }, some (.starting .accept)) else (s.touch s.acceptor).fail
  | .accept =>
    let s := (s.touch s.acceptor).touch s.io
    if c.ok then (s, some (.starting .publish)) else { s with accepting := false }.fail
  | .publish => s.publish

def reset (owner : Owner) : Owner := if owner = .absent then .absent else .destroyed

def tearStep (s : Shared) (depth : ℕ) (failed : Bool) : TearStep → Option (Shared × Option Place)
  | .timer =>
    some (if failed then { s with accepting := false, running := false } else s, some (.tearing failed .acceptor))
  | .acceptor => some (s.touch s.acceptor, some (.tearing failed .parse))
  | .parse => some (s.touch s.parsePool, some (.tearing failed (.sessions 0)))
  | .sessions index =>
    some (s, some (.tearing failed (if index < s.sessionSlots.length then .sessions (index + 1) else .waiting)))
  | .waiting =>
    if s.outstandingSessions = 0 ∧ s.inFlightCloseNotifications ≤ (if failed then 0 else depth) then
      some (s, some (.tearing failed .io))
    else none
  | .io => some (s.touch s.io, some (.tearing failed .runner))
  | .runner => some ({ s with jobThread := false }, some (.tearing failed .destroy))
  | .destroy =>
    some ({ s with
      acceptor := reset s.acceptor
      io := reset s.io
      parsePool := reset s.parsePool
      lifecycle := .stopped }, if failed then none else some (.stopped true))

-- `depth` is how deep the thread is inside close notifications of the host.
def stop (s : Shared) (depth : ℕ) : Option (Shared × Option Place) :=
  let s := s.check (depth ≤ s.inFlightCloseNotifications)
  if s.lifecycle = .starting then
    if depth ≠ 0 then some ({ s with stopRequestedDuringStart := true }, some (.stopped true)) else none
  else if s.drainStarting then none
  else
    match s.lifecycle with
    | .ready | .starting => some (s, some (.stopped false))
    | .stopped => some (s, some (if depth = 0 then .notificationsWaiting else .stopped true))
    | .stopping => some (s, some (if depth = 0 then .stopWaiting else .stopped true))
    | .running =>
      some ({ s with lifecycle := .stopping, accepting := false, running := false, tearDowns := s.tearDowns + 1 },
        some (.tearing false .timer))

def beginDrain (s : Shared) (depth : ℕ) (c : Choice) : Shared × Option Place :=
  if !c.ok || depth ≠ 0 then (s, none)
  else if s.lifecycle ≠ .running then (s, none)
  else if s.draining then (s, some .drainWaiting)
  else ({ s with drainStarting := true, draining := true, running := false }, some (.draining .acceptor))

def drainStep (s : Shared) : DrainStep → Shared × Option Place
  | .acceptor => (s.touch s.acceptor, some (.draining (.sessions 0)))
  | .sessions index =>
    (s, some (.draining (if index < s.sessionSlots.length then .sessions (index + 1) else .started)))
  | .started => ({ s with drainStarting := false }, some .advanceDrain)

def advanceDrain (s : Shared) (c : Choice) : Shared × Option Place :=
  if !s.draining || s.drainStarting || s.drainSendsStarted || s.lifecycle ≠ .running || !c.ok then (s, none)
  else ({ s with drainSendsStarted := true }, some (.drainingSends 0))

def runHost (s : Shared) : Shared × Option Place :=
  if s.lifecycle = .running || s.lifecycle = .stopping || s.lifecycle = .stopped && s.startSucceeded then
    (s, some .runWaiting)
  else (s, none)

def beginNetworkSession (s : Shared) : Option Shared :=
  if !s.accepting || s.draining then none
  else if s.options.maxConcurrentSessions ≤ s.outstandingSessions then none
  else some { s with outstandingSessions := s.outstandingSessions + 1, sessions := s.sessions.push .begun }

def trackNetworkSession (s : Shared) (session : ℕ) : Shared :=
  let s := s.check (s.outstandingSessions ≠ 0)
  match s.freeSessionSlots with
  | [] => s.check false
  | index :: rest =>
    { s with
      freeSessionSlots := rest
      sessionSlots := s.sessionSlots.set index (some session)
      sessions := s.sessions.set session (.tracked index) }

def finishNetworkSession (s : Shared) (session : ℕ) (slot : Option ℕ) (beginCloseNotification : Bool) : Shared :=
  let s := s.check (s.outstandingSessions ≠ 0)
  let s := { s with inFlightCloseNotifications := s.inFlightCloseNotifications + beginCloseNotification.toNat }
  let s :=
    match slot with
    | none => s
    | some index =>
      let s := s.check (s.sessionSlots[index]? = some (some session))
      let s := s.check (s.freeSessionSlots.length < s.options.maxConcurrentSessions)
      { s with sessionSlots := s.sessionSlots.set index none, freeSessionSlots := index :: s.freeSessionSlots }
  { s with
    outstandingSessions := s.outstandingSessions - 1
    sessions := s.sessions.set session .finished }

def finish (s : Shared) (session : ℕ) (opened : Bool) : Option (Shared × Option Place) :=
  if session < s.sessions.count then
    match s.sessions.row session with
    | .begun => if opened then none else some (s.finishNetworkSession session none false, none)
    | .tracked slot =>
      some (s.finishNetworkSession session (some slot) opened, if opened then some .closing else none)
    | .finished => none
  else none

def finishCloseNotification (s : Shared) : Shared :=
  let s := s.check (s.inFlightCloseNotifications ≠ 0)
  { s with inFlightCloseNotifications := s.inFlightCloseNotifications - 1 }

end Shared

def advance (s : Shared) (depth : ℕ) (c : Choice) : Place → Option (Shared × Option Place)
  | .start => some (s.start c)
  | .starting step => some (s.startStep c step)
  | .tearing failed step => s.tearStep depth failed step
  | .stop => s.stop depth
  | .stopWaiting =>
    if s.lifecycle = .stopped ∧ s.inFlightCloseNotifications = 0 then some (s, some (.stopped true)) else none
  | .notificationsWaiting => if s.inFlightCloseNotifications = 0 then some (s, some (.stopped true)) else none
  | .stopped _ => some (s, none)
  | .beginDrain => some (s.beginDrain depth c)
  | .drainWaiting => if s.drainStarting then none else some (s, none)
  | .draining step => some (s.drainStep step)
  | .advanceDrain => some (s.advanceDrain c)
  | .drainingSends index =>
    some (s, if index < s.sessionSlots.length then some (.drainingSends (index + 1)) else none)
  | .run => some s.runHost
  | .runWaiting =>
    if s.lifecycle = .stopped ∧ s.inFlightCloseNotifications = 0 then some (s, none) else none
  | .finishing session opened => s.finish session opened
  | .closing => some (s, some .notified)
  | .notified => some (s, some .completing)
  | .completing => some (s.finishCloseNotification, none)

namespace Place

def notifying : Place → Bool
  | .notified => true
  | _ => false

def inFlight : Place → Bool
  | .closing | .notified | .completing => true
  | _ => false

def starts : Place → Bool
  | .starting _ | .tearing true _ => true
  | _ => false

def fails : Place → Bool
  | .tearing true _ => true
  | _ => false

def tears : Place → Bool
  | .tearing false _ => true
  | _ => false

def drains : Place → Bool
  | .draining _ => true
  | _ => false

def calls : Place → Bool
  | .notified | .tearing _ (.sessions _) | .draining (.sessions _) | .drainingSends _ => true
  | _ => false

end Place

def depth (stack : List Place) : ℕ := stack.countP Place.notifying

structure State where
  shared : Shared
  threads : Table (List Place) := ⟨0, fun _ => []⟩

inductive Call
  | start
  | stop
  | beginDrain
  | advanceDrain
  | run
  | finish (session : ℕ) (opened : Bool)
  deriving DecidableEq, Repr

def Call.place : Call → Place
  | .start => .start
  | .stop => .stop
  | .beginDrain => .beginDrain
  | .advanceDrain => .advanceDrain
  | .run => .run
  | .finish session opened => .finishing session opened

inductive Event
  | call (call : Call)
  | nest (i : ℕ) (call : Call)
  | begin
  | track (session : ℕ)
  | parse
  | advance (i : ℕ) (c : Choice)
  deriving DecidableEq, Repr

def step (s : State) : Event → Option State
  | .call call => some { s with threads := s.threads.push [call.place] }
  | .nest i call =>
    if i < s.threads.count then
      match s.threads.row i with
      | [] => none
      | place :: rest =>
        if place.calls then some { s with threads := s.threads.set i (call.place :: place :: rest) } else none
    else none
  | .begin => s.shared.beginNetworkSession.map fun shared => { s with shared }
  | .track session =>
    if session < s.shared.sessions.count ∧ s.shared.sessions.row session = .begun then
      some { s with shared := s.shared.trackNetworkSession session }
    else none
  | .parse => if s.shared.jobThread then some { s with shared := s.shared.touch s.shared.parsePool } else none
  | .advance i c =>
    if i < s.threads.count then
      match s.threads.row i with
      | [] => none
      | place :: rest =>
        (advance s.shared (depth rest) c place).map fun (shared, next) =>
          ⟨shared, s.threads.set i (next.toList ++ rest)⟩
    else none

def Fresh (s : State) : Prop := ∃ options, s = { shared := { options } }

abbrev Reached (s : State) : Prop := Reachable step Fresh s

end ServerCore.Runtime.HostLifecycle
