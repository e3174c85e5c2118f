import ServerCore.Foundations.Table
import ServerCore.Foundations.Transition

/-! `Acceptor` over epoll: every section under its mutex is one event, `Start` one for each registration
it makes, because a worker can fetch an event between them. Each call and each event fetched by a worker
is a thread of its own. -/

namespace ServerCore.Net.EpollAcceptor

open ServerCore.Foundations

inductive Target
  | ready
  | retry
  deriving DecidableEq, Repr

structure Registration where
  target : Target
  generation : ℕ
  armed : Bool
  deriving DecidableEq, Repr

-- `EpollState` while it runs, with the one-shot interest of every registration.
structure EventSet where
  nextRegistration : ℕ := 1
  registrations : ℕ → Option Registration := fun _ => none

namespace EventSet

def register (e : EventSet) (r : Registration) : EventSet :=
  ⟨e.nextRegistration + 1, Function.update e.registrations e.nextRegistration (some r)⟩

def arm (e : EventSet) (registration : ℕ) (armed : Bool) : EventSet :=
  { e with
    registrations := Function.update e.registrations registration
      ((e.registrations registration).map fun r => { r with armed := armed }) }

def rearm (e : EventSet) (registration : ℕ) (ok : Bool) : Bool × EventSet :=
  if (e.registrations registration).isSome && ok then (true, e.arm registration true) else (false, e)

def remove (e : EventSet) (registration : ℕ) : EventSet :=
  { e with registrations := Function.update e.registrations registration none }

def armed (e : EventSet) (registration : ℕ) : Bool := (e.registrations registration).any (·.armed)

end EventSet

structure Shared where
  descriptor : Bool := false
  events : Bool := false
  registration : ℕ := 0
  retryTimer : Bool := false
  retryRegistration : ℕ := 0
  acceptBackoff : Bool := false
  generation : ℕ := 0
  stopping : Bool := false
  activeHandoffs : ℕ := 0
  handler : Bool := false
  epoll : EventSet := {}
  starting : Bool := false
  undefined : Bool := false
  accepted : ℕ := 0
  given : ℕ → ℕ := fun _ => 0
  closed : ℕ → ℕ := fun _ => 0
  stopped : ℕ := 0

inductive Accept
  | connection
  | wouldBlock
  | exhausted
  | failed
  deriving DecidableEq, Repr

structure Choice where
  ok : Bool := true
  accept : Accept := .connection
  deriving DecidableEq, Repr

inductive Place
  | listening
  | configuring
  | starting
  | registering (generation : ℕ)
  | registeringRetry (generation : ℕ)
  | stopping
  | waiting (generation : ℕ)
  | event (registration : ℕ)
  | callback (target : Target) (generation registration : ℕ)
  | accepted (descriptor generation : ℕ)
  | handling (generation : ℕ)
  | leaving (generation : ℕ)
  | finished
  deriving DecidableEq, Repr

namespace Shared

def remove (s : Shared) (registration : ℕ) : Shared :=
  if s.events then { s with epoll := s.epoll.remove registration } else { s with undefined := true }

def rearm (s : Shared) (registration : ℕ) (ok : Bool) : Bool × Shared :=
  if s.events then
    let (rearmed, epoll) := s.epoll.rearm registration ok
    (rearmed, { s with epoll })
  else (false, { s with undefined := true })

def closeListenerLocked (s : Shared) : Shared :=
  let s := { s with stopping := true }
  let s :=
    if s.descriptor then
      let s := if s.registration ≠ 0 then { s.remove s.registration with registration := 0 } else s
      { s with descriptor := false }
    else s
  let s :=
    if s.retryTimer then
      let s := if s.retryRegistration ≠ 0 then { s.remove s.retryRegistration with retryRegistration := 0 } else s
      { s with retryTimer := false }
    else s
  { s with acceptBackoff := false }

def scheduleRetryLocked (s : Shared) (ok : Bool) : Bool × Shared :=
  if !s.retryTimer || s.retryRegistration = 0 then (false, s) else s.rearm s.retryRegistration ok

def parkListenerLocked (s : Shared) (ok : Bool) : Shared :=
  let (scheduled, s) := { s with acceptBackoff := true }.scheduleRetryLocked ok
  if scheduled then s else s.closeListenerLocked

def rearmListener (s : Shared) (ok : Bool) : Shared :=
  let (rearmed, s) := s.rearm s.registration ok
  if rearmed then s else s.closeListenerLocked

def passes (s : Shared) (expectedGeneration : ℕ) : Bool :=
  !s.stopping && s.descriptor && s.generation = expectedGeneration

def onRetry (s : Shared) (expectedGeneration : ℕ) (c : Choice) : Shared :=
  if s.passes expectedGeneration then s.rearmListener c.ok else s

def onReady (s : Shared) (expectedGeneration : ℕ) (c : Choice) : Shared × Place :=
  if !s.passes expectedGeneration then (s, .finished)
  else
    match c.accept with
    | .exhausted => (s.parkListenerLocked c.ok, .finished)
    | .connection =>
      let s' := { s with acceptBackoff := false, accepted := s.accepted + 1 }.rearmListener c.ok
      ({ s' with activeHandoffs := s'.activeHandoffs + 1 }, .accepted s.accepted expectedGeneration)
    | .wouldBlock | .failed => (s.rearmListener c.ok, .finished)

def listen (s : Shared) (c : Choice) : Shared :=
  if s.descriptor || !c.ok then s
  else { s with descriptor := true, stopping := false, generation := s.generation + 1 }

def setConnectionHandler (s : Shared) (c : Choice) : Option Shared :=
  if s.registration = 0 ∧ s.activeHandoffs = 0 then some { s with handler := c.ok } else none

-- The three parts of `Start`; `c.ok` is the answer of `timerfd_create` and of the two registrations.
def start (s : Shared) (c : Choice) : Option (Shared × Place) :=
  if !s.descriptor || !s.handler then none
  else if s.registration ≠ 0 then some (s, .finished)
  else if !c.ok then some ({ s with events := false }, .finished)
  else some ({ s with events := true, starting := true }, .registering s.generation)

def release (s : Shared) : Shared :=
  let s := if s.registration ≠ 0 then { s.remove s.registration with registration := 0 } else s
  { s with events := false, starting := false }

def registerListener (s : Shared) (generation : ℕ) (c : Choice) : Shared × Place :=
  if !c.ok then (s.release, .finished)
  else
    ({ s with registration := s.epoll.nextRegistration, epoll := s.epoll.register ⟨.ready, generation, true⟩ },
      .registeringRetry generation)

def registerRetry (s : Shared) (generation : ℕ) (c : Choice) : Shared :=
  if !c.ok then s.release
  else
    { s with
      retryTimer := true
      retryRegistration := s.epoll.nextRegistration
      epoll := s.epoll.register ⟨.retry, generation, false⟩
      starting := false }

def retire (s : Shared) (generation : ℕ) : Shared :=
  { s with events := false, handler := false, stopped := max s.stopped generation }

def stop (s : Shared) : Shared × Place :=
  let s' := s.closeListenerLocked
  if s'.activeHandoffs = 0 then (s'.retire s.generation, .finished) else (s', .waiting s.generation)

def bump (counts : ℕ → ℕ) (descriptor : ℕ) : ℕ → ℕ := Function.update counts descriptor (counts descriptor + 1)

end Shared

def Place.locks : Place → Bool
  | .listening | .configuring | .starting | .stopping | .waiting _ | .callback .. | .leaving _ => true
  | _ => false

def advance (s : Shared) (c : Choice) : Place → Option (Shared × Place)
  | .listening => some (s.listen c, .finished)
  | .configuring => (s.setConnectionHandler c).map (·, .finished)
  | .starting => s.start c
  | .registering generation => some (s.registerListener generation c)
  | .registeringRetry generation => some (s.registerRetry generation c, .finished)
  | .stopping => some s.stop
  | .waiting generation => if s.activeHandoffs = 0 then some (s.retire generation, .finished) else none
  | .event registration =>
    some (s, match s.epoll.registrations registration with
      | some r => .callback r.target r.generation registration
      | none => .finished)
  | .callback .ready generation _ => some (s.onReady generation c)
  | .callback .retry generation _ => some (s.onRetry generation c, .finished)
  | .accepted descriptor generation =>
    if c.ok then some ({ s with given := Shared.bump s.given descriptor }, .handling generation)
    else some ({ s with closed := Shared.bump s.closed descriptor }, .leaving generation)
  | .handling generation => some (s, .leaving generation)
  | .leaving _ => some ({ s with activeHandoffs := s.activeHandoffs - 1 }, .finished)
  | .finished => none

structure State where
  shared : Shared := {}
  threads : Table Place := ⟨0, fun _ => .finished⟩

inductive Call
  | listen
  | setConnectionHandler
  | start
  | stop
  deriving DecidableEq, Repr

def Call.place : Call → Place
  | .listen => .listening
  | .setConnectionHandler => .configuring
  | .start => .starting
  | .stop => .stopping

inductive Event
  | call (call : Call)
  | poll (registration : ℕ)
  | advance (i : ℕ) (c : Choice)
  deriving DecidableEq, Repr

def step (s : State) : Event → Option State
  | .call call => some { s with threads := s.threads.push call.place }
  | .poll registration =>
    if s.shared.epoll.armed registration then
      some ⟨{ s.shared with epoll := s.shared.epoll.arm registration false }, s.threads.push (.event registration)⟩
    else none
  | .advance i c =>
    if i < s.threads.count ∧ s.shared.undefined = false ∧ ¬ (s.shared.starting = true ∧ (s.threads.row i).locks = true) then
      (advance s.shared c (s.threads.row i)).map fun (shared, place) => ⟨shared, s.threads.set i place⟩
    else none

abbrev Reached (s : State) : Prop := Reachable step (· = {}) s

namespace Place

def fetched : Place → Option ℕ
  | .callback _ _ registration => some registration
  | _ => none

end Place

/-- A `Start` that has registered the listener fails only while no worker has fetched the listener's
callback, and no `Stop` ends its wait while a later `Start` has the listener registered. -/
def timely (s : State) : Event → Bool
  | .advance i c =>
    match s.threads.row i with
    | .registeringRetry _ =>
      c.ok || (List.range s.threads.count).all fun j => (s.threads.row j).fetched ≠ some s.shared.registration
    | .waiting _ => s.shared.registration = 0
    | _ => true
  | _ => true

def timelyStep (s : State) (e : Event) : Option State := if timely s e then step s e else none

end ServerCore.Net.EpollAcceptor
