import ServerCore.Core.Status
import ServerCore.Foundations.Table

/-! Completions of send-capacity waits that are kept back while their thread holds a session lock. Each section
under a mutex and each stretch of code on thread-local data is one step; what a target calls runs on the stack of
the thread that completes it. -/

namespace ServerCore.Runtime.SendCapacityRelay

open ServerCore.Core ServerCore.Foundations

structure Relay where
  armed : Bool := false
  earlyCode : Option ErrorCode := none
  deferredCode : ErrorCode := .ok
  next : Option ℕ := none
  delivered : Option ErrorCode := none
  forwarder : Option ℕ := none
  completed : List ErrorCode := []
  deriving DecidableEq, Repr

inductive Frame
  | guarding (mutex : ℕ)
  | forwarding (relay : ℕ) (code : ErrorCode)
  | flushing
  | completing (relay : ℕ)
  deriving DecidableEq, Repr

/-- `SessionLockThreadContext`, with the stack of its thread. -/
structure Context where
  depth : ℕ := 0
  head : Option ℕ := none
  tail : Option ℕ := none
  stack : List Frame := []
  deriving DecidableEq, Repr

structure Host where
  relays : Table Relay := ⟨0, fun _ => {}⟩
  owner : ℕ → Option ℕ := fun _ => none
  threads : ℕ → Context := fun _ => {}

namespace Host

def relay (s : Host) (r : ℕ) : Relay := s.relays.row r

def put (s : Host) (r : ℕ) (relay : Relay) : Host := { s with relays := s.relays.set r relay }

def context (s : Host) (t : ℕ) (context : Context) : Host := { s with threads := Function.update s.threads t context }

def push (s : Host) (t : ℕ) (frame : Frame) : Host :=
  s.context t { s.threads t with stack := frame :: (s.threads t).stack }

def deliver (s : Host) (t r : ℕ) (code : ErrorCode) : Host :=
  if !(s.relay r).armed then s.put r { s.relay r with earlyCode := some code, delivered := some code }
  else (s.put r { s.relay r with delivered := some code, forwarder := some t }).push t (.forwarding r code)

def arm (s : Host) (t r : ℕ) : Host :=
  match (s.relay r).earlyCode with
  | none => s.put r { s.relay r with armed := true }
  | some code => (s.put r { s.relay r with armed := true, forwarder := some t }).push t (.forwarding r code)

def complete (s : Host) (t r : ℕ) (code : ErrorCode) (rest : List Frame) : Host :=
  (s.put r { s.relay r with completed := (s.relay r).completed ++ [code] }).context t
    { s.threads t with stack := .completing r :: rest }

/-- `Forward`: either the call of the target, or the end of the queue of the thread. -/
def forward (s : Host) (t r : ℕ) (code : ErrorCode) (rest : List Frame) : Host :=
  let context := s.threads t
  if context.depth = 0 then s.complete t r code rest
  else
    let s := s.put r { s.relay r with deferredCode := code }
    match context.tail with
    | none => s.context t { context with head := some r, tail := some r, stack := rest }
    | some last =>
      (s.put last { s.relay last with next := some r }).context t { context with tail := some r, stack := rest }

def flush (s : Host) (t : ℕ) (rest : List Frame) : Host :=
  let context := s.threads t
  match context.head with
  | none => s.context t { context with stack := rest }
  | some r =>
    if context.depth ≠ 0 then s.context t { context with stack := rest }
    else
      let head := (s.relay r).next
      let s := (s.put r { s.relay r with next := none }).context t
        { context with head := head, tail := if head = none then none else context.tail }
      s.complete t r (s.relay r).deferredCode (.flushing :: rest)

def lock (s : Host) (t m : ℕ) : Host :=
  { s with owner := Function.update s.owner m (some t) }.context t
    { s.threads t with depth := (s.threads t).depth + 1, stack := .guarding m :: (s.threads t).stack }

/-- The destructor of `SessionLockGuard`, up to its call of `FlushDeferred`. -/
def unlock (s : Host) (t m : ℕ) (rest : List Frame) : Host :=
  let depth := (s.threads t).depth - 1
  { s with owner := Function.update s.owner m none }.context t
    { s.threads t with depth := depth, stack := if depth = 0 then .flushing :: rest else rest }

end Host

/-- What a thread may do next: the code of a session or of a callback chooses, and `advance` takes the innermost
scope or call on. -/
inductive Choice
  | create
  | deliver (relay : ℕ) (code : ErrorCode)
  | arm (relay : ℕ)
  | lock (mutex : ℕ)
  | advance
  deriving DecidableEq, Repr

/-- Inside of a call of `Forward` or `FlushDeferred` no other code runs, but for the callback of a target. -/
def runs : List Frame → Bool
  | [] => true
  | .guarding _ :: _ => true
  | .completing _ :: _ => true
  | _ => false

def step (s : Host) : ℕ × Choice → Option Host
  | (t, .create) => if runs (s.threads t).stack then some { s with relays := s.relays.push {} } else none
  | (t, .deliver r code) =>
    if runs (s.threads t).stack ∧ r < s.relays.count ∧ (s.relay r).delivered = none then some (s.deliver t r code)
    else none
  | (t, .arm r) =>
    if runs (s.threads t).stack ∧ r < s.relays.count ∧ (s.relay r).armed = false then some (s.arm t r) else none
  | (t, .lock m) => if runs (s.threads t).stack ∧ s.owner m = none then some (s.lock t m) else none
  | (t, .advance) =>
    match (s.threads t).stack with
    | [] => none
    | .guarding m :: rest => some (s.unlock t m rest)
    | .forwarding r code :: rest => some (s.forward t r code rest)
    | .flushing :: rest => some (s.flush t rest)
    | .completing _ :: rest => some (s.context t { s.threads t with stack := rest })

end ServerCore.Runtime.SendCapacityRelay
