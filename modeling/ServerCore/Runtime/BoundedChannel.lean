import ServerCore.Core.Bytes
import ServerCore.Runtime.Readiness

/-! `BoundedChannel`: every section under its mutex, every notification and every completion is one step. -/

namespace ServerCore.Runtime.BoundedChannel

open ServerCore.Core ServerCore.Foundations

structure ChannelOptions where
  maxMessages : ℕ := 128
  maxRetainedBytes : ℕ := 4 * 1024 * 1024
  deriving DecidableEq, Repr

structure Entry (α : Type*) where
  value : α
  bytes : ℕ
  deriving DecidableEq, Repr

structure Request where
  writing : Bool
  bytes : ℕ
  deriving DecidableEq, Repr

structure Channel (α : Type*) where
  options : ChannelOptions
  queue : List (Entry α) := []
  bytes : ℕ := 0
  writeBytes : ℕ := 0
  closed : Bool := false
  read : Option ℕ := none
  write : Option ℕ := none
  subscriptions : Table (Subscription Request) := ⟨0, fun _ => ⟨⟨false, 0⟩, .suppressed⟩⟩
  sent : List α := []
  received : List α := []

namespace Channel

variable {α : Type*}

def create (options : ChannelOptions) : Option (Channel α) :=
  if options.maxMessages = 0 ∨ options.maxRetainedBytes = 0 then none else some { options }

def canSend (c : Channel α) (amount : ℕ) : Bool :=
  c.queue.length < c.options.maxMessages && amount ≤ sizeSub c.options.maxRetainedBytes c.bytes

def pendingAt (c : Channel α) (source : Option ℕ) : Bool := source.any fun i => (c.subscriptions.row i).isPending

def trySend (c : Channel α) (value : Option α) (retainedBytes : ℕ) (allocated : Bool) : Channel α × WaitPlace Unit :=
  match value with
  | none => (c, .answered .invalidArgument)
  | some value =>
    if retainedBytes > c.options.maxRetainedBytes then (c, .answered .tooLarge)
    else if !allocated then (c, .answered .platformError)
    else if c.closed then (c, .answered .closed)
    else if !c.canSend retainedBytes then (c, .answered .wouldBlock)
    else
      ({ c with
          queue := c.queue ++ [⟨value, retainedBytes⟩]
          bytes := c.bytes + retainedBytes
          read := none
          sent := c.sent ++ [value] }, .notifying (c.read.map (·, .ok)).toList)

def close (c : Channel α) : Channel α × WaitPlace Unit :=
  ({ c with closed := true, read := none, write := none },
    .notifying ((c.read.map (·, if c.queue.isEmpty then .closed else .ok)).toList ++ (c.write.map (·, .closed)).toList))

def take (c : Channel α) : Channel α × WaitPlace Unit :=
  match c.queue with
  | [] => (c, .answered (if c.closed then .closed else .wouldBlock))
  | entry :: queue =>
    let c := { c with bytes := sizeSub c.bytes entry.bytes, queue, received := c.received ++ [entry.value] }
    if c.canSend c.writeBytes then ({ c with write := none }, .notifying (c.write.map (·, .ok)).toList)
    else (c, .notifying [])

def available (c : Channel α) : Bool := c.closed || !c.queue.isEmpty

def tryReceive (c : Channel α) : Channel α × WaitPlace Unit := c.take

def receive (c : Channel α) (stopRequested expired : Bool) : Channel α × WaitPlace Unit :=
  if stopRequested then (c, .answered .cancelled)
  else if c.available then c.take
  else if expired then (c, .answered .timeout)
  else (c, .waiting ())

def subscribe (c : Channel α) (writing : Bool) (bytes : ℕ) (failure : Option ErrorCode) : Channel α × WaitPlace Unit :=
  if writing && bytes > c.options.maxRetainedBytes then (c, .answered .tooLarge)
  else if let some code := failure then (c, .answered code)
  else if c.pendingAt (if writing then c.write else c.read) then (c, .answered .alreadyExists)
  else
    let source := c.subscriptions.count
    let subscriptions := c.subscriptions.push ⟨⟨writing, bytes⟩, .pending⟩
    if writing then
      if c.closed then ({ c with subscriptions, writeBytes := bytes }, .completing [(source, .closed)])
      else if c.canSend bytes then ({ c with subscriptions, writeBytes := bytes }, .completing [(source, .ok)])
      else ({ c with subscriptions, writeBytes := bytes, write := some source }, .answered .ok)
    else if !c.queue.isEmpty then ({ c with subscriptions }, .completing [(source, .ok)])
    else if c.closed then ({ c with subscriptions }, .completing [(source, .closed)])
    else ({ c with subscriptions, read := some source }, .answered .ok)

def update (c : Channel α) (i : ℕ) (f : Subscription Request → Subscription Request) : Channel α :=
  { c with subscriptions := c.subscriptions.set i (f (c.subscriptions.row i)) }

end Channel

inductive Choice (α : Type*)
  | trySend (value : Option α) (retainedBytes : ℕ) (allocated : Bool)
  | close
  | tryReceive
  | receive (stopRequested expired : Bool)
  | wake
  | subscribe (writing : Bool) (bytes : ℕ) (failure : Option ErrorCode)
  | complete
  | cancel (source : ℕ)
  | reset (source : ℕ)
  | notify
  deriving DecidableEq, Repr

variable {α : Type*}

def advance (c : Channel α) : Choice α → WaitPlace Unit → Option (Channel α × WaitPlace Unit)
  | .trySend value retainedBytes allocated, place =>
    if place.free then some (c.trySend value retainedBytes allocated) else none
  | .close, place => if place.free then some c.close else none
  | .tryReceive, place => if place.free then some c.tryReceive else none
  | .receive stopRequested expired, place =>
    if place.free || place = .woken () then some (c.receive stopRequested expired) else none
  | .wake, .waiting () => some (c, .woken ())
  | .subscribe writing bytes failure, place => if place.free then some (c.subscribe writing bytes failure) else none
  | .complete, .completing ((source, code) :: rest) => some (c.update source (Subscription.complete code), .completing rest)
  | .cancel source, place =>
    if source < c.subscriptions.count then some (c.update source (Subscription.complete .cancelled), place) else none
  | .reset source, place =>
    if source < c.subscriptions.count then some (c.update source Subscription.reset, place) else none
  | .notify, .notifying sources => some (c, .completing sources)
  | _, _ => none

structure State (α : Type*) where
  channel : Channel α
  threads : ℕ → WaitPlace Unit

def step (s : State α) (event : ℕ × Choice α) : Option (State α) :=
  (advance s.channel event.2 (s.threads event.1)).map fun (channel, place) =>
    let threads : ℕ → WaitPlace Unit :=
      match event.2 with
      | .notify => fun t => (s.threads t).wake
      | _ => s.threads
    { channel, threads := Function.update threads event.1 place }

def Initial (s : State α) : Prop :=
  ∃ options, Channel.create options = some s.channel ∧ s.threads = fun _ => .idle

end ServerCore.Runtime.BoundedChannel
