import ServerCore.Runtime.Readiness

/-! `LatestValue`: a versioned value whose watchers are handed out under the lock and completed outside of it. -/

namespace ServerCore.Runtime.LatestValue

open ServerCore.Core ServerCore.Foundations

structure LatestValueOptions where
  maxRetainedBytes : ℕ := 4 * 1024 * 1024
  maxSubscriptions : ℕ := 64
  deriving DecidableEq, Repr

structure Snapshot (α : Type*) where
  version : ℕ
  value : Option α
  deriving DecidableEq, Repr

def maximumVersion : ℕ := 2 ^ 64 - 1

structure Latest (α : Type*) where
  options : LatestValueOptions
  bytes : ℕ := 0
  value : Option α := none
  version : ℕ := 0
  closed : Bool := false
  watchers : Option (List ℕ) := some []
  subscriptions : Table (Subscription ℕ) := ⟨0, fun _ => ⟨0, .suppressed⟩⟩
  published : List α := []
  observed : List (ℕ × Snapshot α) := []

namespace Latest

variable {α : Type*}

def create (options : LatestValueOptions) : Option (Latest α) :=
  if options.maxRetainedBytes = 0 ∨ options.maxSubscriptions = 0 then none else some { options }

def isPending (l : Latest α) (i : ℕ) : Bool := (l.subscriptions.row i).isPending

def publish (l : Latest α) (value : Option α) (retainedBytes : ℕ) (allocated : Bool) : Latest α × WaitPlace ℕ :=
  match value with
  | none => (l, .answered .invalidArgument)
  | some value =>
    if retainedBytes > l.options.maxRetainedBytes then (l, .answered .tooLarge)
    else if !allocated then (l, .answered .platformError)
    else if l.closed then (l, .answered .closed)
    else if l.version = maximumVersion then (l, .answered .tooLarge)
    else
      ({ l with
          value := some value
          bytes := retainedBytes
          version := l.version + 1
          watchers := some []
          published := l.published ++ [value] }, .notifying ((l.watchers.getD []).map (·, .ok)))

def close (l : Latest α) : Latest α × WaitPlace ℕ :=
  ({ l with closed := true, watchers := none }, .notifying ((l.watchers.getD []).map (·, .closed)))

def waitForChange (l : Latest α) (version : ℕ) (failure : Option ErrorCode) : Latest α × WaitPlace ℕ :=
  if let some code := failure then (l, .answered code)
  else if version > l.version then (l, .answered .invalidArgument)
  else
    let source := l.subscriptions.count
    let subscriptions := l.subscriptions.push ⟨version, .pending⟩
    if l.version ≠ version then ({ l with subscriptions }, .completing [(source, .ok)])
    else if l.closed then ({ l with subscriptions }, .completing [(source, .closed)])
    else
      let watchers := (l.watchers.getD []).filter l.isPending
      if watchers.length ≥ l.options.maxSubscriptions then ({ l with watchers := some watchers }, .answered .wouldBlock)
      else ({ l with subscriptions, watchers := some (watchers ++ [source]) }, .answered .ok)

def current (l : Latest α) : Snapshot α := ⟨l.version, l.value⟩

def readAfter (l : Latest α) (version : ℕ) : Except ErrorCode (Snapshot α) :=
  if version > l.version then .error .invalidArgument
  else if l.version = version then .error (if l.closed then .closed else .wouldBlock)
  else .ok l.current

def updated (l : Latest α) (version : ℕ) : Bool := l.closed || l.version ≠ version

def answer (l : Latest α) (version : ℕ) (result : Except ErrorCode (Snapshot α)) : Latest α × WaitPlace ℕ :=
  match result with
  | .error code => (l, .answered code)
  | .ok snapshot => ({ l with observed := l.observed ++ [(version, snapshot)] }, .answered .ok)

def read (l : Latest α) (version : ℕ) : Latest α × WaitPlace ℕ := l.answer version (l.readAfter version)

def turn (l : Latest α) (version : ℕ) (stopRequested expired : Bool) : Latest α × WaitPlace ℕ :=
  if stopRequested then (l, .answered .cancelled)
  else if l.updated version then l.answer version (l.readAfter version)
  else if expired then (l, .answered .timeout)
  else (l, .waiting version)

def waitAfter (l : Latest α) (version : ℕ) (stopRequested expired : Bool) : Latest α × WaitPlace ℕ :=
  if version > l.version then (l, .answered .invalidArgument) else l.turn version stopRequested expired

def update (l : Latest α) (i : ℕ) (f : Subscription ℕ → Subscription ℕ) : Latest α :=
  { l with subscriptions := l.subscriptions.set i (f (l.subscriptions.row i)) }

end Latest

inductive Choice (α : Type*)
  | publish (value : Option α) (retainedBytes : ℕ) (allocated : Bool)
  | close
  | readAfter (version : ℕ)
  | waitAfter (version : ℕ) (stopRequested expired : Bool)
  | wake
  | resume (stopRequested expired : Bool)
  | waitForChange (version : ℕ) (failure : Option ErrorCode)
  | complete
  | cancel (source : ℕ)
  | reset (source : ℕ)
  | notify
  deriving DecidableEq, Repr

variable {α : Type*}

def advance (l : Latest α) : Choice α → WaitPlace ℕ → Option (Latest α × WaitPlace ℕ)
  | .publish value retainedBytes allocated, place =>
    if place.free then some (l.publish value retainedBytes allocated) else none
  | .close, place => if place.free then some l.close else none
  | .readAfter version, place => if place.free then some (l.read version) else none
  | .waitAfter version stopRequested expired, place =>
    if place.free then some (l.waitAfter version stopRequested expired) else none
  | .wake, .waiting version => some (l, .woken version)
  | .resume stopRequested expired, .woken version => some (l.turn version stopRequested expired)
  | .waitForChange version failure, place => if place.free then some (l.waitForChange version failure) else none
  | .complete, .completing ((source, code) :: rest) => some (l.update source (Subscription.complete code), .completing rest)
  | .cancel source, place =>
    if source < l.subscriptions.count then some (l.update source (Subscription.complete .cancelled), place) else none
  | .reset source, place =>
    if source < l.subscriptions.count then some (l.update source Subscription.reset, place) else none
  | .notify, .notifying sources => some (l, .completing sources)
  | _, _ => none

structure State (α : Type*) where
  latest : Latest α
  threads : ℕ → WaitPlace ℕ

def step (s : State α) (event : ℕ × Choice α) : Option (State α) :=
  (advance s.latest event.2 (s.threads event.1)).map fun (latest, place) =>
    let threads : ℕ → WaitPlace ℕ :=
      match event.2 with
      | .notify => fun t => (s.threads t).wake
      | _ => s.threads
    { latest, threads := Function.update threads event.1 place }

def Initial (s : State α) : Prop :=
  ∃ options, Latest.create options = some s.latest ∧ s.threads = fun _ => .idle

end ServerCore.Runtime.LatestValue
