import Mathlib.Data.Rat.Floor
import ServerCore.Core.Bytes
import ServerCore.Core.Status
import ServerCore.Foundations.KeyMap
import ServerCore.Foundations.Table
import ServerCore.Foundations.TokenBucket
import ServerCore.Foundations.Transition

/-! `RequestLimiter` with exact token amounts. A time is the number of nanoseconds on the steady clock. -/

namespace ServerCore.Runtime.RequestLimiter

open ServerCore.Core ServerCore.Foundations

structure RequestLimiterOptions where
  maxKeys : ℕ := 1024
  maxKeyBytes : ℕ := 128
  maxRetainedKeyBytes : ℕ := 128 * 1024
  refillTokens : ℕ := 100
  burstTokens : ℕ := 200
  refillInterval : ℤ := 1000
  maxConcurrentPerKey : ℕ := 8
  maxConcurrentTotal : ℕ := 1024
  idleExpiry : ℤ := 300000
  deriving DecidableEq, Repr

inductive RequestLimitReason
  | rate
  | keyConcurrency
  | totalConcurrency
  | keyCapacity
  deriving DecidableEq, Repr

inductive RequestAdmission
  | permit (id : ℕ)
  | refused (reason : RequestLimitReason) (retryAfter : ℕ)
  | failed (code : ErrorCode)
  | done
  deriving DecidableEq, Repr

structure RequestLimitEntry where
  tokens : ℚ
  active : ℕ
  refill : ℕ
  seen : ℕ

inductive Request
  | tryAcquire (key : Bytes) (cost : ℕ)
  | reset (permit : ℕ)
  | pruneExpired
  | close
  deriving DecidableEq, Repr

structure Call where
  now : ℕ
  request : Request
  answer : RequestAdmission
  deriving DecidableEq, Repr

def timePointMax : ℕ := 2 ^ 63 - 1

def nanoseconds (milliseconds : ℤ) : ℤ := milliseconds * 1000000

namespace RequestLimiterOptions

def invalid (o : RequestLimiterOptions) : Bool :=
  o.maxKeys = 0 || o.maxKeys > 65536 || o.maxKeyBytes = 0 || o.maxKeyBytes > 4096 || o.maxRetainedKeyBytes < o.maxKeyBytes ||
    o.maxRetainedKeyBytes > 256 * 1024 * 1024 || o.refillTokens = 0 || o.refillTokens > 1000000000 || o.burstTokens = 0 ||
    o.burstTokens > 1000000000 || o.refillInterval ≤ 0 || o.refillInterval > 24 * 3600000 || o.idleExpiry ≤ 0 ||
    o.idleExpiry > 24 * 7 * 3600000 || o.maxConcurrentPerKey = 0 || o.maxConcurrentTotal = 0 ||
    o.maxConcurrentPerKey > o.maxConcurrentTotal || o.maxConcurrentTotal > 1000000

def refill (o : RequestLimiterOptions) (entry : RequestLimitEntry) (now : ℕ) : RequestLimitEntry :=
  if now ≤ entry.refill then entry
  else
    let elapsed : ℚ := ((now : ℚ) - entry.refill) / 1000000
    { entry with
      tokens := min o.burstTokens (entry.tokens + elapsed * o.refillTokens / o.refillInterval)
      refill := now }

def fullAt (o : RequestLimiterOptions) (entry : RequestLimitEntry) : ℕ :=
  let missing : ℚ := o.burstTokens - entry.tokens
  let milliseconds := missing * o.refillInterval / o.refillTokens
  let cap : ℚ := 24 * 60 * 60 * 1000
  entry.refill + ⌊min cap (max 0 milliseconds) * 1000000⌋₊

def fresh (o : RequestLimiterOptions) (now : ℕ) : RequestLimitEntry := ⟨o.burstTokens, 0, now, now⟩

/-- `TryAcquire` once it has the entry of the key: the reason to refuse, or the entry with the permit taken. -/
def admits (o : RequestLimiterOptions) (entry : RequestLimitEntry) (now cost : ℕ) :
    RequestLimitEntry × Option (RequestLimitReason × ℕ) :=
  let entry := { o.refill entry now with seen := now }
  if entry.active ≥ o.maxConcurrentPerKey then (entry, some (.keyConcurrency, 0))
  else if entry.tokens < cost then
    let delay := ⌈((cost : ℚ) - entry.tokens) * o.refillInterval / o.refillTokens⌉₊
    (entry, some (.rate, max 1 delay))
  else ({ entry with tokens := entry.tokens - cost, active := entry.active + 1 }, none)

def argumentError (o : RequestLimiterOptions) (key : Bytes) (cost : ℕ) : Option ErrorCode :=
  if key.isEmpty || cost = 0 then some .invalidArgument
  else if key.length > o.maxKeyBytes || cost > o.burstTokens then some .tooLarge
  else none

end RequestLimiterOptions

structure State where
  options : RequestLimiterOptions
  entries : KeyMap Bytes RequestLimitEntry := ⟨∅, fun _ => ⟨0, 0, 0, 0⟩⟩
  keyBytes : ℕ := 0
  active : ℕ := 0
  pressureRetry : ℕ := 0
  closed : Bool := false
  permits : Table (Option Bytes) := ⟨0, fun _ => none⟩
  clock : ℕ := 0
  log : List Call := []

namespace State

def evicts (s : State) (now : ℕ) (pressure : Bool) (entry : RequestLimitEntry) : Bool :=
  let entry := s.options.refill entry now
  entry.active = 0 && (s.closed || entry.tokens ≥ s.options.burstTokens &&
    (pressure || (now : ℤ) - entry.seen ≥ nanoseconds s.options.idleExpiry))

def prune (s : State) (now : ℕ) (pressure : Bool) : State × ℕ :=
  let removed := s.entries.domain.filter fun key => s.evicts now pressure (s.entries.get key)
  let entries : KeyMap Bytes RequestLimitEntry := ⟨s.entries.domain \ removed, fun key => s.options.refill (s.entries.get key) now⟩
  let retry := (entries.domain.filter fun key => (entries.get key).active = 0).fold min timePointMax
    fun key => s.options.fullAt (entries.get key)
  ({ s with
      entries
      keyBytes := sizeSub s.keyBytes (∑ key ∈ removed, key.length)
      pressureRetry := if pressure then retry else s.pressureRetry }, removed.card)

def crowded (s : State) (key : Bytes) : Bool :=
  s.entries.domain.card ≥ s.options.maxKeys || key.length > sizeSub s.options.maxRetainedKeyBytes s.keyBytes

def makeRoom (s : State) (key : Bytes) (now : ℕ) : State :=
  if s.crowded key && now ≥ s.pressureRetry then (s.prune now true).1 else s

def admitKnown (s : State) (key : Bytes) (entry : RequestLimitEntry) (now cost : ℕ) : State × RequestAdmission :=
  match s.options.admits entry now cost with
  | (entry, some (reason, retryAfter)) => ({ s with entries := s.entries.set key entry }, .refused reason retryAfter)
  | (entry, none) =>
    ({ s with
        entries := s.entries.set key entry
        active := s.active + 1
        permits := s.permits.push (some key) }, .permit s.permits.count)

def tryAcquire (s : State) (key : Bytes) (now cost : ℕ) : State × RequestAdmission :=
  match s.options.argumentError key cost with
  | some code => (s, .failed code)
  | none =>
    if s.closed then (s, .failed .closed)
    else if s.active ≥ s.options.maxConcurrentTotal then (s, .refused .totalConcurrency 0)
    else if key ∈ s.entries.domain then s.admitKnown key (s.entries.get key) now cost
    else
      let s := s.makeRoom key now
      if s.crowded key then (s, .refused .keyCapacity 0)
      else { s with keyBytes := s.keyBytes + key.length }.admitKnown key (s.options.fresh now) now cost

def reset (s : State) (permit now : ℕ) : State :=
  match s.permits.row permit with
  | none => s
  | some key =>
    let entry := s.entries.get key
    let s := { s with
      entries := s.entries.set key { entry with active := sizeSub entry.active 1, seen := now }
      active := sizeSub s.active 1
      permits := s.permits.set permit none
      pressureRetry := 0 }
    if s.closed then (s.prune now false).1 else s

def perform (s : State) (now : ℕ) : Request → State × RequestAdmission
  | .tryAcquire key cost => s.tryAcquire key now cost
  | .reset permit => (s.reset permit now, .done)
  | .pruneExpired => ((s.prune now false).1, .done)
  | .close => (({ s with closed := true }.prune now false).1, .done)

end State

def step (s : State) (event : ℕ × Request) : Option State :=
  if event.1 < s.clock then none
  else
    let (s', answer) := s.perform event.1 event.2
    some { s' with clock := event.1, log := s.log ++ [⟨event.1, event.2, answer⟩] }

def create (options : RequestLimiterOptions) : Except ErrorCode State :=
  if options.invalid then .error .invalidArgument else .ok { options }

def Initial (s : State) : Prop := ∃ options, create options = .ok s

end ServerCore.Runtime.RequestLimiter
