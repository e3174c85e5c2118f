import Mathlib.Data.Int.Basic
import ServerCore.Core.Bytes
import ServerCore.Core.Status
import ServerCore.Foundations.Table
import ServerCore.Foundations.Transition

/-! `TimerScheduler` with every section under its mutex as one event, and the executor as far as the
scheduler sees it: `Submit` takes or refuses an invocation, an invocation that was taken ends with
some code, and its end reaches the subscription that observes it. -/

namespace ServerCore.Runtime.TimerScheduler

open ServerCore.Core ServerCore.Foundations

inductive TimerRepeatMode
  | fixedDelay
  | fixedRate
  deriving DecidableEq, Repr

structure Options where
  maxTimers : ℕ
  maxRetainedBytes : ℕ
  deriving Repr

structure Timer where
  repeatInterval : ℤ
  retainedBytes : ℕ
  repeatMode : TimerRepeatMode
  due : ℤ
  offered : Bool := false
  admitted : Bool := false
  cancelled : Bool := false
  signalSent : Bool := false
  inFlight : Bool := false
  published : Bool := false
  completionReady : Bool := false
  retiring : Bool := false
  completionCode : ErrorCode := .ok
  subscription : ℕ := 0
  subscriptionPending : Bool := false
  terminal : Bool := false
  result : ErrorCode := .wouldBlock
  dispatches : ℕ := 0
  dispatchedDue : Option ℤ := none
  lastCode : Option ErrorCode := none
  claims : ℕ := 0
  cancelledAtClaim : Bool := false
  deriving Repr

structure Invocation where
  timer : ℕ
  completed : Option ErrorCode := none
  observer : Option ℕ := none
  delivered : Bool := false
  deriving Repr

inductive Thread
  | looping
  | signalling (timer : ℕ)
  | dispatching (timer : ℕ)
  | submitted (timer task : ℕ)
  | refused (timer : ℕ) (code : ErrorCode)
  | observing (timer task : ℕ)
  | retiring (timer : ℕ) (code : ErrorCode)
  | finished
  deriving DecidableEq, Repr

structure State where
  options : Options
  ready : Bool
  stopping : Bool
  table : Table Timer
  timers : List ℕ
  retained : ℕ
  saturatedUntil : ℤ
  executor : Table Invocation
  thread : Thread

abbrev State.timer (s : State) (i : ℕ) : Timer := s.table.row i

abbrev State.task (s : State) (e : ℕ) : Invocation := s.executor.row e

def maximumTime : ℤ := 2 ^ 63 - 1

def millisecond : ℤ := 1000000

def after (now interval : ℤ) : ℤ := if interval > maximumTime - now then maximumTime else now + interval

def nextSlot (served interval now : ℤ) : ℤ :=
  let next := after served interval
  if next > now || next = maximumTime then next
  else served + (now - served).tdiv interval * interval

def create (s : State) (hasCallback : Bool) (repeatInterval : ℤ) (retainedBytes : ℕ) (repeatMode : TimerRepeatMode)
    (due : ℤ) : State :=
  if !hasCallback || repeatInterval < 0 then s
  else { s with table := s.table.push { repeatInterval, retainedBytes, repeatMode, due } }

def admissionError (s : State) (retainedBytes : ℕ) : Option ErrorCode :=
  if !s.ready || s.stopping then some .closed
  else if retainedBytes > s.options.maxRetainedBytes then some .tooLarge
  else if s.timers.length ≥ s.options.maxTimers ||
      retainedBytes > sizeSub s.options.maxRetainedBytes s.retained then some .wouldBlock
  else none

def schedule (s : State) (i : ℕ) : State :=
  match admissionError s (s.timer i).retainedBytes with
  | some _ => { s with table := s.table.set i { s.timer i with offered := true } }
  | none =>
    { s with
      table := s.table.set i { s.timer i with offered := true, admitted := true }
      timers := s.timers ++ [i]
      retained := s.retained + (s.timer i).retainedBytes }

def cancel (timer : Timer) : Timer × Bool :=
  if timer.cancelled || timer.retiring || timer.terminal then (timer, false)
  else ({ timer with cancelled := true }, true)

def reschedule (stopping : Bool) (timer : Timer) (due : ℤ) : Timer × ErrorCode :=
  if stopping || timer.cancelled || timer.retiring || (!timer.inFlight && timer.completionReady) then (timer, .closed)
  else if timer.inFlight then (timer, .wouldBlock)
  else ({ timer with due }, .ok)

def cancelTimers : List ℕ → Table Timer → Table Timer
  | [], table => table
  | i :: rest, table => cancelTimers rest (table.set i { table.row i with cancelled := true })

def requestStop (s : State) : State := { s with stopping := true, table := cancelTimers s.timers s.table }

def collect (now : ℤ) (timer : Timer) : Timer :=
  if timer.inFlight && timer.published && timer.completionReady then
    let timer := { timer with inFlight := false }
    if !timer.cancelled && timer.completionCode = .ok && timer.repeatInterval > 0 then
      { timer with
        completionReady := false
        due := if timer.repeatMode = .fixedRate then nextSlot timer.due timer.repeatInterval now
          else after now timer.repeatInterval }
    else timer
  else timer

inductive Action
  | none (earliest : Option ℕ)
  | signal (timer : ℕ)
  | retire (timer : ℕ) (finalCode : ErrorCode)
  deriving DecidableEq, Repr

def claim (timer : Timer) : Timer :=
  { timer with retiring := true, claims := timer.claims + 1, cancelledAtClaim := timer.cancelled }

def better (table : Table Timer) (earliest : Option ℕ) (i : ℕ) : Option ℕ :=
  match earliest with
  | .none => some i
  | some j => if (table.row i).due < (table.row j).due then some i else some j

-- The loop of `Run` over the list; `nextWake` only says how long the thread may sleep.
def scan (now : ℤ) : List ℕ → Table Timer → Option ℕ → Table Timer × Action
  | [], table, earliest => (table, .none earliest)
  | i :: rest, table, earliest =>
    if (table.row i).cancelled && !(table.row i).signalSent then
      (table.set i { table.row i with signalSent := true }, .signal i)
    else
      let timer := collect now (table.row i)
      let table := table.set i timer
      if !timer.inFlight && (timer.cancelled || timer.completionReady) then
        (table.set i (claim timer), .retire i (if timer.cancelled then .cancelled else timer.completionCode))
      else if !timer.inFlight && timer.due ≤ now then scan now rest table (better table earliest i)
      else scan now rest table earliest

def dispatch (timer : Timer) : Timer :=
  { timer with
    inFlight := true, published := false, completionReady := false
    dispatches := timer.dispatches + 1, dispatchedDue := some timer.due }

def pass (s : State) (now : ℤ) : State :=
  if s.stopping && s.timers.isEmpty then { s with thread := .finished }
  else match scan now s.timers s.table .none with
  | (table, .signal i) => { s with table, thread := .signalling i }
  | (table, .retire i code) => { s with table, thread := .retiring i code }
  | (table, .none .none) => { s with table }
  | (table, .none (some i)) =>
    if now < s.saturatedUntil then { s with table }
    else { s with table := table.set i (dispatch (table.row i)), thread := .dispatching i }

-- The subscription with which `Dispatch` goes to the executor: one that waits is used again.
def subscribe (timer : Timer) : Timer :=
  if timer.subscriptionPending then timer
  else { timer with subscription := timer.subscription + 1, subscriptionPending := true }

def submitOk (s : State) (i : ℕ) : State :=
  { s with
    table := s.table.set i (subscribe (s.timer i))
    executor := s.executor.push { timer := i }
    thread := .submitted i s.executor.count }

-- `Submit`, or the creation of the subscription in front of it, fails.
def submitFail (s : State) (i : ℕ) (created : Bool) (code : ErrorCode) : State :=
  let timer := if created then subscribe (s.timer i) else s.timer i
  { s with
    table := s.table.set i { timer with lastCode := if code = .wouldBlock then timer.lastCode else some code }
    thread := .refused i code }

def publish (s : State) (i e : ℕ) : State :=
  { s with table := s.table.set i { s.timer i with published := true }, thread := .observing i e }

def refuse (s : State) (i : ℕ) (code : ErrorCode) (now : ℤ) : State :=
  if code = .wouldBlock then
    { s with
      table := s.table.set i { s.timer i with inFlight := false, completionCode := .ok }
      saturatedUntil := after now millisecond
      thread := .looping }
  else
    { s with
      table := s.table.set i
        { s.timer i with
          inFlight := false, completionCode := code, completionReady := true, subscriptionPending := false }
      thread := .looping }

def observe (s : State) (i e : ℕ) : State :=
  { s with
    executor := s.executor.set e { s.task e with observer := some (s.timer i).subscription }
    thread := .looping }

def deliver (s : State) (e : ℕ) (code : ErrorCode) (observer : ℕ) : State :=
  let i := (s.task e).timer
  let timer := s.timer i
  { s with
    executor := s.executor.set e { s.task e with delivered := true }
    table :=
      if timer.subscription = observer && timer.subscriptionPending then
        s.table.set i { timer with subscriptionPending := false, completionCode := code, completionReady := true }
      else s.table }

def retire (s : State) (i : ℕ) (code : ErrorCode) : State :=
  { s with
    table := s.table.set i { s.timer i with subscriptionPending := false, result := code, terminal := true }
    timers := s.timers.filter (· != i)
    retained := sizeSub s.retained (s.timer i).retainedBytes
    thread := .looping }

inductive Event
  | becomeReady
  | create (hasCallback : Bool) (repeatInterval : ℤ) (retainedBytes : ℕ) (repeatMode : TimerRepeatMode) (due : ℤ)
  | schedule (i : ℕ)
  | cancel (i : ℕ)
  | reschedule (i : ℕ) (due : ℤ)
  | requestStop
  | pass (now : ℤ)
  | signalled
  | submitOk
  | submitFail (created : Bool) (code : ErrorCode)
  | settle (now : ℤ)
  | observe
  | complete (e : ℕ) (code : ErrorCode)
  | deliver (e : ℕ)
  | retire
  | stopped

def step (s : State) : Event → Option State
  | .becomeReady => some { s with ready := true }
  | .create hasCallback repeatInterval retainedBytes repeatMode due =>
    some (create s hasCallback repeatInterval retainedBytes repeatMode due)
  | .schedule i => if i < s.table.count ∧ (s.timer i).offered = false then some (schedule s i) else none
  | .cancel i => if i < s.table.count then some { s with table := s.table.set i (cancel (s.timer i)).1 } else none
  | .reschedule i due =>
    if i < s.table.count ∧ (s.timer i).admitted = true then
      some { s with table := s.table.set i (reschedule s.stopping (s.timer i) due).1 }
    else none
  | .requestStop => some (requestStop s)
  | .pass now =>
    match s.thread with
    | .looping => some (pass s now)
    | _ => none
  | .signalled =>
    match s.thread with
    | .signalling _ => some { s with thread := .looping }
    | _ => none
  | .submitOk =>
    match s.thread with
    | .dispatching i => some (submitOk s i)
    | _ => none
  | .submitFail created code =>
    match s.thread with
    | .dispatching i => if code = .ok then none else some (submitFail s i created code)
    | _ => none
  | .settle now =>
    match s.thread with
    | .submitted i e => some (publish s i e)
    | .refused i code => some (refuse s i code now)
    | _ => none
  | .observe =>
    match s.thread with
    | .observing i e => some (observe s i e)
    | _ => none
  | .complete e code =>
    if e < s.executor.count ∧ (s.task e).completed = none then
      some { s with
        executor := s.executor.set e { s.task e with completed := some code }
        table := s.table.set (s.task e).timer { s.timer (s.task e).timer with lastCode := some code } }
    else none
  | .deliver e =>
    match (s.task e).completed, (s.task e).observer with
    | some code, some observer =>
      if e < s.executor.count ∧ (s.task e).delivered = false then some (deliver s e code observer) else none
    | _, _ => none
  | .retire =>
    match s.thread with
    | .retiring i code => some (retire s i code)
    | _ => none
  | .stopped => if s.thread = .finished then some { s with ready := false } else none

-- A scheduler behind the first section of `Start`.
structure Initial (s : State) : Prop where
  options : 0 < s.options.maxTimers ∧ 0 < s.options.maxRetainedBytes
  table : s.table.count = 0
  timers : s.timers = []
  retained : s.retained = 0
  executor : s.executor.count = 0
  thread : s.thread = .looping

end ServerCore.Runtime.TimerScheduler
