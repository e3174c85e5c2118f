import ServerCore.Core.Bytes
import ServerCore.Foundations.Transition
import ServerCore.Runtime.TaskRecord

/-! `TaskExecutor` with every section under its mutex as one event. Clock readings, the state of
parent tokens and the results of jobs come with the events, so that they are arbitrary. The stop
source of a task, the latencies and the accessors are left out: nothing below reads them. -/

namespace ServerCore.Runtime.TaskExecutor

open ServerCore.Core ServerCore.Foundations TaskRecord

structure Options where
  maxPendingTasks : ℕ
  maxRetainedBytes : ℕ
  deriving Repr

inductive Outcome
  | returned (status : Status)
  | threw
  deriving DecidableEq, Repr

def Outcome.status : Outcome → Status
  | returned status => status
  | threw => .failWithoutMessage .platformError

structure Own where
  outcome : Option Outcome := none
  closedWith : Option ErrorCode := none
  deriving Repr

abbrev Task := TaskRecord Own

structure Metrics where
  acceptedTasks : ℕ := 0
  completedTasks : ℕ := 0
  cancelledTasks : ℕ := 0
  timedOutTasks : ℕ := 0
  failedTasks : ℕ := 0
  rejectedTasks : ℕ := 0

def maximumCounter : ℕ := 2 ^ 64 - 1

def add (value : ℕ) : ℕ := if 1 > maximumCounter - value then maximumCounter else value + 1

-- Where a thread stands between two sections. Workers and coordinators go back to the top of their
-- loops; all other threads are callers.
inductive Thread
  | caller
  | submitting (task : ℕ)
  | rejecting
  | worker
  | executing (task : ℕ)
  | coordinator
  | publishing (task : ℕ) (result : Status) (coordinating : Bool)
  | released (task : ℕ) (result : Status) (coordinating : Bool)
  | returned
  deriving DecidableEq, Repr

structure State where
  options : Options
  ready : Bool
  stopping : Bool
  table : Table Task
  tasks : List ℕ
  pending : ℕ
  running : ℕ
  retained : ℕ
  metrics : Metrics
  threads : ℕ → Thread

abbrev State.task (s : State) (i : ℕ) : Task := s.table.row i

def admissionError (s : State) (retainedBytes : ℕ) : Option ErrorCode :=
  if !s.ready || s.stopping then some .closed
  else if s.pending ≥ s.options.maxPendingTasks ||
      retainedBytes > sizeSub s.options.maxRetainedBytes s.retained then some .wouldBlock
  else none

def submitError (s : State) (hasJob : Bool) (retainedBytes : ℕ) : Option ErrorCode :=
  if !hasJob then some .invalidArgument
  else if retainedBytes > s.options.maxRetainedBytes then some .tooLarge
  else admissionError s retainedBytes

def State.goTo (s : State) (w : ℕ) (thread : Thread) : State :=
  { s with threads := Function.update s.threads w thread }

def submit (s : State) (w : ℕ) (hasJob : Bool) (retainedBytes : ℕ) (deadline : Option ℕ) : State :=
  match submitError s hasJob retainedBytes with
  | some _ => s.goTo w .rejecting
  | none => { s with table := s.table.push { retainedBytes, deadline, own := {} } }.goTo w (.submitting s.table.count)

def accept (s : State) (w i now : ℕ) : State :=
  match admissionError s (s.task i).retainedBytes with
  | some _ => s.goTo w .rejecting
  | none =>
    { s with
      table := s.table.set i { observeCancellation now (s.task i) with admitted := true }
      tasks := s.tasks ++ [i]
      pending := s.pending + 1
      retained := s.retained + (s.task i).retainedBytes
      metrics := { s.metrics with acceptedTasks := add s.metrics.acceptedTasks } }.goTo w .caller

def rejected (s : State) (w : ℕ) : State :=
  { s with metrics := { s.metrics with rejectedTasks := add s.metrics.rejectedTasks } }.goTo w .caller

def stopTasks (now : ℕ) : List ℕ → Table Task → Table Task := TaskRecord.stopTasks fun _ => stopTask now

def requestStop (s : State) (now : ℕ) : State :=
  { s with stopping := true, table := stopTasks now s.tasks s.table }

def findQueued (now : ℕ) : List ℕ → Table Task → Table Task × Option ℕ
  | [], table => (table, none)
  | i :: rest, table =>
    if (table.row i).phase ≠ .queued then findQueued now rest table
    else
      let table := table.set i (observeCancellation now (table.row i))
      if (table.row i).cancelReason ≠ .ok then findQueued now rest table else (table, some i)

def pick (s : State) (w now : ℕ) : State :=
  if s.stopping then s.goTo w .returned
  else if s.ready then
    match findQueued now s.tasks s.table with
    | (table, none) => { s with table }
    | (table, some i) =>
      { s with
        table := table.set i { table.row i with phase := .running, runs := (table.row i).runs + 1 }
        pending := sizeSub s.pending 1
        running := s.running + 1 }.goTo w (.executing i)
  else s

def finish (s : State) (w i : ℕ) (outcome : Outcome) (now : ℕ) : State :=
  let task := observeCancellation now (s.task i)
  let reason := task.cancelReason
  let result := if reason ≠ .ok then .failWithoutMessage reason else outcome.status
  { s with
    table := s.table.set i
      { task with phase := .completing, own := { outcome := some outcome, closedWith := some reason } }
    running := sizeSub s.running 1
    tasks := s.tasks.erase i }.goTo w (.publishing i result false)

def findCancelled (now : ℕ) : List ℕ → Table Task → Table Task × Option ℕ :=
  TaskRecord.findCancelled (fun _ => false) now

def coordinate (s : State) (w now : ℕ) : State :=
  match findCancelled now s.tasks s.table with
  | (table, some i) =>
    let task := { table.row i with signalSent := true }
    if task.phase = .queued then
      { s with
        table := table.set i { task with phase := .completing, own.closedWith := some task.cancelReason }
        pending := sizeSub s.pending 1
        tasks := s.tasks.erase i }.goTo w (.publishing i (.failWithoutMessage task.cancelReason) true)
    else { s with table := table.set i task }
  | (table, none) => if s.stopping && s.tasks.isEmpty then { s with table }.goTo w .returned else { s with table }

def countResult (metrics : Metrics) (code : ErrorCode) : Metrics :=
  let metrics := { metrics with completedTasks := add metrics.completedTasks }
  if code = .cancelled then { metrics with cancelledTasks := add metrics.cancelledTasks }
  else if code = .timeout then { metrics with timedOutTasks := add metrics.timedOutTasks }
  else if code ≠ .ok then { metrics with failedTasks := add metrics.failedTasks }
  else metrics

def release (s : State) (w i : ℕ) (result : Status) (coordinating : Bool) : State :=
  { s with
    table := s.table.set i { s.task i with phase := .terminal }
    retained := sizeSub s.retained (s.task i).retainedBytes
    metrics := countResult s.metrics result.code }.goTo w (.released i result coordinating)

def publish (s : State) (w i : ℕ) (result : Status) (coordinating : Bool) : State :=
  { s with
    table := s.table.set i
      { s.task i with result := some result, published := (s.task i).published ++ [result] } }.goTo w
    (if coordinating then .coordinator else .worker)

inductive Event
  | becomeReady
  | submit (w : ℕ) (hasJob : Bool) (retainedBytes : ℕ) (deadline : Option ℕ)
  | accept (w now : ℕ)
  | rejected (w : ℕ)
  | cancel (i now : ℕ)
  | stopParent (i : ℕ)
  | requestStop (now : ℕ)
  | pick (w now : ℕ)
  | finish (w : ℕ) (outcome : Outcome) (now : ℕ)
  | coordinate (w now : ℕ)
  | release (w : ℕ)
  | publish (w : ℕ)

def step (s : State) : Event → Option State
  | .becomeReady => some { s with ready := true }
  | .submit w hasJob retainedBytes deadline =>
    match s.threads w with
    | .caller => some (submit s w hasJob retainedBytes deadline)
    | _ => none
  | .accept w now =>
    match s.threads w with
    | .submitting i => some (accept s w i now)
    | _ => none
  | .rejected w =>
    match s.threads w with
    | .rejecting => some (rejected s w)
    | _ => none
  | .cancel i now => if i < s.table.count then some { s with table := s.table.set i (cancel now (s.task i)).1 } else none
  | .stopParent i =>
    if i < s.table.count then some { s with table := s.table.set i { s.task i with parentStopRequested := true } }
    else none
  | .requestStop now => some (requestStop s now)
  | .pick w now =>
    match s.threads w with
    | .worker => some (pick s w now)
    | _ => none
  | .finish w outcome now =>
    match s.threads w with
    | .executing i => some (finish s w i outcome now)
    | _ => none
  | .coordinate w now =>
    match s.threads w with
    | .coordinator => some (coordinate s w now)
    | _ => none
  | .release w =>
    match s.threads w with
    | .publishing i result coordinating => some (release s w i result coordinating)
    | _ => none
  | .publish w =>
    match s.threads w with
    | .released i result coordinating => some (publish s w i result coordinating)
    | _ => none

-- An executor behind the first section of `Start`, with any number of threads of each kind.
structure Initial (s : State) : Prop where
  maxPendingTasks_pos : 0 < s.options.maxPendingTasks
  maxRetainedBytes_pos : 0 < s.options.maxRetainedBytes
  table : s.table.count = 0
  tasks : s.tasks = []
  pending : s.pending = 0
  running : s.running = 0
  retained : s.retained = 0
  metrics : s.metrics = {}
  threads : ∀ w, s.threads w = .caller ∨ s.threads w = .worker ∨ s.threads w = .coordinator

end ServerCore.Runtime.TaskExecutor
