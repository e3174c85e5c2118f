import ServerCore.Foundations.KeyMap
import ServerCore.Foundations.LinkedList
import ServerCore.Runtime.TaskExecutor

/-! `KeyedExecutor` with every section under its mutex as one event, as for `TaskExecutor`. -/

namespace ServerCore.Runtime.KeyedExecutor

open ServerCore.Core ServerCore.Foundations TaskRecord
open TaskExecutor (Outcome Metrics add countResult)

structure Options where
  maxKeys : ℕ
  maxOutstandingTasks : ℕ
  maxRetainedBytes : ℕ
  maxOutstandingTasksPerKey : ℕ
  maxRetainedBytesPerKey : ℕ
  deriving Repr

structure Own where
  key : UInt64
  number : ℕ := 0
  occupying : Bool := false
  deriving Repr

abbrev Task := TaskRecord Own

structure Key where
  queued : List ℕ := []
  outstanding : ℕ := 0
  bytes : ℕ := 0
  busy : Bool := false
  ready : Bool := false
  deriving DecidableEq, Repr

namespace Key

-- What `Submit`, `Coordinate` and `Publish` do to the record of a key besides its place in the ready list.
def accept (key : Key) (i bytes : ℕ) : Key :=
  { key with queued := key.queued ++ [i], outstanding := key.outstanding + 1, bytes := key.bytes + bytes }

def withdraw (key : Key) (i : ℕ) : Key := { key with queued := key.queued.filter (· != i) }

def release (key : Key) (bytes : ℕ) (occupiedKey : Bool) : Key :=
  { key with
    outstanding := sizeSub key.outstanding 1
    bytes := sizeSub key.bytes bytes
    busy := key.busy && !occupiedKey }

end Key

-- The key map, with `readyHead`, `readyTail` and the links of the keys beside it.
structure Keys where
  map : KeyMap UInt64 Key
  ready : Links UInt64

inductive Thread
  | caller
  | submitting (task : ℕ)
  | rejecting
  | worker
  | executing (task : ℕ)
  | coordinator
  | publishing (task : ℕ) (result : Status) (occupiedKey : Bool)
  | notifying (task : ℕ) (occupiedKey : Bool)
  | returned (coordinating : Bool)
  deriving DecidableEq, Repr

structure State where
  options : Options
  ready : Bool
  stopping : Bool
  table : Table Task
  tasks : List ℕ
  keys : Keys
  pending : ℕ
  running : ℕ
  outstanding : ℕ
  retained : ℕ
  metrics : Metrics
  threads : ℕ → Thread
  admissions : ℕ
  started : List ℕ

abbrev State.task (s : State) (i : ℕ) : Task := s.table.row i

def State.goTo (s : State) (w : ℕ) (thread : Thread) : State :=
  { s with threads := Function.update s.threads w thread }

namespace Keys

def slot (keys : Keys) (k : UInt64) : Key := keys.map.getD k {}

def put (keys : Keys) (k : UInt64) (slot : Key) : Keys := { keys with map := keys.map.set k slot }

def erase (keys : Keys) (k : UInt64) : Keys := { keys with map := keys.map.erase k }

def enqueue (keys : Keys) (k : UInt64) : Keys :=
  let key := keys.slot k
  if key.ready || key.busy || key.queued.isEmpty then keys
  else { keys.put k { key with ready := true } with ready := keys.ready.pushBack k }

def removeReady (keys : Keys) (k : UInt64) : Keys :=
  let key := keys.slot k
  if !key.ready then keys
  else { keys.put k { key with ready := false } with ready := keys.ready.unlink k }

end Keys

def admission (s : State) (key : UInt64) (bytes : ℕ) : Option ErrorCode :=
  if bytes > s.options.maxRetainedBytes || bytes > s.options.maxRetainedBytesPerKey then some .tooLarge
  else if !s.ready || s.stopping then some .closed
  else if s.outstanding ≥ s.options.maxOutstandingTasks ||
      bytes > sizeSub s.options.maxRetainedBytes s.retained then some .wouldBlock
  else if key ∉ s.keys.map.domain then
    if s.keys.map.domain.card ≥ s.options.maxKeys then some .wouldBlock else none
  else if (s.keys.slot key).outstanding ≥ s.options.maxOutstandingTasksPerKey ||
      bytes > sizeSub s.options.maxRetainedBytesPerKey (s.keys.slot key).bytes then some .wouldBlock
  else none

def submit (s : State) (w : ℕ) (hasJob : Bool) (key : UInt64) (retainedBytes : ℕ) (deadline : Option ℕ) : State :=
  if !hasJob then s.goTo w .rejecting
  else match admission s key retainedBytes with
  | some _ => s.goTo w .rejecting
  | none =>
    { s with table := s.table.push { retainedBytes, deadline, own := { key } } }.goTo w (.submitting s.table.count)

def accept (s : State) (w i now : ℕ) : State :=
  let task := s.task i
  match admission s task.own.key task.retainedBytes with
  | some _ => s.goTo w .rejecting
  | none =>
    let slot := (s.keys.slot task.own.key).accept i task.retainedBytes
    { s with
      table := s.table.set i { observeCancellation now task with admitted := true, own.number := s.admissions }
      tasks := s.tasks ++ [i]
      keys := (s.keys.put task.own.key slot).enqueue task.own.key
      outstanding := s.outstanding + 1
      pending := s.pending + 1
      retained := s.retained + task.retainedBytes
      metrics := { s.metrics with acceptedTasks := add s.metrics.acceptedTasks }
      admissions := s.admissions + 1 }.goTo w .caller

def rejected (s : State) (w : ℕ) : State :=
  { s with metrics := { s.metrics with rejectedTasks := add s.metrics.rejectedTasks } }.goTo w .caller

def stopTask (now : ℕ) (task : Task) : Task :=
  if task.phase = .completing then task else TaskRecord.stopTask now task

def stopTasks (clock : ℕ → ℕ) : List ℕ → Table Task → Table Task := TaskRecord.stopTasks fun i => stopTask (clock i)

def requestStop (s : State) (clock : ℕ → ℕ) : State :=
  { s with stopping := true, table := stopTasks clock s.tasks s.table }

-- One round of the inner loop of `Run`. A round that only drops a key keeps the lock; as an event of
-- its own it allows more interleavings than the source has.
def pick (s : State) (w now : ℕ) : State :=
  if s.stopping then s.goTo w (.returned false)
  else if s.ready then
    match s.keys.ready.head with
    | none => s
    | some k =>
      let keys := s.keys.removeReady k
      match (keys.slot k).queued with
      | [] => s
      | i :: rest =>
        let task := observeCancellation now (s.task i)
        if task.cancelReason ≠ .ok then { s with table := s.table.set i task, keys }
        else
          { s with
            table := s.table.set i { task with phase := .running, own.occupying := true, runs := task.runs + 1 }
            keys := keys.put k { keys.slot k with queued := rest, busy := true }
            pending := sizeSub s.pending 1
            running := s.running + 1
            started := s.started ++ [i] }.goTo w (.executing i)
  else s

def finish (s : State) (w i : ℕ) (outcome : Outcome) (now : ℕ) : State :=
  let task := observeCancellation now (s.task i)
  let result := if task.cancelReason ≠ .ok then .failWithoutMessage task.cancelReason else outcome.status
  { s with table := s.table.set i { task with phase := .completing } }.goTo w (.publishing i result true)

def findCancelled (now : ℕ) : List ℕ → Table Task → Table Task × Option ℕ :=
  TaskRecord.findCancelled (fun task => task.phase = .completing) now

def withdraw (s : State) (w i : ℕ) : State :=
  let task := s.task i
  let slot := (s.keys.slot task.own.key).withdraw i
  let keys := s.keys.put task.own.key slot
  { s with
    table := s.table.set i { task with signalSent := true, phase := .completing }
    pending := sizeSub s.pending 1
    keys := if slot.queued.isEmpty then keys.removeReady task.own.key else keys.enqueue task.own.key }.goTo w
    (.publishing i (.failWithoutMessage task.cancelReason) false)

def coordinate (s : State) (w now : ℕ) : State :=
  match findCancelled now s.tasks s.table with
  | (table, some i) =>
    if (table.row i).phase = .queued then withdraw { s with table } w i
    else { s with table := table.set i { table.row i with signalSent := true } }
  | (table, none) =>
    if s.stopping && s.tasks.isEmpty then { s with table }.goTo w (.returned true) else { s with table }

def publish (s : State) (w i : ℕ) (result : Status) (occupiedKey : Bool) : State :=
  let task := s.task i
  let slot := (s.keys.slot task.own.key).release task.retainedBytes occupiedKey
  let keys := s.keys.put task.own.key slot
  { s with
    table := s.table.set i
      { task with
        phase := .terminal, own.occupying := false, result := some result, published := task.published ++ [result] }
    tasks := s.tasks.filter (· != i)
    outstanding := sizeSub s.outstanding 1
    retained := sizeSub s.retained task.retainedBytes
    running := if occupiedKey then sizeSub s.running 1 else s.running
    metrics := countResult s.metrics result.code
    keys := if slot.outstanding = 0 then (keys.removeReady task.own.key).erase task.own.key
      else keys.enqueue task.own.key }.goTo w (.notifying i occupiedKey)

inductive Event
  | becomeReady
  | submit (w : ℕ) (hasJob : Bool) (key : UInt64) (retainedBytes : ℕ) (deadline : Option ℕ)
  | accept (w now : ℕ)
  | rejected (w : ℕ)
  | cancel (i now : ℕ)
  | stopParent (i : ℕ)
  | requestStop (clock : ℕ → ℕ)
  | pick (w now : ℕ)
  | finish (w : ℕ) (outcome : Outcome) (now : ℕ)
  | coordinate (w now : ℕ)
  | publish (w : ℕ)
  | notified (w : ℕ)

def step (s : State) : Event → Option State
  | .becomeReady => some { s with ready := true }
  | .submit w hasJob key retainedBytes deadline =>
    match s.threads w with
    | .caller => some (submit s w hasJob key retainedBytes deadline)
    | _ => none
  | .accept w now =>
    match s.threads w with
    | .submitting i => some (accept s w i now)
    | _ => none
  | .rejected w =>
    match s.threads w with
    | .rejecting => some (rejected s w)
    | _ => none
  | .cancel i now =>
    if i < s.table.count then some { s with table := s.table.set i (cancel now (s.task i)).1 } else none
  | .stopParent i =>
    if i < s.table.count then some { s with table := s.table.set i { s.task i with parentStopRequested := true } }
    else none
  | .requestStop clock => some (requestStop s clock)
  | .pick w now =>
    match s.threads w with
    | .worker => some (pick s w now)
    | _ => none
  | .finish w outcome now =>
    match s.threads w with
    | .executing i => some (finish s w i outcome now)
    | _ => none
  | .coordinate w now =>
    match s.threads w with
    | .coordinator => some (coordinate s w now)
    | _ => none
  | .publish w =>
    match s.threads w with
    | .publishing i result occupiedKey => some (publish s w i result occupiedKey)
    | _ => none
  | .notified w =>
    match s.threads w with
    | .notifying _ occupiedKey => some (s.goTo w (if occupiedKey then .worker else .coordinator))
    | _ => none

-- An executor behind the first section of `Start`, with any number of threads of each kind.
structure Initial (s : State) : Prop where
  options : 0 < s.options.maxKeys ∧ 0 < s.options.maxOutstandingTasks ∧ 0 < s.options.maxRetainedBytes ∧
    0 < s.options.maxOutstandingTasksPerKey ∧ 0 < s.options.maxRetainedBytesPerKey
  table : s.table.count = 0
  tasks : s.tasks = []
  keys : s.keys.map.domain = ∅
  head : s.keys.ready.head = none
  tail : s.keys.ready.tail = none
  pending : s.pending = 0
  running : s.running = 0
  outstanding : s.outstanding = 0
  retained : s.retained = 0
  admissions : s.admissions = 0
  started : s.started = []
  threads : ∀ w, s.threads w = .caller ∨ s.threads w = .worker ∨ s.threads w = .coordinator

end ServerCore.Runtime.KeyedExecutor
