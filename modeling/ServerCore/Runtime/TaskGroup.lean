import ServerCore.Core.Bytes
import ServerCore.Core.Status
import ServerCore.Foundations.Table
import ServerCore.Foundations.Transition

/-! `TaskGroup` until `Stop`, where `Start` finds its memory. Every section under the mutex is one step, and so is
what the executor and the tasks do: accept or reject a task, end it, and retire its handle. A call inside another one
is a thread of its own here. -/

namespace ServerCore.Runtime.TaskGroup

open ServerCore.Core ServerCore.Foundations

structure TaskGroupOptions where
  maxChildren : ℕ := 128
  maxRetainedBytes : ℕ := 4 * 1024 * 1024
  deriving DecidableEq, Repr

inductive ChildPhase
  | submitting
  | published
  | rejected
  deriving DecidableEq, Repr

structure Child where
  id : ℕ
  bytes : ℕ
  phase : ChildPhase := .submitting
  completed : Bool := false
  code : ErrorCode := .wouldBlock
  answer : Option Bool := none
  result : Option ErrorCode := none
  finished : Bool := false
  observed : Bool := false
  deriving DecidableEq, Repr

structure TaskGroupCompletion where
  id : ℕ
  code : ErrorCode
  deriving DecidableEq, Repr

inductive Place
  | idle
  | returned (code : ErrorCode)
  | submitting (child : ℕ)
  | answered (child : ℕ)
  | published (child : ℕ)
  | notifying
  | signalling
  deriving DecidableEq, Repr

structure State where
  options : TaskGroupOptions := {}
  ready : Bool := false
  table : Table Child := ⟨0, fun _ => ⟨0, 0, .rejected, false, .wouldBlock, none, none, false, false⟩⟩
  children : List ℕ := []
  closed : Bool := false
  retained : ℕ := 0
  submitting : ℕ := 0
  nextId : ℕ := 1
  signalReady : Bool := false
  fires : ℕ := 0
  reports : List TaskGroupCompletion := []
  threads : ℕ → Place := fun _ => .idle

namespace State

abbrev child (s : State) (i : ℕ) : Child := s.table.row i

def goTo (s : State) (t : ℕ) (place : Place) : State := { s with threads := Function.update s.threads t place }

def setChild (s : State) (i : ℕ) (child : Child) : State := { s with table := s.table.set i child }

def finishedLocked (s : State) : Bool :=
  s.closed && s.submitting == 0 && s.children.all fun i => (s.child i).phase = .published && (s.child i).completed

def start (s : State) (t : ℕ) (options : TaskGroupOptions) : State :=
  if options.maxChildren = 0 ∨ options.maxRetainedBytes = 0 then s.goTo t (.returned .invalidArgument)
  else if s.ready then s.goTo t (.returned .closed)
  else { s with options, ready := true }.goTo t (.returned .ok)

def submitError (s : State) (task allocated deadlinePassed : Bool) (bytes : ℕ) : Option ErrorCode :=
  if !task then some .invalidArgument
  else if !allocated then some .platformError
  else if !s.ready || s.closed then some .closed
  else if deadlinePassed then some .timeout
  else if bytes > s.options.maxRetainedBytes || s.nextId == 0 then some .tooLarge
  else if s.children.length ≥ s.options.maxChildren || bytes > sizeSub s.options.maxRetainedBytes s.retained then
    some .wouldBlock
  else none

def submit (s : State) (t : ℕ) (task allocated deadlinePassed : Bool) (bytes : ℕ) : State :=
  match s.submitError task allocated deadlinePassed bytes with
  | some code => s.goTo t (.returned code)
  | none =>
    { s with
      table := s.table.push { id := s.nextId, bytes }
      children := s.children ++ [s.table.count]
      nextId := (s.nextId + 1) % sizeModulus
      submitting := s.submitting + 1
      retained := s.retained + bytes }.goTo t (.submitting s.table.count)

def executorAnswers (s : State) (t i : ℕ) (accepts : Bool) : State :=
  (s.setChild i { s.child i with answer := some accepts }).goTo t (.answered i)

def conclude (s : State) (t i : ℕ) : State :=
  let child := s.child i
  let s := { s with submitting := sizeSub s.submitting 1 }
  if child.answer = some true then (s.setChild i { child with phase := .published }).goTo t (.published i)
  else
    ({ s with children := s.children.erase i, retained := sizeSub s.retained child.bytes }.setChild i
      { child with phase := .rejected }).goTo t .notifying

def observe (s : State) (t i : ℕ) : State := (s.setChild i { s.child i with observed := true }).goTo t .notifying

def complete (s : State) (t i : ℕ) (code : ErrorCode) : State :=
  ({ s with retained := sizeSub s.retained (s.child i).bytes }.setChild i { s.child i with code, completed := true }).goTo t
    .notifying

def close (s : State) (t : ℕ) : State := { s with closed := true }.goTo t .notifying

def notifyCompletion (s : State) (t : ℕ) : State := s.goTo t (if s.finishedLocked then .signalling else .idle)

def signal (s : State) (t : ℕ) : State :=
  if s.signalReady then s.goTo t .idle else { s with signalReady := true, fires := s.fires + 1 }.goTo t .idle

def retires (s : State) (i : ℕ) : Bool := (s.child i).phase = .published && (s.child i).completed && (s.child i).finished

def completion (s : State) (i : ℕ) : TaskGroupCompletion := ⟨(s.child i).id, (s.child i).code⟩

def takeCompletions (s : State) (t : ℕ) (allocated : Bool) : State :=
  if !allocated then s.goTo t (.returned .platformError)
  else
    { s with
      children := s.children.filter fun i => !s.retires i
      reports := s.reports ++ (s.children.filter s.retires).map s.completion }.goTo t (.returned .ok)

end State

inductive Choice
  | start (options : TaskGroupOptions)
  | submit (task allocated deadlinePassed : Bool) (bytes : ℕ)
  | executorAnswers (accepts : Bool)
  | conclude
  | observe
  | taskEnds (child : ℕ) (code : ErrorCode)
  | handleFinishes (child : ℕ)
  | complete (child : ℕ)
  | close
  | notify
  | signal
  | takeCompletions (allocated : Bool)
  deriving DecidableEq, Repr

def Place.free : Place → Bool
  | idle | returned _ => true
  | _ => false

def step (s : State) (event : ℕ × Choice) : Option State :=
  match event.2, s.threads event.1 with
  | .start options, place => if place.free then some (s.start event.1 options) else none
  | .submit task allocated deadlinePassed bytes, place =>
    if place.free then some (s.submit event.1 task allocated deadlinePassed bytes) else none
  | .executorAnswers accepts, .submitting i => some (s.executorAnswers event.1 i accepts)
  | .conclude, .answered i => some (s.conclude event.1 i)
  | .observe, .published i => some (s.observe event.1 i)
  | .taskEnds i code, _ =>
    if i < s.table.count ∧ (s.child i).answer = some true ∧ (s.child i).result = none then
      some (s.setChild i { s.child i with result := some code })
    else none
  | .handleFinishes i, _ =>
    if i < s.table.count ∧ (s.child i).result ≠ none then some (s.setChild i { s.child i with finished := true }) else none
  | .complete i, place =>
    if place.free ∧ i < s.table.count ∧ (s.child i).observed = true ∧ (s.child i).completed = false then
      (s.child i).result.map fun code => s.complete event.1 i code
    else none
  | .close, place => if place.free then some (s.close event.1) else none
  | .notify, .notifying => some (s.notifyCompletion event.1)
  | .signal, .signalling => some (s.signal event.1)
  | .takeCompletions allocated, place => if place.free then some (s.takeCompletions event.1 allocated) else none
  | _, _ => none

def Initial (s : State) : Prop := s = {}

end ServerCore.Runtime.TaskGroup
