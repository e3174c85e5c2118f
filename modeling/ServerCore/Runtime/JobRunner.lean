import ServerCore.Core.Bytes
import ServerCore.Core.Status
import ServerCore.Foundations.Table
import ServerCore.Foundations.Transition

/-! `JobRunner`: two budgets over one queue, reservations of a place in it and the single consumer. Every section
under the mutex is one step; the destruction of captures and of a reservation happens between two of them. -/

namespace ServerCore.Runtime.JobRunner

open ServerCore.Core ServerCore.Foundations

structure JobRunnerOptions where
  maxOutstandingJobs : ℕ := 4096
  maxRetainedBytes : ℕ := 16 * 1024 * 1024
  maxControlJobs : ℕ := 1024
  maxControlBytes : ℕ := 4 * 1024 * 1024
  deriving DecidableEq, Repr

namespace JobRunnerOptions

def valid (o : JobRunnerOptions) : Bool :=
  !(o.maxOutstandingJobs == 0 || o.maxRetainedBytes == 0 || o.maxControlJobs == 0 || o.maxControlBytes == 0 ||
    o.maxControlJobs > sizeSub (sizeModulus - 1) o.maxOutstandingJobs ||
    o.maxControlBytes > sizeSub (sizeModulus - 1) o.maxRetainedBytes)

def jobs (o : JobRunnerOptions) (control : Bool) : ℕ := if control then o.maxControlJobs else o.maxOutstandingJobs

def retained (o : JobRunnerOptions) (control : Bool) : ℕ := if control then o.maxControlBytes else o.maxRetainedBytes

end JobRunnerOptions

structure QueuedJob where
  id : ℕ
  bytes : ℕ
  control : Bool
  deriving DecidableEq, Repr

inductive ReservationPhase
  | held
  | refused
  | posted
  | dropped
  deriving DecidableEq, Repr

structure Reservation where
  bytes : ℕ
  phase : ReservationPhase := .held
  releases : ℕ := 0
  deriving DecidableEq, Repr

-- Where the consumer stands in `RunUntilStopped`.
inductive Consumer
  | inactive
  | waiting
  | running (job : QueuedJob)
  | releasing (job : QueuedJob)
  deriving DecidableEq, Repr

structure State where
  options : JobRunnerOptions := {}
  queue : List QueuedJob := []
  count : ℕ := 0
  bytes : ℕ := 0
  controlCount : ℕ := 0
  controlBytes : ℕ := 0
  admissionClosed : Bool := false
  stopRequested : Bool := false
  used : Bool := false
  consumer : Consumer := .inactive
  reservations : Table Reservation := ⟨0, fun _ => ⟨0, .dropped, 0⟩⟩
  entered : List QueuedJob := []
  started : List QueuedJob := []

namespace State

def runActive (s : State) : Bool := s.consumer ≠ .inactive

def countOf (s : State) (control : Bool) : ℕ := if control then s.controlCount else s.count

def bytesOf (s : State) (control : Bool) : ℕ := if control then s.controlBytes else s.bytes

def configure (s : State) (options : JobRunnerOptions) : ErrorCode × State :=
  if !options.valid then (.invalidArgument, s)
  else if s.options = options then (.ok, s)
  else if s.used || s.runActive || s.admissionClosed || s.stopRequested then (.closed, s)
  else (.ok, { s with options })

def admission (s : State) (bytes : ℕ) (control : Bool) : ErrorCode :=
  if s.stopRequested || (!control && s.admissionClosed) then .closed
  else if bytes > s.options.retained control then .tooLarge
  else if s.countOf control ≥ s.options.jobs control || bytes > sizeSub (s.options.retained control) (s.bytesOf control) then
    .wouldBlock
  else .ok

def charge (s : State) (bytes : ℕ) (control : Bool) : State :=
  if control then { s with controlCount := s.controlCount + 1, controlBytes := s.controlBytes + bytes, used := true }
  else { s with count := s.count + 1, bytes := s.bytes + bytes, used := true }

def release (s : State) (bytes : ℕ) (control : Bool) : State :=
  if control then { s with controlCount := sizeSub s.controlCount 1, controlBytes := sizeSub s.controlBytes bytes }
  else { s with count := sizeSub s.count 1, bytes := sizeSub s.bytes bytes }

def enqueue (s : State) (bytes : ℕ) (control : Bool) : State :=
  let job := { id := s.entered.length, bytes, control }
  { s with queue := s.queue ++ [job], entered := s.entered ++ [job] }

def post (s : State) (callback allocated : Bool) (bytes : ℕ) (control : Bool) : ErrorCode × State :=
  if !callback then (.invalidArgument, s)
  else if !allocated then (.platformError, s)
  else
    match s.admission bytes control with
    | .ok => (.ok, (s.charge bytes control).enqueue bytes control)
    | code => (code, s)

def reserve (s : State) (allocated : Bool) (bytes : ℕ) : ErrorCode × State :=
  if !allocated then (.platformError, s)
  else
    match s.admission bytes false with
    | .ok => (.ok, { s.charge bytes false with reservations := s.reservations.push { bytes } })
    | code => (code, s)

def setReservation (s : State) (r : ℕ) (reservation : Reservation) : State :=
  { s with reservations := s.reservations.set r reservation }

/-- `Reservation::Post` up to the end of the section: a handle that was refused is dropped next. -/
def postReserved (s : State) (r : ℕ) (callback : Bool) : ErrorCode × State :=
  let reservation := s.reservations.row r
  if reservation.phase ≠ .held then (.closed, s)
  else if !callback then (.invalidArgument, s)
  else if !s.stopRequested then
    (.ok, (s.setReservation r ⟨reservation.bytes, .posted, reservation.releases⟩).enqueue reservation.bytes false)
  else (.closed, s.setReservation r ⟨reservation.bytes, .refused, reservation.releases⟩)

def dropReservation (s : State) (r : ℕ) : State :=
  let reservation := s.reservations.row r
  (s.release reservation.bytes false).setReservation r ⟨reservation.bytes, .dropped, reservation.releases + 1⟩

def closeAdmission (s : State) : State := { s with admissionClosed := true }

def requestStop (s : State) : State := { s with admissionClosed := true, stopRequested := true }

def take (s : State) : Option State :=
  match s.queue with
  | [] => if s.stopRequested then some { s with consumer := .inactive } else none
  | job :: queue => some { s with queue, consumer := .running job, started := s.started ++ [job] }

end State

inductive Event
  | configure (options : JobRunnerOptions)
  | post (callback allocated : Bool) (bytes : ℕ) (control : Bool)
  | reserve (allocated : Bool) (bytes : ℕ)
  | postReserved (reservation : ℕ) (callback : Bool)
  | dropReservation (reservation : ℕ)
  | dropRefused (reservation : ℕ)
  | closeAdmission
  | requestStop
  | runUntilStopped
  | take
  | finish
  | release
  deriving DecidableEq, Repr

def step (s : State) : Event → Option State
  | .configure options => some (s.configure options).2
  | .post callback allocated bytes control => some (s.post callback allocated bytes control).2
  | .reserve allocated bytes => some (s.reserve allocated bytes).2
  | .postReserved r callback =>
    if r < s.reservations.count ∧ (s.reservations.row r).phase ≠ .refused then some (s.postReserved r callback).2 else none
  | .dropReservation r =>
    if r < s.reservations.count ∧ (s.reservations.row r).phase = .held then some (s.dropReservation r) else none
  | .dropRefused r =>
    if r < s.reservations.count ∧ (s.reservations.row r).phase = .refused then some (s.dropReservation r) else none
  | .closeAdmission => some s.closeAdmission
  | .requestStop => some s.requestStop
  | .runUntilStopped => if s.runActive then none else some { s with used := true, consumer := .waiting }
  | .take => if s.consumer = .waiting then s.take else none
  | .finish =>
    match s.consumer with
    | .running job => some { s with consumer := .releasing job }
    | _ => none
  | .release =>
    match s.consumer with
    | .releasing job => some { s.release job.bytes job.control with consumer := .waiting }
    | _ => none

def Initial (s : State) : Prop := s = {}

end ServerCore.Runtime.JobRunner
