import ServerCore.Core.Bytes
import ServerCore.Core.CompletionSubscription
import ServerCore.Core.Status
import ServerCore.Foundations.Transition

/-! `RequestBodyState`: every section under its mutex and every change of a counter is one step. -/

namespace ServerCore.Web.RequestBody

open ServerCore.Core ServerCore.Foundations

inductive Stage
  | entering
  | queued
  | held
  | discarded
  | releasing
  | released
  deriving DecidableEq, Repr

structure Piece where
  bytes : Bytes
  stage : Stage
  deriving DecidableEq, Repr

def Piece.charge (piece : Piece) : ℕ :=
  match piece.stage with
  | .releasing | .released => 0
  | _ => piece.bytes.length

def Piece.places (piece : Piece) : ℕ :=
  match piece.stage with
  | .entering | .released => 0
  | _ => 1

def pieceOverheadBytes : ℕ := 160

def available (maximum retained pieces : ℕ) : ℕ :=
  if pieces = 0 then maximum - min maximum retained
  else
    let bookkeeping := (pieces + 1) * pieceOverheadBytes
    if maximum ≤ retained ∨ maximum - retained ≤ bookkeeping then 0 else maximum - retained - bookkeeping

/-- Where `Push` stands; it holds the mutex in all places but the first. -/
inductive PushPlace
  | idle
  | admitted (bytes : Bytes)
  | loaded (bytes : Bytes) (retained : ℕ)
  | checked (bytes : Bytes)
  | entered (piece : ℕ)
  | unwinding (piece : ℕ)
  deriving DecidableEq, Repr

inductive ReadResult
  | piece (index : ℕ)
  | finished
  | failed (code : ErrorCode)
  | wouldBlock
  deriving DecidableEq, Repr

def ReadResult.index : ReadResult → Option ℕ
  | piece index => some index
  | _ => none

structure Body where
  maximum : ℕ
  pieces : Table Piece := ⟨0, fun _ => ⟨[], .released⟩⟩
  queue : Option (List ℕ) := some []
  retainedBytes : ℕ := 0
  pieceCount : ℕ := 0
  error : ErrorCode := .ok
  done : Bool := false
  readWait : Option ℕ := none
  subscriptions : Table (Subscription Unit) := ⟨0, fun _ => ⟨(), .suppressed⟩⟩
  notifying : List ℕ := []
  push : PushPlace := .idle
  ending : Bool := false
  read : List ℕ := []
  results : List ReadResult := []

inductive Event
  | push (bytes : Bytes)
  | loadRetained
  | loadPieces
  | charge
  | enqueue
  | outOfMemory
  | unwound
  | read
  | release (piece : ℕ)
  | discard (piece : ℕ)
  | released (piece : ℕ)
  | finish (code : ErrorCode)
  | returned
  | wait
  | cancelWait (source : ℕ)
  | resetWait (source : ℕ)
  | notify (source : ℕ)
  deriving DecidableEq, Repr

namespace Body

def create (maximum : ℕ) : Body := { maximum }

def closed (s : Body) : Bool := s.done || s.error ≠ .ok

def stageAt (s : Body) (piece : ℕ) : Stage := (s.pieces.row piece).stage

def moveTo (s : Body) (piece : ℕ) (stage : Stage) : Table Piece :=
  s.pieces.set piece { s.pieces.row piece with stage }

def beginPush (s : Body) (bytes : Bytes) : Body :=
  if s.closed || s.queue.isNone || bytes = [] then s else { s with push := .admitted bytes }

/-- A piece that is larger than `Available` is refused with an exception. -/
def check (s : Body) (bytes : Bytes) (retained : ℕ) : Body :=
  if available s.maximum retained s.pieceCount < bytes.length then { s with push := .idle }
  else { s with push := .checked bytes }

def enter (s : Body) (bytes : Bytes) : Body :=
  { s with
    retainedBytes := s.retainedBytes + bytes.length
    pieces := s.pieces.push ⟨bytes, .entering⟩
    push := .entered s.pieces.count }

def enqueue (s : Body) (piece : ℕ) : Body :=
  { s with
    pieceCount := s.pieceCount + 1
    pieces := s.moveTo piece .queued
    queue := s.queue.map (· ++ [piece])
    readWait := none
    notifying := s.notifying ++ s.readWait.toList
    push := .idle }

/-- No memory for the owner of the piece or for its place in the queue: the deleter gives the charge back inside `Push`. -/
def unwind (s : Body) (piece : ℕ) : Body :=
  { s with pieceCount := s.pieceCount + 1, pieces := s.moveTo piece .held, push := .unwinding piece }

def leave (s : Body) : Body := { s with pieces := s.pieces.pop, push := .idle }

def readNext (s : Body) : Body :=
  if s.error ≠ .ok then { s with results := s.results ++ [.failed s.error] }
  else
    match s.queue with
    | some (piece :: rest) =>
      { s with
        pieces := s.moveTo piece .held
        queue := some rest
        read := s.read ++ [piece]
        results := s.results ++ [.piece piece] }
    | _ => { s with results := s.results ++ [if s.done then .finished else .wouldBlock] }

def giveBack (s : Body) (piece : ℕ) : Body :=
  { s with
    retainedBytes := s.retainedBytes - (s.pieces.row piece).bytes.length
    pieces := s.moveTo piece .releasing }

def forget (s : Body) (piece : ℕ) : Body :=
  { s with pieceCount := s.pieceCount - 1, pieces := s.moveTo piece .released }

def drop (piece : Piece) : Piece := if piece.stage = .queued then { piece with stage := .discarded } else piece

def finish (s : Body) (code : ErrorCode) : Body :=
  if s.closed then s
  else
    let s := { s with
      done := code = .ok
      error := code
      readWait := none
      notifying := s.notifying ++ s.readWait.toList }
    if code = .ok then s
    else { s with queue := none, pieces := ⟨s.pieces.count, fun i => drop (s.pieces.row i)⟩, ending := true }

def ready (s : Body) : Bool := s.closed || s.queue.any (!·.isEmpty)

def waitForReadReady (s : Body) : Body :=
  if s.readWait.any fun i => (s.subscriptions.row i).isPending then s
  else
    let source := s.subscriptions.count
    let s := { s with subscriptions := s.subscriptions.push ⟨(), .pending⟩ }
    if s.ready then { s with notifying := s.notifying ++ [source] } else { s with readWait := some source }

def update (s : Body) (source : ℕ) (f : Subscription Unit → Subscription Unit) : Body :=
  { s with subscriptions := s.subscriptions.set source (f (s.subscriptions.row source)) }

end Body

def step (s : Body) : Event → Option Body
  | .push bytes => if s.push = .idle then some (s.beginPush bytes) else none
  | .loadRetained =>
    match s.push with
    | .admitted bytes => some { s with push := .loaded bytes s.retainedBytes }
    | _ => none
  | .loadPieces =>
    match s.push with
    | .loaded bytes retained => some (s.check bytes retained)
    | _ => none
  | .charge =>
    match s.push with
    | .checked bytes => some (s.enter bytes)
    | _ => none
  | .enqueue =>
    match s.push with
    | .entered piece => some (s.enqueue piece)
    | _ => none
  | .outOfMemory =>
    match s.push with
    | .checked _ => some { s with push := .idle }
    | .entered piece => some (s.unwind piece)
    | _ => none
  | .unwound =>
    match s.push with
    | .unwinding piece => if s.stageAt piece = .released then some s.leave else none
    | _ => none
  | .read => if s.push = .idle then some s.readNext else none
  | .release piece => if piece < s.pieces.count ∧ s.stageAt piece = .held then some (s.giveBack piece) else none
  | .discard piece =>
    if s.ending = true ∧ piece < s.pieces.count ∧ s.stageAt piece = .discarded then some (s.giveBack piece) else none
  | .released piece => if piece < s.pieces.count ∧ s.stageAt piece = .releasing then some (s.forget piece) else none
  | .finish code => if s.push = .idle then some (s.finish code) else none
  | .returned =>
    if s.ending = true ∧ ∀ i < s.pieces.count, s.stageAt i ≠ .discarded then some { s with ending := false } else none
  | .wait => if s.push = .idle then some s.waitForReadReady else none
  | .cancelWait source =>
    if source < s.subscriptions.count then some (s.update source (Subscription.complete .cancelled)) else none
  | .resetWait source => if source < s.subscriptions.count then some (s.update source Subscription.reset) else none
  | .notify source =>
    if source ∈ s.notifying then
      some { s.update source (Subscription.complete .ok) with notifying := s.notifying.erase source }
    else none

end ServerCore.Web.RequestBody
