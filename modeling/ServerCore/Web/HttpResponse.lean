import ServerCore.Foundations.Transition
import ServerCore.Web.ChunkEncoding
import ServerCore.Web.ResponseEncoding

/-! `HttpResponseState`: the bytes of a response go to the connection in transactions, one at a time. -/

namespace ServerCore.Web.HttpResponseState

open ServerCore.Core

structure Options where
  maxHeaderBytes : ℕ := 16 * 1024
  maxResponseBodyBytes : ℕ := 256 * 1024
  maxTotalSendQueueCapacityBytes : ℕ := 256 * 1024 * 1024
  maxStreamChunkBytes : ℕ := 64 * 1024

structure Context where
  options : Options := {}
  head : Bool := false
  requestClose : Bool := false
  connect : Bool := false
  closeDelimited : Bool := false
  policyHeaders : List (Bytes × Bytes) := []

structure HttpResponseHead where
  status : ℕ := 200
  headers : List (Bytes × Bytes) := []
  contentLength : Option UInt64 := none
  close : Bool := false
  deriving DecidableEq

structure HttpResponse where
  status : ℕ := 200
  headers : List (Bytes × Bytes) := []
  body : Bytes := []
  close : Bool := false
  deriving DecidableEq

inductive Phase
  | new
  | streaming
  | finished
  | aborted
  deriving DecidableEq

structure Progress where
  phase : Phase := .new
  mode : ResponseBodyMode := .none
  length : ℕ := 0
  written : ℕ := 0
  close : Bool := false

structure State where
  progress : Progress := {}
  sending : Bool := false
  blockedWireBytes : ℕ := 0
  status : ℕ := 0
  reserved : Bool := true
  waitsRetired : Bool := false

/-- The arguments of `SendTransaction`. -/
structure Transaction where
  wire : Bytes
  next : Progress
  status : ℕ := 0

/-- A policy's header is a default, except for the lists `Vary` and `Set-Cookie`. -/
def mergePolicyHeaders (headers policy : List (Bytes × Bytes)) : List (Bytes × Bytes) :=
  policy.foldl
    (fun headers field =>
      let same (entry : Bytes × Bytes) : Bool := equalInsensitive entry.1 field.1 &&
        (!equalInsensitive field.1 (ascii "vary") || equalInsensitive entry.2 field.2)
      if equalInsensitive field.1 (ascii "set-cookie") || !headers.any same then headers ++ [field] else headers)
    headers

def serializeResponse (now : ℤ) (response : HttpResponse) (head close : Bool) (maxHeaders maxBody : ℕ) : Option Bytes :=
  if response.body.length > maxBody then none
  else
    match prepareResponseHead now response.status response.headers (some response.body.length) head close maxHeaders true with
    | .error _ => none
    | .ok prepared => some (if prepared.mode = .none then prepared.wire else prepared.wire ++ response.body)

def sendQueueLimitBytes : ℕ := 1024 * 1024

def finalChunk : Bytes := ascii "0\r\n\r\n"

variable (c : Context)

def maxWriteBytes : ℕ :=
  let maximum := min c.options.maxTotalSendQueueCapacityBytes sendQueueLimitBytes
  min c.options.maxStreamChunkBytes (if maximum > 32 then maximum - 32 else 0)

def State.terminal (s : State) : Prop := s.progress.phase = .finished ∨ s.progress.phase = .aborted

instance (s : State) : Decidable s.terminal := inferInstanceAs (Decidable (_ ∨ _))

def State.refusal (wanted : Phase) (otherwise : ErrorCode) (s : State) : Option ErrorCode :=
  if s.terminal then some .closed
  else if s.sending then some .wouldBlock
  else if s.progress.phase ≠ wanted then some otherwise
  else none

def refused (code : ErrorCode) : Except Status Transaction := .error (.failWithoutMessage code)

def prepare (now : ℤ) (value : HttpResponseHead) : Except Status PreparedResponseHead :=
  prepareResponseHead now value.status (mergePolicyHeaders value.headers c.policyHeaders)
    (value.contentLength.map UInt64.toNat) c.head (value.close || c.requestClose) c.options.maxHeaderBytes (!c.closeDelimited)

def start (now : ℤ) (value : HttpResponseHead) (s : State) : Except Status Transaction :=
  match s.refusal .new .alreadyExists with
  | some code => refused code
  | none =>
    if c.connect ∧ value.status ≥ 200 ∧ value.status < 300 then refused .invalidArgument
    else
      match prepare c now value with
      | .error status => .error status
      | .ok prepared =>
        let close := value.close || c.requestClose || prepared.mode = .closeDelimited
        .ok ⟨prepared.wire, ⟨.streaming, prepared.mode, prepared.length, 0, close⟩, value.status⟩

def encodeWrite (mode : ResponseBodyMode) (bytes : Bytes) : Except Status Bytes :=
  if mode = .chunked then encodeChunk bytes c.options.maxStreamChunkBytes else .ok bytes

def write (bytes : Bytes) (s : State) : Except Status (Option Transaction) :=
  match s.refusal .streaming .invalidArgument with
  | some code => .error (.failWithoutMessage code)
  | none =>
    if bytes = [] then .ok none
    else if s.progress.mode = .none then .error (.failWithoutMessage .invalidArgument)
    else if bytes.length > maxWriteBytes c then .error (.failWithoutMessage .tooLarge)
    else if s.progress.mode = .fixedLength ∧ bytes.length > sizeSub s.progress.length s.progress.written then
      .error (.failWithoutMessage .invalidArgument)
    else
      match encodeWrite c s.progress.mode bytes with
      | .error status => .error status
      | .ok wire => .ok (some ⟨wire, { s.progress with written := (s.progress.written + bytes.length) % sizeModulus }, 0⟩)

def finish (s : State) : Except Status Transaction :=
  match s.refusal .streaming .invalidArgument with
  | some code => refused code
  | none =>
    if s.progress.mode = .fixedLength ∧ s.progress.written ≠ s.progress.length then refused .invalidArgument
    else .ok ⟨if s.progress.mode = .chunked then finalChunk else [], { s.progress with phase := .finished }, 0⟩

def complete (now : ℤ) (response : HttpResponse) (s : State) : Except Status Transaction :=
  match s.refusal .new .alreadyExists with
  | some code => refused code
  | none =>
    if response.body.length > c.options.maxResponseBodyBytes then refused .tooLarge
    else if c.connect ∧ response.status ≥ 200 ∧ response.status < 300 then refused .invalidArgument
    else
      let close := response.close || c.requestClose
      let actual := { response with headers := mergePolicyHeaders response.headers c.policyHeaders }
      match serializeResponse now actual c.head close c.options.maxHeaderBytes c.options.maxResponseBodyBytes with
      | none => refused .invalidArgument
      | some wire => .ok ⟨wire, ⟨.finished, .none, 0, 0, close⟩, response.status⟩

inductive Action
  | markCancelled (reason : ErrorCode) (close : Bool)
  | report (reason : ErrorCode)
  | stopWaits
  | retireWaits
  | finished
  | stopUser
  | closeAfterSend
  | close
  deriving DecidableEq

def completion (close : Bool) : List Action :=
  [.report .ok, .stopWaits, .retireWaits, .finished] ++ if close then [.closeAfterSend] else []

/-- `Cancel`, or `AbortWithReason`, which also closes the connection. -/
def cancellation (reason : ErrorCode) (close : Bool) : List Action :=
  [.report reason, .stopWaits, .stopUser] ++ if close then [.close] else []

/-- What `SendTransaction` does with the answer of the connection, and what is left to do. -/
def State.settle (t : Transaction) (code : ErrorCode) (s : State) : ErrorCode × State × List Action :=
  let s := { s with sending := false }
  if s.progress.phase = .aborted then (.closed, s, [])
  else if code = .ok then
    let last := t.next.phase = .finished
    (.ok, { s with
      progress := t.next
      blockedWireBytes := 0
      status := if t.status ≠ 0 then t.status else s.status
      reserved := s.reserved && !last }, if last then completion t.next.close else [])
  else if code = .wouldBlock then (.wouldBlock, { s with blockedWireBytes := t.wire.length }, [])
  else (code, s, [.markCancelled code true])

def State.aborted (s : State) : State := { s with progress := { s.progress with phase := .aborted }, reserved := false }

def State.isFinished (s : State) : Bool := s.progress.phase = .finished && s.waitsRetired

/-- The capacity that `WaitForWriteCapacity` asks of the connection. -/
def requiredCapacity (bytes : ℕ) (s : State) : Except ErrorCode ℕ :=
  if s.terminal then .error .closed
  else if bytes > maxWriteBytes c then .error .tooLarge
  else if s.sending then .error .wouldBlock
  else if (s.progress.phase = .new ∨ bytes = 0) ∧ s.blockedWireBytes ≠ 0 then .ok s.blockedWireBytes
  else if s.progress.phase = .new then .ok (min c.options.maxHeaderBytes c.options.maxTotalSendQueueCapacityBytes)
  else .ok (if bytes = 0 then 5 else bytes + if s.progress.mode = .chunked then 32 else 0)

inductive Call
  | start (now : ℤ) (value : HttpResponseHead)
  | write (bytes : Bytes)
  | finish
  | complete (now : ℤ) (response : HttpResponse)
  deriving DecidableEq

def select (s : State) : Call → Except Status (Option Transaction)
  | .start now value => (start c now value s).map some
  | .write bytes => write c bytes s
  | .finish => (finish s).map some
  | .complete now response => (complete c now response s).map some

/-- A transaction between its two holds of the lock, and the answer to its `Send`. -/
structure Flight where
  call : Call
  transaction : Transaction
  answer : Option ErrorCode := none

/-- `accepted` are the calls that were answered with `Ok` and had bytes to send or an end to make. -/
structure System where
  state : State := {}
  flight : Option Flight := none
  wire : Bytes := []
  tails : List (List Action) := []
  accepted : List Call := []
  log : List Action := []
  reports : List (ErrorCode × ℕ) := []

/-- A step of one of the threads: a call up to its `Send`, the `Send`, what follows it under the lock, `Abort` and
`Cancel`, and an action of a thread that has let go of the lock. -/
inductive Step
  | call (call : Call)
  | send (code : ErrorCode)
  | settle
  | abort
  | cancel (reason : ErrorCode)
  | act (thread : ℕ)

/-- `Send` queues all of the bytes or none. Nothing is sent where there are no bytes. -/
def System.send (code : ErrorCode) (s : System) : Option System :=
  match s.flight with
  | some ⟨call, t, none⟩ =>
    if t.wire = [] ∧ code ≠ .ok then none
    else some { s with flight := some ⟨call, t, some code⟩, wire := if code = .ok then s.wire ++ t.wire else s.wire }
  | _ => none

def System.conclude (call : Call) (s : System) : ErrorCode × State × List Action → System
  | (answer, state, tail) => { s with
      flight := none
      state := state
      tails := s.tails ++ [tail]
      accepted := if answer = .ok then s.accepted ++ [call] else s.accepted }

def System.settle (s : System) : Option System :=
  match s.flight with
  | some ⟨call, t, some code⟩ => some (s.conclude call (s.state.settle t code))
  | _ => none

def System.call (call : Call) (s : System) : System :=
  match select c s.state call with
  | .ok (some t) => { s with flight := some ⟨call, t, none⟩, state := { s.state with sending := true } }
  | _ => s

def System.perform (s : System) (thread : ℕ) (rest : List Action) : Action → System
  | .markCancelled reason close =>
    if s.state.terminal then { s with tails := s.tails.set thread rest }
    else { s with state := s.state.aborted, tails := s.tails.set thread (cancellation reason close ++ rest) }
  | .report reason =>
    { s with tails := s.tails.set thread rest, log := s.log ++ [.report reason], reports := s.reports ++ [(reason, s.state.status)] }
  | .retireWaits =>
    { s with
      tails := s.tails.set thread rest
      log := s.log ++ [.retireWaits]
      state := { s.state with waitsRetired := true } }
  | action => { s with tails := s.tails.set thread rest, log := s.log ++ [action] }

def System.act (thread : ℕ) (s : System) : Option System :=
  match s.tails[thread]? with
  | some (action :: rest) => some (s.perform thread rest action)
  | _ => none

def step (s : System) : Step → Option System
  | .call call => some (s.call c call)
  | .send code => s.send code
  | .settle => s.settle
  | .abort => some { s with tails := s.tails ++ [[.markCancelled .cancelled true]] }
  | .cancel reason => some { s with tails := s.tails ++ [[.markCancelled reason false]] }
  | .act thread => s.act thread

def Initial (s : System) : Prop := s = {}

end ServerCore.Web.HttpResponseState
