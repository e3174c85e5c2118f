import ServerCore.Foundations.Transition
import ServerCore.Web.HttpParser
import ServerCore.Web.RequestBody

/-! A connection of the HTTP server up to an upgrade: the bytes it receives, the loop over its input, and the thread
that takes this loop up again after an event. Sections under one mutex and single atomic accesses are one step each. -/

namespace ServerCore.Web.HttpPeer

open ServerCore.Core ServerCore.Foundations

def maximumReceiveChunkBytes : ℕ := 16 * 1024

structure HttpServerOptions where
  maxHeaderBytes : UInt64 := 16 * 1024
  maxBodyBytes : ℕ := 1024 * 1024
  maxStreamedBodyBytes : UInt64 := 1024 * 1024 * 1024
  maxPipelinedBytes : ℕ := 64 * 1024
  maxStreamChunkBytes : ℕ := 64 * 1024
  maxRequestBodyBufferBytes : ℕ := 64 * 1024
  deriving DecidableEq, Repr

def validOptions (o : HttpServerOptions) : Bool :=
  256 ≤ o.maxHeaderBytes && o.maxHeaderBytes ≤ 64 * 1024 && o.maxBodyBytes ≤ 16 * 1024 * 1024 &&
    32 * 1024 ≤ o.maxPipelinedBytes && o.maxPipelinedBytes ≤ 16 * 1024 * 1024 && 0 < o.maxStreamChunkBytes &&
    o.maxStreamChunkBytes ≤ 1024 * 1024 - 32 && 0 < o.maxRequestBodyBufferBytes &&
    o.maxRequestBodyBufferBytes ≤ 16 * 1024 * 1024 && o.maxBodyBytes ≤ o.maxStreamedBodyBytes.toNat

inductive Phase
  | http
  | webSocket
  | httpClosing
  | closed
  deriving DecidableEq, Repr

inductive ActiveResponse
  | running
  | finished (close : Bool)
  | aborted
  deriving DecidableEq, Repr

inductive Decision
  | pending
  | allowed
  | rejected
  | aborted
  deriving DecidableEq, Repr

structure RequestBody where
  generation : ℕ
  maximum : ℕ
  retained : ℕ := 0
  pieces : ℕ := 0
  held : List ℕ := []
  ended : Bool := false
  deriving DecidableEq, Repr

def RequestBody.available (b : RequestBody) : ℕ := Web.RequestBody.available b.maximum b.retained b.pieces

inductive Receive
  | idle
  | inFlight (bytes : Bytes)
  | delivering
  deriving DecidableEq, Repr

-- Who called `ProcessInput`: the receive loop with its unread rest, or `RunProgress`.
inductive Caller
  | receive (rest : Bytes)
  | progress
  deriving DecidableEq, Repr

-- Where `ProcessInput` stands.
inductive Point
  | top
  | credit
  | retained
  | pieces (retained : ℕ)
  | measured (available : ℕ)
  | configure (available : ℕ)
  | parse
  | handle (streaming : Bool)
  deriving DecidableEq, Repr

-- How a step of `ProcessInput` ends.
inductive Next
  | returns
  | throws
  | goes (point : Point)
  deriving DecidableEq, Repr

inductive Holder
  | free
  | receiving (rest : Bytes)
  | processing (caller : Caller) (point : Point)
  | processed (rest : Bytes)
  deriving DecidableEq, Repr

-- A thread between an event and the end of its `RequestProgress`.
inductive EventThread
  | idle
  | releasing (generation : ℕ)
  | released
  | notifying
  | queueing
  deriving DecidableEq, Repr

structure State where
  phase : Phase := .http
  input : Bytes := []
  parser : HttpParser
  active : Option ActiveResponse := none
  decision : Option Decision := none
  receivingBody : Bool := false
  body : Option RequestBody := none
  bodies : ℕ := 0
  strays : ℕ := 0
  awaitingCredit : Bool := false
  progressQueued : Bool := false
  receive : Receive := .idle
  paused : Bool := false
  connectionClosed : Bool := false
  stopping : Bool := false
  draining : Bool := false
  holder : Holder := .free
  queue : ℕ := 0
  batch : ℕ := 0
  starting : Bool := false
  threads : ℕ → EventThread := fun _ => .idle
  overflowed : Bool := false

def freshParser (o : HttpServerOptions) : HttpParser := .create o.maxHeaderBytes o.maxStreamedBodyBytes true

def Initial (o : HttpServerOptions) (s : State) : Prop := s = { parser := freshParser o }

-- What `Respond` is asked for and what becomes of its bytes.
structure Answer where
  close : Bool
  serialized : Bool := true
  sent : Bool := true
  deriving DecidableEq, Repr

-- How `HandleRequest`, or a policy that allows the request, goes on.
inductive Handled
  | closed
  | responded (answer : Answer)
  | policy
  | dispatched (sent : Bool)
  | upgraded
  deriving DecidableEq, Repr

-- Everything outside the peer that one step of `ProcessInput` may ask.
structure Choice where
  answer : Answer := ⟨true, true, true⟩
  handled : Handled := .dispatched true
  sent : Bool := true
  streaming : Bool := false
  reserved : Bool := true
  deriving DecidableEq, Repr

namespace State

def pending (s : State) : Bool := s.active.isSome || s.decision.isSome

def finished (s : State) : Bool :=
  match s.active with
  | some (.finished _) => true
  | _ => false

def close (s : State) : State := { s with connectionClosed := true }

def pauseReceive (s : State) : State := if s.connectionClosed then s else { s with paused := true }

def resumeReceive (s : State) : State := if s.connectionClosed then s else { s with paused := false }

def respond (s : State) (answer : Answer) : State :=
  let s := if answer.close || !answer.serialized then { s with phase := .httpClosing } else s
  if answer.sent then s else s.close

def httpError (s : State) (answer : Answer) : State := s.respond { answer with close := true }

def dropBody (s : State) : State :=
  { s with body := none, strays := s.strays + (s.body.elim 0 fun b => b.held.length) }

def endBody (s : State) : State := { s with body := s.body.map fun b => { b with ended := true } }

def cancelActive (s : State) : State :=
  if s.active = some .running then { s with active := some .aborted } else s

/-- What may come of `HandleRequest`. A request with a streamed body already has its handler. -/
def mayHandle (s : State) (streaming : Bool) : Handled → Bool
  | .closed => true
  | .responded answer => !s.stopping && (!streaming || answer.close)
  | .policy => !s.stopping
  | .dispatched _ => !s.stopping
  | .upgraded => !s.stopping && !streaming

/-- `DispatchRequest`. The client of a streamed body may still wait for `100 Continue`; `sent` says that it went out. -/
def dispatchRequest (s : State) (sent : Bool) : State :=
  let s := { s with active := some .running }
  if s.receivingBody then
    let (expected, parser) := s.parser.takeContinue
    let s := { s with parser }
    if expected && !sent then s.close else s
  else s

def handleRequest (s : State) : Handled → State
  | .closed => s.close
  | .responded answer => s.respond answer
  | .policy => { s with decision := some .pending }
  | .dispatched sent => s.dispatchRequest sent
  | .upgraded => ({ s with phase := .webSocket } : State).resumeReceive

def respondAndResume (s : State) (answer : Answer) : State × Bool :=
  let s := s.respond answer
  if answer.close then (s, false) else (s.resumeReceive, true)

def resolvePolicy (s : State) (choice : Choice) : Decision → Option (State × Bool)
  | .pending => some (s, false)
  | .aborted => some (({ s with decision := none } : State).close, false)
  | .rejected =>
    if (s.receivingBody || s.draining) && !choice.answer.close then none
    else some (({ s with decision := none } : State).respondAndResume choice.answer)
  | .allowed =>
    let s := { s with decision := none }
    if s.stopping then some (s.close, false)
    else if !s.mayHandle s.receivingBody choice.handled then none
    else
      match choice.handled with
      | .responded answer => some (s.respondAndResume answer)
      | .policy => some (s.handleRequest .policy, false)
      | handled => some (s.handleRequest handled, true)

def beforeParse (s : State) : State × Next :=
  if !s.receivingBody && s.parser.stage == .headers && s.draining then ({ s with phase := .httpClosing }, .returns)
  else (s, .goes (if s.receivingBody && s.body.isSome then .credit else .parse))

def turn (s : State) (choice : Choice) : Option (State × Next) :=
  if s.phase ≠ .http then some (s, .returns)
  else
    match s.decision with
    | some decision => (s.resolvePolicy choice decision).map fun (s, goes) => (s, if goes then .goes .top else .returns)
    | none =>
      match s.active with
      | none => some s.beforeParse
      | some .aborted => some (s.close, .returns)
      | some .running => some (if s.receivingBody then s.beforeParse else (s, .returns))
      | some (.finished close) =>
        if s.receivingBody then some s.beforeParse
        else if close || s.draining then some ({ s with active := none, phase := .httpClosing }, .returns)
        else some ({ s with active := none } : State).dropBody.resumeReceive.beforeParse

def setCredit (o : HttpServerOptions) (s : State) (credit : ℕ) : State :=
  let s := if credit = 0 then s.pauseReceive else s
  let s := { s with
    parser := (s.parser.configureBody true o.maxStreamedBodyBytes.toNat (min credit o.maxStreamChunkBytes)).2 }
  if credit = 0 then s else s.resumeReceive

def push (s : State) (bytes : Bytes) : State × Next :=
  match s.body with
  | none => (s, .goes .top)
  | some b =>
    if b.ended || bytes.isEmpty then (s, .goes .top)
    else if bytes.length > b.available then (s, .throws)
    else
      ({ s with body := some { b with
        retained := b.retained + bytes.length
        pieces := b.pieces + 1
        held := b.held ++ [bytes.length] } }, .goes .top)

def beginBody (o : HttpServerOptions) (s : State) : State :=
  { s.dropBody with
    body := some { generation := s.bodies, maximum := o.maxRequestBodyBufferBytes }
    bodies := s.bodies + 1
    receivingBody := true }

def takeHeaders (o : HttpServerOptions) (s : State) (choice : Choice) : State × Next :=
  let maximum := if choice.streaming then o.maxStreamedBodyBytes.toNat else o.maxBodyBytes
  let configured := s.parser.configureBody choice.streaming maximum o.maxStreamChunkBytes
  let s := { s with parser := configured.2 }
  if !configured.1 then (s.httpError choice.answer, .returns)
  else if !choice.streaming then (s, .goes .top)
  else if !choice.reserved then (s.httpError choice.answer, .returns)
  else (s.beginBody o, .goes (.handle true))

def takeComplete (o : HttpServerOptions) (s : State) : State × Next :=
  let s := { s with parser := freshParser o }
  if s.receivingBody then (({ s with receivingBody := false } : State).endBody, .goes .top)
  else (s, .goes (.handle false))

def afterParse (o : HttpServerOptions) (s : State) (choice : Choice) (output : HttpRequest) :
    HttpParseKind → State × Next
  | .needMore => (if s.receivingBody && s.finished then s.close else s, .returns)
  | .error => (if s.body.isSome then s.endBody.cancelActive.close else s.httpError choice.answer, .returns)
  | .continue100 => if s.finished || !choice.sent then (s.close, .returns) else (s, .goes .top)
  | .headers => s.takeHeaders o choice
  | .body => s.push output.body
  | .complete => s.takeComplete o

def advance (o : HttpServerOptions) (s : State) (choice : Choice) : Point → Option (State × Next)
  | .top => s.turn choice
  | .credit => some ({ s with awaitingCredit := true }, .goes .retained)
  | .retained => s.body.map fun b => (s, .goes (.pieces b.retained))
  | .pieces retained => s.body.map fun b => (s, .goes (.measured (Web.RequestBody.available b.maximum retained b.pieces)))
  | .measured credit => some (if credit = 0 then s else { s with awaitingCredit := false }, .goes (.configure credit))
  | .configure credit => some (s.setCredit o credit, .goes .parse)
  | .parse =>
    (s.parser.parse s.input {}).map fun (result, c) =>
      ({ s with parser := c.parser, input := c.input } : State).afterParse o choice c.output result.kind
  | .handle streaming =>
    if s.mayHandle streaming choice.handled then some (s.handleRequest choice.handled, .goes .top) else none

/-- The state behind a step of `ProcessInput`; an exception closes the connection and ends its caller. -/
def proceed (s : State) (caller : Caller) : Next → State
  | .goes point => { s with holder := .processing caller point }
  | .returns =>
    match caller with
    | .receive rest => { s with holder := .processed rest }
    | .progress => { s with holder := .free }
  | .throws =>
    match caller with
    | .receive _ => { s.close with holder := .free, receive := .idle }
    | .progress => { s.close with holder := .free }

def process (o : HttpServerOptions) (s : State) (choice : Choice) : Option State :=
  match s.holder with
  | .processing caller point => (s.advance o choice point).map fun (s, next) => s.proceed caller next
  | _ => none

def limit (o : HttpServerOptions) (s : State) : ℕ := if s.pending then o.maxPipelinedBytes else o.maxHeaderBytes.toNat

def leaveReceive (s : State) : State := { s with holder := .free, receive := .idle }

/-- One turn of the loop of `OnBytesReceived`. Frames of a WebSocket are not followed here. -/
def receiveMore (o : HttpServerOptions) (s : State) (answer : Answer) (rest : Bytes) : State :=
  if rest.isEmpty || s.phase ≠ .http then s.leaveReceive
  else if s.input.length ≥ s.limit o then
    let s := { s with overflowed := s.overflowed || s.pending && !s.connectionClosed }
    (if s.active.isSome then s.close else s.httpError answer).leaveReceive
  else
    let count := min rest.length (s.limit o - s.input.length)
    { s with
      input := s.input ++ rest.take count
      holder := .processing (.receive (rest.drop count)) .top }

def checkPause (o : HttpServerOptions) (s : State) (rest : Bytes) : State :=
  let s := { s with holder := .receiving rest }
  if s.pending && s.input.length ≥ o.maxPipelinedBytes - maximumReceiveChunkBytes then s.pauseReceive else s

def setThread (s : State) (t : ℕ) (thread : EventThread) : State :=
  { s with threads := Function.update s.threads t thread }

/-- The progress thread is at none of the calls of `RunProgress` for this peer. -/
def progressResting (s : State) : Bool :=
  !s.starting &&
    match s.holder with
    | .processing .progress _ => false
    | _ => true

def clearRequest (s : State) : State := { s with progressQueued := false, starting := true, batch := s.batch - 1 }

def lockProgress (s : State) : State :=
  { s with starting := false, holder := if s.phase = .http then .processing .progress .top else .free }

def releasePiece (s : State) (t index : ℕ) : Option State :=
  match s.body with
  | none => none
  | some b =>
    match b.held[index]? with
    | none => none
    | some size =>
      some (({ s with body := some { b with retained := b.retained - size, held := b.held.eraseIdx index } } :
        State).setThread t (.releasing b.generation))

def threadStep (s : State) (t : ℕ) : Option State :=
  match s.threads t with
  | .idle => none
  | .releasing generation =>
    some (({ s with body := s.body.map fun b =>
      if b.generation = generation then { b with pieces := b.pieces - 1 } else b } : State).setThread t .released)
  | .released =>
    if s.awaitingCredit then some (({ s with awaitingCredit := false } : State).setThread t .notifying)
    else some (s.setThread t .idle)
  | .notifying =>
    if s.progressQueued then some (s.setThread t .idle)
    else some (({ s with progressQueued := true } : State).setThread t .queueing)
  | .queueing =>
    if s.stopping then some (({ s with progressQueued := false } : State).setThread t .idle)
    else some (({ s with queue := s.queue + 1 } : State).setThread t .idle)

/-- Aborting a pending decision asks for progress, and so does a response that ends before it is cancelled (`late`). -/
def finishDisconnect (o : HttpServerOptions) (s : State) (t : ℕ) (late : Bool) : State :=
  let asks := s.decision = some .pending ∨ late ∧ s.active = some .running
  ({ s.dropBody with active := none, decision := none, input := [], parser := freshParser o } : State).setThread t
    (if asks then .notifying else .idle)

end State

inductive Event
  | startReceive (bytes : Bytes)
  | deliver
  | receiveMore (answer : Answer)
  | checkPause
  | process (choice : Choice)
  | takeBatch
  | clearRequest
  | lockProgress
  | resolve (t : ℕ) (decision : Decision)
  | finish (t : ℕ) (close : Bool)
  | abort
  | releasePiece (t index : ℕ)
  | releaseStray (t : ℕ)
  | threadStep (t : ℕ)
  | requestProgress (t : ℕ)
  | closeConnection
  | disconnect
  | finishDisconnect (t : ℕ) (late : Bool)
  | stop
  | drain
  | closeIdleForDrain
  deriving DecidableEq, Repr

def step (o : HttpServerOptions) (s : State) : Event → Option State
  | .startReceive bytes =>
    if s.receive = .idle ∧ s.paused = false ∧ s.connectionClosed = false ∧ bytes ≠ [] ∧
        bytes.length ≤ maximumReceiveChunkBytes then some { s with receive := .inFlight bytes } else none
  | .deliver =>
    match s.holder, s.receive with
    | .free, .inFlight bytes => some { s with holder := .receiving bytes, receive := .delivering }
    | _, _ => none
  | .receiveMore answer =>
    match s.holder with
    | .receiving rest => some (s.receiveMore o answer rest)
    | _ => none
  | .checkPause =>
    match s.holder with
    | .processed rest => some (s.checkPause o rest)
    | _ => none
  | .process choice => s.process o choice
  | .takeBatch =>
    if s.progressResting ∧ s.batch = 0 then some { s with batch := s.queue, queue := 0 } else none
  | .clearRequest => if s.progressResting ∧ s.batch ≠ 0 then some s.clearRequest else none
  | .lockProgress => if s.starting ∧ s.holder = .free then some s.lockProgress else none
  | .resolve t decision =>
    if s.threads t = .idle ∧ s.decision = some .pending ∧ decision ≠ .pending then
      some (({ s with decision := some decision } : State).setThread t .notifying)
    else none
  | .finish t close =>
    if s.threads t = .idle ∧ s.active = some .running then
      some (({ s with active := some (.finished close) } : State).setThread t .notifying)
    else none
  | .abort => if s.active = some .running then some { s with active := some .aborted } else none
  | .releasePiece t index => if s.threads t = .idle then s.releasePiece t index else none
  | .releaseStray t =>
    if s.threads t = .idle ∧ s.strays ≠ 0 then
      some (({ s with strays := s.strays - 1 } : State).setThread t .released)
    else none
  | .threadStep t => s.threadStep t
  | .requestProgress t =>
    if s.threads t = .idle ∧ s.phase = .webSocket then some (s.setThread t .notifying) else none
  | .closeConnection => some s.close
  | .disconnect => some { s.close with phase := .closed }
  | .finishDisconnect t late =>
    if s.threads t = .idle ∧ s.holder = .free ∧ s.phase = .closed then some (s.finishDisconnect o t late) else none
  | .stop => some { s with stopping := true }
  | .drain => some { s with draining := true }
  | .closeIdleForDrain =>
    if s.holder = .free ∧ s.phase = .http ∧ s.pending = false ∧ s.draining = true then
      some { s with phase := .httpClosing }
    else none

end ServerCore.Web.HttpPeer
