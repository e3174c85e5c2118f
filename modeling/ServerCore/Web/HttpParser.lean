import ServerCore.Web.HeaderSyntax

/-! The incremental HTTP/1.x request parser: its state, the header block and the
six stages of the `Advance` loop. -/

namespace ServerCore.Web

open ServerCore.Core

structure HttpRequest where
  method : Bytes := []
  target : Bytes := []
  headers : List (Bytes × Bytes) := []
  body : Bytes := []
  deriving DecidableEq, Repr

inductive Stage
  | headers
  | fixedBody
  | chunkSize
  | chunkData
  | chunkEnd
  | trailers
  | failed
  deriving DecidableEq, Repr

inductive HttpParseKind
  | needMore
  | continue100
  | complete
  | error
  | headers
  | body
  deriving DecidableEq, Repr

structure HttpParseResult where
  kind : HttpParseKind := .needMore
  status : ℕ := 400
  deriving DecidableEq, Repr

structure HttpParser where
  stage : Stage := .headers
  maxHeaders : ℕ
  maxBody : ℕ
  remaining : ℕ := 0
  chunkOverhead : ℕ := 0
  trailerBytes : ℕ := 0
  headerSearch : ℕ := 0
  expectsContinue : Bool := false
  headRequest : Bool := false
  http10 : Bool := false
  separateHeaders : Bool := false
  streaming : Bool := false
  bodyBytes : ℕ := 0
  maxChunk : ℕ := 0
  request : HttpRequest := {}
  deriving DecidableEq, Repr

namespace HttpParser

/-- A freshly constructed parser. The limits are `std::size_t` values. -/
def create (maxHeaders maxBody : UInt64) (separateHeaders : Bool) : HttpParser where
  maxHeaders := maxHeaders.toNat
  maxBody := maxBody.toNat
  separateHeaders := separateHeaders

def configureBody (p : HttpParser) (streaming : Bool) (maxBody maxChunk : ℕ) : Bool × HttpParser :=
  ((streaming || maxChunk != 0) && p.remaining ≤ maxBody,
    { p with streaming := streaming, maxBody := maxBody, maxChunk := maxChunk })

def takeContinue (p : HttpParser) : Bool × HttpParser := (p.expectsContinue, { p with expectsContinue := false })

/-- The state `Complete` leaves behind once the request has been handed out. -/
def completed (p : HttpParser) : HttpParser :=
  { p with
    request := {}
    stage := .headers
    remaining := 0
    chunkOverhead := 0
    trailerBytes := 0
    headerSearch := 0
    expectsContinue := false
    headRequest := false
    bodyBytes := 0 }

def headerLines : Bytes → Bytes → List Bytes
  | line, [] => if line.isEmpty then [] else [line.reverse]
  | line, 13 :: 10 :: rest => line.reverse :: headerLines [] rest
  | line, b :: rest => headerLines (b :: line) rest

/-- The members of the parser that `ParseHeaders` reads and writes. -/
structure Head where
  request : HttpRequest
  remaining : ℕ
  http10 : Bool
  expectsContinue : Bool
  stage : Stage

def head (p : HttpParser) : Head where
  request := p.request
  remaining := p.remaining
  http10 := p.http10
  expectsContinue := p.expectsContinue
  stage := p.stage

def withHead (p : HttpParser) (h : Head) : HttpParser :=
  { p with
    request := h.request
    remaining := h.remaining
    http10 := h.http10
    expectsContinue := h.expectsContinue
    stage := h.stage }

structure HeaderFlags where
  haveHost : Bool := false
  haveLength : Bool := false
  haveTransfer : Bool := false
  haveExpect : Bool := false
  transferFailure : ℕ := 0

abbrev Attempt := Except (ℕ × Head)

def transferStatus (value : Bytes) : ℕ :=
  let chunked := (listElements value).map fun coding => equalInsensitive coding (ascii "chunked")
  if chunked.count true = 1 && chunked.getLast? == some true then 501 else 400

def parseHeaderField (maxBody : ℕ) (h : Head) (flags : HeaderFlags) (name value : Bytes) :
    Attempt (Head × HeaderFlags) :=
  if name = ascii "host" then
    if flags.haveHost || value.isEmpty || value.any (fun b => (ascii " \t,/@?#\\").contains b) then
      .error (400, h)
    else .ok (h, { flags with haveHost := true })
  else if name = ascii "content-length" then
    if flags.haveLength || value.isEmpty || !value.all isDigit then .error (400, h)
    else
      match fromCharsSize 10 hexDigit value with
      | none => .error (413, h)
      | some n =>
        if n > maxBody then .error (413, { h with remaining := n })
        else .ok ({ h with remaining := n }, { flags with haveLength := true })
  else if name = ascii "transfer-encoding" then
    if flags.haveTransfer || !tokenList value false then .error (400, h)
    else if equalInsensitive value (ascii "chunked") then
      .ok (h, { flags with haveTransfer := true })
    else .ok (h, { flags with haveTransfer := true, transferFailure := transferStatus value })
  else if name = ascii "connection" then
    if !tokenList value true then .error (400, h) else .ok (h, flags)
  else if name = ascii "upgrade" then
    if !upgradeProtocols value then .error (400, h) else .ok (h, flags)
  else if name = ascii "expect" then
    if flags.haveExpect || !equalInsensitive value (ascii "100-continue") then .error (417, h)
    else .ok (h, { flags with haveExpect := true })
  else .ok (h, flags)

def parseHeaderLines (maxBody : ℕ) :
    Head → HeaderFlags → List Bytes → Attempt (Head × HeaderFlags)
  | h, flags, [] => .ok (h, flags)
  | h, flags, line :: lines =>
    match parseHeader line with
    | none => .error (400, h)
    | some (name, value) =>
      if h.request.headers.length ≥ 128 then .error (400, h)
      else
        match parseHeaderField maxBody h flags name value with
        | .error e => .error e
        | .ok (h, flags) =>
          parseHeaderLines maxBody
            { h with request := { h.request with headers := h.request.headers ++ [(name, value)] } }
            flags lines

def splitTarget (target : Bytes) : Option (Bytes × Bytes) :=
  if !target.isEmpty && !startsWith target (ascii "/") && target != ascii "*" then
    match find (ascii "://") target with
    | none => none
    | some separator =>
      let scheme := target.take separator
      if !equalInsensitive scheme (ascii "http") && !equalInsensitive scheme (ascii "https") then none
      else
        let rest := target.drop (separator + 3)
        let pathStart := findFirst (fun b => b == 47 || b == 63) rest
        let authority := upTo rest pathStart
        if authority.isEmpty || authority.any (fun b => (ascii ",@\\").contains b) then none
        else
          let path := match pathStart with
            | some n => rest.drop n
            | none => []
          some (authority, if startsWith path (ascii "/") then path else ascii "/" ++ path)
  else if target.isEmpty then none
  else some ([], target)

/-- The `host` field takes the authority of an absolute-form target. -/
def setHost (authority : Bytes) (headers : List (Bytes × Bytes)) : List (Bytes × Bytes) :=
  match headers.findIdx? (fun field => field.1 == ascii "host") with
  | some n => headers.modify n fun field => (field.1, authority)
  | none => headers ++ [(ascii "host", authority)]

def parseRequestLine (h : Head) (line : Bytes) : Attempt (Head × Bytes) :=
  match find (ascii " ") line with
  | none => .error (400, h)
  | some firstSpace =>
    match (find (ascii " ") (line.drop (firstSpace + 1))).map (· + (firstSpace + 1)) with
    | none => .error (400, h)
    | some secondSpace =>
      let method := line.take firstSpace
      let version := line.drop (secondSpace + 1)
      if (find (ascii " ") version).isSome || !isToken method then .error (400, h)
      else if version ≠ ascii "HTTP/1.1" ∧ version ≠ ascii "HTTP/1.0" then .error (505, h)
      else
        let h := { h with http10 := version == ascii "HTTP/1.0" }
        let target := (line.drop (firstSpace + 1)).take (secondSpace - firstSpace - 1)
        if target.any (fun b => b < 33 || 127 ≤ b || b == 35) then .error (400, h)
        else
          match splitTarget target with
          | none => .error (400, h)
          | some (authority, target) =>
            .ok ({ h with request := { h.request with target := target, method := method } }, authority)

def finishHeaders (h : Head) (flags : HeaderFlags) (authority : Bytes) : Attempt Head :=
  if (!flags.haveHost && !h.http10) || (flags.haveLength && flags.haveTransfer) ||
      (h.http10 && flags.haveTransfer) then .error (400, h)
  else if flags.transferFailure ≠ 0 then .error (flags.transferFailure, h)
  else
    let headers := if authority.isEmpty then h.request.headers else setHost authority h.request.headers
    .ok { h with
      request := { h.request with headers := headers }
      stage := if flags.haveTransfer then .chunkSize else .fixedBody
      expectsContinue := flags.haveExpect && !h.http10 && (flags.haveTransfer || h.remaining != 0) }

def parseHeaders (maxBody : ℕ) (h : Head) (block : Bytes) : Attempt Head :=
  match find crlf block with
  | none => .error (400, h)
  | some lineEnd =>
    match parseRequestLine h (block.take lineEnd) with
    | .error e => .error e
    | .ok (h, authority) =>
      match parseHeaderLines maxBody h {} (headerLines [] (block.drop (lineEnd + 2))) with
      | .error e => .error e
      | .ok (h, flags) => finishHeaders h flags authority

/-- The result of the header scan: an unpaired CR or LF, the offset of the closing blank line,
or neither so far. -/
inductive Scan
  | bad
  | found (blank : ℕ)
  | none
  deriving DecidableEq

def scanHeaders (input : Bytes) : ℕ → ℕ → Scan
  | _, 0 => .none
  | index, count + 1 =>
    let afterCr := index != 0 && input[index - 1]? == some 13
    if input[index]? == some 10 then
      if !afterCr then .bad
      else if index ≥ 3 && input[index - 2]? == some 10 then .found (index - 3)
      else scanHeaders input (index + 1) count
    else if afterCr then .bad
    else scanHeaders input (index + 1) count

def skipEmptyLines : Bytes → Bytes
  | 13 :: 10 :: rest => skipEmptyLines rest
  | input => input

structure Cursor where
  parser : HttpParser
  input : Bytes
  output : HttpRequest

/-- How a block of the loop body leaves: by `return`, into the next block, or by `continue`. -/
inductive Flow
  | ret (result : HttpParseResult) (c : Cursor)
  | next (c : Cursor)
  | again (c : Cursor)

def Flow.andThen : Flow → (Cursor → Flow) → Flow
  | .next c, f => f c
  | flow, _ => flow

def fail (c : Cursor) (p : HttpParser) (status : ℕ) : Flow :=
  .ret ⟨.error, status⟩ { c with parser := { p with stage := .failed } }

def complete (c : Cursor) (p : HttpParser) (input : Bytes) : Flow :=
  .ret ⟨.complete, 200⟩ { c with parser := p.completed, input := input, output := p.request }

def failedBlock (c : Cursor) : Flow :=
  if c.parser.stage = .failed then .ret ⟨.error, 400⟩ c else .next c

def headersScanned (c : Cursor) : Flow :=
  let p := { c.parser with headRequest := startsWith c.input (ascii "HEAD ") }
  match scanHeaders c.input p.headerSearch (c.input.length - p.headerSearch) with
  | .bad => fail c p 400
  | .none =>
    if c.input.length ≥ p.maxHeaders then fail c p 431
    else .ret {} { c with parser := { p with headerSearch := c.input.length } }
  | .found blank =>
    if blank + 4 > p.maxHeaders then fail c p 431
    else
      match parseHeaders p.maxBody p.head (c.input.take (blank + 2)) with
      | .error (status, h) => fail c (p.withHead h) status
      | .ok h =>
        let p := p.withHead h
        let input := c.input.drop (blank + 4)
        if p.separateHeaders then
          .ret ⟨.headers, 200⟩ { parser := { p with request := {} }, input := input, output := p.request }
        else .next { c with parser := p, input := input }

def headersBlock (c : Cursor) : Flow :=
  if c.parser.stage ≠ .headers then .next c
  else if c.parser.headerSearch = 0 then
    let input := skipEmptyLines c.input
    if input = [13] then .ret {} { c with input := input }
    else headersScanned { c with input := input }
  else headersScanned c

def continueBlock (c : Cursor) : Flow :=
  if c.parser.expectsContinue then
    .ret ⟨.continue100, 100⟩ { c with parser := { c.parser with expectsContinue := false } }
  else .next c

def takeCount (p : HttpParser) (input : Bytes) : ℕ :=
  min (min input.length p.remaining) (if p.streaming then p.maxChunk else p.remaining)

def takeBody (c : Cursor) : Cursor :=
  let count := takeCount c.parser c.input
  { c with
    parser := { c.parser with
      request := { c.parser.request with body := c.parser.request.body ++ c.input.take count }
      remaining := c.parser.remaining - count
      bodyBytes := c.parser.bodyBytes + count }
    input := c.input.drop count }

/-- In streaming mode the bytes taken leave at once as a `Body` event. -/
def emitBody (c : Cursor) : Flow :=
  .ret ⟨.body, 200⟩ { c with
    parser := { c.parser with request := { c.parser.request with body := [] } }
    output := { c.output with body := c.parser.request.body } }

def fixedBodyBlock (c : Cursor) : Flow :=
  if c.parser.stage ≠ .fixedBody then .next c
  else
    let c' := takeBody c
    if c.parser.streaming && takeCount c.parser c.input != 0 then emitBody c'
    else if c'.parser.remaining = 0 then complete c' c'.parser c'.input
    else .ret {} c'

inductive LineRead
  | wait
  | tooLong
  | line (length : ℕ)

def readLine (limit : ℕ) (input : Bytes) : LineRead :=
  match find crlf input with
  | none => if input.length > limit then .tooLong else .wait
  | some lineEnd => if lineEnd + 2 > limit then .tooLong else .line lineEnd

def chunkLength (line : Bytes) : Except ℕ ℕ :=
  let hexEnd := findFirst (fun b => !isHexDigit b) line
  let digits := upTo line hexEnd
  let extensions := match hexEnd with
    | some n => validChunkExtensions (line.drop n)
    | none => true
  if digits.isEmpty || !extensions then .error 400
  else
    match fromCharsSize 16 hexDigit digits with
    | none => .error 413
    | some n => .ok n

def chunkSizeLine (p : HttpParser) (line : Bytes) : Except (ℕ × HttpParser) HttpParser :=
  match chunkLength line with
  | .error status => .error (status, p)
  | .ok n =>
    if n > sizeSub p.maxBody p.bodyBytes then .error (413, { p with remaining := n })
    else
      .ok { p with
        remaining := n
        chunkOverhead := p.chunkOverhead + (line.length + 2)
        stage := if n = 0 then .trailers else .chunkData }

def chunkSizeBlock (c : Cursor) : Flow :=
  let p := c.parser
  if p.stage ≠ .chunkSize then .next c
  else
    match readLine (sizeSub p.maxHeaders p.chunkOverhead) c.input with
    | .wait => .ret {} c
    | .tooLong => fail c p 431
    | .line lineEnd =>
      match chunkSizeLine p (c.input.take lineEnd) with
      | .error (status, p) => fail c p status
      | .ok p => .next { c with parser := p, input := c.input.drop (lineEnd + 2) }

def chunkDataBlock (c : Cursor) : Flow :=
  if c.parser.stage ≠ .chunkData then .next c
  else
    let c' := takeBody c
    let ended := { c' with parser := { c'.parser with stage := .chunkEnd } }
    if c.parser.streaming && takeCount c.parser c.input != 0 then
      emitBody (if c'.parser.remaining = 0 then ended else c')
    else if c'.parser.remaining ≠ 0 then .ret {} c'
    else .next ended

def chunkEndBlock (c : Cursor) : Flow :=
  let p := c.parser
  if p.stage ≠ .chunkEnd then .next c
  else if c.input.length < 2 then .ret {} c
  else if !startsWith c.input crlf then fail c p 400
  else if p.chunkOverhead > sizeSub p.maxHeaders 2 then fail c p 431
  else
    .again { c with
      parser := { p with
        chunkOverhead := if p.streaming then 0 else p.chunkOverhead + 2
        stage := .chunkSize }
      input := c.input.drop 2 }

def validTrailer (line : Bytes) : Bool :=
  match parseHeader line with
  | none => false
  | some (name, _) => !forbiddenTrailer name

def trailersBlock (c : Cursor) : Flow :=
  let p := c.parser
  if p.stage ≠ .trailers then .next c
  else
    match readLine (sizeSub p.maxHeaders p.trailerBytes) c.input with
    | .wait => .ret {} c
    | .tooLong => fail c p 431
    | .line lineEnd =>
      let p := { p with trailerBytes := p.trailerBytes + (lineEnd + 2) }
      if lineEnd = 0 then complete c p (c.input.drop 2)
      else if !validTrailer (c.input.take lineEnd) then fail c p 400
      else .next { c with parser := p, input := c.input.drop (lineEnd + 2) }

/-- One turn of the `Advance` loop: each block falls through to the one after it. -/
def advanceBody (c : Cursor) : Flow :=
  (failedBlock c).andThen fun c => (headersBlock c).andThen fun c => (continueBlock c).andThen fun c =>
    (fixedBodyBlock c).andThen fun c => (chunkSizeBlock c).andThen fun c =>
      (chunkDataBlock c).andThen fun c => (chunkEndBlock c).andThen trailersBlock

def advance : ℕ → Cursor → Option (HttpParseResult × Cursor)
  | 0, _ => none
  | fuel + 1, c =>
    match advanceBody c with
    | .ret result c => some (result, c)
    | .next c => advance fuel c
    | .again c => advance fuel c

/-- `Parse`. A turn of the loop that does not return consumes input or moves on to a later
stage, which bounds the turns. -/
def parse (p : HttpParser) (input : Bytes) (output : HttpRequest) :
    Option (HttpParseResult × Cursor) :=
  advance (3 * input.length + 4) ⟨p, input, output⟩

end HttpParser

end ServerCore.Web
