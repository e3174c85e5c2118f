import ServerCore.Core.Status
import ServerCore.Core.Utf8
import ServerCore.Web.HeaderSyntax

/-! The pull parser of `multipart/form-data` bodies. -/

namespace ServerCore.Web.Multipart

open ServerCore.Core

structure Options where
  maxParts : ℕ
  maxFiles : ℕ
  maxHeaders : ℕ
  maxHeaderBytes : ℕ
  maxPartBytes : ℕ
  maxFileBytes : ℕ
  maxTotalBytes : ℕ
  maxRetainedBytes : ℕ
  maxEventBytes : ℕ
  deriving DecidableEq, Repr

inductive EventKind
  | partBegin
  | data
  | partEnd
  deriving DecidableEq, Repr

structure Event where
  kind : EventKind := .partBegin
  partIndex : ℕ := 0
  name : Bytes := []
  filename : Option Bytes := none
  contentType : Bytes := []
  headers : List (Bytes × Bytes) := []
  data : Bytes := []
  deriving DecidableEq, Repr

def metadata (value : Bytes) : Bool :=
  value.all (fun b => !(b < 32 || b == 127)) && isValidUtf8 value

structure Parameterized where
  main : Bytes
  parameters : List (Bytes × Bytes)
  deriving DecidableEq, Repr

def quotedValue : Bytes → Option (Bytes × Bytes)
  | [] => none
  | b :: rest =>
    if b == 34 then some ([], rest)
    else if b == 92 then
      match rest with
      | [] => none
      | escaped :: rest' => (quotedValue rest').map fun v => (escaped :: v.1, v.2)
    else (quotedValue rest).map fun v => (b :: v.1, v.2)

def nextParameter (value rest : Bytes) : Option (Bytes × Bytes) :=
  if (trim rest).isEmpty then none else some (value, rest)

def quotedParameter (quoted : Bytes) : Option (Bytes × Bytes) :=
  match quotedValue quoted with
  | none => none
  | some (value, rest) =>
    match trim rest with
    | [] => some (value, [])
    | b :: rest => if b != 59 then none else nextParameter value rest

def tokenParameter (input : Bytes) : Option (Bytes × Bytes) :=
  let next := find (ascii ";") input
  let token := trim (upTo input next)
  if !isToken token then none
  else
    match next with
    | none => some (token, [])
    | some n => nextParameter token (input.drop (n + 1))

def parameterValue : Bytes → Option (Bytes × Bytes)
  | [] => tokenParameter []
  | b :: rest => if b == 34 then quotedParameter rest else tokenParameter (b :: rest)

-- What stands behind a separator of `width` bytes, nothing where there is none.
def beyond (text : Bytes) (width : ℕ) : Option ℕ → Bytes
  | none => []
  | some n => text.drop (n + width)

def parameterLoop : ℕ → Bytes → List (Bytes × Bytes) → Option (List (Bytes × Bytes))
  | 0, _, _ => none
  | fuel + 1, input, found =>
    if input.isEmpty then some found
    else
      let input := trim input
      match find (ascii "=") input with
      | none => none
      | some equal =>
        let name := (trim (input.take equal)).map lower
        if !isToken name then none
        else if found.any fun entry => entry.1 == name then none
        else
          match parameterValue (trim (input.drop (equal + 1))) with
          | none => none
          | some (value, rest) =>
            if !metadata value then none else parameterLoop fuel rest (found ++ [(name, value)])

def parameters (input : Bytes) : Option Parameterized :=
  let semicolon := find (ascii ";") input
  let rest := beyond input 1 semicolon
  (parameterLoop (rest.length + 1) rest []).map fun found =>
    ⟨(trim (upTo input semicolon)).map lower, found⟩

def isBoundaryByte (b : Byte) : Bool :=
  (97 ≤ b && b ≤ 122) || (65 ≤ b && b ≤ 90) || isDigit b || (ascii "'()+_,-./:=? ").contains b

def boundary (value : Bytes) : Bool :=
  !value.isEmpty && value.length ≤ 70 && value.getLast? != some 32 && value.all isBoundaryByte

inductive Phase
  | initial
  | headers
  | body
  | epilogue
  | done
  deriving DecidableEq, Repr

inductive Suffix
  | more
  | invalid
  | normal (length : ℕ)
  | final (length : ℕ)
  deriving DecidableEq, Repr

structure State where
  options : Options
  marker : Bytes
  delimiter : Bytes
  buffer : Bytes := []
  credit : ℕ := 0
  phase : Phase := .initial
  error : Option ErrorCode := none
  eof : Bool := false
  initialStart : Bool := true
  file : Bool := false
  total : ℕ := 0
  partBytes : ℕ := 0
  part : ℕ := 0
  files : ℕ := 0
  deriving DecidableEq, Repr

def State.fresh (boundary : Bytes) (options : Options) : State where
  options := options
  marker := ascii "--" ++ boundary
  delimiter := crlf ++ (ascii "--" ++ boundary)

def State.retained (s : State) : ℕ := s.buffer.length + s.credit

def State.failWith (s : State) (code : ErrorCode) : State := { s with error := some code, buffer := [] }

def paddingSuffix (limit : ℕ) (eof final : Bool) (pos : ℕ) (text : Bytes) : Suffix :=
  let pos := pos + (text.takeWhile isBlank).length
  if limit < pos then .invalid
  else
    match text.dropWhile isBlank with
    | [] => if final && eof then .final pos else .more
    | b :: rest =>
      if b != 13 then .invalid
      else
        match rest with
        | [] => .more
        | c :: _ => if c != 10 then .invalid else if final then .final (pos + 2) else .normal (pos + 2)

def delimiterSuffix (limit : ℕ) (eof : Bool) : Bytes → Suffix
  | [] => paddingSuffix limit eof false 0 []
  | b :: rest =>
    if b == 45 then
      match rest with
      | [] => .more
      | c :: rest => if c != 45 then .invalid else paddingSuffix limit eof true 2 rest
    else paddingSuffix limit eof false 0 (b :: rest)

inductive ReadResult
  | null
  | event (event : Event)
  | error (code : ErrorCode)
  deriving DecidableEq, Repr

def Event.bytes (event : Event) : ℕ :=
  event.data.length + event.name.length + event.contentType.length + (event.filename.getD []).length +
    (event.headers.map fun h => h.1.length + h.2.length).sum

-- `Event`: the charge of an event is returned when the caller releases it.
def State.deliver (s : State) (event : Event) (consumed : ℕ) : State × ReadResult :=
  let bytes := event.bytes
  if bytes > s.options.maxRetainedBytes then (s.failWith .tooLarge, .error .tooLarge)
  else if bytes > sizeSub (sizeSub s.options.maxRetainedBytes s.credit) (sizeSub s.buffer.length consumed) then
    (s, .error .wouldBlock)
  else ({ s with credit := s.credit + bytes, buffer := s.buffer.drop consumed }, .event event)

def ReadResult.isOk : ReadResult → Bool
  | .error _ => false
  | _ => true

def State.limit (s : State) : ℕ := if s.file then s.options.maxFileBytes else s.options.maxPartBytes

def State.data (s : State) (count : ℕ) : State × ReadResult :=
  let count := min count s.options.maxEventBytes
  if count > sizeSub s.limit s.partBytes then (s.failWith .tooLarge, .error .tooLarge)
  else
    let result := s.deliver { kind := .data, partIndex := s.part, data := s.buffer.take count } count
    if result.2.isOk then ({ result.1 with partBytes := result.1.partBytes + count }, result.2) else result

structure HeaderState where
  event : Event
  disposition : Bool := false
  contentType : Bool := false

def formParameter (event : Event × Bool) (parameter : Bytes × Bytes) : Option (Event × Bool) :=
  if parameter.1 == ascii "name" then some ({ event.1 with name := parameter.2 }, true)
  else if parameter.1 == ascii "filename" then some ({ event.1 with filename := some parameter.2 }, event.2)
  else if parameter.1 == ascii "filename*" then none
  else some event

def formData (event : Event) (value : Bytes) : Option Event :=
  match parameters value with
  | none => none
  | some parsed =>
    if parsed.main != ascii "form-data" then none
    else
      match parsed.parameters.foldlM formParameter (event, false) with
      | none => none
      | some (event, named) => if named then some event else none

def headerField (maxHeaders : ℕ) (s : HeaderState) (name value : Bytes) : Except ErrorCode HeaderState :=
  let add (s : HeaderState) : HeaderState :=
    { s with event := { s.event with headers := s.event.headers ++ [(name, value)] } }
  if s.event.headers.length = maxHeaders then .error .tooLarge
  else if name == ascii "content-disposition" then
    if s.disposition then .error .invalidFormat
    else
      match formData s.event value with
      | none => .error .invalidFormat
      | some event => .ok (add { s with disposition := true, event := event })
  else if name == ascii "content-type" then
    if s.contentType then .error .invalidFormat
    else .ok (add { s with contentType := true, event := { s.event with contentType := value } })
  else if name == ascii "content-transfer-encoding" then .error .invalidFormat
  else .ok (add s)

def headerLines (maxHeaders : ℕ) : ℕ → Bytes → HeaderState → Except ErrorCode HeaderState
  | 0, _, s => .ok s
  | fuel + 1, block, s =>
    if block.isEmpty then .ok s
    else
      let lineEnd := find crlf block
      let rest := beyond block 2 lineEnd
      match parseHeader (upTo block lineEnd) with
      | none => .error .invalidFormat
      | some (name, value) => (headerField maxHeaders s name value).bind (headerLines maxHeaders fuel rest)

def State.headers (s : State) (block : Bytes) : Except ErrorCode Event :=
  match headerLines s.options.maxHeaders block.length block { event := { partIndex := s.part + 1 } } with
  | .error code => .error code
  | .ok parsed => if parsed.disposition then .ok parsed.event else .error .invalidFormat

-- How one turn of `Read` ends: the calls of `Data` and `Event` all stand in return position.
inductive Exit
  | null
  | wait
  | more
  | fail (code : ErrorCode)
  | data (count : ℕ)
  | partBegin (event : Event) (consumed : ℕ)
  | partEnd (final : Bool) (consumed : ℕ)
  deriving DecidableEq, Repr

inductive Found
  | stop
  | data (count : ℕ)
  | delimiter (final : Bool) (consumed : ℕ)
  deriving DecidableEq, Repr

def findFrom (pattern text : Bytes) (position : ℕ) : Option ℕ := (find pattern (text.drop position)).map (· + position)

def State.waits (s : State) (initial : Bool) : Bool :=
  initial && s.initialStart && s.buffer.length < s.marker.length && startsWith s.marker s.buffer

def State.candidate (s : State) (initial : Bool) (position : ℕ) : Option (ℕ × ℕ) :=
  if initial && s.initialStart && startsWith s.buffer s.marker then some (0, s.marker.length)
  else (findFrom s.delimiter s.buffer position).map fun offset => (offset, s.delimiter.length)

def State.suffixAt (s : State) (offset : ℕ) : Suffix :=
  delimiterSuffix s.options.maxHeaderBytes s.eof (s.buffer.drop offset)

def State.keep (s : State) : ℕ := s.delimiter.length + 2

def State.skipPreamble (s : State) (count : ℕ) : State :=
  { s with buffer := s.buffer.drop count, initialStart := false }

def State.search (initial : Bool) : ℕ → State → ℕ → State × Found
  | 0, s, _ => (s, .stop)
  | fuel + 1, s, position =>
    if s.waits initial then (s, .stop)
    else
      match s.candidate initial position with
      | none =>
        if s.buffer.length > s.keep then
          let discard := s.buffer.length - s.keep
          if initial then (s.skipPreamble discard, .stop) else (s, .data discard)
        else (s, .stop)
      | some (offset, markerSize) =>
        match s.suffixAt (offset + markerSize) with
        | .invalid =>
          let s' := if initial && s.initialStart && offset == 0 then { s with initialStart := false } else s
          State.search initial fuel s' (offset + 1)
        | suffix =>
          if offset != 0 then
            if initial then State.search initial fuel (s.skipPreamble offset) position else (s, .data offset)
          else
            match suffix with
            | .normal length => (s, .delimiter false (markerSize + length))
            | .final length => (s, .delimiter true (markerSize + length))
            | _ => (s, .stop)

-- A turn moves the search on, shortens the buffer or clears `initialStart`.
def State.searchFuel (s : State) : ℕ := 3 * s.buffer.length + 4

def State.scanHeaders (s : State) : State × Exit :=
  match find (crlf ++ crlf) s.buffer with
  | none => if s.buffer.length > s.options.maxHeaderBytes then (s, .fail .tooLarge) else (s, .more)
  | some length =>
    if length + 4 > s.options.maxHeaderBytes then (s, .fail .tooLarge)
    else if s.part = s.options.maxParts then (s, .fail .tooLarge)
    else
      match s.headers (s.buffer.take length) with
      | .error code => (s, .fail code)
      | .ok event =>
        if event.filename.isSome && s.files = s.options.maxFiles then (s, .fail .tooLarge)
        else (s, .partBegin event (length + 4))

def State.scanEpilogue (s : State) : State × Exit :=
  let s := { s with buffer := [] }
  if s.eof then ({ s with phase := .done }, .null) else (s, .wait)

def State.scanBody (s : State) : State × Exit :=
  match s.search false s.searchFuel 0 with
  | (s, .stop) => (s, .more)
  | (s, .data count) => (s, .data count)
  | (s, .delimiter final consumed) => (s, .partEnd final consumed)

def afterDelimiter (final : Bool) : Phase := if final then .epilogue else .headers

def State.scan (s : State) : State × Exit :=
  match s.phase with
  | .done => (s, .null)
  | .epilogue => s.scanEpilogue
  | .headers => s.scanHeaders
  | .body => s.scanBody
  | .initial =>
    match s.search true s.searchFuel 0 with
    | (s, .delimiter final consumed) =>
      let s : State := { s.skipPreamble consumed with phase := afterDelimiter final }
      if final then s.scanEpilogue else s.scanHeaders
    | (s, _) => (s, .more)

def State.conclude (s : State) : Exit → State × ReadResult
  | .null => (s, .null)
  | .wait => (s, .error .wouldBlock)
  | .more => if s.eof then (s.failWith .invalidFormat, .error .invalidFormat) else (s, .error .wouldBlock)
  | .fail code => (s.failWith code, .error code)
  | .data count => s.data count
  | .partBegin event consumed =>
    let result := s.deliver event consumed
    if result.2.isOk then
      let file := event.filename.isSome
      let files := if file then s.files + 1 else s.files
      ({ result.1 with part := s.part + 1, file := file, files := files, partBytes := 0, phase := .body }, result.2)
    else result
  | .partEnd final consumed =>
    let result := s.deliver { kind := .partEnd, partIndex := s.part } consumed
    if result.2.isOk then ({ result.1 with phase := afterDelimiter final }, result.2) else result

def State.read (s : State) : State × ReadResult :=
  match s.error with
  | some code => (s, .error code)
  | none => s.scan.1.conclude s.scan.2

def State.inputLimit (s : State) : ℕ := sizeSub s.options.maxRetainedBytes s.options.maxHeaderBytes

def State.feed (s : State) (bytes : Bytes) : State × Except ErrorCode ℕ :=
  match s.error with
  | some code => (s, .error code)
  | none =>
    if s.eof then (s, .error .closed)
    else if bytes.isEmpty then (s, .ok 0)
    else if bytes.length > sizeSub s.options.maxTotalBytes s.total then (s.failWith .tooLarge, .error .tooLarge)
    else
      let count := min (min bytes.length (sizeSub s.options.maxRetainedBytes s.retained))
        (sizeSub s.inputLimit s.buffer.length)
      if count = 0 then (s, .error .wouldBlock)
      else ({ s with buffer := s.buffer ++ bytes.take count, total := s.total + count }, .ok count)

def State.finish (s : State) : State × Option ErrorCode :=
  match s.error with
  | some code => (s, some code)
  | none => ({ s with eof := true }, none)

def State.cancel (s : State) : State :=
  if s.phase != .done && s.error.isNone then s.failWith .cancelled else s

def State.release (s : State) (bytes : ℕ) : State := { s with credit := s.credit - bytes }

def Options.valid (o : Options) : Bool :=
  !(o.maxParts = 0 || o.maxFiles = 0 || o.maxHeaders = 0 || o.maxHeaderBytes = 0 || o.maxPartBytes = 0 ||
    o.maxFileBytes = 0 || o.maxTotalBytes = 0 || o.maxEventBytes = 0 || o.maxEventBytes > o.maxRetainedBytes ||
    o.maxHeaderBytes > (sizeModulus - 1 - 80) / 2 || o.maxRetainedBytes < o.maxHeaderBytes * 2 + 80)

def create (contentType : Bytes) (options : Options) : Except ErrorCode State :=
  if !options.valid then .error .invalidArgument
  else if contentType.length > options.maxHeaderBytes then .error .tooLarge
  else
    match parameters contentType with
    | none => .error .invalidFormat
    | some parsed =>
      if parsed.main != ascii "multipart/form-data" then .error .invalidFormat
      else
        let value := parsed.parameters.foldl
          (fun value entry => if entry.1 == ascii "boundary" then entry.2 else value) []
        if !boundary value then .error .invalidFormat else .ok (.fresh value options)

end ServerCore.Web.Multipart
