import ServerCore.Foundations.Slots
import ServerCore.Observability.LogLine

/-! `AsyncLogger` with its file: the queue, the worker and the rotation. The calls of the file system are numbered,
and a pattern says which of them fail. -/

namespace ServerCore.Observability.AsyncLogger

open ServerCore.Core ServerCore.Core.LogRecord ServerCore.Foundations

/-- The files of a logger: `file`, `Pending()` and `Rotated(index)`. -/
inductive Name
  | active
  | pending
  | rotated (index : ℕ)
  deriving DecidableEq, Repr

abbrev Files := Name → Option Bytes

inductive Operation
  | absolute
  | exists (name : Name)
  | rename (a b : Name)
  | remove (name : Name)
  | openFile
  | fileSize
  | write
  | close
  | console
  deriving DecidableEq, Repr

/-- One call of the file system, for the history: the files before and after it, and all text written by then. -/
structure Event where
  operation : Operation
  before : Files
  after : Files
  output : Bytes

/-- A line given to the stream while it was open and good, what of it reached the file, and how many times a file had
been opened by then. Of `again` are the bytes that a close has written. -/
structure Chunk where
  line : Bytes
  text : Bytes
  failed : Bool
  opening : ℕ
  again : Bool := false

/-- A call that fails. A write leaves `count` bytes in the file, and the stream keeps its bytes from `kept` on. -/
structure Fault where
  count : ℕ := 0
  kept : ℕ := 0

/-- The files, and which of the calls to come fail. -/
structure Disk where
  files : Files
  faults : ℕ → Option Fault
  calls : ℕ := 0
  chunks : List Chunk := []
  openings : ℕ := 0
  trace : List Event := []

namespace Disk

def fault (d : Disk) : Option Fault := d.faults d.calls

def output (d : Disk) : Bytes := d.chunks.flatMap Chunk.text

def done (d : Disk) (operation : Operation) (files : Files) (text : Bytes) : Disk :=
  { d with
    files := files, calls := d.calls + 1, trace := d.trace ++ [⟨operation, d.files, files, d.output ++ text⟩] }

def exists? (d : Disk) (name : Name) : Option Bool × Disk :=
  (if d.fault.isSome then none else some (d.files name).isSome, d.done (.exists name) d.files [])

def rename (d : Disk) (a b : Name) : Bool × Disk :=
  if d.fault.isSome ∨ d.files a = none then (false, d.done (.rename a b) d.files [])
  else (true, d.done (.rename a b) (Slots.move d.files a b) [])

def remove (d : Disk) (name : Name) : Bool × Disk :=
  if d.fault.isSome then (false, d.done (.remove name) d.files [])
  else (true, d.done (.remove name) (Function.update d.files name none) [])

def openActive (d : Disk) (truncate : Bool) : Bool × Disk :=
  let d := { d with openings := d.openings + 1 }
  if d.fault.isSome then (false, d.done .openFile d.files [])
  else
    let content := if truncate then [] else (d.files .active).getD []
    (true, d.done .openFile (Function.update d.files .active (some content)) [])

def fileSize (d : Disk) : Option ℕ × Disk :=
  (if d.fault.isSome then none else (d.files .active).map List.length, d.done .fileSize d.files [])

def written (d : Disk) (line : Bytes) : Bytes :=
  match d.fault with
  | none => line
  | some fault => line.take fault.count

/-- What the stream keeps of a line that it is to write now. -/
def kept (d : Disk) (line : Bytes) : Bytes :=
  match d.fault with
  | none => []
  | some fault => line.drop fault.kept

def extend (d : Disk) (operation : Operation) (line : Bytes) : Bool × Disk :=
  let text := d.written line
  let files := Function.update d.files .active (some ((d.files .active).getD [] ++ text))
  (d.fault.isNone, { d.done operation files text with
    chunks := d.chunks ++ [⟨line, text, d.fault.isSome, d.openings, decide (operation = .close)⟩] })

end Disk

structure Options where
  minimumLevel : LogLevel := .info
  console : Bool := true
  file : Bytes := []
  maxQueuedMessages : ℕ := 1024
  maxRetainedBytes : ℕ := 1024 * 1024
  maxMessageBytes : ℕ := 4096
  maxFileBytes : ℕ := 10 * 1024 * 1024
  retainedFiles : ℕ := 3

def Options.valid (value : Options) : Bool :=
  !((!value.console && value.file.isEmpty) || value.maxQueuedMessages == 0 || value.maxRetainedBytes == 0 ||
    value.maxMessageBytes == 0 || decide (value.maxMessageBytes > value.maxRetainedBytes) ||
    decide (value.retainedFiles > 100) ||
    (!value.file.isEmpty && (decide (value.maxFileBytes < 128) || value.retainedFiles == 0 ||
      decide (value.maxMessageBytes > (value.maxFileBytes - 80) / 4))) || value.file.contains 0)

/-- `pending` are the bytes of a failed write in the buffer of the stream. -/
structure Logger where
  options : Options
  disk : Disk
  fileBytes : ℕ := 0
  isOpen : Bool := false
  good : Bool := true
  pending : Bytes := []

section Rotation

/-- The loop of `ArchivePending` over the numbers in use, from `retained - left + 1` on. -/
def firstFree (retained : ℕ) : ℕ → Disk → Option ℕ × Disk
  | 0, d => (some (retained + 1), d)
  | left + 1, d =>
    match d.exists? (.rotated (retained - left)) with
    | (none, d) => (none, d)
    | (some true, d) => firstFree retained left d
    | (some false, d) => (some (retained - left), d)

def shiftArchives : ℕ → Disk → Bool × Disk
  | 0, d => (true, d)
  | 1, d => (true, d)
  | index + 2, d =>
    match d.rename (.rotated (index + 1)) (.rotated (index + 2)) with
    | (false, d) => (false, d)
    | (true, d) => shiftArchives (index + 1) d

def makeRoom (retained free : ℕ) (d : Disk) : Bool × Disk :=
  if retained < free then d.remove (.rotated retained) else (true, d)

def archivePending (retained : ℕ) (d : Disk) : Bool × Disk :=
  match firstFree retained retained d with
  | (none, d) => (false, d)
  | (some free, d) =>
    match makeRoom retained free d with
    | (false, d) => (false, d)
    | (true, d) =>
      match shiftArchives (if retained < free then retained else free) d with
      | (false, d) => (false, d)
      | (true, d) => d.rename .pending (.rotated 1)

namespace Logger

/-- `file.close()` writes what is still in the buffer. -/
def close (l : Logger) : Logger :=
  if !l.isOpen then { l with good := false }
  else if l.pending.isEmpty then { l with isOpen := false }
  else
    let written := l.disk.extend .close l.pending
    { l with isOpen := false, good := l.good && written.1, disk := written.2, pending := [] }

def reopen (l : Logger) (truncate : Bool) : Logger :=
  let opened := l.disk.openActive truncate
  let size := opened.2.fileSize
  { l with isOpen := opened.1, good := opened.1, disk := size.2, fileBytes := size.1.getD l.fileBytes }

def movePending (retained : ℕ) (d : Disk) : Bool × Disk :=
  match d.exists? .pending with
  | (none, d) => (false, d)
  | (some false, d) => d.rename .active .pending
  | (some true, d) =>
    match archivePending retained d with
    | (false, d) => (false, d)
    | (true, d) => d.rename .active .pending

def rotate (l : Logger) : Bool × Logger :=
  let l := l.close
  match movePending l.options.retainedFiles l.disk with
  | (false, d) => (false, { l with disk := d }.reopen false)
  | (true, d) =>
    let archived := archivePending l.options.retainedFiles d
    let l := { l with disk := archived.2 }.reopen true
    (archived.1 && l.good, l)

def fits (l : Logger) (line : Bytes) : Bool :=
  decide (l.fileBytes ≤ l.options.maxFileBytes) && decide (line.length ≤ l.options.maxFileBytes - l.fileBytes)

/-- `file.write`, `file.flush` and the count; a stream that is closed or failed before takes nothing. -/
def append (l : Logger) (line : Bytes) : Logger :=
  if l.isOpen && l.good then
    let written := l.disk.extend .write line
    { l with disk := written.2, good := written.1, fileBytes := l.fileBytes + line.length, pending := l.disk.kept line }
  else { l with good := false, fileBytes := l.fileBytes + line.length }

def writeConsole (l : Logger) : Bool × Logger :=
  if l.options.console then (l.disk.fault.isNone, { l with disk := l.disk.done .console l.disk.files [] }) else (true, l)

def output (l : Logger) (line : Bytes) : Bool × Logger :=
  let printed := l.writeConsole
  let l := printed.2
  if l.options.file.isEmpty then printed
  else if l.fits line then
    let l := l.append line
    (l.good && printed.1, l)
  else
    let rotated := l.rotate
    let l := rotated.2
    if !l.fits line then (false, l)
    else
      let l := l.append line
      (rotated.1 && l.good && printed.1, l)

end Logger

end Rotation

def add (value : ℕ) : ℕ := if 1 > 2 ^ 64 - 1 - value then 2 ^ 64 - 1 else value + 1

structure Metrics where
  retainedBytes : ℕ := 0
  acceptedMessages : ℕ := 0
  writtenMessages : ℕ := 0
  filteredMessages : ℕ := 0
  droppedMessages : ℕ := 0
  outputErrors : ℕ := 0
  deriving DecidableEq, Repr

structure State where
  logger : Logger
  queue : List Record := []
  metrics : Metrics := {}
  stopping : Bool := false
  accepted : List Record := []
  taken : List Record := []

def start (value : Options) (files : Files) (faults : ℕ → Option Fault) : Except ErrorCode State :=
  let d : Disk := { files := files, faults := faults }
  if value.valid = false then .error .invalidArgument
  else if value.file.isEmpty then .ok { logger := { options := value, disk := d } }
  else if d.fault.isSome then .error .platformError
  else
    let opened := (d.done .absolute d.files []).openActive false
    if !opened.1 then .error .platformError
    else
      match opened.2.fileSize with
      | (none, _) => .error .platformError
      | (some size, d) => .ok { logger := { options := value, disk := d, fileBytes := size, isOpen := true } }

def severity : LogLevel → ℕ
  | .trace => 0
  | .debug => 1
  | .info => 2
  | .warn => 3
  | .error => 4

namespace State

def options (s : State) : Options := s.logger.options

def reject (s : State) (code : ErrorCode) : ErrorCode × State :=
  (code, { s with metrics := { s.metrics with droppedMessages := add s.metrics.droppedMessages } })

def enqueue (s : State) (level : LogLevel) (message : Bytes) (structured : Bool) (now : Int64) : ErrorCode × State :=
  if message.length > s.options.maxMessageBytes then s.reject .tooLarge
  else if s.queue.length ≥ s.options.maxQueuedMessages ∨
      message.length > sizeSub s.options.maxRetainedBytes s.metrics.retainedBytes then s.reject .wouldBlock
  else
    let record : Record := ⟨level, message, now, structured⟩
    (.ok, { s with
      queue := s.queue ++ [record], accepted := s.accepted ++ [record]
      metrics := { s.metrics with
        retainedBytes := s.metrics.retainedBytes + message.length
        acceptedMessages := add s.metrics.acceptedMessages } })

def write (s : State) (level : Option LogLevel) (message : Bytes) (structured : Option LogRecord) (now : Int64) :
    ErrorCode × State :=
  match level with
  | none => s.reject .invalidArgument
  | some level =>
    if s.stopping then s.reject .closed
    else if severity level < severity s.options.minimumLevel then
      (.ok, { s with metrics := { s.metrics with filteredMessages := add s.metrics.filteredMessages } })
    else
      match structured with
      | none => s.enqueue level message false now
      | some record =>
        match formatLogRecord record (min s.options.maxMessageBytes maxStructuredLogBytes) with
        | .error code => s.reject code
        | .ok encoded => s.enqueue level encoded true now

def setLevel (s : State) (level : Option LogLevel) : ErrorCode × State :=
  match level with
  | none => (.invalidArgument, s)
  | some level =>
    if s.stopping then (.closed, s)
    else (.ok, { s with logger := { s.logger with options := { s.options with minimumLevel := level } } })

def take (s : State) (record : Record) (queue : List Record) : State :=
  let output := s.logger.output (format record)
  { s with
    logger := output.2, queue := queue, taken := s.taken ++ [record]
    metrics := { s.metrics with
      retainedBytes := sizeSub s.metrics.retainedBytes record.message.length
      writtenMessages := if output.1 then add s.metrics.writtenMessages else s.metrics.writtenMessages
      outputErrors := if output.1 then s.metrics.outputErrors else add s.metrics.outputErrors } }

end State

inductive Call
  | write (level : Option LogLevel) (message : Bytes) (now : Int64)
  | writeRecord (record : LogRecord) (now : Int64)
  | setLevel (level : Option LogLevel)
  | requestStop
  | run

def step (s : State) : Call → Option State
  | .write level message now => some (s.write level message none now).2
  | .writeRecord record now => some (s.write record.level record.message (some record) now).2
  | .setLevel level => some (s.setLevel level).2
  | .requestStop => some { s with stopping := true }
  | .run =>
    match s.queue with
    | record :: queue => some (s.take record queue)
    | [] => if s.stopping then some { s with logger := if s.logger.isOpen then s.logger.close else s.logger } else none

end ServerCore.Observability.AsyncLogger
