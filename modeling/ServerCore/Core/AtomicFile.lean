import ServerCore.Core.Charconv
import ServerCore.Core.Status
import ServerCore.Core.Utf8
import ServerCore.Foundations.Table
import ServerCore.Foundations.Volume

/-! `AtomicFile` on POSIX. Every call meets the outcomes of its system calls as its arguments, so any of them may
fail; a name is a directory with an entry of it. -/

namespace ServerCore.Core.AtomicFile

open ServerCore.Foundations

abbrev Disk := Volume (ℕ × Bytes) Byte

inductive Errno
  | noEntry
  | other
  deriving DecidableEq, Repr

def osError : Errno → ErrorCode
  | .noEntry => .notFound
  | .other => .platformError

/-- The status of a system call that failed with an `Errno` or succeeded. -/
def statusOf : Option Errno → ErrorCode
  | none => .ok
  | some e => osError e

inductive FileSync
  | none
  | file
  | fileAndDirectory
  deriving DecidableEq, Repr

structure Options where
  maximumBytes : ℕ := 64 * 1024 * 1024
  sync : FileSync := .file
  deriving DecidableEq, Repr

structure State where
  options : Options := {}
  written : ℕ := 0
  failure : ErrorCode := .ok
  committed : Bool := false
  cancelled : Bool := false
  file : Option ℕ := none
  directory : Option ℕ := none
  temporary : Bytes := []
  target : Bytes := []
  home : ℕ := 0
  previous : Option Bytes := none
  accepted : Bytes := []
  destroyed : Bool := false
  deriving DecidableEq, Repr

/-- The outcomes of the system calls of `Cleanup`. -/
structure CleanupOutcomes where
  unlink : Option Errno := none
  closeFile : Option Errno := none
  closeDirectory : Option Errno := none
  deriving DecidableEq, Repr

/-- The outcomes of the system calls of `Commit`. -/
structure CommitOutcomes where
  sync : Option Errno := none
  rename : Option Errno := none
  directorySync : Option Errno := none
  cleanup : CleanupOutcomes := {}
  deriving DecidableEq, Repr

/-- What a turn of the loop of `Write` meets. -/
inductive Attempt
  | stopRequested
  | wrote (written : ℕ)
  | failed (stopRequested : Bool)
  deriving DecidableEq, Repr

namespace State

def unlinkTemporary (o : State) (disk : Disk) (outcome : Option Errno) : ErrorCode × State × Disk :=
  match o.directory with
  | none => (.ok, o, disk)
  | some d =>
    if o.temporary = [] then (.ok, o, disk)
    else
      match outcome with
      | none => (.ok, { o with temporary := [] }, disk.unlink (d, o.temporary))
      | some e => (if e = .noEntry then .ok else osError e, { o with temporary := [] }, disk)

def close (o : State) (status : ErrorCode) (outcomes : CleanupOutcomes) : ErrorCode × State :=
  let status := if o.file.isSome ∧ status = .ok then statusOf outcomes.closeFile else status
  let status := if o.directory.isSome ∧ status = .ok then statusOf outcomes.closeDirectory else status
  (status, { o with file := none, directory := none })

def cleanup (o : State) (disk : Disk) (outcomes : CleanupOutcomes) : ErrorCode × State × Disk :=
  let unlinked := o.unlinkTemporary disk outcomes.unlink
  let closed := unlinked.2.1.close unlinked.1 outcomes
  (closed.1, closed.2, unlinked.2.2)

/-- The loop of `Write`, for as many turns as there are attempts; `write` takes at most 1 MiB a turn. -/
def writing (o : State) (disk : Disk) : Bytes → List Attempt → Option (ErrorCode × State × Disk)
  | [], _ => some (.ok, o, disk)
  | _ :: _, [] => none
  | _ :: _, .stopRequested :: _ => some (.cancelled, { o with failure := .cancelled }, disk)
  | _ :: _, .failed stop :: _ =>
    let failure := if stop then .cancelled else .platformError
    some (failure, { o with failure := failure }, disk)
  | b :: data, .wrote n :: attempts =>
    match o.file with
    | none => none
    | some file =>
      if 0 < n ∧ n ≤ min (b :: data).length (1024 * 1024) then
        { o with written := o.written + n }.writing (disk.append file ((b :: data).take n)) ((b :: data).drop n) attempts
      else none

end State

def renameat (disk : Disk) (directory : Option ℕ) (a b : Bytes) : Option Errno → Except Errno Disk
  | some e => .error e
  | none =>
    match directory with
    | none => .error .other
    | some d => if disk.entry (d, a) = none then .error .noEntry else .ok (disk.rename (d, a) (d, b))

structure System where
  disk : Disk
  process : ℕ
  nextTemporary : ℕ
  files : Table State

def lower (b : Byte) : Byte := if 65 ≤ b ∧ b ≤ 90 then b + 32 else b

def temporaryName (process serial : ℕ) : Bytes :=
  ascii ".servercore-" ++ toChars 10 process ++ ascii "-" ++ toChars 10 serial ++ ascii ".tmp"

namespace System

def file (s : System) (i : ℕ) : State := s.files.row i

def put (s : System) (i : ℕ) (o : State) (disk : Disk) : System := { s with files := s.files.set i o, disk := disk }

def openTemporary (leaf : Bytes) (d : ℕ) (opens : ℕ → Option Errno) : ℕ → System → Except ErrorCode Bytes × System
  | 0, s => (.error .alreadyExists, s)
  | attempts + 1, s =>
    if s.nextTemporary = 2 ^ 64 - 1 then (.error .platformError, s)
    else
      let name := temporaryName s.process s.nextTemporary
      let s := { s with nextTemporary := s.nextTemporary + 1 }
      if leaf.map lower = name then s.openTemporary leaf d opens attempts
      else
        match opens attempts with
        | some e => (.error (osError e), s)
        | none =>
          if (s.disk.entry (d, name)).isSome then s.openTemporary leaf d opens attempts
          else (.ok name, { s with disk := s.disk.create (d, name) })

/-- `Create`, with what `absolute` makes of the target and the outcome of opening its directory. -/
def create (s : System) (utf8Target : Bytes) (options : Options) (absolute : Option Bytes)
    (directory : Except Errno ℕ) (opens : ℕ → Option Errno) : ErrorCode × System :=
  if utf8Target = [] ∨ 32768 < utf8Target.length ∨ 0 ∈ utf8Target ∨ isValidUtf8 utf8Target = false ∨
      options.maximumBytes = 0 ∨ 2 ^ 40 < options.maximumBytes then (.invalidArgument, s)
  else
    match absolute with
    | none => (.platformError, s)
    | some leaf =>
      if leaf = [] ∨ leaf = ascii "." ∨ leaf = ascii ".." then (.invalidArgument, s)
      else
        match directory with
        | .error e => (osError e, s)
        | .ok d =>
          match s.openTemporary leaf d opens 64 with
          | (.error code, s) => (code, s)
          | (.ok name, s) =>
            let o : State :=
              { options := options, file := s.disk.entry (d, name), directory := some d, temporary := name,
                target := leaf, home := d, previous := s.disk.read (d, leaf) }
            (.ok, { s with files := s.files.push o })

def write (s : System) (i : ℕ) (data : Bytes) (attempts : List Attempt) : Option (ErrorCode × System) :=
  let o := s.file i
  if o.committed ∨ o.cancelled then some (.closed, s)
  else if o.failure ≠ .ok then some (o.failure, s)
  else if sizeSub o.options.maximumBytes o.written < data.length then some (.tooLarge, s)
  else
    (o.writing s.disk data attempts).map fun (status, o, disk) =>
      (status, s.put i { o with accepted := if status = .ok then o.accepted ++ data else o.accepted } disk)

def commit (s : System) (i : ℕ) (outcomes : CommitOutcomes) : ErrorCode × System :=
  let o := s.file i
  if o.committed ∨ o.cancelled then (.closed, s)
  else if o.failure ≠ .ok then (o.failure, s)
  else
    match if o.options.sync = .none then none else outcomes.sync with
    | some e => (osError e, s.put i { o with failure := osError e } s.disk)
    | none =>
      match renameat s.disk o.directory o.temporary o.target outcomes.rename with
      | .error e => (osError e, s)
      | .ok disk =>
        let result := if o.options.sync = .fileAndDirectory then statusOf outcomes.directorySync else .ok
        let cleaned := { o with committed := true, temporary := [] }.cleanup disk outcomes.cleanup
        (if result = .ok then cleaned.1 else result, s.put i cleaned.2.1 cleaned.2.2)

def cancel (s : System) (i : ℕ) (outcomes : CleanupOutcomes) : ErrorCode × System :=
  let cleaned := { s.file i with cancelled := true }.cleanup s.disk outcomes
  (cleaned.1, s.put i cleaned.2.1 cleaned.2.2)

def destroy (s : System) (i : ℕ) (outcomes : CleanupOutcomes) : System :=
  let cleaned := (s.file i).cleanup s.disk outcomes
  s.put i { cleaned.2.1 with destroyed := true } cleaned.2.2

def Apart (s : System) : Prop :=
  ∀ i < s.files.count, ∀ j < s.files.count, i ≠ j → (s.file j).home = (s.file i).home →
    (s.file j).temporary ≠ (s.file i).target

instance (s : System) : Decidable s.Apart :=
  inferInstanceAs (Decidable (∀ i < s.files.count, ∀ j < s.files.count, i ≠ j →
    (s.file j).home = (s.file i).home → (s.file j).temporary ≠ (s.file i).target))

def Alive (s : System) (i : ℕ) : Prop := i < s.files.count ∧ (s.file i).destroyed = false

instance (s : System) (i : ℕ) : Decidable (s.Alive i) :=
  inferInstanceAs (Decidable (i < s.files.count ∧ (s.file i).destroyed = false))

end System

inductive Call
  | create (utf8Target : Bytes) (options : Options) (absolute : Option Bytes) (directory : Except Errno ℕ)
      (opens : ℕ → Option Errno)
  | write (file : ℕ) (data : Bytes) (attempts : List Attempt)
  | commit (file : ℕ) (outcomes : CommitOutcomes)
  | cancel (file : ℕ) (outcomes : CleanupOutcomes)
  | destroy (file : ℕ) (outcomes : CleanupOutcomes)

def step (s : System) : Call → Option System
  | .create utf8Target options absolute directory opens =>
    let created := (s.create utf8Target options absolute directory opens).2
    if created.Apart then some created else none
  | .write i data attempts => if s.Alive i then (s.write i data attempts).map Prod.snd else none
  | .commit i outcomes => if s.Alive i then some (s.commit i outcomes).2 else none
  | .cancel i outcomes => if s.Alive i then some (s.cancel i outcomes).2 else none
  | .destroy i outcomes => if s.Alive i then some (s.destroy i outcomes) else none

def Initial (s : System) : Prop := s.disk.WellFormed ∧ s.nextTemporary = 0 ∧ s.files.count = 0

end ServerCore.Core.AtomicFile
