import ServerCore.Core.Status
import ServerCore.Foundations.RoundRobin
import ServerCore.Foundations.Table

/-! The native mailbox of ready keys: slots that are signalled from any thread, and the round-robin delivery of
their keys. Each step is one section of the mutex. -/

namespace ServerCore.CDetail

open ServerCore.Core ServerCore.Foundations

structure ReadinessSlot where
  key : UInt64
  registered : Bool := true
  ready : Bool := false

/-- What has happened to the slots, for the statements about it; the newest entry comes first. -/
inductive Entry
  | added (slot : ℕ) (key : UInt64)
  | signalled (slot : ℕ)
  | reset (slot : ℕ)
  | delivered (slot : ℕ) (key : UInt64)
  deriving DecidableEq, Repr

def Entry.isDelivery : Entry → Bool
  | delivered _ _ => true
  | _ => false

/-- `heap` holds every slot ever made, `slots` the numbers of those in the mailbox, and `waiting` the timeout of
each thread that waits on the condition variable. -/
structure NotifierState where
  heap : Table ReadinessSlot
  slots : List (Option ℕ)
  next : ℕ := 0
  interrupted : Bool := false
  closed : Bool := false
  waiting : ℕ → Option UInt32 := fun _ => none
  log : List Entry := []

/-- What a call has returned: the slot of `Add`, the key of `Next`. -/
inductive Answer
  | add (code : ErrorCode) (slot : Option ℕ)
  | next (code : ErrorCode) (key : UInt64)
  deriving DecidableEq, Repr

namespace NotifierState

def create (capacity : ℕ) : NotifierState where
  heap := ⟨0, fun _ => { key := 0 }⟩
  slots := List.replicate capacity none

def slotKey (s : NotifierState) (i : ℕ) : UInt64 := (s.heap.row i).key

def slotReady (s : NotifierState) (i : ℕ) : Bool := (s.heap.row i).ready

def readyAt (s : NotifierState) (index : ℕ) : Option ℕ :=
  match s.slots[index]? with
  | some (some i) => if s.slotReady i then some i else none
  | _ => none

def ready (s : NotifierState) : Bool := s.closed || s.interrupted || s.slots.any fun slot => slot.any s.slotReady

def add (s : NotifierState) (key : UInt64) : Answer × NotifierState :=
  if key = 0 then (.add .invalidArgument none, s)
  else if s.closed then (.add .closed none, s)
  else if s.slots.any fun slot => slot.any fun i => s.slotKey i == key then (.add .alreadyExists none, s)
  else
    match s.slots.findIdx? Option.isNone with
    | some index =>
      (.add .ok (some s.heap.count),
        { s with
          heap := s.heap.push { key := key }
          slots := s.slots.set index (some s.heap.count)
          log := .added s.heap.count key :: s.log })
    | none => (.add .tooLarge none, s)

def signal (s : NotifierState) (i : ℕ) : NotifierState :=
  if !(s.heap.row i).registered || s.closed then s
  else { s with heap := s.heap.set i { s.heap.row i with ready := true }, log := .signalled i :: s.log }

def reset (s : NotifierState) (i : ℕ) : NotifierState :=
  { s with
    heap := s.heap.set i { s.heap.row i with registered := false }
    slots := match s.slots.findIdx? (· == some i) with
      | some index => s.slots.set index none
      | none => s.slots
    log := .reset i :: s.log }

def deliver (s : NotifierState) : Answer × NotifierState :=
  if s.closed then (.next .closed 0, s)
  else
    match RoundRobin.firstFrom s.slots.length s.next s.readyAt with
    | some (index, i) =>
      (.next .ok (s.slotKey i),
        { s with
          heap := s.heap.set i { s.heap.row i with ready := false }
          next := (index + 1) % s.slots.length
          log := .delivered i (s.slotKey i) :: s.log })
    | none => (.next .wouldBlock 0, { s with interrupted := false })

def interrupt (s : NotifierState) (close : Bool) : NotifierState :=
  { s with interrupted := true, closed := s.closed || close }

def setWaiting (s : NotifierState) (t : ℕ) (timeout : Option UInt32) : NotifierState :=
  { s with waiting := Function.update s.waiting t timeout }

/-- A thread calls `Next` with the address of a key, is woken for whatever reason, or runs out of time; slots are
registered, signalled and reset, and the mailbox is interrupted or closed. -/
inductive Event
  | add (key : UInt64)
  | signal (slot : ℕ)
  | reset (slot : ℕ)
  | interrupt (close : Bool)
  | next (t : ℕ) (timeout : UInt32)
  | wake (t : ℕ)
  | expire (t : ℕ)

def turn (s : NotifierState) : Event → Option (Option Answer × NotifierState)
  | .add key => let (answer, s') := s.add key; some (some answer, s')
  | .signal i => if i < s.heap.count then some (none, s.signal i) else none
  | .reset i => if i < s.heap.count then some (none, s.reset i) else none
  | .interrupt close => some (none, s.interrupt close)
  | .next t timeout =>
    if (s.waiting t).isSome then none
    else if s.ready then let (answer, s') := s.deliver; some (some answer, s')
    else if timeout = 0 then some (some (.next .wouldBlock 0), s)
    else some (none, s.setWaiting t (some timeout))
  | .wake t =>
    match s.waiting t with
    | none => none
    | some _ =>
      if s.ready then let (answer, s') := s.deliver; some (some answer, s'.setWaiting t none) else some (none, s)
  | .expire t =>
    match s.waiting t with
    | none => none
    | some timeout =>
      if timeout = 0xFFFFFFFF then none
      else if s.ready then let (answer, s') := s.deliver; some (some answer, s'.setWaiting t none)
      else some (some (.next .timeout 0), s.setWaiting t none)

def step (s : NotifierState) (e : Event) : Option NotifierState := (s.turn e).map Prod.snd

def keys (s : NotifierState) : List UInt64 := s.slots.filterMap fun slot => slot.map s.slotKey

end NotifierState

end ServerCore.CDetail
