import ServerCore.Core.Status
import ServerCore.Foundations.Table
import ServerCore.Foundations.Transition

/-! `CompletionSignal` and the `State` of its subscriptions. Each section under a mutex is one step of a
thread, and a callback runs on the stack of the thread that called it. -/

namespace ServerCore.Runtime.CompletionSignal

open ServerCore.Core ServerCore.Foundations

inductive Origin
  | signal
  | cancel
  | stop
  deriving DecidableEq, Repr

structure Call where
  code : ErrorCode
  origin : Origin
  deriving DecidableEq, Repr

/-- `CompletionSubscription::State`, with the handle that owns it. -/
structure Sub where
  handle : Bool := false
  callback : Bool := true
  done : Bool := false
  invoking : Bool := false
  thread : Option ℕ := none
  tokens : List ℕ := []
  stopThreads : List ℕ := []
  calls : List Call := []
  cancelled : Bool := false
  discarded : Bool := false
  deriving DecidableEq, Repr

inductive Frame
  | observing (sub : ℕ) (token : Option ℕ)
  | completing (sub : ℕ) (code : ErrorCode) (origin : Origin)
  | calling (sub : ℕ)
  | leaving (sub : ℕ)
  | binding (sub : ℕ) (tokens : List ℕ)
  | publishing (sub : ℕ)
  | registered (sub : ℕ)
  | finishing (code : ErrorCode)
  | draining (code : ErrorCode) (sources : List (Option ℕ))
  | resetting (sub : ℕ)
  | waiting (sub : ℕ)
  | unbinding (sub : ℕ)
  | stopping (token : ℕ)
  | stopped (sub : ℕ)
  deriving DecidableEq, Repr

inductive Op
  | subscribe (token : ℕ)
  | create (tokens : List ℕ)
  | observe (sub : ℕ)
  | complete (code : ErrorCode)
  | cancel (sub : ℕ)
  | reset (sub : ℕ)
  | requestStop (token : ℕ)
  deriving DecidableEq, Repr

inductive Choice
  | begin (op : Op)
  | advance
  | runStop (sub : ℕ)
  deriving DecidableEq, Repr

/-- A `Reset` that has returned, and whether it found the handle full. -/
structure ResetRecord where
  thread : ℕ
  sub : ℕ
  held : Bool
  deriving DecidableEq, Repr

structure Signal where
  subs : Table Sub := ⟨0, fun _ => {}⟩
  registrations : Table ℕ := ⟨0, fun _ => 0⟩
  slots : List (Option ℕ) := List.replicate 16 none
  ready : Bool := false
  result : ErrorCode := .wouldBlock
  stops : List ℕ := []
  threads : ℕ → List Frame := fun _ => []
  swapped : List (Option ℕ) := []
  finished : Bool := false
  accepted : List ℕ := []
  refused : List ℕ := []
  resets : List ResetRecord := []

namespace Signal

def sub (s : Signal) (i : ℕ) : Sub := s.subs.row i

def put (s : Signal) (i : ℕ) (sub : Sub) : Signal := { s with subs := s.subs.set i sub }

def stack (s : Signal) (t : ℕ) (frames : List Frame) : Signal :=
  { s with threads := Function.update s.threads t frames }

def isPending (s : Signal) : Option ℕ → Bool
  | none => false
  | some r => !(s.sub (s.registrations.row r)).done

def freeSlot (s : Signal) : Option ℕ := s.slots.findIdx? fun slot => !s.isPending slot

def enter (s : Signal) (t i : ℕ) (code : ErrorCode) (origin : Origin) (rest : List Frame) : Signal :=
  if (s.sub i).done then s.stack t rest
  else
    (s.put i { s.sub i with
      done := true
      invoking := true
      thread := some t
      callback := false
      calls := (s.sub i).calls ++ [⟨code, origin⟩] }).stack t (.calling i :: rest)

def leave (s : Signal) (t i : ℕ) (rest : List Frame) : Signal :=
  (s.put i { s.sub i with invoking := false, thread := none }).stack t rest

def observe (s : Signal) (t i : ℕ) (token : Option ℕ) (rest : List Frame) : Signal :=
  let after := match token with
    | some token => .binding i [token] :: .publishing i :: .registered i :: rest
    | none => .registered i :: rest
  if s.ready then s.stack t (.completing i s.result .signal :: after)
  else
    match s.freeSlot with
    | some k =>
      { s with
        registrations := s.registrations.push i
        slots := s.slots.set k (some s.registrations.count) }.stack t after
    | none => { s with refused := s.refused ++ [i] }.stack t (if token.isSome then .resetting i :: rest else rest)

def bind (s : Signal) (t i token : ℕ) (rest : List Frame) : Signal :=
  if token ∈ s.stops then
    (s.put i { s.sub i with cancelled := true }).stack t (.completing i .cancelled .stop :: rest)
  else (s.put i { s.sub i with tokens := token :: (s.sub i).tokens }).stack t rest

def finish (s : Signal) (t : ℕ) (code : ErrorCode) (rest : List Frame) : Signal :=
  if s.ready then s.stack t rest
  else
    { s with
      ready := true
      result := code
      swapped := s.slots
      slots := List.replicate 16 none }.stack t (.draining code s.slots :: rest)

def reset (s : Signal) (t i : ℕ) (rest : List Frame) : Signal :=
  (s.put i { s.sub i with done := true, callback := false, discarded := true }).stack t
    (if (s.sub i).thread = some t ∨ (s.sub i).invoking = false then .unbinding i :: rest else .waiting i :: rest)

/-- The destruction of the stop callbacks, behind which `State::Reset` returns. -/
def unbind (s : Signal) (t i : ℕ) (rest : List Frame) : Signal :=
  { (s.put i { s.sub i with tokens := [] }).stack t rest with resets := s.resets ++ [⟨t, i, true⟩] }

def advance (s : Signal) (t : ℕ) (rest : List Frame) : Frame → Option Signal
  | .observing i token => some (s.observe t i token rest)
  | .completing i code origin => some (s.enter t i code origin rest)
  | .calling i => some (s.stack t (.leaving i :: rest))
  | .leaving i => some (s.leave t i rest)
  | .binding _ [] => some (s.stack t rest)
  | .binding i (token :: tokens) => some (s.bind t i token (.binding i tokens :: rest))
  | .publishing i => some ((s.put i { s.sub i with handle := true }).stack t rest)
  | .registered i => some { s.stack t rest with accepted := s.accepted ++ [i] }
  | .finishing code => some (s.finish t code rest)
  | .draining _ [] => some { s.stack t rest with finished := true }
  | .draining code (none :: sources) => some (s.stack t (.draining code sources :: rest))
  | .draining code (some r :: sources) =>
    some (s.enter t (s.registrations.row r) code .signal (.draining code sources :: rest))
  | .resetting i => some (s.reset t i rest)
  | .waiting i => if (s.sub i).invoking then none else some (s.stack t (.unbinding i :: rest))
  | .unbinding i => if ∀ t' ∈ (s.sub i).stopThreads, t' = t then some (s.unbind t i rest) else none
  | .stopping token => if ∀ i < s.subs.count, token ∉ (s.sub i).tokens then some (s.stack t rest) else none
  | .stopped i => some ((s.put i { s.sub i with stopThreads := (s.sub i).stopThreads.erase t }).stack t rest)

def begins (frames : List Frame) : Bool :=
  match frames with
  | [] => true
  | .calling _ :: _ => true
  | _ => false

def start (s : Signal) (t : ℕ) : Op → Option Signal
  | .subscribe token =>
    some ({ s with subs := s.subs.push {} }.stack t (.observing s.subs.count (some token) :: s.threads t))
  | .create tokens =>
    some ({ s with subs := s.subs.push {} }.stack t
      (.binding s.subs.count tokens :: .publishing s.subs.count :: s.threads t))
  | .observe i => if i < s.subs.count then some (s.stack t (.observing i none :: s.threads t)) else none
  | .complete code => some (s.stack t (.finishing code :: s.threads t))
  | .cancel i =>
    if i < s.subs.count then
      if (s.sub i).handle then
        some ((s.put i { s.sub i with cancelled := true }).stack t (.completing i .cancelled .cancel :: s.threads t))
      else some s
    else none
  | .reset i =>
    if i < s.subs.count then
      if (s.sub i).handle then
        some ((s.put i { s.sub i with handle := false }).stack t (.resetting i :: s.threads t))
      else some { s with resets := s.resets ++ [⟨t, i, false⟩] }
    else none
  | .requestStop token =>
    if token ∈ s.stops then some s
    else some ({ s with stops := token :: s.stops }.stack t (.stopping token :: s.threads t))

def runStop (s : Signal) (t i : ℕ) (rest : List Frame) : Frame → Option Signal
  | .stopping token =>
    if i < s.subs.count ∧ token ∈ (s.sub i).tokens then
      some ((s.put i { s.sub i with
        tokens := (s.sub i).tokens.erase token
        stopThreads := t :: (s.sub i).stopThreads
        cancelled := true }).stack t (.completing i .cancelled .stop :: .stopped i :: .stopping token :: rest))
    else none
  | _ => none

end Signal

def step (s : Signal) : ℕ × Choice → Option Signal
  | (t, .begin op) => if Signal.begins (s.threads t) then s.start t op else none
  | (t, .advance) =>
    match s.threads t with
    | [] => none
    | frame :: rest => s.advance t rest frame
  | (t, .runStop i) =>
    match s.threads t with
    | [] => none
    | frame :: rest => s.runStop t i rest frame

end ServerCore.Runtime.CompletionSignal
