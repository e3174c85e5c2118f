import Mathlib.Data.Finset.Basic
import ServerCore.Core.Status
import ServerCore.Foundations.Transition

/-! Session ids: one counter of the process, and the reservations and registrations of every registry.
A compare-exchange and a section under a lock are one step each. -/

namespace ServerCore.Session.SessionRegistry

open ServerCore.Core ServerCore.Foundations

def maximumId : ℕ := 2 ^ 64 - 1

structure Registry where
  issuedIds : Finset ℕ := ∅
  sessions : Finset ℕ := ∅
  sessionsLocked : Bool := false

inductive Call
  | issueId
  | discardIssuedId
  | register
  | unregister
  deriving DecidableEq, Repr

inductive Place
  | idle
  | issuing (registry current : ℕ)
  | reserving (registry id : ℕ)
  | registering (registry id : ℕ)
  | answered (call : Call) (status : Status)
  deriving DecidableEq, Repr

structure Issue where
  thread : ℕ
  registry : ℕ
  id : Option ℕ

structure Shared where
  nextSessionId : ℕ := 1
  registries : ℕ → Registry := fun _ => {}
  issues : List Issue := []
  registered : List (ℕ × ℕ) := []

namespace Shared

def update (s : Shared) (r : ℕ) (registry : Registry) : Shared :=
  { s with registries := Function.update s.registries r registry }

def answerIssue (s : Shared) (thread registry : ℕ) (id : Option ℕ) : Shared :=
  { s with issues := s.issues ++ [⟨thread, registry, id⟩] }

/-- One turn of the loop of `IssueId`; a weak exchange may fail on its own. -/
def compareExchange (s : Shared) (thread r current : ℕ) (spurious : Bool) : Shared × Place :=
  if current = 0 then
    (s.answerIssue thread r none, .answered .issueId (.fail .tooLarge "the process has exhausted the SessionId space"))
  else if s.nextSessionId = current ∧ spurious = false then
    ({ s with nextSessionId := if current = maximumId then 0 else current + 1 }, .reserving r current)
  else (s, .issuing r s.nextSessionId)

def reserve (s : Shared) (thread r id : ℕ) (failure : Option Status) : Shared × Place :=
  match failure with
  | some status => (s.answerIssue thread r none, .answered .issueId status)
  | none =>
    let registry := s.registries r
    ((s.update r { registry with issuedIds := insert id registry.issuedIds }).answerIssue thread r (some id),
      .answered .issueId ⟨.ok, ""⟩)

def discardIssuedId (s : Shared) (r id : ℕ) : Shared × Place :=
  let registry := s.registries r
  if id = 0 then
    (s, .answered .discardIssuedId
      (.fail .invalidArgument "SessionRegistry::DiscardIssuedId() was given SessionId::Invalid"))
  else if id ∉ registry.issuedIds then
    (s, .answered .discardIssuedId (.fail .invalidArgument
      "SessionRegistry::DiscardIssuedId() was given a SessionId without a pending reservation"))
  else (s.update r { registry with issuedIds := registry.issuedIds.erase id }, .answered .discardIssuedId ⟨.ok, ""⟩)

def register (s : Shared) (r : ℕ) (session : Option ℕ) : Option (Shared × Place) :=
  let registry := s.registries r
  match session with
  | none => some (s, .answered .register
      (.fail .invalidArgument "SessionRegistry::Register() was given a null session"))
  | some id =>
    if id = 0 then some (s, .answered .register
      (.fail .invalidArgument "SessionRegistry::Register() was given a session with SessionId::Invalid"))
    else if registry.sessionsLocked then none
    else if id ∈ registry.sessions then some (s, .answered .register
      (.fail .alreadyExists "SessionRegistry::Register() was given a SessionId that is already registered"))
    else some (s.update r { registry with sessionsLocked := true }, .registering r id)

def consume (s : Shared) (r id : ℕ) (failure : Option Status) : Shared × Place :=
  let registry := { s.registries r with sessionsLocked := false }
  if id ∉ registry.issuedIds then
    (s.update r registry, .answered .register
      (.fail .invalidArgument "SessionRegistry::Register() was given a SessionId not issued by this registry"))
  else
    match failure with
    | some status => (s.update r registry, .answered .register status)
    | none =>
      if id ∈ registry.sessions then
        (s.update r registry, .answered .register
          (.fail .alreadyExists "SessionRegistry::Register() was given a SessionId that is already registered"))
      else
        ({ s.update r { registry with
            sessions := insert id registry.sessions
            issuedIds := registry.issuedIds.erase id } with registered := s.registered ++ [(r, id)] },
          .answered .register ⟨.ok, ""⟩)

def unregister (s : Shared) (r id : ℕ) : Option (Shared × Place) :=
  let registry := s.registries r
  if id = 0 then some (s, .answered .unregister
    (.fail .invalidArgument "SessionRegistry::Unregister() was given SessionId::Invalid"))
  else if registry.sessionsLocked then none
  else if id ∉ registry.sessions then some (s, .answered .unregister
    (.fail .notFound "SessionRegistry::Unregister() could not find the SessionId"))
  else some (s.update r { registry with sessions := registry.sessions.erase id }, .answered .unregister ⟨.ok, ""⟩)

end Shared

inductive Choice
  | issueId (registry : ℕ)
  | compareExchange (spurious : Bool)
  | reserve (failure : Option Status)
  | discardIssuedId (registry id : ℕ)
  | register (registry : ℕ) (session : Option ℕ)
  | consume (failure : Option Status)
  | unregister (registry id : ℕ)

namespace Place

def free : Place → Bool
  | idle | answered .. => true
  | _ => false

end Place

def thrown (failure : Option Status) : Bool := failure.all fun status => status.code ≠ .ok

def advance (s : Shared) (thread : ℕ) : Choice → Place → Option (Shared × Place)
  | .issueId r, place => if place.free then some (s, .issuing r s.nextSessionId) else none
  | .compareExchange spurious, .issuing r current => some (s.compareExchange thread r current spurious)
  | .reserve failure, .reserving r id => if thrown failure then some (s.reserve thread r id failure) else none
  | .discardIssuedId r id, place => if place.free then some (s.discardIssuedId r id) else none
  | .register r session, place => if place.free then s.register r session else none
  | .consume failure, .registering r id => if thrown failure then some (s.consume r id failure) else none
  | .unregister r id, place => if place.free then s.unregister r id else none
  | _, _ => none

structure State where
  shared : Shared := {}
  threads : ℕ → Place := fun _ => .idle

def step (s : State) (event : ℕ × Choice) : Option State :=
  (advance s.shared event.1 event.2 (s.threads event.1)).map fun (shared, place) =>
    { shared, threads := Function.update s.threads event.1 place }

def Initial (s : State) : Prop := s = {}

end ServerCore.Session.SessionRegistry
