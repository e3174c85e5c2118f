import ServerCore.Core.CompletionSubscription
import ServerCore.Foundations.Transition

/-! Threads that wait on a condition variable, and subscriptions that are completed outside of the lock. -/

namespace ServerCore.Runtime

open ServerCore.Core ServerCore.Foundations

/-- Where a thread stands between two sections; a waiting thread keeps what it waits for. -/
inductive WaitPlace (ω : Type*)
  | idle
  | answered (code : ErrorCode)
  | waiting (request : ω)
  | woken (request : ω)
  | notifying (sources : List (ℕ × ErrorCode))
  | completing (sources : List (ℕ × ErrorCode))
  deriving DecidableEq, Repr

namespace WaitPlace

variable {ω : Type*}

def free : WaitPlace ω → Bool
  | idle | answered _ | completing [] => true
  | _ => false

def wake : WaitPlace ω → WaitPlace ω
  | waiting request => woken request
  | place => place

def sources : WaitPlace ω → List (ℕ × ErrorCode)
  | notifying sources | completing sources => sources
  | _ => []

@[simp] lemma wake_sources (place : WaitPlace ω) : place.wake.sources = place.sources := by
  cases place <;> rfl

lemma wake_ne_waiting (place : WaitPlace ω) (request : ω) : place.wake ≠ waiting request := by
  cases place <;> exact nofun

lemma sources_of_free {place : WaitPlace ω} (h : place.free = true) : place.sources = [] := by
  cases place with
  | completing sources =>
    cases sources with
    | nil => rfl
    | cons => cases h
  | notifying => cases h
  | _ => rfl

end WaitPlace

section Threads

variable {ω : Type*} {threads : ℕ → WaitPlace ω} {t i : ℕ} {place : WaitPlace ω}

def Held (threads : ℕ → WaitPlace ω) (i : ℕ) : Prop := ∃ t code, (i, code) ∈ (threads t).sources

def Notifying (threads : ℕ → WaitPlace ω) : Prop := ∃ t sources, threads t = .notifying sources

lemma Held.update (h : Held threads i) (hkeep : ∀ code, (i, code) ∈ (threads t).sources → ∃ code', (i, code') ∈ place.sources) :
    Held (Function.update threads t place) i := by
  obtain ⟨w, code, hmem⟩ := h
  rcases eq_or_ne w t with rfl | hne
  · obtain ⟨code', hmem'⟩ := hkeep code hmem
    exact ⟨w, code', by rwa [Function.update_self]⟩
  · exact ⟨w, code, by rwa [Function.update_of_ne hne]⟩

lemma Held.of_free (h : Held threads i) (hfree : (threads t).sources = []) : Held (Function.update threads t place) i := by
  refine h.update fun code hmem => ?_
  rw [hfree] at hmem
  cases hmem

lemma held_self {code : ErrorCode} (h : (i, code) ∈ place.sources) : Held (Function.update threads t place) i :=
  ⟨t, code, by rwa [Function.update_self]⟩

lemma Notifying.update (h : Notifying threads) (hplace : ∀ sources, threads t ≠ .notifying sources) :
    Notifying (Function.update threads t place) := by
  obtain ⟨w, sources, hw⟩ := h
  have hne : w ≠ t := by
    rintro rfl
    exact hplace sources hw
  exact ⟨w, sources, by rwa [Function.update_of_ne hne]⟩

lemma notifying_self {sources : List (ℕ × ErrorCode)} : Notifying (Function.update threads t (.notifying sources)) :=
  ⟨t, sources, Function.update_self ..⟩

end Threads

/-- What is observed of a shared state: the subscriptions that are pending and those that are registered in it,
and the requests that need not wait. -/
structure View (ω : Type*) where
  pending : ℕ → Prop
  registered : ℕ → Prop
  ready : ω → Prop

/-- A pending subscription is registered or about to be completed, and who waits in vain is about to be notified. -/
structure Watched {ω : Type*} (v : View ω) (threads : ℕ → WaitPlace ω) : Prop where
  pending : ∀ i, v.pending i → v.registered i ∨ Held threads i
  waiting : ∀ t request, threads t = .waiting request → v.ready request → Notifying threads

structure Hands {ω : Type*} (v v' : View ω) (place' : WaitPlace ω) : Prop where
  pending : ∀ i, v'.pending i → v'.registered i ∨ (∃ code, (i, code) ∈ place'.sources) ∨ v.pending i ∧ ¬ v.registered i
  waits : ∀ request, place' = .waiting request → ¬ v'.ready request
  notifies : ∀ request, ¬ v.ready request → v'.ready request → ∃ sources, place' = .notifying sources

section Watching

variable {ω : Type*} {v v' : View ω} {threads : ℕ → WaitPlace ω} {t : ℕ} {place' : WaitPlace ω}

lemma Hands.refl (h : ∀ request, place' = .waiting request → ¬ v.ready request) : Hands v v place' where
  pending i hi := by
    by_cases hr : v.registered i
    · exact .inl hr
    · exact .inr (.inr ⟨hi, hr⟩)
  waits := h
  notifies _ hn hr := (hn hr).elim

lemma Watched.passes (h : Watched v threads) (hsources : (threads t).sources = [])
    (hplace : ∀ sources, threads t ≠ .notifying sources) (hh : Hands v v' place') :
    Watched v' (Function.update threads t place') := by
  refine ⟨fun i hi => ?_, fun w request hw hready => ?_⟩
  · rcases hh.pending i hi with hr | ⟨code, hmem⟩ | ⟨hp, hr⟩
    · exact .inl hr
    · exact .inr (held_self hmem)
    · exact .inr (((h.pending i hp).resolve_left hr).of_free hsources)
  · by_cases hb : v.ready request
    · rcases eq_or_ne w t with rfl | hne
      · rw [Function.update_self] at hw
        exact (hh.waits request hw hready).elim
      · rw [Function.update_of_ne hne] at hw
        exact (h.waiting w request hw hb).update hplace
    · obtain ⟨sources, rfl⟩ := hh.notifies request hb hready
      exact notifying_self

lemma Watched.passes_free (h : Watched v threads) (hfree : (threads t).free = true) (hh : Hands v v' place') :
    Watched v' (Function.update threads t place') := by
  refine h.passes (WaitPlace.sources_of_free hfree) ?_ hh
  rintro sources hplace
  rw [hplace] at hfree
  cases hfree

lemma Watched.settle (h : Watched v threads) {i : ℕ} (hp : ∀ j, v'.pending j → j ≠ i ∧ v.pending j)
    (hr : v'.registered = v.registered) (hready : v'.ready = v.ready)
    (hkeep : ∀ j code, j ≠ i → (j, code) ∈ (threads t).sources → (j, code) ∈ place'.sources)
    (hplace : place' = threads t ∨ (∀ sources, threads t ≠ .notifying sources) ∧ ∀ request, place' ≠ .waiting request) :
    Watched v' (Function.update threads t place') := by
  refine ⟨fun j hj => ?_, fun w request hw hready' => ?_⟩
  · obtain ⟨hne, hp'⟩ := hp j hj
    rw [hr]
    refine (h.pending j hp').imp_right fun hheld => hheld.update fun code hmem => ⟨code, hkeep j code hne hmem⟩
  · rw [hready] at hready'
    rcases hplace with rfl | ⟨hnot, hwaiting⟩
    · rw [Function.update_eq_self] at hw ⊢
      exact h.waiting w request hw hready'
    · rcases eq_or_ne w t with rfl | hne
      · rw [Function.update_self] at hw
        exact (hwaiting request hw).elim
      · rw [Function.update_of_ne hne] at hw
        exact (h.waiting w request hw hready').update hnot

lemma Watched.notify (h : Watched v threads) {sources : List (ℕ × ErrorCode)} (hplace : threads t = .notifying sources) :
    Watched v (Function.update (fun w => (threads w).wake) t (.completing sources)) := by
  refine ⟨fun i hi => (h.pending i hi).imp_right ?_, fun w request hw _ => ?_⟩
  · rintro ⟨w, code, hmem⟩
    rcases eq_or_ne w t with rfl | hne
    · rw [hplace] at hmem
      exact held_self hmem
    · refine ⟨w, code, ?_⟩
      rw [Function.update_of_ne hne, WaitPlace.wake_sources]
      exact hmem
  · rcases eq_or_ne w t with rfl | hne
    · simp at hw
    · rw [Function.update_of_ne hne] at hw
      exact (WaitPlace.wake_ne_waiting _ _ hw).elim

end Watching

section Settling

variable {κ : Type*} {subscriptions : Table (Subscription κ)} {i : ℕ} {f : Subscription κ → Subscription κ}

def Settles (f : Subscription κ → Subscription κ) : Prop := ∀ s, (f s).request = s.request ∧ (f s).isPending = false

lemma complete_settles (code : ErrorCode) : Settles (Subscription.complete code : Subscription κ → Subscription κ) :=
  fun s => ⟨s.complete_request code, s.complete_isPending code⟩

lemma reset_settles : Settles (Subscription.reset : Subscription κ → Subscription κ) :=
  fun s => ⟨s.reset_request, s.reset_isPending⟩

lemma Settles.row (hf : Settles f) (j : ℕ) :
    ((subscriptions.set i (f (subscriptions.row i))).row j).request = (subscriptions.row j).request ∧
      (((subscriptions.set i (f (subscriptions.row i))).row j).isPending = true →
        j ≠ i ∧ (subscriptions.row j).isPending = true) := by
  rw [Table.set_row]
  split_ifs with heq
  · subst heq
    exact ⟨(hf _).1, fun h => by simp [(hf _).2] at h⟩
  · exact ⟨rfl, fun h => ⟨heq, h⟩⟩

end Settling

end ServerCore.Runtime
