import Mathlib.Logic.Function.Basic
import Mathlib.Logic.Relation

/-! Machines that take one event at a time, and the local states of threads that work
on one shared state. -/

namespace ServerCore.Foundations

section Guard

variable {α β : Type*} {p : Prop} [Decidable p]

/-- What an action that was taken says: its guard held, and this is what it answers. -/
lemma of_guard {a b : α} (h : (if p then some a else none) = some b) : p ∧ a = b := by
  simpa using h

lemma of_guard_pair {a a' : α} {b b' : β} (h : (if p then some (a, b) else none) = some (a', b')) :
    p ∧ a = a' ∧ b = b' := by
  simpa using h

lemma of_some_pair {a a' : α} {b b' : β} (h : some (a, b) = some (a', b')) : a = a' ∧ b = b' := by
  simpa using h

end Guard

section Machine

variable {σ ε : Type*}

/-- The states that `events` lead to, as long as every one of them is enabled. -/
def run (step : σ → ε → Option σ) : σ → List ε → Option σ
  | s, [] => some s
  | s, e :: events => (step s e).bind fun s' => run step s' events

def Steps (step : σ → ε → Option σ) (s s' : σ) : Prop := ∃ events, run step s events = some s'

def Reachable (step : σ → ε → Option σ) (init : σ → Prop) (s : σ) : Prop :=
  ∃ s₀, init s₀ ∧ Steps step s₀ s

variable {step : σ → ε → Option σ} {init : σ → Prop}

lemma run_append {s s' : σ} {x y : List ε} (h : run step s x = some s') :
    run step s (x ++ y) = run step s' y := by
  induction x generalizing s with
  | nil =>
    obtain rfl := Option.some.inj h
    rfl
  | cons e x ih =>
    simp only [run, Option.bind_eq_some_iff] at h
    obtain ⟨t, ht, h⟩ := h
    rw [List.cons_append, run, ht, Option.bind_some, ih h]

lemma Steps.refl (s : σ) : Steps step s s := ⟨[], rfl⟩

lemma Steps.single {s t : σ} {e : ε} (h : step s e = some t) : Steps step s t :=
  ⟨[e], by simp [run, h]⟩

lemma Steps.trans {s s' s'' : σ} (h : Steps step s s') (h' : Steps step s' s'') : Steps step s s'' := by
  obtain ⟨x, hx⟩ := h
  obtain ⟨y, hy⟩ := h'
  exact ⟨x ++ y, by rw [run_append hx, hy]⟩

/-- What holds of a state and survives every step holds of all later states. -/
lemma Steps.invariant {P : σ → Prop} {s s' : σ} (h : Steps step s s') (hs : P s)
    (hstep : ∀ t e t', P t → step t e = some t' → P t') : P s' := by
  obtain ⟨events, hrun⟩ := h
  induction events generalizing s with
  | nil =>
    obtain rfl := Option.some.inj hrun
    exact hs
  | cons e events ih =>
    simp only [run, Option.bind_eq_some_iff] at hrun
    obtain ⟨t, ht, hrun⟩ := hrun
    exact ih (hstep s e t hs ht) hrun

lemma Reachable.steps {s s' : σ} (h : Reachable step init s) (h' : Steps step s s') : Reachable step init s' := by
  obtain ⟨s₀, hinit, hsteps⟩ := h
  exact ⟨s₀, hinit, hsteps.trans h'⟩

lemma Reachable.invariant {P : σ → Prop} {s : σ} (h : Reachable step init s) (hinit : ∀ s, init s → P s)
    (hstep : ∀ t e t', P t → step t e = some t' → P t') : P s := by
  obtain ⟨s₀, h₀, hsteps⟩ := h
  exact hsteps.invariant (hinit s₀ h₀) hstep

end Machine

section Threads

variable {ι κ : Type*} {L : Type*} [DecidableEq ι]

/-- No two threads hold the same thing. -/
def Exclusive (owns : L → κ → Prop) (threads : ι → L) : Prop :=
  ∀ w w' k, owns (threads w) k → owns (threads w') k → w = w'

/-- A thread may come to hold what it held before, or what nobody held. -/
lemma Exclusive.update {owns : L → κ → Prop} {threads : ι → L} (h : Exclusive owns threads) {w : ι} {l : L}
    (hl : ∀ k, owns l k → owns (threads w) k ∨ ∀ w', ¬ owns (threads w') k) :
    Exclusive owns (Function.update threads w l) := by
  have key (v : ι) (k : κ) (hv : owns (Function.update threads w l v) k) :
      owns (threads v) k ∨ v = w ∧ ∀ w', ¬ owns (threads w') k := by
    rcases eq_or_ne v w with heq | hne
    · rw [heq, Function.update_self] at hv
      rcases hl k hv with hk | hk
      · exact .inl (heq ▸ hk)
      · exact .inr ⟨heq, hk⟩
    · rw [Function.update_of_ne hne] at hv
      exact .inl hv
  intro v v' k hv hv'
  rcases key v k hv with hk | ⟨rfl, hk⟩ <;> rcases key v' k hv' with hk' | ⟨rfl, hk'⟩
  · exact h v v' k hk hk'
  · exact absurd hk (hk' v)
  · exact absurd hk' (hk v')
  · rfl

/-- After one thread's step a property of all local states is one of the new local state and of
the others. -/
lemma forall_update_iff {threads : ι → L} {w : ι} {l : L} {P : L → Prop} :
    (∀ v, P (Function.update threads w l v)) ↔ P l ∧ ∀ v, v ≠ w → P (threads v) := by
  constructor
  · intro h
    refine ⟨?_, fun v hv => ?_⟩
    · have := h w
      rwa [Function.update_self] at this
    · have := h v
      rwa [Function.update_of_ne hv] at this
  · rintro ⟨hl, h⟩ v
    rcases eq_or_ne v w with rfl | hv
    · rwa [Function.update_self]
    · rw [Function.update_of_ne hv]
      exact h v hv

end Threads

end ServerCore.Foundations
