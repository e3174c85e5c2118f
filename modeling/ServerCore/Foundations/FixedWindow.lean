import Mathlib.Algebra.Order.Ring.Int
import Mathlib.Algebra.Order.Group.Nat
import Mathlib.Data.List.Basic
import Mathlib.Order.Basic

/-! Fixed windows of one period, each with its own allowance: how many uses fall into a span of time. -/

namespace ServerCore.Foundations

structure Window where
  start : ℕ
  used : ℕ
  deriving DecidableEq, Repr

/-- What a history shows of its windows. -/
inductive Mark
  | opens (start : ℕ) (forced : Bool)
  | uses (time : ℕ)
  deriving DecidableEq, Repr

def Mark.forced : Mark → Bool
  | .opens _ forced => forced
  | .uses _ => false

def Mark.isOpening : Mark → Bool
  | .opens _ _ => true
  | .uses _ => false

def Mark.within (a b : ℕ) : Mark → Bool
  | .uses time => a ≤ time && time ≤ b
  | .opens _ _ => false

def usesBetween (a b : ℕ) (marks : List Mark) : ℕ := marks.countP (Mark.within a b)

variable {limit period : ℕ}

/-- The windows that a history goes through. A window that nobody forces open follows the last one by a period. -/
inductive Paced (limit period : ℕ) : Option Window → List Mark → Option Window → Prop
  | nil (w : Option Window) : Paced limit period w [] w
  | opens {w w' : Option Window} {start : ℕ} {forced : Bool} {marks : List Mark}
      (hnext : forced = true ∨ ∀ v, w = some v → v.start + period ≤ start)
      (h : Paced limit period (some ⟨start, 0⟩) marks w') : Paced limit period w (.opens start forced :: marks) w'
  | uses {v : Window} {w' : Option Window} {time : ℕ} {marks : List Mark} (hstart : v.start ≤ time)
      (hend : time < v.start + period) (hlimit : v.used < limit)
      (h : Paced limit period (some ⟨v.start, v.used + 1⟩) marks w') : Paced limit period (some v) (.uses time :: marks) w'

namespace Paced

variable {w w' w'' : Option Window} {x y : List Mark}

lemma append (h : Paced limit period w x w') (h' : Paced limit period w' y w'') : Paced limit period w (x ++ y) w'' := by
  induction h with
  | nil => exact h'
  | opens hnext _ ih => exact .opens hnext (ih h')
  | uses hstart hend hlimit _ ih => exact .uses hstart hend hlimit (ih h')

lemma split (h : Paced limit period w (x ++ y) w'') :
    ∃ w', Paced limit period w x w' ∧ Paced limit period w' y w'' := by
  induction x generalizing w with
  | nil => exact ⟨w, .nil w, h⟩
  | cons mark x ih =>
    cases h with
    | opens hnext h =>
      obtain ⟨w', hx, hy⟩ := ih h
      exact ⟨w', .opens hnext hx, hy⟩
    | uses hstart hend hlimit h =>
      obtain ⟨w', hx, hy⟩ := ih h
      exact ⟨w', .uses hstart hend hlimit hx, hy⟩

-- Without an opening the window stays.
lemma start_eq {v : Window} (h : Paced limit period (some v) x w') (hx : x.any Mark.isOpening = false) :
    ∃ v', w' = some v' ∧ v'.start = v.start := by
  induction x generalizing v with
  | nil =>
    cases h
    exact ⟨v, rfl, rfl⟩
  | cons mark x ih =>
    rw [List.any_cons, Bool.or_eq_false_iff] at hx
    cases h with
    | opens => cases hx.1
    | uses _ _ _ h =>
      obtain ⟨v', hv', hs⟩ := ih h hx.2
      exact ⟨v', hv', hs⟩

lemma spaced {s t : ℕ} {forced : Bool} (h : Paced limit period w (x ++ .opens s forced :: y ++ [.opens t false]) w')
    (hy : y.any Mark.isOpening = false) : s + period ≤ t := by
  obtain ⟨w₁, h₁, hlast⟩ := h.split
  obtain ⟨w₂, -, h₂⟩ := h₁.split
  cases h₂ with
  | opens _ h₂ =>
    obtain ⟨v, rfl, hv⟩ := h₂.start_eq hy
    cases hlast with
    | opens hnext _ =>
      have hlater := hnext.resolve_left nofun v rfl
      rwa [hv] at hlater

section Span

/-- How many windows that start from `x` on can have started by `e`. -/
def room (period e x : ℕ) : ℕ := (e + period - x) / period

lemma room_mono {e z z' : ℕ} (h : z ≤ z') : room period e z' ≤ room period e z := by
  apply Nat.div_le_div_right
  omega

lemma room_succ {e z : ℕ} (hp : 0 < period) (h : z ≤ e) : room period e (z + period) + 1 = room period e z := by
  rw [room, room, show e + period - z = e + period - (z + period) + period by omega, Nat.add_div_right _ hp]

lemma room_zero {e z : ℕ} (h : e < z) : room period e (z + period) = 0 := by
  rw [room, show e + period - (z + period) = 0 by omega, Nat.zero_div]

/-- The uses that a history from `w` on can have between `lo` and `e` if it forces no window open. -/
def allowance (limit period lo e : ℕ) : Option Window → ℕ
  | none => limit * room period e lo
  | some v => (if lo ≤ v.start ∧ v.start ≤ e then limit - v.used else 0) + limit * room period e (max (v.start + period) lo)

lemma allowance_opens {lo e start : ℕ} (hp : 0 < period) (hnext : ∀ v, w = some v → v.start + period ≤ start) :
    allowance limit period lo e (some ⟨start, 0⟩) ≤ allowance limit period lo e w := by
  have hbound (z : ℕ) (hz : lo ≤ z → lo ≤ start → z ≤ start) (hz' : start < lo → z ≤ max (start + period) lo) (hlo : lo ≤ z) :
      allowance limit period lo e (some ⟨start, 0⟩) ≤ limit * room period e z := by
    rw [allowance]
    dsimp only
    by_cases hstart : lo ≤ start
    · rw [max_eq_left (by omega)]
      by_cases hend : start ≤ e
      · rw [if_pos ⟨hstart, hend⟩, Nat.sub_zero, Nat.add_comm, ← Nat.mul_succ, Nat.succ_eq_add_one, room_succ hp hend]
        exact Nat.mul_le_mul_left _ (room_mono (hz hlo hstart))
      · rw [if_neg (fun h => hend h.2), room_zero (not_le.mp hend)]
        exact Nat.zero_le _
    · rw [if_neg (fun h => hstart h.1), Nat.zero_add]
      exact Nat.mul_le_mul_left _ (room_mono (hz' (not_le.mp hstart)))
  cases w with
  | none => exact hbound lo (fun _ h => h) (fun _ => le_max_right _ _) le_rfl
  | some v =>
    have hv := hnext v rfl
    refine (hbound (max (v.start + period) lo) (fun _ h => max_le hv h) (fun h => ?_) (le_max_right _ _)).trans (Nat.le_add_left _ _)
    exact max_le_max_right lo (by omega)

lemma allowance_uses {lo e : ℕ} {v : Window} (hlimit : v.used < limit) (hlo : lo ≤ v.start) (he : v.start ≤ e) :
    allowance limit period lo e (some ⟨v.start, v.used + 1⟩) + 1 = allowance limit period lo e (some v) := by
  rw [allowance, allowance]
  dsimp only
  rw [if_pos ⟨hlo, he⟩, if_pos ⟨hlo, he⟩]
  omega

lemma allowance_mono {lo e : ℕ} {v : Window} :
    allowance limit period lo e (some ⟨v.start, v.used + 1⟩) ≤ allowance limit period lo e (some v) := by
  rw [allowance, allowance]
  dsimp only
  split <;> omega

lemma uses_le_allowance {a e : ℕ} (hp : 0 < period) (h : Paced limit period w x w') (hx : x.any Mark.forced = false) :
    usesBetween a e x ≤ allowance limit period (a + 1 - period) e w := by
  induction h with
  | nil => exact Nat.zero_le _
  | @opens w w' start forced marks hnext h ih =>
    rw [List.any_cons, Bool.or_eq_false_iff] at hx
    refine Nat.le_trans ?_ (allowance_opens hp (hnext.resolve_left ?_))
    · rw [usesBetween, List.countP_cons_of_neg (Bool.eq_false_iff.mp rfl)]
      exact ih hx.2
    · rw [show forced = false from hx.1]
      exact nofun
  | @uses v w' time marks hstart hend hlimit h ih =>
    rw [List.any_cons, Bool.or_eq_false_iff] at hx
    have hrest := ih hx.2
    rw [usesBetween, List.countP_cons]
    by_cases hin : (Mark.uses time).within a e = true
    · obtain ⟨hlow, hhigh⟩ : a ≤ time ∧ time ≤ e := by simpa [Mark.within] using hin
      rw [if_pos hin, ← allowance_uses hlimit (by omega) (by omega)]
      exact Nat.add_le_add_right hrest 1
    · rw [if_neg hin]
      exact hrest.trans allowance_mono

lemma allowance_le {a span : ℕ} (hp : 0 < period) :
    allowance limit period (a + 1 - period) (a + span) w ≤ limit * (span / period + 2) := by
  have hroom : room period (a + span) (a + 1 - period) ≤ span / period + 2 := by
    calc room period (a + span) (a + 1 - period) ≤ (span + period + period) / period := Nat.div_le_div_right (by omega)
      _ = span / period + 2 := by rw [Nat.add_div_right _ hp, Nat.add_div_right _ hp]
  refine Nat.le_trans ?_ (Nat.mul_le_mul_left limit hroom)
  cases w with
  | none => exact le_rfl
  | some v =>
    rw [allowance]
    split
    · rename_i h
      rw [max_eq_left (by omega)]
      calc limit - v.used + limit * room period (a + span) (v.start + period)
          ≤ limit + limit * room period (a + span) (v.start + period) := Nat.add_le_add_right (Nat.sub_le _ _) _
        _ = limit * room period (a + span) v.start := by rw [← room_succ hp h.2, Nat.mul_succ, Nat.add_comm]
        _ ≤ limit * room period (a + span) (a + 1 - period) := Nat.mul_le_mul_left _ (room_mono h.1)
    · rw [Nat.zero_add]
      exact Nat.mul_le_mul_left _ (room_mono (le_max_right _ _))

/-- A span of time has at most two windows more than it has full periods. -/
theorem usesBetween_le {a span : ℕ} (hp : 0 < period) (h : Paced limit period w x w') (hx : x.any Mark.forced = false) :
    usesBetween a (a + span) x ≤ limit * (span / period + 2) :=
  (h.uses_le_allowance hp hx).trans (allowance_le hp)

end Span

end Paced

end ServerCore.Foundations
