import ServerCore.Runtime.TimerScheduler
import Mathlib.Algebra.Order.Ring.Int

/-! The grid of a fixed-rate timer in the signed 64-bit arithmetic of the steady clock. -/

namespace ServerCore.Runtime.TimerGrid

variable {served interval now slot : Int64}

def signed (x : ℤ) : Option Int64 := if -2 ^ 63 ≤ x ∧ x < 2 ^ 63 then some (.ofInt x) else none

def after (now interval : Int64) : Option Int64 := do
  let room ← signed (Int64.maxValue.toInt - now.toInt)
  if interval > room then return Int64.maxValue
  signed (now.toInt + interval.toInt)

def nextSlot (served interval now : Int64) : Option Int64 := do
  let next ← after served interval
  if next > now || next = Int64.maxValue then return next
  let elapsed ← signed (now.toInt - served.toInt)
  let slots ← signed (elapsed.toInt.tdiv interval.toInt)
  let whole ← signed (slots.toInt * interval.toInt)
  signed (served.toInt + whole.toInt)

structure OnGrid (served interval now slot : Int64) : Prop where
  later : served < slot
  grid : Int64.maxValue.toInt < served.toInt + interval.toInt ∧ slot = Int64.maxValue ∨
    ∃ k : ℤ, 1 ≤ k ∧ slot.toInt = served.toInt + k * interval.toInt ∧
      (now.toInt < served.toInt + interval.toInt → k = 1) ∧
      (served.toInt + interval.toInt ≤ now.toInt → slot ≤ now ∧ ∀ j : ℤ, served.toInt + j * interval.toInt ≤ now.toInt → j ≤ k)

lemma signed_eq_some {x : ℤ} {y : Int64} : signed x = some y ↔ y.toInt = x := by
  rw [signed]
  split
  · rename_i h
    rw [Option.some.injEq]
    constructor
    · rintro rfl
      exact Int64.toInt_ofInt_of_le h.1 h.2
    · rintro rfl
      exact Int64.ofInt_toInt y
  · rename_i h
    have hlow := y.le_toInt
    have hhigh := y.toInt_lt
    constructor
    · exact nofun
    · rintro rfl
      exact absurd ⟨hlow, hhigh⟩ h

lemma after_eq_some (h : 0 ≤ now) (hi : 0 < interval) : ∃ next, after now interval = some next ∧
    (Int64.maxValue.toInt < now.toInt + interval.toInt ∧ next = Int64.maxValue ∨ next.toInt = now.toInt + interval.toInt) := by
  have hpos : 0 ≤ now.toInt := Int64.le_iff_toInt_le.mp h
  have hstep : 0 < interval.toInt := Int64.lt_iff_toInt_lt.mp hi
  have hmax := Int64.toInt_maxValue
  have hlt := now.toInt_lt
  have hroom : ∃ room, signed (Int64.maxValue.toInt - now.toInt) = some room := by
    rw [signed, if_pos]
    · exact ⟨_, rfl⟩
    · omega
  obtain ⟨room, hroom⟩ := hroom
  have hvalue := signed_eq_some.mp hroom
  simp only [after, hroom, Option.bind_eq_bind, Option.bind_some]
  split
  · rename_i hlarge
    have hlarge : room.toInt < interval.toInt := Int64.lt_iff_toInt_lt.mp hlarge
    exact ⟨_, rfl, .inl ⟨by omega, rfl⟩⟩
  · rename_i hsmall
    have hsmall : ¬ room.toInt < interval.toInt := mt Int64.lt_iff_toInt_lt.mpr hsmall
    refine ⟨.ofInt (now.toInt + interval.toInt), ?_, .inr ?_⟩
    · rw [signed, if_pos]
      omega
    · exact Int64.toInt_ofInt_of_le (by omega) (by omega)

section Scheduler

open TimerScheduler (maximumTime)

lemma after_toInt {next : Int64} (h : after now interval = some next) :
    next.toInt = TimerScheduler.after now.toInt interval.toInt := by
  have hmax : Int64.maxValue.toInt = maximumTime := Int64.toInt_maxValue
  simp only [after, Option.bind_eq_bind, Option.bind_eq_some_iff] at h
  obtain ⟨room, hroom, h⟩ := h
  have hroom := signed_eq_some.mp hroom
  have htest : interval > room ↔ interval.toInt > maximumTime - now.toInt := by
    rw [gt_iff_lt, Int64.lt_iff_toInt_lt, hroom, hmax]
  rw [TimerScheduler.after]
  split at h
  · rename_i hlarge
    rw [if_pos (htest.mp hlarge), ← Option.some.inj h, hmax]
  · rename_i hsmall
    rw [if_neg (mt htest.mpr hsmall), signed_eq_some.mp h]

theorem nextSlot_toInt (h : nextSlot served interval now = some slot) :
    slot.toInt = TimerScheduler.nextSlot served.toInt interval.toInt now.toInt := by
  have hmax : Int64.maxValue.toInt = maximumTime := Int64.toInt_maxValue
  simp only [nextSlot, Option.bind_eq_bind, Option.bind_eq_some_iff] at h
  obtain ⟨next, hnext, h⟩ := h
  have htest : (next > now || next = Int64.maxValue) = (next.toInt > now.toInt || next.toInt = maximumTime : Bool) := by
    simp only [gt_iff_lt, Int64.lt_iff_toInt_lt, ← hmax, Int64.toInt_inj]
  rw [TimerScheduler.nextSlot, ← after_toInt hnext, ← htest]
  split at h
  · rename_i hearly
    rw [if_pos hearly, ← Option.some.inj h]
  · rename_i hlate
    simp only [Option.bind_eq_some_iff, signed_eq_some] at h
    obtain ⟨elapsed, helapsed, slots, hslots, whole, hwhole, h⟩ := h
    rw [if_neg hlate, h, hwhole, hslots, helapsed]

end Scheduler

lemma signed_some {x : ℤ} (hl : 0 ≤ x) (hh : x < 2 ^ 63) : ∃ y, signed x = some y ∧ y.toInt = x := by
  have h : -2 ^ 63 ≤ x := by omega
  exact ⟨.ofInt x, if_pos ⟨h, hh⟩, Int64.toInt_ofInt_of_le h hh⟩

lemma round_down {elapsed step : ℤ} (hs : 0 < step) (he : step ≤ elapsed) : 1 ≤ elapsed.tdiv step ∧
    elapsed.tdiv step * step ≤ elapsed ∧ elapsed.tdiv step ≤ elapsed ∧ ∀ j, j * step ≤ elapsed → j ≤ elapsed.tdiv step := by
  have hpos : 0 ≤ elapsed := by omega
  rw [Int.tdiv_eq_ediv_of_nonneg hpos]
  refine ⟨(Int.le_ediv_iff_mul_le hs).mpr ?_, Int.ediv_mul_le _ hs.ne', Int.ediv_le_self _ hpos, fun j hj => ?_⟩
  · rwa [one_mul]
  · exact (Int.le_ediv_iff_mul_le hs).mpr hj

lemma nextSlot_eq_some (h : 0 ≤ served) (hi : 0 < interval) (hnow : served ≤ now) :
    ∃ slot, nextSlot served interval now = some slot ∧ (served < Int64.maxValue → OnGrid served interval now slot) ∧
      (served = Int64.maxValue → slot = Int64.maxValue) := by
  obtain ⟨next, hnext, hvalue⟩ := after_eq_some h hi
  have hpos : 0 ≤ served.toInt := Int64.le_iff_toInt_le.mp h
  have hstep : 0 < interval.toInt := Int64.lt_iff_toInt_lt.mp hi
  have hle : served.toInt ≤ now.toInt := Int64.le_iff_toInt_le.mp hnow
  have hlt := now.toInt_lt
  have hmax := Int64.toInt_maxValue
  have hlast := next.toInt_lt
  have hfinite (hne : next ≠ Int64.maxValue) : next.toInt = served.toInt + interval.toInt :=
    hvalue.resolve_left fun hlarge => hne hlarge.2
  simp only [nextSlot, hnext, Option.bind_eq_bind, Option.bind_some]
  split
  · rename_i hearly
    simp only [gt_iff_lt, Bool.or_eq_true, decide_eq_true_eq] at hearly
    refine ⟨next, rfl, fun hserved => ?_, fun hserved => ?_⟩
    · have hserved := Int64.lt_iff_toInt_lt.mp hserved
      constructor
      · rw [Int64.lt_iff_toInt_lt]
        rcases hvalue with ⟨-, rfl⟩ | hvalue
        · exact hserved
        · omega
      · refine hvalue.imp_right fun hvalue => ⟨1, le_rfl, by rw [hvalue, one_mul], fun _ => rfl, fun hdue => ?_⟩
        have hend : now.toInt = next.toInt := by
          rcases hearly with hearly | rfl
          · have := Int64.lt_iff_toInt_lt.mp hearly
            omega
          · omega
        refine ⟨Int64.le_iff_toInt_le.mpr hend.ge, fun j hj => ?_⟩
        have hstep' : j * interval.toInt ≤ 1 * interval.toInt := by omega
        exact le_of_mul_le_mul_right hstep' hstep
    · rcases hearly with hearly | hearly
      · have := Int64.lt_iff_toInt_lt.mp hearly
        rw [hserved] at hle
        omega
      · exact hearly
  · rename_i hlate
    simp only [gt_iff_lt, Bool.or_eq_true, decide_eq_true_eq, not_or] at hlate
    obtain ⟨hdue, hne⟩ := hlate
    have hnextValue := hfinite hne
    have hdue : next.toInt ≤ now.toInt := not_lt.mp (mt Int64.lt_iff_toInt_lt.mpr hdue)
    obtain ⟨hone, hbelow, hslots, hlastSlot⟩ := round_down hstep (show interval.toInt ≤ now.toInt - served.toInt by omega)
    obtain ⟨elapsed, helapsed, helapsedValue⟩ := signed_some (x := now.toInt - served.toInt) (by omega) (by omega)
    simp only [helapsed, Option.bind_some, helapsedValue]
    obtain ⟨slots, hslots, hslotsValue⟩ := signed_some (x := (now.toInt - served.toInt).tdiv interval.toInt) (by omega) (by omega)
    simp only [hslots, Option.bind_some, hslotsValue]
    have hwholePos := Int.mul_pos (show 0 < (now.toInt - served.toInt).tdiv interval.toInt by omega) hstep
    obtain ⟨whole, hwhole, hwholeValue⟩ := signed_some (x := (now.toInt - served.toInt).tdiv interval.toInt * interval.toInt)
      (by omega) (by omega)
    simp only [hwhole, Option.bind_some, hwholeValue]
    obtain ⟨slot, hslot, hslotValue⟩ := signed_some
      (x := served.toInt + (now.toInt - served.toInt).tdiv interval.toInt * interval.toInt) (by omega) (by omega)
    refine ⟨slot, hslot, fun _ => ⟨?_, .inr ⟨_, hone, hslotValue, fun hearly => ?_, fun _ => ⟨?_, fun j hj => ?_⟩⟩⟩, fun hserved => ?_⟩
    · rw [Int64.lt_iff_toInt_lt]
      omega
    · omega
    · rw [Int64.le_iff_toInt_le]
      omega
    · exact hlastSlot j (by omega)
    · rw [hserved] at hnextValue hle
      omega

/-- From the epoch on nothing overflows, and the next due time of a timer is on its grid or at the end of the time range. -/
theorem nextSlot_onGrid (h : 0 ≤ served) (hnow : served ≤ now) (hi : 0 < interval) :
    (after served interval).isSome = true ∧ (after now interval).isSome = true ∧
    ∃ slot, nextSlot served interval now = some slot ∧ (served < Int64.maxValue → OnGrid served interval now slot) ∧
      (served = Int64.maxValue → slot = Int64.maxValue) := by
  obtain ⟨next, hnext, -⟩ := after_eq_some h hi
  obtain ⟨next', hnext', -⟩ := after_eq_some (Int64.le_trans h hnow) hi
  refine ⟨?_, ?_, nextSlot_eq_some h hi hnow⟩
  · rw [hnext, Option.isSome_some]
  · rw [hnext', Option.isSome_some]

theorem nextSlot_merges : ∃ slot, nextSlot 5 10 38 = some slot ∧ OnGrid 5 10 38 slot := by
  obtain ⟨-, -, slot, hslot, hgrid, -⟩ := @nextSlot_onGrid 5 10 38 (by decide) (by decide) (by decide)
  exact ⟨slot, hslot, hgrid (by decide)⟩

/-- In front of the epoch the test for the saturation overflows itself, and nothing lies behind the end of the time range. -/
theorem nextSlot_leaves_the_grid : (¬ ∀ served interval now : Int64, served ≤ now → 0 < interval →
      ∃ slot, nextSlot served interval now = some slot ∧ OnGrid served interval now slot) ∧
    ¬ ∀ served interval now : Int64, 0 ≤ served → served ≤ now → 0 < interval →
      ∃ slot, nextSlot served interval now = some slot ∧ OnGrid served interval now slot := by
  refine ⟨fun hclaim => ?_, fun hclaim => ?_⟩
  · obtain ⟨slot, hslot, -⟩ := hclaim (-1) 1 0 (by decide) (by decide)
    have hnone : nextSlot (-1) 1 0 = none := by decide
    rw [hnone] at hslot
    cases hslot
  · obtain ⟨slot, -, hgrid⟩ := hclaim Int64.maxValue 1 Int64.maxValue (by decide) (Int64.le_refl _) (by decide)
    exact absurd hgrid.later Int64.not_maxValue_lt

end ServerCore.Runtime.TimerGrid
