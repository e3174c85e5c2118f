import ServerCore.Core.CheckedArithmetic
import ServerCore.Core.Status
import ServerCore.Foundations.Grid
import ServerCore.Foundations.Transition

/-! `PeriodicRunner`: the timer thread's turns, the posted callbacks and `Stop` as one machine. -/

namespace ServerCore.Runtime.PeriodicRunner

open ServerCore.Core ServerCore.Foundations

structure Period where
  ticks : ℤ
  pos : 0 < ticks
  bounded : ticks ≤ 24 * 3600000 * 1000000

/-- The tests `Start` makes of a period in milliseconds and of the callback. -/
def checkPeriod (milliseconds : ℤ) (hasCallback : Bool) : Except Status Period :=
  if h : milliseconds ≤ 0 then .error (.fail .invalidArgument "PeriodicRunner period must be positive")
  else if h' : 24 * 3600000 < milliseconds then
    .error (.fail .invalidArgument "PeriodicRunner period cannot exceed 24 hours")
  else if !hasCallback then .error (.fail .invalidArgument "PeriodicRunner callback cannot be empty")
  else .ok ⟨milliseconds * 1000000, by omega, by omega⟩

inductive PostResult
  | ok
  | closed
  | refused
  deriving DecidableEq, Repr

structure State where
  start : ℤ
  clock : ℤ
  handled : Option ℤ := none
  nextDue : ℤ
  skippedCount : ℕ := 0
  recordedSkips : ℕ := 0
  callbackOutstanding : Bool := false
  stopRequested : Bool := false
  running : Bool := true
  posted : ℕ := 0
  queued : ℕ := 0
  executing : ℕ := 0
  aborted : Bool := false
  deriving DecidableEq, Repr

def skipPeriods (s : State) (count : ℕ) : Option State := do
  let total ← unsigned64 (s.skippedCount + count)
  return { s with skippedCount := total, recordedSkips := s.recordedSkips + count }

def afterPost (s : State) : PostResult → Option State
  | .ok => some { s with callbackOutstanding := true, posted := s.posted + 1, queued := s.queued + 1 }
  | .closed => skipPeriods { s with stopRequested := true } 1
  | .refused => skipPeriods s 1

/-- One turn of the loop of `RunTimer`, whose wait ends at `now`. `none` is an arithmetic overflow. -/
def runTimer (p : Period) (s : State) (now : ℤ) (post : PostResult) : Option State :=
  if s.stopRequested then some { s with running := false }
  else if now < s.nextDue then some { s with clock := now }
  else do
    let s := { s with clock := now, handled := some now }
    let lateness ← signed64 (now - s.nextDue)
    if p.ticks ≤ lateness then
      let skipped ← unsigned64 ((lateness.tdiv p.ticks).toNat + 1)
      let s ← skipPeriods s skipped
      let remainder := lateness.tmod p.ticks
      let nextDue ← signed64 (now + if remainder = 0 then p.ticks else p.ticks - remainder)
      return { s with nextDue }
    else
      let nextDue ← signed64 (s.nextDue + p.ticks)
      let s := { s with nextDue }
      if s.callbackOutstanding then skipPeriods s 1 else afterPost s post

inductive Event
  | wake (now : ℤ) (post : PostResult)
  | requestStop
  | beginCallback
  | discardCallback
  | finishCallback
  | throwCallback
  deriving DecidableEq, Repr

def step (p : Period) (s : State) : Event → Option State
  | .wake now post => if s.aborted || !s.running || now < s.clock then none else runTimer p s now post
  | .requestStop => if s.aborted then none else some { s with stopRequested := true }
  | .beginCallback =>
    if s.aborted || s.queued = 0 then none
    else some { s with queued := s.queued - 1, executing := s.executing + 1 }
  | .discardCallback => if s.aborted || s.queued = 0 then none else some { s with queued := s.queued - 1 }
  | .finishCallback =>
    if s.aborted || s.executing = 0 then none
    else some { s with executing := s.executing - 1, callbackOutstanding := false }
  | .throwCallback =>
    if s.aborted || s.executing = 0 then none else some { s with callbackOutstanding := false, aborted := true }

def Initial (p : Period) (s : State) : Prop :=
  ∃ start, s = { start, clock := start, nextDue := start + p.ticks }

def grid (p : Period) (s : State) : Grid := ⟨s.start + p.ticks, p.ticks, p.pos⟩

structure Inv (p : Period) (s : State) : Prop where
  due : s.nextDue = (grid p s).point (s.posted + s.skippedCount)
  passed : ∀ t, s.handled = some t → s.posted + s.skippedCount = (grid p s).passed t
  untouched : s.handled = none → s.posted + s.skippedCount = 0
  single : s.queued + s.executing ≤ 1
  free : s.aborted = false → s.callbackOutstanding = false → s.queued + s.executing = 0

variable {p : Period} {s s' : State}

lemma skipPeriods_some {count : ℕ} (h : skipPeriods s count = some s') :
    s' = { s with skippedCount := s.skippedCount + count, recordedSkips := s.recordedSkips + count } := by
  simp only [skipPeriods, Option.bind_eq_bind, Option.bind_eq_some_iff] at h
  obtain ⟨total, htotal, h⟩ := h
  obtain ⟨rfl, -⟩ := unsigned64_eq_some.mp htotal
  exact (Option.some.inj h).symm

structure Handled (p : Period) (s s' : State) (now : ℤ) : Prop where
  due : s.nextDue ≤ now
  nextDue : s'.nextDue = s.nextDue + ((now - s.nextDue) / p.ticks + 1) * p.ticks
  counted : (s'.posted + s'.skippedCount : ℤ) = s.posted + s.skippedCount + (now - s.nextDue) / p.ticks + 1
  handled : s'.handled = some now
  start : s'.start = s.start
  callbacks : s'.queued = s.queued ∧ s'.callbackOutstanding = s.callbackOutstanding ∨
    s.callbackOutstanding = false ∧ s'.queued = s.queued + 1 ∧ s'.callbackOutstanding = true
  others : s'.executing = s.executing ∧ s'.aborted = s.aborted

lemma next_of_remainder {due now ticks : ℤ} (h : due ≤ now) :
    now + (if (now - due).tmod ticks = 0 then ticks else ticks - (now - due).tmod ticks) =
      due + ((now - due) / ticks + 1) * ticks := by
  have hdiv := Int.ediv_mul_add_emod (now - due) ticks
  rw [Int.tmod_eq_emod_of_nonneg (by omega), Int.add_mul, Int.one_mul]
  split <;> omega

lemma runTimer_cases {now : ℤ} {post : PostResult} (h : runTimer p s now post = some s') :
    s' = { s with running := false } ∨ now < s.nextDue ∧ s' = { s with clock := now } ∨ Handled p s s' now := by
  have hpos := p.pos
  unfold runTimer at h
  split at h
  · exact .inl (Option.some.inj h).symm
  split at h
  · rename_i hearly
    exact .inr (.inl ⟨hearly, (Option.some.inj h).symm⟩)
  rename_i hdue
  refine .inr (.inr ?_)
  simp only [Option.bind_eq_bind, Option.bind_eq_some_iff] at h
  obtain ⟨lateness, hlateness, h⟩ := h
  obtain ⟨rfl, -⟩ := signed64_eq_some.mp hlateness
  split at h
  · rename_i hlate
    simp only [Option.bind_eq_some_iff] at h
    obtain ⟨skipped, hskipped, t, ht, next, hnext, h⟩ := h
    obtain ⟨rfl, -⟩ := unsigned64_eq_some.mp hskipped
    obtain ⟨rfl, -⟩ := signed64_eq_some.mp hnext
    obtain rfl := skipPeriods_some ht
    obtain rfl := Option.some.inj h
    have hq : 0 ≤ (now - s.nextDue) / p.ticks := Int.ediv_nonneg (by omega) hpos.le
    refine ⟨by omega, next_of_remainder (by omega), ?_, rfl, rfl, .inl ⟨rfl, rfl⟩, ⟨rfl, rfl⟩⟩
    simp only [Int.tdiv_eq_ediv_of_nonneg (by omega : 0 ≤ now - s.nextDue)]
    omega
  · rename_i hshort
    have hzero : (now - s.nextDue) / p.ticks = 0 := Int.ediv_eq_zero_of_lt (by omega) (by omega)
    simp only [Option.bind_eq_some_iff] at h
    obtain ⟨next, hnext, h⟩ := h
    obtain ⟨rfl, -⟩ := signed64_eq_some.mp hnext
    have hskip {t : State} (ht : skipPeriods t 1 = some s') (hd : t.nextDue = s.nextDue + p.ticks)
        (hc : t.posted = s.posted ∧ t.skippedCount = s.skippedCount) (hh : t.handled = some now) (hs : t.start = s.start)
        (hb : t.queued = s.queued ∧ t.callbackOutstanding = s.callbackOutstanding)
        (ho : t.executing = s.executing ∧ t.aborted = s.aborted) : Handled p s s' now := by
      obtain rfl := skipPeriods_some ht
      refine ⟨by omega, ?_, ?_, hh, hs, .inl hb, ho⟩
      · rw [hzero]
        show t.nextDue = _
        omega
      · rw [hzero]
        show (t.posted + (t.skippedCount + 1 : ℕ) : ℤ) = _
        omega
    split at h
    · exact hskip h rfl ⟨rfl, rfl⟩ rfl rfl ⟨rfl, rfl⟩ ⟨rfl, rfl⟩
    · rename_i hfree
      cases post with
      | ok =>
        obtain rfl := Option.some.inj h
        refine ⟨by omega, ?_, ?_, rfl, rfl, .inr ⟨by simpa using hfree, rfl, rfl⟩, ⟨rfl, rfl⟩⟩
        · rw [hzero]
          show s.nextDue + p.ticks = _
          omega
        · rw [hzero]
          show ((s.posted + 1 : ℕ) + s.skippedCount : ℤ) = _
          omega
      | closed => exact hskip h rfl ⟨rfl, rfl⟩ rfl rfl ⟨rfl, rfl⟩ ⟨rfl, rfl⟩
      | refused => exact hskip h rfl ⟨rfl, rfl⟩ rfl rfl ⟨rfl, rfl⟩ ⟨rfl, rfl⟩

lemma Inv.handled {now : ℤ} (h : Inv p s) (hs : Handled p s s' now) (hrunning : s.aborted = false) : Inv p s' := by
  have hgrid : grid p s' = grid p s := by rw [grid, grid, hs.start]
  obtain ⟨n, hn⟩ : ∃ n : ℕ, (n : ℤ) = (now - s.nextDue) / p.ticks :=
    ⟨_, Int.toNat_of_nonneg (Int.ediv_nonneg (by have := hs.due; omega) p.pos.le)⟩
  have hcount : s'.posted + s'.skippedCount = s.posted + s.skippedCount + n + 1 := by
    have := hs.counted
    omega
  have hpassed : (grid p s).passed now = s.posted + s.skippedCount + n + 1 := by
    rw [(grid p s).passed_of_ediv (h.due ▸ hs.due), ← h.due]
    show _ + ((now - s.nextDue) / p.ticks).toNat + 1 = _
    rw [← hn, Int.toNat_natCast]
  have hfree := h.free hrunning
  have hsingle := h.single
  have hexecuting := hs.others.1
  refine ⟨?_, ?_, ?_, ?_, ?_⟩
  · rw [hgrid, hcount, Nat.add_assoc, Grid.point_add, ← h.due, hs.nextDue, ← hn]
    rfl
  · intro t ht
    obtain rfl := Option.some.inj (hs.handled.symm.trans ht)
    rw [hgrid, hcount, hpassed]
  · intro hnone
    exact absurd (hs.handled.symm.trans hnone) nofun
  · rcases hs.callbacks with ⟨hq, -⟩ | ⟨hf, hq, -⟩
    · omega
    · have := hfree hf
      omega
  · intro _ hf
    rcases hs.callbacks with ⟨hq, hc⟩ | ⟨-, -, hc⟩
    · have := hfree (hc ▸ hf)
      omega
    · exact absurd (hc.symm.trans hf) nofun

lemma Inv.step {e : Event} (h : Inv p s) (hs : step p s e = some s') : Inv p s' := by
  have hsingle := h.single
  cases e with
  | wake now post =>
    simp only [PeriodicRunner.step, Option.ite_none_left_eq_some, Bool.or_eq_true, not_or, Bool.not_eq_true] at hs
    obtain ⟨⟨⟨hrunning, -⟩, -⟩, hs⟩ := hs
    rcases runTimer_cases hs with rfl | ⟨-, rfl⟩ | hhandled
    · exact ⟨h.due, h.passed, h.untouched, h.single, h.free⟩
    · exact ⟨h.due, h.passed, h.untouched, h.single, h.free⟩
    · exact h.handled hhandled hrunning
  | requestStop =>
    simp only [PeriodicRunner.step, Option.ite_none_left_eq_some, Option.some.injEq] at hs
    obtain ⟨-, rfl⟩ := hs
    exact ⟨h.due, h.passed, h.untouched, h.single, h.free⟩
  | beginCallback =>
    simp only [PeriodicRunner.step, Option.ite_none_left_eq_some, Option.some.injEq, Bool.or_eq_true, not_or,
      Bool.not_eq_true, decide_eq_true_eq] at hs
    obtain ⟨⟨hrunning, hqueued⟩, rfl⟩ := hs
    refine ⟨h.due, h.passed, h.untouched, ?_, ?_⟩
    · show s.queued - 1 + (s.executing + 1) ≤ 1
      omega
    · intro _ hf
      have := h.free hrunning hf
      omega
  | discardCallback =>
    simp only [PeriodicRunner.step, Option.ite_none_left_eq_some, Option.some.injEq, Bool.or_eq_true, not_or,
      Bool.not_eq_true, decide_eq_true_eq] at hs
    obtain ⟨⟨hrunning, hqueued⟩, rfl⟩ := hs
    refine ⟨h.due, h.passed, h.untouched, ?_, ?_⟩
    · show s.queued - 1 + s.executing ≤ 1
      omega
    · intro _ hf
      have := h.free hrunning hf
      omega
  | finishCallback =>
    simp only [PeriodicRunner.step, Option.ite_none_left_eq_some, Option.some.injEq, Bool.or_eq_true, not_or,
      Bool.not_eq_true, decide_eq_true_eq] at hs
    obtain ⟨⟨hrunning, hexecuting⟩, rfl⟩ := hs
    refine ⟨h.due, h.passed, h.untouched, ?_, ?_⟩
    · show s.queued + (s.executing - 1) ≤ 1
      omega
    · intro _ _
      show s.queued + (s.executing - 1) = 0
      omega
  | throwCallback =>
    simp only [PeriodicRunner.step, Option.ite_none_left_eq_some, Option.some.injEq] at hs
    obtain ⟨-, rfl⟩ := hs
    exact ⟨h.due, h.passed, h.untouched, h.single, nofun⟩

lemma inv_of_reachable (h : Reachable (step p) (Initial p) s) : Inv p s := by
  refine h.invariant ?_ fun _ _ _ ht hs => ht.step hs
  rintro _ ⟨start, rfl⟩
  exact ⟨by simp [grid, Grid.point], nofun, fun _ => rfl, Nat.zero_le 1, fun _ _ => rfl⟩

/-- Every grid point that a handled wake has passed was posted or skipped, and the next due time is
the first one it has not passed. -/
theorem periods_accounted (h : Reachable (step p) (Initial p) s) :
    (∃ k : ℕ, 1 ≤ k ∧ s.nextDue = s.start + k * p.ticks) ∧ (∀ t, s.handled = some t → t < s.nextDue) ∧
      (∀ k : ℕ, 1 ≤ k → (k ≤ s.posted + s.skippedCount ↔ ∃ t, s.handled = some t ∧ s.start + k * p.ticks ≤ t)) ∧
      s.queued + s.executing ≤ 1 := by
  have hinv := inv_of_reachable h
  have hpoint (k : ℕ) : (grid p s).point k = s.start + (k + 1 : ℕ) * p.ticks := by
    rw [Grid.point, Nat.cast_succ, Int.add_mul, Int.one_mul]
    show s.start + p.ticks + k * p.ticks = _
    omega
  refine ⟨⟨s.posted + s.skippedCount + 1, by omega, ?_⟩, ?_, ?_, hinv.single⟩
  · rw [hinv.due, hpoint]
  · intro t ht
    have hpassed := hinv.passed t ht
    have hnot := mt (grid p s).lt_passed_iff.mpr (by omega : ¬ s.posted + s.skippedCount < (grid p s).passed t)
    rw [hinv.due]
    omega
  · intro k hk
    obtain ⟨k, rfl⟩ : ∃ j, k = j + 1 := ⟨k - 1, by omega⟩
    rw [← hpoint, Nat.succ_le_iff]
    cases hh : s.handled with
    | none =>
      have := hinv.untouched hh
      simp only [reduceCtorEq, false_and, exists_false, iff_false]
      omega
    | some t =>
      rw [hinv.passed t hh, Grid.lt_passed_iff]
      simp

theorem periods_accounted_busy : ∃ p s, run (step p) { start := 0, clock := 0, nextDue := 1000000 }
      [.wake 1000000 .ok, .beginCallback, .wake 3500000 .ok, .wake 4000000 .ok, .finishCallback, .wake 5000000 .ok] =
        some s ∧ p.ticks = 1000000 ∧ s.posted = 2 ∧ s.skippedCount = 3 ∧ s.queued + s.executing ≤ 1 := by
  obtain ⟨p, hp⟩ : ∃ p : Period, p = ⟨1000000, by decide, by decide⟩ := ⟨_, rfl⟩
  obtain ⟨s, hrun, hposted, hskipped⟩ : ∃ s, run (step p) { start := 0, clock := 0, nextDue := 1000000 }
      [.wake 1000000 .ok, .beginCallback, .wake 3500000 .ok, .wake 4000000 .ok, .finishCallback, .wake 5000000 .ok] =
        some s ∧ s.posted = 2 ∧ s.skippedCount = 3 := by
    subst hp
    exact ⟨_, rfl, rfl, rfl⟩
  have hinit : Initial p { start := 0, clock := 0, nextDue := 1000000 } := by
    subst hp
    exact ⟨0, rfl⟩
  obtain ⟨-, -, -, hsingle⟩ := periods_accounted ⟨_, hinit, _, hrun⟩
  exact ⟨p, s, hrun, by rw [hp], hposted, hskipped, hsingle⟩

lemma skipPeriods_defined {count : ℕ} (h : s.skippedCount + count < sizeModulus) : ∃ s', skipPeriods s count = some s' := by
  rw [skipPeriods, unsigned64_eq h]
  exact ⟨_, rfl⟩

/-- A turn has a value as long as the clock has room for one more period. -/
theorem wake_defined (h : Reachable (step p) (Initial p) s) (hrunning : s.running = true) (haborted : s.aborted = false)
    {now : ℤ} (hstart : 0 ≤ s.start) (hnow : s.clock ≤ now) (hroom : now + p.ticks < 2 ^ 63) (post : PostResult) :
    ∃ s', step p s (.wake now post) = some s' := by
  have hinv := inv_of_reachable h
  have hpos := p.pos
  have hlow := (grid p s).point_sub_origin (s.posted + s.skippedCount)
  rw [← hinv.due] at hlow
  change _ ≤ s.nextDue - (s.start + p.ticks) at hlow
  simp only [step]
  rw [if_neg (by simp [haborted, hrunning, hnow]), runTimer]
  split
  · exact ⟨_, rfl⟩
  split
  · exact ⟨_, rfl⟩
  rename_i hdue
  have hq : (now - s.nextDue) / p.ticks ≤ now - s.nextDue := Int.ediv_le_self _ (by omega)
  have hq' : 0 ≤ (now - s.nextDue) / p.ticks := Int.ediv_nonneg (by omega) hpos.le
  have hone : s.skippedCount + 1 < sizeModulus := by
    unfold sizeModulus
    omega
  simp only [Option.bind_eq_bind]
  rw [signed64_eq (by omega) (by omega), Option.bind_some]
  split
  · have hr : 0 ≤ (now - s.nextDue).tmod p.ticks := Int.tmod_nonneg _ (by omega)
    have hfits : ((now - s.nextDue).tdiv p.ticks).toNat + 1 < sizeModulus := by
      rw [Int.tdiv_eq_ediv_of_nonneg (by omega)]
      unfold sizeModulus
      omega
    rw [unsigned64_eq hfits, Option.bind_some]
    obtain ⟨t, ht⟩ : ∃ t, skipPeriods { s with clock := now, handled := some now }
        (((now - s.nextDue).tdiv p.ticks).toNat + 1) = some t := by
      apply skipPeriods_defined
      rw [Int.tdiv_eq_ediv_of_nonneg (by omega)]
      unfold sizeModulus
      show s.skippedCount + _ < _
      omega
    rw [ht, Option.bind_some]
    split
    · rw [signed64_eq (by omega) (by omega)]
      exact ⟨_, rfl⟩
    · have hlt := Int.tmod_lt_of_pos (now - s.nextDue) hpos
      rw [signed64_eq (by omega) (by omega)]
      exact ⟨_, rfl⟩
  · rw [signed64_eq (by omega) (by omega), Option.bind_some]
    split
    · exact skipPeriods_defined hone
    · cases post with
      | ok => exact ⟨_, rfl⟩
      | closed => exact skipPeriods_defined hone
      | refused => exact skipPeriods_defined hone

end ServerCore.Runtime.PeriodicRunner
