import ServerCore.Core.CheckedArithmetic
import ServerCore.Core.Status
import ServerCore.Foundations.Grid

/-! `ScheduleTicks`: the timer callback that delivers logical ticks, over all sequences of wakes. -/

namespace ServerCore.Runtime.TickRunner

open ServerCore.Core ServerCore.Foundations

inductive TickLagPolicy
  | skip
  | catchUp
  deriving DecidableEq, Repr

-- `interval` is in milliseconds; the clock counts nanoseconds.
structure TickOptions where
  hasCallback : Bool := true
  interval : ℤ := 16
  lagPolicy : TickLagPolicy := .skip
  maxCatchUp : ℕ := 4
  retainedBytes : ℕ := 0
  deriving Repr

structure Ticker where
  grid : Grid
  maxCalls : ℕ
  retainedBytes : ℕ

def clockTicks (milliseconds : ℤ) : ℤ := milliseconds * 1000000

def maxCalls (options : TickOptions) : ℕ := if options.lagPolicy = .skip then 1 else options.maxCatchUp

def refused (options : TickOptions) : Prop :=
  options.hasCallback = false ∨ options.interval ≤ 0 ∨ 24 * 3600000 < options.interval ∨ options.maxCatchUp = 0 ∨
    1024 < options.maxCatchUp

instance (options : TickOptions) : Decidable (refused options) := inferInstanceAs (Decidable (_ ∨ _))

lemma clockTicks_pos {options : TickOptions} (h : ¬ refused options) : 0 < clockTicks options.interval := by
  simp only [refused, not_or] at h
  rw [clockTicks]
  omega

/-- `ScheduleTicks` up to the call of `Schedule`, with `sizeof(Detail::TickState)` as `stateBytes`.
`none` is an arithmetic overflow. -/
def scheduleTicks (stateBytes : ℕ) (options : TickOptions) (now : ℤ) : Option (Except Status Ticker) :=
  if h : refused options then some (.error (.failWithoutMessage .invalidArgument))
  else if sizeModulus - 1 - stateBytes < options.retainedBytes then some (.error (.failWithoutMessage .tooLarge))
  else do
    let interval ← signed64 (clockTicks options.interval)
    let room ← signed64 (2 ^ 63 - 1 - now)
    if room < interval then return .error (.failWithoutMessage .tooLarge)
    let epoch ← signed64 (now + interval)
    let retained ← unsigned64 (options.retainedBytes + stateBytes)
    return .ok ⟨⟨epoch, clockTicks options.interval, clockTicks_pos h⟩, maxCalls options, retained⟩

structure TickInfo where
  index : ℕ
  scheduled : ℤ
  actual : ℤ
  lateness : ℤ
  skipped : ℕ
  deriving DecidableEq, Repr

/-- `next` and the metrics; the last clock reading, whether a stop has been requested and the calls of the
callback so far. -/
structure State where
  clock : ℤ
  next : ℕ := 0
  executed : ℕ := 0
  skipped : ℕ := 0
  lastLateness : ℤ := 0
  maxLateness : ℤ := 0
  stopRequested : Bool := false
  calls : List TickInfo := []
  deriving DecidableEq, Repr

structure Turn where
  stop : Bool := false
  started : ℤ
  ok : Bool := true

structure Wake where
  actual : ℤ
  turns : ℕ → Turn

inductive Outcome
  | ok
  | cancelled
  | failed
  deriving DecidableEq, Repr

def deliver (t : Ticker) (s : State) (started : ℤ) (skipped : ℕ) : Option State := do
  let next ← signed64 s.next
  let offset ← signed64 (t.grid.step * next)
  let logical ← signed64 (t.grid.origin + offset)
  let index ← unsigned64 (s.next + 1)
  let lateness ← signed64 (started - logical)
  let executed ← unsigned64 (s.executed + 1)
  return { s with
    clock := started, next := index, executed, lastLateness := lateness, maxLateness := max s.maxLateness lateness,
    calls := s.calls ++ [⟨index, logical, started, lateness, skipped⟩] }

def loop (t : Ticker) (turns : ℕ → Turn) (skipped : ℕ) : ℕ → ℕ → State → Option (State × Outcome)
  | _, 0, s => some (s, .ok)
  | call, left + 1, s =>
    let turn := turns call
    if s.stopRequested || turn.stop then some ({ s with stopRequested := true }, .cancelled)
    else do
      let s ← deliver t s turn.started (if call = 0 then skipped else 0)
      if turn.ok then loop t turns skipped (call + 1) left s else return (s, .failed)

def due (t : Ticker) (actual : ℤ) : Option ℕ := do
  let elapsed ← signed64 (actual - t.grid.origin)
  unsigned64 ((elapsed.tdiv t.grid.step).toNat + 1)

/-- One invocation of the timer callback. `none` is an arithmetic overflow. -/
def wake (t : Ticker) (s : State) (w : Wake) : Option (State × Outcome) :=
  let s := { s with clock := w.actual }
  if w.actual < t.grid.origin then some (s, .ok)
  else do
    let due ← due t w.actual
    if due ≤ s.next then return (s, .ok)
    let count := min (due - s.next) t.maxCalls
    let skipped := due - s.next - count
    let next ← unsigned64 (s.next + skipped)
    let total ← unsigned64 (s.skipped + skipped)
    loop t w.turns skipped 0 count { s with next, skipped := total }

structure Timely (clock : ℤ) (w : Wake) : Prop where
  actual : clock ≤ w.actual
  first : w.actual ≤ (w.turns 0).started
  later : ∀ i, (w.turns i).started ≤ (w.turns (i + 1)).started
  fits : ∀ i, (w.turns i).started < 2 ^ 63

inductive Reached (t : Ticker) (now : ℤ) : State → Prop
  | start : Reached t now { clock := now }
  | wake {s s' : State} {w : Wake} {o : Outcome} : Reached t now s → Timely s.clock w →
      wake t s w = some (s', o) → Reached t now s'

def lastIndex (calls : List TickInfo) : ℕ := (calls.getLast?.map TickInfo.index).getD 0

@[simp] lemma lastIndex_nil : lastIndex [] = 0 := rfl

@[simp] lemma lastIndex_append (calls : List TickInfo) (c : TickInfo) : lastIndex (calls ++ [c]) = c.index := by
  simp [lastIndex]

structure Exact (t : Ticker) (s : State) : Prop where
  increasing : s.calls.Pairwise fun c c' => c.index < c'.index
  accounts : s.executed + s.skipped = s.next
  executed : s.executed = s.calls.length
  onGrid : ∀ c ∈ s.calls, 1 ≤ c.index ∧ c.scheduled = t.grid.origin + (c.index - 1) * t.grid.step ∧
    c.scheduled ≤ c.actual ∧ c.lateness = c.actual - c.scheduled
  gaps : ∀ x c y, s.calls = x ++ c :: y → c.index = lastIndex x + c.skipped + 1

/-- A ticker as `ScheduleTicks` leaves it. -/
structure Accepted (t : Ticker) (now : ℤ) : Prop where
  origin : 0 ≤ now ∧ now ≤ t.grid.origin
  calls : 1 ≤ t.maxCalls

structure Inv (t : Ticker) (s : State) : Prop extends Exact t s where
  behind : s.next ≤ t.grid.passed s.clock
  last : lastIndex s.calls ≤ s.next
  current : s.stopRequested = false → lastIndex s.calls = s.next

lemma scheduleTicks_ok {stateBytes : ℕ} {options : TickOptions} {now : ℤ} {t : Ticker}
    (h : scheduleTicks stateBytes options now = some (.ok t)) : Accepted t now ∧
      t.grid.step = clockTicks options.interval ∧ t.grid.origin = now + t.grid.step ∧ t.maxCalls = maxCalls options := by
  unfold scheduleTicks at h
  split at h
  · cases h
  rename_i hrefused
  split at h
  · cases h
  simp only [Option.bind_eq_bind, Option.bind_eq_some_iff] at h
  obtain ⟨interval, hinterval, room, hroom, h⟩ := h
  obtain ⟨rfl, hroom⟩ := signed64_eq_some.mp hroom
  obtain ⟨rfl, hinterval⟩ := signed64_eq_some.mp hinterval
  split at h
  · cases h
  simp only [Option.bind_eq_some_iff] at h
  obtain ⟨epoch, hepoch, retained, hretained, h⟩ := h
  obtain ⟨rfl, hepoch⟩ := signed64_eq_some.mp hepoch
  obtain rfl := Except.ok.inj (Option.some.inj h)
  have hpos := clockTicks_pos hrefused
  refine ⟨⟨⟨by omega, ?_⟩, ?_⟩, rfl, rfl, rfl⟩
  · show now ≤ now + _
    omega
  · simp only [refused, not_or] at hrefused
    show 1 ≤ maxCalls options
    rw [maxCalls]
    split <;> omega

section Wakes

variable {t : Ticker} {now actual : ℤ} {s : State}

lemma Timely.started_le {clock : ℤ} {w : Wake} (h : Timely clock w) (i : ℕ) : w.actual ≤ (w.turns i).started := by
  induction i with
  | zero => exact h.first
  | succ i ih => exact ih.trans (h.later i)

lemma Exact.index_le_last (h : Exact t s) {c : TickInfo} (hc : c ∈ s.calls) : c.index ≤ lastIndex s.calls := by
  have hincreasing := h.increasing
  rcases s.calls.eq_nil_or_concat' with hnil | ⟨calls, last, hcalls⟩
  · simp [hnil] at hc
  · rw [hcalls] at hc hincreasing ⊢
    rw [lastIndex_append]
    rcases List.mem_append.mp hc with hc | hc
    · exact (List.pairwise_append.mp hincreasing).2.2 c hc last (by simp) |>.le
    · rw [List.mem_singleton.mp hc]

def delivered (t : Ticker) (s : State) (started : ℤ) (skipped : ℕ) : State :=
  { s with
    clock := started, next := s.next + 1, executed := s.executed + 1, lastLateness := started - t.grid.point s.next,
    maxLateness := max s.maxLateness (started - t.grid.point s.next),
    calls := s.calls ++ [⟨s.next + 1, t.grid.point s.next, started, started - t.grid.point s.next, skipped⟩] }

lemma deliver_some (ht : Accepted t now) (hnext : t.grid.point s.next ≤ actual) (hexecuted : s.executed ≤ s.next)
    {started : ℤ} (hstarted : actual ≤ started) (hfits : started < 2 ^ 63) (skipped : ℕ) :
    deliver t s started skipped = some (delivered t s started skipped) := by
  have horigin := ht.origin
  have hcount := t.grid.point_sub_origin s.next
  have hpoint : t.grid.point s.next = t.grid.origin + t.grid.step * s.next := by
    rw [Grid.point, Int.mul_comm]
  have hlow := t.grid.origin_le_point s.next
  unfold deliver
  have hindex : s.next + 1 < sizeModulus := by
    unfold sizeModulus
    omega
  simp only [Option.bind_eq_bind]
  rw [signed64_eq (by omega) (by omega), Option.bind_some]
  rw [signed64_eq (by omega) (by omega), Option.bind_some, ← hpoint]
  rw [signed64_eq (by omega) (by omega), Option.bind_some]
  rw [unsigned64_eq hindex, Option.bind_some]
  rw [signed64_eq (by omega) (by omega), Option.bind_some]
  rw [unsigned64_eq (by omega), Option.bind_some]
  rfl

lemma Exact.delivered (h : Exact t s) {started : ℤ} {skipped : ℕ} (hlast : lastIndex s.calls + skipped = s.next)
    (hpoint : t.grid.point s.next ≤ started) : Exact t (delivered t s started skipped) where
  increasing := by
    refine List.pairwise_append.mpr ⟨h.increasing, List.pairwise_singleton _ _, ?_⟩
    intro c hc c' hc'
    obtain rfl := List.mem_singleton.mp hc'
    have := h.index_le_last hc
    show c.index < s.next + 1
    omega
  accounts := by
    have := h.accounts
    show s.executed + 1 + s.skipped = s.next + 1
    omega
  executed := by
    show s.executed + 1 = (s.calls ++ [_]).length
    rw [List.length_append, List.length_singleton, h.executed]
  onGrid := by
    intro c hc
    rcases List.mem_append.mp hc with hc | hc
    · exact h.onGrid c hc
    · obtain rfl := List.mem_singleton.mp hc
      refine ⟨by simp, ?_, hpoint, rfl⟩
      simp [Grid.point]
  gaps := by
    intro x c y hsplit
    rcases y.eq_nil_or_concat' with rfl | ⟨y, c', rfl⟩
    · obtain ⟨rfl, hc⟩ := List.append_inj' hsplit rfl
      obtain rfl := (List.cons.inj hc).1
      show s.next + 1 = _
      rw [← hlast]
    · have hconcat := hsplit.trans (List.append_assoc x (c :: y) [c']).symm
      exact h.gaps x c y (List.append_inj' hconcat rfl).1

structure Woke (t : Ticker) (actual : ℤ) (limit due : ℕ) (s s' : State) (o : Outcome) : Prop where
  inv : Inv t s'
  clock : actual ≤ s'.clock
  calls : ∃ new, s'.calls = s.calls ++ new ∧ new.length ≤ limit
  caughtUp : o = .ok → s'.next = due

lemma loop_woke (ht : Accepted t now) {turns : ℕ → Turn} (hturns : ∀ i, actual ≤ (turns i).started)
    (hfits : ∀ i, (turns i).started < 2 ^ 63) {skipped : ℕ} (left : ℕ) : ∀ (call : ℕ) (s : State), Exact t s →
      lastIndex s.calls ≤ s.next → (s.stopRequested = false → lastIndex s.calls + (if call = 0 then skipped else 0) = s.next) →
      (call = 0 → left ≠ 0) → s.next + left ≤ t.grid.passed actual → actual ≤ s.clock →
      ∃ s' o, loop t turns skipped call left s = some (s', o) ∧ Woke t actual left (s.next + left) s s' o ∧
        ((s.stopRequested = false ∧ ∀ i, (turns i).stop = false ∧ (turns i).ok = true) → o = .ok) := by
  induction left with
  | zero =>
    intro call s hexact hlast hcurrent hcall hdue hclock
    have hcurrent : s.stopRequested = false → lastIndex s.calls = s.next := by
      intro hs
      have := hcurrent hs
      rwa [if_neg fun hc => hcall hc rfl] at this
    have hbehind : s.next ≤ t.grid.passed s.clock := hdue.trans (t.grid.passed_mono hclock)
    exact ⟨s, .ok, rfl, ⟨⟨hexact, hbehind, hlast, hcurrent⟩, hclock, ⟨[], by simp, le_rfl⟩, fun _ => rfl⟩, fun _ => rfl⟩
  | succ left ih =>
    intro call s hexact hlast hcurrent hcall hdue hclock
    have hbehind : s.next ≤ t.grid.passed s.clock := (by omega : s.next ≤ _).trans (t.grid.passed_mono hclock)
    rw [loop]
    cases hstop : (s.stopRequested || (turns call).stop) with
    | true =>
      rw [if_pos rfl]
      refine ⟨_, _, rfl, ⟨⟨⟨hexact.1, hexact.2, hexact.3, hexact.4, hexact.5⟩, hbehind, hlast, nofun⟩, hclock,
        ⟨[], by simp, Nat.zero_le _⟩, nofun⟩, ?_⟩
      intro ⟨hs, hquiet⟩
      rw [hs, (hquiet call).1] at hstop
      cases hstop
    | false =>
      rw [Bool.or_eq_false_iff] at hstop
      have hpoint : t.grid.point s.next ≤ actual := t.grid.lt_passed_iff.mp (by omega)
      have haccounts := hexact.accounts
      rw [if_neg (by decide), deliver_some ht hpoint (by omega) (hturns call) (hfits call), Option.bind_eq_bind,
        Option.bind_some]
      obtain ⟨next, hnext⟩ : ∃ next, next = delivered t s (turns call).started (if call = 0 then skipped else 0) := ⟨_, rfl⟩
      have hexact' : Exact t next := hnext ▸ hexact.delivered (hcurrent hstop.1) (hpoint.trans (hturns call))
      have hlast' : lastIndex next.calls = next.next := by
        rw [hnext]
        exact lastIndex_append _ _
      have hcount : next.next = s.next + 1 := by rw [hnext]; rfl
      have hclock' : actual ≤ next.clock := by
        rw [hnext]
        exact hturns call
      have hcalls : ∃ c, next.calls = s.calls ++ [c] := ⟨_, by rw [hnext]; rfl⟩
      have hstopped : next.stopRequested = s.stopRequested := by rw [hnext]; rfl
      rw [← hnext]
      split
      · obtain ⟨s', o, hloop, hwoke, hquiet⟩ := ih (call + 1) next hexact' hlast'.le
          (fun _ => by rw [if_neg (by omega), hlast', Nat.add_zero]) (by omega) (by omega) hclock'
        obtain ⟨c, hc⟩ := hcalls
        obtain ⟨new, hnew, hlength⟩ := hwoke.calls
        refine ⟨s', o, hloop, ⟨hwoke.inv, hwoke.clock, ⟨c :: new, ?_, ?_⟩, ?_⟩, ?_⟩
        · rw [hnew, hc, List.append_assoc]
          rfl
        · rw [List.length_cons]
          omega
        · intro ho
          rw [hwoke.caughtUp ho]
          omega
        · rw [← hstopped]
          exact hquiet
      · rename_i hok
        obtain ⟨c, hc⟩ := hcalls
        have hbehind' : next.next ≤ t.grid.passed next.clock :=
          (by omega : next.next ≤ _).trans (t.grid.passed_mono hclock')
        refine ⟨next, .failed, rfl, ⟨⟨hexact', hbehind', hlast'.le, fun _ => hlast'⟩, hclock', ⟨[c], hc, by simp⟩, nofun⟩, ?_⟩
        intro ⟨_, hquiet⟩
        exact absurd (hquiet call).2 hok

lemma passed_lt (ht : Accepted t now) (hactual : t.grid.origin ≤ actual) (hfits : actual < 2 ^ 63) :
    t.grid.passed actual < sizeModulus := by
  have horigin := ht.origin
  have hle : (actual - t.grid.origin) / t.grid.step ≤ actual - t.grid.origin := Int.ediv_le_self _ (by omega)
  rw [Grid.passed, if_neg (by omega)]
  unfold sizeModulus
  omega

lemma due_some (ht : Accepted t now) (hactual : t.grid.origin ≤ actual) (hfits : actual < 2 ^ 63) :
    due t actual = some (t.grid.passed actual) := by
  have horigin := ht.origin
  have hlt := passed_lt ht hactual hfits
  rw [Grid.passed, if_neg (by omega)] at hlt ⊢
  rw [due, signed64_eq (by omega) (by omega), Option.bind_eq_bind, Option.bind_some,
    Int.tdiv_eq_ediv_of_nonneg (by omega), unsigned64_eq hlt]

lemma wake_woke (ht : Accepted t now) (h : Inv t s) {w : Wake} (hw : Timely s.clock w) :
    ∃ s' o, wake t s w = some (s', o) ∧ Woke t w.actual t.maxCalls (t.grid.passed w.actual) s s' o ∧
      ((s.stopRequested = false ∧ ∀ i, (w.turns i).stop = false ∧ (w.turns i).ok = true) → o = .ok) := by
  have hmono := t.grid.passed_mono hw.actual
  have hbehind := h.behind
  have hmax := ht.calls
  have hidle : s.next = t.grid.passed w.actual → Woke t w.actual t.maxCalls (t.grid.passed w.actual) s
      { s with clock := w.actual } .ok := by
    intro hn
    exact ⟨⟨⟨h.1.1, h.1.2, h.1.3, h.1.4, h.1.5⟩, hn.le, h.last, h.current⟩, le_rfl, ⟨[], by simp, Nat.zero_le _⟩,
      fun _ => hn⟩
  rw [wake]
  dsimp only
  split
  · rename_i hearly
    have hzero : t.grid.passed w.actual = 0 := if_pos hearly
    exact ⟨_, _, rfl, hidle (by omega), fun _ => rfl⟩
  · rename_i hlate
    have hfits : w.actual < 2 ^ 63 := (hw.started_le 0).trans_lt (hw.fits 0)
    have hlt := passed_lt ht (by omega) hfits
    rw [due_some ht (by omega) hfits, Option.bind_eq_bind, Option.bind_some]
    split
    · exact ⟨_, _, rfl, hidle (by omega), fun _ => rfl⟩
    · rename_i hdue
      obtain ⟨due, hd⟩ : ∃ due, due = t.grid.passed w.actual := ⟨_, rfl⟩
      rw [← hd] at hlt hdue hmono ⊢
      obtain ⟨count, hcount⟩ : ∃ count, count = min (due - s.next) t.maxCalls := ⟨_, rfl⟩
      have haccounts := h.accounts
      have hlast := h.last
      rw [← hcount, unsigned64_eq (by omega), Option.bind_some, unsigned64_eq (by omega), Option.bind_some]
      obtain ⟨ready, hready⟩ : ∃ ready : State, ready = { s with
        clock := w.actual, next := s.next + (due - s.next - count), skipped := s.skipped + (due - s.next - count) } :=
        ⟨_, rfl⟩
      have hexact : Exact t ready := by
        refine hready ▸ ⟨h.increasing, ?_, h.executed, h.onGrid, h.gaps⟩
        show s.executed + (s.skipped + (due - s.next - count)) = s.next + (due - s.next - count)
        omega
      have hnext : ready.next = s.next + (due - s.next - count) := by rw [hready]
      have hcalls : ready.calls = s.calls := by rw [hready]
      have hstopped : ready.stopRequested = s.stopRequested := by rw [hready]
      have hclock : w.actual ≤ ready.clock := by rw [hready]
      rw [← hready]
      obtain ⟨s', o, hloop, hwoke, hquiet⟩ := loop_woke ht hw.started_le hw.fits count 0 ready hexact
        (by rw [hcalls]; omega) (fun hs => by rw [hcalls, if_pos rfl, h.current (hstopped ▸ hs), hnext]) (by omega)
        (by omega) hclock
      obtain ⟨new, hnew, hlength⟩ := hwoke.calls
      refine ⟨s', o, hloop, ⟨hwoke.inv, hwoke.clock, ⟨new, hcalls ▸ hnew, by omega⟩, ?_⟩, hstopped ▸ hquiet⟩
      intro ho
      rw [hwoke.caughtUp ho]
      omega

lemma inv_of_reached (ht : Accepted t now) (h : Reached t now s) : Inv t s := by
  induction h with
  | start => exact ⟨⟨List.Pairwise.nil, rfl, rfl, by simp, by simp⟩, Nat.zero_le _, le_rfl, fun _ => rfl⟩
  | wake _ hw hs ih =>
    obtain ⟨s', o, hwake, hwoke, -⟩ := wake_woke ht ih hw
    obtain ⟨rfl, rfl⟩ := Prod.mk.inj (Option.some.inj (hwake.symm.trans hs))
    exact hwoke.inv

/-- Over any sequence of wakes the ticks are exact, and the next wake neither overflows, nor runs more calls
than the policy allows, nor leaves a backlog where every call ended well. -/
theorem ticks_exact {stateBytes : ℕ} {options : TickOptions} (ht : scheduleTicks stateBytes options now = some (.ok t))
    (h : Reached t now s) : t.grid.step = clockTicks options.interval ∧ t.grid.origin = now + t.grid.step ∧ Exact t s ∧ ∀ w, Timely s.clock w → ∃ s' o new, wake t s w = some (s', o) ∧
      s'.calls = s.calls ++ new ∧ new.length ≤ (if options.lagPolicy = .skip then 1 else options.maxCatchUp) ∧
      (o = .ok → ∀ k : ℕ, k < s'.next ↔ t.grid.origin + k * t.grid.step ≤ w.actual) ∧
      ((s.stopRequested = false ∧ ∀ i, (w.turns i).stop = false ∧ (w.turns i).ok = true) → o = .ok) := by
  obtain ⟨haccepted, hstep, horigin, hmax⟩ := scheduleTicks_ok ht
  have hinv := inv_of_reached haccepted h
  refine ⟨hstep, horigin, hinv.toExact, ?_⟩
  intro w hw
  obtain ⟨s', o, hwake, hwoke, hquiet⟩ := wake_woke haccepted hinv hw
  obtain ⟨new, hnew, hlength⟩ := hwoke.calls
  refine ⟨s', o, new, hwake, hnew, hlength.trans hmax.le, ?_, hquiet⟩
  intro ho k
  rw [hwoke.caughtUp ho]
  exact t.grid.lt_passed_iff

theorem ticks_exact_late : ∃ t s, scheduleTicks 72 {} 0 = some (.ok t) ∧ s.calls = [⟨2, 32000000, 41000000, 9000000, 1⟩] ∧
    Exact t s := by
  obtain ⟨t, ht⟩ : ∃ t : Ticker, t = ⟨⟨16000000, 16000000, by decide⟩, 1, 72⟩ := ⟨_, rfl⟩
  obtain ⟨w, hw⟩ : ∃ w : Wake, w = ⟨40000000, fun _ => { started := 41000000 }⟩ := ⟨_, rfl⟩
  have hschedule : scheduleTicks 72 {} 0 = some (.ok t) := by
    subst ht
    rfl
  have htimely : Timely 0 w := by
    subst hw
    exact ⟨by decide, by decide, fun _ => le_rfl, fun _ => (by decide : (41000000 : ℤ) < 2 ^ 63)⟩
  obtain ⟨s', o, hwake, hcalls⟩ : ∃ s' o, wake t { clock := 0 } w = some (s', o) ∧
      s'.calls = [⟨2, 32000000, 41000000, 9000000, 1⟩] := by
    subst ht hw
    exact ⟨_, _, rfl, rfl⟩
  have hreached : Reached t 0 s' := .wake .start htimely hwake
  exact ⟨t, s', hschedule, hcalls, (ticks_exact hschedule hreached).2.2.1⟩

end Wakes

end ServerCore.Runtime.TickRunner
