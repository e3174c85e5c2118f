import ServerCore.Foundations.FixedWindow
import ServerCore.Foundations.Transition

/-! `MessageLogLimiter`: `Admit` as its reading of the clock and its section under the mutex, `Flush` as one section. -/

namespace ServerCore.Runtime

open ServerCore.Foundations

structure MessageLogLimiter where
  windowStart : UInt64 := 0
  written : ℕ := 0
  suppressed : ℕ := 0
  started : Bool := false
  deriving DecidableEq, Repr

namespace MessageLogLimiter

inductive Entry
  | opened (start : UInt64) (forced : Bool)
  | admitted (now : UInt64)
  | suppressed (now : UInt64)
  | summary (count : ℕ)
  deriving DecidableEq, Repr

def windowMilliseconds : UInt64 := 1000

def elapsed (l : MessageLogLimiter) (now : UInt64) : Bool := now - l.windowStart ≥ windowMilliseconds

def report (count : ℕ) : List Entry := if count = 0 then [] else [.summary count]

def admits (limit : ℕ) (l : MessageLogLimiter) (now : UInt64) : MessageLogLimiter × List Entry :=
  let opens := !l.started || l.elapsed now
  let log := if opens then .opened now false :: report l.suppressed else []
  let l := if opens then { windowStart := now, started := true } else l
  if l.written < limit then ({ l with written := l.written + 1 }, log ++ [.admitted now])
  else ({ l with suppressed := l.suppressed + 1 }, log ++ [.suppressed now])

def flush (l : MessageLogLimiter) (now : UInt64) (force : Bool) : MessageLogLimiter × List Entry :=
  if l.suppressed ≠ 0 && (force || l.elapsed now) then
    ({ l with suppressed := 0, windowStart := now, written := 0 }, .opened now force :: report l.suppressed)
  else (l, [])

structure State where
  clock : UInt64 := 0
  limiter : MessageLogLimiter := {}
  readings : ℕ → Option UInt64 := fun _ => none
  log : List Entry := []

inductive Event
  | tick (now : UInt64)
  | read (t : ℕ)
  | admits (t : ℕ)
  | flush (force : Bool)
  deriving DecidableEq, Repr

variable {limit : ℕ} {s s' : State}

def step (limit : ℕ) (s : State) : Event → Option State
  | .tick now => if s.clock ≤ now then some { s with clock := now } else none
  | .read t =>
    if limit ≠ 0 ∧ s.readings t = none then some { s with readings := Function.update s.readings t (some s.clock) } else none
  | .admits t => (s.readings t).map fun now =>
    { s with
      limiter := (s.limiter.admits limit now).1
      readings := Function.update s.readings t none
      log := s.log ++ (s.limiter.admits limit now).2 }
  | .flush force => some { s with
      limiter := (s.limiter.flush s.clock force).1
      log := s.log ++ (s.limiter.flush s.clock force).2 }

def timely (s : State) : Event → Bool
  | .admits t => !s.limiter.started || (s.readings t).all fun now => s.limiter.windowStart ≤ now
  | _ => true

def timelyStep (limit : ℕ) (s : State) (event : Event) : Option State :=
  if timely s event then step limit s event else none

def Initial (s : State) : Prop := s = {}

def Entry.isOpening : Entry → Bool
  | .opened _ _ => true
  | _ => false

def Entry.isForced : Entry → Bool
  | .opened _ forced => forced
  | _ => false

def Entry.isAdmitted : Entry → Bool
  | .admitted _ => true
  | _ => false

def Entry.isSuppressed : Entry → Bool
  | .suppressed _ => true
  | _ => false

def Entry.reported : Entry → ℕ
  | .summary count => count
  | _ => 0

def Entry.isCall : Entry → Bool
  | .admitted _ | .suppressed _ => true
  | _ => false

def Entry.admittedIn (a b : ℕ) : Entry → Bool
  | .admitted now => a ≤ now.toNat && now.toNat ≤ b
  | _ => false

/-- The records let through from `a` to `b`, at the readings of their calls. -/
def admittedBetween (a b : ℕ) (log : List Entry) : ℕ := log.countP (Entry.admittedIn a b)

def calls (log : List Entry) : ℕ := log.countP Entry.isCall

def admissions (log : List Entry) : ℕ := log.countP Entry.isAdmitted

def summaries (log : List Entry) : ℕ := (log.map Entry.reported).sum

def Entry.mark : Entry → Option Mark
  | .opened start forced => some (.opens start.toNat forced)
  | .admitted now => some (.uses now.toNat)
  | _ => none

def marks (log : List Entry) : List Mark := log.filterMap Entry.mark

section Accounts

lemma calls_eq (log : List Entry) : calls log = admissions log + log.countP Entry.isSuppressed := by
  induction log with
  | nil => rfl
  | cons entry log ih =>
    simp only [calls, admissions, List.countP_cons] at ih ⊢
    cases entry <;> simp only [Entry.isCall, Entry.isAdmitted, Entry.isSuppressed, Bool.false_eq_true, ↓reduceIte] <;> omega

lemma summaries_append (x y : List Entry) : summaries (x ++ y) = summaries x + summaries y := by
  rw [summaries, List.map_append, List.sum_append]
  rfl

lemma report_accounts (now : UInt64) (forced : Bool) (count : ℕ) :
    (Entry.opened now forced :: report count).countP Entry.isSuppressed = 0 ∧
      summaries (Entry.opened now forced :: report count) = count := by
  rw [report]
  split
  · rename_i h
    exact ⟨rfl, h.symm⟩
  · exact ⟨rfl, Nat.zero_add count⟩

lemma admit_accounts (limit : ℕ) (l : MessageLogLimiter) (now : UInt64) : (l.admits limit now).2.countP Entry.isSuppressed + l.suppressed =
    summaries (l.admits limit now).2 + (l.admits limit now).1.suppressed := by
  obtain ⟨hcount, hsum⟩ := report_accounts now false l.suppressed
  have hadmitted : [Entry.admitted now].countP Entry.isSuppressed = 0 ∧ summaries [.admitted now] = 0 := ⟨rfl, rfl⟩
  have hsuppressed : [Entry.suppressed now].countP Entry.isSuppressed = 1 ∧ summaries [.suppressed now] = 0 := ⟨rfl, rfl⟩
  rw [admits]
  cases hopens : !l.started || l.elapsed now
  · simp only [Bool.false_eq_true, ↓reduceIte, List.nil_append]
    split
    · rw [hadmitted.1, hadmitted.2]
    · rw [hsuppressed.1, hsuppressed.2]
      exact (Nat.add_comm 1 l.suppressed).trans (Nat.zero_add _).symm
  · simp only [↓reduceIte]
    split
    · simp only [List.countP_append, summaries_append, hcount, hsum, hadmitted]
      omega
    · simp only [List.countP_append, summaries_append, hcount, hsum, hsuppressed]
      omega

lemma flush_accounts (l : MessageLogLimiter) (now : UInt64) (force : Bool) :
    (l.flush now force).2.countP Entry.isSuppressed + l.suppressed =
      summaries (l.flush now force).2 + (l.flush now force).1.suppressed := by
  obtain ⟨hcount, hsum⟩ := report_accounts now force l.suppressed
  rw [flush]
  split
  · rw [hcount, hsum]
    exact Nat.zero_add _
  · rfl

def Accounted (s : State) : Prop := s.log.countP Entry.isSuppressed = summaries s.log + s.limiter.suppressed

lemma step_accounted {event : Event} (h : Accounted s) (hstep : step limit s event = some s') : Accounted s' := by
  rw [Accounted] at h
  cases event with
  | tick now =>
    obtain ⟨-, rfl⟩ := of_guard hstep
    exact h
  | read t =>
    obtain ⟨-, rfl⟩ := of_guard hstep
    exact h
  | admits t =>
    simp only [step, Option.map_eq_some_iff] at hstep
    obtain ⟨now, -, rfl⟩ := hstep
    have hadmit := admit_accounts limit s.limiter now
    rw [Accounted]
    dsimp only
    rw [List.countP_append, summaries_append]
    omega
  | flush force =>
    obtain rfl := Option.some.inj hstep
    have hflush := flush_accounts s.limiter s.clock force
    rw [Accounted]
    dsimp only
    rw [List.countP_append, summaries_append]
    omega

end Accounts

section Windows

def window (l : MessageLogLimiter) : Option Window := if l.started then some ⟨l.windowStart.toNat, l.written⟩ else none

structure Inv (limit : ℕ) (s : State) : Prop where
  accounted : Accounted s
  paced : Paced limit windowMilliseconds.toNat none (marks s.log) s.limiter.window
  past : s.limiter.windowStart ≤ s.clock
  read : ∀ t now, s.readings t = some now → now ≤ s.clock
  unstarted : s.limiter.started = false → s.limiter.suppressed = 0

lemma elapsed_iff {l : MessageLogLimiter} {now : UInt64} (h : l.windowStart ≤ now) :
    l.elapsed now = true ↔ l.windowStart.toNat + windowMilliseconds.toNat ≤ now.toNat := by
  have hle := UInt64.le_iff_toNat_le.mp h
  rw [elapsed, decide_eq_true_eq, ge_iff_le, UInt64.le_iff_toNat_le, UInt64.toNat_sub_of_le _ _ h]
  omega

lemma marks_append (x y : List Entry) : marks (x ++ y) = marks x ++ marks y := List.filterMap_append

lemma marks_report (count : ℕ) : marks (report count) = [] := by
  rw [report]
  split <;> rfl

lemma admit_paced {l : MessageLogLimiter} {now : UInt64} (hlimit : 0 < limit) (h : l.started = true → l.windowStart ≤ now) :
    Paced limit windowMilliseconds.toNat l.window (marks (l.admits limit now).2) (l.admits limit now).1.window := by
  have hperiod : 0 < windowMilliseconds.toNat := by decide
  rw [admits]
  cases hopens : !l.started || l.elapsed now
  · simp only [Bool.or_eq_false_iff, Bool.not_eq_eq_eq_not, Bool.not_false] at hopens
    obtain ⟨hstarted, helapsed⟩ := hopens
    have hopen : l.window = some ⟨l.windowStart.toNat, l.written⟩ := if_pos hstarted
    simp only [Bool.false_eq_true, ↓reduceIte, List.nil_append]
    split
    · rename_i hroom
      rw [hopen, window, if_pos hstarted]
      refine .uses (UInt64.le_iff_toNat_le.mp (h hstarted)) ?_ hroom (.nil _)
      by_contra hlate
      rw [(elapsed_iff (h hstarted)).mpr (not_lt.mp hlate)] at helapsed
      cases helapsed
    · exact .nil _
  · simp only [↓reduceIte, hlimit]
    rw [marks_append, show marks (.opened now false :: report l.suppressed) = [.opens now.toNat false] by
      rw [← marks_report l.suppressed]; rfl]
    refine .opens (.inr fun v hv => ?_) (.uses le_rfl (Nat.lt_add_of_pos_right hperiod) hlimit (.nil _))
    cases hstarted : l.started with
    | false =>
      rw [window, hstarted] at hv
      cases hv
    | true =>
      rw [window, if_pos hstarted] at hv
      obtain rfl := Option.some.inj hv
      rw [hstarted, Bool.not_true, Bool.false_or] at hopens
      exact (elapsed_iff (h hstarted)).mp hopens

lemma flush_paced {l : MessageLogLimiter} {now : UInt64} (force : Bool) (h : l.windowStart ≤ now)
    (hunstarted : l.started = false → l.suppressed = 0) :
    Paced limit windowMilliseconds.toNat l.window (marks (l.flush now force).2) (l.flush now force).1.window := by
  rw [flush]
  split
  · rename_i hflush
    simp only [Bool.and_eq_true, decide_eq_true_eq, Bool.or_eq_true] at hflush
    obtain ⟨hsome, hdue⟩ := hflush
    have hstarted : l.started = true := by
      by_contra hstarted
      exact hsome (hunstarted (Bool.eq_false_iff.mpr hstarted))
    rw [show marks (.opened now force :: report l.suppressed) = [.opens now.toNat force] by
      rw [← marks_report l.suppressed]; rfl]
    rw [window, window, if_pos hstarted, if_pos hstarted]
    refine .opens (hdue.imp_right fun helapsed v hv => ?_) (.nil _)
    obtain rfl := Option.some.inj hv
    exact (elapsed_iff h).mp helapsed
  · exact .nil _

lemma admit_start {l : MessageLogLimiter} {now : UInt64} : (l.admits limit now).1.started = true ∧
    ((l.admits limit now).1.windowStart = l.windowStart ∨ (l.admits limit now).1.windowStart = now) := by
  rw [admits]
  cases hopens : !l.started || l.elapsed now
  · simp only [Bool.or_eq_false_iff, Bool.not_eq_eq_eq_not, Bool.not_false] at hopens
    simp only [Bool.false_eq_true, ↓reduceIte]
    split
    · exact ⟨hopens.1, .inl rfl⟩
    · exact ⟨hopens.1, .inl rfl⟩
  · simp only [↓reduceIte]
    split
    · exact ⟨rfl, .inr rfl⟩
    · exact ⟨rfl, .inr rfl⟩

lemma flush_start {l : MessageLogLimiter} {now : UInt64} {force : Bool} : (l.flush now force).1.started = l.started ∧
    ((l.flush now force).1 = l ∨ (l.flush now force).1.windowStart = now ∧ (l.flush now force).1.suppressed = 0) := by
  rw [flush]
  split
  · exact ⟨rfl, .inr ⟨rfl, rfl⟩⟩
  · exact ⟨rfl, .inl rfl⟩

lemma inv_step {event : Event} (hlimit : 0 < limit) (h : Inv limit s) (htimely : timely s event = true)
    (hstep : step limit s event = some s') : Inv limit s' := by
  have haccounted := step_accounted h.accounted hstep
  cases event with
  | tick now =>
    obtain ⟨hclock, rfl⟩ := of_guard hstep
    exact ⟨haccounted, h.paced, UInt64.le_trans h.past hclock, fun t now ht => UInt64.le_trans (h.read t now ht) hclock, h.unstarted⟩
  | read t =>
    obtain ⟨-, rfl⟩ := of_guard hstep
    refine ⟨haccounted, h.paced, h.past, fun t' now ht => ?_, h.unstarted⟩
    dsimp only at ht ⊢
    rcases eq_or_ne t' t with rfl | hne
    · rw [Function.update_self] at ht
      obtain rfl := Option.some.inj ht
      exact UInt64.le_refl _
    · rw [Function.update_of_ne hne] at ht
      exact h.read t' now ht
  | admits t =>
    simp only [step, Option.map_eq_some_iff] at hstep
    obtain ⟨now, hnow, rfl⟩ := hstep
    have horder (hstarted : s.limiter.started = true) : s.limiter.windowStart ≤ now := by
      simpa [timely, hstarted, hnow] using htimely
    obtain ⟨hstarted, hstart⟩ := @admit_start limit s.limiter now
    refine ⟨haccounted, ?_, ?_, fun t' now' ht => ?_, fun hunstarted => absurd hstarted (Bool.eq_false_iff.mp hunstarted)⟩
    · dsimp only
      rw [marks_append]
      exact h.paced.append (admit_paced hlimit horder)
    · dsimp only
      rcases hstart with hstart | hstart
      · rw [hstart]
        exact h.past
      · rw [hstart]
        exact h.read t now hnow
    · dsimp only at ht
      rcases eq_or_ne t' t with rfl | hne
      · rw [Function.update_self] at ht
        cases ht
      · rw [Function.update_of_ne hne] at ht
        exact h.read t' now' ht
  | flush force =>
    obtain rfl := Option.some.inj hstep
    obtain ⟨hstarted, hflush⟩ := @flush_start s.limiter s.clock force
    refine ⟨haccounted, ?_, ?_, h.read, fun hunstarted => ?_⟩
    · dsimp only
      rw [marks_append]
      exact h.paced.append (flush_paced force h.past h.unstarted)
    · dsimp only
      rcases hflush with hsame | ⟨hstart, -⟩
      · rw [hsame]
        exact h.past
      · rw [hstart]
        exact UInt64.le_refl _
    · dsimp only at hunstarted ⊢
      rcases hflush with hsame | ⟨-, hnone⟩
      · rw [hsame] at hunstarted ⊢
        exact h.unstarted hunstarted
      · exact hnone

lemma inv_of_reachable (hlimit : 0 < limit) (h : Reachable (timelyStep limit) Initial s) : Inv limit s := by
  apply h.invariant
  · rintro s rfl
    exact ⟨rfl, .nil none, UInt64.le_refl _, nofun, fun _ => rfl⟩
  · intro s event s' hinv hstep
    rw [timelyStep, Option.ite_none_right_eq_some] at hstep
    exact inv_step hlimit hinv hstep.1 hstep.2

end Windows

section Marks

lemma usesBetween_marks (a b : ℕ) (log : List Entry) : usesBetween a b (marks log) = admittedBetween a b log := by
  rw [usesBetween, marks, List.countP_filterMap, admittedBetween]
  apply List.countP_congr
  rintro (_ | _ | _ | _) - <;> rfl

lemma forced_marks (log : List Entry) : (marks log).any Mark.forced = log.any Entry.isForced := by
  rw [marks, List.any_filterMap]
  congr 1
  funext entry
  cases entry <;> rfl

lemma opening_marks (log : List Entry) : (marks log).any Mark.isOpening = log.any Entry.isOpening := by
  rw [marks, List.any_filterMap]
  congr 1
  funext entry
  cases entry <;> rfl

end Marks

/-- Where no section runs with a reading from before the open window, a window that no flush has forced starts a second after
the last one, a span of time lets a bounded number of records through, and every call is accounted for. -/
theorem windows_keep_their_rate (hlimit : 0 < limit) (h : Reachable (timelyStep limit) Initial s) :
    (∀ x y z start forced next, s.log = x ++ .opened start forced :: y ++ .opened next false :: z →
      y.any Entry.isOpening = false → start.toNat + 1000 ≤ next.toNat) ∧
    (∀ x y z a span, s.log = x ++ y ++ z → y.any Entry.isForced = false →
      admittedBetween a (a + span) y ≤ limit * (span / 1000 + 2)) ∧
    calls s.log = admissions s.log + summaries s.log + s.limiter.suppressed := by
  have hinv := inv_of_reachable hlimit h
  refine ⟨fun x y z start forced next hlog hy => ?_, fun x y z a span hlog hy => ?_, ?_⟩
  · have hpaced := hinv.paced
    rw [hlog, marks_append, marks_append] at hpaced
    rw [show marks (.opened start forced :: y) = .opens start.toNat forced :: marks y from rfl,
      show marks (.opened next false :: z) = [.opens next.toNat false] ++ marks z from rfl, ← List.append_assoc] at hpaced
    obtain ⟨w, hpaced, -⟩ := hpaced.split
    exact hpaced.spaced ((opening_marks y).trans hy)
  · have hpaced := hinv.paced
    rw [hlog, marks_append, marks_append] at hpaced
    obtain ⟨w, hpaced, -⟩ := hpaced.split
    obtain ⟨w', -, hpaced⟩ := hpaced.split
    rw [← usesBetween_marks]
    exact hpaced.usesBetween_le (by decide) ((forced_marks y).trans hy)
  · rw [calls_eq, hinv.accounted, Nat.add_assoc]

theorem windows_keep_their_rate_run : ∃ s, run (timelyStep 1) {} [.tick 5, .read 0, .read 1, .admits 1, .admits 0, .tick 1005,
    .flush false, .read 0, .admits 0] = some s ∧ admittedBetween 5 1005 s.log ≤ 1 * (1000 / 1000 + 2) ∧ calls s.log = 3 ∧
      summaries s.log = 1 := by
  refine ⟨_, rfl, ?_, by decide, by decide⟩
  have hrate := @windows_keep_their_rate 1 _ (by decide) ⟨_, rfl, [.tick 5, .read 0, .read 1, .admits 1, .admits 0,
    .tick 1005, .flush false, .read 0, .admits 0], rfl⟩
  exact hrate.2.1 [] _ [] 5 1000 (List.append_nil _).symm (by decide)

def late : List Event := [.read 0, .tick 1, .read 1, .tick 2, .read 2, .admits 2, .admits 1, .admits 0]

/-- A call with a reading from before the open window opens one of its own. -/
theorem late_call_reopens : (¬ ∀ limit s, 0 < limit → Reachable (step limit) Initial s →
      ∀ x y z start forced next, s.log = x ++ .opened start forced :: y ++ .opened next false :: z →
        y.any Entry.isOpening = false → start.toNat + 1000 ≤ next.toNat) ∧
    ¬ ∀ limit s, 0 < limit → Reachable (step limit) Initial s →
      ∀ x y z a span, s.log = x ++ y ++ z → y.any Entry.isForced = false →
        admittedBetween a (a + span) y ≤ limit * (span / 1000 + 2) := by
  have hrun : (run (step 1) {} late).map State.log = some [.opened 2 false, .admitted 2, .opened 1 false, .admitted 1,
    .opened 0 false, .admitted 0] := by decide
  obtain ⟨s, hs, hlog⟩ := Option.map_eq_some_iff.mp hrun
  have hreachable : Reachable (step 1) Initial s := ⟨{}, rfl, late, hs⟩
  refine ⟨fun hclaim => ?_, fun hclaim => ?_⟩
  · have := hclaim 1 s Nat.one_pos hreachable [] [.admitted 2] _ 2 false 1 hlog rfl
    exact absurd this (by decide)
  · have := hclaim 1 s Nat.one_pos hreachable [] s.log [] 0 2 (List.append_nil _).symm (by rw [hlog]; rfl)
    rw [hlog] at this
    exact absurd this (by decide)

end MessageLogLimiter

end ServerCore.Runtime
