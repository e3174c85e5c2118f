import ServerCore.Runtime.TaskExecutorInvariant

/-! What the invariant of `TaskExecutor` says about its counters and its tasks. -/

namespace ServerCore.Runtime.TaskExecutor

open ServerCore.Core ServerCore.Foundations TaskRecord

section Reasons

def Keeps (table table' : Table Task) : Prop :=
  table.count ≤ table'.count ∧ ∀ i < table.count, (table.row i).cancelReason ≠ .ok →
    (table'.row i).cancelReason = (table.row i).cancelReason

lemma Keeps.trans {table table' table'' : Table Task} (h : Keeps table table') (h' : Keeps table' table'') :
    Keeps table table'' := by
  refine ⟨h.1.trans h'.1, fun i hi hne => ?_⟩
  have heq := h.2 i hi hne
  rw [h'.2 i (hi.trans_le h.1) (by rwa [heq]), heq]

lemma keeps_marks {table table' : Table Task} (h : TableMarks table table') : Keeps table table' :=
  ⟨h.1.ge, fun i _ hne => (h.2 i).reason_eq hne⟩

lemma keeps_set {table : Table Task} {i : ℕ} {t : Task}
    (h : (table.row i).cancelReason ≠ .ok → t.cancelReason = (table.row i).cancelReason) :
    Keeps table (table.set i t) := by
  refine ⟨le_rfl, fun j _ hne => ?_⟩
  rw [Table.set_row]
  split_ifs with hj
  · subst hj
    exact h hne
  · rfl

lemma keeps_refl (table : Table Task) : Keeps table table := ⟨le_rfl, fun _ _ _ => rfl⟩

lemma observeCancellation_keeps {t : Task} (now : ℕ) (h : t.cancelReason ≠ .ok) :
    (observeCancellation now t).cancelReason = t.cancelReason := by
  rw [observeCancellation, if_pos h]

lemma step_keeps {s s' : State} {e : Event} (h : Inv s) (hs : step s e = some s') : Keeps s.table s'.table := by
  cases e with
  | becomeReady =>
    obtain rfl := Option.some.inj hs
    exact keeps_refl _
  | submit w hasJob retainedBytes deadline =>
    simp only [step] at hs
    split at hs <;> cases hs
    simp only [submit]
    split
    · exact keeps_refl _
    · refine ⟨Nat.le_succ _, fun i hi _ => ?_⟩
      simp only [State.goTo, Table.push_row, hi.ne, ↓reduceIte]
  | accept w now =>
    simp only [step] at hs
    split at hs <;> cases hs
    simp only [accept]
    split
    · exact keeps_refl _
    · exact keeps_set (observeCancellation_keeps now)
  | rejected w =>
    simp only [step] at hs
    split at hs <;> cases hs
    exact keeps_refl _
  | cancel i now =>
    simp only [step] at hs
    split_ifs at hs
    obtain rfl := Option.some.inj hs
    exact keeps_marks (tableMarks_set (cancel_marks _ now))
  | stopParent i =>
    simp only [step] at hs
    split_ifs at hs
    obtain rfl := Option.some.inj hs
    exact keeps_marks (tableMarks_set (parent_marks _))
  | requestStop now =>
    obtain rfl := Option.some.inj hs
    exact keeps_marks (h.stopTasks_marks now)
  | pick w now =>
    simp only [step] at hs
    split at hs <;> cases hs
    have hm := keeps_marks (findQueued_marks now s.tasks s.table h.active).1
    simp only [pick]
    generalize findQueued now s.tasks s.table = found at hm
    obtain ⟨table, found⟩ := found
    split_ifs
    · exact keeps_refl _
    · cases found with
      | none => exact hm
      | some i => exact hm.trans (keeps_set fun _ => rfl)
    · exact keeps_refl _
  | finish w outcome now =>
    simp only [step] at hs
    split at hs <;> cases hs
    exact keeps_set (observeCancellation_keeps now)
  | coordinate w now =>
    simp only [step] at hs
    split at hs <;> cases hs
    have hm := keeps_marks (h.findCancelled_marks now).1
    simp only [coordinate]
    generalize findCancelled now s.tasks s.table = found at hm
    obtain ⟨table, found⟩ := found
    cases found with
    | none =>
      simp only
      split_ifs
      · exact hm
      · exact hm
    | some i =>
      simp only
      split_ifs
      · exact hm.trans (keeps_set fun _ => rfl)
      · exact hm.trans (keeps_set fun _ => rfl)
  | release w =>
    simp only [step] at hs
    split at hs <;> cases hs
    exact keeps_set fun _ => rfl
  | publish w =>
    simp only [step] at hs
    split at hs <;> cases hs
    exact keeps_set fun _ => rfl

lemma steps_keep {s s' : State} (h : Inv s) (hs : Steps step s s') : Keeps s.table s'.table := by
  have := hs.invariant (P := fun t => Inv t ∧ Keeps s.table t.table) ⟨h, keeps_refl _⟩ ?_
  · exact this.2
  · rintro t e t' ⟨ht, hk⟩ hstep
    exact ⟨ht.step hstep, hk.trans (step_keeps ht hstep)⟩

end Reasons

section Accounts

variable {s : State}

def State.countIn (s : State) (phase : TaskPhase) : ℕ := s.table.total (inPhase phase)

def State.accepted (s : State) : ℕ := s.table.total isAdmitted

lemma accepted_eq_phases (s : State) : s.accepted =
    s.countIn .terminal + s.countIn .queued + s.countIn .running + s.countIn .completing := by
  simp only [State.accepted, State.countIn, ← Table.total_add]
  congr 1
  funext t
  simp only [isAdmitted, inPhase]
  cases t.admitted <;> cases t.phase <;> simp

lemma result_of_published {t : Task} (h : Consistent t) {r : Status} (hr : r ∈ t.published) :
    ∃ reason, t.own.closedWith = some reason ∧ t.cancelReason = reason ∧
      if reason ≠ .ok then r.code = reason else ∃ o, t.own.outcome = some o ∧ r = o.status := by
  rcases h.published with hnil | ⟨r', hpub, -, hres, hphase⟩
  · simp [hnil] at hr
  · obtain rfl : r = r' := by simpa [hpub] using hr
    refine ⟨t.cancelReason, h.closed (.inr hphase), rfl, ?_⟩
    rw [resultOf, h.closed (.inr hphase), Option.bind_some] at hres
    split_ifs at hres ⊢
    · rw [← Option.some.inj hres]
      rfl
    · obtain ⟨o, ho, hos⟩ := Option.map_eq_some_iff.mp hres
      exact ⟨o, ho, hos.symm⟩

/-- Every task is counted in exactly one place, runs and is published at most once, and is published
with its first reason or else with what its job did. The two metrics stop at the largest 64-bit
number. -/
theorem tasks_finish_once (s : State) (h : Reachable step Initial s) :
    s.accepted = s.countIn .terminal + s.countIn .queued + s.countIn .running + s.countIn .completing ∧
    s.metrics.acceptedTasks = min s.accepted maximumCounter ∧
    s.metrics.completedTasks = min (s.countIn .terminal) maximumCounter ∧
    (s.accepted ≤ maximumCounter → s.metrics.acceptedTasks =
      s.metrics.completedTasks + s.countIn .queued + s.countIn .running + s.countIn .completing) ∧
    s.pending = s.countIn .queued ∧ s.running = s.countIn .running ∧ s.retained = s.table.total heldBytes ∧
    s.pending ≤ s.options.maxPendingTasks ∧ s.retained ≤ s.options.maxRetainedBytes ∧
    ∀ i < s.table.count,
      ((s.task i).admitted = true → ((s.task i).phase = .queued → 1 ≤ s.pending) ∧
        ((s.task i).phase = .running → 1 ≤ s.running) ∧
        ((s.task i).phase ≠ .terminal → (s.task i).retainedBytes ≤ s.retained)) ∧
      (s.task i).published.length ≤ 1 ∧ (s.task i).runs ≤ 1 ∧
      ((s.task i).cancelledQueued = true → (s.task i).runs = 0) ∧
      (∀ s', Steps step s s' → (s.task i).cancelReason ≠ .ok → (s'.task i).cancelReason = (s.task i).cancelReason) ∧
      ∀ r ∈ (s.task i).published, ∃ reason, (s.task i).own.closedWith = some reason ∧
        (s.task i).cancelReason = reason ∧
        if reason ≠ .ok then r.code = reason else ∃ o, (s.task i).own.outcome = some o ∧ r = o.status := by
  have hinv := Inv.reachable h
  have hphases := accepted_eq_phases s
  have haccepted : s.metrics.acceptedTasks = min s.accepted maximumCounter := hinv.accepted_eq
  have hcompleted : s.metrics.completedTasks = min (s.countIn .terminal) maximumCounter := hinv.completed_eq
  refine ⟨hphases, haccepted, hcompleted, by omega, hinv.pending_eq, hinv.running_eq, hinv.retained_eq,
    hinv.pending_le, hinv.retained_le, fun i hi => ?_⟩
  have hc := hinv.consistent i hi
  refine ⟨fun hadm => ⟨fun hq => ?_, fun hr => ?_, fun ht => ?_⟩, ?_, hc.runs_le, hc.cancelled,
    fun s' hs hne => (steps_keep hinv hs).2 i hi hne, fun r hr => result_of_published hc hr⟩
  · have := Table.le_total hi (inPhase .queued)
    rw [hinv.pending_eq]
    simpa [inPhase, hadm, hq] using this
  · have := Table.le_total hi (inPhase .running)
    rw [hinv.running_eq]
    simpa [inPhase, hadm, hr] using this
  · have := Table.le_total hi heldBytes
    rw [hinv.retained_eq]
    simpa [heldBytes, hadm, ht] using this
  · rcases hc.published with hp | ⟨r, hp, -⟩ <;> simp [hp]

end Accounts

section Saturation

def fresh : State where
  options := ⟨1, 1⟩
  ready := true
  stopping := false
  table := ⟨0, fun _ => { retainedBytes := 0, deadline := none, own := {} }⟩
  tasks := []
  pending := 0
  running := 0
  retained := 0
  metrics := {}
  threads w := if w = 1 then .worker else .caller

lemma fresh_initial : Initial fresh := by
  refine ⟨by decide, by decide, rfl, rfl, rfl, rfl, rfl, rfl, fun w => ?_⟩
  by_cases h : w = 1 <;> simp [fresh, h]

structure Idle (n : ℕ) (s : State) : Prop where
  options : s.options = ⟨1, 1⟩
  ready : s.ready = true
  stopping : s.stopping = false
  tasks : s.tasks = []
  pending : s.pending = 0
  running : s.running = 0
  retained : s.retained = 0
  accepted : s.metrics.acceptedTasks = min n maximumCounter
  completed : s.metrics.completedTasks = min n maximumCounter
  caller : s.threads 0 = .caller
  worker : s.threads 1 = .worker

lemma idle_submit {n : ℕ} {s : State} (h : Idle n s) : ∃ s' i, Steps step s s' ∧ s'.options = s.options ∧
    s'.ready = true ∧ s'.stopping = false ∧ s'.tasks = [i] ∧ s'.pending = 1 ∧ s'.running = 0 ∧ s'.retained = 0 ∧
    s'.metrics.acceptedTasks = add s.metrics.acceptedTasks ∧
    s'.metrics.completedTasks = s.metrics.completedTasks ∧ s'.threads 0 = .caller ∧ s'.threads 1 = .worker ∧
    s'.task i = { retainedBytes := 0, deadline := none, admitted := true, own := {} } := by
  have herr (table : Table Task) (threads : ℕ → Thread) :
      admissionError { s with table, threads } 0 = none := by
    simp [admissionError, h.options, h.ready, h.stopping, h.pending, h.retained]
  have h₁ : step s (.submit 0 true 0 none) = some
      { s with
        table := s.table.push { retainedBytes := 0, deadline := none, own := {} }
        threads := Function.update s.threads 0 (.submitting s.table.count) } := by
    have := herr s.table s.threads
    simp only [step, h.caller, submit, submitError, Bool.not_true, Bool.false_eq_true, ↓reduceIte, gt_iff_lt,
      Nat.not_lt_zero, this]
    rfl
  set s₁ : State := { s with
    table := s.table.push { retainedBytes := 0, deadline := none, own := {} }
    threads := Function.update s.threads 0 (.submitting s.table.count) } with hs₁
  have hrow : s₁.task s.table.count = { retainedBytes := 0, deadline := none, own := {} } := by
    simp [hs₁, State.task, Table.push_row]
  have h₂ : step s₁ (.accept 0 0) = some (accept s₁ 0 s.table.count 0) := by
    simp [step, hs₁]
  refine ⟨accept s₁ 0 s.table.count 0, s.table.count, (Steps.single h₁).trans (Steps.single h₂), ?_⟩
  rw [accept, hrow]
  simp only [hs₁, herr]
  simp [State.goTo, h.ready, h.stopping, h.tasks, h.pending, h.running, h.retained, h.worker, observeCancellation,
    deadlinePassed, State.task]

lemma idle_cycle {n : ℕ} {s : State} (h : Idle n s) : ∃ s', Steps step s s' ∧ Idle (n + 1) s' := by
  obtain ⟨s₁, i, hsteps, hopt, hready, hstop, htasks, hpending, hrunning, hretained, hacc, hcomp, h0, h1, hrow⟩ :=
    idle_submit h
  have h₂ : step s₁ (.pick 1 0) = some (pick s₁ 1 0) := by simp only [step, h1]
  have hfind : findQueued 0 s₁.tasks s₁.table = (s₁.table.set i (s₁.task i), some i) := by
    simp only [State.task] at hrow
    simp [htasks, findQueued, State.task, hrow, observeCancellation, deadlinePassed]
  have hpick : pick s₁ 1 0 = { s₁ with
      table := (s₁.table.set i (s₁.task i)).set i { s₁.task i with phase := .running, runs := 1 }
      pending := 0
      running := 1
      threads := Function.update s₁.threads 1 (.executing i) } := by
    simp only [pick, hstop, hready, hfind, hpending, hrunning, Bool.false_eq_true, ↓reduceIte, Table.set_row_self, hrow]
    rfl
  rw [hpick] at h₂
  set s₂ : State := { s₁ with
    table := (s₁.table.set i (s₁.task i)).set i { s₁.task i with phase := .running, runs := 1 }
    pending := 0
    running := 1
    threads := Function.update s₁.threads 1 (.executing i) } with hs₂
  set s₃ : State := finish s₂ 1 i (.returned ⟨.ok, ""⟩) 0 with hs₃
  have h₃ : step s₂ (.finish 1 (.returned ⟨.ok, ""⟩) 0) = some s₃ := by
    simp [step, hs₃, hs₂]
  have hpub : s₃.threads 1 = .publishing i ⟨.ok, ""⟩ false := by
    simp [hs₃, finish, State.goTo, hs₂, State.task, hrow, observeCancellation, deadlinePassed, Outcome.status]
  set s₄ : State := release s₃ 1 i ⟨.ok, ""⟩ false with hs₄
  have h₄ : step s₃ (.release 1) = some s₄ := by simp only [step, hpub, hs₄]
  have h₅ : step s₄ (.publish 1) = some (publish s₄ 1 i ⟨.ok, ""⟩ false) := by
    simp [step, hs₄, release, State.goTo]
  refine ⟨_, hsteps.trans ((Steps.single h₂).trans ((Steps.single h₃).trans ((Steps.single h₄).trans
    (Steps.single h₅)))), ?_⟩
  constructor
  all_goals simp [publish, hs₄, release, hs₃, finish, State.goTo, hs₂, hopt, h.options, hready, hstop, htasks, hretained, h0,
    State.task, observeCancellation, deadlinePassed, hrow, countResult, hacc, hcomp, h.accepted, h.completed, Inv.add_min, sizeSub]

lemma reachable_idle (n : ℕ) : ∃ s, Reachable step Initial s ∧ Idle n s := by
  induction n with
  | zero =>
    refine ⟨fresh, ⟨fresh, fresh_initial, .refl _⟩, ?_⟩
    constructor <;> rfl
  | succ n ih =>
    obtain ⟨s, hs, hidle⟩ := ih
    obtain ⟨s', hsteps, hidle'⟩ := idle_cycle hidle
    exact ⟨s', hs.steps hsteps, hidle'⟩

/-- After so many tasks that the metrics stand still, a queued task is in no balance. -/
theorem accepted_tasks_saturate : ∃ s, Reachable step Initial s ∧ s.metrics.acceptedTasks ≠
    s.metrics.completedTasks + s.countIn .queued + s.countIn .running + s.countIn .completing := by
  obtain ⟨s, hs, hidle⟩ := reachable_idle maximumCounter
  obtain ⟨s', i, hsteps, -, -, -, -, hpending, -, -, hacc, hcomp, -⟩ := idle_submit hidle
  have hreach := hs.steps hsteps
  have hqueued : s'.countIn .queued = 1 := (Inv.reachable hreach).pending_eq.symm.trans hpending
  refine ⟨s', hreach, ?_⟩
  rw [hacc, hcomp, hidle.accepted, hidle.completed, hqueued, Inv.add_min]
  omega

theorem tasks_finish_once_queued : ∃ s, Reachable step Initial s ∧ s.pending = 1 ∧ s.countIn .queued = 1 := by
  obtain ⟨s, hs, hidle⟩ := reachable_idle 0
  obtain ⟨s', i, hsteps, -, -, -, -, hpending, -⟩ := idle_submit hidle
  have hreach := hs.steps hsteps
  obtain ⟨-, -, -, -, hqueued, -⟩ := tasks_finish_once s' hreach
  exact ⟨s', hreach, hpending, hqueued ▸ hpending⟩

end Saturation

end ServerCore.Runtime.TaskExecutor
