import ServerCore.Core.Status
import ServerCore.Foundations.Table
import ServerCore.Foundations.Transition

/-! The task record of `TaskExecutor` and `KeyedExecutor`, and how a task of either is cancelled.
`own` holds what only one of the two keeps. -/

namespace ServerCore.Runtime

open ServerCore.Core ServerCore.Foundations

inductive TaskPhase
  | queued
  | running
  | completing
  | terminal
  deriving DecidableEq, Repr

structure TaskRecord (α : Type) where
  retainedBytes : ℕ
  deadline : Option ℕ
  parentStopRequested : Bool := false
  admitted : Bool := false
  phase : TaskPhase := .queued
  cancelReason : ErrorCode := .ok
  signalSent : Bool := false
  result : Option Status := none
  runs : ℕ := 0
  cancelledQueued : Bool := false
  published : List Status := []
  own : α
  deriving Repr

namespace TaskRecord

variable {α : Type} {t t' t'' : TaskRecord α}

def cancelWith (reason : ErrorCode) (task : TaskRecord α) : TaskRecord α :=
  { task with cancelReason := reason, cancelledQueued := task.cancelledQueued || task.phase = .queued }

def deadlinePassed (task : TaskRecord α) (now : ℕ) : Bool := task.deadline.any (· ≤ now)

def observeCancellation (now : ℕ) (task : TaskRecord α) : TaskRecord α :=
  if task.cancelReason ≠ .ok then task
  else if deadlinePassed task now then cancelWith .timeout task
  else if task.parentStopRequested then cancelWith .cancelled task
  else task

def cancel (now : ℕ) (task : TaskRecord α) : TaskRecord α × Bool :=
  if task.phase = .completing || task.phase = .terminal || task.cancelReason ≠ .ok then (task, false)
  else (cancelWith (if deadlinePassed task now then .timeout else .cancelled) task, true)

def stopTask (now : ℕ) (task : TaskRecord α) : TaskRecord α :=
  let task := observeCancellation now task
  if task.cancelReason = .ok then cancelWith .cancelled task else task

def stopTasks (stop : ℕ → TaskRecord α → TaskRecord α) : List ℕ → Table (TaskRecord α) → Table (TaskRecord α)
  | [], table => table
  | i :: rest, table => stopTasks stop rest (table.set i (stop i (table.row i)))

-- The search of `Coordinate` for a cancelled task whose token has not been signalled.
def findCancelled (skips : TaskRecord α → Bool) (now : ℕ) :
    List ℕ → Table (TaskRecord α) → Table (TaskRecord α) × Option ℕ
  | [], table => (table, none)
  | i :: rest, table =>
    if skips (table.row i) then findCancelled skips now rest table
    else
      let table := table.set i (observeCancellation now (table.row i))
      if (table.row i).cancelReason ≠ .ok && !(table.row i).signalSent then (table, some i)
      else findCancelled skips now rest table

def Active (t : TaskRecord α) : Prop := t.phase = .queued ∨ t.phase = .running

lemma active_of_live (hc : t.phase ≠ .completing) (ht : t.phase ≠ .terminal) : Active t := by
  cases hp : t.phase
  · exact .inl hp
  · exact .inr hp
  · exact absurd hp hc
  · exact absurd hp ht

section Marks

/-- What a section may do to a task that it does not move on: give it its reason, or signal it. -/
structure Marks (t t' : TaskRecord α) : Prop where
  retainedBytes : t'.retainedBytes = t.retainedBytes
  admitted : t'.admitted = t.admitted
  phase : t'.phase = t.phase
  result : t'.result = t.result
  runs : t'.runs = t.runs
  published : t'.published = t.published
  own : t'.own = t.own
  signalSent : t'.signalSent = t.signalSent ∨ t.phase ≠ .queued
  reason : t'.cancelReason = t.cancelReason ∧ t'.cancelledQueued = t.cancelledQueued ∨
    t.cancelReason = .ok ∧ t'.cancelReason ≠ .ok ∧ Active t ∧
      t'.cancelledQueued = (t.cancelledQueued || decide (t.phase = .queued))

lemma Marks.refl (t : TaskRecord α) : Marks t t :=
  ⟨rfl, rfl, rfl, rfl, rfl, rfl, rfl, .inl rfl, .inl ⟨rfl, rfl⟩⟩

lemma Marks.active_iff (h : Marks t t') : Active t' ↔ Active t := by rw [Active, Active, h.phase]

lemma Marks.trans (h : Marks t t') (h' : Marks t' t'') : Marks t t'' := by
  refine ⟨h'.1.trans h.1, h'.2.trans h.2, h'.3.trans h.3, h'.4.trans h.4, h'.5.trans h.5, h'.6.trans h.6,
    h'.7.trans h.7, ?_, ?_⟩
  · rcases h.signalSent with hs | hs
    · rcases h'.signalSent with hs' | hs'
      · exact .inl (hs'.trans hs)
      · exact .inr (h.phase ▸ hs')
    · exact .inr hs
  · rcases h.reason with ⟨h₁, h₂⟩ | ⟨hok, hne, hphase, hq⟩
    · rcases h'.reason with ⟨h₁', h₂'⟩ | hset
      · exact .inl ⟨h₁'.trans h₁, h₂'.trans h₂⟩
      · rw [h₁, h₂, Active, h.phase] at hset
        exact .inr hset
    · rcases h'.reason with ⟨h₁', h₂'⟩ | ⟨hok', -⟩
      · exact .inr ⟨hok, by rwa [h₁'], hphase, by rw [h₂', hq]⟩
      · exact absurd hok' hne

lemma Marks.reason_eq (h : Marks t t') (hne : t.cancelReason ≠ .ok) : t'.cancelReason = t.cancelReason := by
  rcases h.reason with ⟨hr, -⟩ | ⟨hok, -⟩
  · exact hr
  · exact absurd hok hne

lemma Marks.cancelled (h : Marks t t') (hne : t.cancelReason ≠ .ok) : t'.cancelReason ≠ .ok := by
  rwa [h.reason_eq hne]

lemma cancelWith_marks {reason : ErrorCode} (hr : reason ≠ .ok) (hok : t.cancelReason = .ok) (ha : Active t) :
    Marks t (cancelWith reason t) :=
  ⟨rfl, rfl, rfl, rfl, rfl, rfl, rfl, .inl rfl, .inr ⟨hok, hr, ha, rfl⟩⟩

lemma observeCancellation_marks (now : ℕ) (ha : Active t) : Marks t (observeCancellation now t) := by
  simp only [observeCancellation]
  split_ifs with hne
  · exact .refl t
  · exact cancelWith_marks (by decide) (not_not.mp hne) ha
  · exact cancelWith_marks (by decide) (not_not.mp hne) ha
  · exact .refl t

lemma stopTask_marks (now : ℕ) (ha : Active t) : Marks t (stopTask now t) := by
  have ho := observeCancellation_marks now ha
  simp only [stopTask]
  split_ifs with hok
  · exact ho.trans (cancelWith_marks (by decide) hok (ho.active_iff.mpr ha))
  · exact ho

lemma cancel_marks (t : TaskRecord α) (now : ℕ) : Marks t (cancel now t).1 := by
  rw [cancel]
  by_cases h : (t.phase = .completing || t.phase = .terminal || t.cancelReason ≠ .ok) = true
  · simp only [h, ↓reduceIte]
    exact .refl t
  · simp only [h, Bool.false_eq_true, ↓reduceIte]
    simp only [Bool.or_eq_true, decide_eq_true_eq, not_or, not_not] at h
    obtain ⟨⟨hc, ht⟩, hok⟩ := h
    refine cancelWith_marks ?_ hok (active_of_live hc ht)
    split_ifs <;> decide

lemma parent_marks (t : TaskRecord α) : Marks t { t with parentStopRequested := true } := { Marks.refl t with }

end Marks

section Tables

variable {table table' table'' : Table (TaskRecord α)}

def TableMarks (table table' : Table (TaskRecord α)) : Prop :=
  table'.count = table.count ∧ ∀ i, Marks (table.row i) (table'.row i)

lemma TableMarks.refl (table : Table (TaskRecord α)) : TableMarks table table := ⟨rfl, fun _ => .refl _⟩

lemma TableMarks.trans (h : TableMarks table table') (h' : TableMarks table' table'') : TableMarks table table'' :=
  ⟨h'.1.trans h.1, fun i => (h.2 i).trans (h'.2 i)⟩

lemma tableMarks_set {i : ℕ} (h : Marks (table.row i) t) : TableMarks table (table.set i t) := by
  refine ⟨rfl, fun j => ?_⟩
  rw [Table.set_row]
  split_ifs with hj
  · rwa [hj]
  · exact .refl _

lemma stopTasks_marks {stop : ℕ → TaskRecord α → TaskRecord α} (ids : List ℕ) (table : Table (TaskRecord α))
    (h : ∀ i ∈ ids, ∀ t, Marks (table.row i) t → Marks t (stop i t)) :
    TableMarks table (stopTasks stop ids table) := by
  induction ids generalizing table with
  | nil => exact .refl table
  | cons i rest ih =>
    have hset : TableMarks table (table.set i (stop i (table.row i))) := tableMarks_set (h i (by simp) _ (.refl _))
    exact hset.trans (ih _ fun j hj t ht => h j (by simp [hj]) t ((hset.2 j).trans ht))

lemma findCancelled_marks {skips : TaskRecord α → Bool} (now : ℕ) (ids : List ℕ) (table : Table (TaskRecord α))
    (h : ∀ i ∈ ids, ∀ t, Marks (table.row i) t → skips t = false → Active t) :
    TableMarks table (findCancelled skips now ids table).1 ∧
    ∀ i, (findCancelled skips now ids table).2 = some i → i ∈ ids ∧
      ((findCancelled skips now ids table).1.row i).cancelReason ≠ .ok := by
  induction ids generalizing table with
  | nil => exact ⟨.refl table, by simp [findCancelled]⟩
  | cons i rest ih =>
    have hlater : TableMarks table (findCancelled skips now rest table).1 ∧
        ∀ j, (findCancelled skips now rest table).2 = some j → j ∈ rest ∧
          ((findCancelled skips now rest table).1.row j).cancelReason ≠ .ok :=
      ih table fun j hj => h j (by simp [hj])
    simp only [findCancelled]
    cases hskip : skips (table.row i) with
    | true => exact ⟨hlater.1, fun j hj => (hlater.2 j hj).imp (by simp +contextual) id⟩
    | false =>
      have hset : TableMarks table (table.set i (observeCancellation now (table.row i))) :=
        tableMarks_set (observeCancellation_marks now (h i (by simp) _ (.refl _) hskip))
      simp only [Bool.false_eq_true, ↓reduceIte]
      split_ifs with hr
      · refine ⟨hset, ?_⟩
        rintro j ⟨⟩
        simp only [Bool.and_eq_true, decide_eq_true_eq] at hr
        exact ⟨by simp, hr.1⟩
      · obtain ⟨hm, hsome⟩ := ih _ fun j hj t ht => h j (by simp [hj]) t ((hset.2 j).trans ht)
        exact ⟨hset.trans hm, fun j hj => (hsome j hj).imp (by simp +contextual) id⟩

end Tables

section Threads

variable {ρ : Type} {task? : ρ → Option ℕ} {expects : ρ → TaskRecord α → Prop} {table table' : Table (TaskRecord α)}
  {threads : ℕ → ρ} {w i : ℕ} {thread : ρ}

/-- Every thread at a task finds the task as it expects it, and no two threads are at one task. -/
structure Placed (task? : ρ → Option ℕ) (expects : ρ → TaskRecord α → Prop) (table : Table (TaskRecord α))
    (threads : ℕ → ρ) : Prop where
  fits : ∀ w i, task? (threads w) = some i → i < table.count ∧ expects (threads w) (table.row i)
  exclusive : Exclusive (fun thread i => task? thread = some i) threads

lemma Placed.of_free (h : ∀ w, task? (threads w) = none) : Placed task? expects table threads :=
  ⟨fun w i hi => by simp [h w] at hi, fun w _ i hi => by simp [h w] at hi⟩

lemma Placed.at_task (h : Placed task? expects table threads) (hw : threads w = thread) (hi : task? thread = some i) :
    i < table.count ∧ expects thread (table.row i) := by
  subst hw
  exact h.fits w i hi

lemma Placed.held (h : Placed task? expects table threads) (hw : threads w = thread) (hi : task? thread = some i) :
    ∀ v, task? (threads v) = some i → v = w := fun v hv => h.exclusive v w i hv (by rwa [hw])

lemma Placed.update (h : Placed task? expects table threads) (hc : table.count ≤ table'.count)
    (hrow : ∀ v ≠ w, ∀ i, task? (threads v) = some i → table'.row i = table.row i)
    (hfits : ∀ i, task? thread = some i → i < table'.count ∧ expects thread (table'.row i))
    (howns : ∀ i, task? thread = some i → task? (threads w) = some i ∨ ∀ v, ¬ task? (threads v) = some i) :
    Placed task? expects table' (Function.update threads w thread) := by
  refine ⟨(forall_update_iff (P := fun l => ∀ i, task? l = some i → i < table'.count ∧ expects l (table'.row i))).mpr
    ⟨hfits, fun v hv i hi => ?_⟩, h.exclusive.update howns⟩
  obtain ⟨hlt, he⟩ := h.fits v i hi
  rw [hrow v hv i hi]
  exact ⟨hlt.trans_le hc, he⟩

lemma Placed.leave (h : Placed task? expects table threads) (hthread : task? thread = none) :
    Placed task? expects table (Function.update threads w thread) := by
  have hno (i : ℕ) : task? thread ≠ some i := by simp [hthread]
  exact h.update le_rfl (fun _ _ _ _ => rfl) (fun i hi => absurd hi (hno i)) fun i hi => absurd hi (hno i)

lemma Placed.push (h : Placed task? expects table threads) (hthread : task? thread = some table.count)
    (he : expects thread t) : Placed task? expects (table.push t) (Function.update threads w thread) := by
  refine h.update (Nat.le_succ _) (fun v _ i hi => ?_) (fun i hi => ?_) fun i hi => .inr fun v hv => ?_
  · rw [Table.push_row, if_neg (h.fits v i hi).1.ne]
  · obtain rfl : table.count = i := by simpa [hthread] using hi
    refine ⟨Nat.lt_succ_self _, ?_⟩
    rwa [Table.push_row, if_pos rfl]
  · have hlt := (h.fits v i hv).1
    obtain rfl : table.count = i := by simpa [hthread] using hi
    exact absurd hlt (lt_irrefl _)

lemma Placed.set (h : Placed task? expects table threads) (hi : i < table.count)
    (held : ∀ v, task? (threads v) = some i → v = w) (howns : ∀ k, task? thread = some k → k = i)
    (he : expects thread t) : Placed task? expects (table.set i t) (Function.update threads w thread) := by
  refine h.update le_rfl (fun v hv k hk => ?_) (fun k hk => ?_) fun k hk => ?_
  · refine Table.set_row_ne _ _ ?_
    rintro rfl
    exact hv (held v hk)
  · obtain rfl := howns k hk
    rw [Table.set_row_self]
    exact ⟨hi, he⟩
  · obtain rfl := howns k hk
    by_cases hw : task? (threads w) = some k
    · exact .inl hw
    · exact .inr fun v hv => hw (held v hv ▸ hv)

lemma Placed.mark (h : Placed task? expects table threads) (hm : TableMarks table table')
    (hexpects : ∀ {thread t t'}, Marks t t' → expects thread t → expects thread t') :
    Placed task? expects table' threads :=
  ⟨fun w i hi => (h.fits w i hi).imp (·.trans_eq hm.1.symm) (hexpects (hm.2 i)), h.exclusive⟩

end Threads

section Consistent

/-- What the phase of a task says about its run and its cancellation. -/
structure Consistent (t : TaskRecord α) : Prop where
  waiting : t.admitted = false → t.phase = .queued
  queued : t.phase = .queued → t.runs = 0 ∧ t.published = [] ∧ (t.cancelledQueued = true ↔ t.cancelReason ≠ .ok)
  running : t.phase = .running → t.runs = 1 ∧ t.published = [] ∧ t.cancelledQueued = false
  runs_le : t.runs ≤ 1
  cancelled : t.cancelledQueued = true → t.runs = 0

lemma Marks.consistent (h : Marks t t') (hc : Consistent t) : Consistent t' := by
  obtain ⟨-, hadm, hphase, -, hruns, hpub, -, -, hreason⟩ := h
  constructor
  · rw [hadm, hphase]
    exact hc.waiting
  · intro hq
    rw [hphase] at hq
    obtain ⟨h₁, h₂, h₃⟩ := hc.queued hq
    refine ⟨hruns.trans h₁, hpub.trans h₂, ?_⟩
    rcases hreason with ⟨hr, hcq⟩ | ⟨hok, hne, -, hcq⟩
    · rw [hr, hcq]
      exact h₃
    · simp [hcq, hq, hne]
  · intro hr
    rw [hphase] at hr
    obtain ⟨h₁, h₂, h₃⟩ := hc.running hr
    refine ⟨hruns.trans h₁, hpub.trans h₂, ?_⟩
    rcases hreason with ⟨-, hcq⟩ | ⟨-, -, -, hcq⟩
    · rw [hcq, h₃]
    · simp [hcq, hr, h₃]
  · rw [hruns]
    exact hc.runs_le
  · intro hcq
    rw [hruns]
    rcases hreason with ⟨-, hq⟩ | ⟨-, -, hp, hq⟩
    · exact hc.cancelled (hq ▸ hcq)
    · rcases hp with hp | hp
      · exact (hc.queued hp).1
      · simp [hq, hp, (hc.running hp).2.2] at hcq

lemma Consistent.admit (hc : Consistent t) (hadm : t'.admitted = true) (hphase : t'.phase = t.phase)
    (hruns : t'.runs = t.runs) (hpub : t'.published = t.published) (hcq : t'.cancelledQueued = t.cancelledQueued)
    (hreason : t'.cancelReason = t.cancelReason) : Consistent t' := by
  refine ⟨by simp [hadm], ?_, ?_, ?_, ?_⟩
  · rw [hphase, hruns, hpub, hcq, hreason]
    exact hc.queued
  · rw [hphase, hruns, hpub, hcq]
    exact hc.running
  · rw [hruns]
    exact hc.runs_le
  · rw [hcq, hruns]
    exact hc.cancelled

lemma Consistent.start (hc : Consistent t) (hq : t.phase = .queued) (hok : t.cancelReason = .ok)
    (hadm : t'.admitted = true) (hphase : t'.phase = .running) (hruns : t'.runs = t.runs + 1)
    (hpub : t'.published = t.published) (hcq : t'.cancelledQueued = t.cancelledQueued) : Consistent t' := by
  obtain ⟨hzero, hnone, hcancelled⟩ := hc.queued hq
  have hfalse : t'.cancelledQueued = false := by
    rw [hcq, Bool.eq_false_iff, ne_eq, hcancelled]
    simpa using hok
  refine ⟨by simp [hadm], by simp [hphase], fun _ => ⟨?_, ?_, hfalse⟩, ?_, by simp [hfalse]⟩
  · rw [hruns, hzero]
  · rw [hpub, hnone]
  · rw [hruns, hzero]

lemma Consistent.settle (hc : Consistent t) (hadm : t'.admitted = true) (hactive : ¬ Active t')
    (hruns : t'.runs = t.runs) (hcq : t'.cancelledQueued = t.cancelledQueued) : Consistent t' := by
  refine ⟨by simp [hadm], fun hq => absurd (.inl hq) hactive, fun hr => absurd (.inr hr) hactive, ?_, ?_⟩
  · rw [hruns]
    exact hc.runs_le
  · rw [hcq, hruns]
    exact hc.cancelled

end Consistent

end TaskRecord

end ServerCore.Runtime
