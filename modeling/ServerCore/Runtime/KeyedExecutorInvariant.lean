import ServerCore.Runtime.KeyedExecutorKeys

/-! The accounts of `KeyedExecutor` and its ready list in every reachable state. -/

namespace ServerCore.Runtime.KeyedExecutor

open ServerCore.Core ServerCore.Foundations TaskRecord
open TaskExecutor (Outcome)

structure Consistent (t : Task) : Prop extends TaskRecord.Consistent t where
  untouched : t.phase = .queued → t.own.occupying = false ∧ t.signalSent = false
  occupied : t.phase = .running → t.own.occupying = true
  completing : t.phase = .completing → t.published = []
  terminal : t.phase = .terminal → t.own.occupying = false ∧ ∃ r, t.published = [r] ∧ t.result = some r

lemma Consistent.occupying_live {t : Task} (h : Consistent t) (ho : t.own.occupying = true) :
    t.admitted = true ∧ t.phase ≠ .terminal := by
  refine ⟨?_, fun ht => by simp [(h.terminal ht).1] at ho⟩
  by_contra hadm
  have hq := h.waiting (by simpa using hadm)
  simp [(h.untouched hq).1] at ho

namespace Thread

def task? : Thread → Option ℕ
  | submitting i | executing i | publishing i .. => some i
  | _ => none

def expects : Thread → Task → Prop
  | submitting _, t => t.admitted = false
  | executing _, t => t.admitted = true ∧ t.phase = .running
  | publishing _ _ occupiedKey, t => t.admitted = true ∧ t.phase = .completing ∧ t.own.occupying = occupiedKey
  | _, _ => True

end Thread

structure Limits (s : State) : Prop where
  positive : 0 < s.options.maxOutstandingTasksPerKey
  keys : s.keys.map.domain.card ≤ s.options.maxKeys
  outstanding : s.outstanding ≤ s.options.maxOutstandingTasks
  retained : s.retained ≤ s.options.maxRetainedBytes
  keyOutstanding : ∀ k, (s.keys.slot k).outstanding ≤ s.options.maxOutstandingTasksPerKey
  keyBytes : ∀ k, (s.keys.slot k).bytes ≤ s.options.maxRetainedBytesPerKey

structure Inv (s : State) : Prop where
  nodup : s.tasks.Nodup
  listed : ∀ i, i ∈ s.tasks ↔ i < s.table.count ∧ (s.task i).admitted = true ∧ (s.task i).phase ≠ .terminal
  counted : ∀ m : Measure, m.state s = s.table.total m.task
  summed : ∀ m : Measure, m.state s = s.keys.map.total m.key
  perKey : ∀ (m : Measure) k, m.key (s.keys.slot k) = s.table.total (m.ofKey k)
  present : ∀ k, k ∈ s.keys.map.domain ↔ 0 < (s.keys.slot k).outstanding
  limits : Limits s
  queues_nodup : ∀ k, (s.keys.slot k).queued.Nodup
  queues : ∀ k i, i ∈ (s.keys.slot k).queued ↔ i < s.table.count ∧ (s.task i).admitted = true ∧
    (s.task i).phase = .queued ∧ (s.task i).own.key = k
  linked : s.keys.Linked
  ready : ∀ k, (s.keys.slot k).ready = true → (s.keys.slot k).busy = false ∧ (s.keys.slot k).queued ≠ []
  consistent : ∀ i < s.table.count, Consistent (s.task i)
  placed : Placed Thread.task? Thread.expects s.table s.threads

section Marks

lemma Consistent.mark {t t' : Task} (hc : Consistent t) (h : Marks t t') : Consistent t' := by
  refine { h.consistent hc.toConsistent with untouched := ?_, occupied := ?_, completing := ?_, terminal := ?_ }
  · intro hq
    rw [h.phase] at hq
    obtain ⟨hocc, hsignal⟩ := hc.untouched hq
    rw [h.own]
    refine ⟨hocc, ?_⟩
    rcases h.signalSent with hs | hs
    · exact hs.trans hsignal
    · exact absurd hq hs
  · rw [h.phase, h.own]
    exact hc.occupied
  · rw [h.phase, h.published]
    exact hc.completing
  · rw [h.phase, h.published, h.own, h.result]
    exact hc.terminal

lemma Marks.measure {t t' : Task} (h : Marks t t') (m : Measure) : m.task t' = m.task t := by
  cases m <;> simp only [Measure.task, h.admitted, h.phase, h.retainedBytes, h.own]

lemma Thread.expects_mark {thread : Thread} {t t' : Task} (h : Marks t t') (he : thread.expects t) : thread.expects t' := by
  cases thread with
  | submitting _ | executing _ | publishing _ _ _ => simpa only [expects, h.admitted, h.phase, h.own] using he
  | _ => trivial

lemma Inv.mark {s : State} (h : Inv s) {table : Table Task} (hm : TableMarks s.table table) :
    Inv { s with table } := by
  have htotal (m : Measure) : table.total m.task = s.table.total m.task :=
    Table.total_congr hm.1 fun i _ => Marks.measure (hm.2 i) m
  constructor
  · exact h.nodup
  · intro i
    have hi := hm.2 i
    simp only [h.listed, State.task, hm.1, hi.admitted, hi.phase]
  · intro m
    rw [htotal]
    exact h.counted m
  · exact fun m => h.summed m
  · intro m k
    refine (h.perKey m k).trans (Table.total_congr hm.1 fun i _ => ?_).symm
    rw [Measure.ofKey, Measure.ofKey, (hm.2 i).own, Marks.measure (hm.2 i)]
  · exact h.present
  · exact { h.limits with }
  · exact h.queues_nodup
  · intro k i
    have hi := hm.2 i
    simp only [h.queues, State.task, hm.1, hi.admitted, hi.phase, hi.own]
  · exact h.linked
  · exact h.ready
  · intro i hi
    exact (h.consistent i (hm.1 ▸ hi)).mark (hm.2 i)
  · exact h.placed.mark hm Thread.expects_mark

end Marks

namespace Inv

variable {s : State}

lemma listed_live (h : Inv s) : ∀ i ∈ s.tasks, (s.task i).phase ≠ .terminal := fun i hi => ((h.listed i).mp hi).2.2

lemma active (h : Inv s) {i : ℕ} (hi : i ∈ s.tasks) {t : Task} (ht : Marks (s.task i) t) (hc : t.phase ≠ .completing) :
    Active t :=
  active_of_live hc (ht.phase ▸ h.listed_live i hi)

lemma stopTasks_marks (h : Inv s) (clock : ℕ → ℕ) : TableMarks s.table (stopTasks clock s.tasks s.table) := by
  refine TaskRecord.stopTasks_marks s.tasks s.table fun i hi t ht => ?_
  rw [KeyedExecutor.stopTask]
  split_ifs with hc
  · exact .refl t
  · exact stopTask_marks _ (h.active hi ht hc)

lemma findCancelled_marks (h : Inv s) (now : ℕ) : TableMarks s.table (findCancelled now s.tasks s.table).1 ∧
    ∀ i, (findCancelled now s.tasks s.table).2 = some i → i ∈ s.tasks ∧
      ((findCancelled now s.tasks s.table).1.row i).cancelReason ≠ .ok :=
  TaskRecord.findCancelled_marks now s.tasks s.table fun _ hi _ ht hc => h.active hi ht (by simpa using hc)

lemma goTo_free (h : Inv s) {w : ℕ} {thread : Thread} (ht : thread.task? = none) : Inv (s.goTo w thread) := by
  refine { h with counted := fun m => ?_, limits := { h.limits with }, placed := h.placed.leave ht }
  exact h.counted m

/-- What a section does to the counters follows what it does to its task and the key of it. -/
structure Change (s : State) (w i : ℕ) (t : Task) (b : Key) (thread : Thread) (s' : State) : Prop where
  lt : i < s.table.count
  held : ∀ v, (s.threads v).task? = some i → v = w
  key : t.own.key = (s.task i).own.key
  table : s'.table = s.table.set i t
  threads : s'.threads = Function.update s.threads w thread
  keys : s.keys.Sets (s.task i).own.key b s'.keys
  state : ∀ m : Measure, m.state s' + m.task (s.task i) = m.state s + m.task t
  slot : ∀ m : Measure, m.key b + m.task (s.task i) = m.key (s.keys.slot (s.task i).own.key) + m.task t
  limits : Limits s'
  nodup : s'.tasks.Nodup
  others : ∀ j, j ≠ i → (j ∈ s'.tasks ↔ j ∈ s.tasks)
  mem : i ∈ s'.tasks ↔ t.admitted = true ∧ t.phase ≠ .terminal
  queue_nodup : b.queued.Nodup
  queue_others : ∀ j, j ≠ i → (j ∈ b.queued ↔ j ∈ (s.keys.slot (s.task i).own.key).queued)
  queue_mem : i ∈ b.queued ↔ t.admitted = true ∧ t.phase = .queued
  ready : b.ready = true → b.busy = false ∧ b.queued ≠ []
  consistent : Consistent t
  fits : thread.expects t
  owns : ∀ k, thread.task? = some k → k = i

lemma change (h : Inv s) {s' : State} {w i : ℕ} {t : Task} {b : Key} {u : Thread}
    (hc : Change s w i t b u s') : Inv s' := by
  have hi := hc.lt
  have hcount : s'.table.count = s.table.count := by rw [hc.table, Table.set_count]
  have hrow (j : ℕ) (hj : j ≠ i) : s'.table.row j = s.table.row j := by rw [hc.table, Table.set_row_ne _ _ hj]
  have hself : s'.table.row i = t := by rw [hc.table, Table.set_row_self]
  have htotal (f : Task → ℕ) : s'.table.total f + f (s.task i) = s.table.total f + f t := by
    rw [hc.table]
    exact Table.total_set hi t f
  constructor
  · exact hc.nodup
  · intro j
    rcases eq_or_ne j i with rfl | hj
    · simp only [hc.mem, State.task, hself, hcount, hi, true_and]
    · simp only [hc.others j hj, h.listed, State.task, hrow j hj, hcount]
  · intro m
    have := htotal m.task
    have := hc.state m
    have := h.counted m
    omega
  · intro m
    have := hc.keys.total m
    have := hc.slot m
    have := hc.state m
    have := h.summed m
    omega
  · intro m k
    have htot := htotal (m.ofKey k)
    have hk := h.perKey m k
    rw [hc.keys.slot]
    by_cases heq : k = (s.task i).own.key
    · subst heq
      have hslot := hc.slot m
      have hold : m.ofKey (s.task i).own.key (s.task i) = m.task (s.task i) := if_pos rfl
      have hnew : m.ofKey (s.task i).own.key t = m.task t := if_pos hc.key
      rw [if_pos rfl]
      omega
    · have hold : m.ofKey k (s.task i) = 0 := if_neg fun he => heq he.symm
      have hnew : m.ofKey k t = 0 := if_neg fun he => heq (he.symm.trans hc.key)
      rw [if_neg heq]
      omega
  · intro k
    rw [hc.keys.domain, hc.keys.slot]
    split_ifs with heq
    · rfl
    · exact h.present k
  · exact hc.limits
  · intro k
    rw [hc.keys.slot]
    split_ifs with heq
    · exact hc.queue_nodup
    · exact h.queues_nodup k
  · intro k j
    have hold := h.queues k j
    rw [hc.keys.slot]
    rcases eq_or_ne j i with rfl | hj
    · simp only [State.task, hself, hcount, hi, true_and, hc.key] at hold ⊢
      split_ifs with heq
      · simp [hc.queue_mem, heq]
      · have hne : (s.task j).own.key ≠ k := fun he => heq he.symm
        rw [hold]
        simp [hne]
    · simp only [State.task, hrow j hj, hcount] at hold ⊢
      split_ifs with heq
      · rw [hc.queue_others j hj, ← heq]
        exact hold
      · exact hold
  · exact hc.keys.linked h.linked
  · intro k
    rw [hc.keys.slot]
    split_ifs with heq
    · exact hc.ready
    · exact h.ready k
  · intro j hj
    rcases eq_or_ne j i with rfl | hne
    · rw [State.task, hself]
      exact hc.consistent
    · rw [State.task, hrow j hne]
      exact h.consistent j (hcount ▸ hj)
  · rw [hc.threads, hc.table]
    exact h.placed.set hi hc.held hc.owns hc.fits

end Inv

end ServerCore.Runtime.KeyedExecutor
