import ServerCore.Runtime.TaskExecutor

/-! The accounts of `TaskExecutor` in every reachable state. -/

namespace ServerCore.Runtime.TaskExecutor

open ServerCore.Core ServerCore.Foundations TaskRecord

def inPhase (phase : TaskPhase) (t : Task) : ℕ := if t.admitted = true ∧ t.phase = phase then 1 else 0

def isAdmitted (t : Task) : ℕ := if t.admitted = true then 1 else 0

def heldBytes (t : Task) : ℕ := if t.admitted = true ∧ t.phase ≠ .terminal then t.retainedBytes else 0

def resultOf (t : Task) : Option Status :=
  t.own.closedWith.bind fun reason =>
    if reason ≠ .ok then some (.failWithoutMessage reason) else t.own.outcome.map Outcome.status

structure Consistent (t : Task) : Prop extends TaskRecord.Consistent t where
  unclosed : Active t → t.own.closedWith = none
  closed : t.phase = .completing ∨ t.phase = .terminal → t.own.closedWith = some t.cancelReason
  published : t.published = [] ∨
    ∃ r, t.published = [r] ∧ t.result = some r ∧ resultOf t = some r ∧ t.phase = .terminal

namespace Thread

def task? : Thread → Option ℕ
  | submitting i | executing i | publishing i .. | released i .. => some i
  | _ => none

def expects : Thread → Task → Prop
  | submitting _, t => t.admitted = false
  | executing _, t => t.admitted = true ∧ t.phase = .running
  | publishing _ r _, t => t.admitted = true ∧ t.phase = .completing ∧ t.published = [] ∧ resultOf t = some r
  | released _ r _, t => t.admitted = true ∧ t.phase = .terminal ∧ t.published = [] ∧ resultOf t = some r
  | _, _ => True

end Thread

structure Inv (s : State) : Prop where
  nodup : s.tasks.Nodup
  listed : ∀ i, i ∈ s.tasks ↔ i < s.table.count ∧ (s.task i).admitted = true ∧ Active (s.task i)
  pending_eq : s.pending = s.table.total (inPhase .queued)
  running_eq : s.running = s.table.total (inPhase .running)
  retained_eq : s.retained = s.table.total heldBytes
  pending_le : s.pending ≤ s.options.maxPendingTasks
  retained_le : s.retained ≤ s.options.maxRetainedBytes
  accepted_eq : s.metrics.acceptedTasks = min (s.table.total isAdmitted) maximumCounter
  completed_eq : s.metrics.completedTasks = min (s.table.total (inPhase .terminal)) maximumCounter
  consistent : ∀ i < s.table.count, Consistent (s.task i)
  placed : Placed Thread.task? Thread.expects s.table s.threads

section Marks

lemma Marks.resultOf {t t' : Task} (h : Marks t t') : resultOf t' = resultOf t := by
  rw [TaskExecutor.resultOf, TaskExecutor.resultOf, h.own]

lemma Consistent.mark {t t' : Task} (hc : Consistent t) (h : Marks t t') : Consistent t' := by
  refine { h.consistent hc.toConsistent with unclosed := ?_, closed := ?_, published := ?_ }
  · rw [h.active_iff, h.own]
    exact hc.unclosed
  · intro hcl
    rw [h.phase] at hcl
    rw [h.own, hc.closed hcl]
    rcases h.reason with ⟨hr, -⟩ | ⟨-, -, hp, -⟩
    · rw [hr]
    · rcases hcl with hcl | hcl <;> rcases hp with hp | hp <;> simp [hcl] at hp
  · rw [h.published, h.result, Marks.resultOf h, h.phase]
    exact hc.published

lemma Marks.inPhase {t t' : Task} (h : Marks t t') (phase : TaskPhase) : inPhase phase t' = inPhase phase t := by
  rw [TaskExecutor.inPhase, TaskExecutor.inPhase, h.admitted, h.phase]

lemma Thread.expects_mark {thread : Thread} {t t' : Task} (h : Marks t t') (he : thread.expects t) : thread.expects t' := by
  cases thread with
  | submitting _ | executing _ | publishing _ _ _ | released _ _ _ =>
    simpa only [expects, h.admitted, h.phase, h.published, Marks.resultOf h] using he
  | _ => trivial

lemma Inv.mark {s : State} (h : Inv s) {table : Table Task} (hm : TableMarks s.table table) :
    Inv { s with table } := by
  have htotal {f : Task → ℕ} (hf : ∀ t t', Marks t t' → f t' = f t) : table.total f = s.table.total f :=
    Table.total_congr hm.1 fun i _ => hf _ _ (hm.2 i)
  have hphase (phase : TaskPhase) := htotal (f := TaskExecutor.inPhase phase) fun t t' ht => Marks.inPhase ht phase
  constructor
  · exact h.nodup
  · intro i
    have hi := hm.2 i
    simp only [h.listed, State.task, hm.1, hi.admitted, hi.active_iff]
  · exact h.pending_eq.trans (hphase _).symm
  · exact h.running_eq.trans (hphase _).symm
  · refine h.retained_eq.trans (htotal fun t t' ht => ?_).symm
    rw [heldBytes, heldBytes, ht.admitted, ht.phase, ht.retainedBytes]
  · exact h.pending_le
  · exact h.retained_le
  · refine h.accepted_eq.trans ?_
    rw [htotal fun t t' ht => by rw [isAdmitted, isAdmitted, ht.admitted]]
  · refine h.completed_eq.trans ?_
    rw [hphase]
  · intro i hi
    exact (h.consistent i (hm.1 ▸ hi)).mark (hm.2 i)
  · exact h.placed.mark hm Thread.expects_mark

end Marks

section Scans

lemma findQueued_marks (now : ℕ) (ids : List ℕ) (table : Table Task) (h : ∀ i ∈ ids, Active (table.row i)) :
    TableMarks table (findQueued now ids table).1 ∧
    ∀ i, (findQueued now ids table).2 = some i → i ∈ ids ∧
      ((findQueued now ids table).1.row i).phase = .queued ∧
      ((findQueued now ids table).1.row i).cancelReason = .ok := by
  induction ids generalizing table with
  | nil => exact ⟨.refl table, by simp [findQueued]⟩
  | cons i rest ih =>
    have hrest : ∀ j ∈ rest, Active (table.row j) := fun j hj => h j (by simp [hj])
    have hset : TableMarks table (table.set i (observeCancellation now (table.row i))) :=
      tableMarks_set (observeCancellation_marks now (h i (by simp)))
    simp only [findQueued]
    split_ifs with hq hr
    · obtain ⟨hm, hsome⟩ := ih table hrest
      refine ⟨hm, fun j hj => ?_⟩
      obtain ⟨hmem, hj⟩ := hsome j hj
      exact ⟨by simp [hmem], hj⟩
    · obtain ⟨hm, hsome⟩ := ih _ fun j hj => by
        rw [Active, (hset.2 j).phase]
        exact hrest j hj
      refine ⟨hset.trans hm, fun j hj => ?_⟩
      obtain ⟨hmem, hj⟩ := hsome j hj
      exact ⟨by simp [hmem], hj⟩
    · refine ⟨hset, ?_⟩
      rintro j ⟨⟩
      refine ⟨by simp, ?_, not_not.mp hr⟩
      rw [(hset.2 i).phase]
      exact not_not.mp hq

end Scans

namespace Inv

variable {s : State}

lemma active (h : Inv s) : ∀ i ∈ s.tasks, Active (s.task i) := fun i hi => ((h.listed i).mp hi).2.2

lemma stopTasks_marks (h : Inv s) (now : ℕ) : TableMarks s.table (stopTasks now s.tasks s.table) :=
  TaskRecord.stopTasks_marks s.tasks s.table fun i hi _ ht => stopTask_marks now (ht.active_iff.mpr (h.active i hi))

lemma findCancelled_marks (h : Inv s) (now : ℕ) : TableMarks s.table (findCancelled now s.tasks s.table).1 ∧
    ∀ i, (findCancelled now s.tasks s.table).2 = some i → i ∈ s.tasks ∧
      ((findCancelled now s.tasks s.table).1.row i).cancelReason ≠ .ok :=
  TaskRecord.findCancelled_marks now s.tasks s.table fun i hi _ ht _ => ht.active_iff.mpr (h.active i hi)

lemma goTo_free (h : Inv s) {w : ℕ} {thread : Thread} (ht : thread.task? = none) : Inv (s.goTo w thread) :=
  { h with placed := h.placed.leave ht }

lemma submit (h : Inv s) {w : ℕ} (hasJob : Bool) (retainedBytes : ℕ) (deadline : Option ℕ) :
    Inv (TaskExecutor.submit s w hasJob retainedBytes deadline) := by
  rw [TaskExecutor.submit]
  cases submitError s hasJob retainedBytes with
  | some code => exact h.goTo_free rfl
  | none =>
    constructor
    · exact h.nodup
    · intro j
      refine (h.listed j).trans (s.table.push_iff (P := fun t => t.admitted = true ∧ Active t) ?_ j).symm
      simp
    · simpa [State.goTo, Table.total_push, inPhase] using h.pending_eq
    · simpa [State.goTo, Table.total_push, inPhase] using h.running_eq
    · simpa [State.goTo, Table.total_push, heldBytes] using h.retained_eq
    · exact h.pending_le
    · exact h.retained_le
    · simpa [State.goTo, Table.total_push, isAdmitted] using h.accepted_eq
    · simpa [State.goTo, Table.total_push, inPhase] using h.completed_eq
    · intro j hj
      simp only [State.goTo, State.task, Table.push_count, Table.push_row] at hj ⊢
      split_ifs with heq
      · constructor
        · constructor <;> simp
        all_goals simp [resultOf]
      · exact h.consistent j (by omega)
    · exact h.placed.push rfl rfl

lemma add_min (n : ℕ) : add (min n maximumCounter) = min (n + 1) maximumCounter := by
  rw [add]
  split_ifs <;> omega

structure Change (s : State) (w i : ℕ) (t : Task) (thread : Thread) (s' : State) : Prop where
  lt : i < s.table.count
  held : ∀ v, (s.threads v).task? = some i → v = w
  options : s'.options = s.options
  table : s'.table = s.table.set i t
  threads : s'.threads = Function.update s.threads w thread
  nodup : s'.tasks.Nodup
  others : ∀ j, j ≠ i → (j ∈ s'.tasks ↔ j ∈ s.tasks)
  mem : i ∈ s'.tasks ↔ t.admitted = true ∧ Active t
  pending : s'.pending + inPhase .queued (s.task i) = s.pending + inPhase .queued t
  running : s'.running + inPhase .running (s.task i) = s.running + inPhase .running t
  retained : s'.retained + heldBytes (s.task i) = s.retained + heldBytes t
  pending_le : s'.pending ≤ s'.options.maxPendingTasks
  retained_le : s'.retained ≤ s'.options.maxRetainedBytes
  accepted : isAdmitted t = isAdmitted (s.task i) ∧ s'.metrics.acceptedTasks = s.metrics.acceptedTasks ∨
    isAdmitted t = isAdmitted (s.task i) + 1 ∧ s'.metrics.acceptedTasks = add s.metrics.acceptedTasks
  completed : inPhase .terminal t = inPhase .terminal (s.task i) ∧
      s'.metrics.completedTasks = s.metrics.completedTasks ∨
    inPhase .terminal t = inPhase .terminal (s.task i) + 1 ∧
      s'.metrics.completedTasks = add s.metrics.completedTasks
  consistent : Consistent t
  fits : thread.expects t
  owns : ∀ k, thread.task? = some k → k = i

lemma change (h : Inv s) {s' : State} {w i : ℕ} {t : Task} {thread : Thread} (hc : Change s w i t thread s') :
    Inv s' := by
  have hi := hc.lt
  have hcount : s'.table.count = s.table.count := by rw [hc.table, Table.set_count]
  have hrow (j : ℕ) (hj : j ≠ i) : s'.table.row j = s.table.row j := by rw [hc.table, Table.set_row_ne _ _ hj]
  have hself : s'.table.row i = t := by rw [hc.table, Table.set_row_self]
  have htotal (f : Task → ℕ) : s'.table.total f + f (s.task i) = s.table.total f + f t := by
    rw [hc.table]
    exact Table.total_set hi t f
  constructor
  · exact hc.nodup
  · intro j
    rcases eq_or_ne j i with rfl | hj
    · simp only [hc.mem, State.task, hself, hcount, hi, true_and, Active]
    · simp only [hc.others j hj, h.listed, State.task, hrow j hj, hcount]
  · have := htotal (inPhase .queued)
    have := hc.pending
    have := h.pending_eq
    omega
  · have := htotal (inPhase .running)
    have := hc.running
    have := h.running_eq
    omega
  · have := htotal heldBytes
    have := hc.retained
    have := h.retained_eq
    omega
  · exact hc.pending_le
  · exact hc.retained_le
  · have := htotal isAdmitted
    rcases hc.accepted with ⟨hf, hm⟩ | ⟨hf, hm⟩
    · rw [hm, h.accepted_eq]
      congr 1
      omega
    · rw [hm, h.accepted_eq, add_min]
      congr 1
      omega
  · have := htotal (inPhase .terminal)
    rcases hc.completed with ⟨hf, hm⟩ | ⟨hf, hm⟩
    · rw [hm, h.completed_eq]
      congr 1
      omega
    · rw [hm, h.completed_eq, add_min]
      congr 1
      omega
  · intro j hj
    rcases eq_or_ne j i with rfl | hne
    · rw [State.task, hself]
      exact hc.consistent
    · rw [State.task, hrow j hne]
      exact h.consistent j (hcount ▸ hj)
  · rw [hc.threads, hc.table]
    exact h.placed.set hi hc.held hc.owns hc.fits

lemma accept (h : Inv s) {w i : ℕ} (hw : s.threads w = .submitting i) (now : ℕ) :
    Inv (TaskExecutor.accept s w i now) := by
  obtain ⟨hi, hadm⟩ : i < s.table.count ∧ (s.task i).admitted = false := h.placed.at_task hw rfl
  have hphase : (s.task i).phase = .queued := (h.consistent i hi).waiting hadm
  rw [TaskExecutor.accept]
  cases herr : admissionError s (s.task i).retainedBytes with
  | some code => exact h.goTo_free rfl
  | none =>
    have hroom : s.pending < s.options.maxPendingTasks ∧
        (s.task i).retainedBytes ≤ s.options.maxRetainedBytes - s.retained := by
      rw [admissionError] at herr
      split_ifs at herr with h₁ h₂
      simp only [Bool.or_eq_true, decide_eq_true_eq, not_or, sizeSub_eq h.retained_le] at h₂
      omega
    have hm := observeCancellation_marks now (t := s.task i) (.inl hphase)
    have hconsistent := (h.consistent i hi).mark hm
    have hnot : i ∉ s.tasks := fun hmem => by simp [((h.listed i).mp hmem).2.1] at hadm
    have hretained := h.retained_le
    generalize observeCancellation now (s.task i) = o at hm hconsistent
    have ho := hm.phase.trans hphase
    have hbytes := hm.retainedBytes
    refine h.change (w := w) (i := i)
      { lt := hi, held := h.placed.held hw rfl, options := rfl, table := rfl, threads := rfl,
        nodup := ?_, others := ?_, mem := ?_, pending := ?_, running := ?_, retained := ?_, pending_le := ?_,
        retained_le := ?_, accepted := .inr ⟨?_, rfl⟩, completed := .inl ⟨?_, rfl⟩, consistent := ?_, fits := trivial,
        owns := by simp [Thread.task?] }
    · exact List.nodup_append.mpr ⟨h.nodup, by simp, by simpa using fun a ha => ne_of_mem_of_not_mem ha hnot⟩
    · intro j hj
      simp [State.goTo, hj]
    · simp [State.goTo, Active, ho]
    · simp [State.goTo, inPhase, hadm, ho]
    · simp [State.goTo, inPhase, hadm, ho]
    · simp [State.goTo, heldBytes, hadm, ho, hbytes]
    · simp only [State.goTo]
      omega
    · simp only [State.goTo]
      omega
    · simp [isAdmitted, hadm]
    · simp [inPhase, hadm, ho]
    · exact { hconsistent with toConsistent := hconsistent.admit rfl rfl rfl rfl rfl rfl }

lemma queued_free (h : Inv s) {i : ℕ} (hadm : (s.task i).admitted = true) (hq : (s.task i).phase = .queued) :
    ∀ v, ¬ (s.threads v).task? = some i := by
  intro v hv
  have hfit := (h.placed.fits v i hv).2
  cases hthread : s.threads v <;> simp [hthread, Thread.task?, Thread.expects, hadm, hq] at hv hfit

lemma pending_pos (h : Inv s) {i : ℕ} (hi : i < s.table.count) (hadm : (s.task i).admitted = true)
    (hq : (s.task i).phase = .queued) : 0 < s.pending := by
  have hle := Table.le_total hi (inPhase .queued)
  rw [← h.pending_eq] at hle
  rw [State.task] at hadm hq
  simpa [inPhase, hadm, hq, Nat.succ_le_iff] using hle

lemma pick (h : Inv s) {w : ℕ} (now : ℕ) : Inv (TaskExecutor.pick s w now) := by
  obtain ⟨hm, hsome⟩ := findQueued_marks now s.tasks s.table h.active
  rw [TaskExecutor.pick]
  generalize findQueued now s.tasks s.table = found at hm hsome
  obtain ⟨table, found⟩ := found
  split_ifs with hstop hready
  · exact h.goTo_free rfl
  · have hmarked := h.mark hm
    cases found with
    | none => exact hmarked
    | some i =>
      obtain ⟨hmem, hq, hok⟩ := hsome i rfl
      obtain ⟨hi, hadm, -⟩ := (hmarked.listed i).mp hmem
      have hconsistent := hmarked.consistent i hi
      have hfree := hmarked.queued_free hadm hq
      have hpos : 0 < s.pending := hmarked.pending_pos hi hadm hq
      have hle := h.pending_le
      simp only [State.task] at hi hadm hconsistent hq hok
      have hsub : sizeSub s.pending 1 = s.pending - 1 := sizeSub_eq hpos
      obtain ⟨hruns, hpub, hcancelled⟩ := hconsistent.queued hq
      refine hmarked.change (w := w) (i := i)
        { lt := hi, held := fun v hv => absurd hv (hfree v), options := rfl, table := rfl, threads := rfl,
          nodup := h.nodup, others := fun _ _ => Iff.rfl, mem := ?_, pending := ?_, running := ?_, retained := ?_,
          pending_le := ?_, retained_le := h.retained_le, accepted := .inl ⟨rfl, rfl⟩, completed := .inl ⟨?_, rfl⟩,
          consistent := ?_, fits := ?_, owns := ?_ }
      · simpa [State.goTo, Active, hadm] using hmem
      · simp only [State.goTo, State.task, inPhase, hadm, hq, hsub, true_and, reduceCtorEq, ↓reduceIte]
        omega
      · simp [State.goTo, State.task, inPhase, hadm, hq]
      · simp [State.goTo, State.task, heldBytes, hadm, hq]
      · simp only [State.goTo, hsub]
        omega
      · simp [State.task, inPhase, hadm, hq]
      · constructor
        · exact hconsistent.start hq hok hadm rfl rfl rfl rfl
        · exact fun _ => hconsistent.unclosed (.inl hq)
        · simp
        · exact .inl hpub
      · simp [Thread.expects, hadm]
      · simp [Thread.task?]
  · exact h

lemma finish (h : Inv s) {w i : ℕ} (hw : s.threads w = .executing i) (outcome : Outcome) (now : ℕ) :
    Inv (TaskExecutor.finish s w i outcome now) := by
  obtain ⟨hi, hadm, hr⟩ := h.placed.at_task hw rfl
  have hm := observeCancellation_marks now (t := s.task i) (.inr hr)
  have hconsistent := (h.consistent i hi).mark hm
  have hmem : i ∈ s.tasks := (h.listed i).mpr ⟨hi, hadm, .inr hr⟩
  have hpos := Table.le_total hi (inPhase .running)
  simp only [inPhase, hadm, hr, and_self, ↓reduceIte] at hpos
  have hrunning := h.running_eq
  have hsub : sizeSub s.running 1 = s.running - 1 := sizeSub_eq (by omega)
  rw [TaskExecutor.finish]
  generalize observeCancellation now (s.task i) = o at hm hconsistent
  have hoadm := hm.admitted.trans hadm
  have hor := hm.phase.trans hr
  obtain ⟨hruns, hpub, hcancelled⟩ := hconsistent.running hor
  refine h.change (w := w) (i := i)
    { lt := hi, held := h.placed.held hw rfl, options := rfl, table := rfl, threads := rfl,
      nodup := h.nodup.erase i, others := ?_, mem := ?_, pending := ?_, running := ?_, retained := ?_,
      pending_le := h.pending_le, retained_le := h.retained_le, accepted := .inl ⟨?_, rfl⟩,
      completed := .inl ⟨?_, rfl⟩, consistent := ?_, fits := ?_, owns := ?_ }
  · intro j hj
    exact List.mem_erase_of_ne hj
  · simp [State.goTo, Active, h.nodup.mem_erase_iff]
  · simp [State.goTo, inPhase, hadm, hr]
  · simp only [State.goTo, inPhase, hadm, hr, hoadm, hsub, true_and, reduceCtorEq, ↓reduceIte] at hrunning ⊢
    omega
  · simp [State.goTo, heldBytes, hadm, hr, hoadm, hm.retainedBytes]
  · simp [isAdmitted, hadm, hoadm]
  · simp [inPhase, hadm, hr]
  · constructor
    · exact hconsistent.settle hoadm (by simp [Active]) rfl rfl
    · simp [Active]
    · simp
    · exact .inl hpub
  · simp only [Thread.expects, hoadm, hpub, true_and]
    simp only [resultOf, Option.bind_some, Option.map_some]
    split_ifs <;> rfl
  · simp [Thread.task?]

lemma coordinate (h : Inv s) {w : ℕ} (now : ℕ) : Inv (TaskExecutor.coordinate s w now) := by
  obtain ⟨hm, hsome⟩ := h.findCancelled_marks now
  rw [TaskExecutor.coordinate]
  generalize findCancelled now s.tasks s.table = found at hm hsome
  obtain ⟨table, found⟩ := found
  have hmarked := h.mark hm
  cases found with
  | none =>
    simp only
    split_ifs
    · exact hmarked.goTo_free rfl
    · exact hmarked
  | some i =>
    obtain ⟨hmem, hne⟩ := hsome i rfl
    obtain ⟨hi, hadm, hactive⟩ := (hmarked.listed i).mp hmem
    simp only at hmem hne hi hadm hactive ⊢
    split_ifs with hq
    · have hconsistent := hmarked.consistent i hi
      have hfree := hmarked.queued_free hadm hq
      have hpos : 0 < s.pending := hmarked.pending_pos hi hadm hq
      have hle := h.pending_le
      simp only [State.task] at hadm hconsistent
      have hsub : sizeSub s.pending 1 = s.pending - 1 := sizeSub_eq hpos
      obtain ⟨hruns, hpub, hcancelled⟩ := hconsistent.queued hq
      refine hmarked.change (w := w) (i := i)
        { lt := hi, held := fun v hv => absurd hv (hfree v), options := rfl, table := rfl, threads := rfl,
          nodup := h.nodup.erase i, others := ?_, mem := ?_, pending := ?_, running := ?_, retained := ?_,
          pending_le := ?_, retained_le := h.retained_le, accepted := .inl ⟨rfl, rfl⟩, completed := .inl ⟨?_, rfl⟩,
          consistent := ?_, fits := ?_, owns := ?_ }
      · intro j hj
        exact List.mem_erase_of_ne hj
      · simp [State.goTo, Active, h.nodup.mem_erase_iff]
      · simp only [State.goTo, State.task, inPhase, hadm, hq, hsub, true_and, reduceCtorEq, ↓reduceIte]
        omega
      · simp [State.goTo, State.task, inPhase, hadm, hq]
      · simp [State.goTo, State.task, heldBytes, hadm, hq]
      · simp only [State.goTo, hsub]
        omega
      · simp [State.task, inPhase, hadm, hq]
      · constructor
        · exact hconsistent.settle hadm (by simp [Active]) rfl rfl
        · simp [Active]
        · simp
        · exact .inl hpub
      · simp [Thread.expects, hadm, hpub, resultOf, hne]
      · simp [Thread.task?]
    · refine hmarked.mark (tableMarks_set ?_)
      exact { Marks.refl _ with signalSent := .inr hq }

lemma countResult_completed (metrics : Metrics) (code : ErrorCode) :
    (countResult metrics code).completedTasks = add metrics.completedTasks ∧
      (countResult metrics code).acceptedTasks = metrics.acceptedTasks := by
  simp only [countResult]
  split_ifs <;> exact ⟨rfl, rfl⟩

lemma release (h : Inv s) {w i : ℕ} {result : Status} {coordinating : Bool}
    (hw : s.threads w = .publishing i result coordinating) :
    Inv (TaskExecutor.release s w i result coordinating) := by
  obtain ⟨hi, hadm, hc, hpub, hres⟩ := h.placed.at_task hw rfl
  have hconsistent := h.consistent i hi
  have hpos := Table.le_total hi heldBytes
  have hretained := h.retained_eq
  simp only [State.task] at hadm hc hpub hres hconsistent
  have hheld : heldBytes (s.table.row i) = (s.table.row i).retainedBytes := by simp [heldBytes, hadm, hc]
  have hsub : sizeSub s.retained (s.table.row i).retainedBytes = s.retained - (s.table.row i).retainedBytes :=
    sizeSub_eq (by omega)
  have hle := h.retained_le
  have hnot : i ∉ s.tasks := fun hmem => by simpa [Active, State.task, hc] using ((h.listed i).mp hmem).2.2
  obtain ⟨hcompleted, haccepted⟩ := countResult_completed s.metrics result.code
  refine h.change (w := w) (i := i)
    { lt := hi, held := h.placed.held hw rfl, options := rfl, table := rfl, threads := rfl,
      nodup := h.nodup, others := fun _ _ => Iff.rfl, mem := ?_, pending := ?_, running := ?_, retained := ?_,
      pending_le := h.pending_le, retained_le := ?_, accepted := .inl ⟨rfl, haccepted⟩,
      completed := .inr ⟨?_, hcompleted⟩, consistent := ?_, fits := ?_, owns := ?_ }
  · simpa [TaskExecutor.release, State.goTo, Active] using hnot
  · simp [TaskExecutor.release, State.goTo, State.task, inPhase, hc]
  · simp [TaskExecutor.release, State.goTo, State.task, inPhase, hc]
  · simp only [TaskExecutor.release, State.goTo, State.task, hsub, hheld]
    simp only [heldBytes, ne_eq, not_true_eq_false, and_false, ↓reduceIte]
    omega
  · simp only [TaskExecutor.release, State.goTo, hsub]
    omega
  · simp [State.task, inPhase, hadm, hc]
  · constructor
    · exact hconsistent.settle hadm (by simp [Active]) rfl rfl
    · simp [Active]
    · exact fun _ => hconsistent.closed (.inl hc)
    · exact .inl hpub
  · simp only [Thread.expects, State.task, hadm, hpub, true_and]
    simpa [resultOf] using hres
  · simp [Thread.task?]

lemma publish (h : Inv s) {w i : ℕ} {result : Status} {coordinating : Bool}
    (hw : s.threads w = .released i result coordinating) :
    Inv (TaskExecutor.publish s w i result coordinating) := by
  obtain ⟨hi, hadm, hc, hpub, hres⟩ := h.placed.at_task hw rfl
  have hconsistent := h.consistent i hi
  simp only [State.task] at hadm hc hpub hres hconsistent
  have hnot : i ∉ s.tasks := fun hmem => by simpa [Active, State.task, hc] using ((h.listed i).mp hmem).2.2
  refine h.change (w := w) (i := i)
    { lt := hi, held := h.placed.held hw rfl, options := rfl, table := rfl, threads := rfl,
      nodup := h.nodup, others := fun _ _ => Iff.rfl, mem := ?_, pending := rfl, running := rfl, retained := rfl,
      pending_le := h.pending_le, retained_le := h.retained_le, accepted := .inl ⟨rfl, rfl⟩,
      completed := .inl ⟨rfl, rfl⟩, consistent := ?_, fits := ?_, owns := ?_ }
  · simpa [TaskExecutor.publish, State.goTo, Active, State.task, hc] using hnot
  · constructor
    · exact hconsistent.settle hadm (by simp [Active, State.task, hc]) rfl rfl
    · exact hconsistent.unclosed
    · exact hconsistent.closed
    · refine .inr ⟨result, by simp [State.task, hpub], rfl, ?_, hc⟩
      simpa [resultOf] using hres
  · cases coordinating <;> trivial
  · cases coordinating <;> simp [Thread.task?]

lemma step (h : Inv s) {e : Event} {s' : State} (hs : TaskExecutor.step s e = some s') : Inv s' := by
  cases e with
  | becomeReady =>
    obtain rfl := Option.some.inj hs
    exact { h with }
  | submit w hasJob retainedBytes deadline =>
    simp only [TaskExecutor.step] at hs
    split at hs <;> cases hs
    exact h.submit hasJob retainedBytes deadline
  | accept w now =>
    simp only [TaskExecutor.step] at hs
    split at hs <;> cases hs
    exact h.accept ‹_› now
  | rejected w =>
    simp only [TaskExecutor.step] at hs
    split at hs <;> cases hs
    have hcounted : Inv { s with metrics := { s.metrics with rejectedTasks := add s.metrics.rejectedTasks } } :=
      { h with }
    exact hcounted.goTo_free rfl
  | cancel i now =>
    simp only [TaskExecutor.step] at hs
    split_ifs at hs
    obtain rfl := Option.some.inj hs
    exact h.mark (tableMarks_set (cancel_marks _ now))
  | stopParent i =>
    simp only [TaskExecutor.step] at hs
    split_ifs at hs
    obtain rfl := Option.some.inj hs
    exact h.mark (tableMarks_set (parent_marks _))
  | requestStop now =>
    obtain rfl := Option.some.inj hs
    exact { h.mark (h.stopTasks_marks now) with }
  | pick w now =>
    simp only [TaskExecutor.step] at hs
    split at hs <;> cases hs
    exact h.pick now
  | finish w outcome now =>
    simp only [TaskExecutor.step] at hs
    split at hs <;> cases hs
    exact h.finish ‹_› outcome now
  | coordinate w now =>
    simp only [TaskExecutor.step] at hs
    split at hs <;> cases hs
    exact h.coordinate now
  | release w =>
    simp only [TaskExecutor.step] at hs
    split at hs <;> cases hs
    exact h.release ‹_›
  | publish w =>
    simp only [TaskExecutor.step] at hs
    split at hs <;> cases hs
    exact h.publish ‹_›

lemma initial (h : Initial s) : Inv s := by
  have htotal (f : Task → ℕ) : s.table.total f = 0 := by simp [Table.total, h.table]
  have hfree (w : ℕ) : (s.threads w).task? = none := by
    rcases h.threads w with hw | hw | hw <;> rw [hw] <;> rfl
  constructor
  · simp [h.tasks]
  · simp [h.tasks, h.table]
  · rw [htotal, h.pending]
  · rw [htotal, h.running]
  · rw [htotal, h.retained]
  · rw [h.pending]
    exact Nat.zero_le _
  · rw [h.retained]
    exact Nat.zero_le _
  · simp [htotal, h.metrics]
  · simp [htotal, h.metrics]
  · simp [h.table]
  · exact .of_free hfree

lemma reachable (h : Reachable TaskExecutor.step Initial s) : Inv s :=
  h.invariant (fun _ => initial) fun _ _ _ ht hs => ht.step hs

end Inv

end ServerCore.Runtime.TaskExecutor
