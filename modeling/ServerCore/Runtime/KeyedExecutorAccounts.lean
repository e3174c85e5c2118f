import ServerCore.Runtime.KeyedExecutorOrder

/-! What `KeyedExecutor` promises about its keys, its counters and its tasks. -/

namespace ServerCore.Runtime.KeyedExecutor

open ServerCore.Core ServerCore.Foundations TaskRecord
open TaskExecutor (Outcome)

section Keys

def Thread.occupies : Thread → Option ℕ
  | executing i | publishing i _ true => some i
  | _ => none

-- The same with the call of `Publish` still running behind its section.
def Thread.inRun : Thread → Option ℕ
  | executing i | publishing i _ true | notifying i true => some i
  | _ => none

variable {s : State}

lemma occupies_occupying (h : Inv s) {w i : ℕ} (hw : (s.threads w).occupies = some i) :
    i < s.table.count ∧ (s.task i).own.occupying = true ∧ (s.threads w).task? = some i := by
  cases hthread : s.threads w with
  | executing j =>
    obtain rfl : j = i := by simpa [hthread, Thread.occupies] using hw
    obtain ⟨hi, -, hphase⟩ := h.placed.at_task hthread rfl
    exact ⟨hi, (h.consistent j hi).occupied hphase, rfl⟩
  | publishing j result occupiedKey =>
    cases occupiedKey with
    | false => simp [hthread, Thread.occupies] at hw
    | true =>
      obtain rfl : j = i := by simpa [hthread, Thread.occupies] using hw
      obtain ⟨hi, -, -, hocc⟩ := h.placed.at_task hthread rfl
      exact ⟨hi, hocc, rfl⟩
  | _ => simp [hthread, Thread.occupies] at hw

lemma occupying_unique (h : Inv s) {i j : ℕ} (hi : i < s.table.count) (hj : j < s.table.count)
    (hoi : (s.task i).own.occupying = true) (hoj : (s.task j).own.occupying = true)
    (hk : (s.task i).own.key = (s.task j).own.key) : i = j := by
  by_contra hne
  have hle := Table.add_le_total hi hj hne (Measure.busy.ofKey (s.task j).own.key)
  rw [← h.perKey] at hle
  have hone := Bool.toNat_le (s.keys.slot (s.task j).own.key).busy
  simp only [Measure.ofKey, hk, ↓reduceIte, Measure.task, hoi, hoj, Measure.key] at hle
  omega

/-- Every key is served by one worker at a time and in the order of admission, the ready list is well
formed, and a key with queued tasks is in it unless a task of the key is being run or the coordinator
has the first task to remove. -/
theorem keys_serialized (s : State) (h : Reachable step Initial s) :
    (∀ w w' i j, (s.threads w).occupies = some i → (s.threads w').occupies = some j →
      (s.task i).own.key = (s.task j).own.key → w = w' ∧ i = j) ∧
    (∀ i < s.table.count, 0 < (s.task i).runs ↔ i ∈ s.started) ∧
    (∀ k, (s.started.filter fun i => (s.task i).own.key = k).Pairwise
      fun i j => (s.task i).own.number < (s.task j).own.number) ∧
    ∃ nodes, s.keys.ready.Represents nodes ∧
      (∀ k, k ∈ nodes ↔ k ∈ s.keys.map.domain ∧ (s.keys.map.get k).ready = true) ∧
      (∀ k ∈ nodes, (s.keys.map.get k).busy = false) ∧
      ∀ k ∈ s.keys.map.domain, ∀ i rest, (s.keys.map.get k).queued = i :: rest →
        (s.keys.map.get k).busy = false →
        k ∈ nodes ∨ (s.task i).cancelReason ≠ .ok ∧ (s.task i).signalSent = false := by
  obtain ⟨hinv, hord⟩ := Ordered.reachable h
  have hget (k : UInt64) (hk : k ∈ s.keys.map.domain) : s.keys.map.get k = s.keys.slot k :=
    (KeyMap.getD_of_mem hk _).symm
  obtain ⟨nodes, hrep, hmem⟩ := hinv.linked
  have hpresent (k : UInt64) (hk : k ∈ nodes) : k ∈ s.keys.map.domain := by
    by_contra hnot
    have hslot : s.keys.slot k = {} := KeyMap.getD_of_notMem hnot _
    rw [hmem, hslot] at hk
    cases hk
  refine ⟨fun w w' i j hi hj hk => ?_, hord.ran, fun k => ?_, nodes, hrep, fun k => ⟨fun hk => ?_, ?_⟩, fun k hk => ?_,
    fun k hk i rest hq hbusy => ?_⟩
  · obtain ⟨hilt, hoi, howni⟩ := occupies_occupying hinv hi
    obtain ⟨hjlt, hoj, hownj⟩ := occupies_occupying hinv hj
    obtain rfl := occupying_unique hinv hilt hjlt hoi hoj hk
    exact ⟨hinv.placed.exclusive w w' i howni hownj, rfl⟩
  · exact (hord.order k).sublist (List.sublist_append_left _ _)
  · rw [hget k (hpresent k hk)]
    exact ⟨hpresent k hk, (hmem k).mp hk⟩
  · rintro ⟨hk, hready⟩
    rw [hmem, ← hget k hk]
    exact hready
  · rw [hget k (hpresent k hk)]
    exact (hinv.ready k ((hmem k).mp hk)).1
  · rw [hget k hk] at hq hbusy
    rw [hmem]
    refine (hord.awake k i rest hq hbusy).imp_right fun hne => ⟨hne, ?_⟩
    obtain ⟨hi, -, hphase, -⟩ := (hinv.queues k i).mp (by simp [hq])
    exact ((hinv.consistent i hi).untouched hphase).2

end Keys

section Runs

def fresh : State where
  options := ⟨4, 4, 4, 4, 4⟩
  ready := true
  stopping := false
  table := ⟨0, fun _ => { retainedBytes := 0, deadline := none, own := { key := 0 } }⟩
  tasks := []
  keys := ⟨⟨∅, fun _ => {}⟩, ⟨none, none, fun _ => none, fun _ => none⟩⟩
  pending := 0
  running := 0
  outstanding := 0
  retained := 0
  metrics := {}
  threads w := if w = 1 ∨ w = 2 then .worker else .caller
  admissions := 0
  started := []

lemma fresh_initial : Initial fresh := by
  refine ⟨by decide, rfl, rfl, rfl, rfl, rfl, rfl, rfl, rfl, rfl, rfl, rfl, fun w => ?_⟩
  by_cases h : w = 1 ∨ w = 2 <;> simp [fresh, h]

def twoTasks : List Event :=
  [.submit 0 true 7 1 none, .accept 0 0, .submit 0 true 7 1 none, .accept 0 0, .pick 1 0,
    .finish 1 (.returned ⟨.ok, ""⟩) 0, .publish 1, .pick 2 0]

/-- `Publish` gives its key free before it returns: a second task of the key runs while the call for
the first one still notifies its observers. -/
theorem publish_overlaps : ∃ s, Reachable step Initial s ∧ ∃ w w' i j, i ≠ j ∧
    (s.threads w).inRun = some i ∧ (s.threads w').inRun = some j ∧ (s.task i).own.key = (s.task j).own.key := by
  have hrun : (run step fresh twoTasks).isSome = true := by decide +kernel
  obtain ⟨s, hs⟩ := Option.isSome_iff_exists.mp hrun
  have hview : (run step fresh twoTasks).map (fun s =>
      ((s.threads 1).inRun, (s.threads 2).inRun, (s.task 0).own.key, (s.task 1).own.key)) = some (some 0, some 1, 7, 7) := by
    decide +kernel
  rw [hs, Option.map_some] at hview
  simp only [Option.some.injEq, Prod.mk.injEq] at hview
  obtain ⟨h₁, h₂, h₃, h₄⟩ := hview
  exact ⟨s, ⟨fresh, fresh_initial, twoTasks, hs⟩, 1, 2, 0, 1, by decide, h₁, h₂, h₃.trans h₄.symm⟩

lemma twoTasks_run : ∃ s, run step fresh twoTasks = some s ∧ s.keys.ready.head = none ∧ s.started = [0, 1] ∧
    (s.threads 2).occupies = some 1 ∧ s.outstanding = 1 ∧ 7 ∈ s.keys.map.domain := by
  have hview : (run step fresh twoTasks).map (fun s => (s.keys.ready.head, s.started, (s.threads 2).occupies,
      s.outstanding, decide (7 ∈ s.keys.map.domain))) = some (none, [0, 1], some 1, 1, true) := by
    decide +kernel
  obtain ⟨s, hs, hview⟩ := Option.map_eq_some_iff.mp hview
  simp only [Prod.mk.injEq, decide_eq_true_eq] at hview
  exact ⟨s, hs, hview⟩

theorem keys_serialized_two : ∃ s, Reachable step Initial s ∧ (s.threads 2).occupies = some 1 ∧
    (∀ w j, (s.threads w).occupies = some j → (s.task j).own.key = (s.task 1).own.key → w = 2) := by
  obtain ⟨s, hs, -, -, hocc, -⟩ := twoTasks_run
  have hreach : Reachable step Initial s := ⟨fresh, fresh_initial, twoTasks, hs⟩
  exact ⟨s, hreach, hocc, fun w j hj hk => ((keys_serialized s hreach).1 w 2 j 1 hj hocc hk).1⟩

end Runs

section Accounts

variable {s : State}

structure NoUnderflow (s : State) : Prop where
  publish : ∀ w i result occupiedKey, s.threads w = .publishing i result occupiedKey →
    (s.task i).own.key ∈ s.keys.map.domain ∧ 1 ≤ (s.keys.map.get (s.task i).own.key).outstanding ∧
    (s.task i).retainedBytes ≤ (s.keys.map.get (s.task i).own.key).bytes ∧ 1 ≤ s.outstanding ∧
    (s.task i).retainedBytes ≤ s.retained ∧ (occupiedKey = true → 1 ≤ s.running)
  pending : ∀ i < s.table.count, (s.task i).admitted = true → (s.task i).phase = .queued → 1 ≤ s.pending
  retained : s.retained ≤ s.options.maxRetainedBytes
  bytes : ∀ k ∈ s.keys.map.domain, (s.keys.map.get k).bytes ≤ s.options.maxRetainedBytesPerKey

lemma Inv.noUnderflow (h : Inv s) : NoUnderflow s := by
  refine ⟨fun w i result occupiedKey hw => ?_, fun i hi hadm hphase => ?_, h.limits.retained, fun k hk => ?_⟩
  · obtain ⟨hi, hadm, hphase, hocc⟩ := h.placed.at_task hw rfl
    change (s.task i).admitted = true at hadm
    change (s.task i).phase = .completing at hphase
    change (s.task i).own.occupying = occupiedKey at hocc
    obtain ⟨hmem, hpos⟩ := h.key_present hi hadm (by simp [hphase])
    have hslot : s.keys.map.get (s.task i).own.key = s.keys.slot (s.task i).own.key := (KeyMap.getD_of_mem hmem _).symm
    have hout := h.measure_le hi .outstanding
    have hbytes := h.measure_le hi .bytes
    have hbusy := (h.measure_le hi .busy).1
    simp only [Measure.task, Measure.state, Measure.key, hadm, hphase, hocc, ne_eq, reduceCtorEq, not_false_eq_true,
      and_self, ↓reduceIte] at hout hbytes hbusy
    rw [hslot]
    refine ⟨hmem, hpos, hbytes.2, hout.1, hbytes.1, fun ho => ?_⟩
    simpa [ho] using hbusy
  · have := (h.measure_le hi .queued).1
    simpa [Measure.task, Measure.state, hadm, hphase] using this
  · have hslot : s.keys.map.get k = s.keys.slot k := (KeyMap.getD_of_mem hk _).symm
    rw [hslot]
    exact h.limits.keyBytes k

lemma published_iff {t : Task} (h : Consistent t) : t.published.length ≤ 1 ∧
    (t.published.length = 1 ↔ t.phase = .terminal) := by
  cases hp : t.phase with
  | queued => simp [(h.queued hp).2.1]
  | running => simp [(h.running hp).2.1]
  | completing => simp [h.completing hp]
  | terminal =>
    obtain ⟨-, r, hr, -⟩ := h.terminal hp
    simp [hr]

end Accounts

end ServerCore.Runtime.KeyedExecutor
