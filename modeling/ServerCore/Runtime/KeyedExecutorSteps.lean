import ServerCore.Runtime.KeyedExecutorInvariant

/-! Every section of `KeyedExecutor` keeps its accounts and its ready list. -/

namespace ServerCore.Runtime.KeyedExecutor

open ServerCore.Core ServerCore.Foundations TaskRecord
open TaskExecutor (Outcome)

namespace Inv

variable {s : State}

lemma submit (h : Inv s) {w : ℕ} (hasJob : Bool) (key : UInt64) (retainedBytes : ℕ) (deadline : Option ℕ) :
    Inv (KeyedExecutor.submit s w hasJob key retainedBytes deadline) := by
  rw [KeyedExecutor.submit]
  split_ifs
  · exact h.goTo_free rfl
  cases admission s key retainedBytes with
  | some code => exact h.goTo_free rfl
  | none =>
    have hzero (m : Measure) : m.task { retainedBytes, deadline, own := { key } } = 0 := by cases m <;> rfl
    constructor
    · exact h.nodup
    · intro j
      refine (h.listed j).trans (s.table.push_iff (P := fun t => t.admitted = true ∧ t.phase ≠ .terminal) ?_ j).symm
      simp
    · intro m
      simp only [State.goTo, Table.total_push, hzero, add_zero]
      exact h.counted m
    · exact h.summed
    · intro m k
      have : m.ofKey k { retainedBytes, deadline, own := { key } } = 0 := by
        rw [Measure.ofKey, hzero, ite_self]
      simp only [State.goTo, Table.total_push, this, add_zero]
      exact h.perKey m k
    · exact h.present
    · exact { h.limits with }
    · exact h.queues_nodup
    · intro k j
      refine (h.queues k j).trans
        (s.table.push_iff (P := fun t => t.admitted = true ∧ t.phase = .queued ∧ t.own.key = k) ?_ j).symm
      simp
    · exact h.linked
    · exact h.ready
    · intro j hj
      simp only [State.goTo, State.task, Table.push_count, Table.push_row] at hj ⊢
      split_ifs with heq
      · constructor
        · constructor <;> simp
        all_goals simp
      · exact h.consistent j (by omega)
    · exact h.placed.push rfl rfl

lemma queued_free (h : Inv s) {i : ℕ} (hadm : (s.task i).admitted = true) (hq : (s.task i).phase = .queued) :
    ∀ v, ¬ (s.threads v).task? = some i := by
  intro v hv
  have hfit := (h.placed.fits v i hv).2
  cases hthread : s.threads v <;> simp [hthread, Thread.task?, Thread.expects, hadm, hq] at hv hfit

lemma measure_le (h : Inv s) {i : ℕ} (hi : i < s.table.count) (m : Measure) :
    m.task (s.task i) ≤ m.state s ∧ m.task (s.task i) ≤ m.key (s.keys.slot (s.task i).own.key) := by
  refine ⟨?_, ?_⟩
  · rw [h.counted]
    exact Table.le_total hi m.task
  · rw [h.perKey]
    have := Table.le_total hi (m.ofKey (s.task i).own.key)
    rwa [Measure.ofKey, if_pos rfl] at this

lemma key_present (h : Inv s) {i : ℕ} (hi : i < s.table.count) (hadm : (s.task i).admitted = true)
    (ht : (s.task i).phase ≠ .terminal) :
    (s.task i).own.key ∈ s.keys.map.domain ∧ 0 < (s.keys.slot (s.task i).own.key).outstanding := by
  have hle := (h.measure_le hi .outstanding).2
  simp only [Measure.task, Measure.key, State.task] at hle hadm ht ⊢
  simp only [hadm, ne_eq, ht, not_false_eq_true, and_self, ↓reduceIte] at hle
  exact ⟨(h.present _).mpr hle, hle⟩

lemma limits_of_le (h : Inv s) {s' : State} {k : UInt64} {b : Key} (hoptions : s'.options = s.options)
    (hkeys : s.keys.Sets k b s'.keys) (hk : k ∈ s.keys.map.domain) (ho : s'.outstanding ≤ s.outstanding)
    (hr : s'.retained ≤ s.retained) (hbo : b.outstanding ≤ (s.keys.slot k).outstanding)
    (hbb : b.bytes ≤ (s.keys.slot k).bytes) : Limits s' := by
  refine ⟨?_, ?_, ?_, ?_, fun k' => ?_, fun k' => ?_⟩
  · rw [hoptions]
    exact h.limits.positive
  · rw [hoptions]
    exact (hkeys.card_le hk).trans h.limits.keys
  · rw [hoptions]
    exact ho.trans h.limits.outstanding
  · rw [hoptions]
    exact hr.trans h.limits.retained
  · rw [hoptions, hkeys.slot]
    split_ifs
    · exact hbo.trans (h.limits.keyOutstanding k)
    · exact h.limits.keyOutstanding k'
  · rw [hoptions, hkeys.slot]
    split_ifs
    · exact hbb.trans (h.limits.keyBytes k)
    · exact h.limits.keyBytes k'

section Admission

structure Room (s : State) (key : UInt64) (bytes : ℕ) : Prop where
  accepting : s.stopping = false
  outstanding : s.outstanding < s.options.maxOutstandingTasks
  retained : s.retained + bytes ≤ s.options.maxRetainedBytes
  keys : (insert key s.keys.map.domain).card ≤ s.options.maxKeys
  keyOutstanding : (s.keys.slot key).outstanding < s.options.maxOutstandingTasksPerKey
  keyBytes : (s.keys.slot key).bytes + bytes ≤ s.options.maxRetainedBytesPerKey

lemma admission_room (h : Inv s) {key : UInt64} {bytes : ℕ} (hadm : admission s key bytes = none) :
    Room s key bytes := by
  have hretained := h.limits.retained
  have hbytes := h.limits.keyBytes key
  rw [admission] at hadm
  split_ifs at hadm with h₁ h₂ h₃ h₄ h₅ h₅
  · simp only [Bool.or_eq_true, decide_eq_true_eq, not_or, sizeSub_eq hretained, sizeSub_eq hbytes] at h₁ h₃ h₅
    simp only [Bool.or_eq_true, Bool.not_eq_true', not_or, Bool.not_eq_true] at h₂
    refine ⟨h₂.2, by omega, by omega, ?_, by omega, by omega⟩
    rw [Finset.insert_eq_of_mem h₄]
    exact h.limits.keys
  · simp only [Bool.or_eq_true, decide_eq_true_eq, not_or, sizeSub_eq hretained] at h₁ h₃
    simp only [Bool.or_eq_true, Bool.not_eq_true', not_or, Bool.not_eq_true] at h₂
    have hslot : s.keys.slot key = {} := KeyMap.getD_of_notMem h₄ _
    have hnone : (s.keys.slot key).bytes = 0 ∧ (s.keys.slot key).outstanding = 0 := by rw [hslot]; exact ⟨rfl, rfl⟩
    have hpos := h.limits.positive
    refine ⟨h₂.2, by omega, by omega, ?_, by omega, by omega⟩
    rw [Finset.card_insert_of_notMem h₄]
    omega

lemma accept (h : Inv s) {w i : ℕ} (hw : s.threads w = .submitting i) (now : ℕ) :
    Inv (KeyedExecutor.accept s w i now) := by
  obtain ⟨hi, hadm⟩ : i < s.table.count ∧ (s.task i).admitted = false := h.placed.at_task hw rfl
  have hphase : (s.task i).phase = .queued := (h.consistent i hi).waiting hadm
  rw [KeyedExecutor.accept]
  cases herr : admission s (s.task i).own.key (s.task i).retainedBytes with
  | some code => exact h.goTo_free rfl
  | none =>
    have hroom := h.admission_room herr
    have hm := observeCancellation_marks now (t := s.task i) (.inl hphase)
    have hconsistent := (h.consistent i hi).mark hm
    have hnot : i ∉ s.tasks := fun hmem => by simp [((h.listed i).mp hmem).2.1] at hadm
    have hnotq : i ∉ (s.keys.slot (s.task i).own.key).queued := fun hmem => by
      simp [((h.queues _ i).mp hmem).2.1] at hadm
    simp only
    generalize observeCancellation now (s.task i) = o at hm hconsistent
    have ho := hm.phase.trans hphase
    have hbytes := hm.retainedBytes
    have hkey := congrArg Own.key hm.own
    have hocc := (hconsistent.untouched ho).1
    have hocc' : (s.task i).own.occupying = false := hm.own ▸ hocc
    set k := (s.task i).own.key with hk
    set slot := s.keys.slot k with hslot
    set a : Key := slot.accept i (s.task i).retainedBytes with ha
    have hsets : s.keys.Sets k (Keys.enqueued a) ((s.keys.put k a).enqueue k) := Keys.sets_enqueue rfl (Nat.succ_pos _)
    refine h.change (w := w) (i := i) (t := { o with admitted := true, own.number := s.admissions }) (b := Keys.enqueued a)
      { lt := hi, held := h.placed.held hw rfl, key := hkey, table := rfl, threads := rfl,
        keys := hsets, state := fun m => ?_, slot := fun m => ?_, limits := ?_, nodup := ?_, others := ?_, mem := ?_,
        queue_nodup := ?_, queue_others := ?_, queue_mem := ?_, ready := ?_, consistent := ?_, fits := trivial,
        owns := by simp [Thread.task?] }
    · cases m <;> simp [State.goTo, Measure.state, Measure.task, hadm, ho, hbytes, hocc, hocc']
    · cases m <;> simp [Keys.enqueued, Key.accept, ha, ← hk, ← hslot, Measure.key, Measure.task, hadm, ho, hbytes, hocc, hocc']
    · refine ⟨h.limits.positive, ?_, hroom.outstanding, hroom.retained, fun k' => ?_, fun k' => ?_⟩
      · refine le_trans (Finset.card_le_card fun k' hk' => ?_) hroom.keys
        have := (hsets.domain k').mp hk'
        split_ifs at this with heq
        · simp [heq]
        · simp [this]
      · rw [State.goTo, hsets.slot]
        split_ifs
        · exact hroom.keyOutstanding
        · exact h.limits.keyOutstanding k'
      · rw [State.goTo, hsets.slot]
        split_ifs
        · exact hroom.keyBytes
        · exact h.limits.keyBytes k'
    · exact List.nodup_append.mpr ⟨h.nodup, by simp, by simpa using fun a ha => ne_of_mem_of_not_mem ha hnot⟩
    · intro j hj
      simp [State.goTo, hj]
    · simp [State.goTo, ho]
    · exact List.nodup_append.mpr ⟨h.queues_nodup k, by simp, by simpa using fun a ha => ne_of_mem_of_not_mem ha hnotq⟩
    · intro j hj
      simp [Keys.enqueued, Key.accept, ha, hj, ← hk, ← hslot]
    · simp [Keys.enqueued, Key.accept, ha, ho]
    · exact Keys.enqueued_ready fun hr => ⟨(h.ready k hr).1, by simp [ha, Key.accept]⟩
    · exact { hconsistent with toConsistent := hconsistent.admit rfl rfl rfl rfl rfl rfl }

end Admission

section Run

lemma head_front (h : Inv s) {k : UInt64} (hhead : s.keys.ready.head = some k) :
    (s.keys.slot k).ready = true ∧ (s.keys.slot k).busy = false ∧
      ∃ i rest, (s.keys.slot k).queued = i :: rest ∧ i < s.table.count ∧ (s.task i).admitted = true ∧
        (s.task i).phase = .queued ∧ (s.task i).own.key = k := by
  obtain ⟨nodes, hrep, hmem⟩ := h.linked
  have hready : (s.keys.slot k).ready = true := by
    rw [← hmem]
    rw [hrep.head_eq] at hhead
    exact Links.mem_of_head? hhead
  obtain ⟨hbusy, hne⟩ := h.ready k hready
  obtain ⟨i, rest, hq⟩ := List.exists_cons_of_ne_nil hne
  exact ⟨hready, hbusy, i, rest, hq, (h.queues k i).mp (by simp [hq])⟩

lemma pick (h : Inv s) {w : ℕ} (hw : s.threads w = .worker) (now : ℕ) : Inv (KeyedExecutor.pick s w now) := by
  rw [KeyedExecutor.pick]
  split_ifs with hstop hready
  · exact h.goTo_free rfl
  · cases hhead : s.keys.ready.head with
    | none => exact h
    | some k =>
      obtain ⟨hkready, hbusy, i, rest, hq, hi, hadm, hphase, hk⟩ := h.head_front hhead
      have hslot : (s.keys.removeReady k).slot k = { s.keys.slot k with ready := false } := by
        rw [Keys.removeReady_slot, if_pos rfl]
      obtain ⟨hmem, hpos⟩ := h.key_present hi hadm (by simp [hphase])
      rw [hk] at hmem hpos
      have hdrop := Keys.sets_drop hmem hpos
      have hm := observeCancellation_marks now (t := s.task i) (.inl hphase)
      have hconsistent := (h.consistent i hi).mark hm
      have hfree := h.queued_free hadm hphase
      have hpending := (h.measure_le hi .queued).1
      have hle := h.queues_nodup k
      have hlisted : i ∈ s.tasks := (h.listed i).mpr ⟨hi, hadm, by simp [hphase]⟩
      simp only [Measure.task, hadm, hphase, and_self, ↓reduceIte, Measure.state] at hpending
      simp only [hslot, hq]
      generalize observeCancellation now (s.task i) = o at hm hconsistent
      have hoadm := hm.admitted.trans hadm
      have hophase := hm.phase.trans hphase
      have hbytes := hm.retainedBytes
      have hkey := congrArg Own.key hm.own
      have hocc := (hconsistent.untouched hophase).1
      have hocc' : (s.task i).own.occupying = false := hm.own ▸ hocc
      split_ifs with hreason
      · -- the coordinator finds the cancelled task
        refine h.change (w := w) (i := i) (t := o) (b := { s.keys.slot k with ready := false }) (u := .worker)
          { lt := hi, held := fun v hv => absurd hv (hfree v), key := hkey, table := rfl,
            threads := by rw [← hw, Function.update_eq_self], keys := hk ▸ hdrop, state := fun m => ?_,
            slot := fun m => ?_, limits := h.limits_of_le rfl hdrop hmem le_rfl le_rfl le_rfl le_rfl,
            nodup := h.nodup, others := fun _ _ => Iff.rfl, mem := ?_, queue_nodup := hle, queue_others := ?_,
            queue_mem := ?_, ready := by simp, consistent := hconsistent, fits := trivial,
            owns := by simp [Thread.task?] }
        · rw [Marks.measure hm]
          rfl
        · rw [Marks.measure hm, hk, m.key_ready]
        · simpa [hoadm, hophase] using hlisted
        · rw [hk]
          exact fun _ _ => Iff.rfl
        · simp [hq, hoadm, hophase]
      · have hsub : sizeSub s.pending 1 = s.pending - 1 := sizeSub_eq hpending
        have hsets : s.keys.Sets k { s.keys.slot k with queued := rest, busy := true, ready := false }
            ((s.keys.removeReady k).put k { s.keys.slot k with queued := rest, busy := true, ready := false }) := by
          refine hdrop.trans (Keys.sets_put ?_ hpos)
          rw [hslot]
        rw [hq, List.nodup_cons] at hle
        refine h.change (w := w) (i := i)
          (t := { o with phase := .running, own.occupying := true, runs := o.runs + 1 })
          (b := { s.keys.slot k with queued := rest, busy := true, ready := false })
          { lt := hi, held := fun v hv => absurd hv (hfree v), key := hkey, table := rfl, threads := rfl,
            keys := hk ▸ hsets, state := fun m => ?_, slot := fun m => ?_,
            limits := h.limits_of_le rfl hsets hmem le_rfl le_rfl le_rfl le_rfl, nodup := h.nodup,
            others := fun _ _ => Iff.rfl, mem := ?_, queue_nodup := hle.2, queue_others := ?_, queue_mem := ?_,
            ready := by simp, consistent := ?_, fits := ?_, owns := ?_ }
        · cases m <;> simp [State.goTo, Measure.state, Measure.task, hadm, hphase, hoadm, hbytes, hocc', hsub]
          omega
        · cases m <;> simp [hk, hq, hbusy, Measure.key, Measure.task, hadm, hphase, hoadm, hbytes, hocc']
        · simpa [State.goTo, hoadm] using hlisted
        · intro j hj
          simp [hk, hq, hj]
        · simpa using hle.1
        · constructor
          · exact hconsistent.start hophase (not_not.mp hreason) hoadm rfl rfl rfl rfl
          all_goals simp
        · simp [Thread.expects, hoadm]
        · simp [Thread.task?]
  · exact h

lemma finish (h : Inv s) {w i : ℕ} (hw : s.threads w = .executing i) (outcome : Outcome) (now : ℕ) :
    Inv (KeyedExecutor.finish s w i outcome now) := by
  obtain ⟨hi, hadm, hphase⟩ := h.placed.at_task hw rfl
  have hm := observeCancellation_marks now (t := s.task i) (.inr hphase)
  have hconsistent := (h.consistent i hi).mark hm
  have hlisted : i ∈ s.tasks := (h.listed i).mpr ⟨hi, hadm, by simp [hphase]⟩
  obtain ⟨hmem, hpos⟩ := h.key_present hi hadm (by simp [hphase])
  have hsets := Keys.Sets.refl (h.present (s.task i).own.key)
  rw [KeyedExecutor.finish]
  generalize observeCancellation now (s.task i) = o at hm hconsistent
  have hoadm := hm.admitted.trans hadm
  have hophase := hm.phase.trans hphase
  have hbytes := hm.retainedBytes
  have hkey := congrArg Own.key hm.own
  have hocc := hconsistent.occupied hophase
  have hocc' : (s.task i).own.occupying = true := hm.own ▸ hocc
  refine h.change (w := w) (i := i) (t := { o with phase := .completing }) (b := s.keys.slot (s.task i).own.key)
    { lt := hi, held := h.placed.held hw rfl, key := hkey, table := rfl, threads := rfl,
      keys := hsets, state := fun m => ?_, slot := fun m => ?_,
      limits := h.limits_of_le rfl hsets hmem le_rfl le_rfl le_rfl le_rfl, nodup := h.nodup,
      others := fun _ _ => Iff.rfl, mem := ?_, queue_nodup := h.queues_nodup _, queue_others := fun _ _ => Iff.rfl,
      queue_mem := ?_, ready := h.ready _, consistent := ?_, fits := ?_, owns := ?_ }
  · cases m <;> simp [State.goTo, Measure.state, Measure.task, hadm, hphase, hoadm, hbytes, hocc, hocc']
  · cases m <;> simp [Measure.task, hadm, hphase, hoadm, hbytes, hocc, hocc']
  · simpa [State.goTo, hoadm] using hlisted
  · simp [h.queues, hphase]
  · constructor
    · exact hconsistent.settle hoadm (by simp [Active]) rfl rfl
    · simp
    · simp
    · exact fun _ => (hconsistent.running hophase).2.1
    · simp
  · simp [Thread.expects, hoadm, hocc]
  · simp [Thread.task?]

end Run

section Coordinate

/-- The record `b` of a key is `a` up to its flag, and the flag is set when it has to be. -/
structure Settled (a b : Key) : Prop where
  queued : b.queued = a.queued
  measure : ∀ m : Measure, m.key b = m.key a
  busy : b.busy = a.busy
  ready : b.ready = true → b.busy = false ∧ b.queued ≠ []
  awake : b.busy = false → b.queued ≠ [] → b.ready = true

lemma settled_enqueued {a : Key} (h : a.ready = true → a.busy = false ∧ a.queued ≠ []) :
    Settled a (Keys.enqueued a) :=
  ⟨rfl, fun m => m.key_ready a _, rfl, Keys.enqueued_ready h, Keys.enqueued_awake (a := a)⟩

lemma withdraw_keys (h : Inv s) {w i : ℕ} (hi : i < s.table.count) (hadm : (s.task i).admitted = true)
    (hphase : (s.task i).phase = .queued) : ∃ b, Settled ((s.keys.slot (s.task i).own.key).withdraw i) b ∧
      s.keys.Sets (s.task i).own.key b (KeyedExecutor.withdraw s w i).keys := by
  have hpos := (h.key_present hi hadm (by simp [hphase])).2
  have hready := h.ready (s.task i).own.key
  simp only [KeyedExecutor.withdraw, State.goTo]
  generalize (s.task i).own.key = k at *
  split_ifs with hempty
  · refine ⟨{ (s.keys.slot k).withdraw i with ready := false }, ⟨rfl, fun m => m.key_ready _ _, rfl, by simp,
      fun _ hne => ?_⟩, Keys.sets_removeReady rfl hpos⟩
    exact absurd (List.isEmpty_iff.mp hempty) hne
  · refine ⟨_, settled_enqueued fun hr => ⟨(hready hr).1, ?_⟩, Keys.sets_enqueue rfl hpos⟩
    exact fun hnil => hempty (List.isEmpty_iff.mpr hnil)

lemma withdraw (h : Inv s) {w i : ℕ} (hi : i < s.table.count) (hadm : (s.task i).admitted = true)
    (hphase : (s.task i).phase = .queued) : Inv (KeyedExecutor.withdraw s w i) := by
  obtain ⟨b, hb, hsets⟩ := h.withdraw_keys (w := w) hi hadm hphase
  have hconsistent := h.consistent i hi
  have hlisted : i ∈ s.tasks := (h.listed i).mpr ⟨hi, hadm, by simp [hphase]⟩
  have hmem := (h.key_present hi hadm (by simp [hphase])).1
  have hfree := h.queued_free hadm hphase
  have hpending := (h.measure_le hi .queued).1
  simp only [Measure.task, hadm, hphase, and_self, ↓reduceIte, Measure.state] at hpending
  have hsub : sizeSub s.pending 1 = s.pending - 1 := sizeSub_eq hpending
  have hocc := (hconsistent.untouched hphase).1
  have hqueued : i ∈ (s.keys.slot (s.task i).own.key).queued := (h.queues _ i).mpr ⟨hi, hadm, hphase, rfl⟩
  have hnodup := h.queues_nodup (s.task i).own.key
  have hlength : ((s.keys.slot (s.task i).own.key).withdraw i).queued.length + 1 =
      (s.keys.slot (s.task i).own.key).queued.length := by
    have hlt := List.length_pos_of_mem hqueued
    rw [Key.withdraw, ← hnodup.erase_eq_filter, List.length_erase_of_mem hqueued]
    omega
  have hbo : b.outstanding = (s.keys.slot (s.task i).own.key).outstanding := hb.measure .outstanding
  have hbb : b.bytes = (s.keys.slot (s.task i).own.key).bytes := hb.measure .bytes
  refine h.change (w := w) (i := i) (t := { s.task i with signalSent := true, phase := .completing }) (b := b)
    { lt := hi, held := fun v hv => absurd hv (hfree v), key := rfl, table := rfl, threads := rfl, keys := hsets,
      state := fun m => ?_, slot := fun m => ?_,
      limits := h.limits_of_le rfl hsets hmem le_rfl le_rfl hbo.le hbb.le, nodup := h.nodup,
      others := fun _ _ => Iff.rfl, mem := ?_, queue_nodup := hb.queued ▸ hnodup.filter _, queue_others := ?_,
      queue_mem := ?_, ready := hb.ready, consistent := ?_, fits := ?_, owns := ?_ }
  · cases m <;> simp [KeyedExecutor.withdraw, State.goTo, Measure.state, Measure.task, hadm, hphase, hsub]
    omega
  · rw [hb.measure]
    cases m <;> simp [Measure.key, Measure.task, hadm, hphase, hlength] <;> rfl
  · simpa [KeyedExecutor.withdraw, State.goTo, hadm] using hlisted
  · intro j hj
    simp [hb.queued, Key.withdraw, hj]
  · simp [hb.queued, Key.withdraw]
  · constructor
    · exact hconsistent.settle hadm (by simp [Active]) rfl rfl
    · simp
    · simp
    · exact fun _ => (hconsistent.queued hphase).2.1
    · simp
  · simp [Thread.expects, hadm, hocc]
  · simp [Thread.task?]

lemma coordinate (h : Inv s) {w : ℕ} (now : ℕ) : Inv (KeyedExecutor.coordinate s w now) := by
  obtain ⟨hm, hsome⟩ := h.findCancelled_marks now
  rw [KeyedExecutor.coordinate]
  generalize findCancelled now s.tasks s.table = found at hm hsome
  obtain ⟨table, found⟩ := found
  have hmarked := h.mark hm
  cases found with
  | none =>
    simp only
    split_ifs
    · exact hmarked.goTo_free rfl
    · exact hmarked
  | some i =>
    obtain ⟨hmem, hne⟩ := hsome i rfl
    obtain ⟨hi, hadm, hlive⟩ := (hmarked.listed i).mp hmem
    simp only
    split_ifs with hq
    · exact hmarked.withdraw hi hadm hq
    · exact hmarked.mark (tableMarks_set { Marks.refl (table.row i) with signalSent := .inr hq })

end Coordinate

section Publish

lemma idle_key {table : Table Task} (hc : ∀ j < table.count, Consistent (table.row j)) {k : UInt64}
    (h : table.total (Measure.outstanding.ofKey k) = 0) (m : Measure) : table.total (m.ofKey k) = 0 := by
  refine Finset.sum_eq_zero fun j hj => ?_
  have hlt := Finset.mem_range.mp hj
  have hle := Table.le_total hlt (Measure.outstanding.ofKey k)
  have hcons := hc j hlt
  simp only [h, Nat.le_zero, Measure.ofKey, ite_eq_right_iff, Measure.task, one_ne_zero, imp_false, not_and,
    not_not] at hle ⊢
  intro hk
  have hdone := hle hk
  cases m with
  | outstanding | bytes =>
    refine if_neg fun hlive => ?_
    exact hlive.2 (hdone hlive.1)
  | queued =>
    refine if_neg fun hqueued => ?_
    simp [hdone hqueued.1] at hqueued
  | busy =>
    simp only [ite_eq_right_iff, one_ne_zero, imp_false]
    intro ho
    obtain ⟨hadm, hne⟩ := hcons.occupying_live ho
    exact hne (hdone hadm)

lemma key_eq_empty {a : Key} (h : ∀ m : Measure, m.key a = 0) : { a with ready := false } = ({} : Key) := by
  have h₁ := h .outstanding
  have h₂ := h .bytes
  have h₃ := h .queued
  have h₄ := h .busy
  rcases a with ⟨queued, outstanding, bytes, busy, ready⟩
  simp only [Measure.key] at h₁ h₂ h₃ h₄
  obtain rfl : queued = [] := List.length_eq_zero_iff.mp h₃
  cases busy
  · rw [h₁, h₂]
  · simp at h₄

def done (task : Task) (result : Status) : Task :=
  { task with
    phase := .terminal, own.occupying := false, result := some result, published := task.published ++ [result] }

lemma done_measure (task : Task) (result : Status) (m : Measure) : m.task (done task result) = 0 := by
  cases m <;> simp [Measure.task, done]

lemma done_consistent {task : Task} (h : Consistent task) (hadm : task.admitted = true)
    (hphase : task.phase = .completing) (result : Status) : Consistent (done task result) := by
  constructor
  · exact h.settle hadm (by simp [Active, done]) rfl rfl
  · simp [done]
  · simp [done]
  · simp [done]
  · simp [done, h.completing hphase]

lemma release_measure (h : Inv s) {i : ℕ} (hi : i < s.table.count) (hadm : (s.task i).admitted = true)
    (hphase : (s.task i).phase = .completing) {occupiedKey : Bool} (hocc : (s.task i).own.occupying = occupiedKey)
    (m : Measure) :
    m.key ((s.keys.slot (s.task i).own.key).release (s.task i).retainedBytes occupiedKey) + m.task (s.task i) =
      m.key (s.keys.slot (s.task i).own.key) := by
  have hle := (h.measure_le hi m).2
  cases m with
  | outstanding | bytes =>
    simp only [Measure.key, Measure.task, hadm, hphase, ne_eq, reduceCtorEq, not_false_eq_true, and_self,
      ↓reduceIte] at hle
    simp only [Measure.key, Key.release, Measure.task, hadm, hphase, sizeSub_eq hle, ne_eq, reduceCtorEq,
      not_false_eq_true, and_self, ↓reduceIte]
    omega
  | queued => simp [Measure.key, Key.release, Measure.task, hphase]
  | busy =>
    cases occupiedKey
    · simp [Measure.key, Key.release, Measure.task, hocc]
    · simp only [Measure.key, Measure.task, hocc, ↓reduceIte] at hle
      simp only [Measure.key, Key.release, Measure.task, hocc, Bool.not_true, Bool.and_false, Bool.toNat_false,
        zero_add, ↓reduceIte]
      have := Bool.toNat_le (s.keys.slot (s.task i).own.key).busy
      omega

lemma publish_keys (h : Inv s) {w i : ℕ} {result : Status} {occupiedKey : Bool} (hi : i < s.table.count)
    (hadm : (s.task i).admitted = true) (hphase : (s.task i).phase = .completing)
    (hocc : (s.task i).own.occupying = occupiedKey) :
    ∃ b, Settled ((s.keys.slot (s.task i).own.key).release (s.task i).retainedBytes occupiedKey) b ∧
      s.keys.Sets (s.task i).own.key b (KeyedExecutor.publish s w i result occupiedKey).keys := by
  have hmeasure (m : Measure) := h.release_measure hi hadm hphase hocc m
  have hready := h.ready (s.task i).own.key
  have hperKey (m : Measure) := h.perKey m (s.task i).own.key
  have hold (m : Measure) : m.ofKey (s.task i).own.key (s.table.row i) = m.task (s.task i) := if_pos rfl
  simp only [KeyedExecutor.publish, State.goTo]
  generalize (s.task i).own.key = k at *
  split_ifs with hlast
  · -- no live task is left, so nothing is
    set a := (s.keys.slot k).release (s.task i).retainedBytes occupiedKey
    have hrows (m : Measure) : m.key a = (s.table.set i (done (s.task i) result)).total (m.ofKey k) := by
      have h₁ := Table.total_set hi (done (s.task i) result) (m.ofKey k)
      have h₂ : m.ofKey k (done (s.task i) result) = 0 := by rw [Measure.ofKey, done_measure, ite_self]
      have h₃ := hmeasure m
      have h₄ := hperKey m
      have h₅ := hold m
      omega
    have hzero (m : Measure) : m.key a = 0 := by
      rw [hrows]
      refine idle_key (fun j hj => ?_) ?_ m
      · rw [Table.set_row]
        split_ifs
        · exact done_consistent (h.consistent i hi) hadm hphase result
        · exact h.consistent j hj
      · rw [← hrows]
        exact hlast
    have hempty := key_eq_empty hzero
    refine ⟨{}, ⟨?_, fun m => by rw [hzero, m.key_empty], ?_, by simp, by simp⟩, Keys.sets_erase rfl hempty⟩
    · have := congrArg Key.queued hempty.symm
      exact this
    · have := congrArg Key.busy hempty.symm
      exact this
  · refine ⟨_, settled_enqueued fun hr => ?_, Keys.sets_enqueue rfl (Nat.pos_of_ne_zero hlast)⟩
    obtain ⟨hb, hq⟩ := hready hr
    exact ⟨by simp [Key.release, hb], hq⟩

lemma publish (h : Inv s) {w i : ℕ} {result : Status} {occupiedKey : Bool}
    (hw : s.threads w = .publishing i result occupiedKey) : Inv (KeyedExecutor.publish s w i result occupiedKey) := by
  obtain ⟨hi, hadm, hphase, hocc⟩ := h.placed.at_task hw rfl
  change (s.task i).admitted = true at hadm
  change (s.task i).phase = .completing at hphase
  change (s.task i).own.occupying = occupiedKey at hocc
  obtain ⟨b, hb, hsets⟩ := h.publish_keys (w := w) hi hadm hphase hocc
  have hmem := (h.key_present hi hadm (by simp [hphase])).1
  have hmeasure (m : Measure) := h.release_measure hi hadm hphase hocc m
  have hnotq : i ∉ (s.keys.slot (s.task i).own.key).queued := fun hm => by
    have hq := ((h.queues _ i).mp hm).2.2.1
    simp [hphase] at hq
  have hout := (h.measure_le hi .outstanding).1
  have hbytes := (h.measure_le hi .bytes).1
  have hbusy := (h.measure_le hi .busy).1
  simp only [Measure.task, Measure.state, hadm, hphase, ne_eq, reduceCtorEq, not_false_eq_true, and_self,
    ↓reduceIte] at hout hbytes hbusy
  have hkey (m : Measure) : m.key b ≤ m.key (s.keys.slot (s.task i).own.key) := by
    have := hmeasure m
    rw [hb.measure]
    omega
  refine h.change (w := w) (i := i) (t := done (s.task i) result) (b := b)
    { lt := hi, held := h.placed.held hw rfl, key := rfl, table := rfl, threads := rfl, keys := hsets,
      state := fun m => ?_, slot := fun m => ?_,
      limits := h.limits_of_le rfl hsets hmem ?_ ?_ (hkey .outstanding) (hkey .bytes), nodup := h.nodup.filter _,
      others := ?_, mem := ?_, queue_nodup := hb.queued ▸ h.queues_nodup _, queue_others := ?_, queue_mem := ?_,
      ready := hb.ready, consistent := done_consistent (h.consistent i hi) hadm hphase result, fits := trivial,
      owns := by simp [Thread.task?] }
  · rw [done_measure]
    simp only [KeyedExecutor.publish, State.goTo]
    cases m with
    | outstanding | bytes =>
      simp only [Measure.state, Measure.task, hadm, hphase, sizeSub_eq hout, sizeSub_eq hbytes, ne_eq, reduceCtorEq,
        not_false_eq_true, and_self, ↓reduceIte]
      omega
    | queued => simp [Measure.state, Measure.task, hphase]
    | busy =>
      simp only [hocc] at hbusy
      cases occupiedKey
      · simp [Measure.state, Measure.task, hocc]
      · simp only [Measure.state, Measure.task, hocc, ↓reduceIte] at hbusy ⊢
        rw [sizeSub_eq hbusy]
        omega
  · rw [hb.measure, done_measure]
    exact hmeasure m
  · simp only [KeyedExecutor.publish, State.goTo, sizeSub_eq hout]
    exact Nat.sub_le _ _
  · simp only [KeyedExecutor.publish, State.goTo, sizeSub_eq hbytes]
    exact Nat.sub_le _ _
  · intro j hj
    simp [KeyedExecutor.publish, State.goTo, hj]
  · simp [KeyedExecutor.publish, State.goTo, done]
  · intro j _
    rw [hb.queued]
    rfl
  · rw [hb.queued]
    exact iff_of_false hnotq (by simp [done])

end Publish

lemma step (h : Inv s) {e : Event} {s' : State} (hs : KeyedExecutor.step s e = some s') : Inv s' := by
  cases e with
  | becomeReady =>
    obtain rfl := Option.some.inj hs
    exact { h with counted := h.counted, summed := h.summed, limits := { h.limits with } }
  | submit w hasJob key retainedBytes deadline =>
    simp only [KeyedExecutor.step] at hs
    split at hs <;> cases hs
    exact h.submit hasJob key retainedBytes deadline
  | accept w now =>
    simp only [KeyedExecutor.step] at hs
    split at hs <;> cases hs
    exact h.accept ‹_› now
  | rejected w =>
    simp only [KeyedExecutor.step] at hs
    split at hs <;> cases hs
    have hcounted : Inv
        { s with metrics := { s.metrics with rejectedTasks := TaskExecutor.add s.metrics.rejectedTasks } } :=
      { h with counted := h.counted, summed := h.summed, limits := { h.limits with } }
    exact hcounted.goTo_free rfl
  | cancel i now =>
    simp only [KeyedExecutor.step] at hs
    split_ifs at hs
    obtain rfl := Option.some.inj hs
    exact h.mark (tableMarks_set (cancel_marks _ now))
  | stopParent i =>
    simp only [KeyedExecutor.step] at hs
    split_ifs at hs
    obtain rfl := Option.some.inj hs
    exact h.mark (tableMarks_set (parent_marks _))
  | requestStop clock =>
    obtain rfl := Option.some.inj hs
    have hm := h.mark (h.stopTasks_marks clock)
    exact { hm with counted := hm.counted, summed := hm.summed, limits := { hm.limits with } }
  | pick w now =>
    simp only [KeyedExecutor.step] at hs
    split at hs <;> cases hs
    exact h.pick ‹_› now
  | finish w outcome now =>
    simp only [KeyedExecutor.step] at hs
    split at hs <;> cases hs
    exact h.finish ‹_› outcome now
  | coordinate w now =>
    simp only [KeyedExecutor.step] at hs
    split at hs <;> cases hs
    exact h.coordinate now
  | publish w =>
    simp only [KeyedExecutor.step] at hs
    split at hs <;> cases hs
    exact h.publish ‹_›
  | notified w =>
    simp only [KeyedExecutor.step] at hs
    split at hs <;> cases hs
    refine h.goTo_free ?_
    split_ifs <;> rfl

lemma initial (h : Initial s) : Inv s := by
  have htotal (f : Task → ℕ) : s.table.total f = 0 := by simp [Table.total, h.table]
  have hslot (k : UInt64) : s.keys.slot k = {} := KeyMap.getD_of_notMem (by simp [h.keys]) _
  have hfree (w : ℕ) : (s.threads w).task? = none := by
    rcases h.threads w with hw | hw | hw <;> rw [hw] <;> rfl
  have hstate (m : Measure) : m.state s = 0 := by
    cases m
    · exact h.outstanding
    · exact h.retained
    · exact h.pending
    · exact h.running
  constructor
  · simp [h.tasks]
  · simp [h.tasks, h.table]
  · exact fun m => by rw [htotal, hstate]
  · exact fun m => by simp [KeyMap.total, h.keys, hstate]
  · exact fun m k => by rw [htotal, hslot, m.key_empty]
  · exact fun k => by simp [h.keys, hslot]
  · exact ⟨h.options.2.2.2.1, by simp [h.keys], by simp [h.outstanding], by simp [h.retained],
      fun k => by simp [hslot], fun k => by simp [hslot]⟩
  · exact fun k => by simp [hslot]
  · exact fun k i => by simp [hslot, h.table]
  · exact ⟨[], .empty h.head h.tail, fun k => by simp [hslot]⟩
  · exact fun k => by simp [hslot]
  · simp [h.table]
  · exact .of_free hfree

lemma reachable (h : Reachable KeyedExecutor.step Initial s) : Inv s :=
  h.invariant (fun _ => initial) fun _ _ _ ht hs => ht.step hs

end Inv

end ServerCore.Runtime.KeyedExecutor
