import ServerCore.Runtime.TaskGroupRuns

/-! A task group is finished exactly when its work is done, and says so once. -/

namespace ServerCore.Runtime.TaskGroup

open ServerCore.Core ServerCore.Foundations

namespace State

variable {s s' : State} {event : ℕ × Choice}

lemma finishedLocked_step (h : s.Inv) (hf : s.finishedLocked = true) (hstep : step s event = some s') :
    s'.finishedLocked = true := by
  obtain ⟨hclosed, hsubmitting, -⟩ := finishedLocked_iff.mp hf
  obtain ⟨t, choice⟩ := event
  cases choice with
  | start options =>
    obtain ⟨-, rfl⟩ := of_guard hstep
    rw [State.start]
    split_ifs <;> exact hf
  | submit task allocated deadlinePassed bytes =>
    obtain ⟨-, rfl⟩ := of_guard hstep
    simp only [State.submit]
    cases he : s.submitError task allocated deadlinePassed bytes with
    | some code => exact hf
    | none =>
      have := (submitError_none h.records.retained_le he).2.1
      rw [hclosed] at this
      contradiction
  | executorAnswers accepts =>
    cases ht : s.threads t <;> simp only [step, ht] at hstep <;> try contradiction
    obtain rfl := Option.some.inj hstep
    rw [State.executorAnswers, set_finishedLocked] <;> first | exact hf | rfl
  | conclude =>
    cases ht : s.threads t <;> simp only [step, ht] at hstep <;> try contradiction
    have hfits := h.places.fits t
    rw [ht] at hfits
    have := submitting_pos h.records hfits.1 hfits.2.1
    omega
  | observe =>
    cases ht : s.threads t <;> simp only [step, ht] at hstep <;> try contradiction
    obtain rfl := Option.some.inj hstep
    rw [State.observe, set_finishedLocked] <;> first | exact hf | rfl
  | taskEnds i code =>
    obtain ⟨-, rfl⟩ := of_guard hstep
    refine Eq.trans (set_finishedLocked (t := t) (i := i) ?_ ?_ .idle) hf <;> rfl
  | handleFinishes i =>
    obtain ⟨-, rfl⟩ := of_guard hstep
    refine Eq.trans (set_finishedLocked (t := t) (i := i) ?_ ?_ .idle) hf <;> rfl
  | complete i =>
    simp only [step, Option.ite_none_right_eq_some, Option.map_eq_some_iff] at hstep
    obtain ⟨-, code, -, rfl⟩ := hstep
    exact complete_finishedLocked t hf
  | close =>
    obtain ⟨-, rfl⟩ := of_guard hstep
    exact close_finishedLocked t hf
  | notify =>
    cases ht : s.threads t <;> simp only [step, ht] at hstep <;> try contradiction
    obtain rfl := Option.some.inj hstep
    exact hf
  | signal =>
    cases ht : s.threads t <;> simp only [step, ht] at hstep <;> try contradiction
    obtain rfl := Option.some.inj hstep
    rw [State.signal]
    split_ifs <;> exact hf
  | takeCompletions allocated =>
    obtain ⟨-, rfl⟩ := of_guard hstep
    exact (takeCompletions_finishedLocked s t allocated).mpr hf

lemma finishedLocked_steps (h : s.Inv) (hf : s.finishedLocked = true) (hsteps : Steps step s s') : s'.finishedLocked = true := by
  refine (hsteps.invariant (P := fun s => s.Inv ∧ s.finishedLocked = true) ⟨h, hf⟩ fun s event s' hs hstep => ?_).2
  exact ⟨inv_step hs.1 hstep, finishedLocked_step hs.1 hs.2 hstep⟩

lemma owned_unfinished (h : s.Inv) {t i : ℕ} (howns : (s.threads t).Owns i) :
    i ∈ s.children ∧ (s.child i).completed = false := by
  have hfits := h.places.fits t
  have hlisted (hi : i < s.table.count) (hlive : (s.child i).live = true) (hc : (s.child i).completed = false) :
      i ∈ s.children ∧ (s.child i).completed = false := ⟨h.listing.kept i hi hlive, hc⟩
  have hunpublished (hi : i < s.table.count) (hphase : (s.child i).phase = .submitting) :
      i ∈ s.children ∧ (s.child i).completed = false := by
    refine hlisted hi (by simp [Child.live, hphase]) (valid_live (h.records.valid i hi) ?_)
    by_contra ho
    have := (h.records.valid i hi).observed (Bool.eq_true_of_not_eq_false ho)
    rw [hphase] at this
    contradiction
  rcases howns with ht | ht | ht
  · rw [ht] at hfits
    exact hunpublished hfits.1 hfits.2.1
  · rw [ht] at hfits
    exact hunpublished hfits.1 hfits.2.1
  · rw [ht] at hfits
    obtain ⟨hi, hphase, hobserved⟩ : i < s.table.count ∧ (s.child i).phase = .published ∧ (s.child i).observed = false := hfits
    have hc := valid_live (h.records.valid i hi) hobserved
    exact hlisted hi (by simp [Child.live, hphase, hc]) hc

lemma finishedLocked_iff_done (h : s.Inv) : s.finishedLocked = true ↔
    s.closed = true ∧ (∀ t i, ¬ (s.threads t).Owns i) ∧ ∀ i ∈ s.children, (s.child i).completed = true := by
  constructor
  · intro hf
    obtain ⟨hclosed, -, hall⟩ := finishedLocked_iff.mp hf
    refine ⟨hclosed, fun t i howns => ?_, fun i hi => (hall i hi).2⟩
    obtain ⟨hi, hc⟩ := owned_unfinished h howns
    rw [(hall i hi).2] at hc
    contradiction
  · rintro ⟨hclosed, hnobody, hall⟩
    refine finishedLocked_iff.mpr ⟨hclosed, ?_, fun i hi => ⟨?_, hall i hi⟩⟩
    · rw [h.records.submitting_eq]
      refine Finset.sum_eq_zero fun i hi => if_neg fun hphase => ?_
      obtain ⟨t, ht⟩ := h.places.owned i (Finset.mem_range.mp hi) hphase
      exact hnobody t i ht
    · have hv := h.records.valid i (h.listing.listed i hi).1
      exact hv.observed (hv.completed (hall i hi)).1

end State

open State

theorem groups_finish_exactly {s : State} (h : Reachable step Initial s) :
    s.retained = s.table.total chargedBytes ∧ s.retained ≤ s.options.maxRetainedBytes ∧
    (∀ i < s.table.count, (s.child i).live = true → (s.child i).bytes ≤ s.retained) ∧
    (s.reports.map TaskGroupCompletion.id).Nodup ∧
    (∀ r ∈ s.reports, ∃ i < s.table.count, (s.child i).id = r.id ∧ (s.child i).answer = some true ∧
      (s.child i).result = some r.code) ∧
    (∀ i < s.table.count, (s.child i).answer = some false → ∀ r ∈ s.reports, r.id ≠ (s.child i).id) ∧
    (s.finishedLocked = true ↔
      s.closed = true ∧ (∀ t i, ¬ (s.threads t).Owns i) ∧ ∀ i ∈ s.children, (s.child i).completed = true) ∧
    (s.finishedLocked = true → ∀ s', Steps step s s' → s'.finishedLocked = true) ∧
    s.fires ≤ 1 ∧ (s.fires = 1 → s.finishedLocked = true) ∧
    (s.finishedLocked = true → (∀ t, (s.threads t).free = true) → s.fires = 1) := by
  have hinv := reachable_inv h
  have hids (i : ℕ) (hi : i < s.table.count) := (hinv.records.valid i hi).id_eq
  have hfires := hinv.signals.fires_eq
  refine ⟨hinv.records.retained_eq, hinv.records.retained_le, fun i hi hl => bytes_le_retained hinv.records hi hl,
    hinv.listing.once, fun r hr => ?_, fun i hi hrefused r hr heq => ?_, finishedLocked_iff_done hinv,
    fun hf s' hsteps => finishedLocked_steps hinv hf hsteps, ?_, fun hone => hinv.signals.ready ?_, fun hf hidle => ?_⟩
  · obtain ⟨i, hi, -, hc, rfl⟩ := hinv.listing.reported r hr
    obtain ⟨hobserved, hresult⟩ := (hinv.records.valid i hi).completed hc
    exact ⟨i, hi, rfl, (hinv.records.valid i hi).ended (by simp [hresult]), hresult⟩
  · obtain ⟨j, hj, -, hc, rfl⟩ := hinv.listing.reported r hr
    have hji : j = i := by
      have hidj := hids j hj
      have hidi := hids i hi
      have heq : (s.child j).id = (s.child i).id := heq
      omega
    subst hji
    have hresult := ((hinv.records.valid j hj).completed hc).2
    have := (hinv.records.valid j hj).ended (by simp [hresult])
    rw [hrefused] at this
    contradiction
  · rw [hfires]
    split_ifs <;> omega
  · by_contra hready
    rw [if_neg hready] at hfires
    omega
  · rcases hinv.signals.owed hf with hready | ⟨t, ht⟩
    · rw [hfires, if_pos hready]
    · have := free_elsewhere (hidle t)
      rcases ht with ht | ht
      · exact absurd ht this.2.1
      · exact absurd ht this.2.2

theorem group_reports_one_of_two : ∃ s : State, s.reports = [⟨1, .timeout⟩] ∧ (s.child 1).answer = some false ∧
    s.retained = 0 ∧ s.retained = s.table.total chargedBytes ∧ s.finishedLocked = true ∧ s.fires ≤ 1 ∧ s.fires = 1 := by
  have hsteps : Steps step ({} : State) _ := ⟨[(0, .start {}), (0, .submit true true false 10), (0, .executorAnswers true),
    (1, .taskEnds 0 .timeout), (0, .conclude), (0, .observe), (1, .complete 0), (1, .notify), (0, .notify),
    (0, .submit true true false 20), (0, .executorAnswers false), (0, .conclude), (0, .notify), (2, .close),
    (1, .handleFinishes 0), (1, .takeCompletions true), (2, .notify), (2, .signal)], rfl⟩
  obtain ⟨hretained, -, -, -, -, -, -, -, hfires, -⟩ := groups_finish_exactly ⟨_, rfl, hsteps⟩
  exact ⟨_, rfl, rfl, rfl, hretained, rfl, hfires, rfl⟩

end ServerCore.Runtime.TaskGroup
