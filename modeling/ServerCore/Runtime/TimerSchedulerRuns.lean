import ServerCore.Runtime.TimerSchedulerSteps

/-! The ends of invocations and of timers, and what all runs of `TimerScheduler` have in common. -/

namespace ServerCore.Runtime.TimerScheduler

open ServerCore.Core ServerCore.Foundations

namespace Inv

variable {s : State} {i e : ℕ}

section Invocations

structure Report (s : State) (i e : ℕ) (t : Timer) (task : Invocation) : Prop where
  live : s.Live i e
  timer : task.timer = i
  admitted : t.admitted = (s.timer i).admitted
  terminal : t.terminal = (s.timer i).terminal
  retainedBytes : t.retainedBytes = (s.timer i).retainedBytes
  retiring : t.retiring = (s.timer i).retiring
  inFlight : t.inFlight = (s.timer i).inFlight
  published : t.published = (s.timer i).published
  consistent : Consistent t
  delivered : task.delivered = true → task.completed ≠ none
  ok : task.delivered = false → LiveOk t s.thread e task
  flight : t.published = true → t.completionReady = true ∨ task.delivered = false
  attached : (s.task e).observer = none →
    task.observer = none ∧ task.delivered = false ∧ t.completionReady = false ∧
      t.subscriptionPending = (s.timer i).subscriptionPending
  observed : (s.task e).observer ≠ none → task.observer ≠ none

lemma report (h : Inv s) {t : Timer} {task : Invocation} (hr : Report s i e t task) :
    Inv { s with table := s.table.set i t, executor := s.executor.set e task } := by
  have hlive := h.live i e hr.live
  obtain ⟨helt, hdel, htimer⟩ := hr.live
  have hlt : i < s.table.count := htimer ▸ h.owner e helt
  have hunclaimed : (s.timer i).retiring = false := ((h.rows i hlt).flight hlive.inFlight).1
  have hrow (j : ℕ) (hj : j ≠ i) : (s.table.set i t).row j = s.table.row j := Table.set_row_ne _ _ hj
  have hself : (s.table.set i t).row i = t := Table.set_row_self ..
  have htask (e' : ℕ) (he : e' ≠ e) : (s.executor.set e task).row e' = s.executor.row e' := Table.set_row_ne _ _ he
  have htself : (s.executor.set e task).row e = task := Table.set_row_self ..
  set s' : State := { s with table := s.table.set i t, executor := s.executor.set e task } with hs'
  have hsplit {j e' : ℕ} (hl : s'.Live j e') : j = i ∧ e' = e ∧ task.delivered = false ∨ j ≠ i ∧ e' ≠ e ∧ s.Live j e' := by
    obtain ⟨he, hd, ht⟩ := hl
    simp only [hs', State.task, Table.set_count] at he hd ht
    rcases eq_or_ne e' e with rfl | hne
    · rw [htself] at hd ht
      exact .inl ⟨ht.symm.trans hr.timer, rfl, hd⟩
    · rw [htask e' hne] at hd ht
      refine .inr ⟨?_, hne, he, hd, ht⟩
      rintro rfl
      exact hne (h.unique j e' e ⟨he, hd, ht⟩ hr.live)
  have hother {j e' : ℕ} (hj : j ≠ i) (hl : s.Live j e') : s'.Live j e' ∧ s'.task e' = s.task e' := by
    have hne : e' ≠ e := by
      rintro rfl
      exact hj (hl.2.2.symm.trans htimer)
    have hsame : s'.task e' = s.task e' := htask e' hne
    refine ⟨⟨hl.1, ?_, ?_⟩, hsame⟩
    · rw [hsame]
      exact hl.2.1
    · rw [hsame]
      exact hl.2.2
  constructor
  · exact h.nodup
  · intro j
    rcases eq_or_ne j i with rfl | hj
    · simp only [hs', h.listed, State.timer, hself, hr.admitted, hr.terminal, Table.set_count]
    · simp only [hs', h.listed, State.timer, hrow j hj, Table.set_count]
  · exact h.size
  · refine h.retained_eq.trans ?_
    rw [State.bytes, State.bytes]
    congr 1
    refine List.map_congr_left fun j _ => ?_
    rcases eq_or_ne j i with rfl | hj
    · simp only [hs', State.timer, hself, hr.retainedBytes]
    · simp only [hs', State.timer, hrow j hj]
  · exact h.retained_le
  · intro j hj
    rcases eq_or_ne j i with rfl | hne
    · simp only [hs', State.timer, hself]
      exact hr.consistent
    · simp only [hs', State.timer, hrow j hne]
      exact h.rows j hj
  · intro e' he'
    rcases eq_or_ne e' e with rfl | hne
    · simp only [hs', State.task, htself]
      exact hr.delivered
    · simp only [hs', State.task, htask e' hne]
      exact h.delivered e' he'
  · intro e' he'
    rcases eq_or_ne e' e with rfl | hne
    · simp only [hs', State.task, htself, hr.timer]
      exact hlt
    · simp only [hs', State.task, htask e' hne]
      exact h.owner e' he'
  · intro j e' hl
    rcases hsplit hl with ⟨rfl, rfl, hd⟩ | ⟨hj, he, hl'⟩
    · simp only [hs', State.timer, State.task, hself, htself]
      exact hr.ok hd
    · simp only [hs', State.timer, State.task, hrow j hj, htask e' he]
      exact h.live j e' hl'
  · intro j e₁ e₂ h₁ h₂
    rcases hsplit h₁ with ⟨rfl, rfl, -⟩ | ⟨hj, -, h₁'⟩ <;> rcases hsplit h₂ with ⟨h₃, rfl, -⟩ | ⟨hj', -, h₂'⟩
    · rfl
    · exact absurd rfl hj'
    · exact absurd h₃ hj
    · exact h.unique j e₁ e₂ h₁' h₂'
  · intro j hj hf
    rcases eq_or_ne j i with rfl | hne
    · simp only [hs', State.timer, hself] at hf ⊢
      rw [hr.inFlight] at hf
      rcases h.flight j hj hf with hd | ⟨hp, hd⟩
      · exact .inl hd
      · refine .inr ⟨hr.published.trans hp, (hr.flight (hr.published.trans hp)).imp_right fun hdel' => ?_⟩
        rcases hd with hready | ⟨e', hl, ho⟩
        · simp [hlive.completionReady] at hready
        · obtain rfl := h.unique j e' e hl ⟨helt, hdel, htimer⟩
          refine ⟨e', ⟨helt, ?_, ?_⟩, ?_⟩ <;> simp only [State.task, htself]
          · exact hdel'
          · exact hr.timer
          · exact hr.observed ho
    · simp only [hs', State.timer, hrow j hne] at hf ⊢
      rcases h.flight j hj hf with hd | ⟨hp, hd⟩
      · exact .inl hd
      · refine .inr ⟨hp, hd.imp_right ?_⟩
        rintro ⟨e', hl, ho⟩
        obtain ⟨hl', hsame⟩ := hother hne hl
        exact ⟨e', hl', by rw [hsame]; exact ho⟩
  · have hok := h.thread
    have hflying {j : ℕ} (hj : j ≠ i) (hf : Thread.Flying s j) : Thread.Flying s' j :=
      ⟨hf.mem, by simp only [hs', State.timer, hrow j hj]; exact hf.inFlight,
        by simp only [hs', State.timer, hrow j hj]; exact hf.completionReady⟩
    have hnone {j : ℕ} (hj : j ≠ i) (hn : ∀ e', ¬ s.Live j e') : ∀ e', ¬ s'.Live j e' := by
      intro e' hl
      rcases hsplit hl with ⟨rfl, -, -⟩ | ⟨-, -, hl'⟩
      · exact hj rfl
      · exact hn e' hl'
    have hattached {j e' : ℕ} (ha : Thread.Attached s j e') : Thread.Attached s' j e' := by
      rcases eq_or_ne j i with rfl | hj
      · obtain rfl := h.unique j e' e ha.live ⟨helt, hdel, htimer⟩
        obtain ⟨ho, hd, hc, hp⟩ := hr.attached ha.observer
        refine ⟨⟨ha.mem, ?_, ?_⟩, ⟨helt, ?_, ?_⟩, ?_, ?_⟩ <;> simp only [hs', State.timer, State.task, hself, htself]
        · exact hr.inFlight.trans ha.inFlight
        · exact hc
        · exact hd
        · exact hr.timer
        · exact ho
        · exact hp.trans ha.subscriptionPending
      · obtain ⟨hl, hsame⟩ := hother hj ha.live
        refine ⟨hflying hj ha.toFlying, hl, hsame ▸ ha.observer, ?_⟩
        simp only [hs', State.timer, hrow j hj]
        exact ha.subscriptionPending
    have hpub {j : ℕ} (hp : (s.timer j).published = true) : (s'.timer j).published = true := by
      rcases eq_or_ne j i with rfl | hj
      · simp only [hs', State.timer, hself]
        exact hr.published.trans hp
      · simp only [hs', State.timer, hrow j hj]
        exact hp
    change s.thread.Ok s'
    cases hthread : s.thread <;> rw [hthread] at hok
    case dispatching j =>
      have hj : j ≠ i := by
        rintro rfl
        exact hok.2 e ⟨helt, hdel, htimer⟩
      exact ⟨hflying hj hok.1, hnone hj hok.2⟩
    case refused j code =>
      obtain ⟨hf, hn, hcode, hlast⟩ := hok
      have hj : j ≠ i := by
        rintro rfl
        exact hn e ⟨helt, hdel, htimer⟩
      refine ⟨hflying hj hf, hnone hj hn, hcode, ?_⟩
      simp only [hs', State.timer, hrow j hj]
      exact hlast
    case submitted j e' => exact hattached hok
    case observing j e' => exact ⟨hattached hok.1, hpub hok.2⟩
    case retiring j code =>
      obtain ⟨hmem, hret, hv⟩ := hok
      have hj : j ≠ i := by
        rintro rfl
        simp [hunclaimed] at hret
      refine ⟨hmem, ?_, ?_⟩ <;> simp only [hs', State.timer, hrow j hj]
      · exact hret
      · exact hv
    all_goals trivial
  · intro j hj hret
    rcases eq_or_ne j i with rfl | hne
    · simp only [hs', State.timer, hself, hr.retiring] at hret
      exact h.claimed j hj hret
    · simp only [hs', State.timer, hrow j hne] at hret
      exact h.claimed j hj hret

lemma complete (h : Inv s) (he : e < s.executor.count) (hnone : (s.task e).completed = none) (code : ErrorCode) :
    Inv { s with
      executor := s.executor.set e { s.task e with completed := some code }
      table := s.table.set (s.task e).timer { s.timer (s.task e).timer with lastCode := some code } } := by
  have hdel : (s.task e).delivered = false := by
    by_contra hd
    exact h.delivered e he (by simpa using hd) hnone
  have hl : s.Live (s.task e).timer e := ⟨he, hdel, rfl⟩
  have hlive := h.live _ e hl
  have hrow := h.rows _ (h.owner e he)
  have hret := (hrow.flight hlive.inFlight).1
  have hterm : (s.timer (s.task e).timer).terminal = false := by
    by_contra ht
    simp [(hrow.terminal (by simpa using ht)).1] at hret
  refine h.report ⟨hl, rfl, rfl, rfl, rfl, rfl, rfl, rfl, ?_, by simp, fun _ => ?_, fun _ => .inr hdel,
    fun ho => ⟨ho, hdel, hlive.completionReady, rfl⟩, id⟩
  · refine ⟨hrow.offered, hrow.waiting, hrow.flight, fun hr => ?_, hrow.claims, fun hr => ?_, fun ht => ?_⟩
    · simp [hlive.completionReady] at hr
    · simp [hret] at hr
    · simp [hterm] at ht
  · refine ⟨hlive.inFlight, hlive.completionReady, fun code' hcode => ?_, hlive.unobserved, hlive.observed⟩
    exact hcode

lemma deliver (h : Inv s) (he : e < s.executor.count) (hdel : (s.task e).delivered = false) {code : ErrorCode}
    {observer : ℕ} (hcode : (s.task e).completed = some code) (hobs : (s.task e).observer = some observer) :
    Inv (TimerScheduler.deliver s e code observer) := by
  have hl : s.Live (s.task e).timer e := ⟨he, hdel, rfl⟩
  have hlive := h.live _ e hl
  have hrow := h.rows _ (h.owner e he)
  have hret := (hrow.flight hlive.inFlight).1
  obtain ⟨hpub, hsub, hpend⟩ := hlive.observed observer hobs
  rw [TimerScheduler.deliver]
  simp only [hsub, hpend, decide_true, Bool.and_self, ↓reduceIte]
  refine h.report ⟨hl, rfl, rfl, rfl, rfl, rfl, rfl, rfl, ?_, by simp [hcode], by simp, fun _ => .inl rfl,
    fun ho => by simp [hobs] at ho, id⟩
  refine ⟨hrow.offered, fun hadm => ?_, hrow.flight, fun _ => hlive.completed code hcode, hrow.claims, hrow.claimed,
    hrow.terminal⟩
  exact absurd hlive.inFlight (by simp [(hrow.waiting hadm).1])

end Invocations

section Lists

lemma create (h : Inv s) (hasCallback : Bool) (repeatInterval : ℤ) (retainedBytes : ℕ) (repeatMode : TimerRepeatMode)
    (due : ℤ) : Inv (TimerScheduler.create s hasCallback repeatInterval retainedBytes repeatMode due) := by
  rw [TimerScheduler.create]
  split_ifs
  · exact h
  set t : Timer := { repeatInterval, retainedBytes, repeatMode, due } with ht
  have hold (j : ℕ) (hj : j < s.table.count) : (s.table.push t).row j = s.table.row j := by
    rw [Table.push_row, if_neg hj.ne]
  have hnew : (s.table.push t).row s.table.count = t := by rw [Table.push_row, if_pos rfl]
  set s' : State := { s with table := s.table.push t } with hs'
  have hrow {j : ℕ} (hj : j < s.table.count) : s'.timer j = s.timer j := hold j hj
  have hmem {j : ℕ} (hj : j ∈ s.timers) : s'.timer j = s.timer j := hrow ((h.listed j).mp hj).1
  have hlive {j e' : ℕ} (hl : s.Live j e') : s'.timer j = s.timer j := hrow (hl.2.2 ▸ h.owner e' hl.1)
  have hcases {j : ℕ} (hj : j < s'.table.count) : j = s.table.count ∨ j < s.table.count := by
    simp only [hs', Table.push_count] at hj
    omega
  constructor
  · exact h.nodup
  · intro j
    refine (h.listed j).trans ⟨fun ⟨hj, hrest⟩ => ?_, fun ⟨hj, hrest⟩ => ?_⟩
    · rw [hrow hj]
      exact ⟨hj.trans (Nat.lt_succ_self _), hrest⟩
    · rcases hcases hj with rfl | hj
      · have : s'.timer s.table.count = t := hnew
        rw [this] at hrest
        simp [ht] at hrest
      · rw [hrow hj] at hrest
        exact ⟨hj, hrest⟩
  · exact h.size
  · refine h.retained_eq.trans ?_
    rw [State.bytes, State.bytes]
    congr 1
    exact List.map_congr_left fun j hj => by rw [hmem hj]
  · exact h.retained_le
  · intro j hj
    rcases hcases hj with rfl | hj
    · have : s'.timer s.table.count = t := hnew
      rw [this]
      constructor <;> simp [ht]
    · rw [hrow hj]
      exact h.rows j hj
  · exact h.delivered
  · exact fun e' he' => (h.owner e' he').trans (Nat.lt_succ_self _)
  · intro j e' hl
    rw [hlive hl]
    exact h.live j e' hl
  · exact h.unique
  · intro j hj hf
    rcases hcases hj with rfl | hj
    · have : s'.timer s.table.count = t := hnew
      rw [this] at hf
      simp [ht] at hf
    · rw [hrow hj] at hf ⊢
      exact h.flight j hj hf
  · exact h.thread.frame s' rfl fun j hj _ => ⟨hj, hmem hj⟩
  · intro j hj hr
    rw [hmem hj] at hr
    exact h.claimed j hj hr

lemma schedule (h : Inv s) (hi : i < s.table.count) (hoff : (s.timer i).offered = false) :
    Inv (TimerScheduler.schedule s i) := by
  have hrow := h.rows i hi
  rw [TimerScheduler.schedule]
  cases herr : admissionError s (s.timer i).retainedBytes with
  | some code => exact h.benign (tableBenign_set { Benign.refl (s.timer i) with offered := fun _ => rfl })
  | none =>
    have hadm : (s.timer i).admitted = false := by
      by_contra hadm
      simp [hrow.offered (by simpa using hadm)] at hoff
    obtain ⟨hfl, hcr, hret, hterm⟩ := hrow.waiting hadm
    have hnot : i ∉ s.timers := fun hm => by
      simp only [h.listed, State.timer] at hm hadm
      simp [hadm] at hm
    have hroom : s.timers.length < s.options.maxTimers ∧
        s.retained + (s.timer i).retainedBytes ≤ s.options.maxRetainedBytes := by
      have hle := h.retained_le
      rw [admissionError] at herr
      split_ifs at herr with h₁ h₂ h₃
      simp only [Bool.or_eq_true, decide_eq_true_eq, not_or, sizeSub_eq hle] at h₃
      omega
    have hother (j : ℕ) (hj : j ≠ i) (t : Timer) : (s.table.set i t).row j = s.table.row j := Table.set_row_ne _ _ hj
    have hne {j : ℕ} (hj : j ∈ s.timers) : j ≠ i := fun heq => hnot (heq ▸ hj)
    have hnolive := h.no_live_of_idle hfl
    set t : Timer := { s.timer i with offered := true, admitted := true } with ht
    have hself : (s.table.set i t).row i = t := Table.set_row_self ..
    set s' : State :=
      { s with
        table := s.table.set i t, timers := s.timers ++ [i], retained := s.retained + (s.timer i).retainedBytes } with hs'
    have hmem {j : ℕ} (hj : j ≠ i) : s'.timer j = s.timer j := hother j hj t
    have hat : s'.timer i = t := hself
    constructor
    · exact List.nodup_append.mpr ⟨h.nodup, by simp, by simpa using fun a ha => hne ha⟩
    · intro j
      rcases eq_or_ne j i with rfl | hj
      · rw [hat]
        simp [hs', ht, hi, hterm]
      · rw [hmem hj]
        simp [hs', hj, h.listed]
    · simp only [hs', List.length_append, List.length_singleton]
      omega
    · have hold : (s.timers.map fun j => (s'.timer j).retainedBytes) = s.timers.map fun j => (s.timer j).retainedBytes :=
        List.map_congr_left fun j hj => by rw [hmem (hne hj)]
      have hlast : (s'.timer i).retainedBytes = (s.timer i).retainedBytes := by rw [hat]
      change s.retained + (s.timer i).retainedBytes = ((s.timers ++ [i]).map fun j => (s'.timer j).retainedBytes).sum
      rw [List.map_append, List.sum_append, hold, h.retained_eq, List.map_singleton, List.sum_singleton, hlast]
      rfl
    · exact hroom.2
    · intro j hj
      rcases eq_or_ne j i with rfl | hj'
      · rw [hat]
        exact ⟨fun _ => rfl, by simp [ht], hrow.flight, hrow.ready, hrow.claims, hrow.claimed, hrow.terminal⟩
      · rw [hmem hj']
        exact h.rows j hj
    · exact h.delivered
    · exact h.owner
    · intro j e' hl
      have hj : j ≠ i := by
        rintro rfl
        exact hnolive e' hl
      rw [hmem hj]
      exact h.live j e' hl
    · exact h.unique
    · intro j hj hf
      rcases eq_or_ne j i with rfl | hj'
      · rw [hat] at hf
        simp [ht, hfl] at hf
      · rw [hmem hj'] at hf ⊢
        exact h.flight j hj hf
    · exact h.thread.frame s' rfl fun j hj _ => ⟨by simp [hs', hj], hmem (hne hj)⟩
    · intro j hj hr
      rcases eq_or_ne j i with rfl | hj'
      · rw [hat] at hr
        simp [ht, hret] at hr
      · rw [hmem hj'] at hr
        exact h.claimed j (by simpa [hs', hj'] using hj) hr

lemma bytes_filter (h : Inv s) (hi : i ∈ s.timers) :
    ((s.timers.filter (· != i)).map fun j => (s.timer j).retainedBytes).sum + (s.timer i).retainedBytes = s.bytes := by
  rw [State.bytes, ← h.nodup.erase_eq_filter, Nat.add_comm]
  exact List.sum_map_erase (fun j => (s.timer j).retainedBytes) hi

lemma retire (h : Inv s) {code : ErrorCode} (hthread : s.thread = .retiring i code) :
    Inv (TimerScheduler.retire s i code) := by
  have hok := h.thread
  rw [hthread] at hok
  obtain ⟨hmem, hret, hv⟩ := hok
  obtain ⟨hlt, hadm, hterm⟩ := (h.listed i).mp hmem
  have hrow := h.rows i hlt
  have hfl : (s.timer i).inFlight = false := by
    by_contra hf
    simp [(hrow.flight (by simpa using hf)).1] at hret
  have hnolive := h.no_live_of_idle hfl
  have hbytes := h.bytes_filter hmem
  have hle : (s.timer i).retainedBytes ≤ s.retained := by
    rw [h.retained_eq]
    omega
  set t : Timer := { s.timer i with subscriptionPending := false, result := code, terminal := true } with ht
  have hat : (TimerScheduler.retire s i code).timer i = t := Table.set_row_self ..
  have hother {j : ℕ} (hj : j ≠ i) : (TimerScheduler.retire s i code).timer j = s.timer j := Table.set_row_ne _ _ hj
  constructor
  · exact h.nodup.filter _
  · intro j
    rcases eq_or_ne j i with rfl | hj
    · rw [hat]
      simp [TimerScheduler.retire, ht]
    · rw [hother hj]
      simp [TimerScheduler.retire, hj, h.listed]
  · exact (List.length_filter_le _ _).trans h.size
  · have hold : ((s.timers.filter (· != i)).map fun j => ((TimerScheduler.retire s i code).timer j).retainedBytes) =
        (s.timers.filter (· != i)).map fun j => (s.timer j).retainedBytes := by
      refine List.map_congr_left fun j hj => ?_
      rw [hother (by simpa using (List.mem_filter.mp hj).2)]
    change sizeSub s.retained (s.timer i).retainedBytes = _
    rw [sizeSub_eq hle, State.bytes]
    change _ = ((s.timers.filter (· != i)).map fun j => ((TimerScheduler.retire s i code).timer j).retainedBytes).sum
    rw [hold, h.retained_eq]
    omega
  · change sizeSub s.retained (s.timer i).retainedBytes ≤ _
    rw [sizeSub_eq hle]
    exact (Nat.sub_le _ _).trans h.retained_le
  · intro j hj
    rcases eq_or_ne j i with rfl | hj'
    · rw [hat]
      refine ⟨hrow.offered, fun hn => ?_, hrow.flight, hrow.ready, hrow.claims, hrow.claimed, fun _ => ⟨hret, hv.symm⟩⟩
      simp [ht, State.timer, hadm] at hn
    · rw [hother hj']
      exact h.rows j hj
  · exact h.delivered
  · exact h.owner
  · intro j e' hl
    have hj : j ≠ i := by
      rintro rfl
      exact hnolive e' hl
    rw [hother hj]
    refine { h.live j e' hl with unobserved := fun hnone => ?_ }
    rcases (h.live j e' hl).unobserved hnone with hth | hth <;> rw [hthread] at hth <;> cases hth
  · exact h.unique
  · intro j hj hf
    have hj' : j ≠ i := by
      rintro rfl
      rw [hat] at hf
      simp [ht, hfl] at hf
    rw [hother hj'] at hf ⊢
    rcases h.flight j hj hf with hd | hd
    · rw [hthread] at hd
      exact absurd (by simpa [Thread.timer?] using hd.timer) hj'.symm
    · exact .inr hd
  · trivial
  · intro j hj hr
    obtain ⟨hj', hne⟩ := List.mem_filter.mp hj
    have hne : j ≠ i := by simpa using hne
    rw [hother hne] at hr
    obtain ⟨code', hcode⟩ := h.claimed j hj' hr
    rw [hthread, Thread.retiring.injEq] at hcode
    exact absurd hcode.1.symm hne

end Lists

lemma step (h : Inv s) {event : Event} {s' : State} (hs : TimerScheduler.step s event = some s') : Inv s' := by
  cases event with
  | becomeReady =>
    obtain rfl := Option.some.inj hs
    exact { h with thread := h.thread.frame _ rfl fun _ hi _ => ⟨hi, rfl⟩ }
  | create hasCallback repeatInterval retainedBytes repeatMode due =>
    obtain rfl := Option.some.inj hs
    exact h.create ..
  | schedule i =>
    simp only [TimerScheduler.step] at hs
    split_ifs at hs with hi
    obtain rfl := Option.some.inj hs
    exact h.schedule hi.1 hi.2
  | cancel i =>
    simp only [TimerScheduler.step] at hs
    split_ifs at hs
    obtain rfl := Option.some.inj hs
    exact h.benign (tableBenign_set (cancel_benign _))
  | reschedule i due =>
    simp only [TimerScheduler.step] at hs
    split_ifs at hs
    obtain rfl := Option.some.inj hs
    exact h.benign (tableBenign_set (reschedule_benign _ _ _))
  | requestStop =>
    obtain rfl := Option.some.inj hs
    have hb := h.benign (cancelTimers_benign s.timers s.table)
    exact { hb with thread := hb.thread.frame _ rfl fun _ hi _ => ⟨hi, rfl⟩ }
  | pass now =>
    simp only [TimerScheduler.step] at hs
    split at hs <;> cases hs
    exact h.pass ‹_› now
  | signalled =>
    simp only [TimerScheduler.step] at hs
    split at hs <;> cases hs
    rename_i i hthread
    exact h.goTo (by rw [hthread]; rfl) rfl
  | submitOk =>
    simp only [TimerScheduler.step] at hs
    split at hs <;> cases hs
    exact h.submitOk ‹_›
  | submitFail created code =>
    simp only [TimerScheduler.step] at hs
    split at hs
    · split_ifs at hs with hcode
      obtain rfl := Option.some.inj hs
      exact h.submitFail ‹_› created hcode
    · cases hs
  | settle now =>
    simp only [TimerScheduler.step] at hs
    split at hs <;> cases hs
    · exact h.publish ‹_›
    · exact h.refuse ‹_› now
  | observe =>
    simp only [TimerScheduler.step] at hs
    split at hs <;> cases hs
    exact h.observe ‹_›
  | complete e code =>
    simp only [TimerScheduler.step] at hs
    split_ifs at hs with he
    obtain rfl := Option.some.inj hs
    exact h.complete he.1 he.2 code
  | deliver e =>
    simp only [TimerScheduler.step] at hs
    split at hs
    · split_ifs at hs with he
      obtain rfl := Option.some.inj hs
      exact h.deliver he.1 he.2 ‹_› ‹_›
    · cases hs
  | retire =>
    simp only [TimerScheduler.step] at hs
    split at hs <;> cases hs
    exact h.retire ‹_›
  | stopped =>
    simp only [TimerScheduler.step] at hs
    split_ifs at hs
    obtain rfl := Option.some.inj hs
    exact { h with thread := h.thread.frame _ rfl fun _ hi _ => ⟨hi, rfl⟩ }

lemma initial (h : Initial s) : Inv s := by
  have hnolive (i e : ℕ) : ¬ s.Live i e := fun hl => by
    have := hl.1
    simp [h.executor] at this
  refine ⟨by simp [h.timers], by simp [h.timers, h.table], by simp [h.timers], ?_, by simp [h.retained],
    by simp [h.table], by simp [h.executor], by simp [h.executor], fun i e hl => absurd hl (hnolive i e),
    fun i e _ hl => absurd hl (hnolive i e), by simp [h.table], ?_, by simp [h.timers]⟩
  · rw [h.retained, State.bytes, h.timers]
    rfl
  · rw [h.thread]
    trivial

lemma reachable (h : Reachable TimerScheduler.step Initial s) : Inv s :=
  h.invariant (fun _ => initial) fun _ _ _ ht hs => ht.step hs

end Inv

end ServerCore.Runtime.TimerScheduler
