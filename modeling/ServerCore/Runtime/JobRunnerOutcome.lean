import ServerCore.Runtime.JobRunnerRuns

/-! Closing the admission, stopping, and what becomes of the jobs and reservations of a `JobRunner`. -/

namespace ServerCore.Runtime.JobRunner

open ServerCore.Core ServerCore.Foundations

structure Later (s s' : State) : Prop where
  closed : s.admissionClosed = true → s'.admissionClosed = true
  stopped : s.stopRequested = true → s'.stopRequested = true
  count : s.reservations.count ≤ s'.reservations.count
  dropped : ∀ r < s.reservations.count, (s.reservations.row r).phase = .dropped → s'.reservations.row r = s.reservations.row r
  posted : ∀ r < s.reservations.count, (s.reservations.row r).phase = .posted → s'.reservations.row r = s.reservations.row r
  refused : ∀ r < s.reservations.count, (s.reservations.row r).phase = .refused →
    (s'.reservations.row r).phase = .refused ∨ (s'.reservations.row r).phase = .dropped

section Steps

variable {s s' s'' : State}

lemma Later.refl (s : State) : Later s s :=
  ⟨id, id, le_rfl, fun _ _ _ => rfl, fun _ _ _ => rfl, fun _ _ => .inl⟩

lemma Later.trans (h : Later s s') (h' : Later s' s'') : Later s s'' := by
  refine ⟨fun hc => h'.closed (h.closed hc), fun hs => h'.stopped (h.stopped hs), h.count.trans h'.count, fun r hr hp => ?_,
    fun r hr hp => ?_, fun r hr hp => ?_⟩
  · have heq := h.dropped r hr hp
    exact (h'.dropped r (hr.trans_le h.count) (by rw [heq, hp])).trans heq
  · have heq := h.posted r hr hp
    exact (h'.posted r (hr.trans_le h.count) (by rw [heq, hp])).trans heq
  · rcases h.refused r hr hp with hr' | hd
    · exact h'.refused r (hr.trans_le h.count) hr'
    · rw [h'.dropped r (hr.trans_le h.count) hd]
      exact .inr hd

lemma later_of (hc : s.admissionClosed = true → s'.admissionClosed = true) (hs : s.stopRequested = true → s'.stopRequested = true)
    (hr : s'.reservations = s.reservations) : Later s s' := by
  refine ⟨hc, hs, by rw [hr], fun r _ _ => by rw [hr], fun r _ _ => by rw [hr], fun r _ hp => ?_⟩
  rw [hr]
  exact .inl hp

lemma later_setReservation {r : ℕ} {reservation : Reservation} (hc : s'.admissionClosed = s.admissionClosed)
    (hs : s'.stopRequested = s.stopRequested) (hr : s'.reservations = s.reservations.set r reservation)
    (hp : (s.reservations.row r).phase = .held ∨ (s.reservations.row r).phase = .refused ∧ reservation.phase = .dropped) :
    Later s s' := by
  have hrow (r' : ℕ) : s'.reservations.row r' = if r' = r then reservation else s.reservations.row r' := by
    rw [hr, Table.set_row]
  refine ⟨fun h => hc.trans h, fun h => hs.trans h, by rw [hr, Table.set_count], fun r' _ hp' => ?_, fun r' _ hp' => ?_,
    fun r' _ hp' => ?_⟩
  · rw [hrow, if_neg]
    rintro rfl
    rcases hp with hp | ⟨hp, -⟩ <;> simp [hp] at hp'
  · rw [hrow, if_neg]
    rintro rfl
    rcases hp with hp | ⟨hp, -⟩ <;> simp [hp] at hp'
  · rw [hrow]
    split_ifs with heq
    · subst heq
      rcases hp with hp | ⟨-, hd⟩
      · simp [hp] at hp'
      · exact .inr hd
    · exact .inl hp'

lemma charge_later (bytes : ℕ) (control : Bool) : Later s (s.charge bytes control) := by
  cases control <;> exact later_of id id rfl

lemma step_later {event : Event} (hs : step s event = some s') : Later s s' := by
  cases event with
  | configure options =>
    obtain rfl := Option.some.inj hs
    rw [State.configure]
    split_ifs <;> exact later_of id id rfl
  | post callback allocated bytes control =>
    obtain rfl := Option.some.inj hs
    rw [State.post]
    split_ifs
    · exact .refl s
    · exact .refl s
    · cases s.admission bytes control with
      | ok => exact (charge_later bytes control).trans (later_of id id rfl)
      | _ => exact .refl s
  | reserve allocated bytes =>
    obtain rfl := Option.some.inj hs
    rw [State.reserve]
    split_ifs
    · exact .refl s
    · cases s.admission bytes false with
      | ok =>
        have hrow (r : ℕ) (hr : r < s.reservations.count) : (s.reservations.push { bytes }).row r = s.reservations.row r := by
          rw [Table.push_row, if_neg hr.ne]
        refine ⟨id, id, Nat.le_succ _, fun r hr _ => hrow r hr, fun r hr _ => hrow r hr, fun r hr hp => .inl ?_⟩
        exact (congrArg Reservation.phase (hrow r hr)).trans hp
      | _ => exact .refl s
  | postReserved r callback =>
    obtain ⟨-, rfl⟩ := of_guard hs
    simp only [State.postReserved]
    split_ifs with hheld
    · exact .refl s
    · exact .refl s
    · exact later_setReservation rfl rfl rfl (.inl (not_not.mp hheld))
    · exact later_setReservation rfl rfl rfl (.inl (not_not.mp hheld))
  | dropReservation r =>
    obtain ⟨⟨-, hp⟩, rfl⟩ := of_guard hs
    exact later_setReservation rfl rfl rfl (.inl hp)
  | dropRefused r =>
    obtain ⟨⟨-, hp⟩, rfl⟩ := of_guard hs
    exact later_setReservation rfl rfl rfl (.inr ⟨hp, rfl⟩)
  | closeAdmission =>
    obtain rfl := Option.some.inj hs
    exact later_of (fun _ => rfl) id rfl
  | requestStop =>
    obtain rfl := Option.some.inj hs
    exact later_of (fun _ => rfl) (fun _ => rfl) rfl
  | runUntilStopped =>
    simp only [step, Option.ite_none_left_eq_some] at hs
    obtain rfl := Option.some.inj hs.2
    exact later_of id id rfl
  | take =>
    simp only [step, Option.ite_none_right_eq_some] at hs
    obtain ⟨-, ht⟩ := hs
    rw [State.take] at ht
    split at ht
    · simp only [Option.ite_none_right_eq_some] at ht
      obtain rfl := Option.some.inj ht.2
      exact later_of id id rfl
    · obtain rfl := Option.some.inj ht
      exact later_of id id rfl
  | finish =>
    simp only [step] at hs
    split at hs
    · obtain rfl := Option.some.inj hs
      exact later_of id id rfl
    · cases hs
  | release =>
    simp only [step] at hs
    split at hs
    · rename_i job hreleasing
      obtain rfl := Option.some.inj hs
      cases hc : job.control <;> exact later_of id id rfl
    · cases hs

lemma steps_later (h : Steps step s s') : Later s s' :=
  h.invariant (.refl s) fun _ _ _ hlater hstep => hlater.trans (step_later hstep)

end Steps

section Answers

variable {s : State}

lemma post_control_iff (h : Inv s) {callback allocated : Bool} {bytes : ℕ} :
    (s.post callback allocated bytes true).1 = .ok ↔ callback = true ∧ allocated = true ∧ s.stopRequested = false ∧
      s.controlCount < s.options.maxControlJobs ∧ s.controlBytes + bytes ≤ s.options.maxControlBytes := by
  have hle : s.controlBytes ≤ s.options.maxControlBytes := h.accounts.bytes_le true
  have hadmission : s.admission bytes true = .ok ↔ s.stopRequested = false ∧ s.controlCount < s.options.maxControlJobs ∧
      s.controlBytes + bytes ≤ s.options.maxControlBytes := by
    simp only [State.admission, JobRunnerOptions.retained, JobRunnerOptions.jobs, State.countOf, State.bytesOf, ↓reduceIte,
      sizeSub_eq hle, Bool.not_true, Bool.false_and, Bool.or_false]
    split_ifs with hstop hlarge hfull
    · simp [hstop]
    · exact iff_of_false (by simp) fun hok => by omega
    · simp only [Bool.or_eq_true, decide_eq_true_eq] at hfull
      exact iff_of_false (by simp) fun hok => by omega
    · simp only [Bool.or_eq_true, decide_eq_true_eq, not_or] at hfull
      exact iff_of_true rfl ⟨by simpa using hstop, by omega, by omega⟩
  rw [State.post]
  cases callback with
  | false => simp
  | true =>
    cases allocated with
    | false => simp
    | true =>
      simp only [Bool.not_true, Bool.false_eq_true, ↓reduceIte, true_and]
      rw [← hadmission]
      cases ha : s.admission bytes true <;> simp

lemma post_refused (callback allocated : Bool) {bytes : ℕ} {control : Bool} (ha : s.admission bytes control = .closed) :
    (s.post callback allocated bytes control).1 ≠ .ok ∧ (s.post callback allocated bytes control).2 = s := by
  rw [State.post, ha]
  split_ifs
  · exact ⟨by simp, rfl⟩
  · exact ⟨by simp, rfl⟩
  · exact ⟨by simp, rfl⟩

lemma reserve_refused {allocated : Bool} {bytes : ℕ} (ha : s.admission bytes false = .closed) :
    (s.reserve allocated bytes).1 ≠ .ok ∧ (s.reserve allocated bytes).2 = s := by
  rw [State.reserve, ha]
  split_ifs
  · exact ⟨by simp, rfl⟩
  · exact ⟨by simp, rfl⟩

lemma admission_closed (bytes : ℕ) (h : s.admissionClosed = true) : s.admission bytes false = .closed := by
  simp [State.admission, h]

lemma admission_stopped (bytes : ℕ) (control : Bool) (h : s.stopRequested = true) : s.admission bytes control = .closed := by
  simp [State.admission, h]

lemma postReserved_open {r : ℕ} (hp : (s.reservations.row r).phase = .held) (hs : s.stopRequested = false) :
    s.postReserved r true = (.ok, (s.setReservation r ⟨(s.reservations.row r).bytes, .posted,
      (s.reservations.row r).releases⟩).enqueue (s.reservations.row r).bytes false) := by
  simp [State.postReserved, hp, hs]

lemma postReserved_stopped {r : ℕ} (hp : (s.reservations.row r).phase = .held) (hs : s.stopRequested = true) :
    s.postReserved r true =
      (.closed, s.setReservation r ⟨(s.reservations.row r).bytes, .refused, (s.reservations.row r).releases⟩) := by
  simp [State.postReserved, hp, hs]

lemma postReserved_fails {r : ℕ} {callback : Bool} (hs : s.stopRequested = true) : (s.postReserved r callback).1 ≠ .ok := by
  simp only [State.postReserved, hs, Bool.not_true, Bool.false_eq_true, ↓reduceIte]
  split_ifs <;> simp

lemma take_returns {s' : State} (h : Inv s) {event : Event} (hs : step s event = some s') (hactive : s.consumer ≠ .inactive)
    (hreturned : s'.consumer = .inactive) : s.stopRequested = true ∧ s.queue = [] ∧ s'.started = s'.entered := by
  have hsame (h : s'.consumer = s.consumer) : False := hactive (h.symm.trans hreturned)
  cases event with
  | take =>
    simp only [step, Option.ite_none_right_eq_some] at hs
    obtain ⟨hwaiting, ht⟩ := hs
    rw [State.take] at ht
    split at ht
    · rename_i hq
      simp only [Option.ite_none_right_eq_some] at ht
      obtain rfl := Option.some.inj ht.2
      refine ⟨ht.1, hq, ?_⟩
      have := h.history
      rw [hq, List.append_nil] at this
      exact this
    · obtain rfl := Option.some.inj ht
      cases hreturned
  | finish =>
    simp only [step] at hs
    split at hs
    · obtain rfl := Option.some.inj hs
      cases hreturned
    · cases hs
  | release =>
    simp only [step] at hs
    split at hs
    · obtain rfl := Option.some.inj hs
      cases hreturned
    · cases hs
  | runUntilStopped =>
    simp only [step, Option.ite_none_left_eq_some] at hs
    obtain rfl := Option.some.inj hs.2
    cases hreturned
  | configure options =>
    obtain rfl := Option.some.inj hs
    refine (hsame ?_).elim
    rw [State.configure]
    split_ifs <;> rfl
  | post callback allocated bytes control =>
    obtain rfl := Option.some.inj hs
    refine (hsame ?_).elim
    rw [State.post]
    split_ifs
    · rfl
    · rfl
    · cases s.admission bytes control with
      | ok => cases control <;> rfl
      | _ => rfl
  | reserve allocated bytes =>
    obtain rfl := Option.some.inj hs
    refine (hsame ?_).elim
    rw [State.reserve]
    split_ifs
    · rfl
    · cases s.admission bytes false with
      | _ => rfl
  | postReserved r callback =>
    obtain ⟨-, rfl⟩ := of_guard hs
    refine (hsame ?_).elim
    simp only [State.postReserved]
    split_ifs <;> rfl
  | dropReservation r =>
    obtain ⟨-, rfl⟩ := of_guard hs
    exact (hsame rfl).elim
  | dropRefused r =>
    obtain ⟨-, rfl⟩ := of_guard hs
    exact (hsame rfl).elim
  | closeAdmission =>
    obtain rfl := Option.some.inj hs
    exact (hsame rfl).elim
  | requestStop =>
    obtain rfl := Option.some.inj hs
    exact (hsame rfl).elim

end Answers

/-- The order of the jobs, the accounts of both budgets, and what the two stages of closing leave possible. -/
theorem jobs_run_once_within_budgets {s : State} (h : Reachable step Initial s) :
    (s.started ++ s.queue = s.entered ∧ s.entered.map QueuedJob.id = List.range s.entered.length) ∧
    (∀ event s', step s event = some s' → s.consumer ≠ .inactive → s'.consumer = .inactive →
      s.stopRequested = true ∧ s.queue = [] ∧ s'.started = s'.entered) ∧
    (s.count = laneCount false s.queue + laneCount false s.consumer.jobs + s.reservations.total heldCount ∧
      s.bytes = laneBytes false s.queue + laneBytes false s.consumer.jobs + s.reservations.total heldBytes ∧
      s.controlCount = laneCount true s.queue + laneCount true s.consumer.jobs ∧
      s.controlBytes = laneBytes true s.queue + laneBytes true s.consumer.jobs) ∧
    (s.count ≤ s.options.maxOutstandingJobs ∧ s.bytes ≤ s.options.maxRetainedBytes ∧
      s.controlCount ≤ s.options.maxControlJobs ∧ s.controlBytes ≤ s.options.maxControlBytes) ∧
    (s.admissionClosed = true → ∀ s', Steps step s s' → s'.admissionClosed = true ∧ ∀ callback allocated bytes,
      ((s'.post callback allocated bytes false).1 ≠ .ok ∧ (s'.post callback allocated bytes false).2 = s') ∧
      (s'.reserve allocated bytes).1 ≠ .ok ∧ (s'.reserve allocated bytes).2 = s') ∧
    (∀ callback allocated bytes, (s.post callback allocated bytes true).1 = .ok ↔ callback = true ∧ allocated = true ∧
      s.stopRequested = false ∧ s.controlCount < s.options.maxControlJobs ∧ s.controlBytes + bytes ≤ s.options.maxControlBytes) ∧
    (∀ r, (s.reservations.row r).phase = .held → s.stopRequested = false → (s.postReserved r true).1 = .ok ∧
      (s.postReserved r true).2.queue = s.queue ++ [⟨s.entered.length, (s.reservations.row r).bytes, false⟩]) ∧
    (s.stopRequested = true → ∀ s', Steps step s s' → s'.stopRequested = true ∧ ∀ callback allocated bytes control r,
      (s'.post callback allocated bytes control).1 ≠ .ok ∧ (s'.post callback allocated bytes control).2 = s' ∧
      (s'.postReserved r callback).1 ≠ .ok) ∧
    (∀ r, (s.reservations.row r).phase = .held → s.stopRequested = true → (s.postReserved r true).1 = .closed ∧
      (s.postReserved r true).2 = s.setReservation r ⟨(s.reservations.row r).bytes, .refused, (s.reservations.row r).releases⟩) ∧
    ∀ r < s.reservations.count,
      ((s.reservations.row r).releases = if (s.reservations.row r).phase = .dropped then 1 else 0) ∧
      ((s.reservations.row r).phase = .refused → step s (.dropRefused r) = some (s.dropReservation r) ∧
        ∀ s', Steps step s s' → (s'.reservations.row r).phase = .refused ∨ (s'.reservations.row r).phase = .dropped) ∧
      ((s.reservations.row r).phase = .dropped ∨ (s.reservations.row r).phase = .posted →
        ∀ s', Steps step s s' → s'.reservations.row r = s.reservations.row r) := by
  have hinv := inv_of_reachable h
  refine ⟨⟨hinv.history, hinv.ids⟩, fun event s' hs => take_returns hinv hs, ⟨?_, ?_, ?_, ?_⟩, ⟨?_, ?_, ?_, ?_⟩, ?_, ?_, ?_, ?_, ?_, ?_⟩
  · exact hinv.accounts.count_eq false
  · exact hinv.accounts.bytes_eq false
  · exact hinv.accounts.count_eq true
  · exact hinv.accounts.bytes_eq true
  · exact hinv.accounts.count_le false
  · exact hinv.accounts.bytes_le false
  · exact hinv.accounts.count_le true
  · exact hinv.accounts.bytes_le true
  · intro hclosed s' hsteps
    have hclosed' := (steps_later hsteps).closed hclosed
    exact ⟨hclosed', fun callback allocated bytes =>
      ⟨post_refused callback allocated (admission_closed bytes hclosed'), reserve_refused (admission_closed bytes hclosed')⟩⟩
  · intro callback allocated bytes
    exact post_control_iff hinv
  · intro r hp hs
    rw [postReserved_open hp hs]
    exact ⟨rfl, rfl⟩
  · intro hstop s' hsteps
    have hstop' := (steps_later hsteps).stopped hstop
    refine ⟨hstop', fun callback allocated bytes control r => ?_⟩
    have hrefused := post_refused callback allocated (admission_stopped bytes control hstop')
    exact ⟨hrefused.1, hrefused.2, postReserved_fails hstop'⟩
  · intro r hp hs
    rw [postReserved_stopped hp hs]
    exact ⟨rfl, rfl⟩
  · intro r hr
    refine ⟨hinv.releases r hr, fun hp => ⟨if_pos ⟨hr, hp⟩, fun s' hsteps => (steps_later hsteps).refused r hr hp⟩, ?_⟩
    rintro (hp | hp) s' hsteps
    · exact (steps_later hsteps).dropped r hr hp
    · exact (steps_later hsteps).posted r hr hp

theorem empty_callback_keeps_the_charge : ∃ s : State, Reachable step Initial s ∧ s.stopRequested = true ∧
    (s.reservations.row 0).phase = .held ∧ (s.postReserved 0 false).1 = .invalidArgument ∧ (s.postReserved 0 false).2 = s ∧
    s.count = 1 ∧ (s.reservations.row 0).releases = 0 := by
  have hsteps : Steps step ({} : State) _ := ⟨[.reserve true 5, .requestStop], rfl⟩
  exact ⟨_, ⟨_, rfl, hsteps⟩, rfl, rfl, rfl, rfl, rfl, rfl⟩

theorem stopped_runner_gives_back : ∃ s : State, s.stopRequested = true ∧ s.count = 1 ∧
    s.started.map QueuedJob.id = [0, 1] ∧ s.started ++ s.queue = s.entered ∧
    step s (.dropRefused 1) = some (s.dropReservation 1) ∧ (s.dropReservation 1).count = 0 := by
  have hsteps : Steps step ({} : State) _ := ⟨[.reserve true 5, .reserve true 6, .runUntilStopped, .closeAdmission,
    .post true true 1 true, .postReserved 0 true, .requestStop, .postReserved 1 true, .take, .finish, .release, .take, .finish,
    .release], rfl⟩
  obtain ⟨⟨hhistory, -⟩, -, -, -, -, -, -, -, -, hreservations⟩ := jobs_run_once_within_budgets ⟨_, rfl, hsteps⟩
  exact ⟨_, rfl, rfl, rfl, hhistory, ((hreservations 1 (by decide)).2.1 rfl).1, rfl⟩

end ServerCore.Runtime.JobRunner
