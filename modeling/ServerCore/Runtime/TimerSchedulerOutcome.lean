import ServerCore.Runtime.TimerSchedulerRuns

/-! What `TimerScheduler` promises about its timers. -/

namespace ServerCore.Runtime.TimerScheduler

open ServerCore.Core ServerCore.Foundations

variable {s s' : State} {i : ℕ}

section Retired

structure Rests (t t' : Timer) : Prop where
  retiring : t'.retiring = true
  dispatches : t'.dispatches = t.dispatches
  due : t'.due = t.due
  claims : t'.claims = t.claims

lemma Rests.refl {t : Timer} (h : t.retiring = true) : Rests t t := ⟨h, rfl, rfl, rfl⟩

lemma Rests.trans {t t' t'' : Timer} (h : Rests t t') (h' : Rests t' t'') : Rests t t'' :=
  ⟨h'.retiring, h'.dispatches.trans h.dispatches, h'.due.trans h.due, h'.claims.trans h.claims⟩

lemma Benign.rests {t t' : Timer} (h : Benign t t') (hr : t.retiring = true) : Rests t t' := by
  refine ⟨h.retiring.trans hr, h.dispatches, ?_, h.claims⟩
  rcases h.due with hdue | ⟨-, hnot⟩
  · exact hdue
  · simp [hr] at hnot

lemma rests_set {table : Table Timer} (j : ℕ) {t : Timer} (hr : (table.row i).retiring = true)
    (h : i = j → Rests (table.row i) t) : Rests (table.row i) ((table.set j t).row i) := by
  rw [Table.set_row]
  split_ifs with hij
  · exact h hij
  · exact .refl hr

lemma scan_rests (now : ℤ) (ids : List ℕ) (hi : i ∉ ids) (table : Table Timer) (earliest : Option ℕ) :
    ((scan now ids table earliest).1).row i = table.row i ∧
      ((scan now ids table earliest).1).count = table.count := by
  induction ids generalizing table earliest with
  | nil => exact ⟨rfl, rfl⟩
  | cons j rest ih =>
    rw [List.mem_cons, not_or] at hi
    have hset (t : Timer) (table : Table Timer) : (table.set j t).row i = table.row i := Table.set_row_ne _ _ hi.1
    simp only [scan]
    by_cases h₁ : ((table.row j).cancelled && !(table.row j).signalSent) = true
    · simp only [h₁, ↓reduceIte, hset, Table.set_count, and_self]
    simp only [h₁, Bool.false_eq_true, ↓reduceIte]
    by_cases h₂ : (!(collect now (table.row j)).inFlight &&
        ((collect now (table.row j)).cancelled || (collect now (table.row j)).completionReady)) = true
    · simp only [h₂, ↓reduceIte, hset, Table.set_count, and_self]
    simp only [h₂, Bool.false_eq_true, ↓reduceIte]
    split_ifs
    · have := ih hi.2 (table.set j (collect now (table.row j))) (better (table.set j (collect now (table.row j))) earliest j)
      rwa [hset, Table.set_count] at this
    · have := ih hi.2 (table.set j (collect now (table.row j))) earliest
      rwa [hset, Table.set_count] at this

lemma pass_rests (h : Inv s) (hthread : s.thread = .looping) (hr : (s.timer i).retiring = true) (now : ℤ) :
    (pass s now).timer i = s.timer i ∧ (pass s now).table.count = s.table.count := by
  have hi : i ∉ s.timers := fun hi => by simp [h.unclaimed hi (by simp [hthread])] at hr
  have hscan := scan_rests now s.timers hi s.table none
  have hnone := @scan_none now s.table s.timers none []
  rw [pass]
  by_cases hempty : (s.stopping && s.timers.isEmpty) = true
  · simp only [hempty, ↓reduceIte, and_self]
  simp only [hempty, Bool.false_eq_true, ↓reduceIte]
  generalize scan now s.timers s.table none = r at hscan hnone
  obtain ⟨table, action⟩ := r
  cases action with
  | signal j => exact hscan
  | retire j code => exact hscan
  | none earliest =>
    cases earliest with
    | none => exact hscan
    | some j =>
      simp only
      split_ifs
      · exact hscan
      · obtain ⟨-, pre, post, hids, -⟩ := hnone (e := some j) (by simpa using h.nodup)
          (by simp [Chosen]) rfl
        have hne : i ≠ j := by
          rintro rfl
          rw [List.nil_append] at hids
          exact hi (by simp [hids])
        exact ⟨(Table.set_row_ne _ _ hne).trans hscan.1, hscan.2⟩

lemma step_rests (h : Inv s) {event : Event} (hs : step s event = some s') (hlt : i < s.table.count)
    (hr : (s.timer i).retiring = true) : Rests (s.timer i) (s'.timer i) ∧ i < s'.table.count := by
  have hidle : (s.timer i).inFlight = false := by
    by_contra hf
    simp [((h.rows i hlt).flight (by simpa using hf)).1] at hr
  have hother {j : ℕ} (hf : Thread.Flying s j) : i ≠ j := by
    rintro rfl
    simp [hf.inFlight] at hidle
  have hok := h.thread
  cases event with
  | becomeReady | requestStop =>
    obtain rfl := Option.some.inj hs
    first
    | exact ⟨.refl hr, hlt⟩
    | have hb := cancelTimers_benign s.timers s.table
      exact ⟨(hb.2 i).rests hr, hlt.trans_le hb.1.ge⟩
  | create hasCallback repeatInterval retainedBytes repeatMode due =>
    obtain rfl := Option.some.inj hs
    rw [create]
    split_ifs
    · exact ⟨.refl hr, hlt⟩
    · refine ⟨?_, hlt.trans (Nat.lt_succ_self _)⟩
      simp only [State.timer, Table.push_row, hlt.ne, ↓reduceIte]
      exact .refl hr
  | schedule j =>
    simp only [step] at hs
    split_ifs at hs with hj
    obtain rfl := Option.some.inj hs
    rw [schedule]
    split
    · exact ⟨rests_set j hr fun hij => by subst hij; exact ⟨hr, rfl, rfl, rfl⟩, hlt⟩
    · exact ⟨rests_set j hr fun hij => by subst hij; exact ⟨hr, rfl, rfl, rfl⟩, hlt⟩
  | cancel j =>
    simp only [step] at hs
    split_ifs at hs
    obtain rfl := Option.some.inj hs
    exact ⟨((tableBenign_set (cancel_benign _)).2 i).rests hr, hlt⟩
  | reschedule j due =>
    simp only [step] at hs
    split_ifs at hs
    obtain rfl := Option.some.inj hs
    exact ⟨((tableBenign_set (reschedule_benign _ _ _)).2 i).rests hr, hlt⟩
  | pass now =>
    simp only [step] at hs
    split at hs <;> cases hs
    rename_i hthread
    obtain ⟨hrow, hcount⟩ := pass_rests h hthread hr now
    rw [hrow, hcount]
    exact ⟨.refl hr, hlt⟩
  | signalled =>
    simp only [step] at hs
    split at hs <;> cases hs
    exact ⟨.refl hr, hlt⟩
  | submitOk =>
    simp only [step] at hs
    split at hs <;> cases hs
    rename_i j hthread
    rw [hthread] at hok
    exact ⟨rests_set j hr fun hij => absurd hij (hother hok.1), hlt⟩
  | submitFail created code =>
    simp only [step] at hs
    split at hs
    · rename_i j hthread
      rw [hthread] at hok
      split_ifs at hs
      obtain rfl := Option.some.inj hs
      exact ⟨rests_set j hr fun hij => absurd hij (hother hok.1), hlt⟩
    · cases hs
  | settle now =>
    simp only [step] at hs
    split at hs <;> cases hs
    · rename_i j e hthread
      rw [hthread] at hok
      exact ⟨rests_set j hr fun hij => absurd hij (hother hok.toFlying), hlt⟩
    · rename_i j code hthread
      rw [hthread] at hok
      rw [refuse]
      split_ifs
      · exact ⟨rests_set j hr fun hij => absurd hij (hother hok.1), hlt⟩
      · exact ⟨rests_set j hr fun hij => absurd hij (hother hok.1), hlt⟩
  | observe =>
    simp only [step] at hs
    split at hs <;> cases hs
    exact ⟨.refl hr, hlt⟩
  | complete e code =>
    simp only [step] at hs
    split_ifs at hs
    obtain rfl := Option.some.inj hs
    exact ⟨rests_set _ hr fun hij => by rw [← hij]; exact ⟨hr, rfl, rfl, rfl⟩, hlt⟩
  | deliver e =>
    simp only [step] at hs
    split at hs
    · split_ifs at hs
      obtain rfl := Option.some.inj hs
      rw [deliver]
      simp only
      split_ifs
      · exact ⟨rests_set _ hr fun hij => by rw [← hij]; exact ⟨hr, rfl, rfl, rfl⟩, hlt⟩
      · exact ⟨.refl hr, hlt⟩
    · cases hs
  | retire =>
    simp only [step] at hs
    split at hs <;> cases hs
    exact ⟨rests_set _ hr fun hij => by subst hij; exact ⟨hr, rfl, rfl, rfl⟩, hlt⟩
  | stopped =>
    simp only [step] at hs
    split_ifs at hs
    obtain rfl := Option.some.inj hs
    exact ⟨.refl hr, hlt⟩

lemma steps_rests (h : Inv s) (hs : Steps step s s') (hlt : i < s.table.count) (hr : (s.timer i).retiring = true) :
    Rests (s.timer i) (s'.timer i) := by
  have := hs.invariant (P := fun t => Inv t ∧ Rests (s.timer i) (t.timer i) ∧ i < t.table.count)
    ⟨h, .refl hr, hlt⟩ ?_
  · exact this.2.1
  · rintro t event t' ⟨ht, hrest, hlt'⟩ hstep
    obtain ⟨hrest', hlt''⟩ := step_rests ht hstep hlt' hrest.retiring
    exact ⟨ht.step hstep, hrest.trans hrest', hlt''⟩

end Retired

section Candidates

def Candidate (t : Timer) : Prop := t.inFlight = false ∧ t.cancelled = false ∧ t.completionReady = false

lemma collect_idle {t : Timer} (h : t.inFlight = false) (now : ℤ) : collect now t = t := by
  simp [collect, h]

/-- A round that dispatches takes the first of the earliest due candidates of the list, as the round
finds them behind the completions it has taken in. -/
structure Picks (s : State) (now : ℤ) (i : ℕ) (pre post : List ℕ) : Prop where
  list : s.timers = pre ++ i :: post
  candidate : Candidate (collect now (s.timer i))
  due : (collect now (s.timer i)).due ≤ now
  unsaturated : s.saturatedUntil ≤ now
  before : ∀ j ∈ pre, Candidate (collect now (s.timer j)) → (collect now (s.timer j)).due ≤ now →
    (collect now (s.timer i)).due < (collect now (s.timer j)).due
  behind : ∀ j ∈ post, Candidate (collect now (s.timer j)) → (collect now (s.timer j)).due ≤ now →
    (collect now (s.timer i)).due ≤ (collect now (s.timer j)).due

lemma pass_cases (h : Inv s) (hthread : s.thread = .looping) (now : ℤ) :
    (∀ i, (pass s now).thread = .dispatching i → ∃ pre post, Picks s now i pre post) ∧
    ((pass s now).thread = .looping → ∀ j ∈ s.timers, Candidate (s.timer j) → (s.timer j).due ≤ now →
      now < s.saturatedUntil) := by
  have hnone := @scan_none now s.table s.timers none []
  rw [pass]
  by_cases hempty : (s.stopping && s.timers.isEmpty) = true
  · simp only [hempty, ↓reduceIte]
    exact ⟨by simp, by simp⟩
  simp only [hempty, Bool.false_eq_true, ↓reduceIte]
  generalize scan now s.timers s.table none = r at hnone
  obtain ⟨table, action⟩ := r
  cases action with
  | signal j => exact ⟨by simp, by simp⟩
  | retire j code => exact ⟨by simp, by simp⟩
  | none earliest =>
    obtain ⟨hpassed, hchosen⟩ := hnone (e := earliest) (by simpa using h.nodup) (by simp [Chosen]) rfl
    rw [List.nil_append] at hchosen
    cases earliest with
    | none =>
      refine ⟨fun i hi => ?_, fun _ j hj hc hd => ?_⟩
      · simp [hthread] at hi
      · have hrow := (hpassed.collected j hj).trans (collect_idle hc.1 now)
        exact absurd (by rw [hrow]; exact hd) (hchosen j hj (by rw [hrow]; exact hc.1))
    | some k =>
      simp only
      split_ifs with hsat
      · exact ⟨fun i hi => by simp [hthread] at hi, fun _ _ _ _ _ => hsat⟩
      · refine ⟨fun i hi => ?_, fun hl => by cases hl⟩
        obtain rfl : k = i := by simpa using hi
        obtain ⟨pre, post, hids, hidle, hdue, hpre, hpost⟩ := hchosen
        have hk : k ∈ s.timers := by simp [hids]
        have hrow (j : ℕ) (hj : j ∈ s.timers) : table.row j = collect now (s.timer j) := hpassed.collected j hj
        obtain ⟨hc, hr⟩ := hpassed.idle k hk hidle
        rw [hrow k hk] at hidle hdue hc hr hpre hpost
        refine ⟨pre, post, hids, ⟨hidle, hc, hr⟩, hdue, not_lt.mp hsat, fun j hj hcj hd => ?_, fun j hj hcj hd => ?_⟩
        · have hmem : j ∈ s.timers := by simp [hids, hj]
          have := hpre j hj
          rw [hrow j hmem] at this
          exact this hcj.1 hd
        · have hmem : j ∈ s.timers := by simp [hids, hj]
          have := hpost j hj
          rw [hrow j hmem] at this
          exact this hcj.1 hd

end Candidates

section Contract

/-- A timer has one invocation at a time, is retired without one and for good, is never passed over,
keeps its time when the executor is full, and ends with its cancellation or with the code of its last
invocation or refused submission. -/
theorem timers_never_overlap (s : State) (h : Reachable step Initial s) :
    (∀ i e e', e < s.executor.count → e' < s.executor.count → (s.task e).timer = i → (s.task e').timer = i →
      (s.task e).completed = none → (s.task e').completed = none → e = e') ∧
    (∀ i < s.table.count, (s.timer i).claims ≤ 1 ∧
      ((s.timer i).retiring = true ↔ (s.timer i).claims = 1) ∧
      ((s.timer i).retiring = true →
        (∀ e < s.executor.count, (s.task e).timer = i → (s.task e).completed ≠ none) ∧
        (∀ due, reschedule s.stopping (s.timer i) due = (s.timer i, .closed)) ∧
        ∀ s', Steps step s s' → (s'.timer i).dispatches = (s.timer i).dispatches ∧
          (s'.timer i).due = (s.timer i).due ∧ (s'.timer i).claims = (s.timer i).claims)) ∧
    (s.thread = .looping → ∀ now,
      (∀ i, (pass s now).thread = .dispatching i → ∃ pre post, Picks s now i pre post) ∧
      ((pass s now).thread = .looping → ∀ j ∈ s.timers, Candidate (s.timer j) → (s.timer j).due ≤ now →
        now < s.saturatedUntil)) ∧
    (∀ i now s', s.thread = .refused i .wouldBlock → step s (.settle now) = some s' →
      (s.timer i).dispatchedDue = some (s.timer i).due ∧ (s'.timer i).due = (s.timer i).due ∧
      (s'.timer i).repeatInterval = (s.timer i).repeatInterval ∧
      (s'.timer i).repeatMode = (s.timer i).repeatMode ∧ (s'.timer i).inFlight = false ∧
      (s'.timer i).completionReady = false) ∧
    s.timers.length ≤ s.options.maxTimers ∧ s.retained = (s.timers.map fun i => (s.timer i).retainedBytes).sum ∧
    s.retained ≤ s.options.maxRetainedBytes ∧
    ∀ i < s.table.count, (s.timer i).terminal = true →
      if (s.timer i).cancelledAtClaim then (s.timer i).result = .cancelled
      else (s.timer i).lastCode = some (s.timer i).result := by
  have hinv := Inv.reachable h
  have hlive {e : ℕ} (he : e < s.executor.count) (hn : (s.task e).completed = none) : (s.task e).delivered = false := by
    by_contra hd
    exact hinv.delivered e he (by simpa using hd) hn
  refine ⟨fun i e e' he he' hi hi' hn hn' => ?_, fun i hi => ?_, fun hthread now => pass_cases hinv hthread now,
    fun i now s' hthread hs => ?_, hinv.size, hinv.retained_eq, hinv.retained_le, fun i hi ht => ?_⟩
  · exact hinv.unique i e e' ⟨he, hlive he hn, hi⟩ ⟨he', hlive he' hn', hi'⟩
  · have hrow := hinv.rows i hi
    have hclaims := hrow.claims
    refine ⟨?_, ?_, fun hr => ⟨fun e he hte hn => ?_, fun due => ?_, fun s' hs => ?_⟩⟩
    · rw [hclaims]
      exact Bool.toNat_le _
    · rw [hclaims]
      cases (s.timer i).retiring <;> simp
    · have hf := (hinv.live i e ⟨he, hlive he hn, hte⟩).inFlight
      simp [(hrow.flight hf).1] at hr
    · simp [reschedule, hr]
    · obtain ⟨-, hd, hdue, hc⟩ := steps_rests hinv hs hi hr
      exact ⟨hd, hdue, hc⟩
  · have hok := hinv.thread
    rw [hthread] at hok
    obtain ⟨hf, -⟩ := hok
    obtain ⟨hlt, -⟩ := (hinv.listed i).mp hf.mem
    simp only [step, hthread, refuse, ↓reduceIte, Option.some.injEq] at hs
    subst hs
    refine ⟨((hinv.rows i hlt).flight hf.inFlight).2, ?_⟩
    simp [State.timer, hf.completionReady]
  · have hrow := hinv.rows i hi
    obtain ⟨hr, hresult⟩ := hrow.terminal ht
    rw [Timer.verdict] at hresult
    cases hc : (s.timer i).cancelledAtClaim with
    | true => simpa [hc] using hresult
    | false =>
      obtain ⟨code, hcode⟩ := Option.isSome_iff_exists.mp (hrow.claimed hr hc)
      simp only [hc, Bool.false_eq_true, ↓reduceIte, hcode, Option.getD_some] at hresult ⊢
      rw [hresult]

def fresh : State where
  options := ⟨1, 8⟩
  ready := true
  stopping := false
  table := ⟨0, fun _ => { repeatInterval := 0, retainedBytes := 0, repeatMode := .fixedDelay, due := 0 }⟩
  timers := []
  retained := 0
  saturatedUntil := 0
  executor := ⟨0, fun _ => { timer := 0 }⟩
  thread := .looping

def oneShot : List Event :=
  [.create true 0 5 .fixedDelay 3, .schedule 0, .pass 3, .submitOk, .settle 3, .observe, .complete 0 .timeout,
    .deliver 0, .pass 4, .retire]

theorem timers_never_overlap_one : ∃ s, Reachable step Initial s ∧ (s.timer 0).terminal = true ∧
    (s.timer 0).lastCode = some (s.timer 0).result ∧ (s.timer 0).result = .timeout := by
  have hview : (run step fresh oneShot).map (fun s => (decide (0 < s.table.count), (s.timer 0).terminal,
      (s.timer 0).cancelledAtClaim, (s.timer 0).result)) = some (true, true, false, .timeout) := by
    decide +kernel
  obtain ⟨s, hs, hview⟩ := Option.map_eq_some_iff.mp hview
  simp only [Prod.mk.injEq, decide_eq_true_eq] at hview
  obtain ⟨hcount, ht, hc, hr⟩ := hview
  have hreach : Reachable step Initial s :=
    ⟨fresh, ⟨by decide, rfl, rfl, rfl, rfl, rfl⟩, oneShot, hs⟩
  have hresult := (timers_never_overlap s hreach).2.2.2.2.2.2.2 0 hcount ht
  simp only [hc, Bool.false_eq_true, ↓reduceIte] at hresult
  exact ⟨s, hreach, ht, hresult, hr⟩

end Contract

end ServerCore.Runtime.TimerScheduler
