import ServerCore.Web.HttpPeerShape

/-! A connection stands in the queue of the progress thread at most once. -/

namespace ServerCore.Web.HttpPeer

open ServerCore.Core ServerCore.Foundations HttpParser State

variable {o : HttpServerOptions} {s s' : State}

section Desk

variable {next : Next} {choice : Choice}

namespace State

def desk (s : State) : (ℕ → EventThread) × Bool × Bool × Bool × ℕ × ℕ :=
  (s.threads, s.stopping, s.starting, s.progressQueued, s.queue, s.batch)

@[simp] lemma setThread_threads (s : State) (t : ℕ) (thread : EventThread) :
    (s.setThread t thread).threads = Function.update s.threads t thread := rfl

lemma pauseReceive_desk (s : State) : s.pauseReceive.desk = s.desk := by
  rw [pauseReceive]
  split <;> rfl

lemma resumeReceive_desk (s : State) : s.resumeReceive.desk = s.desk := by
  rw [resumeReceive]
  split <;> rfl

lemma respond_desk (s : State) (answer : Answer) : (s.respond answer).desk = s.desk := by
  rw [respond]
  split_ifs <;> rfl

lemma respondAndResume_desk (s : State) (answer : Answer) : (s.respondAndResume answer).1.desk = s.desk := by
  rw [respondAndResume]
  split
  · exact respond_desk s answer
  · exact (resumeReceive_desk _).trans (respond_desk s answer)

lemma dispatchRequest_desk (s : State) (sent : Bool) : (s.dispatchRequest sent).desk = s.desk := by
  simp only [dispatchRequest]
  split_ifs <;> rfl

lemma handleRequest_desk (s : State) (handled : Handled) : (s.handleRequest handled).desk = s.desk := by
  cases handled with
  | responded answer => exact respond_desk s answer
  | dispatched sent => exact dispatchRequest_desk s sent
  | upgraded => exact resumeReceive_desk _
  | _ => rfl

lemma beforeParse_desk (s : State) : s.beforeParse.1.desk = s.desk := by
  rw [beforeParse]
  split <;> rfl

lemma resolvePolicy_desk {decision : Decision} {goes : Bool} (h : s.resolvePolicy choice decision = some (s', goes)) :
    s'.desk = s.desk := by
  cases decision with
  | rejected =>
    simp only [resolvePolicy, Option.ite_none_left_eq_some, Option.some.injEq] at h
    exact (congrArg (fun r => r.1.desk) h.2).symm.trans (respondAndResume_desk _ _)
  | allowed =>
    simp only [resolvePolicy] at h
    split at h
    · exact (congrArg (fun r => r.1.desk) (Option.some.inj h)).symm
    rw [Option.ite_none_left_eq_some] at h
    obtain ⟨-, h⟩ := h
    split at h <;> refine (congrArg (fun r => r.1.desk) (Option.some.inj h)).symm.trans ?_
    · exact respondAndResume_desk _ _
    · rfl
    · exact handleRequest_desk _ _
  | _ => exact (congrArg (fun r => r.1.desk) (Option.some.inj h)).symm

lemma turn_desk (h : s.turn choice = some (s', next)) : s'.desk = s.desk := by
  rw [turn] at h
  split at h
  · exact (congrArg (fun r => r.1.desk) (Option.some.inj h)).symm
  split at h
  · simp only [Option.map_eq_some_iff, Prod.exists, Prod.mk.injEq] at h
    obtain ⟨s₁, goes, hr, rfl, -⟩ := h
    exact resolvePolicy_desk hr
  · split at h <;> try split at h
    all_goals try split at h
    all_goals refine (congrArg (fun r => r.1.desk) (Option.some.inj h)).symm.trans ?_
    all_goals first | rfl | exact beforeParse_desk _ | exact (beforeParse_desk _).trans (resumeReceive_desk _)

lemma setCredit_desk (s : State) (credit : ℕ) : (s.setCredit o credit).desk = s.desk := by
  rw [setCredit]
  split
  · exact pauseReceive_desk s
  · exact resumeReceive_desk _

lemma push_desk (s : State) (bytes : Bytes) : (s.push bytes).1.desk = s.desk := by
  rw [push]
  repeat' split
  all_goals rfl

lemma takeHeaders_desk (s : State) (choice : Choice) : (s.takeHeaders o choice).1.desk = s.desk := by
  simp only [takeHeaders]
  split_ifs
  all_goals first | rfl | exact respond_desk _ _

lemma afterParse_desk (s : State) (output : HttpRequest) (kind : HttpParseKind) :
    (s.afterParse o choice output kind).1.desk = s.desk := by
  cases kind with
  | needMore =>
    simp only [afterParse]
    split <;> rfl
  | error =>
    simp only [afterParse]
    split
    · rw [cancelActive]
      split <;> rfl
    · exact respond_desk _ _
  | continue100 =>
    simp only [afterParse]
    split <;> rfl
  | headers => exact takeHeaders_desk s choice
  | body => exact push_desk s _
  | complete =>
    simp only [afterParse, takeComplete]
    split <;> rfl

lemma advance_desk {point : Point} (h : s.advance o choice point = some (s', next)) : s'.desk = s.desk := by
  cases point with
  | top => exact turn_desk h
  | retained | pieces retained =>
    simp only [advance, Option.map_eq_some_iff, Prod.mk.injEq] at h
    obtain ⟨b, -, rfl, -⟩ := h
    rfl
  | credit => exact (congrArg (fun r => r.1.desk) (Option.some.inj h)).symm
  | measured credit =>
    refine (congrArg (fun r => r.1.desk) (Option.some.inj h)).symm.trans ?_
    dsimp only
    split <;> rfl
  | configure credit => exact (congrArg (fun r => r.1.desk) (Option.some.inj h)).symm.trans (setCredit_desk s credit)
  | parse =>
    simp only [advance, Option.map_eq_some_iff, Prod.exists] at h
    obtain ⟨result, c, -, h⟩ := h
    exact (congrArg (fun r => r.1.desk) h).symm.trans (afterParse_desk (s.consumed c) _ _)
  | handle streaming =>
    obtain ⟨-, rfl, -⟩ := of_guard_pair h
    exact handleRequest_desk s _

lemma process_desk (h : s.process o choice = some s') : s'.desk = s.desk := by
  rw [process] at h
  split at h
  · simp only [Option.map_eq_some_iff, Prod.exists] at h
    obtain ⟨s₁, next, ha, rfl⟩ := h
    refine Eq.trans ?_ (advance_desk ha)
    rename_i caller point _
    cases next <;> cases caller <;> rfl
  · cases h

lemma receiveMore_desk (s : State) (answer : Answer) (rest : Bytes) : (s.receiveMore o answer rest).desk = s.desk := by
  simp only [receiveMore]
  split_ifs
  · rfl
  · rfl
  · exact respond_desk _ _
  · rfl

lemma checkPause_desk (s : State) (rest : Bytes) : (s.checkPause o rest).desk = s.desk := by
  simp only [checkPause]
  split_ifs
  · exact pauseReceive_desk _
  · rfl

end State

end Desk

section Ticket

structure Ticket (s : State) : Prop where
  clear : s.progressQueued = false → s.queue = 0 ∧ s.batch = 0 ∧ ∀ t, s.threads t ≠ .queueing
  once : s.queue + s.batch ≤ 1
  alone : ∀ t, s.threads t = .queueing → s.queue + s.batch = 0
  unique : ∀ t t', s.threads t = .queueing → s.threads t' = .queueing → t = t'

lemma Ticket.same (h : Ticket s) (hf : s'.progressQueued = s.progressQueued) (hq : s'.queue = s.queue) (hb : s'.batch = s.batch)
    (ht : ∀ t, s'.threads t = .queueing → s.threads t = .queueing) : Ticket s' := by
  refine ⟨fun hclear => ?_, ?_, fun t hqueueing => ?_, fun t t' hqueueing hqueueing' => ?_⟩
  · rw [hf] at hclear
    obtain ⟨hqueue, hbatch, hnone⟩ := h.clear hclear
    exact ⟨hq.trans hqueue, hb.trans hbatch, fun t => mt (ht t) (hnone t)⟩
  · rw [hq, hb]
    exact h.once
  · rw [hq, hb]
    exact h.alone t (ht t hqueueing)
  · exact h.unique t t' (ht t hqueueing) (ht t' hqueueing')

lemma Ticket.desk (h : Ticket s) (hd : s'.desk = s.desk) : Ticket s' := by
  simp only [State.desk, Prod.mk.injEq] at hd
  obtain ⟨hthreads, -, -, hflag, hqueue, hbatch⟩ := hd
  apply h.same hflag hqueue hbatch
  rw [hthreads]
  exact fun t => id

lemma Ticket.move (h : Ticket s) (t : ℕ) (thread : EventThread) (hthread : thread ≠ .queueing)
    (hd : s'.desk = (s.setThread t thread).desk) : Ticket s' := by
  have hmoved : Ticket (s.setThread t thread) := by
    refine h.same rfl rfl rfl fun t' hqueueing => ?_
    rw [setThread_threads] at hqueueing
    rcases eq_or_ne t' t with rfl | hne
    · rw [Function.update_self] at hqueueing
      exact absurd hqueueing hthread
    · rwa [Function.update_of_ne hne] at hqueueing
  exact hmoved.desk hd

lemma threadStep_ticket {t : ℕ} (h : Ticket s) (hstep : s.threadStep t = some s') : Ticket s' := by
  rw [threadStep] at hstep
  cases ht : s.threads t with
  | idle => simp [ht] at hstep
  | releasing generation =>
    simp only [ht, Option.some.injEq] at hstep
    subst hstep
    exact h.move t .released (by rintro ⟨⟩) rfl
  | released =>
    simp only [ht] at hstep
    split at hstep
    · obtain rfl := Option.some.inj hstep
      exact h.move t .notifying (by rintro ⟨⟩) rfl
    · obtain rfl := Option.some.inj hstep
      exact h.move t .idle (by rintro ⟨⟩) rfl
  | notifying =>
    simp only [ht] at hstep
    split at hstep
    · obtain rfl := Option.some.inj hstep
      exact h.move t .idle (by rintro ⟨⟩) rfl
    rename_i hflag
    obtain ⟨hqueue, hbatch, hnone⟩ := h.clear (Bool.eq_false_iff.mpr hflag)
    obtain rfl := Option.some.inj hstep
    have honly (t' : ℕ) (hqueueing : Function.update s.threads t .queueing t' = .queueing) : t' = t := by
      by_contra hne
      rw [Function.update_of_ne hne] at hqueueing
      exact hnone t' hqueueing
    refine ⟨by rintro ⟨⟩, h.once, fun _ _ => ?_, fun t₁ t₂ h₁ h₂ => (honly t₁ h₁).trans (honly t₂ h₂).symm⟩
    exact (congrArg₂ (· + ·) hqueue hbatch : _)
  | queueing =>
    have hzero := h.alone t ht
    have hothers (t' : ℕ) : Function.update s.threads t .idle t' ≠ .queueing := by
      intro hqueueing
      rcases eq_or_ne t' t with rfl | hne
      · rw [Function.update_self] at hqueueing
        cases hqueueing
      · rw [Function.update_of_ne hne] at hqueueing
        exact hne (h.unique t' t hqueueing ht)
    simp only [ht] at hstep
    split at hstep
    · obtain rfl := Option.some.inj hstep
      obtain ⟨hqueue, hbatch⟩ := Nat.add_eq_zero_iff.mp hzero
      exact ⟨fun _ => ⟨hqueue, hbatch, hothers⟩, h.once, fun t' ht' => absurd ht' (hothers t'),
        fun t' _ ht' => absurd ht' (hothers t')⟩
    · obtain rfl := Option.some.inj hstep
      refine ⟨fun hclear => ?_, ?_, fun t' ht' => absurd ht' (hothers t'), fun t' _ ht' => absurd ht' (hothers t')⟩
      · exact absurd ht ((h.clear hclear).2.2 t)
      · change s.queue + 1 + s.batch ≤ 1
        omega

lemma step_ticket {event : Event} (h : Ticket s) (hstep : step o s event = some s') : Ticket s' := by
  cases event with
  | process choice => exact h.desk (process_desk hstep)
  | receiveMore answer =>
    simp only [step] at hstep
    split at hstep
    · obtain rfl := Option.some.inj hstep
      exact h.desk (receiveMore_desk s _ _)
    · cases hstep
  | checkPause =>
    simp only [step] at hstep
    split at hstep
    · obtain rfl := Option.some.inj hstep
      exact h.desk (checkPause_desk s _)
    · cases hstep
  | deliver =>
    simp only [step] at hstep
    split at hstep
    · obtain rfl := Option.some.inj hstep
      exact h.desk rfl
    · cases hstep
  | takeBatch =>
    obtain ⟨⟨-, hbatch⟩, rfl⟩ := of_guard hstep
    have hsum : 0 + s.queue = s.queue + s.batch := by omega
    refine ⟨fun hclear => ?_, ?_, fun t ht => ?_, h.unique⟩
    · obtain ⟨hqueue, -, hnone⟩ := h.clear hclear
      exact ⟨rfl, hqueue, hnone⟩
    · exact hsum.trans_le h.once
    · exact hsum.trans (h.alone t ht)
  | clearRequest =>
    obtain ⟨⟨-, hbatch⟩, rfl⟩ := of_guard hstep
    have honce := h.once
    have hnone (t : ℕ) : s.threads t ≠ .queueing := by
      intro ht
      have := h.alone t ht
      omega
    refine ⟨fun _ => ⟨?_, ?_, hnone⟩, ?_, fun t ht => absurd ht (hnone t), fun t _ ht => absurd ht (hnone t)⟩
    · change s.queue = 0
      omega
    · change s.batch - 1 = 0
      omega
    · change s.queue + (s.batch - 1) ≤ 1
      omega
  | threadStep t => exact threadStep_ticket h hstep
  | releasePiece t index =>
    simp only [step, Option.ite_none_right_eq_some, releasePiece] at hstep
    obtain ⟨-, hstep⟩ := hstep
    split at hstep
    · cases hstep
    · rename_i b hb
      split at hstep
      · cases hstep
      · obtain rfl := Option.some.inj hstep
        exact h.move t (.releasing b.generation) (by rintro ⟨⟩) rfl
  | resolve t _ | finish t _ | requestProgress t =>
    obtain ⟨-, rfl⟩ := of_guard hstep
    exact h.move t .notifying (by rintro ⟨⟩) rfl
  | releaseStray t =>
    obtain ⟨-, rfl⟩ := of_guard hstep
    exact h.move t .released (by rintro ⟨⟩) rfl
  | finishDisconnect t late =>
    obtain ⟨-, rfl⟩ := of_guard hstep
    exact h.move t _ (by split <;> rintro ⟨⟩) rfl
  | closeConnection | disconnect | drain =>
    obtain rfl := Option.some.inj hstep
    exact h.desk rfl
  | stop =>
    obtain rfl := Option.some.inj hstep
    exact h.same rfl rfl rfl fun t => id
  | lockProgress =>
    obtain ⟨-, rfl⟩ := of_guard hstep
    exact h.same rfl rfl rfl fun t => id
  | _ =>
    obtain ⟨-, rfl⟩ := of_guard hstep
    exact h.desk rfl

lemma ticket_initial (h : Initial o s) : Ticket s := by
  subst h
  exact ⟨fun _ => ⟨rfl, rfl, nofun⟩, Nat.zero_le 1, nofun, nofun⟩

end Ticket

end ServerCore.Web.HttpPeer
