import ServerCore.Runtime.SessionLifecycleRuns

/-! Every session is finalized once, and its end is reported once, after its beginning and with the first
reason that was recorded. -/

namespace ServerCore.Runtime.SessionLifecycle

open ServerCore.Core ServerCore.Foundations

def Quiescent (s : State) : Prop := (∀ i < s.threads.count, s.threads.row i = .finished) ∧ s.shared.jobs = []

instance (s : State) : Decidable (Quiescent s) := inferInstanceAs (Decidable (_ ∧ _))

def Place.inSend : Place → Bool
  | entering .send | operating .send _ | connection .send _ | leaving .send _ => true
  | _ => false

variable {s : State}

lemma rank_le_of_steps {s' : State} (h : Reachable step Initial s) (hs : Steps step s s') :
    s.shared.sessionState.rank ≤ s'.shared.sessionState.rank := by
  have hkept : Inv s' ∧ s.shared.sessionState.rank ≤ s'.shared.sessionState.rank := by
    apply hs.invariant (P := fun t => Inv t ∧ s.shared.sessionState.rank ≤ t.shared.sessionState.rank)
    · exact ⟨Reachable.inv h, le_rfl⟩
    · rintro t e t' ⟨hinv, hle⟩ ht
      obtain ⟨hinv', hlater⟩ := inv_step hinv ht
      exact ⟨hinv', hle.trans hlater.rank⟩
  exact hkept.2

namespace Inv

lemma finalized_of_quiescent (h : Inv s) (hq : Quiescent s) (hc : s.shared.sessionState = .closed) :
    s.shared.finalized = true := by
  have hnone : ∀ i < s.threads.count, (s.threads.row i).holds = 0 ∧ (s.threads.row i).leadsToClaim = false := by
    intro i hi
    rw [hq.1 i hi]
    exact ⟨rfl, rfl⟩
  rcases h.pending hc with hf | hd | hj | ⟨i, hi, hl⟩
  · exact hf
  · have hdepth := h.accounts.deferred hd
    rw [h.accounts.depth] at hdepth
    obtain ⟨i, hi, hne⟩ := row_of_total hdepth
    exact absurd (hnone i hi).1 hne
  · simp [hq.2] at hj
  · simp [(hnone i hi).2] at hl

lemma total_of_quiescent (hq : Quiescent s) {f : Place → ℕ} (hf : f .finished = 0) : s.threads.total f = 0 :=
  Finset.sum_eq_zero fun i hi => by rw [hq.1 i (Finset.mem_range.mp hi), hf]

lemma returned_of_quiescent (h : Inv s) (hq : Quiescent s) (hc : s.shared.sessionState = .closed) :
    s.shared.claims = 1 ∧ s.shared.returns = 1 ∧ s.shared.closedWith.length = s.shared.openedBegun.toNat := by
  have hf := h.finalized_of_quiescent hq hc
  have hclaims := h.accounts.claims
  have hreturns := h.accounts.returns
  have hnotes := h.accounts.notifications
  rw [total_of_quiescent hq rfl, hf, Bool.toNat_true, Nat.zero_add] at hreturns
  rw [total_of_quiescent hq rfl, hreturns, Nat.zero_add] at hnotes
  rw [hf] at hclaims
  refine ⟨hclaims, hreturns, ?_⟩
  simpa using hnotes

lemma unlisted (h : Inv s) (hr : s.shared.returns = 1) : s.shared.registry = ⟨false, false⟩ := by
  have hreturns := h.accounts.returns
  have hle := Bool.toNat_le s.shared.finalized
  have hun := total_le Place.unlists_le_claimed s.threads
  have hf : s.shared.finalized = true := by
    cases hf : s.shared.finalized with
    | true => rfl
    | false =>
      rw [hf] at hreturns
      simp only [Bool.toNat_false] at hreturns
      omega
  rw [h.accounts.registry, if_pos ⟨hf, by omega⟩]

lemma opened_of_closed (h : Inv s) (hc : s.shared.closedWith ≠ []) :
    s.shared.openedBegun = true ∧ s.shared.openedReturned = true := by
  have hnotes := h.accounts.notifications
  have hpos := List.length_pos_iff.mpr hc
  have hb : (s.shared.openedBegun && decide (s.shared.returns = 1)) = true := by
    cases hb : (s.shared.openedBegun && decide (s.shared.returns = 1)) with
    | true => rfl
    | false =>
      rw [hb] at hnotes
      simp only [Bool.toNat_false] at hnotes
      omega
  simp only [Bool.and_eq_true, decide_eq_true_eq] at hb
  have hreturns := h.accounts.returns
  have hf : s.shared.finalized = true := by
    cases hf : s.shared.finalized with
    | true => rfl
    | false =>
      rw [hf] at hreturns
      simp only [Bool.toNat_false] at hreturns
      omega
  exact ⟨hb.1, h.accounts.ordered hf hb.1⟩

lemma alone (h : Inv s) {i : ℕ} (hi : i < s.threads.count) (hfall : (s.threads.row i).fallsBack = true) {j : ℕ}
    (hj : j < s.threads.count) : (s.threads.row j).holds = 0 := by
  obtain ⟨-, hdepth⟩ := (h.placed i hi).fallsBack hfall
  have hle := Table.le_total hj Place.holds
  rw [← h.accounts.depth, hdepth] at hle
  exact Nat.le_zero.mp hle

end Inv

/-- The life of a session: the state only moves forward; the finalization takes effect once, gives the slot
and the count back once and leaves the id neither issued nor registered; `OnSessionClosed` comes once, if
`OnSessionOpened` was begun and after it returned; from the fallback it comes while no handler, no
notification and no call that may touch the connection is under way; and it carries the first reason. -/
theorem finalized_once (h : Reachable step Initial s) :
    (∀ s', Steps step s s' → s.shared.sessionState.rank ≤ s'.shared.sessionState.rank) ∧
    (s.shared.claims ≤ 1 ∧ s.shared.returns ≤ s.shared.claims ∧
      s.shared.outstandingSessions + s.shared.returns = s.shared.others + 1 ∧
      (s.shared.returns = 1 → s.shared.slot = false ∧ s.shared.registry = ⟨false, false⟩)) ∧
    (Quiescent s → s.shared.sessionState = .closed → s.shared.claims = 1 ∧ s.shared.returns = 1) ∧
    (s.shared.closedWith.length ≤ 1 ∧
      (s.shared.closedWith ≠ [] → s.shared.openedBegun = true ∧ s.shared.openedReturned = true) ∧
      (Quiescent s → s.shared.sessionState = .closed →
        (s.shared.closedWith.length = 1 ↔ s.shared.openedBegun = true))) ∧
    (∀ i < s.threads.count, ∀ reason, s.threads.row i = .delivering .fallback reason → ∀ j < s.threads.count,
      s.threads.row j ≠ .handling ∧ s.threads.row j ≠ .authenticated ∧ s.threads.row j ≠ .observing ∧
      (∀ operation, s.threads.row j ≠ .operating operation true ∧ s.threads.row j ≠ .leaving operation true) ∧
      ∀ operation active, s.threads.row j ≠ .connection operation active) ∧
    (∀ reason ∈ s.shared.closedWith, s.shared.firstReason = some reason) := by
  have hinv := Reachable.inv h
  have hclaims := hinv.accounts.claims
  have hreturns := hinv.accounts.returns
  have hle := Bool.toNat_le s.shared.finalized
  have hnotes := hinv.accounts.notifications
  have hle' := Bool.toNat_le (s.shared.openedBegun && decide (s.shared.returns = 1))
  refine ⟨fun s' hs => rank_le_of_steps h hs, ⟨by omega, by omega, hinv.accounts.outstanding, fun hr => ⟨?_, ?_⟩⟩,
    fun hq hc => ?_, ⟨by omega, hinv.opened_of_closed, fun hq hc => ?_⟩, ?_, hinv.accounts.reported⟩
  · rw [hinv.accounts.slot, hr]
    rfl
  · exact hinv.unlisted hr
  · obtain ⟨h₁, h₂, -⟩ := hinv.returned_of_quiescent hq hc
    exact ⟨h₁, h₂⟩
  · obtain ⟨-, -, hlen⟩ := hinv.returned_of_quiescent hq hc
    rw [hlen]
    cases s.shared.openedBegun <;> simp
  · intro i hi reason hrow j hj
    have hzero := hinv.alone hi (by rw [hrow]; rfl) hj
    have hstray := (hinv.placed j hj).strays
    refine ⟨?_, ?_, ?_, fun operation => ⟨?_, ?_⟩, fun operation active => ?_⟩
    · rintro heq
      simp [heq, Place.holds] at hzero
    · rintro heq
      simp [heq, Place.holds] at hzero
    · rintro heq
      simp [heq, Place.holds] at hzero
    · rintro heq
      simp [heq, Place.holds] at hzero
    · rintro heq
      simp [heq, Place.holds] at hzero
    · rintro heq
      cases active with
      | true => simp [heq, Place.holds] at hzero
      | false => simp [heq, Place.strays] at hstray

-- A session is opened, the peer is gone while its handler runs, the post of the finalizer fails and the
-- end of the handler finalizes: `OnSessionClosed` is the next event of thread 2.
def droppedWhileHandling : List Event :=
  [.advance 0 {}, .runJob, .advance 1 {}, .advance 1 {}, .runnerReturns, .postReceive, .runJob, .advance 2 {},
    .disconnect ⟨.closed, ""⟩, .advance 3 {}, .advance 3 { flag := false }, .advance 3 {}, .advance 2 {}, .advance 2 {},
    .advance 2 {}, .advance 2 {}]

theorem finalized_once_droppedWhileHandling :
    ∃ s, run step (start 4) (droppedWhileHandling ++ [.advance 2 {}, .advance 2 {}]) = some s ∧ Quiescent s ∧
      s.shared.closedWith.length = 1 ∧ s.shared.claims = 1 ∧ s.shared.returns = 1 := by
  refine ⟨_, rfl, by decide, ?_, ?_⟩
  · exact ((finalized_once ⟨start 4, ⟨4, rfl⟩, droppedWhileHandling ++ [.advance 2 {}, .advance 2 {}], rfl⟩).2.2.2.1.2.2
      (by decide) rfl).mpr rfl
  · exact (finalized_once ⟨start 4, ⟨4, rfl⟩, droppedWhileHandling ++ [.advance 2 {}, .advance 2 {}], rfl⟩).2.2.1 (by decide) rfl

/-- A `Send` may enter between the claim of the fallback and its `OnSessionClosed`. -/
theorem closed_while_in_send :
    ¬ ∀ s, Reachable step Initial s → ∀ i < s.threads.count, ∀ reason, s.threads.row i = .delivering .fallback reason →
      ∀ j < s.threads.count, (s.threads.row j).inSend = false := by
  intro h
  have := h _ ⟨start 0, ⟨0, rfl⟩, droppedWhileHandling ++ [.call (.operation .send), .advance 4 {}, .advance 2 {}], rfl⟩ 2
    (by decide) ⟨.closed, ""⟩ rfl 4
    (by decide)
  revert this
  decide

end ServerCore.Runtime.SessionLifecycle
