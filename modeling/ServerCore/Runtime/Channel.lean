import ServerCore.Runtime.BoundedChannelRuns
import ServerCore.Runtime.LatestValueRuns

/-! Neither channel loses a value or a wake-up. -/

namespace ServerCore.Runtime.Channel

open ServerCore.Core ServerCore.Foundations

variable {α : Type*}

/-- Values are received in the order they were sent, and a subscription or a thread that waits is not forgotten;
a latest value is read by whoever has seen an older one. -/
theorem channels_lose_nothing :
    (∀ s : BoundedChannel.State α, Reachable BoundedChannel.step BoundedChannel.Initial s →
      s.channel.received ++ s.channel.queue.map BoundedChannel.Entry.value = s.channel.sent ∧
      s.channel.bytes = (s.channel.queue.map BoundedChannel.Entry.bytes).sum ∧
      s.channel.bytes ≤ s.channel.options.maxRetainedBytes ∧ s.channel.queue.length ≤ s.channel.options.maxMessages ∧
      (∀ i, s.channel.read = some i → (s.channel.row i).isPending = true → s.channel.closed = false ∧ s.channel.queue = []) ∧
      (∀ i, s.channel.write = some i → (s.channel.row i).isPending = true →
        s.channel.closed = false ∧ s.channel.canSend (s.channel.row i).request.bytes = false) ∧
      (∀ i < s.channel.subscriptions.count, (s.channel.row i).isPending = true →
        (s.channel.read = some i ∨ s.channel.write = some i) ∨ Held s.threads i) ∧
      (∀ t, s.threads t = .waiting () → s.channel.closed = true ∨ s.channel.queue ≠ [] → Notifying s.threads) ∧
      (s.channel.closed = true → ∀ t, (s.threads t).free = true → ∃ s', Steps BoundedChannel.step s s' ∧
        s'.channel.closed = true ∧ s'.channel.sent = s.channel.sent ∧ s'.channel.received = s.channel.sent)) ∧
    ∀ s : LatestValue.State α, Reachable LatestValue.step LatestValue.Initial s →
      s.latest.version = s.latest.published.length ∧ s.latest.value = s.latest.published.getLast? ∧
      (∀ event s', LatestValue.step s event = some s' → LatestValue.Publishes s.latest s'.latest) ∧
      (∀ watchers, s.latest.watchers = some watchers → ∀ i ∈ watchers, s.latest.isPending i = true →
        s.latest.closed = false ∧ (s.latest.subscriptions.row i).request = s.latest.version) ∧
      (∀ i < s.latest.subscriptions.count, s.latest.isPending i = true →
        (∃ watchers, s.latest.watchers = some watchers ∧ i ∈ watchers) ∨ Held s.threads i) ∧
      (∀ t version, s.threads t = .waiting version → s.latest.closed = true ∨ s.latest.version ≠ version →
        Notifying s.threads) ∧
      (∀ version snapshot, s.latest.readAfter version = .ok snapshot ↔
        version < s.latest.version ∧ snapshot = s.latest.current) ∧
      ∀ p ∈ s.latest.observed, p.1 < p.2.version ∧ p.2.value = s.latest.published[p.2.version - 1]? ∧ p.2.value ≠ none := by
  constructor
  · intro s h
    obtain ⟨hsound, hwatched⟩ := BoundedChannel.inv_of_reachable h
    refine ⟨hsound.history, hsound.bytes_eq, hsound.bytes_le, hsound.length_le, fun i hi => (hsound.reading i hi).2.2,
      fun i hi hp => ?_, fun i hi hp => hwatched.pending i ⟨hi, hp⟩, fun t ht hready => ?_, fun hclosed t hfree => ?_⟩
    · obtain ⟨hbytes, hopen, hfull⟩ := (hsound.writing i hi).2.2 hp
      exact ⟨hopen, by rw [hbytes, hfull]⟩
    · refine hwatched.waiting t () ht ?_
      simpa [BoundedChannel.Channel.view, BoundedChannel.Channel.available] using hready
    · obtain ⟨s', hsteps, -, hclosed', hsent, hreceived⟩ := BoundedChannel.drains hfree
      exact ⟨s', hsteps, hclosed'.trans hclosed, hsent, hreceived.trans hsound.history⟩
  · intro s h
    obtain ⟨hsound, hwatched⟩ := LatestValue.inv_of_reachable h
    refine ⟨hsound.version_eq, hsound.value_eq, fun event s' => LatestValue.step_publishes, fun watchers hw i hi hp => ?_,
      fun i hi hp => hwatched.pending i ⟨hi, hp⟩, fun t version ht hready => ?_, fun version snapshot => LatestValue.readAfter_iff,
      hsound.observed⟩
    · refine ⟨?_, ((hsound.watching watchers hw).2 i hi).2 hp⟩
      rw [Bool.eq_false_iff]
      intro hclosed
      rw [hsound.watchers_none.mpr hclosed] at hw
      cases hw
    · refine hwatched.waiting t version ht ?_
      simpa [LatestValue.Latest.view, LatestValue.Latest.updated] using hready

theorem future_version_and_late_completion :
    (∃ s : LatestValue.State ℕ, Reachable LatestValue.step LatestValue.Initial s ∧ s.latest.version ≠ 1 ∧
      s.latest.readAfter 1 = .error .invalidArgument) ∧
    ∃ s : BoundedChannel.State ℕ, Reachable BoundedChannel.step BoundedChannel.Initial s ∧
      (s.channel.row 0).isPending = true ∧ (s.channel.row 0).request.writing = false ∧ s.channel.queue ≠ [] := by
  constructor
  · exact ⟨⟨⟨{}, 0, none, 0, false, some [], ⟨0, fun _ => ⟨0, .suppressed⟩⟩, [], []⟩, fun _ => .idle⟩,
      ⟨_, ⟨{}, rfl, rfl⟩, .refl _⟩, by decide, rfl⟩
  · have hsteps : Steps BoundedChannel.step (⟨{ options := {} }, fun _ => .idle⟩ : BoundedChannel.State ℕ) _ :=
      ⟨[(0, .subscribe false 0 none), (1, .trySend (some 7) 1 true)], rfl⟩
    exact ⟨_, ⟨_, ⟨{}, rfl, rfl⟩, hsteps⟩, rfl, rfl, List.cons_ne_nil (⟨7, 1⟩ : BoundedChannel.Entry ℕ) []⟩

theorem closed_channel_still_delivers :
    ∃ s : BoundedChannel.State ℕ, s.channel.closed = true ∧ s.channel.received = [] ∧
      (∃ s', Steps BoundedChannel.step s s' ∧ s'.channel.received = [7]) ∧
      ∃ s : LatestValue.State ℕ, s.latest.version = s.latest.published.length ∧ s.latest.published = [5] := by
  have hsteps : Steps BoundedChannel.step (⟨{ options := {} }, fun _ => .idle⟩ : BoundedChannel.State ℕ) _ :=
    ⟨[(0, .subscribe false 0 none), (1, .trySend (some 7) 1 true), (2, .close)], rfl⟩
  have hpublish : Steps LatestValue.step (⟨{ options := {} }, fun _ => .idle⟩ : LatestValue.State ℕ) _ :=
    ⟨[(0, .publish (some 5) 1 true)], rfl⟩
  obtain ⟨-, -, -, -, -, -, -, -, hdrain⟩ := channels_lose_nothing.1 _ ⟨_, ⟨{}, rfl, rfl⟩, hsteps⟩
  obtain ⟨hversion, -⟩ := channels_lose_nothing.2 _ ⟨_, ⟨{}, rfl, rfl⟩, hpublish⟩
  obtain ⟨s', hsteps', -, -, hreceived⟩ := hdrain rfl 5 rfl
  exact ⟨_, rfl, rfl, ⟨s', hsteps', hreceived⟩, _, hversion, rfl⟩

end ServerCore.Runtime.Channel
