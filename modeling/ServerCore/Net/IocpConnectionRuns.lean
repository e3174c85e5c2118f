import ServerCore.Net.IocpConnection

/-! What holds in every state of the connection. -/

namespace ServerCore.Net.IocpConnection

open ServerCore.Core ServerCore.Foundations

namespace Shared

structure Ok (s : Shared) : Prop where
  pending : s.pendingOperations = s.receiveInFlight.toNat + s.sendInFlight.toNat
  held : (s.receiving = true → s.receiveInFlight = true) ∧ (s.sending = true → s.sendInFlight = true)
  opened : s.closed = false → s.socket = true ∧ s.closings = [] ∧ s.lingering = false
  lingers : s.lingering = true → s.closed = true ∧ s.socket = true
  closed : s.closed = true → s.closings.head? = some s.closeReason
  apart : s.receiveInFlight = true → s.receiveCallbackActive = false
  queue : s.sendQueue.Ok
  borrowed : s.sendInFlight = true → s.sendQueue.empty = false ∧ s.sendQueue.front = s.borrowed
  notified : s.disconnectNotified = true → s.closed = true ∧ s.lingering = false ∧ s.receiveInFlight = false ∧
    s.sendInFlight = false ∧ s.receiveCallbackActive = false ∧ s.observerAssigned = true
  failed : s.failed = false

structure Receives (s : Shared) : Prop where
  opened : s.started = true → s.receivePaused = false → s.closed = false →
    s.receiveInFlight = true ∨ s.receiveCallbackActive = true
  lingers : s.lingering = true → s.receiveInFlight = true ∨ s.receiveCallbackActive = true

def Sends (s : Shared) : Prop := s.closed = false → s.sendQueue.empty = false → s.sendInFlight = true

def due (s : Shared) : Bool :=
  s.closed && s.pendingOperations = 0 && !s.receiveCallbackActive && s.observerAssigned && !s.disconnectNotified

structure Kept (s s' : Shared) : Prop where
  observer : s'.observer = s.observer
  observerAssigned : s'.observerAssigned = s.observerAssigned
  disconnectNotified : s'.disconnectNotified = s.disconnectNotified
  disconnects : s'.disconnects = s.disconnects
  receiveCallbackActive : s'.receiveCallbackActive = s.receiveCallbackActive
  closings : s.closings <+: s'.closings
  receive : s'.receiveInFlight.toNat + s.receiving.toNat = s.receiveInFlight.toNat + s'.receiving.toNat
  send : s'.sendInFlight.toNat + s.sending.toNat = s.sendInFlight.toNat + s'.sending.toNat
  borrowed : s.sendInFlight = true → s'.borrowed = s.borrowed ∧ s'.sendInFlight = true

variable {s s' s'' : Shared} {c : Choice}

lemma Kept.refl (s : Shared) : Kept s s :=
  ⟨rfl, rfl, rfl, rfl, rfl, List.prefix_rfl, rfl, rfl, fun h => ⟨rfl, h⟩⟩

lemma Kept.trans (h : Kept s s') (h' : Kept s' s'') : Kept s s'' where
  observer := h'.observer.trans h.observer
  observerAssigned := h'.observerAssigned.trans h.observerAssigned
  disconnectNotified := h'.disconnectNotified.trans h.disconnectNotified
  disconnects := h'.disconnects.trans h.disconnects
  receiveCallbackActive := h'.receiveCallbackActive.trans h.receiveCallbackActive
  closings := h.closings.trans h'.closings
  receive := by
    have := h.receive
    have := h'.receive
    omega
  send := by
    have := h.send
    have := h'.send
    omega
  borrowed hs := by
    obtain ⟨hb, hs'⟩ := h.borrowed hs
    obtain ⟨hb', hs''⟩ := h'.borrowed hs'
    exact ⟨hb'.trans hb, hs''⟩

@[simp] lemma check_true (s : Shared) : s.check true = s := by simp [check]

lemma Ok.unnotified (h : s.Ok) (hc : s.closed = false) : s.disconnectNotified = false := by
  refine Bool.eq_false_iff.mpr fun hn => ?_
  rw [(h.notified hn).1] at hc
  cases hc

lemma markClosedLocked_closed (hc : s.closed = true) (reason : Status) :
    s.markClosedLocked reason = { s with closings := s.closings ++ [reason] } := by
  simp [markClosedLocked, hc]

def marked (s : Shared) (reason : Status) : Shared :=
  { s with
    closings := s.closings ++ [reason]
    closed := true
    closeReason := reason
    sendQueue := if s.sendInFlight then s.sendQueue else {} }

lemma markClosedLocked_open (hc : s.closed = false) (reason : Status) : s.markClosedLocked reason = s.marked reason := by
  cases hs : s.sendInFlight with
  | true => simp [markClosedLocked, marked, hc, hs]
  | false => simp [markClosedLocked, marked, hc, hs, discardQueuedSendsLocked, check, SendQueue.clear]

def shut (s : Shared) : Shared := { s with socket := false, lingering := false }

lemma closeSocketLocked_eq (h : s.lingering = true → s.socket = true) : s.closeSocketLocked = s.shut := by
  cases hs : s.socket with
  | true => simp [closeSocketLocked, shut, hs]
  | false =>
    have hl : s.lingering = false := by
      refine Bool.eq_false_iff.mpr fun hl => ?_
      rw [h hl] at hs
      cases hs
    have hsame : s.shut = s := by
      cases s
      cases hs
      cases hl
      rfl
    rw [hsame]
    simp [closeSocketLocked, hs]

lemma Ok.shut (h : s.Ok) (hc : s.closed = true) : s.shut.Ok := by
  refine ⟨h.pending, h.held, fun ho => ?_, nofun, h.closed, h.apart, h.queue, h.borrowed, fun hn => ?_, h.failed⟩
  · have ho' : s.closed = false := ho
    exact absurd (hc.symm.trans ho') nofun
  · obtain ⟨hc, -, hr, hs, ha, ho⟩ := h.notified hn
    exact ⟨hc, rfl, hr, hs, ha, ho⟩

lemma Ok.marked (h : s.Ok) (hc : s.closed = false) (reason : Status) : (s.marked reason).Ok := by
  have hn := h.unnotified hc
  obtain ⟨hs, hcl, hl⟩ := h.opened hc
  refine ⟨h.pending, h.held, nofun, fun hl' => ⟨rfl, (h.lingers hl').2⟩, fun _ => ?_, h.apart, ?_, fun hs => ?_, fun hn' => ?_, h.failed⟩
  · simp [Shared.marked, hcl]
  · unfold Shared.marked
    dsimp only
    split
    · exact h.queue
    · exact .nil
  · have hs' : s.sendInFlight = true := hs
    have hq : (s.marked reason).sendQueue = s.sendQueue := if_pos hs'
    rw [hq]
    exact h.borrowed hs'
  · exact absurd (hn.symm.trans hn') nofun

lemma Ok.closing (h : s.Ok) (hc : s.closed = true) (reason : Status) : Ok { s with closings := s.closings ++ [reason] } := by
  refine ⟨h.pending, h.held, fun ho => ?_, h.lingers, fun _ => ?_, h.apart, h.queue, h.borrowed, h.notified, h.failed⟩
  · have ho' : s.closed = false := ho
    exact absurd (hc.symm.trans ho') nofun
  · have hhead := h.closed hc
    rw [List.head?_append, hhead]
    rfl

lemma close_ok (h : s.Ok) (reason : Status) :
    ((s.markClosedLocked reason).closeSocketLocked).Ok ∧ ((s.markClosedLocked reason).closeSocketLocked).closed = true ∧
      ((s.markClosedLocked reason).closeSocketLocked).lingering = false ∧
      Kept s (s.markClosedLocked reason).closeSocketLocked := by
  cases hc : s.closed with
  | true =>
    have hok := h.closing hc reason
    rw [markClosedLocked_closed hc, closeSocketLocked_eq fun hl => (hok.lingers hl).2]
    exact ⟨hok.shut hc, hc, rfl, rfl, rfl, rfl, rfl, rfl, List.prefix_append _ _, rfl, rfl, fun hs => ⟨rfl, hs⟩⟩
  | false =>
    have hok := h.marked hc reason
    rw [markClosedLocked_open hc, closeSocketLocked_eq fun hl => (hok.lingers hl).2]
    exact ⟨hok.shut rfl, rfl, rfl, rfl, rfl, rfl, rfl, rfl, List.prefix_append _ _, rfl, rfl, fun hs => ⟨rfl, hs⟩⟩

lemma Receives.of_shut (hc : s.closed = true) (hl : s.lingering = false) : s.Receives :=
  ⟨fun _ _ ho => absurd (hc.symm.trans ho) nofun, fun hl' => absurd (hl.symm.trans hl') nofun⟩

lemma Sends.of_closed (hc : s.closed = true) : s.Sends := fun ho => absurd (hc.symm.trans ho) nofun

def submitted (s : Shared) : Shared :=
  { s with receiving := true, receiveInFlight := true, pendingOperations := s.pendingOperations + 1 }

lemma startReceiveLocked_ok (h : s.Ok) (c : Choice) :
    (s.startReceiveLocked c).2.Ok ∧ (s.startReceiveLocked c).2.Receives ∧ Kept s (s.startReceiveLocked c).2 ∧
      (s.Sends → (s.startReceiveLocked c).2.Sends) ∧
      ((s.startReceiveLocked c).1 = true → (s.startReceiveLocked c).2.due = true → s.due = true) := by
  unfold startReceiveLocked
  split
  · rename_i hcond
    simp only [Bool.or_eq_true, Bool.and_eq_true, Bool.not_eq_true'] at hcond
    refine ⟨h, ⟨fun _ _ ho => ?_, fun hl => ?_⟩, .refl s, id, nofun⟩
    · rcases hcond with ⟨hc, -⟩ | hs
      · exact absurd (hc.symm.trans ho) nofun
      · exact absurd (hs.symm.trans (h.opened ho).1) nofun
    · rcases hcond with ⟨-, hl'⟩ | hs
      · exact absurd (hl'.symm.trans hl) nofun
      · exact absurd (hs.symm.trans (h.lingers hl).2) nofun
  rename_i hopen
  split
  · rename_i hcond
    simp only [Bool.or_eq_true, Bool.and_eq_true, Bool.not_eq_true'] at hcond
    refine ⟨h, ⟨fun hs hp _ => ?_, fun hl => absurd (hcond.1.symm.trans hl) nofun⟩, .refl s, id, fun _ hd => hd⟩
    rcases hcond.2 with hs' | hp'
    · exact absurd (hs'.symm.trans hs) nofun
    · exact absurd (hp.symm.trans hp') nofun
  split
  · rename_i hbusy
    simp only [Bool.or_eq_true] at hbusy
    exact ⟨h, ⟨fun _ _ _ => hbusy, fun _ => hbusy⟩, .refl s, id, fun _ hd => hd⟩
  rename_i hidle
  simp only [Bool.or_eq_true, not_or, Bool.not_eq_true] at hidle
  split
  · obtain ⟨hok, hc, hl, hk⟩ := close_ok h (if c.copied then c.failure else .failWithoutMessage .platformError)
    exact ⟨hok, .of_shut hc hl, hk, fun _ => .of_closed hc, nofun⟩
  · have hpend := h.pending
    rw [hidle.1, Bool.toNat_false, Nat.zero_add] at hpend
    refine ⟨⟨?_, ⟨fun _ => rfl, h.held.2⟩, h.opened, h.lingers, h.closed, fun _ => hidle.2, h.queue, h.borrowed, fun hn => ?_, h.failed⟩,
      ⟨fun _ _ _ => .inl rfl, fun _ => .inl rfl⟩,
      ⟨rfl, rfl, rfl, rfl, rfl, List.prefix_rfl, ?_, rfl, fun hs => ⟨rfl, hs⟩⟩, id, fun _ hd => ?_⟩
    · dsimp only
      rw [hpend, Bool.toNat_true]
      omega
    · obtain ⟨hc, hl, -⟩ := h.notified hn
      simp [hc, hl] at hopen
    · have hr : s.receiving = false := by
        refine Bool.eq_false_iff.mpr fun hr => ?_
        exact absurd (hidle.1.symm.trans (h.held.1 hr)) nofun
      dsimp only
      rw [hr, hidle.1]
      rfl
    · simp [due] at hd

lemma startSendLocked_ok (h : s.Ok) (hq : s.sendQueue.empty = false) (hf : s.sendInFlight = false) (c : Choice) :
    (s.startSendLocked c).2.Ok ∧ (s.startSendLocked c).2.Sends ∧ Kept s (s.startSendLocked c).2 ∧
      (s.Receives → (s.startSendLocked c).2.Receives) ∧
      ((s.startSendLocked c).1 = true → (s.startSendLocked c).2.due = true → s.due = true) := by
  unfold startSendLocked
  split
  · rename_i hcond
    simp only [Bool.or_eq_true, Bool.not_eq_true'] at hcond
    refine ⟨h, fun ho => ?_, .refl s, id, nofun⟩
    rcases hcond with hc | hs
    · exact absurd (hc.symm.trans ho) nofun
    · exact absurd (hs.symm.trans (h.opened ho).1) nofun
  rename_i hopen
  simp only [Bool.or_eq_true, Bool.not_eq_true', not_or, Bool.not_eq_true] at hopen
  simp only [hq, hf, Bool.not_false, check_true]
  split
  · obtain ⟨hok, hc, hl, hk⟩ := close_ok h (if c.copied then c.failure else .failWithoutMessage .platformError)
    exact ⟨hok, .of_closed hc, hk, fun _ => .of_shut hc hl, nofun⟩
  · have hpend := h.pending
    have hs : s.sending = false := by
      refine Bool.eq_false_iff.mpr fun hs => ?_
      exact absurd (hf.symm.trans (h.held.2 hs)) nofun
    rw [hf, Bool.toNat_false, Nat.add_zero] at hpend
    refine ⟨⟨?_, ⟨h.held.1, fun _ => rfl⟩, h.opened, h.lingers, h.closed, h.apart, h.queue, fun _ => ⟨hq, rfl⟩, fun hn => ?_,
      h.failed⟩, fun _ _ => rfl, ⟨rfl, rfl, rfl, rfl, rfl, List.prefix_rfl, rfl, ?_, fun hs => ?_⟩,
      fun hr => ⟨hr.opened, hr.lingers⟩, fun _ hd => ?_⟩
    · dsimp only
      rw [hpend, Bool.toNat_true]
    · exact absurd (hopen.1.symm.trans (h.notified hn).1) nofun
    · dsimp only
      rw [hs, hf]
      rfl
    · exact absurd (hf.symm.trans hs) nofun
    · simp [due] at hd

lemma finishCloseAfterSendLocked_ok (h : s.Ok) (hr : s.Receives) (hs : s.Sends) (c : Choice) :
    (s.finishCloseAfterSendLocked c).Ok ∧ (s.finishCloseAfterSendLocked c).Receives ∧
      (s.finishCloseAfterSendLocked c).Sends ∧ Kept s (s.finishCloseAfterSendLocked c) := by
  unfold finishCloseAfterSendLocked
  split
  · exact ⟨h, hr, hs, .refl s⟩
  rename_i hcond
  simp only [Bool.or_eq_true, Bool.not_eq_true', not_or, Bool.not_eq_true, Bool.not_eq_false] at hcond
  obtain ⟨⟨⟨-, hc⟩, hf⟩, -⟩ := hcond
  have hsock := (h.opened hc).1
  have hm := h.marked hc closedStatus
  rw [markClosedLocked_open hc]
  obtain ⟨t, ht⟩ : ∃ t : Shared, t = { s.marked closedStatus with lingering := true } := ⟨_, rfl⟩
  have hok : t.Ok := by
    subst ht
    refine ⟨hm.pending, hm.held, nofun, fun _ => ⟨rfl, hsock⟩, hm.closed, hm.apart, hm.queue, hm.borrowed, fun hn => ?_, hm.failed⟩
    exact absurd ((h.unnotified hc).symm.trans hn) nofun
  have hk : Kept s t := by
    subst ht
    exact ⟨rfl, rfl, rfl, rfl, rfl, List.prefix_append _ _, rfl, rfl, fun hs => ⟨rfl, hs⟩⟩
  have heq : (s.marked closedStatus).closeSocketAfterSendLocked c = (t.startReceiveLocked c).2 := by
    subst ht
    exact if_neg (by simp [marked, hsock])
  obtain ⟨hok', hr', hk', hsends, -⟩ := startReceiveLocked_ok hok c
  rw [heq]
  refine ⟨hok', hr', hsends (.of_closed ?_), hk.trans hk'⟩
  rw [ht]
  rfl

lemma takeReceive_eq (h : s.Ok) (hr : s.receiveInFlight = true) : s.takeReceive =
    { s with receiveInFlight := false, pendingOperations := s.pendingOperations - 1 } := by
  have hp : s.pendingOperations ≠ 0 := by
    rw [h.pending, hr, Bool.toNat_true]
    omega
  simp [takeReceive, hr, check, hp]

lemma takeSend_eq (h : s.Ok) (hs : s.sendInFlight = true) : s.takeSend =
    { s with sendInFlight := false, pendingOperations := s.pendingOperations - 1 } := by
  have hp : s.pendingOperations ≠ 0 := by
    rw [h.pending, hs, Bool.toNat_true]
    omega
  simp [takeSend, check, hp]

lemma Ok.takeReceive (h : s.Ok) (hr : s.receiveInFlight = true) (hk : s.receiving = false) : s.takeReceive.Ok := by
  rw [takeReceive_eq h hr]
  have hpend := h.pending
  rw [hr, Bool.toNat_true] at hpend
  refine ⟨?_, ⟨fun hr' => ?_, h.held.2⟩, h.opened, h.lingers, h.closed, nofun, h.queue, h.borrowed, fun hn => ?_, h.failed⟩
  · dsimp only
    rw [hpend, Bool.toNat_false]
    omega
  · exact absurd (hk.symm.trans hr') nofun
  · exact absurd ((h.notified hn).2.2.1.symm.trans hr) nofun

lemma Ok.takeSend (h : s.Ok) (hs : s.sendInFlight = true) (hk : s.sending = false) : s.takeSend.Ok := by
  rw [takeSend_eq h hs]
  have hpend := h.pending
  rw [hs, Bool.toNat_true] at hpend
  refine ⟨?_, ⟨h.held.1, fun hs' => ?_⟩, h.opened, h.lingers, h.closed, h.apart, h.queue, nofun, fun hn => ?_, h.failed⟩
  · dsimp only
    rw [hpend, Bool.toNat_false]
    omega
  · exact absurd (hk.symm.trans hs') nofun
  · exact absurd ((h.notified hn).2.2.2.1.symm.trans hs) nofun

lemma Ok.closeSocket (h : s.Ok) (hc : s.closed = true) : s.closeSocketLocked.Ok ∧ s.closeSocketLocked.closed = true ∧
    s.closeSocketLocked.lingering = false ∧ Kept s s.closeSocketLocked := by
  rw [closeSocketLocked_eq fun hl => (h.lingers hl).2]
  exact ⟨h.shut hc, hc, rfl, rfl, rfl, rfl, rfl, rfl, List.prefix_rfl, rfl, rfl, fun hs => ⟨rfl, hs⟩⟩

lemma onReceiveCompleted_ok (h : s.Ok) (hs : s.Sends) (hr : s.receiveInFlight = true) (hk : s.receiving = false)
    (result : Result) (c : Choice) :
    (s.onReceiveCompleted result c).1.Ok ∧ (s.onReceiveCompleted result c).1.Receives ∧
      (s.onReceiveCompleted result c).1.Sends ∧
      ((s.onReceiveCompleted result c).2 = .notifying ∧ Kept s.takeReceive (s.onReceiveCompleted result c).1 ∨
        s.closed = false ∧ ∃ count, s.onReceiveCompleted result c =
          ({ s.takeReceive with receiveCallbackActive := true }, .received count)) := by
  have hok := h.takeReceive hr hk
  have heq := takeReceive_eq h hr
  obtain ⟨t, ht⟩ : ∃ t, t = s.takeReceive := ⟨_, rfl⟩
  have hsends : t.Sends := by
    rw [ht, heq]
    exact hs
  have hclosed : t.closed = s.closed := by rw [ht, heq]
  have hactive : t.receiveCallbackActive = false := by
    rw [ht, heq]
    exact h.apart hr
  have hidle : t.receiveInFlight = false := by rw [ht, heq]
  rw [← ht] at hok ⊢
  unfold onReceiveCompleted
  rw [← ht]
  have key : ∀ {u : Shared}, u.Ok ∧ u.closed = true ∧ u.lingering = false ∧ Kept t u → u.Ok ∧ u.Receives ∧ u.Sends ∧
      (Place.notifying = .notifying ∧ Kept t u ∨ s.closed = false ∧ ∃ count,
        (u, Place.notifying) = ({ t with receiveCallbackActive := true }, .received count)) := by
    rintro u ⟨hu, hc, hl, hkept⟩
    exact ⟨hu, .of_shut hc hl, .of_closed hc, .inl ⟨rfl, hkept⟩⟩
  dsimp only
  split
  · rename_i hl
    have hc := (hok.lingers hl).1
    split
    · exact key (hok.closeSocket hc)
    · exact key (hok.closeSocket hc)
    · obtain ⟨hok', hr', hk', hs', -⟩ := startReceiveLocked_ok hok c
      exact ⟨hok', hr', hs' hsends, .inl ⟨rfl, hk'⟩⟩
  · rename_i hl
    split
    · rename_i hc
      exact key ⟨hok, hc, Bool.eq_false_iff.mpr hl, .refl t⟩
    · rename_i hc
      have hc : t.closed = false := Bool.eq_false_iff.mpr hc
      split
      · exact key (close_ok hok _)
      · exact key (close_ok hok _)
      · rename_i count _
        rw [hactive, Bool.not_false, check_true]
        refine ⟨⟨hok.pending, hok.held, hok.opened, hok.lingers, hok.closed, fun hr' => ?_, hok.queue, hok.borrowed,
          fun hn => ?_, hok.failed⟩, ⟨fun _ _ _ => .inr rfl, fun _ => .inr rfl⟩, hsends,
          .inr ⟨hclosed.symm.trans hc, count, rfl⟩⟩
        · exact absurd (hidle.symm.trans hr') nofun
        · exact absurd (hc.symm.trans (hok.notified hn).1) nofun

lemma finishReceive_ok (h : s.Ok) (hs : s.Sends) (ha : s.receiveCallbackActive = true) (c : Choice) :
    (s.finishReceive c).Ok ∧ (s.finishReceive c).Receives ∧ (s.finishReceive c).Sends ∧
      Kept { s with receiveCallbackActive := false } (s.finishReceive c) := by
  have hok : Ok { s with receiveCallbackActive := false } := by
    refine ⟨h.pending, h.held, h.opened, h.lingers, h.closed, fun _ => rfl, h.queue, h.borrowed, fun hn => ?_, h.failed⟩
    exact absurd ((h.notified hn).2.2.2.2.1.symm.trans ha) nofun
  unfold finishReceive
  rw [ha, check_true]
  dsimp only
  split
  · obtain ⟨hok', hr', hk', hs', -⟩ := startReceiveLocked_ok hok c
    exact ⟨hok', hr', hs' hs, hk'⟩
  · rename_i hcond
    simp only [Bool.or_eq_true, Bool.not_eq_true', not_or, Bool.not_eq_true, Bool.not_eq_false] at hcond
    exact ⟨hok, .of_shut hcond.1 hcond.2, hs, .refl _⟩

lemma onSendCompleted_ok (h : s.Ok) (hr : s.Receives) (hf : s.sendInFlight = true) (hk : s.sending = false)
    {result : Result} (hw : result.within s.borrowed.length = true) (c : Choice) :
    (s.onSendCompleted result c).Ok ∧ (s.onSendCompleted result c).Receives ∧ (s.onSendCompleted result c).Sends ∧
      Kept s.takeSend (s.onSendCompleted result c) := by
  have hok := h.takeSend hf hk
  have heq := takeSend_eq h hf
  obtain ⟨t, ht⟩ : ∃ t, t = s.takeSend := ⟨_, rfl⟩
  have hrec : t.Receives := by
    rw [ht, heq]
    exact ⟨hr.opened, hr.lingers⟩
  have hidle : t.sendInFlight = false := by rw [ht, heq]
  have hqueue : t.sendQueue = s.sendQueue := by rw [ht, heq]
  have hborrowed := h.borrowed hf
  rw [← ht] at hok ⊢
  unfold onSendCompleted
  rw [← ht]
  dsimp only
  split
  · rename_i hc
    have hdisc : t.discardQueuedSendsLocked = { t with sendQueue := {} } := by
      simp [discardQueuedSendsLocked, hidle, SendQueue.clear]
    rw [hdisc]
    refine ⟨⟨hok.pending, hok.held, hok.opened, hok.lingers, hok.closed, hok.apart, .nil, fun hf' => ?_, hok.notified,
      hok.failed⟩, ⟨hrec.opened, hrec.lingers⟩, .of_closed hc, rfl, rfl, rfl, rfl, rfl, List.prefix_rfl, rfl, rfl,
      fun hs => ⟨rfl, hs⟩⟩
    exact absurd (hidle.symm.trans hf') nofun
  rename_i hc
  have hc : t.closed = false := Bool.eq_false_iff.mpr hc
  have key : ∀ {u : Shared}, u.Ok ∧ u.closed = true ∧ u.lingering = false ∧ Kept t u →
      u.Ok ∧ u.Receives ∧ u.Sends ∧ Kept t u := by
    rintro u ⟨hu, hc, hl, hkept⟩
    exact ⟨hu, .of_shut hc hl, .of_closed hc, hkept⟩
  split
  · exact key (close_ok hok _)
  · exact key (close_ok hok _)
  · rename_i count _
    have hle : count ≤ s.sendQueue.front.length := by
      rw [hborrowed.2]
      exact of_decide_eq_true hw
    have hcheck : (!t.sendQueue.empty && decide (count ≤ t.sendQueue.front.length)) = true := by
      rw [hqueue, hborrowed.1, decide_eq_true hle]
      rfl
    rw [hcheck, check_true]
    obtain ⟨u, hu⟩ : ∃ u : Shared, u = { t with sendQueue := t.sendQueue.consume count } := ⟨_, rfl⟩
    have huok : u.Ok := by
      subst hu
      refine ⟨hok.pending, hok.held, hok.opened, hok.lingers, hok.closed, hok.apart, ?_, fun hf' => ?_, hok.notified, hok.failed⟩
      · rw [hqueue]
        exact (SendQueue.consume_unsent h.queue hle).1
      · exact absurd (hidle.symm.trans hf') nofun
    have hurec : u.Receives := by
      subst hu
      exact ⟨hrec.opened, hrec.lingers⟩
    have huk : Kept t u := by
      subst hu
      exact ⟨rfl, rfl, rfl, rfl, rfl, List.prefix_rfl, rfl, rfl, fun hs => ⟨rfl, hs⟩⟩
    have huidle : u.sendInFlight = false := by rw [hu, hidle]
    subst hu
    split
    · rename_i he
      obtain ⟨hok', hr', hs', hk'⟩ := finishCloseAfterSendLocked_ok huok hurec
        (fun _ he' => absurd (he.symm.trans he') nofun) c
      exact ⟨hok', hr', hs', huk.trans hk'⟩
    · rename_i he
      obtain ⟨hok', hs', hk', hr', -⟩ := startSendLocked_ok huok (Bool.eq_false_iff.mpr he) huidle c
      obtain ⟨hok'', hr'', hs'', hk''⟩ := finishCloseAfterSendLocked_ok hok' (hr' hurec) hs' c
      exact ⟨hok'', hr'', hs'', (huk.trans hk').trans hk''⟩

end Shared

def Placed (s : Shared) : Place → Prop
  | .disconnecting reason | .disconnected reason => s.disconnectNotified = true ∧ s.closings.head? = some reason
  | .sendCompleted result => result.within s.borrowed.length = true
  | _ => True

structure Inv (s : State) : Prop where
  ok : s.shared.Ok
  receives : s.shared.Receives
  sends : s.shared.Sends
  receive : s.shared.receiveInFlight.toNat = s.shared.receiving.toNat + s.threads.tally Place.completesReceive
  send : s.shared.sendInFlight.toNat = s.shared.sending.toNat + s.threads.tally Place.completesSend
  borrows : s.shared.receiveCallbackActive.toNat = s.threads.tally Place.borrows
  calls : s.shared.disconnects.length + s.threads.tally Place.disconnects ≤ s.shared.disconnectNotified.toNat
  called : s.shared.observer = true →
    s.shared.disconnectNotified.toNat ≤ s.shared.disconnects.length + s.threads.tally Place.disconnects
  reasons : ∀ reason ∈ s.shared.disconnects, s.shared.closings.head? = some reason
  placed : ∀ j < s.threads.count, Placed s.shared (s.threads.row j)
  due : s.shared.due = true → 0 < s.threads.tally Place.notifies

lemma head_mono {x y : List Status} {reason : Status} (h : x.head? = some reason) (hc : x <+: y) : y.head? = some reason := by
  obtain ⟨rest, rfl⟩ := hc
  rw [List.head?_append, h]
  rfl

section Set

variable {st : State} {i : ℕ} {s' : Shared} {place : Place}

lemma Placed.mono {s : Shared} (h : Placed s place) (hc : s.closings <+: s'.closings)
    (hn : s.disconnectNotified = true → s'.disconnectNotified = true)
    (hb : place.completesSend = true → s'.borrowed = s.borrowed) : Placed s' place := by
  cases place with
  | disconnecting reason => exact ⟨hn h.1, head_mono h.2 hc⟩
  | disconnected reason => exact ⟨hn h.1, head_mono h.2 hc⟩
  | sendCompleted result =>
    have hw : result.within s.borrowed.length = true := h
    have hb' := hb rfl
    show result.within s'.borrowed.length = true
    rwa [hb']
  | _ => trivial

lemma Inv.set (h : Inv st) (hi : i < st.threads.count) (hok : s'.Ok) (hreceives : s'.Receives) (hsends : s'.Sends)
    (hplace : Placed s' place) (hclosings : st.shared.closings <+: s'.closings)
    (hnotified : st.shared.disconnectNotified = true → s'.disconnectNotified = true)
    (hborrowed : ∀ j < st.threads.count, j ≠ i → (st.threads.row j).completesSend = true → s'.borrowed = st.shared.borrowed)
    (hreceive : s'.receiveInFlight.toNat + st.shared.receiving.toNat + (st.threads.row i).completesReceive.toNat =
      st.shared.receiveInFlight.toNat + s'.receiving.toNat + place.completesReceive.toNat)
    (hsend : s'.sendInFlight.toNat + st.shared.sending.toNat + (st.threads.row i).completesSend.toNat =
      st.shared.sendInFlight.toNat + s'.sending.toNat + place.completesSend.toNat)
    (hborrows : s'.receiveCallbackActive.toNat + (st.threads.row i).borrows.toNat =
      st.shared.receiveCallbackActive.toNat + place.borrows.toNat)
    (hcalls : s'.disconnects.length + place.disconnects.toNat + st.shared.disconnectNotified.toNat ≤
      st.shared.disconnects.length + (st.threads.row i).disconnects.toNat + s'.disconnectNotified.toNat)
    (hcalled : s'.observer = true → s'.disconnectNotified = false ∨ st.shared.observer = true ∧
      st.shared.disconnects.length + (st.threads.row i).disconnects.toNat + s'.disconnectNotified.toNat ≤
        s'.disconnects.length + place.disconnects.toNat + st.shared.disconnectNotified.toNat)
    (hreasons : ∀ reason ∈ s'.disconnects, reason ∈ st.shared.disconnects ∨ s'.closings.head? = some reason)
    (hdue : s'.due = true → place.notifies = true ∨ st.shared.due = true ∧ (st.threads.row i).notifies = false) :
    Inv ⟨s', st.threads.set i place⟩ where
  ok := hok
  receives := hreceives
  sends := hsends
  receive := by
    have ht := Table.tally_set hi place Place.completesReceive
    have := h.receive
    dsimp only
    omega
  send := by
    have ht := Table.tally_set hi place Place.completesSend
    have := h.send
    dsimp only
    omega
  borrows := by
    have ht := Table.tally_set hi place Place.borrows
    have := h.borrows
    dsimp only
    omega
  calls := by
    have ht := Table.tally_set hi place Place.disconnects
    have := h.calls
    dsimp only
    omega
  called ho := by
    have ht := Table.tally_set hi place Place.disconnects
    rcases hcalled ho with hn | ⟨ho', hle⟩
    · dsimp only
      rw [hn]
      exact Nat.zero_le _
    · have := h.called ho'
      dsimp only
      omega
  reasons reason hm := by
    rcases hreasons reason hm with hm | hf
    · exact head_mono (h.reasons reason hm) hclosings
    · exact hf
  placed j hj := by
    by_cases hji : j = i
    · subst hji
      rw [Table.set_row_self]
      exact hplace
    · rw [Table.set_row_ne _ _ hji]
      exact (h.placed j hj).mono hclosings hnotified (hborrowed j hj hji)
  due hd := by
    have ht := Table.tally_set hi place Place.notifies
    rcases hdue hd with hn | ⟨hd', hn⟩
    · rw [hn, Bool.toNat_true] at ht
      have hb : (st.threads.row i).notifies.toNat ≤ st.threads.tally Place.notifies :=
        Table.le_total hi fun p => p.notifies.toNat
      dsimp only
      omega
    · have := h.due hd'
      rw [hn, Bool.toNat_false] at ht
      dsimp only
      omega

lemma Inv.sending_of_completion (h : Inv st) {j : ℕ} (hj : j < st.threads.count)
    (hrow : (st.threads.row j).completesSend = true) : st.shared.sendInFlight = true ∧ st.shared.sending = false := by
  have hpos := Table.tally_pos hj hrow
  have hsend := h.send
  have hle := Bool.toNat_le st.shared.sendInFlight
  cases hs : st.shared.sendInFlight with
  | true =>
    cases hk : st.shared.sending with
    | false => exact ⟨rfl, rfl⟩
    | true =>
      rw [hs, hk, Bool.toNat_true] at hsend
      omega
  | false =>
    rw [hs, Bool.toNat_false] at hsend
    omega

lemma Inv.receiving_of_completion (h : Inv st) {j : ℕ} (hj : j < st.threads.count)
    (hrow : (st.threads.row j).completesReceive = true) :
    st.shared.receiveInFlight = true ∧ st.shared.receiving = false := by
  have hpos := Table.tally_pos hj hrow
  have hreceive := h.receive
  have hle := Bool.toNat_le st.shared.receiveInFlight
  cases hs : st.shared.receiveInFlight with
  | true =>
    cases hk : st.shared.receiving with
    | false => exact ⟨rfl, rfl⟩
    | true =>
      rw [hs, hk, Bool.toNat_true] at hreceive
      omega
  | false =>
    rw [hs, Bool.toNat_false] at hreceive
    omega

structure Entry (place : Place) : Prop where
  completesReceive : place.completesReceive = false
  completesSend : place.completesSend = false
  borrows : place.borrows = false
  disconnects : place.disconnects = false
  notifies : place.notifies = false

lemma Inv.leave (h : Inv st) (hi : i < st.threads.count) (he : Entry (st.threads.row i)) (hok : s'.Ok)
    (hreceives : s'.Receives) (hsends : s'.Sends) (hk : st.shared.Kept s') (hplace : place = .finished ∨ place = .notifying)
    (hdue : place = .finished → s'.due = true → st.shared.due = true) : Inv ⟨s', st.threads.set i place⟩ := by
  have hnone : place.completesReceive = false ∧ place.completesSend = false ∧ place.borrows = false ∧
      place.disconnects = false ∧ Placed s' place := by
    rcases hplace with rfl | rfl <;> exact ⟨rfl, rfl, rfl, rfl, trivial⟩
  obtain ⟨hr, hs, hb, hd, hp⟩ := hnone
  refine h.set hi hok hreceives hsends hp hk.closings (fun hn => hk.disconnectNotified.trans hn) (fun j hj _ hrow => ?_)
    ?_ ?_ ?_ ?_ (fun ho => .inr ⟨?_, ?_⟩) ?_ ?_
  · exact (hk.borrowed (h.sending_of_completion hj hrow).1).1
  · rw [he.completesReceive, hr]
    exact hk.receive
  · rw [he.completesSend, hs]
    exact hk.send
  · rw [he.borrows, hb, hk.receiveCallbackActive]
  · rw [he.disconnects, hd, hk.disconnects, hk.disconnectNotified]
  · exact hk.observer.symm.trans ho
  · rw [he.disconnects, hd, hk.disconnects, hk.disconnectNotified]
  · intro reason hm
    rw [hk.disconnects] at hm
    exact .inl hm
  · intro hdue'
    rcases hplace with rfl | rfl
    · exact .inr ⟨hdue rfl hdue', he.notifies⟩
    · exact .inl rfl

end Set

section Steps

variable {st : State} {i : ℕ} {c : Choice} {s' : Shared} {place : Place}

lemma checked_place (answer : Bool × Shared) : (Shared.checked answer).2 = .finished ∧ answer.1 = true ∨
    (Shared.checked answer).2 = .notifying := by
  unfold Shared.checked
  cases answer.1 with
  | true => exact .inl ⟨rfl, rfl⟩
  | false => exact .inr rfl

lemma Inv.restart {s : Shared} (hs' : Shared.checked (s.startReceiveLocked c) = (s', place)) (h : Inv st)
    (hi : i < st.threads.count) (he : Entry (st.threads.row i)) (hok : s.Ok) (hs : s.Sends) (hk : st.shared.Kept s)
    (hdue : s.due = st.shared.due) : Inv ⟨s', st.threads.set i place⟩ := by
  obtain ⟨hok', hr', hk', hsends, hdue'⟩ := Shared.startReceiveLocked_ok hok c
  have hplace := checked_place (s.startReceiveLocked c)
  rw [hs'] at hplace
  obtain ⟨rfl, -⟩ := Prod.mk.inj hs'
  rcases hplace with ⟨hplace, hans⟩ | hplace
  · refine h.leave hi he hok' hr' (hsends hs) (hk.trans hk') (.inl hplace) fun _ hd => ?_
    rw [← hdue]
    exact hdue' hans hd
  · refine h.leave hi he hok' hr' (hsends hs) (hk.trans hk') (.inr hplace) fun hfin => ?_
    exact absurd (hplace.symm.trans hfin) nofun

lemma Inv.start (h : Inv st) (hi : i < st.threads.count) (he : Entry (st.threads.row i))
    (hs : st.shared.start c = some (s', place)) : Inv ⟨s', st.threads.set i place⟩ := by
  unfold Shared.start at hs
  split at hs
  · cases hs
  have hok := h.ok
  refine Inv.restart (Option.some.inj hs) h hi he ?_ h.sends ?_ rfl
  · exact ⟨hok.pending, hok.held, hok.opened, hok.lingers, hok.closed, hok.apart, hok.queue, hok.borrowed, hok.notified,
      hok.failed⟩
  · exact ⟨rfl, rfl, rfl, rfl, rfl, List.prefix_rfl, rfl, rfl, fun hs => ⟨rfl, hs⟩⟩

lemma Inv.resume (h : Inv st) (hi : i < st.threads.count) (he : Entry (st.threads.row i))
    (hs : st.shared.resumeReceive c = (s', place)) : Inv ⟨s', st.threads.set i place⟩ := by
  unfold Shared.resumeReceive at hs
  split at hs
  · obtain ⟨rfl, rfl⟩ := Prod.mk.inj hs
    exact h.leave hi he h.ok h.receives h.sends (.refl _) (.inl rfl) fun _ => id
  have hok := h.ok
  refine Inv.restart hs h hi he ?_ h.sends ?_ rfl
  · exact ⟨hok.pending, hok.held, hok.opened, hok.lingers, hok.closed, hok.apart, hok.queue, hok.borrowed, hok.notified,
      hok.failed⟩
  · exact ⟨rfl, rfl, rfl, rfl, rfl, List.prefix_rfl, rfl, rfl, fun hs => ⟨rfl, hs⟩⟩

lemma Inv.pause (h : Inv st) (hi : i < st.threads.count) (he : Entry (st.threads.row i)) :
    Inv ⟨st.shared.pauseReceive, st.threads.set i .finished⟩ := by
  unfold Shared.pauseReceive
  split
  · exact h.leave hi he h.ok h.receives h.sends (.refl _) (.inl rfl) fun _ => id
  have hok := h.ok
  refine h.leave hi he ?_ ⟨fun _ hp => (by cases hp), h.receives.lingers⟩ h.sends ?_ (.inl rfl) fun _ hd => hd
  · exact ⟨hok.pending, hok.held, hok.opened, hok.lingers, hok.closed, hok.apart, hok.queue, hok.borrowed, hok.notified,
      hok.failed⟩
  · exact ⟨rfl, rfl, rfl, rfl, rfl, List.prefix_rfl, rfl, rfl, fun hs => ⟨rfl, hs⟩⟩

lemma Inv.sendInternal (h : Inv st) (hi : i < st.threads.count) {bytes : Bytes} (he : Entry (st.threads.row i))
    (hs : st.shared.sendInternal bytes c = (s', place)) : Inv ⟨s', st.threads.set i place⟩ := by
  have hsame : Inv ⟨st.shared, st.threads.set i .finished⟩ :=
    h.leave hi he h.ok h.receives h.sends (.refl _) (.inl rfl) fun _ => id
  have hok := h.ok
  unfold Shared.sendInternal at hs
  split at hs
  · obtain ⟨rfl, rfl⟩ := Prod.mk.inj hs
    exact hsame
  rename_i hopen
  simp only [Bool.or_eq_true, not_or, Bool.not_eq_true] at hopen
  split at hs
  · obtain ⟨rfl, rfl⟩ := Prod.mk.inj hs
    exact hsame
  rename_i hbytes
  split at hs
  · obtain ⟨rfl, rfl⟩ := Prod.mk.inj hs
    exact hsame
  rename_i sendQueue henq
  obtain ⟨hq, hunsent⟩ := SendQueue.enqueue_unsent hok.queue henq
  have hk : st.shared.Kept { st.shared with sendQueue := sendQueue } :=
    ⟨rfl, rfl, rfl, rfl, rfl, List.prefix_rfl, rfl, rfl, fun hs => ⟨rfl, hs⟩⟩
  have hok' : Shared.Ok { st.shared with sendQueue := sendQueue } := by
    refine ⟨hok.pending, hok.held, hok.opened, hok.lingers, hok.closed, hok.apart, hq, fun hf => ?_, hok.notified, hok.failed⟩
    obtain ⟨hempty, hfront⟩ := hok.borrowed hf
    obtain ⟨hempty', hfront'⟩ := SendQueue.enqueue_front hempty henq
    exact ⟨hempty', hfront'.trans hfront⟩
  have hrec : Shared.Receives { st.shared with sendQueue := sendQueue } := ⟨h.receives.opened, h.receives.lingers⟩
  dsimp only at hs
  split at hs
  · rename_i hf
    obtain ⟨rfl, rfl⟩ := Prod.mk.inj hs
    exact h.leave hi he hok' hrec (fun _ _ => hf) hk (.inl rfl) fun _ hd => hd
  · rename_i hf
    have hne : sendQueue.empty = false := by
      refine Bool.eq_false_iff.mpr fun hempty => ?_
      rw [hq.empty_iff, hunsent] at hempty
      exact hbytes (List.append_eq_nil_iff.mp hempty).2
    obtain ⟨hok'', hs'', hk'', hr'', hdue⟩ := Shared.startSendLocked_ok hok' hne (Bool.eq_false_iff.mpr hf) c
    have hplace := checked_place (Shared.startSendLocked { st.shared with sendQueue := sendQueue } c)
    rw [hs] at hplace
    obtain ⟨rfl, -⟩ := Prod.mk.inj hs
    rcases hplace with ⟨hplace, hans⟩ | hplace
    · exact h.leave hi he hok'' (hr'' hrec) hs'' (hk.trans hk'') (.inl hplace) fun _ hd => hdue hans hd
    · refine h.leave hi he hok'' (hr'' hrec) hs'' (hk.trans hk'') (.inr hplace) fun hfin => ?_
      exact absurd (hplace.symm.trans hfin) nofun

lemma Inv.close (h : Inv st) (hi : i < st.threads.count) (he : Entry (st.threads.row i)) :
    Inv ⟨st.shared.close, st.threads.set i .notifying⟩ := by
  have hok := h.ok
  have hok' : Shared.Ok { st.shared with closeAfterSendRequested := false } :=
    ⟨hok.pending, hok.held, hok.opened, hok.lingers, hok.closed, hok.apart, hok.queue, hok.borrowed, hok.notified, hok.failed⟩
  have hk : st.shared.Kept { st.shared with closeAfterSendRequested := false } :=
    ⟨rfl, rfl, rfl, rfl, rfl, List.prefix_rfl, rfl, rfl, fun hs => ⟨rfl, hs⟩⟩
  obtain ⟨hok'', hc, hl, hk'⟩ := Shared.close_ok hok' closedStatus
  exact h.leave hi he hok'' (.of_shut hc hl) (.of_closed hc) (hk.trans hk') (.inr rfl) nofun

lemma Inv.closeAfterSend (h : Inv st) (hi : i < st.threads.count) (he : Entry (st.threads.row i)) :
    Inv ⟨st.shared.closeAfterSend c, st.threads.set i .notifying⟩ := by
  unfold Shared.closeAfterSend
  split
  · exact h.leave hi he h.ok h.receives h.sends (.refl _) (.inr rfl) nofun
  have hok := h.ok
  have hok' : Shared.Ok { st.shared with closeAfterSendRequested := true } :=
    ⟨hok.pending, hok.held, hok.opened, hok.lingers, hok.closed, hok.apart, hok.queue, hok.borrowed, hok.notified, hok.failed⟩
  have hk : st.shared.Kept { st.shared with closeAfterSendRequested := true } :=
    ⟨rfl, rfl, rfl, rfl, rfl, List.prefix_rfl, rfl, rfl, fun hs => ⟨rfl, hs⟩⟩
  obtain ⟨hok'', hr, hs, hk'⟩ :=
    Shared.finishCloseAfterSendLocked_ok hok' ⟨h.receives.opened, h.receives.lingers⟩ h.sends c
  exact h.leave hi he hok'' hr hs (hk.trans hk') (.inr rfl) nofun

lemma Inv.setObserver (h : Inv st) (hi : i < st.threads.count) {alive : Bool} (he : Entry (st.threads.row i))
    (hs : st.shared.setObserver alive = some s') : Inv ⟨s', st.threads.set i .notifying⟩ := by
  unfold Shared.setObserver at hs
  split at hs
  · cases hs
  rename_i ha
  have hok := h.ok
  have hn : st.shared.disconnectNotified = false := by
    refine Bool.eq_false_iff.mpr fun hn => ?_
    exact ha (hok.notified hn).2.2.2.2.2
  obtain rfl := Option.some.inj hs
  refine h.set hi ⟨hok.pending, hok.held, hok.opened, hok.lingers, hok.closed, hok.apart, hok.queue, hok.borrowed,
      fun hn' => ?_, hok.failed⟩ ⟨h.receives.opened, h.receives.lingers⟩ h.sends trivial List.prefix_rfl id
    (fun _ _ _ _ => rfl) ?_ ?_ ?_ ?_ (fun _ => .inl hn) (fun _ hm => .inl hm) fun _ => .inl rfl
  · exact absurd (hn.symm.trans hn') nofun
  · rw [he.completesReceive]
    rfl
  · rw [he.completesSend]
    rfl
  · rw [he.borrows]
    rfl
  · rw [he.disconnects]
    exact le_rfl

lemma Inv.receiveCompleted (h : Inv st) (hi : i < st.threads.count) {result : Result}
    (hrow : st.threads.row i = .receiveCompleted result) (hs : st.shared.onReceiveCompleted result c = (s', place)) :
    Inv ⟨s', st.threads.set i place⟩ := by
  obtain ⟨hflight, hkernel⟩ := h.receiving_of_completion hi (by rw [hrow]; rfl)
  have heq := Shared.takeReceive_eq h.ok hflight
  obtain ⟨hok, hreceives, hsends, hcases⟩ := Shared.onReceiveCompleted_ok h.ok h.sends hflight hkernel result c
  rw [hs] at hok hreceives hsends hcases
  have hborrow : (st.threads.row i).borrows = false ∧ (st.threads.row i).completesSend = false ∧
      (st.threads.row i).disconnects = false ∧ (st.threads.row i).completesReceive = true := by
    rw [hrow]
    exact ⟨rfl, rfl, rfl, rfl⟩
  obtain ⟨hb, hcs, hd, hcr⟩ := hborrow
  rcases hcases with ⟨hplace, hk⟩ | ⟨hc, count, hcount⟩
  · rw [heq] at hk
    obtain rfl : place = .notifying := hplace
    refine h.set hi hok hreceives hsends trivial hk.closings (fun hn => hk.disconnectNotified.trans hn) (fun j hj _ hrow' => ?_)
      ?_ ?_ ?_ ?_ (fun ho => .inr ⟨?_, ?_⟩) ?_ fun _ => .inl rfl
    · exact (hk.borrowed (h.sending_of_completion hj hrow').1).1
    · have := hk.receive
      dsimp only at this
      rw [hcr, hflight]
      simp only [Bool.toNat_false, Bool.toNat_true, Place.completesReceive] at this ⊢
      omega
    · rw [hcs]
      exact hk.send
    · rw [hb, hk.receiveCallbackActive]
      rfl
    · rw [hd, hk.disconnects, hk.disconnectNotified]
      exact le_rfl
    · exact hk.observer.symm.trans ho
    · rw [hd, hk.disconnects, hk.disconnectNotified]
      exact le_rfl
    · intro reason hm
      rw [hk.disconnects] at hm
      exact .inl hm
  · obtain ⟨rfl, rfl⟩ := Prod.mk.inj hcount
    rw [heq] at hok hreceives hsends ⊢
    refine h.set hi hok hreceives hsends trivial List.prefix_rfl id (fun _ _ _ _ => rfl) ?_ ?_ ?_ ?_ (fun ho => .inr ⟨ho, ?_⟩)
      (fun _ hm => .inl hm) fun hdue => ?_
    · rw [hcr, hflight, hkernel]
      rfl
    · rw [hcs]
      rfl
    · rw [hb, h.ok.apart hflight]
      rfl
    · rw [hd]
      exact le_rfl
    · rw [hd]
      exact le_rfl
    · simp [Shared.due] at hdue

lemma Inv.sendCompleted (h : Inv st) (hi : i < st.threads.count) {result : Result}
    (hrow : st.threads.row i = .sendCompleted result) :
    Inv ⟨st.shared.onSendCompleted result c, st.threads.set i .notifying⟩ := by
  have hplaced := h.placed i hi
  have hcs : (st.threads.row i).completesSend = true := by
    rw [hrow]
    rfl
  obtain ⟨hflight, hkernel⟩ := h.sending_of_completion hi hcs
  have heq := Shared.takeSend_eq h.ok hflight
  rw [hrow] at hplaced
  obtain ⟨hok, hreceives, hsends, hk⟩ := Shared.onSendCompleted_ok h.ok h.receives hflight hkernel hplaced c
  rw [heq] at hk
  refine h.set hi hok hreceives hsends trivial hk.closings (fun hn => hk.disconnectNotified.trans hn) (fun j hj hne hrow' => ?_)
    ?_ ?_ ?_ ?_ (fun ho => .inr ⟨?_, ?_⟩) ?_ fun _ => .inl rfl
  · refine absurd (Table.eq_of_tally_le_one ?_ hj hi hrow' hcs) hne
    have := h.send
    rw [hflight, hkernel, Bool.toNat_true, Bool.toNat_false] at this
    omega
  · rw [hrow]
    exact hk.receive
  · have := hk.send
    dsimp only at this
    rw [hcs, hflight]
    simp only [Bool.toNat_false, Bool.toNat_true, Place.completesSend] at this ⊢
    omega
  · rw [hrow, hk.receiveCallbackActive]
    rfl
  · rw [hrow, hk.disconnects, hk.disconnectNotified]
    exact le_rfl
  · exact hk.observer.symm.trans ho
  · rw [hrow, hk.disconnects, hk.disconnectNotified]
    exact le_rfl
  · intro reason hm
    rw [hk.disconnects] at hm
    exact .inl hm

lemma Inv.lend (h : Inv st) (hi : i < st.threads.count) {from' : Place} (hrow : st.threads.row i = from')
    (hfrom : from'.borrows = true) (hto : place.borrows = true) : Inv ⟨st.shared, st.threads.set i place⟩ := by
  have hnone : ∀ p : Place, p.borrows = true → p.completesReceive = false ∧ p.completesSend = false ∧
      p.disconnects = false ∧ p.notifies = false ∧ Placed st.shared p := by
    intro p hp
    cases p <;> first | exact ⟨rfl, rfl, rfl, rfl, trivial⟩ | cases hp
  obtain ⟨hr, hs, hd, hn, -⟩ := hnone _ hfrom
  obtain ⟨hr', hs', hd', -, hp⟩ := hnone _ hto
  rw [← hrow] at hr hs hd hn hfrom
  refine h.set hi h.ok h.receives h.sends hp List.prefix_rfl id (fun _ _ _ _ => rfl) ?_ ?_ ?_ ?_ (fun ho => .inr ⟨ho, ?_⟩)
    (fun _ hm => .inl hm) fun hdue => .inr ⟨hdue, hn⟩
  · rw [hr, hr']
  · rw [hs, hs']
  · rw [hfrom, hto]
  · rw [hd, hd']
  · rw [hd, hd']

lemma Inv.finishReceive (h : Inv st) (hi : i < st.threads.count) (hrow : st.threads.row i = .returned) :
    Inv ⟨st.shared.finishReceive c, st.threads.set i .notifying⟩ := by
  have hb : (st.threads.row i).borrows = true := by
    rw [hrow]
    rfl
  have hactive : st.shared.receiveCallbackActive = true := by
    have hpos := Table.tally_pos hi hb
    have := h.borrows
    cases ha : st.shared.receiveCallbackActive with
    | true => rfl
    | false =>
      rw [ha, Bool.toNat_false] at this
      omega
  obtain ⟨hok, hreceives, hsends, hk⟩ := Shared.finishReceive_ok h.ok h.sends hactive c
  refine h.set hi hok hreceives hsends trivial hk.closings (fun hn => hk.disconnectNotified.trans hn) (fun j hj _ hrow' => ?_)
    ?_ ?_ ?_ ?_ (fun ho => .inr ⟨?_, ?_⟩) ?_ fun _ => .inl rfl
  · exact (hk.borrowed (h.sending_of_completion hj hrow').1).1
  · rw [hrow]
    exact hk.receive
  · rw [hrow]
    exact hk.send
  · rw [hb, hactive, hk.receiveCallbackActive]
    rfl
  · rw [hrow, hk.disconnects, hk.disconnectNotified]
    exact le_rfl
  · exact hk.observer.symm.trans ho
  · rw [hrow, hk.disconnects, hk.disconnectNotified]
    exact le_rfl
  · intro reason hm
    rw [hk.disconnects] at hm
    exact .inl hm

lemma Inv.notify (h : Inv st) (hi : i < st.threads.count) (hrow : st.threads.row i = .notifying)
    (hs : st.shared.maybeNotifyDisconnected = (s', place)) : Inv ⟨s', st.threads.set i place⟩ := by
  have hsame : st.shared.due = false → Inv ⟨st.shared, st.threads.set i .finished⟩ := by
    intro hdue
    refine h.set hi h.ok h.receives h.sends trivial List.prefix_rfl id (fun _ _ _ _ => rfl) (by rw [hrow]; rfl)
      (by rw [hrow]; rfl) (by rw [hrow]; rfl) (by rw [hrow]; exact le_rfl) (fun ho => .inr ⟨ho, by rw [hrow]; exact le_rfl⟩)
      (fun _ hm => .inl hm) fun hd => absurd (hdue.symm.trans hd) nofun
  unfold Shared.maybeNotifyDisconnected at hs
  split at hs
  · rename_i hcond
    obtain ⟨rfl, rfl⟩ := Prod.mk.inj hs
    refine hsame (Bool.eq_false_iff.mpr fun hd => ?_)
    simp only [Shared.due, Bool.and_eq_true, Bool.not_eq_true', decide_eq_true_eq] at hd
    obtain ⟨⟨⟨⟨hc, hp⟩, ha⟩, ho⟩, -⟩ := hd
    simp [hc, hp, ha, ho] at hcond
  rename_i hcond
  simp only [Bool.or_eq_true, Bool.not_eq_true', not_or, Bool.not_eq_true, Bool.not_eq_false, decide_eq_true_eq,
    not_not] at hcond
  obtain ⟨⟨⟨ho, hc⟩, hp⟩, ha⟩ := hcond
  split at hs
  · rename_i hn
    obtain ⟨rfl, rfl⟩ := Prod.mk.inj hs
    exact hsame (by simp [Shared.due, hn])
  · rename_i hn
    have hn : st.shared.disconnectNotified = false := Bool.eq_false_iff.mpr hn
    obtain ⟨rfl, rfl⟩ := Prod.mk.inj hs
    have hok := h.ok
    have hpend := hok.pending
    have hr : st.shared.receiveInFlight = false := by
      refine Bool.eq_false_iff.mpr fun hr => ?_
      rw [hr, hp, Bool.toNat_true] at hpend
      omega
    have hs : st.shared.sendInFlight = false := by
      refine Bool.eq_false_iff.mpr fun hs => ?_
      rw [hs, hp, Bool.toNat_true] at hpend
      omega
    have hl : st.shared.lingering = false := by
      refine Bool.eq_false_iff.mpr fun hl => ?_
      rcases h.receives.lingers hl with hr' | ha'
      · exact absurd (hr.symm.trans hr') nofun
      · exact absurd (ha.symm.trans ha') nofun
    refine h.set hi ⟨hok.pending, hok.held, hok.opened, hok.lingers, hok.closed, hok.apart, hok.queue, hok.borrowed,
        fun _ => ⟨hc, hl, hr, hs, ha, ho⟩, hok.failed⟩ ⟨h.receives.opened, h.receives.lingers⟩ h.sends
      ⟨rfl, hok.closed hc⟩ List.prefix_rfl (fun _ => rfl) (fun _ _ _ _ => rfl) (by rw [hrow]; rfl) (by rw [hrow]; rfl)
      (by rw [hrow]; rfl) ?_ (fun ho => .inr ⟨ho, ?_⟩) (fun _ hm => .inl hm) fun hd => ?_
    · rw [hrow, hn]
      exact le_rfl
    · rw [hrow, hn]
      exact le_rfl
    · simp [Shared.due] at hd

lemma Inv.disconnect (h : Inv st) (hi : i < st.threads.count) {reason : Status}
    (hrow : st.threads.row i = .disconnecting reason)
    (hs : advance st.shared c (.disconnecting reason) = some (s', place)) : Inv ⟨s', st.threads.set i place⟩ := by
  have hp := h.placed i hi
  rw [hrow] at hp
  have hdue : st.shared.due = false := by simp [Shared.due, hp.1]
  simp only [advance] at hs
  split at hs
  · rename_i ho
    obtain ⟨rfl, rfl⟩ := of_some_pair hs
    have hok := h.ok
    refine h.set hi ⟨hok.pending, hok.held, hok.opened, hok.lingers, hok.closed, hok.apart, hok.queue, hok.borrowed,
        hok.notified, hok.failed⟩ ⟨h.receives.opened, h.receives.lingers⟩ h.sends hp List.prefix_rfl id (fun _ _ _ _ => rfl)
      (by rw [hrow]; rfl) (by rw [hrow]; rfl) (by rw [hrow]; rfl) ?_ (fun _ => .inr ⟨ho, ?_⟩) ?_ fun hd =>
      absurd (hdue.symm.trans hd) nofun
    · rw [hrow, List.length_append]
      exact le_rfl
    · rw [hrow, List.length_append]
      exact le_rfl
    · intro r hm
      rcases List.mem_append.mp hm with hm | hm
      · exact .inl hm
      · rw [List.mem_singleton.mp hm]
        exact .inr hp.2
  · rename_i ho
    obtain ⟨rfl, rfl⟩ := of_some_pair hs
    refine h.set hi h.ok h.receives h.sends trivial List.prefix_rfl id (fun _ _ _ _ => rfl) (by rw [hrow]; rfl)
      (by rw [hrow]; rfl) (by rw [hrow]; rfl) ?_ (fun ho' => absurd ho' ho) (fun _ hm => .inl hm) fun hd =>
      absurd (hdue.symm.trans hd) nofun
    rw [hrow]
    exact Nat.add_le_add_right (Nat.le_add_right _ _) _

lemma Inv.push (h : Inv st) {receiving sending : Bool} (hplaced : Placed st.shared place) (hb : place.borrows = false)
    (hd : place.disconnects = false)
    (hreceive : st.shared.receiving.toNat = receiving.toNat + place.completesReceive.toNat)
    (hsend : st.shared.sending.toNat = sending.toNat + place.completesSend.toNat) :
    Inv ⟨{ st.shared with receiving := receiving, sending := sending }, st.threads.push place⟩ where
  ok := by
    have hok := h.ok
    refine ⟨hok.pending, ⟨fun hr => hok.held.1 ?_, fun hs => hok.held.2 ?_⟩, hok.opened, hok.lingers, hok.closed, hok.apart,
      hok.queue, hok.borrowed, hok.notified, hok.failed⟩
    · have hr' : receiving = true := hr
      have hle := Bool.toNat_le st.shared.receiving
      cases hk : st.shared.receiving with
      | true => rfl
      | false =>
        rw [hr', hk, Bool.toNat_true, Bool.toNat_false] at hreceive
        omega
    · have hs' : sending = true := hs
      have hle := Bool.toNat_le st.shared.sending
      cases hk : st.shared.sending with
      | true => rfl
      | false =>
        rw [hs', hk, Bool.toNat_true, Bool.toNat_false] at hsend
        omega
  receives := ⟨h.receives.opened, h.receives.lingers⟩
  sends := h.sends
  receive := by
    have := h.receive
    dsimp only
    rw [Table.tally_push]
    omega
  send := by
    have := h.send
    dsimp only
    rw [Table.tally_push]
    omega
  borrows := by
    dsimp only
    rw [Table.tally_push, hb]
    exact h.borrows
  calls := by
    dsimp only
    rw [Table.tally_push, hd]
    exact h.calls
  called ho := by
    dsimp only
    rw [Table.tally_push, hd]
    exact h.called ho
  reasons := h.reasons
  placed j hj := by
    dsimp only
    rw [Table.push_row]
    split
    · exact hplaced.mono List.prefix_rfl id fun _ => rfl
    · rename_i hne
      rw [Table.push_count] at hj
      exact (h.placed j (by omega)).mono List.prefix_rfl id fun _ => rfl
  due hdue := by
    have := h.due hdue
    dsimp only
    rw [Table.tally_push]
    omega

end Steps

section Run

variable {s s' : State} {e : Event}

lemma Inv.init (h : Fresh s) : Inv s := by
  obtain ⟨limit, rfl⟩ := h
  refine ⟨⟨rfl, ⟨nofun, nofun⟩, fun _ => ⟨rfl, rfl, rfl⟩, nofun, nofun, nofun, .nil, nofun, nofun, rfl⟩, ⟨nofun, nofun⟩,
    fun _ hq => ?_, rfl, rfl, rfl, le_rfl, nofun, nofun, fun j hj => absurd hj (Nat.not_lt_zero j), nofun⟩
  cases hq

lemma Inv.advance {i : ℕ} {c : Choice} {shared : Shared} {place : Place} (h : Inv s) (hi : i < s.threads.count)
    (hstep : advance s.shared c (s.threads.row i) = some (shared, place)) : Inv ⟨shared, s.threads.set i place⟩ := by
  have hentry : ∀ {p : Place}, s.threads.row i = p → Entry p → Entry (s.threads.row i) := by
    intro p hrow he
    rwa [hrow]
  cases hrow : s.threads.row i with
  | starting =>
    rw [hrow] at hstep
    exact h.start hi (hentry hrow ⟨rfl, rfl, rfl, rfl, rfl⟩) hstep
  | sending bytes =>
    rw [hrow] at hstep
    exact h.sendInternal hi (hentry hrow ⟨rfl, rfl, rfl, rfl, rfl⟩) (Option.some.inj hstep)
  | pausingReceive =>
    rw [hrow] at hstep
    obtain ⟨rfl, rfl⟩ := of_some_pair hstep
    exact h.pause hi (hentry hrow ⟨rfl, rfl, rfl, rfl, rfl⟩)
  | resumingReceive =>
    rw [hrow] at hstep
    exact h.resume hi (hentry hrow ⟨rfl, rfl, rfl, rfl, rfl⟩) (Option.some.inj hstep)
  | closing =>
    rw [hrow] at hstep
    obtain ⟨rfl, rfl⟩ := of_some_pair hstep
    exact h.close hi (hentry hrow ⟨rfl, rfl, rfl, rfl, rfl⟩)
  | closingAfterSend =>
    rw [hrow] at hstep
    obtain ⟨rfl, rfl⟩ := of_some_pair hstep
    exact h.closeAfterSend hi (hentry hrow ⟨rfl, rfl, rfl, rfl, rfl⟩)
  | settingObserver alive =>
    rw [hrow] at hstep
    obtain ⟨t, ht, heq⟩ := Option.map_eq_some_iff.mp hstep
    obtain ⟨rfl, rfl⟩ := Prod.mk.inj heq
    exact h.setObserver hi (hentry hrow ⟨rfl, rfl, rfl, rfl, rfl⟩) ht
  | receiveCompleted result =>
    rw [hrow] at hstep
    exact h.receiveCompleted hi hrow (Option.some.inj hstep)
  | sendCompleted result =>
    rw [hrow] at hstep
    obtain ⟨rfl, rfl⟩ := of_some_pair hstep
    exact h.sendCompleted hi hrow
  | received count =>
    rw [hrow] at hstep
    obtain ⟨rfl, rfl⟩ := of_some_pair hstep
    exact h.lend hi hrow rfl (by split <;> rfl)
  | delivering count =>
    rw [hrow] at hstep
    obtain ⟨rfl, rfl⟩ := of_some_pair hstep
    exact h.lend hi hrow rfl rfl
  | returned =>
    rw [hrow] at hstep
    obtain ⟨rfl, rfl⟩ := of_some_pair hstep
    exact h.finishReceive hi hrow
  | notifying =>
    rw [hrow] at hstep
    exact h.notify hi hrow (Option.some.inj hstep)
  | disconnecting reason =>
    rw [hrow] at hstep
    exact h.disconnect hi hrow hstep
  | disconnected reason =>
    rw [hrow] at hstep
    obtain ⟨rfl, rfl⟩ := of_some_pair hstep
    exact h.leave hi (hentry hrow ⟨rfl, rfl, rfl, rfl, rfl⟩) h.ok h.receives h.sends (.refl _) (.inl rfl) fun _ => id
  | finished =>
    rw [hrow] at hstep
    cases hstep

lemma Inv.expire (h : Inv s) : Inv { s with shared := { s.shared with observer := false } } := by
  have hok := h.ok
  refine ⟨⟨hok.pending, hok.held, hok.opened, hok.lingers, hok.closed, hok.apart, hok.queue, hok.borrowed, hok.notified,
      hok.failed⟩, ⟨h.receives.opened, h.receives.lingers⟩, h.sends, h.receive, h.send, h.borrows, h.calls, nofun, h.reasons,
    fun j hj => ?_, h.due⟩
  exact (h.placed j hj).mono List.prefix_rfl id fun _ => rfl

lemma Inv.step (h : Inv s) (hstep : step s e = some s') : Inv s' := by
  cases e with
  | call call =>
    obtain rfl := Option.some.inj hstep
    have hplaced : Placed s.shared call.place := by cases call <;> trivial
    refine h.push hplaced ?_ ?_ ?_ ?_ <;> cases call <;> rfl
  | completeReceive result =>
    obtain ⟨hr, rfl⟩ := of_guard hstep
    refine @Inv.push s (.receiveCompleted result) h false s.shared.sending trivial rfl rfl ?_ rfl
    rw [hr]
    rfl
  | completeSend result =>
    simp only [IocpConnection.step, Option.ite_none_right_eq_some, Bool.and_eq_true] at hstep
    obtain ⟨⟨hs, hw⟩, hstep⟩ := hstep
    obtain rfl := Option.some.inj hstep
    refine @Inv.push s (.sendCompleted result) h s.shared.receiving false hw rfl rfl rfl ?_
    rw [hs]
    rfl
  | expire =>
    obtain rfl := Option.some.inj hstep
    exact h.expire
  | advance i c =>
    simp only [IocpConnection.step, Option.ite_none_right_eq_some] at hstep
    obtain ⟨hi, hstep⟩ := hstep
    obtain ⟨⟨shared, place⟩, hadv, rfl⟩ := Option.map_eq_some_iff.mp hstep
    exact h.advance hi hadv

lemma inv_of_reached (h : Reached s) : Inv s :=
  h.invariant (fun _ hs => Inv.init hs) fun _ _ _ hi hs => hi.step hs

lemma advance_notified {s s' : Shared} {c : Choice} {place place' : Place} (h : s.Ok) (hn : s.disconnectNotified = true)
    (hr : place.completesReceive = false) (hs : place.completesSend = false) (hb : place.borrows = false)
    (hstep : IocpConnection.advance s c place = some (s', place')) : s'.disconnectNotified = true := by
  obtain ⟨hc, hl, -⟩ := h.notified hn
  cases place with
  | starting =>
    have hs : s.start c = some (s', place') := hstep
    unfold Shared.start at hs
    split at hs
    · cases hs
    · simp only [Shared.startReceiveLocked, hc, hl, Bool.not_false, Bool.and_self, Bool.true_or, if_true,
        Shared.checked] at hs
      obtain ⟨rfl, -⟩ := of_some_pair hs
      exact hn
  | sending bytes =>
    have hs : s.sendInternal bytes c = (s', place') := Option.some.inj hstep
    simp only [Shared.sendInternal, hc, Bool.true_or, if_true] at hs
    obtain ⟨rfl, -⟩ := Prod.mk.inj hs
    exact hn
  | pausingReceive =>
    obtain ⟨rfl, -⟩ := of_some_pair hstep
    simpa only [Shared.pauseReceive, hc, if_true] using hn
  | resumingReceive =>
    have hs : s.resumeReceive c = (s', place') := Option.some.inj hstep
    simp only [Shared.resumeReceive, hc, if_true] at hs
    obtain ⟨rfl, -⟩ := Prod.mk.inj hs
    exact hn
  | closing =>
    obtain ⟨rfl, -⟩ := of_some_pair hstep
    have hok : Shared.Ok { s with closeAfterSendRequested := false } :=
      ⟨h.pending, h.held, h.opened, h.lingers, h.closed, h.apart, h.queue, h.borrowed, h.notified, h.failed⟩
    exact (Shared.close_ok hok closedStatus).2.2.2.disconnectNotified.trans hn
  | closingAfterSend =>
    obtain ⟨rfl, -⟩ := of_some_pair hstep
    simpa only [Shared.closeAfterSend, hc, if_true] using hn
  | settingObserver alive =>
    obtain ⟨t, ht, heq⟩ := Option.map_eq_some_iff.mp hstep
    obtain ⟨rfl, -⟩ := Prod.mk.inj heq
    unfold Shared.setObserver at ht
    split at ht <;> cases ht
    exact hn
  | notifying =>
    have hs : s.maybeNotifyDisconnected = (s', place') := Option.some.inj hstep
    unfold Shared.maybeNotifyDisconnected at hs
    repeat' split at hs
    all_goals
      obtain ⟨rfl, -⟩ := Prod.mk.inj hs
      exact hn
  | disconnecting reason =>
    simp only [IocpConnection.advance] at hstep
    split at hstep
    all_goals
      obtain ⟨rfl, -⟩ := of_some_pair hstep
      exact hn
  | disconnected reason =>
    obtain ⟨rfl, -⟩ := of_some_pair hstep
    exact hn
  | finished => cases hstep
  | receiveCompleted result => cases hr
  | sendCompleted result => cases hs
  | _ => cases hb

lemma Inv.idle_of_notified (h : Inv s) (hn : s.shared.disconnectNotified = true) {i : ℕ} (hi : i < s.threads.count) :
    (s.threads.row i).completesReceive = false ∧ (s.threads.row i).completesSend = false ∧
      (s.threads.row i).borrows = false := by
  obtain ⟨-, -, hr, hs, ha, -⟩ := h.ok.notified hn
  refine ⟨Bool.eq_false_iff.mpr fun hrow => ?_, Bool.eq_false_iff.mpr fun hrow => ?_, Bool.eq_false_iff.mpr fun hrow => ?_⟩
  · exact absurd (hr.symm.trans (h.receiving_of_completion hi hrow).1) nofun
  · exact absurd (hs.symm.trans (h.sending_of_completion hi hrow).1) nofun
  · have hpos := Table.tally_pos hi hrow
    have := h.borrows
    rw [ha, Bool.toNat_false] at this
    omega

lemma step_notified (h : Inv s) (hn : s.shared.disconnectNotified = true) (hstep : IocpConnection.step s e = some s') :
    s'.shared.disconnectNotified = true := by
  cases e with
  | call call =>
    obtain rfl := Option.some.inj hstep
    exact hn
  | completeReceive result =>
    obtain ⟨-, rfl⟩ := of_guard hstep
    exact hn
  | completeSend result =>
    obtain ⟨-, rfl⟩ := of_guard hstep
    exact hn
  | expire =>
    obtain rfl := Option.some.inj hstep
    exact hn
  | advance i c =>
    simp only [IocpConnection.step, Option.ite_none_right_eq_some] at hstep
    obtain ⟨hi, hstep⟩ := hstep
    obtain ⟨⟨shared, place⟩, hadv, rfl⟩ := Option.map_eq_some_iff.mp hstep
    obtain ⟨hr, hs, hb⟩ := h.idle_of_notified hn hi
    exact advance_notified h.ok hn hr hs hb hadv

lemma Inv.notified_of_call (h : Inv s) (hd : s.shared.disconnects ≠ []) : s.shared.disconnectNotified = true := by
  have hcalls := h.calls
  have hpos := List.length_pos_iff.mpr hd
  cases hn : s.shared.disconnectNotified with
  | true => rfl
  | false =>
    rw [hn, Bool.toNat_false] at hcalls
    omega

end Run

def ReceiveInFlight (s : State) : Prop :=
  s.shared.receiving = true ∨ ∃ i < s.threads.count, (s.threads.row i).completesReceive = true

def SendInFlight (s : State) : Prop :=
  s.shared.sending = true ∨ ∃ i < s.threads.count, (s.threads.row i).completesSend = true

structure Sound (s : State) : Prop where
  counted : s.shared.pendingOperations = s.shared.receiving.toNat + s.threads.tally Place.completesReceive +
    (s.shared.sending.toNat + s.threads.tally Place.completesSend)
  single : s.shared.receiving.toNat + s.threads.tally Place.completesReceive ≤ 1 ∧
    s.shared.sending.toNat + s.threads.tally Place.completesSend ≤ 1
  asserted : s.shared.failed = false
  buffer : (∀ i < s.threads.count, ∀ j < s.threads.count, (s.threads.row i).borrows = true →
    (s.threads.row j).borrows = true → i = j) ∧
    (ReceiveInFlight s → ∀ i < s.threads.count, (s.threads.row i).borrows = false)
  front : SendInFlight s → s.shared.sendQueue.empty = false ∧ s.shared.sendQueue.front = s.shared.borrowed
  once : s.shared.disconnects.length ≤ 1
  reason : ∀ reason ∈ s.shared.disconnects, s.shared.closings.head? = some reason
  barrier : (s.shared.disconnects ≠ [] ∨ ∃ i < s.threads.count, (s.threads.row i).disconnects = true) →
    s.shared.closed = true ∧ s.shared.lingering = false ∧ ¬ ReceiveInFlight s ∧ ¬ SendInFlight s ∧
      ∀ i < s.threads.count, (s.threads.row i).borrows = false
  told : (∀ i < s.threads.count, (s.threads.row i).runs = false) → s.shared.closed = true → ¬ ReceiveInFlight s →
    ¬ SendInFlight s → s.shared.observerAssigned = true → s.shared.observer = true → s.shared.disconnects.length = 1
  sends : s.shared.closed = false → s.shared.sendQueue.empty = false → SendInFlight s
  receives : (∀ i < s.threads.count, (s.threads.row i).runs = false) →
    (s.shared.started = true ∧ s.shared.receivePaused = false ∧ s.shared.closed = false ∨ s.shared.lingering = true) →
    ReceiveInFlight s

section Flight

variable {s : State}

lemma Inv.receive_iff (h : Inv s) : s.shared.receiveInFlight = true ↔ ReceiveInFlight s := by
  constructor
  · intro hr
    have hsum := h.receive
    cases hk : s.shared.receiving with
    | true => exact .inl hk
    | false =>
      rw [hr, hk, Bool.toNat_true, Bool.toNat_false] at hsum
      exact .inr (Table.exists_of_tally_pos (by omega))
  · rintro (hk | ⟨i, hi, hrow⟩)
    · exact h.ok.held.1 hk
    · exact (h.receiving_of_completion hi hrow).1

lemma Inv.send_iff (h : Inv s) : s.shared.sendInFlight = true ↔ SendInFlight s := by
  constructor
  · intro hs
    have hsum := h.send
    cases hk : s.shared.sending with
    | true => exact .inl hk
    | false =>
      rw [hs, hk, Bool.toNat_true, Bool.toNat_false] at hsum
      exact .inr (Table.exists_of_tally_pos (by omega))
  · rintro (hk | ⟨i, hi, hrow⟩)
    · exact h.ok.held.2 hk
    · exact (h.sending_of_completion hi hrow).1

lemma Inv.no_borrower (h : Inv s) (ha : s.shared.receiveCallbackActive = false) {i : ℕ} (hi : i < s.threads.count) :
    (s.threads.row i).borrows = false := by
  refine Bool.eq_false_iff.mpr fun hrow => ?_
  have hpos := Table.tally_pos hi hrow
  have := h.borrows
  rw [ha, Bool.toNat_false] at this
  omega

lemma runs_of_borrows {place : Place} (h : place.borrows = true) : place.runs = true := by
  cases place <;> first | rfl | cases h

lemma Inv.idle_callback (h : Inv s) (hquiet : ∀ i < s.threads.count, (s.threads.row i).runs = false) :
    s.shared.receiveCallbackActive = false := by
  refine Bool.eq_false_iff.mpr fun ha => ?_
  have hsum := h.borrows
  rw [ha, Bool.toNat_true] at hsum
  obtain ⟨i, hi, hrow⟩ := Table.exists_of_tally_pos (hsum ▸ Nat.one_pos)
  exact absurd ((hquiet i hi).symm.trans (runs_of_borrows hrow)) nofun

end Flight

/-- In every run the connection tells its observer once, behind its last request, lends each buffer to one
party at a time and keeps every request that it needs. -/
theorem iocp_sound_of_reached {s : State} (h : Reached s) : Sound s ∧ ∀ s', Steps step s s' → s.shared.disconnects ≠ [] →
    ∀ i < s'.threads.count, (s'.threads.row i).borrows = false := by
  have hi := inv_of_reached h
  have hok := hi.ok
  refine ⟨⟨?_, ⟨?_, ?_⟩, hok.failed, ⟨?_, ?_⟩, ?_, ?_, hi.reasons, ?_, ?_, ?_, ?_⟩, ?_⟩
  · rw [hok.pending, hi.receive, hi.send]
  · rw [← hi.receive]
    exact Bool.toNat_le _
  · rw [← hi.send]
    exact Bool.toNat_le _
  · intro i hilt j hjlt hbi hbj
    refine Table.eq_of_tally_le_one ?_ hilt hjlt hbi hbj
    rw [← hi.borrows]
    exact Bool.toNat_le _
  · intro hr i hilt
    exact hi.no_borrower (hok.apart (hi.receive_iff.mpr hr)) hilt
  · intro hs
    exact hok.borrowed (hi.send_iff.mpr hs)
  · have := hi.calls
    have hb := Bool.toNat_le s.shared.disconnectNotified
    omega
  · intro hcalled
    have hn : s.shared.disconnectNotified = true := by
      rcases hcalled with hd | ⟨i, hilt, hrow⟩
      · exact hi.notified_of_call hd
      · have hp := hi.placed i hilt
        cases hplace : s.threads.row i with
        | disconnecting reason =>
          rw [hplace] at hp
          exact hp.1
        | _ =>
          rw [hplace] at hrow
          cases hrow
    obtain ⟨hc, hl, hr, hs, -, -⟩ := hok.notified hn
    refine ⟨hc, hl, fun hf => ?_, fun hf => ?_, fun i hilt => (hi.idle_of_notified hn hilt).2.2⟩
    · exact absurd (hr.symm.trans (hi.receive_iff.mpr hf)) nofun
    · exact absurd (hs.symm.trans (hi.send_iff.mpr hf)) nofun
  · intro hquiet hc hr hs ha ho
    have hnone : ∀ p : Place → Bool, (∀ place, place.runs = false → p place = false) → s.threads.tally p = 0 := by
      intro p hp
      by_contra hne
      obtain ⟨i, hilt, hrow⟩ := Table.exists_of_tally_pos (Nat.pos_of_ne_zero hne)
      exact absurd ((hp _ (hquiet i hilt)).symm.trans hrow) nofun
    have hcalls := hnone Place.disconnects fun place hr => by cases place <;> first | rfl | cases hr
    have hnots := hnone Place.notifies fun place hr => by cases place <;> first | rfl | cases hr
    have hr' : s.shared.receiveInFlight = false := Bool.eq_false_iff.mpr fun hf => hr (hi.receive_iff.mp hf)
    have hs' : s.shared.sendInFlight = false := Bool.eq_false_iff.mpr fun hf => hs (hi.send_iff.mp hf)
    have hp : s.shared.pendingOperations = 0 := by
      rw [hok.pending, hr', hs']
      rfl
    have hn : s.shared.disconnectNotified = true := by
      cases hn : s.shared.disconnectNotified with
      | true => rfl
      | false =>
        have hpos := hi.due (by simp [Shared.due, hc, hp, hi.idle_callback hquiet, ha, hn])
        rw [hnots] at hpos
        exact absurd hpos (Nat.lt_irrefl 0)
    have hle := hi.called ho
    have hge := hi.calls
    rw [hn, hcalls, Bool.toNat_true] at hle hge
    omega
  · intro hc hq
    exact hi.send_iff.mp (hi.sends hc hq)
  · intro hquiet hneed
    have ha := hi.idle_callback hquiet
    have hbusy : s.shared.receiveInFlight = true ∨ s.shared.receiveCallbackActive = true := by
      rcases hneed with ⟨hs, hp, hc⟩ | hl
      · exact hi.receives.opened hs hp hc
      · exact hi.receives.lingers hl
    rcases hbusy with hr | ha'
    · exact hi.receive_iff.mp hr
    · exact absurd (ha.symm.trans ha') nofun
  · intro s' hsteps hd i hilt
    have hlater : Inv s' ∧ s'.shared.disconnectNotified = true :=
      hsteps.invariant (P := fun t => Inv t ∧ t.shared.disconnectNotified = true) ⟨hi, hi.notified_of_call hd⟩
        fun t e t' ht hstep => ⟨ht.1.step hstep, step_notified ht.1 ht.2 hstep⟩
    exact (hlater.1.idle_of_notified hlater.2 hilt).2.2

def answerAndClose : List Event :=
  [.call (.setObserver true), .advance 0 {}, .advance 0 {}, .call .start, .advance 1 {}, .completeReceive (.transferred 3),
    .advance 2 {}, .advance 2 {}, .call (.send [1, 2]), .advance 3 {}, .call .closeAfterSend, .advance 4 {}, .advance 4 {},
    .completeSend (.transferred 2), .advance 5 {}, .advance 5 {}, .advance 2 {}, .advance 2 {}, .advance 2 {},
    .completeReceive (.transferred 0), .advance 6 {}, .advance 6 {}, .advance 6 {}, .advance 6 {}]

theorem iocp_sound_of_reached_answer : ∃ s, run step { shared := { connectionLimit := 16 } } answerAndClose = some s ∧
    s.shared.disconnects = [closedStatus] ∧ Sound s := by
  refine ⟨_, rfl, rfl, ?_⟩
  exact (iocp_sound_of_reached ⟨_, ⟨16, rfl⟩, answerAndClose, rfl⟩).1

end ServerCore.Net.IocpConnection
