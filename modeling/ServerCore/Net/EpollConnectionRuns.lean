import ServerCore.Net.EpollConnection

/-! What holds in every state of the connection. -/

namespace ServerCore.Net.EpollConnection

open ServerCore.Core ServerCore.Foundations

namespace Shared

structure Ok (s : Shared) : Prop where
  registered : s.registration = true → s.started = true ∧ s.descriptor = true
  armed : ∀ interest, s.armed = some interest → s.registration = true
  opened : s.closed = false → s.descriptor = true ∧ s.closings = [] ∧ s.shutWrite = false
  lingers : s.lingering = true → s.closed = true ∧ s.registration = true
  closed : s.closed = true → s.closings.head? = some (s.closeReason, s.shutWrite)
  notified : s.disconnectNotified = true → s.closed = true ∧ s.lingering = false ∧ s.processing = false ∧
    s.observerAssigned = true

structure Flow (s : Shared) : Prop where
  kernel : s.kernel <+: s.accepted
  shut : s.shutWrite = true → s.kernel = s.accepted

structure Queued (s : Shared) : Prop where
  sends : s.sends.Ok
  rest : s.closed = false → s.kernel ++ s.sends.unsent = s.accepted

def needs (s : Shared) (interest : Interest) : Bool :=
  match s.armed with
  | none => true
  | some armed => interest.input && !armed.input || interest.output && !armed.output

def wants (s : Shared) : Bool :=
  s.started && (!s.closed || s.lingering) && !s.processing && s.interestLocked ≠ ⟨false, false⟩ && s.needs s.interestLocked

def due (s : Shared) : Bool := s.closed && !s.lingering && s.observerAssigned && !s.disconnectNotified

structure Kept (s s' : Shared) : Prop where
  processing : s'.processing = s.processing
  observer : s'.observer = s.observer
  observerAssigned : s'.observerAssigned = s.observerAssigned
  disconnectNotified : s'.disconnectNotified = s.disconnectNotified
  disconnects : s'.disconnects = s.disconnects
  closings : s.closings <+: s'.closings
  closed : s.closed = true → s'.closed = true
  settled : s.closed = true → s.lingering = false → s'.lingering = false

variable {s s' s'' : Shared} {c : Choice}

lemma Kept.refl (s : Shared) : Kept s s :=
  ⟨rfl, rfl, rfl, rfl, rfl, List.prefix_rfl, id, fun _ => id⟩

lemma Kept.trans (h : Kept s s') (h' : Kept s' s'') : Kept s s'' where
  processing := h'.processing.trans h.processing
  observer := h'.observer.trans h.observer
  observerAssigned := h'.observerAssigned.trans h.observerAssigned
  disconnectNotified := h'.disconnectNotified.trans h.disconnectNotified
  disconnects := h'.disconnects.trans h.disconnects
  closings := h.closings.trans h'.closings
  closed hc := h'.closed (h.closed hc)
  settled hc hl := h'.settled (h.closed hc) (h.settled hc hl)

def released (s : Shared) : Shared :=
  { s with lingering := false, registration := false, armed := none, descriptor := false }

lemma Ok.unregistered (h : s.Ok) (hd : s.descriptor = false) : s.registration = false ∧ s.armed = none := by
  have hr : s.registration = false := by
    refine Bool.eq_false_iff.mpr fun hr => ?_
    rw [(h.registered hr).2] at hd
    cases hd
  refine ⟨hr, ?_⟩
  cases ha : s.armed with
  | none => rfl
  | some interest =>
    rw [h.armed interest ha] at hr
    cases hr

def ended (s : Shared) (reason : Status) (graceful : Bool) : Shared :=
  { s with closings := s.closings ++ [(reason, graceful)], closed := true, closeReason := reason, shutWrite := graceful }

def drained (s : Shared) : Shared := if s.processing then s else s.discardSendsLocked

lemma drained_cases (s : Shared) : s.drained = s ∨ s.drained = { s with sends := {} } := by
  unfold drained
  split
  · exact .inl rfl
  · exact .inr rfl

lemma closeLocked_open (h : s.Ok) (hc : s.closed = false) (reason : Status) (graceful ok : Bool) :
    (graceful = true ∧ s.registration = true ∧ ∃ armed, (s.processing = true ∧ armed = s.armed ∨ armed = some ⟨true, false⟩) ∧
      s.closeLocked reason graceful ok = { s.ended reason graceful with lingering := true, armed := armed }.drained) ∨
      s.closeLocked reason graceful ok = (s.ended reason graceful).released.drained := by
  obtain ⟨hd, -, -⟩ := h.opened hc
  cases graceful with
  | false =>
    refine .inr ?_
    simp [closeLocked, hc, hd, releaseDescriptorLocked, drained, released, ended]
  | true =>
    cases hr : s.registration with
    | false =>
      refine .inr ?_
      simp [closeLocked, hc, hd, hr, releaseDescriptorLocked, drained, released, ended]
    | true =>
      cases hp : s.processing with
      | true =>
        refine .inl ⟨rfl, rfl, s.armed, .inl ⟨rfl, rfl⟩, ?_⟩
        simp [closeLocked, hc, hd, hr, hp, drained, ended]
      | false =>
        cases ok with
        | true =>
          refine .inl ⟨rfl, rfl, some ⟨true, false⟩, .inr rfl, ?_⟩
          simp [closeLocked, hc, hd, hr, hp, rearmLocked, interestLocked, rearm, drained, ended]
        | false =>
          refine .inr ?_
          simp [closeLocked, hc, hd, hr, hp, rearmLocked, interestLocked, rearm, releaseDescriptorLocked, drained,
            released, ended]

lemma closeLocked_closed (h : s.Ok) (hc : s.closed = true) (reason : Status) (graceful ok : Bool) :
    s.closeLocked reason graceful ok =
      if s.lingering then { s with closings := s.closings ++ [(reason, graceful)] }.released
      else { s with closings := s.closings ++ [(reason, graceful)] } := by
  cases hl : s.lingering with
  | false => simp [closeLocked, hc, hl]
  | true =>
    have hd := (h.registered (h.lingers hl).2).2
    simp [closeLocked, hc, hl, releaseDescriptorLocked, released, hd]

lemma Ok.closing (h : s.Ok) (hc : s.closed = true) (closing : Status × Bool) :
    Ok { s with closings := s.closings ++ [closing] } := by
  have hhead := h.closed hc
  refine ⟨h.registered, h.armed, fun ho => ?_, h.lingers, fun _ => ?_, h.notified⟩
  · have ho' : s.closed = false := ho
    rw [hc] at ho'
    cases ho'
  · dsimp only
    cases hcl : s.closings with
    | nil =>
      rw [hcl] at hhead
      cases hhead
    | cons first rest =>
      rw [hcl] at hhead
      exact hhead

lemma Ok.released (h : s.Ok) (hc : s.closed = true) : s.released.Ok := by
  refine ⟨fun hr => (by cases hr), fun _ ha => (by cases ha), fun ho => ?_, fun hl => (by cases hl), h.closed,
    fun hn => ?_⟩
  · have ho' : s.closed = false := ho
    rw [hc] at ho'
    cases ho'
  · obtain ⟨hc, -, hp, ha⟩ := h.notified hn
    exact ⟨hc, rfl, hp, ha⟩

lemma Ok.drained (h : s.Ok) : s.drained.Ok := by
  rcases drained_cases s with heq | heq
  · rw [heq]
    exact h
  · rw [heq]
    exact ⟨h.registered, h.armed, h.opened, h.lingers, h.closed, h.notified⟩

lemma Ok.unnotified (h : s.Ok) (hc : s.closed = false) : s.disconnectNotified = false := by
  refine Bool.eq_false_iff.mpr fun hn => ?_
  rw [(h.notified hn).1] at hc
  cases hc

lemma Ok.ended_released (h : s.Ok) (hc : s.closed = false) (reason : Status) (graceful : Bool) :
    (s.ended reason graceful).released.Ok := by
  have hn := h.unnotified hc
  refine ⟨fun hr => (by cases hr), fun _ ha => (by cases ha), fun ho => (by cases ho), fun hl => (by cases hl),
    fun _ => ?_, fun hn' => ?_⟩
  · simp [Shared.ended, Shared.released, (h.opened hc).2.1]
  · have hn'' : s.disconnectNotified = true := hn'
    rw [hn] at hn''
    cases hn''

lemma Ok.ended_lingering (h : s.Ok) (hc : s.closed = false) (hr : s.registration = true) (reason : Status) (graceful : Bool)
    (armed : Option Interest) : Ok { s.ended reason graceful with lingering := true, armed := armed } := by
  have hn := h.unnotified hc
  refine ⟨h.registered, fun _ _ => hr, fun ho => (by cases ho), fun _ => ⟨rfl, hr⟩, fun _ => ?_,
    fun hn' => ?_⟩
  · simp [Shared.ended, (h.opened hc).2.1]
  · have hn'' : s.disconnectNotified = true := hn'
    rw [hn] at hn''
    cases hn''

lemma wants_of_closed (hc : s.closed = true) (hl : s.lingering = false) : s.wants = false := by simp [wants, hc, hl]

lemma wants_of_processing (hp : s.processing = true) : s.wants = false := by simp [wants, hp]

lemma needs_self (interest : Interest) (ha : s.armed = some interest) : s.needs interest = false := by
  simp [needs, ha]

lemma wants_of_armed (ha : s.armed = some s.interestLocked) : s.wants = false := by
  simp [wants, needs_self _ ha]

lemma closeLocked_ok (h : s.Ok) (reason : Status) (graceful ok : Bool) :
    (s.closeLocked reason graceful ok).Ok ∧ (s.closeLocked reason graceful ok).closed = true ∧
      (s.closeLocked reason graceful ok).wants = false := by
  cases hc : s.closed with
  | true =>
    rw [closeLocked_closed h hc]
    have hk := h.closing hc (reason, graceful)
    split
    · exact ⟨hk.released hc, hc, wants_of_closed hc rfl⟩
    · rename_i hl
      exact ⟨hk, hc, wants_of_closed hc (Bool.eq_false_iff.mpr hl)⟩
  | false =>
    rcases closeLocked_open h hc reason graceful ok with ⟨-, hr, armed, harmed, heq⟩ | heq
    · rw [heq]
      have hk := (h.ended_lingering hc hr reason graceful armed).drained
      refine ⟨hk, ?_, ?_⟩
      · rcases drained_cases { s.ended reason graceful with lingering := true, armed := armed } with he | he <;> rw [he] <;> rfl
      · rcases harmed with ⟨hp, -⟩ | rfl
        · apply wants_of_processing
          rcases drained_cases { s.ended reason graceful with lingering := true, armed := armed } with he | he <;> rw [he] <;> exact hp
        · apply wants_of_armed
          rcases drained_cases { s.ended reason graceful with lingering := true, armed := some ⟨true, false⟩ } with he | he <;>
            rw [he] <;> rfl
    · rw [heq]
      refine ⟨(h.ended_released hc reason graceful).drained, ?_, ?_⟩
      · rcases drained_cases (s.ended reason graceful).released with he | he <;> rw [he] <;> rfl
      · rcases drained_cases (s.ended reason graceful).released with he | he <;> rw [he] <;> exact wants_of_closed rfl rfl

lemma kept_drained (s : Shared) : Kept s s.drained := by
  rcases drained_cases s with heq | heq
  · rw [heq]
    exact .refl s
  · rw [heq]
    exact ⟨rfl, rfl, rfl, rfl, rfl, List.prefix_rfl, id, fun _ => id⟩

lemma closeLocked_kept (h : s.Ok) (reason : Status) (graceful ok : Bool) : Kept s (s.closeLocked reason graceful ok) := by
  cases hc : s.closed with
  | true =>
    rw [closeLocked_closed h hc]
    split
    · exact ⟨rfl, rfl, rfl, rfl, rfl, List.prefix_append _ _, id, fun _ _ => rfl⟩
    · exact ⟨rfl, rfl, rfl, rfl, rfl, List.prefix_append _ _, id, fun _ => id⟩
  | false =>
    have hopen : ∀ hs : s.closed = true, False := by
      rw [hc]
      nofun
    rcases closeLocked_open h hc reason graceful ok with ⟨-, -, armed, -, heq⟩ | heq
    · rw [heq]
      refine Kept.trans ?_ (kept_drained _)
      exact ⟨rfl, rfl, rfl, rfl, rfl, List.prefix_append _ _, fun _ => rfl, fun hs => (hopen hs).elim⟩
    · rw [heq]
      refine Kept.trans ?_ (kept_drained _)
      exact ⟨rfl, rfl, rfl, rfl, rfl, List.prefix_append _ _, fun _ => rfl, fun hs => (hopen hs).elim⟩

lemma closeLocked_bytes (h : s.Ok) (reason : Status) (graceful ok : Bool) :
    (s.closeLocked reason graceful ok).kernel = s.kernel ∧ (s.closeLocked reason graceful ok).accepted = s.accepted ∧
      ((s.closeLocked reason graceful ok).sends = s.sends ∨ (s.closeLocked reason graceful ok).sends = {}) ∧
      ((s.closeLocked reason graceful ok).shutWrite = true → s.shutWrite = true ∨ graceful = true ∧ s.closed = false) := by
  cases hc : s.closed with
  | true =>
    rw [closeLocked_closed h hc]
    split
    · exact ⟨rfl, rfl, .inl rfl, .inl⟩
    · exact ⟨rfl, rfl, .inl rfl, .inl⟩
  | false =>
    have key : ∀ t : Shared, t.kernel = s.kernel → t.accepted = s.accepted → t.sends = s.sends → t.shutWrite = graceful →
        t.drained.kernel = s.kernel ∧ t.drained.accepted = s.accepted ∧ (t.drained.sends = s.sends ∨ t.drained.sends = {}) ∧
          (t.drained.shutWrite = true → s.shutWrite = true ∨ graceful = true ∧ false = false) := by
      intro t hk ha hs hw
      rcases drained_cases t with heq | heq
      · rw [heq]
        exact ⟨hk, ha, .inl hs, fun ht => .inr ⟨hw ▸ ht, rfl⟩⟩
      · rw [heq]
        exact ⟨hk, ha, .inr rfl, fun ht => .inr ⟨hw ▸ ht, rfl⟩⟩
    rcases closeLocked_open h hc reason graceful ok with ⟨-, -, armed, -, heq⟩ | heq
    · rw [heq]
      exact key _ rfl rfl rfl rfl
    · rw [heq]
      exact key _ rfl rfl rfl rfl

structure Sane (s : Shared) : Prop where
  ok : s.Ok
  flow : s.Flow
  queued : s.Queued
  started : s.started = true → s.closed = false → s.registration = true

lemma closeLocked_sane (h : s.Ok) (hf : s.Flow) (hq : s.sends.Ok) (reason : Status) {graceful : Bool} (ok : Bool)
    (hg : graceful = true → s.closed = false → s.kernel = s.accepted) : (s.closeLocked reason graceful ok).Sane := by
  obtain ⟨hok, hclosed, -⟩ := closeLocked_ok h reason graceful ok
  obtain ⟨hk, ha, hs, hw⟩ := closeLocked_bytes h reason graceful ok
  refine ⟨hok, ⟨?_, fun ht => ?_⟩, ⟨?_, fun ho => ?_⟩, fun _ ho => ?_⟩
  · rw [hk, ha]
    exact hf.kernel
  · rw [hk, ha]
    rcases hw ht with hs | ⟨hg', hc⟩
    · exact hf.shut hs
    · exact hg hg' hc
  · rcases hs with heq | heq
    · rw [heq]
      exact hq
    · rw [heq]
      exact .nil
  · rw [hclosed] at ho
    cases ho
  · rw [hclosed] at ho
    cases ho

lemma Sane.closeLocked (h : s.Sane) (reason : Status) {graceful : Bool} (ok : Bool)
    (hg : graceful = true → s.sends.empty = true) : (s.closeLocked reason graceful ok).Sane := by
  refine closeLocked_sane h.ok h.flow h.queued.sends reason ok fun ht hc => ?_
  have hrest := h.queued.rest hc
  rwa [(h.queued.sends.empty_iff).mp (hg ht), List.append_nil] at hrest

lemma rearm_eq (hr : s.registration = true) (interest : Interest) (ok : Bool) :
    s.rearm interest ok = if ok then (true, { s with armed := some interest }) else (false, s) := by
  simp only [rearm, hr, Bool.true_and]

lemma Ok.rearmed (h : s.Ok) (hr : s.registration = true) (interest : Interest) :
    Ok { s with armed := some interest } :=
  ⟨h.registered, fun _ _ => hr, h.opened, h.lingers, h.closed, h.notified⟩

lemma Sane.rearmed (h : s.Sane) (hr : s.registration = true) (interest : Interest) :
    Sane { s with armed := some interest } :=
  ⟨h.ok.rearmed hr interest, ⟨h.flow.kernel, h.flow.shut⟩, ⟨h.queued.sends, h.queued.rest⟩, h.started⟩

lemma kept_rearmed (s : Shared) (armed : Option Interest) : Kept s { s with armed := armed } :=
  ⟨rfl, rfl, rfl, rfl, rfl, List.prefix_rfl, id, fun _ => id⟩

lemma rearm_cases (ok : Bool) :
    s.registration = true ∧ s.rearm s.interestLocked ok = (true, { s with armed := some s.interestLocked }) ∨
      s.rearm s.interestLocked ok = (false, s) := by
  by_cases hr : s.registration = true
  · rw [rearm_eq hr]
    cases ok with
    | true => exact .inl ⟨hr, rfl⟩
    | false => exact .inr rfl
  · exact .inr (by simp [rearm, hr])

lemma rearmLocked_cases (ok : Bool) :
    (∃ armed, s.rearmLocked ok = (true, { s with armed := armed }) ∧
      (armed = s.armed ∨ s.registration = true ∧ ∃ interest, armed = some interest) ∧
      wants { s with armed := armed } = false) ∨ s.rearmLocked ok = (false, s) := by
  unfold rearmLocked
  split
  · rename_i hi
    refine .inl ⟨s.armed, rfl, .inl rfl, ?_⟩
    simp [wants, hi]
  · rcases rearm_cases ok with ⟨hr, heq⟩ | heq
    · rw [heq]
      exact .inl ⟨some s.interestLocked, rfl, .inr ⟨hr, _, rfl⟩, wants_of_armed rfl⟩
    · exact .inr heq

lemma Sane.armed (h : s.Sane) {armed : Option Interest}
    (ha : armed = s.armed ∨ s.registration = true ∧ ∃ interest, armed = some interest) : Sane { s with armed := armed } := by
  rcases ha with rfl | ⟨hr, interest, rfl⟩
  · exact h
  · exact h.rearmed hr interest

lemma Sane.paused (h : s.Sane) (receivePaused : Bool) : Sane { s with receivePaused := receivePaused } :=
  ⟨⟨h.ok.registered, h.ok.armed, h.ok.opened, h.ok.lingers, h.ok.closed, h.ok.notified⟩, ⟨h.flow.kernel, h.flow.shut⟩,
    ⟨h.queued.sends, h.queued.rest⟩, h.started⟩

lemma Sane.closingAfterSend (h : s.Sane) : Sane { s with closeAfterSend := true } :=
  ⟨⟨h.ok.registered, h.ok.armed, h.ok.opened, h.ok.lingers, h.ok.closed, h.ok.notified⟩, ⟨h.flow.kernel, h.flow.shut⟩,
    ⟨h.queued.sends, h.queued.rest⟩, h.started⟩

lemma Ok.sending (h : s.Ok) (sends : SendQueue) (accepted kernel : Bytes) :
    Ok { s with sends := sends, accepted := accepted, kernel := kernel } :=
  ⟨h.registered, h.armed, h.opened, h.lingers, h.closed, h.notified⟩

lemma Sane.sent (h : s.Sane) {sends : SendQueue} {bytes : Bytes} (hc : s.closed = false)
    (hs : sends.Ok ∧ sends.unsent = s.sends.unsent ++ bytes) :
    Sane { s with sends := sends, accepted := s.accepted ++ bytes } := by
  refine ⟨h.ok.sending _ _ _, ⟨h.flow.kernel.trans (List.prefix_append _ _), fun ht => ?_⟩, ⟨hs.1, fun _ => ?_⟩, h.started⟩
  · have ht' : s.shutWrite = true := ht
    rw [(h.ok.opened hc).2.2] at ht'
    cases ht'
  · dsimp only
    rw [hs.2, ← List.append_assoc, h.queued.rest hc]

lemma kept_sent (s : Shared) (sends : SendQueue) (accepted kernel : Bytes) :
    Kept s { s with sends := sends, accepted := accepted, kernel := kernel } :=
  ⟨rfl, rfl, rfl, rfl, rfl, List.prefix_rfl, id, fun _ => id⟩

lemma Sane.taken (h : s.Sane) (hc : s.closed = false) {count : ℕ} (hle : count ≤ s.sends.front.length) :
    Sane { s with kernel := s.kernel ++ s.sends.front.take count, sends := s.sends.consume count } := by
  obtain ⟨hok, hcut⟩ := SendQueue.consume_unsent h.queued.sends hle
  have hrest := h.queued.rest hc
  have hall : s.kernel ++ s.sends.front.take count ++ (s.sends.consume count).unsent = s.accepted := by
    rw [List.append_assoc, hcut, hrest]
  refine ⟨h.ok.sending _ _ _, ⟨⟨_, hall⟩, fun ht => ?_⟩, ⟨hok, fun _ => hall⟩, h.started⟩
  have ht' : s.shutWrite = true := ht
  rw [(h.ok.opened hc).2.2] at ht'
  cases ht'

lemma sendLoop_sane (c : Choice) (attempts : ℕ) (h : s.Sane) :
    (s.sendLoop c attempts).2.Sane ∧ Kept s (s.sendLoop c attempts).2 := by
  induction attempts generalizing s with
  | zero => exact ⟨h, .refl s⟩
  | succ attempts ih =>
    unfold sendLoop
    split
    · exact ⟨h, .refl s⟩
    · rename_i hopen
      simp only [Bool.or_eq_true, not_or, Bool.not_eq_true] at hopen
      cases c.sent attempts with
      | interrupted => exact ih h
      | wouldBlock => exact ⟨h, .refl s⟩
      | failed reason => exact ⟨h.closeLocked reason c.ok nofun, closeLocked_kept h.ok ..⟩
      | taken count =>
        dsimp only
        split
        · exact ⟨h.closeLocked _ c.ok nofun, closeLocked_kept h.ok ..⟩
        · obtain ⟨hsane, hkept⟩ := ih (h.taken hopen.1 (Nat.min_le_right ..))
          exact ⟨hsane, (kept_sent s _ _ _).trans hkept⟩

lemma checkSocket_sane (h : s.Sane) (events : Events) (c : Choice) :
    (s.checkSocket events c).Sane ∧ Kept s (s.checkSocket events c) := by
  unfold checkSocket
  split
  · cases c.socketError with
    | none => exact ⟨h, .refl s⟩
    | some failure => exact ⟨h.closeLocked failure c.ok nofun, closeLocked_kept h.ok ..⟩
  · exact ⟨h, .refl s⟩

lemma finishSends_sane (h : s.Sane) (events : Events) (sendBlocked : Bool) (c : Choice) :
    (s.finishSends events sendBlocked c).Sane ∧ Kept s (s.finishSends events sendBlocked c) := by
  have key : ∀ t : Shared, t.Sane → (if !t.closed && t.closeAfterSend && t.sends.empty then t.closeLocked closedStatus true c.ok
      else t).Sane ∧ Kept t (if !t.closed && t.closeAfterSend && t.sends.empty then t.closeLocked closedStatus true c.ok else t) := by
    intro t ht
    split
    · rename_i hcond
      simp only [Bool.and_eq_true] at hcond
      exact ⟨ht.closeLocked _ c.ok fun _ => hcond.2, closeLocked_kept ht.ok ..⟩
    · exact ⟨ht, .refl t⟩
  unfold finishSends
  dsimp only
  split
  · obtain ⟨hsane, hkept⟩ := key _ (@Sane.closeLocked _ h closedStatus false c.ok nofun)
    exact ⟨hsane, (closeLocked_kept h.ok ..).trans hkept⟩
  · exact key s h

lemma Sane.left (h : s.Sane) : Sane { s with processing := false } := by
  refine ⟨⟨h.ok.registered, h.ok.armed, h.ok.opened, h.ok.lingers, h.ok.closed, fun hn => ?_⟩, ⟨h.flow.kernel, h.flow.shut⟩,
    ⟨h.queued.sends, h.queued.rest⟩, h.started⟩
  obtain ⟨hc, hl, -, ha⟩ := h.ok.notified hn
  exact ⟨hc, hl, rfl, ha⟩

lemma Sane.discarded (h : s.Sane) (hc : s.closed = true) : s.discardSendsLocked.Sane := by
  refine ⟨h.ok.sending _ _ _, ⟨h.flow.kernel, h.flow.shut⟩, ⟨.nil, fun ho => ?_⟩, h.started⟩
  have ho' : s.closed = false := ho
  rw [hc] at ho'
  cases ho'

lemma leave_sane (h : s.Sane) (c : Choice) :
    (s.leave c).Sane ∧ (s.leave c).wants = false ∧ Kept { s with processing := false } (s.leave c) := by
  have hleft := h.left
  unfold leave
  dsimp only
  split
  · rename_i hcond
    simp only [Bool.and_eq_true, Bool.not_eq_true'] at hcond
    exact ⟨hleft.discarded hcond.1, wants_of_closed hcond.1 hcond.2, kept_sent { s with processing := false } _ _ _⟩
  · rcases @rearmLocked_cases { s with processing := false } c.ok with ⟨armed, heq, ha, hw⟩ | heq
    · rw [heq]
      exact ⟨hleft.armed ha, hw, kept_rearmed { s with processing := false } armed⟩
    · rw [heq]
      exact ⟨hleft.closeLocked _ _ nofun, (closeLocked_ok hleft.ok _ _ _).2.2, closeLocked_kept hleft.ok _ _ _⟩

lemma sendReady_sane (h : s.Sane) (events : Events) (c : Choice) :
    (s.sendReady events c).Sane ∧ (s.sendReady events c).wants = false ∧
      Kept { s with processing := false } (s.sendReady events c) := by
  obtain ⟨hcheck, hkept⟩ := checkSocket_sane h events c
  obtain ⟨hloop, hkept'⟩ := sendLoop_sane c 64 hcheck
  obtain ⟨hfin, hkept''⟩ := finishSends_sane hloop events ((s.checkSocket events c).sendLoop c 64).1 c
  obtain ⟨hleave, hw, hk⟩ := leave_sane hfin c
  have hall := (hkept.trans hkept').trans hkept''
  refine ⟨hleave, hw, Kept.trans ?_ hk⟩
  exact ⟨rfl, hall.observer, hall.observerAssigned, hall.disconnectNotified, hall.disconnects, hall.closings, hall.closed,
    hall.settled⟩

end Shared

def First (s : Shared) (reason : Status) : Prop := ∃ graceful, s.closings.head? = some (reason, graceful)

def Placed (s : Shared) : Place → Prop
  | .disconnecting reason | .disconnected reason => s.disconnectNotified = true ∧ First s reason
  | _ => True

structure Inv (s : State) : Prop where
  sane : s.shared.Sane
  processing : s.threads.tally Place.processes = s.shared.processing.toNat
  calls : s.shared.disconnects.length + s.threads.tally Place.disconnects ≤ s.shared.disconnectNotified.toNat
  called : s.shared.observer = true →
    s.shared.disconnectNotified.toNat ≤ s.shared.disconnects.length + s.threads.tally Place.disconnects
  reasons : ∀ reason ∈ s.shared.disconnects, First s.shared reason
  placed : ∀ j < s.threads.count, Placed s.shared (s.threads.row j)
  due : s.shared.due = true → s.shared.processing = true ∨ 0 < s.threads.tally Place.notifies
  live : s.shared.wants = true → 0 < s.threads.tally Place.carries

section Set

variable {st : State} {i : ℕ} {s' : Shared} {place : Place}

lemma First.mono {s : Shared} {reason : Status} (h : First s reason) (hc : s.closings <+: s'.closings) : First s' reason := by
  obtain ⟨graceful, hhead⟩ := h
  obtain ⟨rest, hrest⟩ := hc
  refine ⟨graceful, ?_⟩
  rw [← hrest, List.head?_append, hhead]
  rfl

lemma Placed.mono {s : Shared} (h : Placed s place) (hc : s.closings <+: s'.closings)
    (hn : s.disconnectNotified = true → s'.disconnectNotified = true) : Placed s' place := by
  cases place with
  | disconnecting reason => exact ⟨hn h.1, h.2.mono hc⟩
  | disconnected reason => exact ⟨hn h.1, h.2.mono hc⟩
  | _ => trivial

lemma Inv.set (h : Inv st) (hi : i < st.threads.count) (hsane : s'.Sane) (hplace : Placed s' place)
    (hclosings : st.shared.closings <+: s'.closings)
    (hnotified : st.shared.disconnectNotified = true → s'.disconnectNotified = true)
    (hproc : s'.processing.toNat + (st.threads.row i).processes.toNat = st.shared.processing.toNat + place.processes.toNat)
    (hcalls : s'.disconnects.length + place.disconnects.toNat + st.shared.disconnectNotified.toNat ≤
      st.shared.disconnects.length + (st.threads.row i).disconnects.toNat + s'.disconnectNotified.toNat)
    (hcalled : s'.observer = true → s'.disconnectNotified = false ∨ st.shared.observer = true ∧
      st.shared.disconnects.length + (st.threads.row i).disconnects.toNat + s'.disconnectNotified.toNat ≤
        s'.disconnects.length + place.disconnects.toNat + st.shared.disconnectNotified.toNat)
    (hreasons : ∀ reason ∈ s'.disconnects, reason ∈ st.shared.disconnects ∨ First s' reason)
    (hdue : s'.due = true → s'.processing = true ∨ place.notifies = true ∨
      st.shared.due = true ∧ st.shared.processing = false ∧ (st.threads.row i).notifies = false)
    (hlive : s'.wants = true → place.carries = true ∨ st.shared.wants = true ∧ (st.threads.row i).carries = false) :
    Inv ⟨s', st.threads.set i place⟩ where
  sane := hsane
  processing := by
    have ht := Table.tally_set hi place Place.processes
    have := h.processing
    dsimp only
    omega
  calls := by
    have ht := Table.tally_set hi place Place.disconnects
    have := h.calls
    dsimp only
    omega
  called ho := by
    have ht := Table.tally_set hi place Place.disconnects
    rcases hcalled ho with hn | ⟨ho', hle⟩
    · dsimp only
      rw [hn]
      exact Nat.zero_le _
    · have := h.called ho'
      dsimp only
      omega
  reasons reason hm := by
    rcases hreasons reason hm with hm | hf
    · exact (h.reasons reason hm).mono hclosings
    · exact hf
  placed j hj := by
    by_cases hji : j = i
    · subst hji
      rw [Table.set_row_self]
      exact hplace
    · rw [Table.set_row_ne _ _ hji]
      exact (h.placed j hj).mono hclosings hnotified
  due hd := by
    have ht := Table.tally_set hi place Place.notifies
    rcases hdue hd with hp | hn | ⟨hd', hp, hn⟩
    · exact .inl hp
    · rw [hn, Bool.toNat_true] at ht
      have hb := Bool.toNat_le (st.threads.row i).notifies
      have hb' : (st.threads.row i).notifies.toNat ≤ st.threads.tally Place.notifies :=
        Table.le_total hi fun p => p.notifies.toNat
      refine .inr ?_
      dsimp only
      omega
    · rcases h.due hd' with hp' | hpos
      · rw [hp] at hp'
        cases hp'
      · rw [hn, Bool.toNat_false] at ht
        refine .inr ?_
        dsimp only
        omega
  live hw := by
    have ht := Table.tally_set hi place Place.carries
    rcases hlive hw with hc | ⟨hw', hc⟩
    · rw [hc, Bool.toNat_true] at ht
      have hb' : (st.threads.row i).carries.toNat ≤ st.threads.tally Place.carries :=
        Table.le_total hi fun p => p.carries.toNat
      dsimp only
      omega
    · have := h.live hw'
      rw [hc, Bool.toNat_false] at ht
      dsimp only
      omega

lemma Shared.Kept.due {s : Shared} (h : s.Kept s') (hc : s'.closed = s.closed) (hl : s'.lingering = s.lingering) :
    s'.due = s.due := by simp only [Shared.due, hc, hl, h.observerAssigned, h.disconnectNotified]

lemma Inv.keep (h : Inv st) (hi : i < st.threads.count) (hsane : s'.Sane) (hk : st.shared.Kept s')
    (hplace : Placed s' place) (hcall : place.disconnects = (st.threads.row i).disconnects)
    (hproc : place.processes = (st.threads.row i).processes)
    (hdue : s'.due = true → s'.processing = true ∨ place.notifies = true ∨
      st.shared.due = true ∧ (st.threads.row i).notifies = false)
    (hlive : s'.wants = true → place.carries = true ∨ st.shared.wants = true ∧ (st.threads.row i).carries = false) :
    Inv ⟨s', st.threads.set i place⟩ := by
  refine h.set hi hsane hplace hk.closings (fun hn => hk.disconnectNotified.trans hn) ?_ ?_ (fun ho => .inr ⟨?_, ?_⟩) ?_ ?_ hlive
  · rw [hk.processing, hproc]
  · rw [hk.disconnectNotified, hk.disconnects, hcall]
  · rw [← hk.observer, ho]
  · rw [hk.disconnectNotified, hk.disconnects, hcall]
  · intro reason hm
    rw [hk.disconnects] at hm
    exact .inl hm
  · intro hd
    rcases hdue hd with hp | hn | ⟨hd', hn⟩
    · exact .inl hp
    · exact .inr (.inl hn)
    · cases hp : st.shared.processing with
      | true => exact .inl (hk.processing.trans hp)
      | false => exact .inr (.inr ⟨hd', rfl, hn⟩)

structure Entry (place : Place) : Prop where
  processes : place.processes = false
  disconnects : place.disconnects = false
  carries : place.carries = false
  notifies : place.notifies = false

lemma Inv.finish (h : Inv st) (hi : i < st.threads.count) (he : Entry (st.threads.row i)) (hsane : s'.Sane)
    (hk : st.shared.Kept s') (hdue : s'.due = st.shared.due) (hlive : s'.wants = true → st.shared.wants = true) :
    Inv ⟨s', st.threads.set i .finished⟩ := by
  refine h.keep hi hsane hk trivial he.disconnects.symm he.processes.symm (fun hd => .inr (.inr ⟨hdue ▸ hd, he.notifies⟩)) ?_
  intro hw
  exact .inr ⟨hlive hw, he.carries⟩

lemma Inv.notify (h : Inv st) (hi : i < st.threads.count) (he : Entry (st.threads.row i)) (hsane : s'.Sane)
    (hk : st.shared.Kept s') (hlive : s'.wants = true → st.shared.wants = true) :
    Inv ⟨s', st.threads.set i .notifying⟩ := by
  refine h.keep hi hsane hk trivial he.disconnects.symm he.processes.symm (fun _ => .inr (.inl rfl)) ?_
  intro hw
  exact .inr ⟨hlive hw, he.carries⟩

lemma Inv.checked {c : Choice} {answer : Bool × Shared} {shared : Shared} (hs : Shared.checked c answer = (shared, place))
    (h : Inv st) (hi : i < st.threads.count) (he : Entry (st.threads.row i)) (hk : st.shared.Kept answer.2)
    (hdue : answer.2.due = st.shared.due) (hok : answer.1 = true → answer.2.Sane ∧ answer.2.wants = false)
    (hfail : answer.1 = false → answer.2.Ok ∧ answer.2.Flow ∧ answer.2.sends.Ok) :
    Inv ⟨shared, st.threads.set i place⟩ := by
  unfold Shared.checked at hs
  split at hs
  · rename_i ha
    obtain ⟨hsane, hw⟩ := hok ha
    obtain ⟨rfl, rfl⟩ := Prod.mk.inj hs
    refine h.finish hi he hsane hk hdue fun hw' => ?_
    rw [hw] at hw'
    cases hw'
  · rename_i ha
    obtain ⟨hok, hflow, hsends⟩ := hfail (Bool.eq_false_iff.mpr ha)
    obtain ⟨rfl, rfl⟩ := Prod.mk.inj hs
    refine h.notify hi he (Shared.closeLocked_sane hok hflow hsends _ _ nofun)
      (hk.trans (Shared.closeLocked_kept hok _ _ _)) fun hw => ?_
    have hw' := (Shared.closeLocked_ok hok (if c.copied then c.failure else .failWithoutMessage .platformError) false c.ok).2.2
    exact absurd (hw'.symm.trans hw) nofun

end Set

section Steps

variable {st : State} {i : ℕ} {c : Choice} {s' : Shared} {place : Place}

lemma Inv.start (h : Inv st) (hi : i < st.threads.count) (hrow : st.threads.row i = .starting)
    (hs : st.shared.start c = some (s', place)) : Inv ⟨s', st.threads.set i place⟩ := by
  have he : Entry (st.threads.row i) := by
    rw [hrow]
    exact ⟨rfl, rfl, rfl, rfl⟩
  have hsane := h.sane
  unfold Shared.start at hs
  split at hs
  · cases hs
  rename_i hns
  have hns : st.shared.started = false := Bool.eq_false_iff.mpr hns
  have hnr : st.shared.registration = false := by
    refine Bool.eq_false_iff.mpr fun hr => ?_
    rw [(hsane.ok.registered hr).1] at hns
    cases hns
  have hnl : st.shared.lingering = false := by
    refine Bool.eq_false_iff.mpr fun hl => ?_
    rw [(hsane.ok.lingers hl).2] at hnr
    cases hnr
  obtain ⟨t, ht⟩ : ∃ t : Shared, t = { st.shared with started := true } := ⟨_, rfl⟩
  have hok : t.Ok := by
    subst ht
    refine ⟨fun hr => ?_, hsane.ok.armed, hsane.ok.opened, hsane.ok.lingers, hsane.ok.closed, hsane.ok.notified⟩
    exact ⟨rfl, (hsane.ok.registered hr).2⟩
  have hflow : t.Flow := by
    subst ht
    exact ⟨hsane.flow.kernel, hsane.flow.shut⟩
  have hqueued : t.Queued := by
    subst ht
    exact ⟨hsane.queued.sends, hsane.queued.rest⟩
  have hk : st.shared.Kept t := by
    subst ht
    exact ⟨rfl, rfl, rfl, rfl, rfl, List.prefix_rfl, id, fun _ => id⟩
  have hc' : t.closed = st.shared.closed := by rw [ht]
  have hl' : t.lingering = st.shared.lingering := by rw [ht]
  have hdue := hk.due hc' hl'
  rw [← ht] at hs
  dsimp only at hs
  split at hs
  · rename_i hc
    obtain ⟨rfl, rfl⟩ := of_some_pair hs
    refine h.finish hi he ⟨hok, hflow, hqueued, fun _ ho => absurd (hc.symm.trans ho) nofun⟩ hk hdue fun hw => ?_
    rw [Shared.wants_of_closed hc (hl'.trans hnl)] at hw
    cases hw
  · rename_i hc
    have hc : t.closed = false := Bool.eq_false_iff.mpr hc
    have hopen := hok.opened hc
    have hs := Option.some.inj hs
    unfold Shared.register at hs
    split at hs
    · refine Inv.checked hs h hi he (hk.trans ?_) hdue (fun _ => ⟨?_, Shared.wants_of_armed rfl⟩) nofun
      · exact ⟨rfl, rfl, rfl, rfl, rfl, List.prefix_rfl, id, fun _ => id⟩
      · refine ⟨⟨fun _ => ⟨by rw [ht], hopen.1⟩, fun _ _ => rfl, hok.opened, fun hl => ?_, hok.closed, hok.notified⟩,
          ⟨hflow.kernel, hflow.shut⟩, ⟨hqueued.sends, hqueued.rest⟩, fun _ _ => rfl⟩
        exact absurd ((hl'.trans hnl).symm.trans hl) nofun
    · exact Inv.checked hs h hi he hk hdue nofun fun _ => ⟨hok, hflow, hqueued.sends⟩

lemma wants_of_idle {s : Shared} (h : (s.started && !s.processing) = false) : s.wants = false := by
  cases hs : s.started with
  | false => simp [Shared.wants, hs]
  | true =>
    rw [hs, Bool.true_and, Bool.not_eq_false'] at h
    exact Shared.wants_of_processing h

lemma Inv.send (h : Inv st) (hi : i < st.threads.count) {bytes : Bytes} (he : Entry (st.threads.row i))
    (hs : st.shared.sendWithOutcome bytes c = (s', place)) : Inv ⟨s', st.threads.set i place⟩ := by
  have hsame : Inv ⟨st.shared, st.threads.set i .finished⟩ := h.finish hi he h.sane (.refl _) rfl id
  unfold Shared.sendWithOutcome at hs
  split at hs
  · obtain ⟨rfl, rfl⟩ := Prod.mk.inj hs
    exact hsame
  rename_i hopen
  simp only [Bool.or_eq_true, not_or, Bool.not_eq_true] at hopen
  split at hs
  · obtain ⟨rfl, rfl⟩ := Prod.mk.inj hs
    exact hsame
  split at hs
  · obtain ⟨rfl, rfl⟩ := Prod.mk.inj hs
    exact hsame
  rename_i sends henq
  have hsends := SendQueue.enqueue_unsent h.sane.queued.sends henq
  have hsane := h.sane.sent hopen.1 hsends
  have hkept := Shared.kept_sent st.shared sends (st.shared.accepted ++ bytes) st.shared.kernel
  dsimp only at hs
  split at hs
  · rcases @Shared.rearmLocked_cases { st.shared with sends := sends } c.ok with ⟨armed, heq, ha, hw⟩ | heq
    · rw [heq] at hs
      refine Inv.checked hs h hi he ?_ rfl (fun _ => ⟨?_, ?_⟩) nofun
      · exact hkept.trans (Shared.kept_rearmed _ armed)
      · exact hsane.armed ha
      · exact hw
    · rw [heq] at hs
      refine Inv.checked hs h hi he (Shared.kept_sent st.shared sends st.shared.accepted st.shared.kernel) rfl nofun ?_
      exact fun _ => ⟨h.sane.ok.sending _ _ _, ⟨h.sane.flow.kernel, h.sane.flow.shut⟩, hsends.1⟩
  · rename_i hidle
    exact Inv.checked hs h hi he hkept rfl (fun _ => ⟨hsane, wants_of_idle (Bool.eq_false_iff.mpr hidle)⟩) nofun

lemma kept_paused (s : Shared) (receivePaused : Bool) : s.Kept { s with receivePaused := receivePaused } :=
  ⟨rfl, rfl, rfl, rfl, rfl, List.prefix_rfl, id, fun _ => id⟩

lemma Inv.pause (h : Inv st) (hi : i < st.threads.count) (he : Entry (st.threads.row i))
    (hs : st.shared.pauseReceive c = (s', place)) : Inv ⟨s', st.threads.set i place⟩ := by
  have hsane := h.sane.paused true
  have hkept := kept_paused st.shared true
  unfold Shared.pauseReceive at hs
  split at hs
  · obtain ⟨rfl, rfl⟩ := Prod.mk.inj hs
    exact h.finish hi he h.sane (.refl _) rfl id
  dsimp only at hs
  split at hs
  · rcases @Shared.rearm_cases { st.shared with receivePaused := true } c.ok with ⟨hr, heq⟩ | heq
    · rw [heq] at hs
      refine Inv.checked hs h hi he (hkept.trans (Shared.kept_rearmed _ _)) rfl (fun _ => ⟨?_, ?_⟩) nofun
      · exact hsane.rearmed hr _
      · exact Shared.wants_of_armed rfl
    · rw [heq] at hs
      exact Inv.checked hs h hi he hkept rfl nofun fun _ => ⟨hsane.ok, hsane.flow, hsane.queued.sends⟩
  · rename_i hidle
    obtain ⟨rfl, rfl⟩ := Prod.mk.inj hs
    refine h.finish hi he hsane hkept rfl fun hw => ?_
    have hw' := @wants_of_idle { st.shared with receivePaused := true } (Bool.eq_false_iff.mpr hidle)
    exact absurd (hw'.symm.trans hw) nofun

lemma Inv.resume (h : Inv st) (hi : i < st.threads.count) (he : Entry (st.threads.row i))
    (hs : st.shared.resumeReceive c = (s', place)) : Inv ⟨s', st.threads.set i place⟩ := by
  have hsane := h.sane.paused false
  have hkept := kept_paused st.shared false
  unfold Shared.resumeReceive at hs
  split at hs
  · obtain ⟨rfl, rfl⟩ := Prod.mk.inj hs
    exact h.finish hi he h.sane (.refl _) rfl id
  dsimp only at hs
  split at hs
  · rcases @Shared.rearmLocked_cases { st.shared with receivePaused := false } c.ok with ⟨armed, heq, ha, hw⟩ | heq
    · rw [heq] at hs
      refine Inv.checked hs h hi he (hkept.trans (Shared.kept_rearmed _ armed)) rfl (fun _ => ⟨?_, hw⟩) nofun
      exact hsane.armed ha
    · rw [heq] at hs
      exact Inv.checked hs h hi he hkept rfl nofun fun _ => ⟨hsane.ok, hsane.flow, hsane.queued.sends⟩
  · rename_i hidle
    obtain ⟨rfl, rfl⟩ := Prod.mk.inj hs
    refine h.finish hi he hsane hkept rfl fun hw => ?_
    have hw' := @wants_of_idle { st.shared with receivePaused := false } (Bool.eq_false_iff.mpr hidle)
    exact absurd (hw'.symm.trans hw) nofun

lemma closeLocked_wants {s : Shared} (h : s.Ok) {reason : Status} {graceful ok : Bool} {P : Prop}
    (hw : (s.closeLocked reason graceful ok).wants = true) : P := by
  rw [(Shared.closeLocked_ok h reason graceful ok).2.2] at hw
  cases hw

lemma Inv.close (h : Inv st) (hi : i < st.threads.count) (he : Entry (st.threads.row i)) :
    Inv ⟨st.shared.close c, st.threads.set i .notifying⟩ :=
  h.notify hi he (h.sane.closeLocked _ _ nofun) (Shared.closeLocked_kept h.sane.ok _ _ _) fun hw =>
    closeLocked_wants h.sane.ok hw

lemma Inv.closeAfterSend (h : Inv st) (hi : i < st.threads.count) (he : Entry (st.threads.row i)) :
    Inv ⟨st.shared.closeAfterSendNow c, st.threads.set i .notifying⟩ := by
  have hsane := h.sane.closingAfterSend
  have hkept : st.shared.Kept { st.shared with closeAfterSend := true } :=
    ⟨rfl, rfl, rfl, rfl, rfl, List.prefix_rfl, id, fun _ => id⟩
  unfold Shared.closeAfterSendNow
  split
  · exact h.notify hi he h.sane (.refl _) id
  dsimp only
  split
  · rename_i hempty
    exact h.notify hi he (hsane.closeLocked _ _ fun _ => hempty) (hkept.trans (Shared.closeLocked_kept hsane.ok _ _ _))
      fun hw => closeLocked_wants hsane.ok hw
  · exact h.notify hi he hsane hkept fun hw => hw

lemma Inv.setObserver (h : Inv st) (hi : i < st.threads.count) {alive : Bool} (he : Entry (st.threads.row i))
    (hs : st.shared.setObserver alive = some s') : Inv ⟨s', st.threads.set i .notifying⟩ := by
  unfold Shared.setObserver at hs
  split at hs
  · cases hs
  rename_i ha
  have hn : st.shared.disconnectNotified = false := by
    refine Bool.eq_false_iff.mpr fun hn => ?_
    exact ha (h.sane.ok.notified hn).2.2.2
  obtain rfl := Option.some.inj hs
  have hok := h.sane.ok
  refine h.set hi ⟨⟨hok.registered, hok.armed, hok.opened, hok.lingers, hok.closed, fun hn' => ?_⟩,
    ⟨h.sane.flow.kernel, h.sane.flow.shut⟩, ⟨h.sane.queued.sends, h.sane.queued.rest⟩, h.sane.started⟩ trivial
    List.prefix_rfl id ?_ ?_ (fun _ => .inl hn) (fun _ hm => .inl hm) (fun _ => .inr (.inl rfl)) fun hw => .inr ⟨hw, he.carries⟩
  · exact absurd (hn.symm.trans hn') nofun
  · rw [he.processes]
    rfl
  · rw [he.disconnects]
    exact le_rfl

lemma Inv.no_body (h : Inv st) (hi : i < st.threads.count) (hp : st.shared.processing = false) :
    (st.threads.row i).processes = false := by
  refine Bool.eq_false_iff.mpr fun hrow => ?_
  have := Table.tally_pos hi hrow
  rw [h.processing, hp] at this
  exact absurd this (by decide)

lemma Inv.body (h : Inv st) (hi : i < st.threads.count) (hrow : (st.threads.row i).processes = true) :
    st.shared.processing = true := by
  have := Table.tally_pos hi hrow
  rw [h.processing] at this
  cases hp : st.shared.processing with
  | true => rfl
  | false =>
    rw [hp] at this
    exact absurd this (by decide)

lemma Inv.lookup (h : Inv st) (hi : i < st.threads.count) {events : Events} (hrow : st.threads.row i = .event events) :
    Inv ⟨st.shared, st.threads.set i (if st.shared.registration then .ready events else .finished)⟩ := by
  have key : ∀ place : Place, place.processes = false → place.disconnects = false → Placed st.shared place →
      (st.shared.wants = true → place.carries = true) → Inv ⟨st.shared, st.threads.set i place⟩ := by
    intro place hproc hcall hplace hcarry
    refine h.keep hi h.sane (.refl _) hplace ?_ ?_ (fun hd => .inr (.inr ⟨hd, ?_⟩)) fun hw => .inl (hcarry hw)
    · rw [hrow, hcall]
      rfl
    · rw [hrow, hproc]
      rfl
    · rw [hrow]
      rfl
  split
  · exact key _ rfl rfl trivial fun _ => rfl
  · rename_i hr
    refine key _ rfl rfl trivial fun hw => ?_
    simp only [Shared.wants, Bool.and_eq_true, Bool.or_eq_true, Bool.not_eq_true'] at hw
    obtain ⟨⟨⟨⟨hs, hl⟩, -⟩, -⟩, -⟩ := hw
    rcases hl with hc | hl
    · exact absurd (h.sane.started hs hc) hr
    · exact absurd (h.sane.ok.lingers hl).2 hr

lemma Inv.onReady (h : Inv st) (hi : i < st.threads.count) {events : Events} (hrow : st.threads.row i = .ready events)
    (hs : st.shared.onReady events = (s', place)) : Inv ⟨s', st.threads.set i place⟩ := by
  unfold Shared.onReady at hs
  split at hs
  · rename_i hcond
    obtain ⟨rfl, rfl⟩ := Prod.mk.inj hs
    refine h.keep hi h.sane (.refl _) trivial (by rw [hrow]; rfl) (by rw [hrow]; rfl)
      (fun hd => .inr (.inr ⟨hd, by rw [hrow]; rfl⟩)) fun hw => ?_
    simp only [Bool.or_eq_true, Bool.and_eq_true, Bool.not_eq_true'] at hcond
    rcases hcond with ⟨hc, hl⟩ | hp
    · exact absurd ((Shared.wants_of_closed hc hl).symm.trans hw) nofun
    · exact absurd ((Shared.wants_of_processing hp).symm.trans hw) nofun
  · rename_i hcond
    simp only [Bool.or_eq_true, not_or, Bool.not_eq_true] at hcond
    obtain ⟨hl, hp⟩ := hcond
    have hok := h.sane.ok
    have hn : st.shared.disconnectNotified = false := by
      refine Bool.eq_false_iff.mpr fun hn => ?_
      obtain ⟨hc, hnl, -, -⟩ := hok.notified hn
      simp [hc, hnl] at hl
    obtain ⟨rfl, hplace⟩ := Prod.mk.inj hs
    have hbody : place.processes = true ∧ place.disconnects = false := by
      rw [← hplace]
      split <;> exact ⟨rfl, rfl⟩
    have hplaced : Placed { st.shared with processing := true } place := by
      rw [← hplace]
      split <;> trivial
    refine h.set hi ⟨⟨hok.registered, hok.armed, hok.opened, hok.lingers, hok.closed, fun hn' => ?_⟩,
      ⟨h.sane.flow.kernel, h.sane.flow.shut⟩, ⟨h.sane.queued.sends, h.sane.queued.rest⟩, h.sane.started⟩ hplaced
      List.prefix_rfl id ?_ ?_ (fun ho => .inl hn) (fun _ hm => .inl hm) (fun _ => .inl rfl) fun hw => ?_
    · exact absurd (hn.symm.trans hn') nofun
    · rw [hrow, hbody.1, hp]
      rfl
    · rw [hrow, hbody.2]
      exact le_rfl
    · rw [Shared.wants_of_processing rfl] at hw
      cases hw

lemma Inv.within (h : Inv st) (hi : i < st.threads.count) (hrow : (st.threads.row i).processes = true)
    (hcall : (st.threads.row i).disconnects = false) (hsane : s'.Sane) (hk : st.shared.Kept s')
    (hbody : place.processes = true) (hplace : place.disconnects = false) (hplaced : Placed s' place) :
    Inv ⟨s', st.threads.set i place⟩ := by
  have hp := hk.processing.trans (h.body hi hrow)
  refine h.keep hi hsane hk hplaced (hplace.trans hcall.symm) (hbody.trans hrow.symm) (fun _ => .inl hp) fun hw => ?_
  rw [Shared.wants_of_processing hp] at hw
  cases hw

lemma Inv.receive (h : Inv st) (hi : i < st.threads.count) {events : Events} {attempts : ℕ}
    (hrow : st.threads.row i = .receiving events (attempts + 1))
    (hs : st.shared.receive events attempts c = (s', place)) : Inv ⟨s', st.threads.set i place⟩ := by
  have key : ∀ {t : Shared} {place : Place}, t.Sane → st.shared.Kept t → place.processes = true →
      place.disconnects = false → Placed t place → Inv ⟨t, st.threads.set i place⟩ := by
    intro t place
    exact h.within hi (by rw [hrow]; rfl) (by rw [hrow]; rfl)
  have hclose : ∀ reason : Status, (st.shared.closeLocked reason false c.ok).Sane ∧
      st.shared.Kept (st.shared.closeLocked reason false c.ok) :=
    fun reason => ⟨h.sane.closeLocked reason c.ok nofun, Shared.closeLocked_kept h.sane.ok ..⟩
  unfold Shared.receive at hs
  split at hs
  · obtain ⟨rfl, rfl⟩ := Prod.mk.inj hs
    exact key h.sane (.refl _) rfl rfl trivial
  cases hc : c.received with
  | interrupted =>
    rw [hc] at hs
    obtain ⟨rfl, rfl⟩ := Prod.mk.inj hs
    exact key h.sane (.refl _) rfl rfl trivial
  | wouldBlock =>
    rw [hc] at hs
    obtain ⟨rfl, rfl⟩ := Prod.mk.inj hs
    exact key h.sane (.refl _) rfl rfl trivial
  | failed reason =>
    rw [hc] at hs
    obtain ⟨rfl, rfl⟩ := Prod.mk.inj hs
    obtain ⟨hsane, hk⟩ := hclose reason
    exact key hsane hk rfl rfl trivial
  | taken bytes =>
    rw [hc] at hs
    cases bytes with
    | nil =>
      obtain ⟨rfl, rfl⟩ := Prod.mk.inj hs
      obtain ⟨hsane, hk⟩ := hclose closedStatus
      exact key hsane hk rfl rfl trivial
    | cons b bytes =>
      dsimp only at hs
      split at hs
      · obtain ⟨rfl, rfl⟩ := Prod.mk.inj hs
        exact key h.sane (.refl _) rfl rfl trivial
      · obtain ⟨rfl, rfl⟩ := Prod.mk.inj hs
        exact key h.sane (.refl _) rfl rfl trivial

lemma Inv.sendReady (h : Inv st) (hi : i < st.threads.count) {events : Events}
    (hrow : st.threads.row i = .sendingReady events) :
    Inv ⟨st.shared.sendReady events c, st.threads.set i .notifying⟩ := by
  obtain ⟨hsane, hw, hk⟩ := Shared.sendReady_sane h.sane events c
  have hp := h.body hi (by rw [hrow]; rfl)
  refine h.set hi hsane trivial hk.closings (fun hn => hk.disconnectNotified.trans hn) ?_ ?_ (fun ho => .inr ⟨?_, ?_⟩) ?_
    (fun _ => .inr (.inl rfl)) fun hw' => ?_
  · rw [hrow, hk.processing, hp]
    rfl
  · rw [hrow, hk.disconnects, hk.disconnectNotified]
    exact le_rfl
  · exact hk.observer.symm.trans ho
  · rw [hrow, hk.disconnects, hk.disconnectNotified]
    exact le_rfl
  · intro reason hm
    rw [hk.disconnects] at hm
    exact .inl hm
  · exact absurd (hw.symm.trans hw') nofun

lemma Inv.notifyDisconnected (h : Inv st) (hi : i < st.threads.count) (hrow : st.threads.row i = .notifying)
    (hs : st.shared.notifyDisconnected = (s', place)) : Inv ⟨s', st.threads.set i place⟩ := by
  unfold Shared.notifyDisconnected at hs
  split at hs
  · rename_i hcond
    obtain ⟨rfl, rfl⟩ := Prod.mk.inj hs
    refine h.keep hi h.sane (.refl _) trivial (by rw [hrow]; rfl) (by rw [hrow]; rfl) (fun hd => ?_)
      fun hw => .inr ⟨hw, by rw [hrow]; rfl⟩
    simp only [Shared.due, Bool.and_eq_true, Bool.not_eq_true'] at hd
    obtain ⟨⟨⟨hc, hl⟩, ha⟩, hn⟩ := hd
    simp [hc, hl, ha, hn] at hcond
    exact .inl hcond
  · rename_i hcond
    simp only [Bool.or_eq_true, Bool.not_eq_true', not_or, Bool.not_eq_true, Bool.not_eq_false] at hcond
    obtain ⟨⟨⟨⟨hc, hl⟩, hp⟩, ha⟩, hn⟩ := hcond
    obtain ⟨rfl, rfl⟩ := Prod.mk.inj hs
    have hok := h.sane.ok
    refine h.set hi ⟨⟨hok.registered, hok.armed, hok.opened, hok.lingers, hok.closed, fun _ => ⟨hc, hl, hp, ha⟩⟩,
      ⟨h.sane.flow.kernel, h.sane.flow.shut⟩, ⟨h.sane.queued.sends, h.sane.queued.rest⟩, h.sane.started⟩
      ⟨rfl, _, hok.closed hc⟩ List.prefix_rfl (fun _ => rfl) ?_ ?_ (fun ho => .inr ⟨ho, ?_⟩) (fun _ hm => .inl hm)
      (fun hd => ?_) fun hw => .inr ⟨hw, by rw [hrow]; rfl⟩
    · rw [hrow]
      rfl
    · rw [hrow, hn]
      exact le_rfl
    · rw [hrow, hn]
      exact le_rfl
    · simp [Shared.due] at hd

lemma Inv.disconnect (h : Inv st) (hi : i < st.threads.count) {reason : Status}
    (hrow : st.threads.row i = .disconnecting reason)
    (hs : advance st.shared c (.disconnecting reason) = some (s', place)) : Inv ⟨s', st.threads.set i place⟩ := by
  have hp := h.placed i hi
  rw [hrow] at hp
  simp only [advance] at hs
  split at hs
  · rename_i ho
    obtain ⟨rfl, rfl⟩ := of_some_pair hs
    have hok := h.sane.ok
    refine h.set hi ⟨⟨hok.registered, hok.armed, hok.opened, hok.lingers, hok.closed, hok.notified⟩,
      ⟨h.sane.flow.kernel, h.sane.flow.shut⟩, ⟨h.sane.queued.sends, h.sane.queued.rest⟩, h.sane.started⟩
      hp List.prefix_rfl id ?_ ?_ (fun _ => .inr ⟨ho, ?_⟩) ?_ (fun hd => ?_) fun hw => .inr ⟨hw, by rw [hrow]; rfl⟩
    · rw [hrow]
      rfl
    · rw [hrow, List.length_append]
      exact le_rfl
    · rw [hrow, List.length_append]
      exact le_rfl
    · intro r hm
      rcases List.mem_append.mp hm with hm | hm
      · exact .inl hm
      · rw [List.mem_singleton.mp hm]
        exact .inr hp.2
    · have hd' : st.shared.due = true := hd
      simp [Shared.due, hp.1] at hd'
  · rename_i ho
    obtain ⟨rfl, rfl⟩ := of_some_pair hs
    refine h.set hi h.sane trivial List.prefix_rfl id ?_ ?_ (fun ho' => absurd ho' ho) (fun _ hm => .inl hm) (fun hd => ?_)
      fun hw => .inr ⟨hw, by rw [hrow]; rfl⟩
    · rw [hrow]
      rfl
    · rw [hrow]
      exact Nat.add_le_add_right (Nat.le_add_right _ _) _
    · simp [Shared.due, hp.1] at hd

lemma Inv.push (h : Inv st) (hsane : s'.Sane) (hk : st.shared.Kept s') (hproc : place.processes = false)
    (hcall : place.disconnects = false) (hplaced : Placed s' place) (hdue : s'.due = st.shared.due)
    (hlive : s'.wants = true → place.carries = true ∨ st.shared.wants = true) : Inv ⟨s', st.threads.push place⟩ where
  sane := hsane
  processing := by
    have := h.processing
    dsimp only
    rw [Table.tally_push, hproc, hk.processing]
    exact this
  calls := by
    have := h.calls
    dsimp only
    rw [Table.tally_push, hcall, hk.disconnects, hk.disconnectNotified]
    exact this
  called ho := by
    have := h.called (hk.observer.symm.trans ho)
    dsimp only
    rw [Table.tally_push, hcall, hk.disconnects, hk.disconnectNotified]
    exact this
  reasons reason hm := by
    rw [hk.disconnects] at hm
    exact (h.reasons reason hm).mono hk.closings
  placed j hj := by
    dsimp only
    rw [Table.push_row]
    split
    · exact hplaced
    · rename_i hne
      rw [Table.push_count] at hj
      exact (h.placed j (by omega)).mono hk.closings fun hn => hk.disconnectNotified.trans hn
  due hd := by
    rw [hdue] at hd
    dsimp only
    rw [Table.tally_push, hk.processing]
    rcases h.due hd with hp | hn
    · exact .inl hp
    · exact .inr (by omega)
  live hw := by
    dsimp only
    rw [Table.tally_push]
    rcases hlive hw with hc | hw'
    · rw [hc, Bool.toNat_true]
      omega
    · have := h.live hw'
      omega

lemma Inv.call (h : Inv st) (call : Call) : Inv { st with threads := st.threads.push call.place } := by
  have hplaced : Placed st.shared call.place := by cases call <;> trivial
  exact h.push h.sane (.refl _) (by cases call <;> rfl) (by cases call <;> rfl) hplaced rfl .inr

lemma Inv.poll (h : Inv st) (events : Events) :
    Inv ⟨{ st.shared with armed := none }, st.threads.push (.event events)⟩ := by
  have hok := h.sane.ok
  refine h.push ⟨⟨hok.registered, nofun, hok.opened, hok.lingers, hok.closed, hok.notified⟩,
    ⟨h.sane.flow.kernel, h.sane.flow.shut⟩, ⟨h.sane.queued.sends, h.sane.queued.rest⟩, h.sane.started⟩
    (Shared.kept_rearmed _ _) rfl rfl trivial rfl fun _ => .inl rfl

lemma Inv.expire (h : Inv st) : Inv { st with shared := { st.shared with observer := false } } := by
  have hok := h.sane.ok
  refine ⟨⟨⟨hok.registered, hok.armed, hok.opened, hok.lingers, hok.closed, hok.notified⟩,
    ⟨h.sane.flow.kernel, h.sane.flow.shut⟩, ⟨h.sane.queued.sends, h.sane.queued.rest⟩, h.sane.started⟩,
    h.processing, h.calls, nofun, h.reasons, fun j hj => ?_, h.due, h.live⟩
  exact (h.placed j hj).mono List.prefix_rfl id

end Steps

section Run

variable {s s' : State} {e : Event}

lemma Inv.init (h : Fresh s) : Inv s := by
  obtain ⟨limit, rfl⟩ := h
  refine ⟨⟨⟨nofun, nofun, fun _ => ⟨rfl, rfl, rfl⟩, nofun, nofun, nofun⟩, ⟨List.prefix_rfl, nofun⟩,
    ⟨.nil, fun _ => rfl⟩, nofun⟩, rfl, le_rfl, nofun, nofun, fun j hj => absurd hj (Nat.not_lt_zero j), nofun, nofun⟩

lemma Inv.advance {i : ℕ} {c : Choice} {shared : Shared} {place : Place} (h : Inv s) (hi : i < s.threads.count)
    (hstep : advance s.shared c (s.threads.row i) = some (shared, place)) : Inv ⟨shared, s.threads.set i place⟩ := by
  have hentry : ∀ {p : Place}, s.threads.row i = p → Entry p → Entry (s.threads.row i) := by
    intro p hrow he
    rwa [hrow]
  have hinside : ∀ {p : Place}, s.threads.row i = p → p.processes = true → p.disconnects = false → ∀ place : Place,
      place.processes = true → place.disconnects = false → Placed s.shared place → Inv ⟨s.shared, s.threads.set i place⟩ := by
    intro p hrow hbody hcall place
    exact h.within hi (by rw [hrow]; exact hbody) (by rw [hrow]; exact hcall) h.sane (.refl _)
  cases hrow : s.threads.row i with
  | starting =>
    rw [hrow] at hstep
    exact h.start hi hrow hstep
  | sending bytes =>
    rw [hrow] at hstep
    exact h.send hi (hentry hrow ⟨rfl, rfl, rfl, rfl⟩) (Option.some.inj hstep)
  | pausingReceive =>
    rw [hrow] at hstep
    exact h.pause hi (hentry hrow ⟨rfl, rfl, rfl, rfl⟩) (Option.some.inj hstep)
  | resumingReceive =>
    rw [hrow] at hstep
    exact h.resume hi (hentry hrow ⟨rfl, rfl, rfl, rfl⟩) (Option.some.inj hstep)
  | closing =>
    rw [hrow] at hstep
    obtain ⟨rfl, rfl⟩ := of_some_pair hstep
    exact h.close hi (hentry hrow ⟨rfl, rfl, rfl, rfl⟩)
  | closingAfterSend =>
    rw [hrow] at hstep
    obtain ⟨rfl, rfl⟩ := of_some_pair hstep
    exact h.closeAfterSend hi (hentry hrow ⟨rfl, rfl, rfl, rfl⟩)
  | settingObserver alive =>
    rw [hrow] at hstep
    obtain ⟨t, ht, heq⟩ := Option.map_eq_some_iff.mp hstep
    obtain ⟨rfl, rfl⟩ := Prod.mk.inj heq
    exact h.setObserver hi (hentry hrow ⟨rfl, rfl, rfl, rfl⟩) ht
  | event events =>
    rw [hrow] at hstep
    obtain ⟨rfl, rfl⟩ := of_some_pair hstep
    exact h.lookup hi hrow
  | ready events =>
    rw [hrow] at hstep
    exact h.onReady hi hrow (Option.some.inj hstep)
  | receiving events attempts =>
    rw [hrow] at hstep
    cases attempts with
    | zero =>
      obtain ⟨rfl, rfl⟩ := of_some_pair hstep
      exact hinside hrow rfl rfl _ rfl rfl trivial
    | succ attempts => exact h.receive hi hrow (Option.some.inj hstep)
  | delivering events attempts bytes =>
    rw [hrow] at hstep
    obtain ⟨rfl, rfl⟩ := of_some_pair hstep
    exact hinside hrow rfl rfl _ rfl rfl trivial
  | sendingReady events =>
    rw [hrow] at hstep
    obtain ⟨rfl, rfl⟩ := of_some_pair hstep
    exact h.sendReady hi hrow
  | notifying =>
    rw [hrow] at hstep
    exact h.notifyDisconnected hi hrow (Option.some.inj hstep)
  | disconnecting reason =>
    rw [hrow] at hstep
    exact h.disconnect hi hrow hstep
  | disconnected reason =>
    rw [hrow] at hstep
    obtain ⟨rfl, rfl⟩ := of_some_pair hstep
    exact h.finish hi (hentry hrow ⟨rfl, rfl, rfl, rfl⟩) h.sane (.refl _) rfl id
  | finished =>
    rw [hrow] at hstep
    cases hstep

lemma Inv.step (h : Inv s) (hstep : step s e = some s') : Inv s' := by
  cases e with
  | call call =>
    obtain rfl := Option.some.inj hstep
    exact h.call call
  | poll events =>
    obtain ⟨-, rfl⟩ := of_guard hstep
    exact h.poll events
  | expire =>
    obtain rfl := Option.some.inj hstep
    exact h.expire
  | advance i c =>
    simp only [EpollConnection.step, Option.ite_none_right_eq_some] at hstep
    obtain ⟨hi, hstep⟩ := hstep
    obtain ⟨⟨shared, place⟩, hadv, rfl⟩ := Option.map_eq_some_iff.mp hstep
    exact h.advance hi hadv

lemma inv_of_reached (h : Reached s) : Inv s :=
  h.invariant (fun _ hs => Inv.init hs) fun _ _ _ hi hs => hi.step hs

lemma advance_notified {s s' : Shared} {c : Choice} {place place' : Place} (h : s.Sane) (hn : s.disconnectNotified = true)
    (hstep : EpollConnection.advance s c place = some (s', place')) : s'.disconnectNotified = true := by
  obtain ⟨hc, hl, -, -⟩ := h.ok.notified hn
  cases place with
  | starting =>
    have hs : s.start c = some (s', place') := hstep
    unfold Shared.start at hs
    split at hs
    · cases hs
    · simp only [hc, if_true] at hs
      obtain ⟨rfl, -⟩ := of_some_pair hs
      exact hn
  | sending bytes =>
    have hs : s.sendWithOutcome bytes c = (s', place') := Option.some.inj hstep
    simp only [Shared.sendWithOutcome, hc, Bool.true_or, if_true] at hs
    obtain ⟨rfl, -⟩ := Prod.mk.inj hs
    exact hn
  | pausingReceive =>
    have hs : s.pauseReceive c = (s', place') := Option.some.inj hstep
    simp only [Shared.pauseReceive, hc, Bool.true_or, if_true] at hs
    obtain ⟨rfl, -⟩ := Prod.mk.inj hs
    exact hn
  | resumingReceive =>
    have hs : s.resumeReceive c = (s', place') := Option.some.inj hstep
    simp only [Shared.resumeReceive, hc, Bool.true_or, if_true] at hs
    obtain ⟨rfl, -⟩ := Prod.mk.inj hs
    exact hn
  | closing =>
    obtain ⟨rfl, -⟩ := of_some_pair hstep
    exact (Shared.closeLocked_kept h.ok ..).disconnectNotified.trans hn
  | closingAfterSend =>
    obtain ⟨rfl, -⟩ := of_some_pair hstep
    simpa only [Shared.closeAfterSendNow, hc, if_true] using hn
  | settingObserver alive =>
    obtain ⟨t, ht, heq⟩ := Option.map_eq_some_iff.mp hstep
    obtain ⟨rfl, -⟩ := Prod.mk.inj heq
    unfold Shared.setObserver at ht
    split at ht <;> cases ht
    exact hn
  | ready events =>
    have hs : s.onReady events = (s', place') := Option.some.inj hstep
    simp only [Shared.onReady, hc, hl, Bool.not_false, Bool.and_self, Bool.true_or, if_true] at hs
    obtain ⟨rfl, -⟩ := Prod.mk.inj hs
    exact hn
  | receiving events attempts =>
    cases attempts with
    | zero =>
      obtain ⟨rfl, -⟩ := of_some_pair hstep
      exact hn
    | succ attempts =>
      have hs : s.receive events attempts c = (s', place') := Option.some.inj hstep
      simp only [Shared.receive, hc, hl, Bool.not_false, Bool.true_or, Bool.and_self, if_true] at hs
      obtain ⟨rfl, -⟩ := Prod.mk.inj hs
      exact hn
  | sendingReady events =>
    obtain ⟨rfl, -⟩ := of_some_pair hstep
    exact (Shared.sendReady_sane h events c).2.2.disconnectNotified.trans hn
  | notifying =>
    have hs : s.notifyDisconnected = (s', place') := Option.some.inj hstep
    simp only [Shared.notifyDisconnected, hn, Bool.or_true, if_true] at hs
    obtain ⟨rfl, -⟩ := Prod.mk.inj hs
    exact hn
  | disconnecting reason =>
    simp only [EpollConnection.advance] at hstep
    split at hstep
    all_goals
      obtain ⟨rfl, -⟩ := of_some_pair hstep
      exact hn
  | finished => cases hstep
  | _ =>
    obtain ⟨rfl, -⟩ := of_some_pair hstep
    exact hn

lemma step_notified (h : Inv s) (hn : s.shared.disconnectNotified = true) (hstep : EpollConnection.step s e = some s') :
    s'.shared.disconnectNotified = true := by
  cases e with
  | call call =>
    obtain rfl := Option.some.inj hstep
    exact hn
  | poll events =>
    obtain ⟨-, rfl⟩ := of_guard hstep
    exact hn
  | expire =>
    obtain rfl := Option.some.inj hstep
    exact hn
  | advance i c =>
    simp only [EpollConnection.step, Option.ite_none_right_eq_some] at hstep
    obtain ⟨⟨shared, place⟩, hadv, rfl⟩ := Option.map_eq_some_iff.mp hstep.2
    exact advance_notified h.sane hn hadv

lemma Inv.idle_of_notified (h : Inv s) (hn : s.shared.disconnectNotified = true) {i : ℕ} (hi : i < s.threads.count) :
    (s.threads.row i).processes = false := h.no_body hi (h.sane.ok.notified hn).2.2.1

lemma Inv.notified_of_call (h : Inv s) (hd : s.shared.disconnects ≠ []) : s.shared.disconnectNotified = true := by
  have hcalls := h.calls
  have hpos := List.length_pos_iff.mpr hd
  cases hn : s.shared.disconnectNotified with
  | true => rfl
  | false =>
    rw [hn, Bool.toNat_false] at hcalls
    omega

end Run

structure Sound (s : State) : Prop where
  exclusive : ∀ i < s.threads.count, ∀ j < s.threads.count, (s.threads.row i).processes = true →
    (s.threads.row j).processes = true → i = j
  once : s.shared.disconnects.length ≤ 1
  reason : ∀ reason ∈ s.shared.disconnects, ∃ graceful, s.shared.closings.head? = some (reason, graceful)
  barrier : (s.shared.disconnects ≠ [] ∨ ∃ i < s.threads.count, (s.threads.row i).disconnects = true) →
    s.shared.closed = true ∧ s.shared.lingering = false ∧ ∀ i < s.threads.count, (s.threads.row i).processes = false
  told : (∀ i < s.threads.count, (s.threads.row i).runs = false) → s.shared.closed = true → s.shared.lingering = false →
    s.shared.observerAssigned = true → s.shared.observer = true → s.shared.disconnects.length = 1
  taken : s.shared.kernel <+: s.shared.accepted
  drained : (s.shared.shutWrite = true ∨ ∃ reason, s.shared.closings.head? = some (reason, true)) →
    s.shared.kernel = s.shared.accepted
  armed : s.shared.started = true → s.shared.closed = false ∨ s.shared.lingering = true →
    (∀ i < s.threads.count, (s.threads.row i).processes = false) → s.shared.interestLocked ≠ ⟨false, false⟩ →
    (∃ armed, s.shared.armed = some armed ∧ (s.shared.interestLocked.input = true → armed.input = true) ∧
      (s.shared.interestLocked.output = true → armed.output = true)) ∨
    ∃ i < s.threads.count, (s.threads.row i).carries = true

lemma needs_covered {s : Shared} {interest : Interest} (h : s.needs interest = false) : ∃ armed, s.armed = some armed ∧
    (interest.input = true → armed.input = true) ∧ (interest.output = true → armed.output = true) := by
  unfold Shared.needs at h
  cases ha : s.armed with
  | none =>
    rw [ha] at h
    cases h
  | some armed =>
    rw [ha] at h
    simp only [Bool.or_eq_false_iff, Bool.and_eq_false_iff, Bool.not_eq_false'] at h
    refine ⟨armed, rfl, fun hi => ?_, fun ho => ?_⟩
    · rcases h.1 with hf | ht
      · exact absurd (hf.symm.trans hi) nofun
      · exact ht
    · rcases h.2 with hf | ht
      · exact absurd (hf.symm.trans ho) nofun
      · exact ht

lemma Inv.idle {s : State} (h : Inv s) (hrun : ∀ i < s.threads.count, (s.threads.row i).processes = false) :
    s.shared.processing = false := by
  refine Bool.eq_false_iff.mpr fun hp => ?_
  have ht := h.processing
  rw [hp, Bool.toNat_true] at ht
  obtain ⟨i, hi, hrow⟩ := Table.exists_of_tally_pos (ht ▸ Nat.one_pos)
  exact absurd ((hrun i hi).symm.trans hrow) nofun

/-- In every run the connection tells its observer once, behind its last event, hands the kernel the accepted
bytes in order and waits for every event that it needs. -/
theorem sound_of_reached {s : State} (h : Reached s) : Sound s ∧ ∀ s', Steps step s s' → s.shared.disconnects ≠ [] →
    ∀ i < s'.threads.count, (s'.threads.row i).processes = false := by
  have hi := inv_of_reached h
  have hok := hi.sane.ok
  refine ⟨⟨?_, ?_, hi.reasons, ?_, ?_, hi.sane.flow.kernel, ?_, ?_⟩, ?_⟩
  · intro i hilt j hjlt hpi hpj
    refine Table.eq_of_tally_le_one ?_ hilt hjlt hpi hpj
    rw [hi.processing]
    exact Bool.toNat_le _
  · have := hi.calls
    have hb := Bool.toNat_le s.shared.disconnectNotified
    omega
  · intro hcalled
    have hn : s.shared.disconnectNotified = true := by
      rcases hcalled with hd | ⟨i, hilt, hrow⟩
      · exact hi.notified_of_call hd
      · have hp := hi.placed i hilt
        cases hplace : s.threads.row i with
        | disconnecting reason =>
          rw [hplace] at hp
          exact hp.1
        | _ =>
          rw [hplace] at hrow
          cases hrow
    obtain ⟨hc, hl, -, -⟩ := hok.notified hn
    exact ⟨hc, hl, fun i hilt => hi.idle_of_notified hn hilt⟩
  · intro hquiet hc hl ha ho
    have hnone : ∀ p : Place → Bool, (∀ place, place.runs = false → p place = false) → s.threads.tally p = 0 := by
      intro p hp
      by_contra hne
      obtain ⟨i, hilt, hrow⟩ := Table.exists_of_tally_pos (Nat.pos_of_ne_zero hne)
      exact absurd ((hp _ (hquiet i hilt)).symm.trans hrow) nofun
    have hcalls := hnone Place.disconnects fun place hr => by cases place <;> first | rfl | cases hr
    have hnots := hnone Place.notifies fun place hr => by cases place <;> first | rfl | cases hr
    have hp : s.shared.processing = false := hi.idle fun i hilt => by
      have hr := hquiet i hilt
      cases hrow : s.threads.row i <;> first | rfl | (rw [hrow] at hr; cases hr)
    have hn : s.shared.disconnectNotified = true := by
      cases hn : s.shared.disconnectNotified with
      | true => rfl
      | false =>
        have hdue : s.shared.due = true := by simp [Shared.due, hc, hl, ha, hn]
        rcases hi.due hdue with hp' | hpos
        · exact absurd (hp.symm.trans hp') nofun
        · rw [hnots] at hpos
          exact absurd hpos (Nat.lt_irrefl 0)
    have hle := hi.called ho
    have hge := hi.calls
    rw [hn, hcalls, Bool.toNat_true] at hle hge
    omega
  · rintro (hw | ⟨reason, hhead⟩)
    · exact hi.sane.flow.shut hw
    · cases hc : s.shared.closed with
      | true =>
        rw [hok.closed hc] at hhead
        exact hi.sane.flow.shut (of_some_pair hhead).2
      | false =>
        rw [(hok.opened hc).2.1] at hhead
        cases hhead
  · intro hs hl hbody hne
    have hp := hi.idle hbody
    cases hneeds : s.shared.needs s.shared.interestLocked with
    | false => exact .inl (needs_covered hneeds)
    | true =>
      refine .inr (Table.exists_of_tally_pos (hi.live ?_))
      have hl' : (!s.shared.closed || s.shared.lingering) = true := by
        rcases hl with hc | hl
        · rw [hc]
          rfl
        · rw [hl, Bool.or_true]
      simp [Shared.wants, hs, hl', hp, hne, hneeds]
  · intro s' hsteps hd i hilt
    have hlater : Inv s' ∧ s'.shared.disconnectNotified = true :=
      hsteps.invariant (P := fun t => Inv t ∧ t.shared.disconnectNotified = true) ⟨hi, hi.notified_of_call hd⟩
        fun t e t' ht hstep => ⟨ht.1.step hstep, step_notified ht.1 ht.2 hstep⟩
    exact hlater.1.idle_of_notified hlater.2 hilt

def replyAndClose : List Event :=
  [.call (.setObserver true), .advance 0 {}, .advance 0 {}, .call .start, .advance 1 {}, .call (.send [1, 2]), .advance 2 {},
    .call .closeAfterSend, .advance 3 {}, .advance 3 {}, .poll { output := true }, .advance 4 {}, .advance 4 {},
    .advance 4 { sent := fun _ => .taken 2 }, .advance 4 {}, .poll { input := true }, .advance 5 {}, .advance 5 {},
    .advance 5 { received := .taken [] }, .advance 5 {}, .advance 5 {}, .advance 5 {}, .advance 5 {}]

theorem sound_of_reached_reply : ∃ s, run step { shared := { connectionLimit := 16 } } replyAndClose = some s ∧
    s.shared.kernel = [1, 2] ∧ s.shared.disconnects = [closedStatus] ∧ Sound s := by
  refine ⟨_, rfl, rfl, rfl, ?_⟩
  exact (sound_of_reached ⟨_, ⟨16, rfl⟩, replyAndClose, rfl⟩).1

end ServerCore.Net.EpollConnection
