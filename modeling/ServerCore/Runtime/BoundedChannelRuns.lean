import ServerCore.Runtime.BoundedChannel

/-! What a `BoundedChannel` keeps in every run: its values, its accounts and its readiness subscriptions. -/

namespace ServerCore.Runtime.BoundedChannel

open ServerCore.Core ServerCore.Foundations

variable {α : Type*} {c c' : Channel α} {place' : WaitPlace Unit}

abbrev Channel.row (c : Channel α) (i : ℕ) : Subscription Request := c.subscriptions.row i

structure Sound (c : Channel α) : Prop where
  history : c.received ++ c.queue.map Entry.value = c.sent
  bytes_eq : c.bytes = (c.queue.map Entry.bytes).sum
  bytes_le : c.bytes ≤ c.options.maxRetainedBytes
  length_le : c.queue.length ≤ c.options.maxMessages
  reading : ∀ i, c.read = some i → i < c.subscriptions.count ∧ (c.row i).request.writing = false ∧
    ((c.row i).isPending = true → c.closed = false ∧ c.queue = [])
  writing : ∀ i, c.write = some i → i < c.subscriptions.count ∧ (c.row i).request.writing = true ∧
    ((c.row i).isPending = true → (c.row i).request.bytes = c.writeBytes ∧ c.closed = false ∧ c.canSend c.writeBytes = false)

def Channel.view (c : Channel α) : View Unit where
  pending i := i < c.subscriptions.count ∧ (c.row i).isPending = true
  registered i := c.read = some i ∨ c.write = some i
  ready _ := c.available = true

lemma canSend_iff (h : Sound c) {amount : ℕ} :
    c.canSend amount = true ↔ c.queue.length < c.options.maxMessages ∧ c.bytes + amount ≤ c.options.maxRetainedBytes := by
  have hle := h.bytes_le
  simp only [Channel.canSend, Bool.and_eq_true, decide_eq_true_eq, sizeSub_eq hle]
  omega

lemma hands_refuses (code : ErrorCode) : Hands c.view c.view (.answered code) := .refl nofun

section Sending

lemma trySend_sound (h : Sound c) (value : Option α) (retainedBytes : ℕ) (allocated : Bool) :
    Sound (c.trySend value retainedBytes allocated).1 := by
  cases value with
  | none => exact h
  | some value =>
    simp only [Channel.trySend]
    split_ifs with hlarge hmem hclosed hroom
    · exact h
    · exact h
    · exact h
    · exact h
    · obtain ⟨hlength, hbytes⟩ := (canSend_iff h).mp (by simpa using hroom)
      refine ⟨?_, ?_, hbytes, ?_, nofun, fun i hi => ?_⟩
      · simp [← h.history]
      · simp [h.bytes_eq]
      · simp only [List.length_append, List.length_singleton]
        omega
      · obtain ⟨hi, hw, hpending⟩ := h.writing i hi
        refine ⟨hi, hw, fun hp => ?_⟩
        obtain ⟨hb, hopen, hfull⟩ := hpending hp
        refine ⟨hb, hopen, ?_⟩
        rw [Bool.eq_false_iff, Ne, canSend_iff h] at hfull
        simp only [Channel.canSend, sizeSub_eq hbytes, List.length_append, List.length_singleton, Bool.and_eq_false_iff,
          decide_eq_false_iff_not]
        omega

lemma trySend_hands (value : Option α) (retainedBytes : ℕ) (allocated : Bool) :
    Hands c.view (c.trySend value retainedBytes allocated).1.view (c.trySend value retainedBytes allocated).2 := by
  cases value with
  | none => exact hands_refuses _
  | some value =>
    simp only [Channel.trySend]
    split_ifs with hlarge hmem hclosed hroom
    · exact hands_refuses _
    · exact hands_refuses _
    · exact hands_refuses _
    · exact hands_refuses _
    · refine ⟨fun i hi => ?_, nofun, fun _ _ _ => ⟨_, rfl⟩⟩
      by_cases hr : c.read = some i
      · exact .inr (.inl ⟨.ok, by simp [WaitPlace.sources, hr]⟩)
      · by_cases hw : c.write = some i
        · exact .inl (.inr hw)
        · exact .inr (.inr ⟨hi, not_or.mpr ⟨hr, hw⟩⟩)

lemma close_sound (h : Sound c) : Sound c.close.1 :=
  ⟨h.history, h.bytes_eq, h.bytes_le, h.length_le, nofun, nofun⟩

lemma close_hands : Hands c.view c.close.1.view c.close.2 := by
  refine ⟨fun i hi => ?_, nofun, fun _ _ _ => ⟨_, rfl⟩⟩
  by_cases hr : c.read = some i
  · exact .inr (.inl ⟨_, List.mem_append_left _ (by rw [hr]; exact List.mem_singleton_self _)⟩)
  · by_cases hw : c.write = some i
    · exact .inr (.inl ⟨_, List.mem_append_right _ (by rw [hw]; exact List.mem_singleton_self _)⟩)
    · exact .inr (.inr ⟨hi, not_or.mpr ⟨hr, hw⟩⟩)

end Sending

section Receiving

lemma take_sound (h : Sound c) : Sound c.take.1 := by
  rw [Channel.take]
  cases hq : c.queue with
  | nil => exact h
  | cons entry queue =>
    have hbytes : c.bytes = entry.bytes + (queue.map Entry.bytes).sum := by rw [h.bytes_eq, hq]; rfl
    have hle := h.bytes_le
    have hlength := h.length_le
    rw [hq, List.length_cons] at hlength
    have hsub : sizeSub c.bytes entry.bytes = (queue.map Entry.bytes).sum := by
      rw [sizeSub_eq (by omega)]
      omega
    have hread (i : ℕ) (hi : c.read = some i) : i < c.subscriptions.count ∧ (c.row i).request.writing = false ∧
        ((c.row i).isPending = true → c.closed = false ∧ queue = []) := by
      obtain ⟨hlt, hr, hpending⟩ := h.reading i hi
      refine ⟨hlt, hr, fun hp => ?_⟩
      simp [hq] at hpending
      simp [hpending] at hp
    have hhistory : (c.received ++ [entry.value]) ++ queue.map Entry.value = c.sent := by
      rw [← h.history, hq]
      simp
    simp only
    split_ifs with hroom
    · exact ⟨hhistory, hsub, by simp only [hsub]; omega, by simp only; omega, hread, nofun⟩
    · refine ⟨hhistory, hsub, by simp only [hsub]; omega, by simp only; omega, hread, fun i hi => ?_⟩
      obtain ⟨hlt, hw, hpending⟩ := h.writing i hi
      exact ⟨hlt, hw, fun hp => ⟨(hpending hp).1, (hpending hp).2.1, by simpa using hroom⟩⟩

lemma take_hands : Hands c.view c.take.1.view c.take.2 := by
  rw [Channel.take]
  cases hq : c.queue with
  | nil => exact hands_refuses _
  | cons entry queue =>
    have havailable : c.available = true := by simp [Channel.available, hq]
    simp only
    split_ifs with hroom
    · refine ⟨fun i hi => ?_, nofun, fun _ hn => (hn havailable).elim⟩
      by_cases hw : c.write = some i
      · exact .inr (.inl ⟨.ok, by simp [WaitPlace.sources, hw]⟩)
      · by_cases hr : c.read = some i
        · exact .inl (.inl hr)
        · exact .inr (.inr ⟨hi, not_or.mpr ⟨hr, hw⟩⟩)
    · refine ⟨fun i hi => ?_, nofun, fun _ hn => (hn havailable).elim⟩
      by_cases hr : c.view.registered i
      · exact .inl hr
      · exact .inr (.inr ⟨hi, hr⟩)

lemma receive_sound (h : Sound c) (stopRequested expired : Bool) : Sound (c.receive stopRequested expired).1 := by
  rw [Channel.receive]
  split_ifs
  · exact h
  · exact take_sound h
  · exact h
  · exact h

lemma receive_hands (stopRequested expired : Bool) :
    Hands c.view (c.receive stopRequested expired).1.view (c.receive stopRequested expired).2 := by
  rw [Channel.receive]
  split_ifs with hstop havailable hexpired
  · exact hands_refuses _
  · exact take_hands
  · exact hands_refuses _
  · exact .refl fun _ _ => havailable

end Receiving

section Subscribing

lemma row_push_of_slot {request : Request} {i : ℕ} (hi : i < c.subscriptions.count) :
    (c.subscriptions.push ⟨request, .pending⟩).row i = c.row i := by
  rw [Table.push_row, if_neg hi.ne]

lemma pendingAt_some {i : ℕ} (h : c.pendingAt (some i) = false) : (c.row i).isPending = false := by
  simpa [Channel.pendingAt] using h

lemma subscribe_sound (h : Sound c) (writing : Bool) (bytes : ℕ) (failure : Option ErrorCode) :
    Sound (c.subscribe writing bytes failure).1 := by
  have hread (request : Request) (i : ℕ) (hi : c.read = some i) :
      i < c.subscriptions.count + 1 ∧ ((c.subscriptions.push ⟨request, .pending⟩).row i).request.writing = false ∧
        (((c.subscriptions.push ⟨request, .pending⟩).row i).isPending = true → c.closed = false ∧ c.queue = []) := by
    obtain ⟨hlt, hr, hpending⟩ := h.reading i hi
    rw [row_push_of_slot hlt]
    exact ⟨hlt.trans (Nat.lt_succ_self _), hr, hpending⟩
  have hwrite (request : Request) (i : ℕ) (hi : c.write = some i) :
      i < c.subscriptions.count + 1 ∧ ((c.subscriptions.push ⟨request, .pending⟩).row i).request.writing = true ∧
        (((c.subscriptions.push ⟨request, .pending⟩).row i).isPending = true → (c.row i).isPending = true ∧
          ((c.subscriptions.push ⟨request, .pending⟩).row i).request.bytes = c.writeBytes ∧ c.closed = false ∧
          c.canSend c.writeBytes = false) := by
    obtain ⟨hlt, hr, hpending⟩ := h.writing i hi
    rw [row_push_of_slot hlt]
    exact ⟨hlt.trans (Nat.lt_succ_self _), hr, fun hp => ⟨hp, hpending hp⟩⟩
  cases failure with
  | some code =>
    simp only [Channel.subscribe]
    split_ifs
    · exact h
    · exact h
  | none =>
    cases writing with
    | true =>
      simp only [Channel.subscribe, ↓reduceIte, Bool.true_and, decide_eq_true_eq]
      have hold (hidle : c.pendingAt c.write = false) (i : ℕ) (hi : c.write = some i) :
          i < c.subscriptions.count + 1 ∧
            ((c.subscriptions.push ⟨⟨true, bytes⟩, .pending⟩).row i).request.writing = true ∧
            (((c.subscriptions.push ⟨⟨true, bytes⟩, .pending⟩).row i).isPending = true →
              ((c.subscriptions.push ⟨⟨true, bytes⟩, .pending⟩).row i).request.bytes = bytes ∧ c.closed = false ∧
              c.canSend bytes = false) := by
        obtain ⟨hlt, hr, hpending⟩ := hwrite ⟨true, bytes⟩ i hi
        refine ⟨hlt, hr, fun hp => ?_⟩
        rw [hi] at hidle
        simp [pendingAt_some hidle] at hpending
        simp [hpending] at hp
      split_ifs with hlarge hpending hclosed hroom
      · exact h
      · exact h
      · exact ⟨h.history, h.bytes_eq, h.bytes_le, h.length_le, hread _, hold (by simpa using hpending)⟩
      · exact ⟨h.history, h.bytes_eq, h.bytes_le, h.length_le, hread _, hold (by simpa using hpending)⟩
      · refine ⟨h.history, h.bytes_eq, h.bytes_le, h.length_le, hread _, fun i hi => ?_⟩
        obtain rfl := Option.some.inj hi
        simp only [Channel.row, Table.push_count, Table.push_row, ↓reduceIte, Nat.lt_succ_self, true_and]
        exact fun _ => ⟨by simpa using hclosed, (Bool.not_eq_true _).mp hroom⟩
    | false =>
      simp only [Channel.subscribe, Bool.false_eq_true, ↓reduceIte, Bool.false_and]
      have hold (i : ℕ) (hi : c.write = some i) := hwrite ⟨false, bytes⟩ i hi
      split_ifs with hpending hqueue hclosed
      · exact h
      · exact ⟨h.history, h.bytes_eq, h.bytes_le, h.length_le, hread _,
          fun i hi => ⟨(hold i hi).1, (hold i hi).2.1, fun hp => ((hold i hi).2.2 hp).2⟩⟩
      · exact ⟨h.history, h.bytes_eq, h.bytes_le, h.length_le, hread _,
          fun i hi => ⟨(hold i hi).1, (hold i hi).2.1, fun hp => ((hold i hi).2.2 hp).2⟩⟩
      · refine ⟨h.history, h.bytes_eq, h.bytes_le, h.length_le, fun i hi => ?_,
          fun i hi => ⟨(hold i hi).1, (hold i hi).2.1, fun hp => ((hold i hi).2.2 hp).2⟩⟩
        obtain rfl := Option.some.inj hi
        simp only [Channel.row, Table.push_count, Table.push_row, ↓reduceIte, Nat.lt_succ_self, true_and]
        exact fun _ => ⟨by simpa using hclosed, by simpa using hqueue⟩

lemma subscribe_hands (writing : Bool) (bytes : ℕ) (failure : Option ErrorCode) :
    Hands c.view (c.subscribe writing bytes failure).1.view (c.subscribe writing bytes failure).2 := by
  have hcases {c' : Channel α} {request : Request} (hs : c'.subscriptions = c.subscriptions.push ⟨request, .pending⟩)
      {place' : WaitPlace Unit} (ha : c'.available = c.available) (hplace : place' ≠ .waiting ())
      (hnew : c'.read = some c.subscriptions.count ∨ c'.write = some c.subscriptions.count ∨
        ∃ code, (c.subscriptions.count, code) ∈ place'.sources)
      (hread : ∀ i, c.read = some i → (c.row i).isPending = true → c'.read = some i)
      (hwrite : ∀ i, c.write = some i → (c.row i).isPending = true → c'.write = some i) : Hands c.view c'.view place' := by
    refine ⟨fun i hi => ?_, fun _ h => (hplace h).elim, fun _ hn hr => (hn (ha.symm.trans hr)).elim⟩
    obtain ⟨hi, hp⟩ := hi
    rw [hs, Table.push_count] at hi
    rcases eq_or_ne i c.subscriptions.count with rfl | hne
    · exact (or_assoc.mpr hnew).imp_right .inl
    · have hlt : i < c.subscriptions.count := by omega
      rw [Channel.row, hs, row_push_of_slot hlt] at hp
      by_cases hr : c.read = some i
      · exact .inl (.inl (hread i hr hp))
      · by_cases hw : c.write = some i
        · exact .inl (.inr (hwrite i hw hp))
        · exact .inr (.inr ⟨⟨hlt, hp⟩, not_or.mpr ⟨hr, hw⟩⟩)
  have hslot {source : Option ℕ} (hidle : c.pendingAt source = false) (i : ℕ) (hi : source = some i)
      (hp : (c.row i).isPending = true) (goal : Prop) : goal := by
    rw [hi] at hidle
    rw [pendingAt_some hidle] at hp
    cases hp
  cases failure with
  | some code =>
    simp only [Channel.subscribe]
    split_ifs
    · exact hands_refuses _
    · exact hands_refuses _
  | none =>
    cases writing with
    | true =>
      simp only [Channel.subscribe, ↓reduceIte, Bool.true_and, decide_eq_true_eq]
      split_ifs with hlarge hpending hclosed hroom
      · exact hands_refuses _
      · exact hands_refuses _
      · exact hcases rfl rfl nofun (.inr (.inr ⟨_, List.mem_singleton_self _⟩)) (fun i hi _ => hi) (fun i hi _ => hi)
      · exact hcases rfl rfl nofun (.inr (.inr ⟨_, List.mem_singleton_self _⟩)) (fun i hi _ => hi) (fun i hi _ => hi)
      · exact hcases rfl rfl nofun (.inr (.inl rfl)) (fun i hi _ => hi)
          (fun i hi hp => hslot (by simpa using hpending) i hi hp _)
    | false =>
      simp only [Channel.subscribe, Bool.false_eq_true, ↓reduceIte, Bool.false_and]
      split_ifs with hpending hqueue hclosed
      · exact hands_refuses _
      · exact hcases rfl rfl nofun (.inr (.inr ⟨_, List.mem_singleton_self _⟩)) (fun i hi _ => hi) (fun i hi _ => hi)
      · exact hcases rfl rfl nofun (.inr (.inr ⟨_, List.mem_singleton_self _⟩)) (fun i hi _ => hi) (fun i hi _ => hi)
      · exact hcases rfl rfl nofun (.inl rfl) (fun i hi hp => hslot (by simpa using hpending) i hi hp _) (fun i hi _ => hi)

end Subscribing

section Completing

variable {i : ℕ} {f : Subscription Request → Subscription Request}

lemma update_sound (h : Sound c) (hf : Settles f) : Sound (c.update i f) := by
  refine ⟨h.history, h.bytes_eq, h.bytes_le, h.length_le, fun j hj => ?_, fun j hj => ?_⟩
  · obtain ⟨hlt, hr, hpending⟩ := h.reading j hj
    obtain ⟨hrequest, hp⟩ := @Settles.row _ c.subscriptions i _ hf j
    rw [Channel.row, Channel.update, hrequest]
    exact ⟨hlt, hr, fun hp' => hpending (hp hp').2⟩
  · obtain ⟨hlt, hr, hpending⟩ := h.writing j hj
    obtain ⟨hrequest, hp⟩ := @Settles.row _ c.subscriptions i _ hf j
    rw [Channel.row, Channel.update, hrequest]
    exact ⟨hlt, hr, fun hp' => hpending (hp hp').2⟩

lemma update_pending (hf : Settles f) (j : ℕ) (h : (c.update i f).view.pending j) : j ≠ i ∧ c.view.pending j := by
  obtain ⟨hne, hp⟩ := (hf.row j).2 h.2
  exact ⟨hne, h.1, hp⟩

end Completing

structure Inv (s : State α) : Prop where
  sound : Sound s.channel
  watched : Watched s.channel.view s.threads

section Runs

variable {s s' : State α} {t : ℕ}

lemma inv_initial (h : Initial s) : Inv s := by
  obtain ⟨options, hcreate, hthreads⟩ := h
  simp only [Channel.create, Option.ite_none_left_eq_some, Option.some.injEq] at hcreate
  obtain ⟨channel, threads⟩ := s
  obtain ⟨-, rfl⟩ := hcreate
  refine ⟨⟨rfl, rfl, Nat.zero_le _, Nat.zero_le _, nofun, nofun⟩, fun i hi => (Nat.not_lt_zero _ hi.1).elim, fun t _ ht => ?_⟩
  simp only at hthreads
  simp [hthreads] at ht

lemma inv_step (h : Inv s) {event : ℕ × Choice α} (hs : step s event = some s') : Inv s' := by
  obtain ⟨t, choice⟩ := event
  obtain ⟨⟨channel, place'⟩, ha, rfl⟩ := Option.map_eq_some_iff.mp hs
  simp only at ha ⊢
  cases choice with
  | trySend value retainedBytes allocated =>
    obtain ⟨hfree, rfl, rfl⟩ := of_guard_pair ha
    exact ⟨trySend_sound h.sound _ _ _, h.watched.passes_free hfree (trySend_hands _ _ _)⟩
  | close =>
    obtain ⟨hfree, rfl, rfl⟩ := of_guard_pair ha
    exact ⟨close_sound h.sound, h.watched.passes_free hfree close_hands⟩
  | tryReceive =>
    obtain ⟨hfree, rfl, rfl⟩ := of_guard_pair ha
    exact ⟨take_sound h.sound, h.watched.passes_free hfree take_hands⟩
  | receive stopRequested expired =>
    obtain ⟨hplace, rfl, rfl⟩ := of_guard_pair ha
    refine ⟨receive_sound h.sound _ _, ?_⟩
    rcases (Bool.or_eq_true _ _).mp hplace with hfree | hwoken
    · exact h.watched.passes_free hfree (receive_hands _ _)
    · have hw : s.threads t = .woken () := by simpa using hwoken
      exact h.watched.passes (by rw [hw]; rfl) (by rw [hw]; exact nofun) (receive_hands _ _)
  | subscribe writing bytes failure =>
    obtain ⟨hfree, rfl, rfl⟩ := of_guard_pair ha
    exact ⟨subscribe_sound h.sound _ _ _, h.watched.passes_free hfree (subscribe_hands _ _ _)⟩
  | wake =>
    cases hplace : s.threads t with
    | waiting request =>
      rw [hplace] at ha
      obtain ⟨rfl, rfl⟩ := of_some_pair ha
      exact ⟨h.sound, h.watched.passes (by rw [hplace]; rfl) (by rw [hplace]; exact nofun) (.refl nofun)⟩
    | _ => simp [hplace, advance] at ha
  | complete =>
    cases hplace : s.threads t with
    | completing sources =>
      cases sources with
      | nil => simp [hplace, advance] at ha
      | cons entry rest =>
        obtain ⟨source, code⟩ := entry
        rw [hplace] at ha
        obtain ⟨rfl, rfl⟩ := of_some_pair ha
        refine ⟨update_sound h.sound (complete_settles code), h.watched.settle (update_pending (complete_settles code)) rfl rfl
          (fun j code' hne hmem => ?_) (.inr ⟨by rw [hplace]; exact nofun, nofun⟩)⟩
        rw [hplace] at hmem
        exact (List.mem_cons.mp hmem).resolve_left fun heq => hne (Prod.mk.inj heq).1
    | _ => simp [hplace, advance] at ha
  | cancel source =>
    obtain ⟨-, rfl, rfl⟩ := of_guard_pair ha
    exact ⟨update_sound h.sound (complete_settles _), h.watched.settle (update_pending (complete_settles _)) rfl rfl
      (fun _ _ _ hmem => hmem) (.inl rfl)⟩
  | reset source =>
    obtain ⟨-, rfl, rfl⟩ := of_guard_pair ha
    exact ⟨update_sound h.sound reset_settles, h.watched.settle (update_pending reset_settles) rfl rfl
      (fun _ _ _ hmem => hmem) (.inl rfl)⟩
  | notify =>
    cases hplace : s.threads t with
    | notifying sources =>
      rw [hplace] at ha
      obtain ⟨rfl, rfl⟩ := of_some_pair ha
      exact ⟨h.sound, h.watched.notify hplace⟩
    | _ => simp [hplace, advance] at ha

lemma inv_of_reachable (h : Reachable step Initial s) : Inv s :=
  h.invariant (fun _ => inv_initial) fun _ _ _ hinv hstep => inv_step hinv hstep

end Runs

section Draining

variable {s : State α} {t : ℕ}

-- What a receiver leaves for the next one when it has completed what it took out of the lock.
structure Undisturbed (c c' : Channel α) : Prop where
  queue : c'.queue = c.queue
  closed : c'.closed = c.closed
  sent : c'.sent = c.sent
  received : c'.received = c.received

lemma completes {sources : List (ℕ × ErrorCode)} (h : s.threads t = .completing sources) :
    ∃ s', Steps step s s' ∧ s'.threads t = .completing [] ∧ Undisturbed s.channel s'.channel := by
  induction sources generalizing s with
  | nil => exact ⟨s, .refl s, h, rfl, rfl, rfl, rfl⟩
  | cons entry rest ih =>
    obtain ⟨source, code⟩ := entry
    have hstep : step s (t, .complete) =
        some ⟨s.channel.update source (Subscription.complete code), Function.update s.threads t (.completing rest)⟩ := by
      simp only [step, h, advance, Option.map_some]
    obtain ⟨s', hsteps, hplace, hsame⟩ := ih (s := ⟨s.channel.update source (Subscription.complete code),
      Function.update s.threads t (.completing rest)⟩) (Function.update_self ..)
    exact ⟨s', (Steps.single hstep).trans hsteps, hplace, hsame.queue, hsame.closed, hsame.sent, hsame.received⟩

lemma receives {entry : Entry α} {queue : List (Entry α)} (hfree : (s.threads t).free = true)
    (hq : s.channel.queue = entry :: queue) :
    ∃ s', Steps step s s' ∧ (s'.threads t).free = true ∧ s'.channel.queue = queue ∧ s'.channel.closed = s.channel.closed ∧
      s'.channel.sent = s.channel.sent ∧ s'.channel.received = s.channel.received ++ [entry.value] := by
  obtain ⟨sources, hplace, hqueue, hclosed, hsent, hreceived⟩ : ∃ sources, s.channel.take.2 = .notifying sources ∧
      s.channel.take.1.queue = queue ∧ s.channel.take.1.closed = s.channel.closed ∧
      s.channel.take.1.sent = s.channel.sent ∧ s.channel.take.1.received = s.channel.received ++ [entry.value] := by
    simp only [Channel.take, hq]
    split_ifs
    · exact ⟨_, rfl, rfl, rfl, rfl, rfl⟩
    · exact ⟨_, rfl, rfl, rfl, rfl, rfl⟩
  have htake : step s (t, .tryReceive) = some ⟨s.channel.take.1, Function.update s.threads t (.notifying sources)⟩ := by
    simp only [step, advance, hfree, ↓reduceIte, Option.map_some, Channel.tryReceive, ← hplace]
  have hnotify : step ⟨s.channel.take.1, Function.update s.threads t (.notifying sources)⟩ (t, .notify) =
      some ⟨s.channel.take.1, Function.update (fun w => (Function.update s.threads t (.notifying sources) w).wake) t
        (.completing sources)⟩ := by
    simp only [step, Function.update_self, advance, Option.map_some]
  have hcompleting : (⟨s.channel.take.1, Function.update (fun w => (Function.update s.threads t (.notifying sources) w).wake) t
      (.completing sources)⟩ : State α).threads t = .completing sources := by simp only [Function.update_self]
  obtain ⟨s', hsteps, hdone, hsame⟩ := completes hcompleting
  refine ⟨s', ((Steps.single htake).trans (.single hnotify)).trans hsteps, by rw [hdone]; rfl, ?_⟩
  exact ⟨hsame.queue.trans hqueue, hsame.closed.trans hclosed, hsame.sent.trans hsent, hsame.received.trans hreceived⟩

lemma drains (hfree : (s.threads t).free = true) :
    ∃ s', Steps step s s' ∧ s'.channel.queue = [] ∧ s'.channel.closed = s.channel.closed ∧
      s'.channel.sent = s.channel.sent ∧
      s'.channel.received = s.channel.received ++ s.channel.queue.map Entry.value := by
  generalize hq : s.channel.queue = queue
  induction queue generalizing s with
  | nil => exact ⟨s, .refl s, hq, rfl, rfl, by simp⟩
  | cons entry queue ih =>
    obtain ⟨s₁, hsteps, hfree₁, hq₁, hclosed, hsent, hreceived⟩ := receives hfree hq
    obtain ⟨s', hsteps', hnil, hclosed', hsent', hreceived'⟩ := ih hfree₁ hq₁
    refine ⟨s', hsteps.trans hsteps', hnil, hclosed'.trans hclosed, hsent'.trans hsent, ?_⟩
    rw [hreceived', hreceived, List.map_cons, List.append_assoc, List.singleton_append]

end Draining

end ServerCore.Runtime.BoundedChannel
