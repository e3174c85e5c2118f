import ServerCore.Web.HttpPeerShape

/-! The unprocessed input of a connection against the bound for pipelined bytes. -/

namespace ServerCore.Web.HttpPeer

open ServerCore.Core ServerCore.Foundations HttpParser State

variable {o : HttpServerOptions} {s s' : State}

def Roomy (o : HttpServerOptions) (s : State) : Prop := s.input.length + maximumReceiveChunkBytes ≤ o.maxPipelinedBytes

instance (o : HttpServerOptions) (s : State) : Decidable (Roomy o s) := inferInstanceAs (Decidable (_ ≤ _))

def Receive.flying : Receive → Bool
  | .inFlight _ => true
  | _ => false

def State.incoming (s : State) : Bool := s.receive.flying || !s.paused

/-- Where a pass of `RunProgress` begins a request, or takes up a paused receive for the credit of a body, one more receive
fits behind the unprocessed input. -/
def leavesRoom (o : HttpServerOptions) (s : State) : Event → Bool
  | .process choice =>
    match s.holder with
    | .processing .progress (.handle _) =>
      match choice.handled with
      | .policy => !s.incoming || decide (Roomy o s)
      | .dispatched _ => !s.incoming || decide (Roomy o s)
      | _ => true
    | .processing .progress (.configure credit) => credit == 0 || !s.paused || decide (Roomy o s)
    | _ => true
  | _ => true

def roomyStep (o : HttpServerOptions) (s : State) (event : Event) : Option State :=
  if leavesRoom o s event then step o s event else none

def Behind (s : State) (rest : Bytes) : Prop :=
  ∃ x y, s.input = x ++ y ∧ Waiting s.parser x ∧ y.length + rest.length ≤ maximumReceiveChunkBytes

def Held (o : HttpServerOptions) (s : State) : Prop :=
  match s.holder with
  | .free => s.receive ≠ .delivering ∧ (s.pending = true → s.incoming = true → Roomy o s) ∧
    (s.pending = false → s.phase = .http → Waiting s.parser s.input)
  | .processing .progress _ => s.receive ≠ .delivering ∧ (s.pending = true → s.incoming = true → Roomy o s)
  | .processing (.receive rest) point => rest.length ≤ maximumReceiveChunkBytes ∧
    (s.input.length + rest.length ≤ o.maxPipelinedBytes ∨
      s.pending = false ∧ (point = .top ∨ point = .parse) ∧ Behind s rest)
  | .processed rest => rest.length ≤ maximumReceiveChunkBytes ∧
    (s.pending = true → s.input.length + rest.length ≤ o.maxPipelinedBytes) ∧
    (s.pending = false → s.phase = .http → Waiting s.parser s.input)
  | .receiving rest => rest.length ≤ maximumReceiveChunkBytes ∧
    (s.pending = true → s.input.length + rest.length ≤ o.maxPipelinedBytes ∧ (s.paused = true ∨ Roomy o s)) ∧
    (s.pending = false → s.phase = .http → Waiting s.parser s.input)

structure Buffer (o : HttpServerOptions) (s : State) : Prop where
  quiet : s.phase ≠ .http → s.pending = false
  chunk : ∀ bytes, s.receive = .inFlight bytes → bytes.length ≤ maximumReceiveChunkBytes
  held : Held o s

lemma pipelined_of_valid (h : validOptions o = true) : 2 * maximumReceiveChunkBytes ≤ o.maxPipelinedBytes := by
  simp only [validOptions, Bool.and_eq_true, decide_eq_true_eq] at h
  rw [maximumReceiveChunkBytes]
  omega

section Pass

variable {s₁ : State} {next : Next} {point : Point}

lemma push_buffer (s : State) (bytes : Bytes) : (s.push bytes).1.input = s.input ∧ (s.push bytes).1.receive = s.receive ∧
    (s.push bytes).1.paused = s.paused := by
  rw [push]
  repeat' split
  all_goals exact ⟨rfl, rfl, rfl⟩

lemma State.Advanced.receive_eq (ha : Advanced o s point s₁ next) : s₁.receive = s.receive := by
  cases ha with
  | turned ht =>
    cases ht with
    | drained hc | credit _ hc | parses _ hc => cases hc <;> rfl
    | _ => rfl
  | parsed ht =>
    cases ht with
    | pushed => exact (push_buffer _ _).2.1
    | _ => rfl
  | handles ht => cases ht <;> rfl
  | _ => rfl

/-- What a call of `Parse` does to the input. -/
structure Reads (s s₁ : State) (next : Next) : Prop where
  pending : s₁.pending = s.pending
  paused : s₁.paused = s.paused
  phase : s₁.phase = .http ∨ s₁.phase = .httpClosing ∧ next = .returns
  shrinks : s₁.phase = .http → s₁.input.length ≤ s.input.length
  waits : s.parser.streaming = false → s₁.phase = .http → next = .returns → Waiting s₁.parser s₁.input
  behind : ∀ x y, s.input = x ++ y → Waiting s.parser x → next ≠ .returns → s₁.input.length ≤ y.length

lemma State.Parsed.reads (hp : s.phase = .http) (ht : Parsed o s s₁ next) : Reads s s₁ next := by
  have hkinds {result : HttpParseResult} {c : Cursor} {kind : HttpParseKind} (h : Parses s.parser s.input result c)
      (hk : result.kind = kind) (hne : kind ≠ .error) (hne' : kind ≠ .needMore) : c.input.length ≤ s.input.length ∧
      ∀ x y, s.input = x ++ y → Waiting s.parser x → c.input.length ≤ y.length := by
    refine ⟨h.rest_le (hk.trans_ne hne), fun x y hxy hw => ?_⟩
    rw [hxy] at h
    exact hw.parse_rest h (hk.trans_ne hne') (hk.trans_ne hne)
  cases ht with
  | waits h hk =>
    exact ⟨rfl, rfl, .inl hp, fun _ => h.rest_le (by simp [hk]), fun hs _ _ => h.waiting hs hk, fun _ _ _ _ hn => absurd rfl hn⟩
  | failed h hb => exact ⟨rfl, rfl, .inr ⟨rfl, rfl⟩, nofun, fun _ => nofun, fun _ _ _ _ hn => absurd rfl hn⟩
  | refused h hk => exact ⟨rfl, rfl, .inr ⟨rfl, rfl⟩, nofun, fun _ => nofun, fun _ _ _ _ hn => absurd rfl hn⟩
  | continued h hk | headers h hk | begun h hk | completed h hk _ | whole h hk _ =>
    obtain ⟨hle, hbehind⟩ := hkinds h hk nofun nofun
    exact ⟨rfl, rfl, .inl hp, fun _ => hle, fun _ _ => nofun, fun x y hxy hw _ => hbehind x y hxy hw⟩
  | @pushed result c bytes h hk =>
    obtain ⟨hle, hbehind⟩ := hkinds h hk nofun nofun
    obtain ⟨hinput, -, hpaused⟩ := push_buffer (s.consumed c) bytes
    have hv := push_same (s.consumed c) bytes
    refine ⟨hv.pending, hpaused, .inl (hv.phase.trans hp), fun _ => ?_, fun _ _ => nofun, fun x y hxy hw _ => ?_⟩
    · rw [hinput]
      exact hle
    · rw [hinput]
      exact hbehind x y hxy hw

lemma State.Advanced.quiet (h : Shape s) (hq : s.phase ≠ .http → s.pending = false) {caller : Caller}
    (hh : s.holder = .processing caller point) (ha : Advanced o s point s₁ next) : s₁.phase ≠ .http → s₁.pending = false := by
  have hplace := h.place _ _ hh
  have halone := h.alone
  cases ha with
  | turned ht =>
    cases ht with
    | drained hc | credit _ hc | parses _ hc => cases hc <;> simp_all [State.pending, dropBody]
    | _ => simp_all [State.pending]
  | handles ht => cases ht <;> simp_all [State.pending, Place]
  | parsed ht =>
    obtain ⟨hphase, hd, ha⟩ := hplace
    intro hne
    cases ht with
    | waits | continued | headers | begun | completed | whole => exact absurd hphase hne
    | pushed => exact absurd ((push_same (s.consumed _) _).phase.trans hphase) hne
    | failed _ hb =>
      have hr : s.receivingBody = false := by
        cases hr : s.receivingBody with
        | false => rfl
        | true => simpa [hb] using (h.upload hr).1
      simp_all [State.pending, consumed]
    | refused hp hk =>
      have hr : s.receivingBody = false := by
        cases hr : s.receivingBody with
        | false => rfl
        | true => exact absurd (hp.headers hk).1 (h.upload hr).2
      simp_all [State.pending, consumed, State.configured]
  | _ => exact hq

lemma State.Advanced.roomy (h : Shape s) (hh : s.holder = .processing .progress point) (ha : Advanced o s point s₁ next)
    (hroom : s.pending = true → s.incoming = true → Roomy o s)
    (hguard : ∀ streaming, point = .handle streaming → s.pending = false → s₁.pending = true → s.incoming = true → Roomy o s)
    (hcredit : ∀ credit, point = .configure credit → credit ≠ 0 → s.paused = true → Roomy o s) :
    s₁.pending = true → s₁.incoming = true → Roomy o s₁ := by
  have hplace := h.place _ _ hh
  have halone := h.alone
  intro hp hi
  cases ha with
  | turned ht =>
    cases ht with
    | leaves => exact hroom hp hi
    | undecided => exact hroom hp hi
    | unfinished => exact hroom hp hi
    | asked hd => exact hroom (by simp [State.pending, hd]) hi
    | dispatched hd => exact hroom (by simp [State.pending, hd]) hi
    | drained hc | credit _ hc | parses _ hc =>
      cases hc with
      | clear => exact hroom hp hi
      | harvested => simp_all [State.pending, dropBody]
    | _ => simp_all [State.pending]
  | handles ht =>
    obtain ⟨hphase, hd, ha, -⟩ := hplace
    have hnone : s.pending = false := by simp [State.pending, hd, ha]
    cases ht with
    | policy => exact hguard _ rfl hnone hp hi
    | dispatched => exact hguard _ rfl hnone hp hi
    | _ => simp_all [State.pending]
  | parsed ht =>
    have hr := ht.reads hplace.1
    have hroom' : Roomy o s := by
      refine hroom (hr.pending.symm.trans hp) ?_
      rw [incoming, (Advanced.parsed ht).receive_eq, hr.paused] at hi
      exact hi
    rcases hr.phase with hphase | ⟨hphase, -⟩
    · exact (Nat.add_le_add_right (hr.shrinks hphase) _).trans hroom'
    · have hq := (Advanced.parsed ht).quiet h (fun hne => absurd hplace.1 hne) hh (by simp [hphase])
      rw [hq] at hp
      cases hp
  | @configured credit =>
    have hpend : s.pending = true := h.asks hh (by rintro ⟨⟩) hplace.2.2 hplace.1
    by_cases hz : credit = 0
    · refine hroom hpend ?_
      rw [incoming] at hi ⊢
      simp only [hz, decide_true, Bool.not_true, Bool.or_false] at hi
      rw [show s.receive.flying = true from hi, Bool.true_or]
    · cases hpaused : s.paused with
      | true => exact hcredit credit rfl hz hpaused
      | false => exact hroom hpend (by simp [incoming, hpaused])
  | _ => exact hroom hp hi

lemma State.Turned.input_eq (ht : Turned s s₁ next) : s₁.input = s.input := by
  cases ht with
  | drained hc | credit _ hc | parses _ hc => cases hc <;> rfl
  | _ => rfl

lemma State.Handles.input_eq {streaming : Bool} (ht : Handles s streaming s₁) : s₁.input = s.input := by
  cases ht <;> rfl

lemma State.Advanced.total {rest : Bytes} (hP : maximumReceiveChunkBytes ≤ o.maxPipelinedBytes) (h : Shape s)
    (hq : s.phase ≠ .http → s.pending = false) (hh : s.holder = .processing (.receive rest) point) (ha : Advanced o s point s₁ next)
    (htotal : s.input.length + rest.length ≤ o.maxPipelinedBytes ∨
      s.pending = false ∧ (point = .top ∨ point = .parse) ∧ Behind s rest) :
    (s₁.input.length + rest.length ≤ o.maxPipelinedBytes ∨ s₁.pending = false ∧ next = .returns) ∨
      s₁.pending = false ∧ next = .goes .parse ∧ Behind s₁ rest := by
  have hplace := h.place _ _ hh
  rcases htotal with htotal | ⟨hnone, hpoint, hbehind⟩
  · refine .inl ?_
    cases ha with
    | turned ht =>
      rw [ht.input_eq]
      exact .inl htotal
    | handles ht =>
      rw [ht.input_eq]
      exact .inl htotal
    | parsed ht =>
      have hr := ht.reads hplace.1
      rcases hr.phase with hphase | ⟨hphase, hn⟩
      · exact .inl ((Nat.add_le_add_right (hr.shrinks hphase) _).trans htotal)
      · exact .inr ⟨(Advanced.parsed ht).quiet h hq hh (by simp [hphase]), hn⟩
    | _ => exact .inl htotal
  · cases ha with
    | turned ht =>
      have hdecision : s.decision.isSome = false := by
        simp only [State.pending, Bool.or_eq_false_iff] at hnone
        exact hnone.2
      have hactive : s.active.isSome = false := by
        simp only [State.pending, Bool.or_eq_false_iff] at hnone
        exact hnone.1
      cases ht with
      | leaves => exact .inl (.inr ⟨hnone, rfl⟩)
      | drained hc =>
        cases hc with
        | clear => exact .inl (.inr ⟨hnone, rfl⟩)
        | harvested _ hf =>
          obtain ⟨close, hf⟩ := finished_iff.mp hf
          simp [hf] at hactive
      | credit hp hc hr =>
        have := h.asks hh (by rintro ⟨⟩) hr hp
        rw [hnone] at this
        cases this
      | parses _ hc =>
        cases hc with
        | clear => exact .inr ⟨hnone, rfl, hbehind⟩
        | harvested _ hf =>
          obtain ⟨close, hf⟩ := finished_iff.mp hf
          simp [hf] at hactive
      | ended => exact .inl (.inr ⟨by simpa [State.pending] using hdecision, rfl⟩)
      | unfinished _ ha => simp [ha] at hactive
      | undecided hd => simp [hd] at hdecision
      | _ hd => simp [hd] at hdecision
    | parsed ht =>
      have hr := ht.reads hplace.1
      by_cases hn : next = .returns
      · exact .inl (.inr ⟨hr.pending.trans hnone, hn⟩)
      · obtain ⟨x, y, hxy, hw, hle⟩ := hbehind
        have := hr.behind x y hxy hw hn
        exact .inl (.inl (by omega))
    | _ => rcases hpoint with hpoint | hpoint <;> cases hpoint

lemma State.Advanced.waits {caller : Caller} (h : Shape s) (hh : s.holder = .processing caller point)
    (ha : Advanced o s point s₁ .returns) (hnone : s₁.pending = false) (hphase : s₁.phase = .http) :
    Waiting s₁.parser s₁.input := by
  have hplace := h.place _ _ hh
  cases ha with
  | turned ht =>
    cases ht with
    | leaves hp => exact absurd hphase hp
    | undecided hd => simp [State.pending, hd] at hnone
    | unfinished _ ha => simp [State.pending, ha] at hnone
    | asked => simp [State.pending] at hnone
    | _ => cases hphase
  | parsed ht =>
    have hr := ht.reads hplace.1
    refine hr.waits (h.plain ?_ hplace.1) hphase rfl
    cases hb : s.receivingBody with
    | false => rfl
    | true =>
      have := h.asks hh (by rintro ⟨⟩) hb hplace.1
      rw [← hr.pending, hnone] at this
      cases this

end Pass

section Run

lemma handle_pending {choice : Choice} {streaming : Bool} {s₁ : State} {next : Next}
    (ha : s.advance o choice (.handle streaming) = some (s₁, next)) (hnone : s.pending = false) (hp : s₁.pending = true) :
    choice.handled = .policy ∨ ∃ sent, choice.handled = .dispatched sent := by
  obtain ⟨-, rfl, -⟩ := of_guard_pair ha
  have hsame {s₁ : State} (h : s₁.pending = s.pending) (hp : s₁.pending = true) : False := by
    rw [h, hnone] at hp
    cases hp
  cases hh : choice.handled with
  | policy => exact .inl rfl
  | dispatched sent => exact .inr ⟨sent, rfl⟩
  | closed =>
    rw [hh] at hp
    exact (hsame rfl hp).elim
  | responded answer =>
    rw [hh, handleRequest, respond] at hp
    refine (hsame ?_ hp).elim
    split_ifs <;> rfl
  | upgraded =>
    rw [hh, handleRequest, resumeReceive] at hp
    refine (hsame ?_ hp).elim
    split_ifs <;> rfl

lemma process_buffer {choice : Choice} (hP : maximumReceiveChunkBytes ≤ o.maxPipelinedBytes) (h : Shape s) (hb : Buffer o s)
    (hguard : leavesRoom o s (.process choice) = true) (hs : s.connectionClosed = false)
    (hstep : s.process o choice = some s') (hs' : s'.connectionClosed = false) : Buffer o s' := by
  obtain ⟨caller, point, s₁, next, hh, hadvance, hn, ha, rfl⟩ := process_advanced hstep hs hs'
  have hquiet := ha.quiet h hb.quiet hh
  have hheld := hb.held
  have hchunk (bytes : Bytes) (hr : s₁.receive = .inFlight bytes) := hb.chunk bytes (ha.receive_eq.symm.trans hr)
  refine ⟨hquiet, hchunk, ?_⟩
  rw [Held, hh] at hheld
  cases caller with
  | progress =>
    obtain ⟨hdelivering, hroom⟩ := hheld
    have hroom' := ha.roomy h hh hroom ?_ ?_
    · cases next with
      | goes p => exact ⟨ha.receive_eq.trans_ne hdelivering, hroom'⟩
      | returns =>
        have hwaits := ha.waits h hh
        exact ⟨ha.receive_eq.trans_ne hdelivering, hroom', hwaits⟩
      | throws => exact absurd rfl hn
    · rintro streaming rfl hnone hp hi
      rcases handle_pending hadvance hnone hp with hc | ⟨sent, hc⟩ <;> simpa [leavesRoom, hh, hc, hi] using hguard
    · rintro credit rfl hz hpaused
      simpa [leavesRoom, hh, hz, hpaused] using hguard
  | receive rest =>
    obtain ⟨hrest, htotal⟩ := hheld
    have htotal' := ha.total hP h hb.quiet hh htotal
    cases next with
    | goes p =>
      refine ⟨hrest, ?_⟩
      rcases htotal' with (htotal' | ⟨-, hret⟩) | ⟨hnone, hret, hbehind⟩
      · exact .inl htotal'
      · cases hret
      · cases hret
        exact .inr ⟨hnone, .inr rfl, hbehind⟩
    | returns =>
      have hwaits := ha.waits h hh
      refine ⟨hrest, fun hp => ?_, hwaits⟩
      rcases htotal' with (htotal' | ⟨hnone, -⟩) | ⟨hnone, -⟩
      · exact htotal'
      · rw [show s₁.pending = true from hp] at hnone
        cases hnone
      · rw [show s₁.pending = true from hp] at hnone
        cases hnone
    | throws => exact absurd rfl hn

lemma Buffer.frame (hb : Buffer o s) (hphase : s'.phase = s.phase) (hpending : s'.pending = s.pending)
    (hreceive : s'.receive = s.receive) (hpaused : s'.paused = s.paused) (hinput : s'.input = s.input)
    (hparser : s'.parser = s.parser) (hholder : s'.holder = s.holder) : Buffer o s' := by
  have hincoming : s'.incoming = s.incoming := by rw [incoming, incoming, hreceive, hpaused]
  refine ⟨?_, ?_, ?_⟩
  · rw [hphase, hpending]
    exact hb.quiet
  · rw [hreceive]
    exact hb.chunk
  · have hheld := hb.held
    rw [Held] at hheld ⊢
    simp only [Roomy, Behind] at hheld ⊢
    rw [hholder, hphase, hpending, hreceive, hpaused, hinput, hparser, hincoming]
    exact hheld

lemma receiveMore_buffer {answer : Answer} {rest : Bytes} (hb : Buffer o s) (hh : s.holder = .receiving rest)
    (hs' : (s.receiveMore o answer rest).connectionClosed = false) : Buffer o (s.receiveMore o answer rest) := by
  have hr := receiveMore_received hs'
  generalize s.receiveMore o answer rest = s' at hr ⊢
  have hheld := hb.held
  rw [Held, hh] at hheld
  obtain ⟨hrest, hpend, hnone⟩ := hheld
  cases hr with
  | left h =>
    refine ⟨hb.quiet, by rintro _ ⟨⟩, by rintro ⟨⟩, fun hp hi => ?_, hnone⟩
    have hpaused : s.paused = false := by simpa [incoming, Receive.flying, leaveReceive] using hi
    exact (hpend hp).2.resolve_left (by simp [hpaused])
  | refused hp hl hr ha =>
    have hnone' : s.pending = false := by
      cases hpending : s.pending with
      | false => rfl
      | true =>
        have htotal := (hpend hpending).1
        rw [State.limit, if_pos hpending] at hl
        have := List.length_pos_iff.mpr hr
        omega
    refine ⟨fun _ => hnone', by rintro _ ⟨⟩, by rintro ⟨⟩, ?_, fun _ => by rintro ⟨⟩⟩
    intro hp
    rw [show s.pending = true from hp] at hnone'
    cases hnone'
  | taken hp hl hr =>
    refine ⟨fun hne => absurd hp hne, hb.chunk, ?_⟩
    refine ⟨?_, ?_⟩
    · rw [List.length_drop]
      omega
    cases hpending : s.pending with
    | true =>
      have htotal := (hpend hpending).1
      refine .inl ?_
      simp only [List.length_append, List.length_take, List.length_drop]
      omega
    | false =>
      refine .inr ⟨hpending, .inl rfl, s.input, _, rfl, hnone hpending hp, ?_⟩
      simp only [List.length_take, List.length_drop]
      omega

lemma threadStep_input {t : ℕ} (h : s.threadStep t = some s') :
    s'.receive = s.receive ∧ s'.paused = s.paused ∧ s'.input = s.input := by
  rw [threadStep] at h
  repeat' split at h
  all_goals cases h
  all_goals exact ⟨rfl, rfl, rfl⟩

lemma releasePiece_input {t index : ℕ} (h : s.releasePiece t index = some s') :
    s'.receive = s.receive ∧ s'.paused = s.paused ∧ s'.input = s.input := by
  rw [releasePiece] at h
  repeat' split at h
  all_goals cases h
  exact ⟨rfl, rfl, rfl⟩

lemma step_buffer {event : Event} (hP : 2 * maximumReceiveChunkBytes ≤ o.maxPipelinedBytes)
    (hstep : roomyStep o s event = some s') (hs : s.connectionClosed = false) (h : Shape s) (hb : Buffer o s)
    (hs' : s'.connectionClosed = false) : Buffer o s' := by
  simp only [roomyStep, Option.ite_none_right_eq_some] at hstep
  obtain ⟨hguard, hstep⟩ := hstep
  have hheld := hb.held
  cases event with
  | process choice => exact process_buffer (by omega) h hb hguard hs hstep hs'
  | receiveMore answer =>
    simp only [step] at hstep
    split at hstep
    · rename_i rest hh
      obtain rfl := Option.some.inj hstep
      exact receiveMore_buffer hb hh hs'
    · cases hstep
  | checkPause =>
    simp only [step] at hstep
    split at hstep
    · rename_i rest hh
      obtain rfl := Option.some.inj hstep
      rw [Held, hh] at hheld
      obtain ⟨hrest, hpend, hnone⟩ := hheld
      rw [checkPause]
      split
      · rw [pauseReceive_open (show ({ s with holder := .receiving rest } : State).connectionClosed = false from hs)]
        exact ⟨hb.quiet, hb.chunk, hrest, fun hp => ⟨hpend hp, .inl rfl⟩, hnone⟩
      · rename_i hroom
        refine ⟨hb.quiet, hb.chunk, hrest, fun hp => ⟨hpend hp, .inr ?_⟩, hnone⟩
        have hp' : s.pending = true := hp
        rw [show ({ s with holder := .receiving rest } : State).pending = true from hp'] at hroom
        simp only [Bool.true_and, ge_iff_le, decide_eq_true_eq, not_le] at hroom
        rw [Roomy]
        dsimp only
        omega
    · cases hstep
  | deliver =>
    simp only [step] at hstep
    split at hstep
    · rename_i bytes hh hr
      obtain rfl := Option.some.inj hstep
      rw [Held, hh] at hheld
      obtain ⟨-, hroom, hnone⟩ := hheld
      have hchunk := hb.chunk bytes hr
      have hflying : s.incoming = true := by rw [incoming, hr, Receive.flying, Bool.true_or]
      refine ⟨hb.quiet, by rintro _ ⟨⟩, hchunk, fun hp => ?_, hnone⟩
      have hroom := hroom hp hflying
      refine ⟨?_, .inr hroom⟩
      rw [Roomy] at hroom
      dsimp only
      omega
    · cases hstep
  | lockProgress =>
    obtain ⟨⟨-, hh⟩, rfl⟩ := of_guard hstep
    rw [Held, hh] at hheld
    refine ⟨hb.quiet, hb.chunk, ?_⟩
    rw [lockProgress, Held]
    dsimp only
    split_ifs
    · exact ⟨hheld.1, hheld.2.1⟩
    · exact hheld
  | startReceive bytes =>
    obtain ⟨⟨hidle, hpaused, -, -, hchunk⟩, rfl⟩ := of_guard hstep
    have hincoming : s.incoming = true := by simp [incoming, hpaused]
    refine ⟨hb.quiet, ?_, ?_⟩
    · intro bytes' hr
      obtain rfl := Receive.inFlight.inj hr
      exact hchunk
    · rw [Held] at hheld ⊢
      dsimp only
      split at hheld <;> rename_i hh
      · rw [hh]
        exact ⟨by rintro ⟨⟩, fun hp _ => hheld.2.1 hp hincoming, hheld.2.2⟩
      · rw [hh]
        exact ⟨by rintro ⟨⟩, fun hp _ => hheld.2 hp hincoming⟩
      · rw [hh]
        exact hheld
      · rw [hh]
        exact hheld
      · rw [hh]
        exact hheld
  | closeIdleForDrain =>
    obtain ⟨⟨hh, -, hnone, -⟩, rfl⟩ := of_guard hstep
    refine ⟨fun _ => hnone, hb.chunk, ?_⟩
    rw [Held, hh] at hheld
    rw [Held]
    dsimp only
    rw [hh]
    exact ⟨hheld.1, hheld.2.1, fun _ => by rintro ⟨⟩⟩
  | closeConnection | disconnect =>
    obtain rfl := Option.some.inj hstep
    cases hs'
  | finishDisconnect t late =>
    obtain ⟨⟨-, -, hclosed⟩, -⟩ := of_guard hstep
    exact absurd hclosed h.here
  | threadStep t =>
    obtain ⟨hv, hh⟩ := threadStep_view hstep
    obtain ⟨hreceive, hpaused, hinput⟩ := threadStep_input hstep
    exact hb.frame hv.phase hv.pending hreceive hpaused hinput hv.parser hh
  | releasePiece t index =>
    simp only [step, Option.ite_none_right_eq_some] at hstep
    obtain ⟨hv, hh⟩ := releasePiece_view hstep.2
    obtain ⟨hreceive, hpaused, hinput⟩ := releasePiece_input hstep.2
    exact hb.frame hv.phase hv.pending hreceive hpaused hinput hv.parser hh
  | resolve t decision =>
    obtain ⟨⟨-, hd, -⟩, rfl⟩ := of_guard hstep
    exact hb.frame rfl (by simp [State.pending, setThread, hd]) rfl rfl rfl rfl rfl
  | finish t close =>
    obtain ⟨⟨-, ha⟩, rfl⟩ := of_guard hstep
    exact hb.frame rfl (by simp [State.pending, setThread, ha]) rfl rfl rfl rfl rfl
  | abort =>
    obtain ⟨ha, rfl⟩ := of_guard hstep
    exact hb.frame rfl (by simp [State.pending, ha]) rfl rfl rfl rfl rfl
  | stop | drain =>
    obtain rfl := Option.some.inj hstep
    exact hb.frame rfl rfl rfl rfl rfl rfl rfl
  | _ =>
    obtain ⟨-, rfl⟩ := of_guard hstep
    exact hb.frame rfl rfl rfl rfl rfl rfl rfl

section History

variable {next : Next}

lemma pauseReceive_overflowed (s : State) : s.pauseReceive.overflowed = s.overflowed := by
  rw [pauseReceive]
  split <;> rfl

lemma resumeReceive_overflowed (s : State) : s.resumeReceive.overflowed = s.overflowed := by
  rw [resumeReceive]
  split <;> rfl

lemma respond_overflowed (s : State) (answer : Answer) : (s.respond answer).overflowed = s.overflowed := by
  rw [respond]
  split_ifs <;> rfl

lemma respondAndResume_overflowed (s : State) (answer : Answer) :
    (s.respondAndResume answer).1.overflowed = s.overflowed := by
  rw [respondAndResume]
  split_ifs
  · exact respond_overflowed s answer
  · exact (resumeReceive_overflowed _).trans (respond_overflowed s answer)

lemma dispatchRequest_overflowed (s : State) (sent : Bool) : (s.dispatchRequest sent).overflowed = s.overflowed := by
  simp only [dispatchRequest]
  split_ifs <;> rfl

lemma handleRequest_overflowed (s : State) (handled : Handled) : (s.handleRequest handled).overflowed = s.overflowed := by
  cases handled with
  | responded answer => exact respond_overflowed s answer
  | dispatched sent => exact dispatchRequest_overflowed s sent
  | upgraded => exact resumeReceive_overflowed _
  | _ => rfl

lemma beforeParse_overflowed (s : State) : s.beforeParse.1.overflowed = s.overflowed := by
  rw [beforeParse]
  split <;> rfl

lemma setCredit_overflowed (s : State) (credit : ℕ) : (s.setCredit o credit).overflowed = s.overflowed := by
  rw [setCredit]
  split_ifs
  · exact pauseReceive_overflowed s
  · exact resumeReceive_overflowed _

lemma push_overflowed (s : State) (bytes : Bytes) : (s.push bytes).1.overflowed = s.overflowed := by
  rw [push]
  repeat' split
  all_goals rfl

lemma resolvePolicy_overflowed {choice : Choice} {decision : Decision} {goes : Bool}
    (h : s.resolvePolicy choice decision = some (s', goes)) : s'.overflowed = s.overflowed := by
  cases decision with
  | pending | aborted =>
    simp only [resolvePolicy, Option.some.injEq, Prod.mk.injEq] at h
    obtain ⟨rfl, -⟩ := h
    rfl
  | rejected =>
    simp only [resolvePolicy, Option.ite_none_left_eq_some, Option.some.injEq] at h
    have heq := congrArg (fun r => r.1.overflowed) h.2
    exact heq.symm.trans (respondAndResume_overflowed _ _)
  | allowed =>
    simp only [resolvePolicy] at h
    split at h
    · simp only [Option.some.injEq, Prod.mk.injEq] at h
      rw [← h.1]
      rfl
    rw [Option.ite_none_left_eq_some] at h
    obtain ⟨-, h⟩ := h
    split at h <;> have heq := congrArg (fun r => r.1.overflowed) (Option.some.inj h)
    · exact heq.symm.trans (respondAndResume_overflowed _ _)
    · exact heq.symm.trans (handleRequest_overflowed _ _)
    · exact heq.symm.trans (handleRequest_overflowed _ _)

lemma turn_overflowed {choice : Choice} (h : s.turn choice = some (s', next)) : s'.overflowed = s.overflowed := by
  have hback {s₁ : State} (heq : s₁.beforeParse = (s', next)) : s'.overflowed = s₁.overflowed := by
    rw [← beforeParse_overflowed s₁, heq]
  have hsame {s₁ : State} {next₁ : Next} (heq : some (s₁, next₁) = some (s', next)) : s'.overflowed = s₁.overflowed := by
    simp only [Option.some.injEq, Prod.mk.injEq] at heq
    rw [heq.1]
  rw [turn] at h
  split at h
  · exact hsame h
  split at h
  · simp only [Option.map_eq_some_iff, Prod.exists, Prod.mk.injEq] at h
    obtain ⟨s₁, goes, hr, rfl, -⟩ := h
    exact resolvePolicy_overflowed hr
  split at h
  · exact hback (Option.some.inj h)
  · have heq := hsame h
    exact heq
  · split at h
    · exact hback (Option.some.inj h)
    · exact hsame h
  · split at h
    · exact hback (Option.some.inj h)
    split at h
    · have heq := hsame h
      exact heq
    · exact (hback (Option.some.inj h)).trans (resumeReceive_overflowed _)

lemma afterParse_overflowed {choice : Choice} (output : HttpRequest) (kind : HttpParseKind) :
    (s.afterParse o choice output kind).1.overflowed = s.overflowed := by
  cases kind with
  | needMore =>
    simp only [afterParse]
    split_ifs <;> rfl
  | error =>
    simp only [afterParse]
    split_ifs
    · simp only [cancelActive]
      split_ifs <;> rfl
    · exact respond_overflowed _ _
  | continue100 =>
    simp only [afterParse]
    split_ifs <;> rfl
  | body => exact push_overflowed _ _
  | complete =>
    simp only [afterParse, takeComplete]
    split_ifs <;> rfl
  | headers =>
    simp only [afterParse, takeHeaders]
    split_ifs <;> first | rfl | exact respond_overflowed _ _

lemma process_overflowed {choice : Choice} (h : s.process o choice = some s') : s'.overflowed = s.overflowed := by
  rw [process] at h
  split at h
  · rename_i caller point _
    simp only [Option.map_eq_some_iff, Prod.exists] at h
    obtain ⟨s₁, next, ha, rfl⟩ := h
    have hproceed : (s₁.proceed caller next).overflowed = s₁.overflowed := by
      cases next <;> cases caller <;> rfl
    rw [hproceed]
    have hsame {s₂ : State} {next₂ : Next} (heq : some (s₂, next₂) = some (s₁, next)) : s₁.overflowed = s₂.overflowed := by
      simp only [Option.some.injEq, Prod.mk.injEq] at heq
      rw [heq.1]
    cases point with
    | top => exact turn_overflowed ha
    | credit =>
      have heq := hsame ha
      exact heq
    | retained | pieces =>
      simp only [State.advance, Option.map_eq_some_iff, Prod.mk.injEq] at ha
      obtain ⟨b, -, rfl, -⟩ := ha
      rfl
    | measured credit =>
      rw [hsame ha]
      split_ifs <;> rfl
    | configure credit => exact (hsame ha).trans (setCredit_overflowed _ _)
    | parse =>
      simp only [State.advance, Option.map_eq_some_iff, Prod.exists] at ha
      obtain ⟨result, c, -, ha⟩ := ha
      have heq := congrArg (fun r => r.1.overflowed) ha
      exact heq.symm.trans (afterParse_overflowed _ _)
    | handle streaming =>
      obtain ⟨-, rfl, -⟩ := of_guard_pair ha
      exact handleRequest_overflowed _ _
  · cases h

lemma step_overflowed {event : Event} (hstep : step o s event = some s') (hs : s.overflowed = false)
    (ho : s'.overflowed = true) : ∃ rest, s.holder = .receiving rest ∧ rest ≠ [] ∧ s.pending = true ∧
      s.connectionClosed = false ∧ o.maxPipelinedBytes ≤ s.input.length := by
  have hsame (h : s'.overflowed = s.overflowed) : False := by
    rw [h, hs] at ho
    cases ho
  cases event with
  | process choice => exact (hsame (process_overflowed hstep)).elim
  | receiveMore answer =>
    simp only [step] at hstep
    split at hstep
    · rename_i rest hh
      obtain rfl := Option.some.inj hstep
      rw [receiveMore] at ho
      split at ho
      · rw [leaveReceive, hs] at ho
        cases ho
      rename_i hmore
      simp only [Bool.or_eq_true, List.isEmpty_iff, not_or] at hmore
      split at ho
      · rename_i hfull
        have hflag : (s.pending && !s.connectionClosed) = true := by
          have hend {s₁ : State} (h : s₁.overflowed = (s.overflowed || s.pending && !s.connectionClosed))
              (ho : s₁.overflowed = true) : (s.pending && !s.connectionClosed) = true := by
            rwa [h, hs, Bool.false_or] at ho
          refine hend ?_ ho
          rw [leaveReceive]
          split_ifs
          · rfl
          · exact respond_overflowed _ _
        simp only [Bool.and_eq_true, Bool.not_eq_eq_eq_not, Bool.not_true] at hflag
        rw [State.limit, if_pos hflag.1] at hfull
        exact ⟨rest, hh, hmore.1, hflag.1, hflag.2, hfull⟩
      · rw [hs] at ho
        cases ho
    · cases hstep
  | checkPause =>
    simp only [step] at hstep
    split at hstep
    · obtain rfl := Option.some.inj hstep
      refine (hsame ?_).elim
      rw [checkPause]
      split_ifs
      · exact pauseReceive_overflowed _
      · rfl
    · cases hstep
  | deliver =>
    simp only [step] at hstep
    split at hstep
    · obtain rfl := Option.some.inj hstep
      exact (hsame rfl).elim
    · cases hstep
  | threadStep t =>
    refine (hsame ?_).elim
    simp only [step, threadStep] at hstep
    repeat' split at hstep
    all_goals cases hstep
    all_goals rfl
  | releasePiece t index =>
    refine (hsame ?_).elim
    simp only [step, Option.ite_none_right_eq_some, releasePiece] at hstep
    obtain ⟨-, hstep⟩ := hstep
    repeat' split at hstep
    all_goals cases hstep
    rfl
  | closeConnection | disconnect | stop | drain =>
    obtain rfl := Option.some.inj hstep
    exact (hsame rfl).elim
  | _ =>
    obtain ⟨-, rfl⟩ := of_guard hstep
    exact (hsame rfl).elim

end History

/-- Nothing overflowed, and while the connection is open the buffer is within its bound. -/
structure Bounded (o : HttpServerOptions) (s : State) : Prop where
  safe : s.overflowed = false
  shape : s.connectionClosed = false → Shape s
  buffer : s.connectionClosed = false → Buffer o s

lemma step_bounded {event : Event} (hP : 2 * maximumReceiveChunkBytes ≤ o.maxPipelinedBytes)
    (hstep : roomyStep o s event = some s') (h : Bounded o s) : Bounded o s' := by
  have hstep' := (Option.ite_none_right_eq_some.mp hstep).2
  refine ⟨?_, fun hs' => ?_, fun hs' => ?_⟩
  · by_contra hover
    obtain ⟨rest, hh, hrest, hp, hs, hfull⟩ := step_overflowed hstep' h.safe (by simpa using hover)
    have hheld := (h.buffer hs).held
    rw [Held, hh] at hheld
    have := (hheld.2.1 hp).1
    have := List.length_pos_iff.mpr hrest
    omega
  · have hs := step_open hstep' hs'
    exact step_shape hstep' hs (h.shape hs) hs'
  · have hs := step_open hstep' hs'
    exact step_buffer hP hstep hs (h.shape hs) (h.buffer hs) hs'

lemma buffer_initial (h : Initial o s) : Buffer o s := by
  subst h
  exact ⟨fun _ => rfl, nofun, nofun, nofun, fun _ _ => .headers rfl (.inl le_rfl)⟩

lemma bounded_of_reachable (ho : validOptions o = true) (h : Reachable (roomyStep o) (Initial o) s) : Bounded o s := by
  refine h.invariant (fun s hs => ⟨?_, fun _ => shape_initial hs, fun _ => buffer_initial hs⟩)
    fun t e t' ht hstep => step_bounded (pipelined_of_valid ho) hstep ht
  subst hs
  rfl

end Run

def narrow : HttpServerOptions := { maxPipelinedBytes := 32 * 1024 }

def getRequest : Bytes := ascii "GET / HTTP/1.1\r\nHost:a\r\n\r\n"

/-- Where every receive that a pass of `RunProgress` lets in has room, the receive loop never gives up a connection with
a request pending, and no receive can outgrow the buffer of one that waits. -/
theorem pausing_never_disconnects (ho : validOptions o = true) (h : Reachable (roomyStep o) (Initial o) s) :
    s.overflowed = false ∧ (s.connectionClosed = false → s.holder = .free → s.pending = true →
      (s.receive ≠ .idle ∨ s.paused = false) → s.input.length + maximumReceiveChunkBytes ≤ o.maxPipelinedBytes) := by
  have hb := bounded_of_reachable ho h
  refine ⟨hb.safe, fun hs hh hp hi => ?_⟩
  have hheld := (hb.buffer hs).held
  rw [Held, hh] at hheld
  refine hheld.2.1 hp ?_
  rcases hi with hi | hi
  · have hflying : s.receive.flying = true := by
      cases hr : s.receive with
      | idle => exact absurd hr hi
      | inFlight => rfl
      | delivering => exact absurd hr hheld.1
    rw [incoming, hflying, Bool.true_or]
  · rw [incoming, hi, Bool.not_false, Bool.or_true]

/-- Two requests in one receive; `RunProgress` begins the second one with the receive running. -/
def twoRequests : List Event :=
  [.startReceive (getRequest ++ getRequest), .deliver, .receiveMore ⟨true, true, true⟩] ++ List.replicate 6 (.process {}) ++
    [.checkPause, .receiveMore ⟨true, true, true⟩, .finish 0 false, .threadStep 0, .threadStep 0, .takeBatch, .clearRequest,
      .lockProgress] ++ List.replicate 6 (.process {})

theorem second_request_keeps_its_room : ∃ s, run (roomyStep narrow) { parser := freshParser narrow } twoRequests = some s ∧
    s.overflowed = false ∧ s.input.length + maximumReceiveChunkBytes ≤ narrow.maxPipelinedBytes ∧ s.pending = true := by
  have hrun : (run (roomyStep narrow) { parser := freshParser narrow } twoRequests).map
      (fun s => (s.pending, s.paused, s.connectionClosed, s.holder)) = some (true, false, false, .free) := by
    rw [twoRequests, getRequest, @ascii_eq "GET / HTTP/1.1\r\nHost:a\r\n\r\n" _ rfl]
    decide +kernel
  obtain ⟨s, hs, hfields⟩ := Option.map_eq_some_iff.mp hrun
  obtain ⟨hp, hpaused, hopen, hfree⟩ : s.pending = true ∧ s.paused = false ∧ s.connectionClosed = false ∧ s.holder = .free := by
    simpa using hfields
  obtain ⟨hsafe, hroom⟩ := pausing_never_disconnects (by decide) ⟨_, rfl, _, hs⟩
  exact ⟨s, hs, hsafe, hroom hopen hfree hp (.inr hpaused), hp⟩

section Overflow

lemma Steps.next {s'' : State} (event : Event) (h : step o s event = some s') (h' : Steps (step o) s' s'') :
    Steps (step o) s s'' := (Steps.single h).trans h'

structure Unanswered (s : State) : Prop where
  phase : s.phase = .http
  active : s.active = some .running
  receivingBody : s.receivingBody = false
  decision : s.decision = none
  holder : s.holder = .free
  receive : s.receive = .idle
  paused : s.paused = false
  connectionClosed : s.connectionClosed = false

lemma begin_receive {bytes : Bytes} (h : Unanswered s) (hb : bytes ≠ []) (hchunk : bytes.length ≤ maximumReceiveChunkBytes) :
    Steps (step o) s { s with holder := .receiving bytes, receive := .delivering } := by
  refine Steps.next (.startReceive bytes) (if_pos ⟨h.receive, h.paused, h.connectionClosed, hb, hchunk⟩) ?_
  refine Steps.next .deliver ?_ (.refl _)
  simp only [step, h.holder]

lemma receiveMore_takes {rest : Bytes} {bound : ℕ} (answer : Answer) (hphase : s.phase = .http) (hb : rest ≠ [])
    (hbound : s.limit o = bound) (hroom : s.input.length < bound) : s.receiveMore o answer rest = { s with
      input := s.input ++ rest.take (bound - s.input.length)
      holder := .processing (.receive (rest.drop (bound - s.input.length))) .top } := by
  subst hbound
  have htake : rest.take (min rest.length (s.limit o - s.input.length)) = rest.take (s.limit o - s.input.length) := by
    rw [List.take_eq_take_iff]
    omega
  have hdrop : rest.drop (min rest.length (s.limit o - s.input.length)) = rest.drop (s.limit o - s.input.length) := by
    rcases Nat.le_total rest.length (s.limit o - s.input.length) with hle | hle
    · rw [Nat.min_eq_left hle, List.drop_of_length_le le_rfl, List.drop_of_length_le hle]
    · rw [Nat.min_eq_right hle]
  have hempty : rest.isEmpty = false := by simpa using hb
  rw [receiveMore, if_neg (by simp [hempty, hphase]), if_neg (by omega)]
  simp only [htake, hdrop]

lemma checkPause_open {rest : Bytes} (hopen : s.connectionClosed = false) (hpaused : s.paused = false) (hp : s.pending = true) :
    s.checkPause o rest = { s with
      holder := .receiving rest
      paused := decide (o.maxPipelinedBytes - maximumReceiveChunkBytes ≤ s.input.length) } := by
  rw [checkPause, pauseReceive_open (show ({ s with holder := .receiving rest } : State).connectionClosed = false from hopen)]
  rw [show ({ s with holder := .receiving rest } : State).pending = true from hp]
  simp only [Bool.true_and, ge_iff_le, decide_eq_true_eq]
  split_ifs with hfull
  · rw [decide_eq_true hfull]
  · rw [decide_eq_false hfull, ← hpaused]

lemma append_receive {rest : Bytes} (h : Unanswered s) (hb : rest ≠ []) (hroom : s.input.length < o.maxPipelinedBytes) :
    Steps (step o) { s with holder := .receiving rest, receive := .delivering }
      { s with
        input := s.input ++ rest.take (o.maxPipelinedBytes - s.input.length)
        holder := .receiving (rest.drop (o.maxPipelinedBytes - s.input.length))
        receive := .delivering
        paused := decide (o.maxPipelinedBytes - maximumReceiveChunkBytes ≤
          (s.input ++ rest.take (o.maxPipelinedBytes - s.input.length)).length) } := by
  obtain ⟨hphase, hactive, hr, hd, hh, hreceive, hpaused, hopen⟩ := h
  obtain ⟨phase, input, parser, active, decision, receivingBody, body, bodies, strays, awaitingCredit, progressQueued,
    receive, paused, connectionClosed, stopping, draining, holder, queue, batch, starting, threads, overflowed⟩ := s
  dsimp only at hphase hactive hr hd hh hreceive hpaused hopen hroom ⊢
  subst hphase hactive hr hd hh hreceive hpaused hopen
  refine Steps.next (.receiveMore ⟨true, true, true⟩) (congrArg some (receiveMore_takes _ rfl hb rfl hroom)) ?_
  refine Steps.next (.process {}) rfl ?_
  exact Steps.next .checkPause (congrArg some (checkPause_open rfl rfl rfl)) (.refl _)

lemma receive_fits {bytes : Bytes} (h : Unanswered s) (hb : bytes ≠ []) (hchunk : bytes.length ≤ maximumReceiveChunkBytes)
    (hfit : s.input.length + bytes.length ≤ o.maxPipelinedBytes) :
    ∃ paused, Steps (step o) s { s with input := s.input ++ bytes, paused } := by
  refine ⟨decide (o.maxPipelinedBytes - maximumReceiveChunkBytes ≤ (s.input ++ bytes).length), ?_⟩
  have hpos := List.length_pos_iff.mpr hb
  refine (begin_receive h hb hchunk).trans ((append_receive h hb (by omega)).trans ?_)
  have htake : bytes.take (o.maxPipelinedBytes - s.input.length) = bytes := List.take_of_length_le (by omega)
  have hdrop : bytes.drop (o.maxPipelinedBytes - s.input.length) = [] := List.drop_of_length_le (by omega)
  rw [htake, hdrop]
  generalize decide (o.maxPipelinedBytes - maximumReceiveChunkBytes ≤ (s.input ++ bytes).length) = paused'
  refine (Steps.single (show step o _ (.receiveMore ⟨true, true, true⟩) = some _ from rfl)).trans ?_
  have hholder := h.holder
  have hreceive := h.receive
  obtain ⟨phase, input, parser, active, decision, receivingBody, body, bodies, strays, awaitingCredit, progressQueued,
    receive, paused, connectionClosed, stopping, draining, holder, queue, batch, starting, threads, overflowed⟩ := s
  dsimp only at hholder hreceive
  subst hholder hreceive
  exact .refl _

lemma receive_overflows {bytes : Bytes} (h : Unanswered s) (hchunk : bytes.length ≤ maximumReceiveChunkBytes)
    (hroom : s.input.length < o.maxPipelinedBytes) (hfit : o.maxPipelinedBytes < s.input.length + bytes.length) :
    ∃ s', Steps (step o) s s' ∧ s'.overflowed = true := by
  have hb : bytes ≠ [] := by
    rintro rfl
    rw [List.length_nil] at hfit
    omega
  have hrest : (bytes.drop (o.maxPipelinedBytes - s.input.length)).isEmpty = false := by
    rw [List.isEmpty_eq_false_iff, ← List.length_pos_iff, List.length_drop]
    omega
  have hfull : o.maxPipelinedBytes ≤ (s.input ++ bytes.take (o.maxPipelinedBytes - s.input.length)).length := by
    rw [List.length_append, List.length_take]
    omega
  refine ⟨_, (begin_receive h hb hchunk).trans ((append_receive h hb hroom).trans
    (Steps.next (.receiveMore ⟨true, true, true⟩) rfl (.refl _))), ?_⟩
  obtain ⟨hphase, hactive, hr, hd, hh, hreceive, hpaused, hopen⟩ := h
  rw [receiveMore, if_neg (by simp [hrest, hphase]), if_pos (by simpa [State.limit, State.pending, hactive] using hfull)]
  simp [leaveReceive, hactive, State.close, State.pending, hopen]

end Overflow

lemma next_request (s : State) (b : Byte) (y : Bytes) : ∃ s', Steps (step narrow)
    { s with
      phase := .http, active := some .running, decision := none, receivingBody := false, holder := .free, receive := .idle
      connectionClosed := false, stopping := false, draining := false, starting := false, batch := 0, queue := 0
      progressQueued := false, threads := fun _ => .idle, parser := freshParser narrow, input := getRequest ++ b :: y } s' ∧
    Unanswered s' ∧ s'.input = b :: y :=
  ⟨_, ⟨[.finish 0 false, .threadStep 0, .threadStep 0, .takeBatch, .clearRequest, .lockProgress] ++
    List.replicate 6 (.process {}), rfl⟩, ⟨rfl, rfl, rfl, rfl, rfl, rfl, rfl, rfl⟩, rfl⟩

lemma first_request (b : Byte) (y : Bytes) (h : (getRequest ++ b :: y).length ≤ maximumReceiveChunkBytes) :
    Steps (step narrow) { parser := freshParser narrow }
      { parser := freshParser narrow, active := some .running, input := b :: y } := by
  have hlimit : ({ parser := freshParser narrow } : State).limit narrow = maximumReceiveChunkBytes := rfl
  refine Steps.next (.startReceive (getRequest ++ b :: y)) (if_pos ⟨rfl, rfl, rfl, by simp, h⟩) ?_
  refine Steps.next .deliver rfl ?_
  refine Steps.next (.receiveMore ⟨true, true, true⟩)
    (congrArg some (receiveMore_takes _ rfl (by simp) hlimit (show 0 < maximumReceiveChunkBytes by decide))) ?_
  simp only [List.length_nil, Nat.sub_zero, List.nil_append, List.take_of_length_le h, List.drop_of_length_le h]
  have hpass : Steps (step narrow)
      { parser := freshParser narrow, input := getRequest ++ b :: y, receive := .delivering,
        holder := .processing (.receive []) .top }
      { parser := freshParser narrow, active := some .running, input := b :: y, receive := .delivering,
        holder := .processed [] } := ⟨List.replicate 6 (.process {}), rfl⟩
  refine hpass.trans (Steps.next .checkPause (congrArg some (checkPause_open rfl rfl rfl)) ?_)
  have hfull : ¬ narrow.maxPipelinedBytes - maximumReceiveChunkBytes ≤ (b :: y).length := by
    simp only [List.length_append] at h
    have : getRequest.length = 26 := by decide
    have : narrow.maxPipelinedBytes = 2 * maximumReceiveChunkBytes := rfl
    omega
  rw [decide_eq_false hfull]
  exact Steps.next (.receiveMore ⟨true, true, true⟩) rfl (.refl _)

lemma overflow_run {x y z : Bytes} (hx : x.length = 16331) (hy : y.length = 16384) (hz : z.length = 16384) :
    ∃ s, Steps (step narrow) { parser := freshParser narrow } s ∧ s.overflowed = true := by
  have hget : getRequest.length = 26 := by decide
  have hchunk : maximumReceiveChunkBytes = 16384 := rfl
  have hpipelined : narrow.maxPipelinedBytes = 32768 := rfl
  have hsecond : getRequest ++ 0 :: x = 71 :: (getRequest.tail ++ 0 :: x) := rfl
  have hthird : (getRequest ++ 0 :: x) ++ y = getRequest ++ 0 :: (x ++ y) := by
    rw [List.append_assoc, List.cons_append]
  have h₁ := first_request 71 (getRequest.tail ++ 0 :: x) (by
    rw [← hsecond]
    simp only [List.length_append, List.length_cons]
    omega)
  rw [← hsecond] at h₁
  obtain ⟨paused, h₂⟩ := @receive_fits narrow _ y
    (show Unanswered { parser := freshParser narrow, active := some .running, input := getRequest ++ 0 :: x } from
      ⟨rfl, rfl, rfl, rfl, rfl, rfl, rfl, rfl⟩) (List.ne_nil_of_length_pos (by omega)) (by omega) (by
    simp only [List.length_append, List.length_cons]
    omega)
  dsimp only at h₂
  rw [hthird] at h₂
  obtain ⟨s₃, h₃, hunanswered, hinput⟩ := next_request { parser := freshParser narrow, paused } 0 (x ++ y)
  have hlength : s₃.input.length = 32716 := by
    simp only [hinput, List.length_append, List.length_cons]
    omega
  obtain ⟨s₄, h₄, hover⟩ := @receive_overflows narrow _ z hunanswered (by omega) (by omega) (by omega)
  exact ⟨s₄, h₁.trans (h₂.trans (h₃.trans h₄)), hover⟩

/-- A request that begins on a receive which was taken up again behind a full buffer loses its connection. -/
theorem resumed_receive_overflows : ¬ ∀ o s, validOptions o = true → Reachable (step o) (Initial o) s →
    s.overflowed = false ∧ (s.connectionClosed = false → s.holder = .free → s.pending = true →
      (s.receive ≠ .idle ∨ s.paused = false) → s.input.length + maximumReceiveChunkBytes ≤ o.maxPipelinedBytes) := by
  intro hclaim
  obtain ⟨s, hsteps, hover⟩ := overflow_run (x := List.replicate 16331 0) (y := List.replicate 16384 0)
    (z := List.replicate 16384 0) List.length_replicate List.length_replicate List.length_replicate
  have hsafe := (hclaim narrow s (by decide) ⟨_, rfl, hsteps⟩).1
  rw [hover] at hsafe
  cases hsafe

end ServerCore.Web.HttpPeer
