import ServerCore.Web.HttpPeerSteps

/-! How the request, its response and the reader of its body fit together while a connection is open. -/

namespace ServerCore.Web.HttpPeer

open ServerCore.Core ServerCore.Foundations HttpParser State

variable {o : HttpServerOptions} {s s' : State}

def Place (s : State) : Point → Prop
  | .top => True
  | .parse => s.phase = .http ∧ s.decision.isSome = false ∧ (s.active.isSome = true → s.receivingBody = true)
  | .handle streaming =>
    s.phase = .http ∧ s.decision.isSome = false ∧ s.active.isSome = false ∧ s.receivingBody = streaming
  | _ => s.phase = .http ∧ s.decision.isSome = false ∧ s.receivingBody = true

structure Shape (s : State) : Prop where
  here : s.phase ≠ .closed
  alone : s.decision.isSome = true → s.active.isSome = false
  upload : s.receivingBody = true → s.body.isSome = true ∧ s.parser.stage ≠ .headers
  asked : s.receivingBody = true → s.phase = .http → s.pending = true ∨ ∃ caller, s.holder = .processing caller (.handle true)
  plain : s.receivingBody = false → s.phase = .http → s.parser.streaming = false
  place : ∀ caller point, s.holder = .processing caller point → Place s point

structure SameView (s s' : State) : Prop where
  phase : s'.phase = s.phase
  parser : s'.parser = s.parser
  active : s'.active.isSome = s.active.isSome
  decision : s'.decision.isSome = s.decision.isSome
  receivingBody : s'.receivingBody = s.receivingBody
  body : s'.body.isSome = s.body.isSome

section View

lemma SameView.refl (s : State) : SameView s s := ⟨rfl, rfl, rfl, rfl, rfl, rfl⟩

lemma SameView.pending (h : SameView s s') : s'.pending = s.pending := by
  simp only [State.pending, h.active, h.decision]

lemma SameView.place (h : SameView s s') {point : Point} (hp : Place s point) : Place s' point := by
  cases point <;> simp only [Place, h.phase, h.decision, h.active, h.receivingBody] <;> exact hp

lemma Shape.view (h : Shape s) (hv : SameView s s') (hh : s'.holder = s.holder) : Shape s' := by
  refine ⟨?_, ?_, ?_, ?_, ?_, fun caller point hholder => hv.place (h.place caller point (hh.symm.trans hholder))⟩
  · rw [hv.phase]
    exact h.here
  · rw [hv.decision, hv.active]
    exact h.alone
  · rw [hv.receivingBody, hv.body, hv.parser]
    exact h.upload
  · rw [hv.receivingBody, hv.phase, hv.pending, hh]
    exact h.asked
  · rw [hv.receivingBody, hv.phase, hv.parser]
    exact h.plain

lemma Shape.lock (h : Shape s) (hv : SameView s s') (hh : ∀ caller, s.holder ≠ .processing caller (.handle true))
    (hh' : ∀ caller point, s'.holder = .processing caller point → point = .top) : Shape s' := by
  refine ⟨?_, ?_, ?_, ?_, ?_, ?_⟩
  · rw [hv.phase]
    exact h.here
  · rw [hv.decision, hv.active]
    exact h.alone
  · rw [hv.receivingBody, hv.body, hv.parser]
    exact h.upload
  · rw [hv.receivingBody, hv.phase, hv.pending]
    intro hr hp
    exact .inl ((h.asked hr hp).resolve_right fun ⟨caller, hc⟩ => hh caller hc)
  · rw [hv.receivingBody, hv.phase, hv.parser]
    exact h.plain
  · intro caller point hholder
    obtain rfl := hh' caller point hholder
    exact trivial

end View

section Pass

variable {s₁ : State} {next : Next} {caller : Caller} {point : Point}

lemma Shape.of (here : s₁.phase ≠ .closed) (alone : s₁.decision.isSome = true → s₁.active.isSome = false)
    (upload : s₁.receivingBody = true → s₁.body.isSome = true ∧ s₁.parser.stage ≠ .headers)
    (asked : s₁.receivingBody = true → s₁.phase = .http → s₁.pending = true ∨ next = .goes (.handle true))
    (plain : s₁.receivingBody = false → s₁.phase = .http → s₁.parser.streaming = false)
    (place : ∀ point, next = .goes point → Place s₁ point) : Shape { s₁ with holder := behind caller next } := by
  refine ⟨here, alone, upload, fun hr hp => (asked hr hp).imp id ?_, plain, ?_⟩
  · rintro rfl
    exact ⟨caller, rfl⟩
  · intro caller' point hholder
    cases next with
    | goes p =>
      obtain ⟨-, rfl⟩ := Holder.processing.inj hholder
      exact place p rfl
    | _ => cases caller <;> cases hholder

lemma Shape.asks (h : Shape s) (hh : s.holder = .processing caller point) (hp : point ≠ .handle true)
    (hr : s.receivingBody = true) (hphase : s.phase = .http) : s.pending = true := by
  refine (h.asked hr hphase).resolve_right ?_
  rintro ⟨caller', hc⟩
  exact hp (Holder.processing.inj (hh.symm.trans hc)).2

lemma State.Turned.shape (h : Shape s) (hh : s.holder = .processing caller .top) (ht : Turned s s₁ next) :
    Shape { s₁ with holder := behind caller next } := by
  have hasks := h.asks hh nofun
  have ⟨hhere, halone, hupload, _, hplain, _⟩ := h
  cases ht with
  | drained hc _ => cases hc <;> apply Shape.of <;> simp_all [Place, State.pending, dropBody]
  | credit _ hc _ _ => cases hc <;> apply Shape.of <;> simp_all [Place, State.pending, dropBody]
  | parses _ hc _ => cases hc <;> apply Shape.of <;> simp_all [Place, State.pending, dropBody]
  | kept _ _ _ hp => rcases hp with rfl | rfl <;> apply Shape.of <;> simp_all [Place, State.pending]
  | _ => apply Shape.of <;> simp_all [Place, State.pending]

lemma State.Handles.shape {streaming : Bool} (h : Shape s) (hh : s.holder = .processing caller (.handle streaming))
    (ht : Handles s streaming s₁) : Shape { s₁ with holder := behind caller (.goes .top) } := by
  have hplace := h.place _ _ hh
  obtain ⟨hphase, hd, ha, hr⟩ := hplace
  have ⟨hhere, halone, hupload, hasks, hplain, _⟩ := h
  cases ht with
  | responded hp => rcases hp with rfl | ⟨rfl, rfl⟩ <;> apply Shape.of <;> simp_all [Place, State.pending]
  | _ => apply Shape.of <;> simp_all [Place, State.pending]

lemma push_same (s : State) (bytes : Bytes) : SameView s (s.push bytes).1 := by
  rw [push]
  split
  · exact .refl s
  · rename_i b hb
    split_ifs
    · exact .refl s
    · exact .refl s
    · exact ⟨rfl, rfl, rfl, rfl, rfl, by simp [hb]⟩

lemma State.Parsed.shape (h : Shape s) (hh : s.holder = .processing caller .parse) (ht : Parsed o s s₁ next) :
    Shape { s₁ with holder := behind caller next } := by
  have hasks := h.asks hh nofun
  have hplace := h.place _ _ hh
  obtain ⟨hphase, hd, ha⟩ := hplace
  have ⟨hhere, halone, hupload, _, hplain, _⟩ := h
  cases ht with
  | waits hp hk | continued hp hk =>
    have hbegun (hr : s.receivingBody = true) := mt (hp.begun (by simp [hk]) (by simp [hk])) (hupload hr).2
    have hstream := hp.streaming (by simp [hk])
    apply Shape.of <;> simp_all [Place, State.pending, consumed]
  | failed hp hb => apply Shape.of <;> simp_all [Place, State.pending, consumed]
  | refused hp hk | headers hp hk | begun hp hk =>
    obtain ⟨hstage, hbegun⟩ := hp.headers hk
    apply Shape.of <;> simp_all [Place, State.pending, consumed, configured, configureBody, beginBody, dropBody]
  | @pushed result c bytes hp hk hn =>
    have hbegun (hr : s.receivingBody = true) := mt (hp.begun (by simp [hk]) (by simp [hk])) (hupload hr).2
    have hstream := hp.streaming (by simp [hk])
    have hv := push_same (s.consumed c) bytes
    have hbase : Shape { s.consumed c with holder := behind caller (.goes .top) } := by
      apply Shape.of <;> simp_all [Place, State.pending, consumed]
    exact hbase.view ⟨hv.phase, hv.parser, hv.active, hv.decision, hv.receivingBody, hv.body⟩ rfl
  | completed hp hk hr | whole hp hk hr =>
    apply Shape.of <;> simp_all [Place, State.pending, consumed, endBody, freshParser, create]

lemma State.Advanced.shape (h : Shape s) (hh : s.holder = .processing caller point) (ht : Advanced o s point s₁ next) :
    Shape { s₁ with holder := behind caller next } := by
  have hplace := h.place _ _ hh
  have hasks := h.asks hh
  have ⟨hhere, halone, hupload, _, hplain, _⟩ := h
  cases ht with
  | turned ht => exact ht.shape h hh
  | handles ht => exact ht.shape h hh
  | parsed ht => exact ht.shape h hh
  | _ => apply Shape.of <;> simp_all [Place, State.pending, State.configured, configureBody]

end Pass

section Run

lemma receiveMore_open {answer : Answer} {rest : Bytes} (h : (s.receiveMore o answer rest).connectionClosed = false) :
    s.connectionClosed = false := by
  rw [receiveMore] at h
  split at h
  · exact h
  split at h
  · simp only [leaveReceive] at h
    split at h
    · cases h
    · rw [httpError_closed, Bool.or_eq_false_iff] at h
      exact h.1
  · exact h

lemma threadStep_open {t : ℕ} (h : s.threadStep t = some s') : s'.connectionClosed = s.connectionClosed := by
  rw [threadStep] at h
  repeat' split at h
  all_goals cases h
  all_goals rfl

lemma releasePiece_open {t index : ℕ} (h : s.releasePiece t index = some s') : s'.connectionClosed = s.connectionClosed := by
  rw [releasePiece] at h
  repeat' split at h
  all_goals cases h
  rfl

lemma step_open {event : Event} (h : step o s event = some s') (hs' : s'.connectionClosed = false) :
    s.connectionClosed = false := by
  cases event with
  | process choice => exact process_open h hs'
  | receiveMore answer =>
    simp only [step] at h
    split at h
    · obtain rfl := Option.some.inj h
      exact receiveMore_open hs'
    · cases h
  | checkPause =>
    simp only [step] at h
    split at h
    · obtain rfl := Option.some.inj h
      rw [checkPause] at hs'
      split at hs'
      · rwa [pauseReceive_closed] at hs'
      · exact hs'
    · cases h
  | threadStep t => rwa [threadStep_open h] at hs'
  | releasePiece t index =>
    simp only [step, Option.ite_none_right_eq_some] at h
    rwa [releasePiece_open h.2] at hs'
  | deliver =>
    simp only [step] at h
    split at h
    · obtain rfl := Option.some.inj h
      exact hs'
    · cases h
  | closeConnection | disconnect =>
    obtain rfl := Option.some.inj h
    cases hs'
  | stop | drain =>
    obtain rfl := Option.some.inj h
    exact hs'
  | _ =>
    obtain ⟨-, rfl⟩ := of_guard h
    exact hs'

lemma threadStep_view {t : ℕ} (h : s.threadStep t = some s') : SameView s s' ∧ s'.holder = s.holder := by
  rw [threadStep] at h
  repeat' split at h
  all_goals cases h
  all_goals refine ⟨⟨rfl, rfl, rfl, rfl, rfl, ?_⟩, rfl⟩
  all_goals first | rfl | exact Option.isSome_map

lemma releasePiece_view {t index : ℕ} (h : s.releasePiece t index = some s') : SameView s s' ∧ s'.holder = s.holder := by
  rw [releasePiece] at h
  split at h
  · cases h
  · rename_i b hb
    split at h
    · cases h
    · cases h
      exact ⟨⟨rfl, rfl, rfl, rfl, rfl, by simp [hb, setThread]⟩, rfl⟩

inductive Received (o : HttpServerOptions) (s : State) (rest : Bytes) : State → Prop
  | left (h : rest = [] ∨ s.phase ≠ .http) : Received o s rest s.leaveReceive
  | refused (hp : s.phase = .http) (hl : s.limit o ≤ s.input.length) (hr : rest ≠ []) (ha : s.active.isSome = false) :
      Received o s rest { s with
        overflowed := s.overflowed || s.pending && !s.connectionClosed
        phase := .httpClosing
        holder := .free
        receive := .idle }
  | taken (hp : s.phase = .http) (hl : s.input.length < s.limit o) (hr : rest ≠ []) : Received o s rest { s with
      input := s.input ++ rest.take (min rest.length (s.limit o - s.input.length))
      holder := .processing (.receive (rest.drop (min rest.length (s.limit o - s.input.length)))) .top }

lemma receiveMore_received {answer : Answer} {rest : Bytes} (h : (s.receiveMore o answer rest).connectionClosed = false) :
    Received o s rest (s.receiveMore o answer rest) := by
  rw [receiveMore] at h ⊢
  split at h
  · rename_i hleft
    rw [if_pos hleft]
    exact .left (by simpa using hleft)
  rename_i hmore
  rw [if_neg hmore]
  simp only [Bool.or_eq_true, List.isEmpty_iff, decide_not, Bool.not_eq_eq_eq_not, Bool.not_true, decide_eq_false_iff_not,
    not_or, not_not] at hmore
  split at h
  · rename_i hfull
    simp only [if_pos hfull]
    simp only [leaveReceive] at h
    split at h
    · cases h
    · rename_i ha
      rw [if_neg ha, leaveReceive, httpError_open h]
      exact .refused hmore.2 hfull hmore.1 (by simpa using ha)
  · rename_i hroom
    rw [if_neg hroom]
    exact .taken hmore.2 (not_le.mp hroom) hmore.1

lemma step_shape {event : Event} (hstep : step o s event = some s') (hs : s.connectionClosed = false) (h : Shape s)
    (hs' : s'.connectionClosed = false) : Shape s' := by
  cases event with
  | process choice =>
    obtain ⟨caller, point, s₁, next, hh, -, -, ha, rfl⟩ := process_advanced hstep hs hs'
    exact ha.shape h hh
  | receiveMore answer =>
    simp only [step] at hstep
    split at hstep
    · rename_i rest hh
      have hfree (caller : Caller) : s.holder ≠ .processing caller (.handle true) := by simp [hh]
      obtain rfl := Option.some.inj hstep
      have hr := receiveMore_received hs'
      generalize s.receiveMore o answer rest = s' at hr ⊢
      cases hr with
      | left => exact h.lock ⟨rfl, rfl, rfl, rfl, rfl, rfl⟩ hfree nofun
      | refused hp hl hr ha =>
        exact ⟨nofun, h.alone, h.upload, fun _ => nofun, fun _ => nofun, nofun⟩
      | taken =>
        refine h.lock ⟨rfl, rfl, rfl, rfl, rfl, rfl⟩ hfree fun caller point hholder => ?_
        exact (Holder.processing.inj hholder).2.symm
    · cases hstep
  | checkPause =>
    simp only [step] at hstep
    split at hstep
    · rename_i rest hh
      have hfree (caller : Caller) : s.holder ≠ .processing caller (.handle true) := by simp [hh]
      obtain rfl := Option.some.inj hstep
      rw [checkPause]
      dsimp only
      split
      · rw [pauseReceive_open (show ({ s with holder := .receiving rest } : State).connectionClosed = false from hs)]
        exact h.lock ⟨rfl, rfl, rfl, rfl, rfl, rfl⟩ hfree nofun
      · exact h.lock ⟨rfl, rfl, rfl, rfl, rfl, rfl⟩ hfree nofun
    · cases hstep
  | deliver =>
    simp only [step] at hstep
    split at hstep
    · rename_i bytes hh _
      obtain rfl := Option.some.inj hstep
      exact h.lock ⟨rfl, rfl, rfl, rfl, rfl, rfl⟩ (by simp [hh]) nofun
    · cases hstep
  | lockProgress =>
    obtain ⟨⟨-, hh⟩, rfl⟩ := of_guard hstep
    refine h.lock ⟨rfl, rfl, rfl, rfl, rfl, rfl⟩ (by simp [hh]) fun caller point hholder => ?_
    simp only [lockProgress] at hholder
    split at hholder
    · exact (Holder.processing.inj hholder).2.symm
    · cases hholder
  | closeIdleForDrain =>
    obtain ⟨⟨hh, -⟩, rfl⟩ := of_guard hstep
    refine ⟨nofun, h.alone, h.upload, fun _ => nofun, fun _ => nofun, fun caller point hholder => ?_⟩
    rw [show ({ s with phase := .httpClosing } : State).holder = .free from hh] at hholder
    cases hholder
  | closeConnection | disconnect =>
    obtain rfl := Option.some.inj hstep
    cases hs'
  | finishDisconnect t late =>
    obtain ⟨⟨-, -, hclosed⟩, -⟩ := of_guard hstep
    exact absurd hclosed h.here
  | threadStep t =>
    obtain ⟨hv, hh⟩ := threadStep_view hstep
    exact h.view hv hh
  | releasePiece t index =>
    simp only [step, Option.ite_none_right_eq_some] at hstep
    obtain ⟨hv, hh⟩ := releasePiece_view hstep.2
    exact h.view hv hh
  | resolve t decision =>
    obtain ⟨⟨-, hd, -⟩, rfl⟩ := of_guard hstep
    exact h.view ⟨rfl, rfl, rfl, by simp [hd, setThread], rfl, rfl⟩ rfl
  | finish t close =>
    obtain ⟨⟨-, ha⟩, rfl⟩ := of_guard hstep
    exact h.view ⟨rfl, rfl, by simp [ha, setThread], rfl, rfl, rfl⟩ rfl
  | abort =>
    obtain ⟨ha, rfl⟩ := of_guard hstep
    exact h.view ⟨rfl, rfl, by simp [ha], rfl, rfl, rfl⟩ rfl
  | stop | drain =>
    obtain rfl := Option.some.inj hstep
    exact h.view ⟨rfl, rfl, rfl, rfl, rfl, rfl⟩ rfl
  | _ =>
    obtain ⟨-, rfl⟩ := of_guard hstep
    exact h.view ⟨rfl, rfl, rfl, rfl, rfl, rfl⟩ rfl

lemma shape_initial (h : Initial o s) : Shape s := by
  subst h
  exact ⟨nofun, nofun, nofun, nofun, fun _ _ => rfl, nofun⟩

end Run

end ServerCore.Web.HttpPeer
