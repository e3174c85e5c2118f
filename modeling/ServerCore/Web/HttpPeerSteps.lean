import ServerCore.Web.HttpPeer
import ServerCore.Web.HttpWaiting

/-! What the steps of a connection do as long as it stays open. -/

namespace ServerCore.Web.HttpPeer

open ServerCore.Core ServerCore.Foundations HttpParser

variable {o : HttpServerOptions}

namespace State

variable {s s' : State} {next : Next}

section Operations

lemma resumeReceive_open (h : s.connectionClosed = false) : s.resumeReceive = { s with paused := false } := by
  simp [resumeReceive, h]

lemma pauseReceive_open (h : s.connectionClosed = false) : s.pauseReceive = { s with paused := true } := by
  simp [pauseReceive, h]

@[simp] lemma pauseReceive_closed (s : State) : s.pauseReceive.connectionClosed = s.connectionClosed := by
  rw [pauseReceive]
  split <;> rfl

@[simp] lemma resumeReceive_closed (s : State) : s.resumeReceive.connectionClosed = s.connectionClosed := by
  rw [resumeReceive]
  split <;> rfl

@[simp] lemma respond_closed (s : State) (answer : Answer) :
    (s.respond answer).connectionClosed = (s.connectionClosed || !answer.sent) := by
  rw [respond]
  cases answer.sent <;> cases answer.close <;> cases answer.serialized <;> simp [close]

lemma respond_open {answer : Answer} (h : (s.respond answer).connectionClosed = false) :
    s.respond answer = { s with phase := if answer.close || !answer.serialized then .httpClosing else s.phase } := by
  simp only [respond_closed, Bool.or_eq_false_iff, Bool.not_eq_eq_eq_not, Bool.not_false] at h
  rw [respond, h.2]
  cases answer.close <;> cases answer.serialized <;> rfl

@[simp] lemma respondAndResume_closed (s : State) (answer : Answer) :
    (s.respondAndResume answer).1.connectionClosed = (s.connectionClosed || !answer.sent) := by
  rw [respondAndResume]
  split <;> simp

@[simp] lemma dispatchRequest_closed (s : State) (sent : Bool) : (s.dispatchRequest sent).connectionClosed =
    (s.connectionClosed || s.receivingBody && s.parser.expectsContinue && !sent) := by
  rw [dispatchRequest]
  cases s.receivingBody <;> cases he : s.parser.expectsContinue <;> cases sent <;> simp [takeContinue, close, he]

@[simp] lemma handleRequest_closed (s : State) (handled : Handled) : (s.handleRequest handled).connectionClosed =
    (s.connectionClosed || match handled with
      | .closed => true
      | .responded answer => !answer.sent
      | .dispatched sent => s.receivingBody && s.parser.expectsContinue && !sent
      | _ => false) := by
  cases handled <;> simp [handleRequest, close]

lemma dispatchRequest_open {sent : Bool} (h : (s.dispatchRequest sent).connectionClosed = false) : ∃ expects,
    s.dispatchRequest sent = { s with active := some .running, parser := { s.parser with expectsContinue := expects } } := by
  simp only [dispatchRequest_closed, Bool.or_eq_false_iff] at h
  rw [dispatchRequest]
  cases hr : s.receivingBody with
  | false => exact ⟨s.parser.expectsContinue, rfl⟩
  | true => exact ⟨false, by simp_all [takeContinue]⟩

@[simp] lemma setCredit_closed (s : State) (credit : ℕ) : (s.setCredit o credit).connectionClosed = s.connectionClosed := by
  rw [setCredit]
  split <;> simp

@[simp] lemma push_closed (s : State) (bytes : Bytes) : (s.push bytes).1.connectionClosed = s.connectionClosed := by
  rw [push]
  repeat' split
  all_goals rfl

end Operations

/-- The states in which the loop goes on to `Parse`: no response is in the way, or a finished one is taken out of it. -/
inductive Cleared (s : State) : State → Prop
  | clear (hd : s.decision = none) (ha : s.active.isSome = true → s.receivingBody = true) : Cleared s s
  | harvested (hd : s.decision = none) (hf : s.finished = true) (hr : s.receivingBody = false) :
      Cleared s { ({ s with active := none } : State).dropBody with paused := false }

inductive Turned (s : State) : State → Next → Prop
  | leaves (hp : s.phase ≠ .http) : Turned s s .returns
  | undecided (hd : s.decision = some .pending) : Turned s s .returns
  | unfinished (hd : s.decision = none) (ha : s.active = some .running) (hr : s.receivingBody = false) : Turned s s .returns
  | refused (hd : s.decision.isSome = true) : Turned s { s with decision := none, phase := .httpClosing } .returns
  | kept {phase : Phase} (hd : s.decision.isSome = true) (hr : s.receivingBody = false) (hphase : s.phase = .http)
      (hp : phase = .http ∨ phase = .httpClosing) : Turned s { s with decision := none, phase, paused := false } (.goes .top)
  | asked (hd : s.decision.isSome = true) : Turned s { s with decision := some .pending } .returns
  | dispatched (hd : s.decision.isSome = true) (expects : Bool) :
      Turned s { s with
        decision := none, active := some .running, parser := { s.parser with expectsContinue := expects } } (.goes .top)
  | upgraded (hd : s.decision.isSome = true) (hr : s.receivingBody = false) :
      Turned s { s with decision := none, phase := .webSocket, paused := false } (.goes .top)
  | ended (hd : s.decision = none) (hr : s.receivingBody = false) :
      Turned s { s with active := none, phase := .httpClosing } .returns
  | drained {s₁ : State} (h : Cleared s s₁) (hr : s.receivingBody = false) : Turned s { s₁ with phase := .httpClosing } .returns
  | credit {s₁ : State} (hp : s.phase = .http) (h : Cleared s s₁) (hr : s.receivingBody = true) (hb : s.body.isSome = true) :
      Turned s s₁ (.goes .credit)
  | parses {s₁ : State} (hp : s.phase = .http) (h : Cleared s s₁) (hr : s₁.receivingBody = true → s₁.body = none) :
      Turned s s₁ (.goes .parse)

lemma Cleared.receivingBody {s₁ : State} (h : Cleared s s₁) : s₁.receivingBody = s.receivingBody := by
  cases h <;> rfl

lemma beforeParse_turned {s₁ : State} (hp : s.phase = .http) (h : Cleared s s₁) :
    Turned s s₁.beforeParse.1 s₁.beforeParse.2 := by
  rw [beforeParse]
  split
  · rename_i hd
    simp only [Bool.and_eq_true, Bool.not_eq_eq_eq_not, Bool.not_true] at hd
    exact .drained h (h.receivingBody.symm.trans hd.1.1)
  · by_cases hb : s₁.receivingBody = true ∧ s₁.body.isSome = true
    · simp only [hb.1, hb.2, Bool.and_self, ↓reduceIte]
      cases h with
      | clear hd ha => exact .credit hp (.clear hd ha) hb.1 hb.2
      | harvested _ _ hr => exact absurd hb.1 (by simp [dropBody, hr])
    · rw [if_neg (by simpa using hb)]
      refine .parses hp h fun hr => ?_
      simpa using fun hsome => hb ⟨hr, hsome⟩

lemma finished_iff : s.finished = true ↔ ∃ close, s.active = some (.finished close) := by
  rw [finished]
  split <;> simp_all

lemma turn_turned {choice : Choice} (h : s.turn choice = some (s', next)) (hs : s.connectionClosed = false)
    (hs' : s'.connectionClosed = false) : Turned s s' next := by
  rw [turn] at h
  split at h
  · rename_i hp
    simp only [Option.some.injEq, Prod.mk.injEq] at h
    obtain ⟨rfl, rfl⟩ := h
    exact .leaves hp
  rename_i hp
  simp only [ne_eq, not_not] at hp
  split at h
  · rename_i decision hd
    have hsome : s.decision.isSome = true := by simp [hd]
    simp only [Option.map_eq_some_iff, Prod.exists] at h
    obtain ⟨s₁, goes, hr, h⟩ := h
    obtain ⟨rfl, rfl⟩ := Prod.mk.inj h
    have hopen (s₁ : State) (answer : Answer) (hs₁ : s₁ = { s with decision := none }) (hr : s.receivingBody = false ∨ answer.close = true)
        (hc : (s₁.respondAndResume answer).1.connectionClosed = false) : Turned s (s₁.respondAndResume answer).1
          (if (s₁.respondAndResume answer).2 then .goes .top else .returns) := by
      subst hs₁
      have hsent : (({ s with decision := none } : State).respond answer).connectionClosed = false := by simpa using hc
      rw [respondAndResume, respond_open hsent]
      split
      · rename_i hclose
        simp only [hclose, Bool.true_or, ↓reduceIte, Bool.false_eq_true]
        exact .refused hsome
      · rename_i hclose
        have hkept : ({ s with decision := none, phase := if answer.close || !answer.serialized then .httpClosing else s.phase } :
          State).connectionClosed = false := hs
        rw [resumeReceive_open hkept]
        refine .kept hsome (hr.resolve_right hclose) hp ?_
        split
        · exact .inr rfl
        · exact .inl hp
    cases decision with
    | pending =>
      simp only [resolvePolicy, Option.some.injEq, Prod.mk.injEq] at hr
      obtain ⟨rfl, rfl⟩ := hr
      exact .undecided hd
    | aborted =>
      simp only [resolvePolicy, Option.some.injEq, Prod.mk.injEq] at hr
      obtain ⟨rfl, rfl⟩ := hr
      cases hs'
    | rejected =>
      simp only [resolvePolicy, Option.ite_none_left_eq_some] at hr
      obtain ⟨hclose, hr⟩ := hr
      have heq := Option.some.inj hr
      obtain ⟨rfl, rfl⟩ : s₁ = _ ∧ goes = _ := ⟨(congrArg Prod.fst heq).symm, (congrArg Prod.snd heq).symm⟩
      refine hopen _ choice.answer rfl ?_ hs'
      cases hb : s.receivingBody <;> simp_all
    | allowed =>
      simp only [resolvePolicy] at hr
      split at hr
      · simp only [Option.some.injEq, Prod.mk.injEq] at hr
        obtain ⟨rfl, rfl⟩ := hr
        cases hs'
      rw [Option.ite_none_left_eq_some] at hr
      obtain ⟨hmay, hr⟩ := hr
      simp only [Bool.not_eq_eq_eq_not, Bool.not_true, Bool.not_eq_false] at hmay
      cases hh : choice.handled with
      | responded answer =>
        simp only [hh, Option.some.injEq] at hr hmay
        obtain ⟨rfl, rfl⟩ : s₁ = _ ∧ goes = _ := ⟨(congrArg Prod.fst hr).symm, (congrArg Prod.snd hr).symm⟩
        refine hopen _ answer rfl ?_ hs'
        simp only [mayHandle, Bool.and_eq_true, Bool.or_eq_true, Bool.not_eq_eq_eq_not, Bool.not_true] at hmay
        exact hmay.2
      | policy =>
        simp only [hh, handleRequest, Option.some.injEq, Prod.mk.injEq] at hr
        obtain ⟨rfl, rfl⟩ := hr
        exact .asked hsome
      | closed =>
        simp only [hh, handleRequest, Option.some.injEq, Prod.mk.injEq] at hr
        obtain ⟨rfl, rfl⟩ := hr
        cases hs'
      | dispatched sent =>
        simp only [hh, Option.some.injEq, Prod.mk.injEq] at hr
        obtain ⟨rfl, rfl⟩ := hr
        obtain ⟨expects, heq⟩ := dispatchRequest_open hs'
        rw [handleRequest, heq]
        exact .dispatched hsome expects
      | upgraded =>
        simp only [hh, Option.some.injEq, Prod.mk.injEq] at hr hmay
        obtain ⟨rfl, rfl⟩ := hr
        simp only [mayHandle, Bool.and_eq_true, Bool.not_eq_eq_eq_not, Bool.not_true] at hmay
        have hkept : ({ s with decision := none, phase := .webSocket } : State).connectionClosed = false := hs
        rw [handleRequest, resumeReceive_open hkept]
        exact .upgraded hsome hmay.2
  · rename_i hd
    split at h
    · rename_i ha
      have heq := Option.some.inj h
      obtain ⟨rfl, rfl⟩ : s' = _ ∧ next = _ := ⟨(congrArg Prod.fst heq).symm, (congrArg Prod.snd heq).symm⟩
      exact beforeParse_turned hp (.clear hd fun hsome => by simp [ha] at hsome)
    · simp only [Option.some.injEq, Prod.mk.injEq] at h
      obtain ⟨rfl, rfl⟩ := h
      cases hs'
    · rename_i ha
      have heq := Option.some.inj h
      split at heq
      · rename_i hr
        obtain ⟨rfl, rfl⟩ : s' = _ ∧ next = _ := ⟨(congrArg Prod.fst heq).symm, (congrArg Prod.snd heq).symm⟩
        exact beforeParse_turned hp (.clear hd fun _ => hr)
      · rename_i hr
        simp only [Prod.mk.injEq] at heq
        obtain ⟨rfl, rfl⟩ := heq
        exact .unfinished hd ha (by simpa using hr)
    · rename_i finish ha
      have hf : s.finished = true := finished_iff.mpr ⟨finish, ha⟩
      split at h
      · rename_i hr
        have heq := Option.some.inj h
        obtain ⟨rfl, rfl⟩ : s' = _ ∧ next = _ := ⟨(congrArg Prod.fst heq).symm, (congrArg Prod.snd heq).symm⟩
        exact beforeParse_turned hp (.clear hd fun _ => hr)
      · rename_i hr
        have hr : s.receivingBody = false := by simpa using hr
        split at h
        · simp only [Option.some.injEq, Prod.mk.injEq] at h
          obtain ⟨rfl, rfl⟩ := h
          exact .ended hd hr
        · have heq := Option.some.inj h
          obtain ⟨rfl, rfl⟩ : s' = _ ∧ next = _ := ⟨(congrArg Prod.fst heq).symm, (congrArg Prod.snd heq).symm⟩
          have hkept : (({ s with active := none } : State).dropBody).connectionClosed = false := hs
          rw [resumeReceive_open hkept]
          exact beforeParse_turned hp (.harvested hd hf hr)

/-- What `HandleRequest` does on an open connection that stays open. -/
inductive Handles (s : State) (streaming : Bool) : State → Prop
  | responded {phase : Phase} (hp : phase = .httpClosing ∨ streaming = false ∧ phase = s.phase) : Handles s streaming { s with phase }
  | policy : Handles s streaming { s with decision := some .pending }
  | dispatched (expects : Bool) :
      Handles s streaming { s with active := some .running, parser := { s.parser with expectsContinue := expects } }
  | upgraded (h : streaming = false) : Handles s streaming { s with phase := .webSocket, paused := false }

lemma handle_handles {streaming : Bool} {handled : Handled} (hm : s.mayHandle streaming handled = true)
    (hs : s.connectionClosed = false) (hs' : (s.handleRequest handled).connectionClosed = false) :
    Handles s streaming (s.handleRequest handled) := by
  cases handled with
  | closed => simp at hs'
  | responded answer =>
    simp only [mayHandle, Bool.and_eq_true, Bool.or_eq_true, Bool.not_eq_eq_eq_not, Bool.not_true] at hm
    rw [handleRequest] at hs' ⊢
    rw [respond_open hs']
    refine .responded ?_
    split
    · exact .inl rfl
    · rename_i hclose
      refine .inr ⟨hm.2.resolve_right fun hc => hclose ?_, rfl⟩
      rw [hc, Bool.true_or]
  | policy => exact .policy
  | dispatched sent =>
    obtain ⟨expects, heq⟩ := dispatchRequest_open hs'
    rw [handleRequest, heq]
    exact .dispatched expects
  | upgraded =>
    simp only [mayHandle, Bool.and_eq_true, Bool.not_eq_eq_eq_not, Bool.not_true] at hm
    have hkept : ({ s with phase := .webSocket } : State).connectionClosed = false := hs
    rw [handleRequest, resumeReceive_open hkept]
    exact .upgraded hm.2

def consumed (s : State) (c : Cursor) : State := { s with parser := c.parser, input := c.input }

def configured (s : State) (streaming : Bool) (maximum chunk : ℕ) : State :=
  { s with parser := (s.parser.configureBody streaming maximum chunk).2 }

/-- What a call of `Parse` and the branch for its result do on an open connection that stays open. -/
inductive Parsed (o : HttpServerOptions) (s : State) : State → Next → Prop
  | waits {result c} (h : Parses s.parser s.input result c) (hk : result.kind = .needMore) : Parsed o s (s.consumed c) .returns
  | failed {result c} (h : Parses s.parser s.input result c) (hb : s.body = none) :
      Parsed o s { s.consumed c with phase := .httpClosing } .returns
  | continued {result c} (h : Parses s.parser s.input result c) (hk : result.kind = .continue100) :
      Parsed o s (s.consumed c) (.goes .top)
  | refused {result c} (h : Parses s.parser s.input result c) (hk : result.kind = .headers) (streaming : Bool) (maximum : ℕ) :
      Parsed o s { (s.consumed c).configured streaming maximum o.maxStreamChunkBytes with phase := .httpClosing } .returns
  | headers {result c} (h : Parses s.parser s.input result c) (hk : result.kind = .headers) :
      Parsed o s ((s.consumed c).configured false o.maxBodyBytes o.maxStreamChunkBytes) (.goes .top)
  | begun {result c} (h : Parses s.parser s.input result c) (hk : result.kind = .headers) :
      Parsed o s (((s.consumed c).configured true o.maxStreamedBodyBytes.toNat o.maxStreamChunkBytes).beginBody o)
        (.goes (.handle true))
  | pushed {result c} {bytes : Bytes} (h : Parses s.parser s.input result c) (hk : result.kind = .body)
      (hn : ((s.consumed c).push bytes).2 = .goes .top) : Parsed o s ((s.consumed c).push bytes).1 (.goes .top)
  | completed {result c} (h : Parses s.parser s.input result c) (hk : result.kind = .complete) (hr : s.receivingBody = true) :
      Parsed o s ({ s.consumed c with parser := freshParser o, receivingBody := false } : State).endBody (.goes .top)
  | whole {result c} (h : Parses s.parser s.input result c) (hk : result.kind = .complete) (hr : s.receivingBody = false) :
      Parsed o s { s.consumed c with parser := freshParser o } (.goes (.handle false))

lemma push_next {bytes : Bytes} : (s.push bytes).2 = .throws ∨ (s.push bytes).2 = .goes .top := by
  rw [push]
  repeat' split
  · exact .inr rfl
  · exact .inr rfl
  · exact .inl rfl
  · exact .inr rfl

lemma httpError_open {answer : Answer} (h : (s.httpError answer).connectionClosed = false) :
    s.httpError answer = { s with phase := .httpClosing } := by
  rw [httpError] at h ⊢
  rw [respond_open h]
  simp

lemma takeHeaders_parsed {choice : Choice} {result : HttpParseResult} {c : Cursor} (h : Parses s.parser s.input result c)
    (hk : result.kind = .headers) (hs' : ((s.consumed c).takeHeaders o choice).1.connectionClosed = false) :
    Parsed o s ((s.consumed c).takeHeaders o choice).1 ((s.consumed c).takeHeaders o choice).2 := by
  cases hstream : choice.streaming with
  | false =>
    simp only [takeHeaders, hstream, Bool.false_eq_true, ↓reduceIte, Bool.not_false] at hs' ⊢
    split at hs'
    · rename_i hbad
      rw [if_pos hbad, httpError_open hs']
      exact .refused h hk false _
    · rename_i hgood
      rw [if_neg hgood]
      exact .headers h hk
  | true =>
    simp only [takeHeaders, hstream, ↓reduceIte, Bool.not_true, Bool.false_eq_true] at hs' ⊢
    split at hs'
    · rename_i hbad
      rw [if_pos hbad, httpError_open hs']
      exact .refused h hk true _
    rename_i hgood
    rw [if_neg hgood]
    split at hs'
    · rename_i hfull
      rw [if_pos hfull, httpError_open hs']
      exact .refused h hk true _
    · rename_i hroom
      rw [if_neg hroom]
      exact .begun h hk

lemma parse_parsed {choice : Choice} (h : s.advance o choice .parse = some (s', next)) (hs' : s'.connectionClosed = false)
    (hn : next ≠ .throws) : Parsed o s s' next := by
  simp only [advance, Option.map_eq_some_iff, Prod.exists] at h
  obtain ⟨result, c, hparse, h⟩ := h
  have hp := parses_of_parse hparse
  change (s.consumed c).afterParse o choice c.output result.kind = (s', next) at h
  obtain ⟨rfl, rfl⟩ : s' = _ ∧ next = _ := ⟨(congrArg Prod.fst h).symm, (congrArg Prod.snd h).symm⟩
  cases hk : result.kind with
  | needMore =>
    simp only [afterParse, hk] at hs' ⊢
    split at hs'
    · cases hs'
    · rename_i hgo
      rw [if_neg hgo]
      exact .waits hp hk
  | continue100 =>
    simp only [afterParse, hk] at hs' ⊢
    split at hs'
    · cases hs'
    · rename_i hgo
      rw [if_neg hgo]
      exact .continued hp hk
  | complete =>
    simp only [afterParse, takeComplete]
    split
    · rename_i hr
      exact .completed hp hk hr
    · rename_i hr
      exact .whole hp hk (Bool.eq_false_iff.mpr hr)
  | error =>
    simp only [afterParse, hk] at hs' ⊢
    split at hs'
    · cases hs'
    · rename_i hb
      rw [if_neg hb, httpError_open hs']
      exact .failed hp (Option.not_isSome_iff_eq_none.mp hb)
  | headers =>
    simp only [hk, afterParse] at hs'
    exact takeHeaders_parsed hp hk hs'
  | body =>
    simp only [hk, afterParse] at hn ⊢
    have hgoes := push_next.resolve_left hn
    rw [hgoes]
    exact .pushed hp hk hgoes

inductive Advanced (o : HttpServerOptions) (s : State) : Point → State → Next → Prop
  | turned {s' : State} {next : Next} (h : Turned s s' next) : Advanced o s .top s' next
  | credit : Advanced o s .credit { s with awaitingCredit := true } (.goes .retained)
  | retained {b : RequestBody} (hb : s.body = some b) : Advanced o s .retained s (.goes (.pieces b.retained))
  | pieces {b : RequestBody} {retained : ℕ} (hb : s.body = some b) :
      Advanced o s (.pieces retained) s (.goes (.measured (Web.RequestBody.available b.maximum retained b.pieces)))
  | exhausted : Advanced o s (.measured 0) s (.goes (.configure 0))
  | measured {credit : ℕ} (h : credit ≠ 0) :
      Advanced o s (.measured credit) { s with awaitingCredit := false } (.goes (.configure credit))
  | configured {credit : ℕ} : Advanced o s (.configure credit)
      { s.configured true o.maxStreamedBodyBytes.toNat (min credit o.maxStreamChunkBytes) with paused := decide (credit = 0) }
      (.goes .parse)
  | parsed {s' : State} {next : Next} (h : Parsed o s s' next) : Advanced o s .parse s' next
  | handles {s' : State} {streaming : Bool} (h : Handles s streaming s') : Advanced o s (.handle streaming) s' (.goes .top)

lemma setCredit_open {credit : ℕ} (hs : s.connectionClosed = false) : s.setCredit o credit =
    { s.configured true o.maxStreamedBodyBytes.toNat (min credit o.maxStreamChunkBytes) with paused := decide (credit = 0) } := by
  unfold setCredit
  rw [pauseReceive_open hs]
  by_cases h : credit = 0
  · simp only [h, ↓reduceIte, configured, decide_true]
  · simp only [h, ↓reduceIte, configured, decide_false]
    exact resumeReceive_open hs

lemma advance_advanced {choice : Choice} {point : Point} (h : s.advance o choice point = some (s', next))
    (hs : s.connectionClosed = false) (hs' : s'.connectionClosed = false) (hn : next ≠ .throws) :
    Advanced o s point s' next := by
  cases point with
  | top => exact .turned (turn_turned h hs hs')
  | credit =>
    simp only [advance, Option.some.injEq, Prod.mk.injEq] at h
    obtain ⟨rfl, rfl⟩ := h
    exact .credit
  | retained =>
    simp only [advance, Option.map_eq_some_iff, Prod.mk.injEq] at h
    obtain ⟨b, hb, rfl, rfl⟩ := h
    exact .retained hb
  | pieces retained =>
    simp only [advance, Option.map_eq_some_iff, Prod.mk.injEq] at h
    obtain ⟨b, hb, rfl, rfl⟩ := h
    exact .pieces hb
  | measured credit =>
    simp only [advance, Option.some.injEq, Prod.mk.injEq] at h
    obtain ⟨rfl, rfl⟩ := h
    split
    · rename_i hz
      rw [hz]
      exact .exhausted
    · rename_i hz
      exact .measured hz
  | configure credit =>
    simp only [advance, Option.some.injEq, Prod.mk.injEq] at h
    obtain ⟨rfl, rfl⟩ := h
    rw [setCredit_open hs]
    exact .configured
  | parse => exact .parsed (parse_parsed h hs' hn)
  | handle streaming =>
    obtain ⟨hm, rfl, rfl⟩ := of_guard_pair h
    exact .handles (handle_handles hm hs hs')

def behind (caller : Caller) : Next → Holder
  | .goes point => .processing caller point
  | _ =>
    match caller with
    | .receive rest => .processed rest
    | .progress => .free

lemma process_advanced {choice : Choice} (h : s.process o choice = some s') (hs : s.connectionClosed = false)
    (hs' : s'.connectionClosed = false) : ∃ caller point s₁ next, s.holder = .processing caller point ∧
      s.advance o choice point = some (s₁, next) ∧ next ≠ .throws ∧ Advanced o s point s₁ next ∧ s' = { s₁ with holder := behind caller next } := by
  rw [process] at h
  split at h
  · rename_i caller point hholder
    simp only [Option.map_eq_some_iff, Prod.exists] at h
    obtain ⟨s₁, next, ha, rfl⟩ := h
    have hn : next ≠ .throws := by
      rintro rfl
      cases caller <;> cases hs'
    refine ⟨caller, point, s₁, next, hholder, ha, hn, ?_, ?_⟩
    · refine advance_advanced ha hs ?_ hn
      cases next <;> cases caller <;> first | exact hs' | cases hs'
    · cases next with
      | goes => rfl
      | returns => cases caller <;> rfl
      | throws => exact absurd rfl hn
  · cases h

section Open

variable {choice : Choice}

lemma beforeParse_open (s : State) : s.beforeParse.1.connectionClosed = s.connectionClosed := by
  rw [beforeParse]
  split <;> rfl

lemma resolvePolicy_open {decision : Decision} {goes : Bool} (h : s.resolvePolicy choice decision = some (s', goes))
    (hs' : s'.connectionClosed = false) : s.connectionClosed = false := by
  cases decision with
  | pending =>
    simp only [resolvePolicy, Option.some.injEq, Prod.mk.injEq] at h
    exact h.1 ▸ hs'
  | aborted =>
    simp only [resolvePolicy, Option.some.injEq, Prod.mk.injEq] at h
    obtain ⟨rfl, -⟩ := h
    cases hs'
  | rejected =>
    simp only [resolvePolicy, Option.ite_none_left_eq_some, Option.some.injEq] at h
    have heq := congrArg (fun r => r.1.connectionClosed) h.2
    simp only [respondAndResume_closed, hs', Bool.or_eq_false_iff] at heq
    exact heq.1
  | allowed =>
    simp only [resolvePolicy] at h
    split at h
    · simp only [Option.some.injEq, Prod.mk.injEq] at h
      obtain ⟨rfl, -⟩ := h
      cases hs'
    rw [Option.ite_none_left_eq_some] at h
    obtain ⟨-, h⟩ := h
    split at h <;> have heq := congrArg (fun r => r.1.connectionClosed) (Option.some.inj h)
    · simp only [respondAndResume_closed, hs', Bool.or_eq_false_iff] at heq
      exact heq.1
    · simpa [hs'] using heq
    · simp only [handleRequest_closed, hs', Bool.or_eq_false_iff] at heq
      exact heq.1

lemma turn_open (h : s.turn choice = some (s', next)) (hs' : s'.connectionClosed = false) : s.connectionClosed = false := by
  have hback {s₁ : State} (heq : s₁.beforeParse = (s', next)) : s₁.connectionClosed = false := by
    rw [← beforeParse_open, heq]
    exact hs'
  rw [turn] at h
  split at h
  · simp only [Option.some.injEq, Prod.mk.injEq] at h
    exact h.1 ▸ hs'
  split at h
  · simp only [Option.map_eq_some_iff, Prod.exists, Prod.mk.injEq] at h
    obtain ⟨s₁, goes, hr, rfl, -⟩ := h
    exact resolvePolicy_open hr hs'
  · split at h
    · exact hback (Option.some.inj h)
    · simp only [Option.some.injEq, Prod.mk.injEq] at h
      obtain ⟨rfl, -⟩ := h
      cases hs'
    · split at h
      · exact hback (Option.some.inj h)
      · simp only [Option.some.injEq, Prod.mk.injEq] at h
        exact h.1 ▸ hs'
    · split at h
      · exact hback (Option.some.inj h)
      split at h
      · simp only [Option.some.injEq, Prod.mk.injEq] at h
        obtain ⟨rfl, -⟩ := h
        exact hs'
      · have hopen := hback (Option.some.inj h)
        rwa [resumeReceive_closed] at hopen

lemma httpError_closed (s : State) (answer : Answer) :
    (s.httpError answer).connectionClosed = (s.connectionClosed || !answer.sent) := by
  rw [httpError, respond_closed]

lemma afterParse_open {output : HttpRequest} {kind : HttpParseKind} (hs' : (s.afterParse o choice output kind).1.connectionClosed = false) :
    s.connectionClosed = false := by
  cases kind with
  | needMore =>
    simp only [afterParse] at hs'
    split at hs'
    · cases hs'
    · exact hs'
  | error =>
    simp only [afterParse] at hs'
    split at hs'
    · cases hs'
    · rw [httpError_closed, Bool.or_eq_false_iff] at hs'
      exact hs'.1
  | continue100 =>
    simp only [afterParse] at hs'
    split at hs'
    · cases hs'
    · exact hs'
  | body => rwa [afterParse, push_closed] at hs'
  | complete =>
    simp only [afterParse, takeComplete] at hs'
    split at hs' <;> exact hs'
  | headers =>
    simp only [afterParse, takeHeaders] at hs'
    generalize s.parser.configureBody choice.streaming
      (if choice.streaming = true then o.maxStreamedBodyBytes.toNat else o.maxBodyBytes) o.maxStreamChunkBytes = configured at hs'
    split at hs'
    · rw [httpError_closed, Bool.or_eq_false_iff] at hs'
      exact hs'.1
    split at hs'
    · exact hs'
    split at hs'
    · rw [httpError_closed, Bool.or_eq_false_iff] at hs'
      exact hs'.1
    · exact hs'

lemma advance_open {point : Point} (h : s.advance o choice point = some (s', next)) (hs' : s'.connectionClosed = false) :
    s.connectionClosed = false := by
  cases point with
  | top => exact turn_open h hs'
  | credit =>
    simp only [advance, Option.some.injEq, Prod.mk.injEq] at h
    obtain ⟨rfl, -⟩ := h
    exact hs'
  | retained =>
    simp only [advance, Option.map_eq_some_iff, Prod.mk.injEq] at h
    obtain ⟨b, -, rfl, -⟩ := h
    exact hs'
  | pieces retained =>
    simp only [advance, Option.map_eq_some_iff, Prod.mk.injEq] at h
    obtain ⟨b, -, rfl, -⟩ := h
    exact hs'
  | measured credit =>
    simp only [advance, Option.some.injEq, Prod.mk.injEq] at h
    obtain ⟨rfl, -⟩ := h
    split at hs' <;> exact hs'
  | configure credit =>
    simp only [advance, Option.some.injEq, Prod.mk.injEq] at h
    obtain ⟨rfl, -⟩ := h
    rwa [setCredit_closed] at hs'
  | parse =>
    simp only [advance, Option.map_eq_some_iff, Prod.exists] at h
    obtain ⟨result, c, -, h⟩ := h
    have hopen : ((s.consumed c).afterParse o choice c.output result.kind).1.connectionClosed = false := by
      rw [← hs']
      exact congrArg (fun r => r.1.connectionClosed) h
    have hconsumed : (s.consumed c).connectionClosed = false := afterParse_open hopen
    exact hconsumed
  | handle streaming =>
    obtain ⟨-, rfl, -⟩ := of_guard_pair h
    rw [handleRequest_closed, Bool.or_eq_false_iff] at hs'
    exact hs'.1

lemma process_open (h : s.process o choice = some s') (hs' : s'.connectionClosed = false) : s.connectionClosed = false := by
  rw [process] at h
  split at h
  · rename_i caller point _
    simp only [Option.map_eq_some_iff, Prod.exists] at h
    obtain ⟨s₁, next, ha, rfl⟩ := h
    apply advance_open ha
    cases next <;> cases caller <;> first | exact hs' | cases hs'
  · cases h

end Open

end State

end ServerCore.Web.HttpPeer
