import ServerCore.Web.HttpPeerTicket

/-! An open connection sleeps through no event. -/

namespace ServerCore.Web.HttpPeer

open ServerCore.Core ServerCore.Foundations HttpParser State

variable {o : HttpServerOptions} {s s' : State}

def lacksCredit (p : HttpParser) : Bool :=
  p.streaming && p.maxChunk == 0 && (p.stage == .fixedBody || p.stage == .chunkData) && p.remaining != 0

namespace State

def resolved (s : State) : Bool :=
  match s.decision with
  | none | some .pending => false
  | some _ => true

def starved (s : State) : Bool :=
  s.receivingBody && !s.input.isEmpty && s.body.any (fun b => b.available != 0) && lacksCredit s.parser

def missed (s : State) : Bool := s.resolved || s.finished && !s.receivingBody || s.starved

end State

def EventThread.announcing : EventThread → Bool
  | .releasing _ | .released | .notifying => true
  | _ => false

/-- The lock is free, no progress is asked for, and no thread is between an event and its `RequestProgress`. -/
def Resting (s : State) : Prop :=
  s.phase = .http ∧ s.holder = .free ∧ s.progressQueued = false ∧ ∀ t, (s.threads t).announcing = false

section Wake

def EventThread.freeing : EventThread → Bool
  | .releasing _ | .released => true
  | _ => false

namespace State

def Waking (s : State) : Prop := s.progressQueued = true ∨ s.starting = true ∨ ∃ t, s.threads t = .notifying

def Freeing (s : State) : Prop := ∃ t, (s.threads t).freeing = true

def news (s : State) : Bool := s.resolved || s.finished && !s.receivingBody

end State

/-- Of the body something is `known`, unless a release follows that asks for progress. -/
def Watched (s : State) (known : RequestBody → Prop) : Prop :=
  s.Waking ∨ s.awaitingCredit = true ∧ (s.Freeing ∨ ∀ b, s.body = some b → known b)

def Kept (s : State) : Prop := s.parser.maxChunk = 0 → Watched s fun b => b.available = 0

def CreditAt (s : State) : Point → Prop
  | .top | .credit => True
  | .retained => Watched s fun _ => True
  | .pieces retained => Watched s fun b => retained = b.retained
  | .measured credit | .configure credit => credit = 0 → Watched s fun b => b.available = 0
  | .handle streaming => streaming = true → s.parser.maxChunk ≠ 0
  | .parse => Kept s

def CreditBehind (s : State) : Next → Prop
  | .goes point => CreditAt s point
  | _ => Kept s

def Credit (s : State) : Prop :=
  match s.holder with
  | .processing _ point => CreditAt s point
  | _ => Kept s

structure Wakes (s : State) : Prop where
  heard : s.phase = .http → s.news = true → s.Waking ∨ ∃ caller, s.holder = .processing caller .top
  fresh : s.phase = .http → s.decision.isSome = true → s.receivingBody = true → s.parser.maxChunk ≠ 0
  credit : s.phase = .http → s.receivingBody = true → Credit s

lemma State.Waking.desk (h : s.Waking) (hd : s'.desk = s.desk) : s'.Waking := by
  simp only [State.desk, Prod.mk.injEq] at hd
  obtain ⟨hthreads, -, hstarting, hflag, -⟩ := hd
  rw [Waking, hthreads, hstarting, hflag]
  exact h

lemma State.Freeing.desk (h : s.Freeing) (hd : s'.desk = s.desk) : s'.Freeing := by
  simp only [State.desk, Prod.mk.injEq] at hd
  rw [Freeing, hd.1]
  exact h

lemma Watched.desk {known known' : RequestBody → Prop} (h : Watched s known) (hd : s'.desk = s.desk)
    (ha : s.awaitingCredit = true → s'.awaitingCredit = true)
    (hb : ∀ b, s'.body = some b → (∀ b, s.body = some b → known b) → known' b) : Watched s' known' := by
  refine h.imp (fun hw => hw.desk hd) fun ⟨hawaiting, hknown⟩ => ⟨ha hawaiting, ?_⟩
  exact hknown.imp (fun hf => hf.desk hd) fun hk b hbody => hb b hbody hk

section Pass

variable {s₁ : State} {next : Next} {caller : Caller} {point : Point}

lemma Wakes.of (heard : s₁.phase = .http → s₁.news = true → s₁.Waking ∨ next = .goes .top)
    (fresh : s₁.phase = .http → s₁.decision.isSome = true → s₁.receivingBody = true → s₁.parser.maxChunk ≠ 0)
    (credit : s₁.phase = .http → s₁.receivingBody = true → CreditBehind s₁ next) : Wakes { s₁ with holder := behind caller next } := by
  refine ⟨fun hp hn => (heard hp hn).imp id ?_, fresh, fun hp hr => ?_⟩
  · rintro rfl
    exact ⟨caller, rfl⟩
  · have hcredit := credit hp hr
    cases next with
    | goes => exact hcredit
    | _ => cases caller <;> exact hcredit

lemma State.Turned.wakes (h : Shape s) (hw : Wakes s) (ht : Turned s s₁ next) :
    Wakes { s₁ with holder := behind caller next } := by
  have ⟨_, halone, hupload, _, _, _⟩ := h
  have hfresh := hw.fresh
  cases ht with
  | drained hc | credit _ hc | parses _ hc =>
    cases hc <;> apply Wakes.of <;> simp_all [news, resolved, finished, dropBody, CreditBehind, CreditAt, Kept]
  | _ => apply Wakes.of <;> simp_all [news, resolved, finished, CreditBehind, CreditAt, Kept]

lemma State.Handles.wakes {streaming : Bool} (h : Shape s) (hw : Wakes s) (hh : s.holder = .processing caller (.handle streaming))
    (ht : Handles s streaming s₁) : Wakes { s₁ with holder := behind caller (.goes .top) } := by
  obtain ⟨hphase, hd, ha, hr⟩ := h.place _ _ hh
  have hcredit := hw.credit
  rw [Credit, hh] at hcredit
  cases ht <;> apply Wakes.of <;> simp_all [news, resolved, finished, CreditBehind, CreditAt]

lemma chunk_of_valid (h : validOptions o = true) : o.maxStreamChunkBytes ≠ 0 := by
  simp only [validOptions, Bool.and_eq_true, decide_eq_true_eq] at h
  omega

lemma State.Parsed.wakes (hv : validOptions o = true) (h : Shape s) (hw : Wakes s) (hh : s.holder = .processing caller .parse)
    (ht : Parsed o s s₁ next) : Wakes { s₁ with holder := behind caller next } := by
  obtain ⟨hphase, hd, ha⟩ := h.place _ _ hh
  have hchunk := chunk_of_valid hv
  have hcredit := hw.credit hphase
  rw [Credit, hh] at hcredit
  have hdecision (s₁ : State) (heq : s₁.decision.isSome = s.decision.isSome) (hsome : s₁.decision.isSome = true) : False := by
    rw [heq, hd] at hsome
    cases hsome
  have hnews {s₁ : State} (hn : s₁.news = true) (hd₁ : s₁.decision = s.decision) (ha₁ : s₁.active = s.active)
      (hr₁ : s.receivingBody = true → s₁.receivingBody = true) : False := by
    simp only [news, resolved, finished, hd₁, ha₁] at hn
    cases hactive : s.active <;> simp_all
  cases ht with
  | @waits result c hp hk =>
    refine .of (fun _ hn => (hnews hn rfl rfl id).elim) (fun _ hsome => (hdecision _ rfl hsome).elim) fun _ hr hzero => ?_
    exact (hcredit hr ((hp.maxChunk hk).symm.trans hzero)).desk rfl id fun b hb hknown => hknown b hb
  | failed => exact .of (by rintro ⟨⟩) (by rintro ⟨⟩) (by rintro ⟨⟩)
  | refused => exact .of (by rintro ⟨⟩) (by rintro ⟨⟩) (by rintro ⟨⟩)
  | @pushed result c bytes =>
    refine .of (fun _ _ => .inr rfl) (fun _ hsome => (hdecision _ ?_ hsome).elim) fun _ _ => trivial
    exact (push_same (s.consumed c) bytes).decision
  | begun =>
    refine .of (fun _ hn => (hnews hn rfl rfl fun _ => rfl).elim) (fun _ hsome => (hdecision _ rfl hsome).elim) fun _ _ _ => ?_
    exact hchunk
  | whole _ _ hr =>
    refine .of (fun _ hn => (hnews hn rfl rfl id).elim) (fun _ hsome => (hdecision _ rfl hsome).elim) fun _ _ => by rintro ⟨⟩
  | _ => exact .of (fun _ _ => .inr rfl) (fun _ hsome => (hdecision _ rfl hsome).elim) fun _ _ => trivial

lemma State.Advanced.wakes (hv : validOptions o = true) (h : Shape s) (hw : Wakes s) (hh : s.holder = .processing caller point)
    (ha : Advanced o s point s₁ next) : Wakes { s₁ with holder := behind caller next } := by
  have hplace := h.place _ _ hh
  have hcredit := hw.credit
  rw [Credit, hh] at hcredit
  have hof (hpoint : s.phase = .http ∧ s.decision.isSome = false ∧ s.receivingBody = true) (hp : s₁.phase = s.phase)
      (hd : s₁.decision = s.decision) (hr : s₁.receivingBody = s.receivingBody)
      (hnext : CreditBehind s₁ next) : Wakes { s₁ with holder := behind caller next } := by
    obtain ⟨_, hnone, hreceiving⟩ := hpoint
    refine .of (fun _ hn => ?_) (fun _ hsome => ?_) fun _ _ => hnext
    · simp_all [news, resolved]
    · simp [hd, hnone] at hsome
  cases ha with
  | turned ht => exact ht.wakes h hw
  | handles ht => exact ht.wakes h hw hh
  | parsed ht => exact ht.wakes hv h hw hh
  | credit => exact hof hplace rfl rfl rfl (.inr ⟨rfl, .inr fun _ _ => trivial⟩)
  | retained hb =>
    refine hof hplace rfl rfl rfl ((hcredit hplace.1 hplace.2.2).desk rfl id fun b hb' _ => ?_)
    rw [hb] at hb'
    rw [Option.some.inj hb']
  | pieces hb =>
    refine hof hplace rfl rfl rfl fun hzero => (hcredit hplace.1 hplace.2.2).desk rfl id fun b hb' hknown => ?_
    rw [hknown b hb'] at hzero
    rw [hb] at hb'
    obtain rfl := Option.some.inj hb'
    exact hzero
  | exhausted => exact hof hplace rfl rfl rfl (hcredit hplace.1 hplace.2.2)
  | measured hne => exact hof hplace rfl rfl rfl fun hzero => absurd hzero hne
  | @configured credit =>
    refine hof hplace rfl rfl rfl fun hzero => ?_
    have hchunk := chunk_of_valid hv
    have hcredit₀ : credit = 0 := by
      change min credit o.maxStreamChunkBytes = 0 at hzero
      omega
    exact (hcredit hplace.1 hplace.2.2 hcredit₀).desk rfl id fun b hb hknown => hknown b hb

end Pass

section Others

/-- A step of somebody else, or one that passes the lock on outside the loop over the input. -/
structure Aside (s s' : State) : Prop where
  view : SameView s s'
  holder : s'.holder = s.holder ∨
    (∀ caller point, s.holder ≠ .processing caller point) ∧ ∀ caller point, s'.holder ≠ .processing caller point
  waking : s.Waking → s'.Waking
  news : s'.news = true → s.news = true ∨ s'.Waking
  watched : ∀ known, Watched s known → Watched s' known

lemma Kept.aside (h : Kept s) (ha : Aside s s') : Kept s' := by
  rw [Kept, ha.view.parser]
  exact fun hzero => ha.watched _ (h hzero)

lemma CreditAt.aside {point : Point} (h : CreditAt s point) (ha : Aside s s') : CreditAt s' point := by
  cases point with
  | retained => exact ha.watched _ h
  | pieces retained => exact ha.watched _ h
  | measured credit => exact fun hzero => ha.watched _ (h hzero)
  | configure credit => exact fun hzero => ha.watched _ (h hzero)
  | handle streaming =>
    rw [CreditAt, ha.view.parser]
    exact h
  | parse => exact Kept.aside h ha
  | _ => trivial

lemma Credit.kept (hh : ∀ caller point, s.holder ≠ .processing caller point) : Credit s ↔ Kept s := by
  rw [Credit]
  split
  · rename_i caller point hholder
    exact absurd hholder (hh caller point)
  · exact Iff.rfl

lemma Credit.aside (h : Credit s) (ha : Aside s s') : Credit s' := by
  rcases ha.holder with hsame | ⟨hh, hh'⟩
  · rw [Credit] at h ⊢
    rw [hsame]
    cases hholder : s.holder <;> rw [hholder] at h
    · exact h.aside ha
    · exact h.aside ha
    · exact CreditAt.aside h ha
    · exact h.aside ha
  · rw [Credit.kept hh] at h
    rw [Credit.kept hh']
    exact h.aside ha

lemma Wakes.aside (h : Wakes s) (ha : Aside s s') : Wakes s' := by
  refine ⟨fun hp hn => ?_, ?_, fun hp hr => ?_⟩
  · rw [ha.view.phase] at hp
    rcases ha.news hn with hold | hwaking
    · refine (h.heard hp hold).imp ha.waking fun ⟨caller, hholder⟩ => ⟨caller, ?_⟩
      rcases ha.holder with hsame | ⟨hh, -⟩
      · exact hsame.trans hholder
      · exact absurd hholder (hh caller .top)
    · exact .inl hwaking
  · rw [ha.view.phase, ha.view.decision, ha.view.receivingBody, ha.view.parser]
    exact h.fresh
  · rw [ha.view.phase] at hp
    rw [ha.view.receivingBody] at hr
    exact (h.credit hp hr).aside ha

lemma Wakes.top {caller : Caller} (h : Wakes s) (hv : SameView s s') (hh : s'.holder = .processing caller .top) : Wakes s' := by
  refine ⟨fun _ _ => .inr ⟨caller, hh⟩, ?_, fun _ _ => ?_⟩
  · rw [hv.phase, hv.decision, hv.receivingBody, hv.parser]
    exact h.fresh
  · rw [Credit, hh]
    trivial

lemma State.Waking.same (h : s.Waking) (ht : s'.threads = s.threads) (hs : s'.starting = s.starting)
    (hf : s'.progressQueued = s.progressQueued) : s'.Waking := by
  rw [Waking, ht, hs, hf]
  exact h

lemma State.Waking.move {t : ℕ} {thread : EventThread} (h : s.Waking) (hne : s.threads t ≠ .notifying) :
    (s.setThread t thread).Waking := by
  refine h.imp id (.imp id fun ⟨t', ht'⟩ => ⟨t', ?_⟩)
  rw [setThread_threads, Function.update_of_ne]
  · exact ht'
  · rintro rfl
    exact hne ht'

lemma Aside.announced (hv : SameView s s') (hh : s'.holder = s.holder) (h : s'.Waking) : Aside s s' :=
  ⟨hv, .inl hh, fun _ => h, fun _ => .inr h, fun _ _ => .inl h⟩

lemma Aside.freed (hv : SameView s s') (hh : s'.holder = s.holder) (hw : s.Waking → s'.Waking) (hn : s'.news = s.news)
    (ha : s'.awaitingCredit = s.awaitingCredit) (hf : s'.Freeing) : Aside s s' := by
  refine ⟨hv, .inl hh, hw, fun hnews => .inl (hn.symm.trans hnews), fun known h => h.imp hw fun ⟨hawaiting, _⟩ => ?_⟩
  exact ⟨ha.trans hawaiting, .inl hf⟩

lemma Aside.quiet (hv : SameView s s') (hh : s'.holder = s.holder ∨
    (∀ caller point, s.holder ≠ .processing caller point) ∧ ∀ caller point, s'.holder ≠ .processing caller point)
    (hn : s'.news = true → s.news = true) (ha : s'.awaitingCredit = s.awaitingCredit) (hb : s'.body = s.body)
    (ht : s'.threads = s.threads) (hs : s'.starting = s.starting) (hf : s'.progressQueued = s.progressQueued) : Aside s s' := by
  have hw : s.Waking → s'.Waking := fun h => h.same ht hs hf
  refine ⟨hv, hh, hw, fun hnews => .inl (hn hnews), fun known h => h.imp hw ?_⟩
  rw [ha, hb, State.Freeing, State.Freeing, ht]
  exact id

lemma freeing_update {t : ℕ} {thread : EventThread} (h : thread.freeing = true) : (s.setThread t thread).Freeing := by
  refine ⟨t, ?_⟩
  rw [setThread_threads, Function.update_self]
  exact h

lemma waking_update {t : ℕ} : (s.setThread t .notifying).Waking := by
  refine .inr (.inr ⟨t, ?_⟩)
  rw [setThread_threads, Function.update_self]

lemma threadStep_aside {t : ℕ} (hticket : Ticket s) (hstop : s.stopping = false) (hstep : s.threadStep t = some s') :
    Aside s s' := by
  obtain ⟨hv, hh⟩ := threadStep_view hstep
  rw [threadStep] at hstep
  cases ht : s.threads t with
  | idle => simp [ht] at hstep
  | releasing generation =>
    simp only [ht, Option.some.injEq] at hstep
    subst hstep
    refine .freed hv hh (fun hw => ?_) rfl rfl (freeing_update rfl)
    exact (hw.same rfl rfl rfl).move (by rw [ht]; rintro ⟨⟩)
  | released =>
    simp only [ht] at hstep
    split at hstep
    · obtain rfl := Option.some.inj hstep
      exact .announced hv hh waking_update
    · rename_i hawaiting
      obtain rfl := Option.some.inj hstep
      have hw (h : s.Waking) : (s.setThread t .idle).Waking := h.move (by rw [ht]; rintro ⟨⟩)
      exact ⟨hv, .inl hh, hw, .inl, fun known h => .inl (hw (h.resolve_right fun hk => hawaiting hk.1))⟩
  | notifying =>
    simp only [ht] at hstep
    split at hstep
    · rename_i hflag
      obtain rfl := Option.some.inj hstep
      exact .announced hv hh (.inl hflag)
    · obtain rfl := Option.some.inj hstep
      exact .announced hv hh (.inl rfl)
  | queueing =>
    simp only [ht, hstop, Bool.false_eq_true, ↓reduceIte, Option.some.injEq] at hstep
    subst hstep
    refine .announced hv hh (.inl ?_)
    by_contra hflag
    exact (hticket.clear (Bool.eq_false_iff.mpr hflag)).2.2 t ht

end Others

section Run

lemma step_wakes {event : Event} (hv : validOptions o = true) (hshape : Shape s) (hticket : Ticket s) (h : Wakes s)
    (hstep : step o s event = some s') (hs : s.connectionClosed = false) (hs' : s'.connectionClosed = false)
    (hstop : s.stopping = false) : Wakes s' := by
  cases event with
  | process choice =>
    obtain ⟨caller, point, s₁, next, hh, -, -, ha, rfl⟩ := process_advanced hstep hs hs'
    exact ha.wakes hv hshape h hh
  | receiveMore answer =>
    simp only [step] at hstep
    split at hstep
    · rename_i rest hh
      have hfree (caller : Caller) (point : Point) : s.holder ≠ .processing caller point := by simp [hh]
      obtain rfl := Option.some.inj hstep
      have hr := receiveMore_received hs'
      generalize s.receiveMore o answer rest = s' at hr ⊢
      cases hr with
      | left => exact h.aside (.quiet ⟨rfl, rfl, rfl, rfl, rfl, rfl⟩ (.inr ⟨hfree, by rintro _ _ ⟨⟩⟩) id rfl rfl rfl rfl rfl)
      | refused => exact ⟨by rintro ⟨⟩, by rintro ⟨⟩, by rintro ⟨⟩⟩
      | taken => exact h.top ⟨rfl, rfl, rfl, rfl, rfl, rfl⟩ rfl
    · cases hstep
  | checkPause =>
    simp only [step] at hstep
    split at hstep
    · rename_i rest hh
      have hfree (caller : Caller) (point : Point) : s.holder ≠ .processing caller point := by simp [hh]
      obtain rfl := Option.some.inj hstep
      rw [checkPause]
      dsimp only
      split
      · rw [pauseReceive_open (show ({ s with holder := .receiving rest } : State).connectionClosed = false from hs)]
        exact h.aside (.quiet ⟨rfl, rfl, rfl, rfl, rfl, rfl⟩ (.inr ⟨hfree, by rintro _ _ ⟨⟩⟩) id rfl rfl rfl rfl rfl)
      · exact h.aside (.quiet ⟨rfl, rfl, rfl, rfl, rfl, rfl⟩ (.inr ⟨hfree, by rintro _ _ ⟨⟩⟩) id rfl rfl rfl rfl rfl)
    · cases hstep
  | deliver =>
    simp only [step] at hstep
    split at hstep
    · rename_i bytes hh _
      obtain rfl := Option.some.inj hstep
      exact h.aside (.quiet ⟨rfl, rfl, rfl, rfl, rfl, rfl⟩ (.inr ⟨by simp [hh], by rintro _ _ ⟨⟩⟩) id rfl rfl rfl rfl rfl)
    · cases hstep
  | lockProgress =>
    obtain ⟨-, rfl⟩ := of_guard hstep
    by_cases hp : s.phase = .http
    · have hh : s.lockProgress.holder = .processing .progress .top := if_pos hp
      exact h.top ⟨rfl, rfl, rfl, rfl, rfl, rfl⟩ hh
    · exact ⟨fun hphase => absurd hphase hp, fun hphase => absurd hphase hp, fun hphase => absurd hphase hp⟩
  | closeIdleForDrain =>
    obtain ⟨-, rfl⟩ := of_guard hstep
    exact ⟨by rintro ⟨⟩, by rintro ⟨⟩, by rintro ⟨⟩⟩
  | closeConnection | disconnect =>
    obtain rfl := Option.some.inj hstep
    cases hs'
  | finishDisconnect t late =>
    obtain ⟨⟨-, -, hclosed⟩, -⟩ := of_guard hstep
    exact absurd hclosed hshape.here
  | threadStep t => exact h.aside (threadStep_aside hticket hstop hstep)
  | releasePiece t index =>
    simp only [step, Option.ite_none_right_eq_some] at hstep
    obtain ⟨hidle, hstep⟩ := hstep
    obtain ⟨hview, hholder⟩ := releasePiece_view hstep
    rw [releasePiece] at hstep
    split at hstep
    · cases hstep
    · split at hstep
      · cases hstep
      · obtain rfl := Option.some.inj hstep
        refine h.aside (.freed hview hholder (fun hw => ?_) rfl rfl (freeing_update rfl))
        exact (hw.same rfl rfl rfl).move (by rw [hidle]; rintro ⟨⟩)
  | releaseStray t =>
    obtain ⟨⟨hidle, -⟩, rfl⟩ := of_guard hstep
    refine h.aside (.freed ⟨rfl, rfl, rfl, rfl, rfl, rfl⟩ rfl (fun hw => ?_) rfl rfl (freeing_update rfl))
    exact (hw.same rfl rfl rfl).move (by rw [hidle]; rintro ⟨⟩)
  | resolve t decision =>
    obtain ⟨⟨-, hd, -⟩, rfl⟩ := of_guard hstep
    exact h.aside (.announced ⟨rfl, rfl, rfl, by simp [hd, setThread], rfl, rfl⟩ rfl waking_update)
  | finish t close =>
    obtain ⟨⟨-, ha⟩, rfl⟩ := of_guard hstep
    exact h.aside (.announced ⟨rfl, rfl, by simp [ha, setThread], rfl, rfl, rfl⟩ rfl waking_update)
  | requestProgress t =>
    obtain ⟨-, rfl⟩ := of_guard hstep
    exact h.aside (.announced ⟨rfl, rfl, rfl, rfl, rfl, rfl⟩ rfl waking_update)
  | clearRequest =>
    obtain ⟨-, rfl⟩ := of_guard hstep
    exact h.aside (.announced ⟨rfl, rfl, rfl, rfl, rfl, rfl⟩ rfl (.inr (.inl rfl)))
  | abort =>
    obtain ⟨ha, rfl⟩ := of_guard hstep
    refine h.aside (.quiet ⟨rfl, rfl, by simp [ha], rfl, rfl, rfl⟩ (.inl rfl) (fun hn => ?_) rfl rfl rfl rfl rfl)
    simpa [news, resolved, finished, ha] using hn
  | stop | drain =>
    obtain rfl := Option.some.inj hstep
    exact h.aside (.quiet ⟨rfl, rfl, rfl, rfl, rfl, rfl⟩ (.inl rfl) id rfl rfl rfl rfl rfl)
  | _ =>
    obtain ⟨-, rfl⟩ := of_guard hstep
    exact h.aside (.quiet ⟨rfl, rfl, rfl, rfl, rfl, rfl⟩ (.inl rfl) id rfl rfl rfl rfl rfl)

lemma wakes_initial (h : Initial o s) : Wakes s := by
  subst h
  exact ⟨nofun, nofun, nofun⟩

lemma step_stopping {event : Event} (hstep : step o s event = some s') (hs' : s'.stopping = false) : s.stopping = false := by
  have hdesk (hd : s'.desk = s.desk) : s.stopping = false := by
    simp only [State.desk, Prod.mk.injEq] at hd
    exact hd.2.1.symm.trans hs'
  cases event with
  | process choice => exact hdesk (process_desk hstep)
  | receiveMore answer =>
    simp only [step] at hstep
    split at hstep
    · obtain rfl := Option.some.inj hstep
      exact hdesk (receiveMore_desk s _ _)
    · cases hstep
  | checkPause =>
    simp only [step] at hstep
    split at hstep
    · obtain rfl := Option.some.inj hstep
      exact hdesk (checkPause_desk s _)
    · cases hstep
  | deliver =>
    simp only [step] at hstep
    split at hstep
    · obtain rfl := Option.some.inj hstep
      exact hs'
    · cases hstep
  | threadStep t =>
    simp only [step, threadStep] at hstep
    repeat' split at hstep
    all_goals cases hstep
    all_goals exact hs'
  | releasePiece t index =>
    simp only [step, releasePiece] at hstep
    repeat' split at hstep
    all_goals cases hstep
    exact hs'
  | stop =>
    obtain rfl := Option.some.inj hstep
    cases hs'
  | closeConnection | disconnect | drain =>
    obtain rfl := Option.some.inj hstep
    exact hs'
  | _ =>
    obtain ⟨-, rfl⟩ := of_guard hstep
    exact hs'

structure Awake (s : State) : Prop where
  ticket : Ticket s
  live : s.connectionClosed = false → s.stopping = false → Shape s ∧ Wakes s

lemma awake_of_reachable (hv : validOptions o = true) (h : Reachable (step o) (Initial o) s) : Awake s := by
  apply h.invariant
  · intro s hinit
    exact ⟨ticket_initial hinit, fun _ _ => ⟨shape_initial hinit, wakes_initial hinit⟩⟩
  · intro s event s' ⟨hticket, hlive⟩ hstep
    refine ⟨step_ticket hticket hstep, fun hs' hstop' => ?_⟩
    have hs := step_open hstep hs'
    have hstop := step_stopping hstep hstop'
    obtain ⟨hshape, hwakes⟩ := hlive hs hstop
    exact ⟨step_shape hstep hs hshape hs', step_wakes hv hshape hticket hwakes hstep hs hs' hstop⟩

end Run

lemma Resting.asleep (h : Resting s) (hs : s.starting = false) : ¬ s.Waking := by
  rintro (hflag | hstarting | ⟨t, ht⟩)
  · rw [h.2.2.1] at hflag
    cases hflag
  · rw [hs] at hstarting
    cases hstarting
  · have := h.2.2.2 t
    rw [ht] at this
    cases this

lemma Resting.settled (h : Resting s) : ¬ s.Freeing := by
  rintro ⟨t, ht⟩
  have := h.2.2.2 t
  cases hthread : s.threads t <;> simp [hthread, EventThread.announcing, EventThread.freeing] at ht this

end Wake

/-- The peer stands in the lists of the progress thread at most once. While its connection is open, it sleeps through no
decision, no end of a response and no credit, except where `RunProgress` has cleared its flag and takes the lock next. -/
theorem nothing_missed (hv : validOptions o = true) (h : Reachable (step o) (Initial o) s) : s.queue + s.batch ≤ 1 ∧
    (s.stopping = false → s.connectionClosed = false → s.starting = false → Resting s → s.missed = false) := by
  obtain ⟨hticket, hlive⟩ := awake_of_reachable hv h
  refine ⟨hticket.once, fun hstop hs hstarting hrest => ?_⟩
  obtain ⟨-, hwakes⟩ := hlive hs hstop
  have hasleep := hrest.asleep hstarting
  have ⟨hphase, hfree, _⟩ := hrest
  by_contra hmissed
  rw [Bool.not_eq_false, State.missed, Bool.or_eq_true] at hmissed
  rcases hmissed with hnews | hstarved
  · obtain hwaking | ⟨caller, hholder⟩ := hwakes.heard hphase hnews
    · exact hasleep hwaking
    · rw [hfree] at hholder
      cases hholder
  · simp only [State.starved, lacksCredit, Bool.and_eq_true, Option.any_eq_true, bne_iff_ne, beq_iff_eq] at hstarved
    obtain ⟨⟨⟨hreceiving, -⟩, b, hbody, havailable⟩, ⟨⟨-, hzero⟩, -⟩, -⟩ := hstarved
    have hcredit := hwakes.credit hphase hreceiving
    rw [Credit, hfree] at hcredit
    obtain ⟨-, hfreeing | hexhausted⟩ := (hcredit hzero).resolve_left hasleep
    · exact hrest.settled hfreeing
    · exact havailable (hexhausted b hbody)

def scarce : HttpServerOptions := { maxRequestBodyBufferBytes := 1 }

def upload : Bytes := ascii "POST / HTTP/1.1\r\nHost:a\r\nContent-Length:2\r\n\r\nab"

def uploadBegun : List Event :=
  [.startReceive upload, .deliver, .receiveMore ⟨true, true, true⟩] ++ List.replicate 17 (.process { streaming := true }) ++
    [.checkPause, .receiveMore ⟨true, true, true⟩]

theorem upload_waits_for_credit : ∃ s, run (step scarce) { parser := freshParser scarce } uploadBegun = some s ∧
    Resting s ∧ s.receivingBody = true ∧ s.input ≠ [] ∧ s.missed = false := by
  refine ⟨_, rfl, ⟨rfl, rfl, rfl, fun _ => rfl⟩, rfl, nofun, ?_⟩
  exact (nothing_missed (o := scarce) (by decide) ⟨_, rfl, uploadBegun, rfl⟩).2 rfl rfl rfl ⟨rfl, rfl, rfl, fun _ => rfl⟩

-- `RunProgress` has cleared the flag of a finished response and does not hold the lock yet.
def answered : List Event :=
  [.startReceive (ascii "GET / HTTP/1.1\r\nHost:a\r\n\r\n"), .deliver, .receiveMore ⟨true, true, true⟩] ++
    List.replicate 6 (.process {}) ++
    [.checkPause, .receiveMore ⟨true, true, true⟩, .finish 0 false, .threadStep 0, .threadStep 0, .takeBatch, .clearRequest]

def uploadAborted : List Event :=
  uploadBegun ++ [.abort, .releasePiece 0 0] ++ List.replicate 4 (.threadStep 0) ++
    [.takeBatch, .clearRequest, .lockProgress, .process {}]

lemma idle_update {threads : ℕ → EventThread} {thread : EventThread} {t t' : ℕ} (hne : t' ≠ t) (h : threads t' = .idle) :
    Function.update threads t thread t' = .idle := (Function.update_of_ne hne thread threads).trans h

lemma answered_run : ∃ s, run (step scarce) { parser := freshParser scarce } answered = some s ∧ Resting s ∧
    s.stopping = false ∧ s.connectionClosed = false ∧ s.missed = true := by
  refine ⟨_, rfl, ⟨rfl, rfl, rfl, fun t => ?_⟩, rfl, rfl, rfl⟩
  by_cases ht : t = 0
  · subst ht
    rfl
  · exact congrArg EventThread.announcing (idle_update ht (idle_update ht (idle_update ht rfl)))

lemma aborted_run : ∃ s, run (step scarce) { parser := freshParser scarce } uploadAborted = some s ∧ Resting s ∧
    s.stopping = false ∧ s.starting = false ∧ s.missed = true := by
  refine ⟨_, rfl, ⟨rfl, rfl, rfl, fun t => ?_⟩, rfl, rfl, rfl⟩
  by_cases ht : t = 0
  · subst ht
    rfl
  · exact congrArg EventThread.announcing
      (idle_update ht (idle_update ht (idle_update ht (idle_update ht (idle_update ht rfl)))))

/-- Neither a pass between its flag and its lock nor a connection that a pass has closed can be left out. -/
theorem missed_before_the_lock_or_closed :
    (¬ ∀ o s, validOptions o = true → Reachable (step o) (Initial o) s →
      s.queue + s.batch ≤ 1 ∧ (s.stopping = false → Resting s → s.missed = false)) ∧
    (¬ ∀ o s, validOptions o = true → Reachable (step o) (Initial o) s →
      s.queue + s.batch ≤ 1 ∧ (s.stopping = false → s.connectionClosed = false → Resting s → s.missed = false)) ∧
    ¬ ∀ o s, validOptions o = true → Reachable (step o) (Initial o) s →
      s.queue + s.batch ≤ 1 ∧ (s.stopping = false → s.starting = false → Resting s → s.missed = false) := by
  obtain ⟨s, hs, hrest, hstop, hopen, hmissed⟩ := answered_run
  obtain ⟨s', hs', hrest', hstop', hstarting', hmissed'⟩ := aborted_run
  refine ⟨fun hclaim => ?_, fun hclaim => ?_, fun hclaim => ?_⟩
  · have := (hclaim scarce s (by decide) ⟨_, rfl, _, hs⟩).2 hstop hrest
    rw [hmissed] at this
    cases this
  · have := (hclaim scarce s (by decide) ⟨_, rfl, _, hs⟩).2 hstop hopen hrest
    rw [hmissed] at this
    cases this
  · have := (hclaim scarce s' (by decide) ⟨_, rfl, _, hs'⟩).2 hstop' hstarting' hrest'
    rw [hmissed'] at this
    cases this

end ServerCore.Web.HttpPeer
