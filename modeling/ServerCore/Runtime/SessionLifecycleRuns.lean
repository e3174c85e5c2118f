import ServerCore.Runtime.SessionLifecycleInvariant

/-! The runs of a session: one event keeps the invariant, and what follows for its finalization. -/

namespace ServerCore.Runtime.SessionLifecycle

open ServerCore.Core ServerCore.Foundations

variable {s : Shared} {runner : Option ℕ} {i H P U N O : ℕ}

section Later

lemma Later.refl (s : Shared) : Later s s := ⟨le_rfl, id, id, fun _ => rfl, fun _ h => h⟩

lemma Later.trans {s s' s'' : Shared} (h : Later s s') (h' : Later s' s'') : Later s s'' where
  rank := h.rank.trans h'.rank
  recorded hr := h'.recorded (h.recorded hr)
  finalized hf := h'.finalized (h.finalized hf)
  openedBegun hf := (h'.openedBegun (h.finalized hf)).trans (h.openedBegun hf)
  depth hf hd := h'.depth (h.finalized hf) (h.depth hf hd)

lemma later_remember (s : Shared) (reason : Status) : Later s (s.rememberCloseReasonLocked reason) := by
  rw [Shared.rememberCloseReasonLocked]
  split_ifs
  all_goals
    refine ⟨le_rfl, fun _ => ?_, id, fun _ => rfl, fun _ h => h⟩
    simp only
    cases s.firstReason <;> simp

lemma remember_recorded (s : Shared) (reason : Status) : (s.rememberCloseReasonLocked reason).firstReason ≠ none := by
  rw [Shared.rememberCloseReasonLocked]
  split_ifs <;> cases hf : s.firstReason <;> simp

lemma later_enter {state : SessionState} (hr : s.sessionState.rank ≤ state.rank) :
    Later s { s with sessionState := state } :=
  ⟨hr, id, id, fun _ => rfl, fun _ h => h⟩

lemma later_complete (s : Shared) : Later s s.completeLifecycleNotification.2 := by
  rw [Shared.completeLifecycleNotification]
  split
  · exact ⟨le_rfl, id, id, fun _ => rfl, fun _ _ => ‹_›⟩
  · refine ⟨le_rfl, id, id, fun _ => rfl, fun _ h => ?_⟩
    simp only [h]

lemma later_hold (hf : s.finalized = false) :
    Later s { s with lifecycleNotificationDepth := s.lifecycleNotificationDepth + 1 } :=
  ⟨le_rfl, id, id, fun _ => rfl, fun h => by simp [hf] at h⟩

end Later

/-- What an event of one thread does, when `H`, `P`, `U`, `N` and `O` count the other threads. -/
structure Advanced (s : Shared) (runner : Option ℕ) (i H P U N O : ℕ) (place : Place) (s' : Shared)
    (place' : Place) : Prop where
  later : Later s s'
  placed : Placed s' runner i place'
  accounts : Accounts s' (H + place'.holds) (P + place'.claimed) (U + place'.unlists) (N + place'.notifies)
    (O + place'.observes)
  closes : s'.sessionState = .closed → s.sessionState = .closed ∨ place'.leadsToClaim = true
  leads : place.leadsToClaim = true → s'.finalized = true ∨ s'.finalizeAfterNotification = true ∨
    .finalizeOnRunner ∈ s'.jobs ∨ place'.leadsToClaim = true
  deferred : s.finalizeAfterNotification = true → s'.finalizeAfterNotification = true ∨ place'.leadsToClaim = true
  jobs : ∀ job ∈ s.jobs, job ∈ s'.jobs

abbrev Counted (s : Shared) (H P U N O : ℕ) (place : Place) : Prop :=
  Accounts s (H + place.holds) (P + place.claimed) (U + place.unlists) (N + place.notifies) (O + place.observes)

def Place.free : Place → Bool
  | .accepting | .aborting _ | .entering _ | .operating _ true | .connection _ true | .leaving .. | .authenticating _
  | .authenticated | .disconnected _ | .delivering .runner _ | .finished => true
  | _ => false

lemma Placed.of_free {place : Place} (h : place.free = true) : Placed s runner i place := by
  cases place <;> simp only [Place.free, Bool.false_eq_true] at h
  case delivering path reason =>
    cases path
    · constructor <;> simp [Place.onRunner, Place.leadsToClaim, Place.claimed, Place.notifies, Place.fallsBack,
        Place.late, Place.strays]
    · simp at h
  case operating operation active =>
    cases active
    · simp at h
    · constructor <;> simp [Place.onRunner, Place.leadsToClaim, Place.claimed, Place.notifies, Place.fallsBack,
        Place.late, Place.strays]
  case connection operation active =>
    cases active
    · simp at h
    · constructor <;> simp [Place.onRunner, Place.leadsToClaim, Place.claimed, Place.notifies, Place.fallsBack,
        Place.late, Place.strays]
  all_goals constructor <;> simp [Place.onRunner, Place.leadsToClaim, Place.claimed, Place.notifies, Place.fallsBack,
    Place.late, Place.strays]

lemma Advanced.move {place place' : Place} (h : Counted s H P U N O place) (hp : Placed s runner i place')
    (hh : place'.holds = place.holds) (hc : place'.claimed = place.claimed) (hu : place'.unlists = place.unlists)
    (hn : place'.notifies = place.notifies) (ho : place'.observes = place.observes)
    (hl : place.leadsToClaim = true → s.finalized = true ∨ place'.leadsToClaim = true) :
    Advanced s runner i H P U N O place s place' where
  later := .refl s
  placed := hp
  accounts := by rw [hh, hc, hu, hn, ho]; exact h
  closes := .inl
  leads hlead := (hl hlead).imp_right fun h => .inr (.inr h)
  deferred := .inl
  jobs _ h := h

lemma Advanced.change {place place' : Place} {s' : Shared} (hl : Later s s') (hp : Placed s' runner i place')
    (ha : Counted s' H P U N O place') (hlead : place.leadsToClaim = false)
    (hs : s'.sessionState = .closed → s.sessionState = .closed ∨ place'.leadsToClaim = true)
    (hd : s'.finalizeAfterNotification = s.finalizeAfterNotification) (hj : s'.jobs = s.jobs) :
    Advanced s runner i H P U N O place s' place' where
  later := hl
  placed := hp
  accounts := ha
  closes := hs
  leads h := by simp [hlead] at h
  deferred h := .inl (hd.trans h)
  jobs job h := hj ▸ h

-- The places in front of `CompleteLifecycleNotification`, and those that follow it.
def Place.completes : Place → Bool
  | .leaving _ true | .authenticated | .handling => true
  | _ => false

def Place.plain : Place → Bool
  | .finished | .dispatched => true
  | _ => false

lemma Advanced.complete {place next : Place} (h : Counted s H P U N O place) (hp : place.completes = true)
    (hn : next.plain = true) (hnext : next.onRunner = true → runner = some i) :
    Advanced s runner i H P U N O place (complete s next).1 (complete s next).2 := by
  have hplace : place.holds = 1 ∧ place.claimed = 0 ∧ place.unlists = 0 ∧ place.notifies = 0 ∧ place.observes = 0 ∧
      place.leadsToClaim = false := by
    cases place <;> simp only [Place.completes, Bool.false_eq_true] at hp
    case leaving operation active =>
      cases active
      · simp at hp
      · exact ⟨rfl, rfl, rfl, rfl, rfl, rfl⟩
    all_goals exact ⟨rfl, rfl, rfl, rfl, rfl, rfl⟩
  obtain ⟨hholds, hclaimed, hunlists, hnotifies, hobserves, hlead⟩ := hplace
  rw [Counted, hholds, hclaimed, hunlists, hnotifies, hobserves] at h
  have hreleased := h.release
  have hlater := later_complete s
  have hnone : next.holds = 0 ∧ next.claimed = 0 ∧ next.unlists = 0 ∧ next.notifies = 0 ∧ next.observes = 0 := by
    cases next <;> simp only [Place.plain, Bool.false_eq_true] at hn <;> exact ⟨rfl, rfl, rfl, rfl, rfl⟩
  obtain ⟨h₁, h₂, h₃, h₄, h₅⟩ := hnone
  have hstate : s.completeLifecycleNotification.2.sessionState = s.sessionState := by
    rw [Shared.completeLifecycleNotification]
    split <;> rfl
  have hjobs : s.completeLifecycleNotification.2.jobs = s.jobs := by
    rw [Shared.completeLifecycleNotification]
    split <;> rfl
  have hcomplete : SessionLifecycle.complete s next = (s.completeLifecycleNotification.2,
      if s.completeLifecycleNotification.1 then .falling else next) := rfl
  cases hagain : s.completeLifecycleNotification.1 with
  | true =>
    rw [hagain, if_pos rfl] at hcomplete
    rw [hcomplete]
    have hflag : s.finalizeAfterNotification = true := by
      rw [Shared.completeLifecycleNotification] at hagain
      split at hagain
      · exact hagain
      · simp at hagain
    have hclosed : s.sessionState = .closed := h.closed (.inr (.inl hflag))
    refine ⟨hlater, ?_, ?_, fun _ => .inl hclosed, by simp [hlead], fun _ => .inr rfl, fun job hj => hjobs ▸ hj⟩
    · constructor <;> simp [Place.onRunner, Place.leadsToClaim, Place.claimed, Place.notifies, Place.fallsBack, Place.late, Place.strays, hstate, hclosed]
    · exact hreleased
  | false =>
    rw [hagain, if_neg Bool.false_ne_true] at hcomplete
    rw [hcomplete]
    refine ⟨hlater, ?_, ?_, fun hc => .inl (hstate ▸ hc), by simp [hlead], fun hflag => .inl ?_, fun job hj => hjobs ▸ hj⟩
    · cases next <;> simp only [Place.plain, Bool.false_eq_true] at hn
      · constructor <;> simp [Place.leadsToClaim, Place.claimed, Place.notifies, Place.fallsBack, Place.late, Place.strays]
        exact hnext
      · exact .of_free rfl
    · simp only [h₁, h₂, h₃, h₄, h₅]
      exact hreleased
    · rw [Shared.completeLifecycleNotification] at hagain ⊢
      split at hagain
      · simp [hflag] at hagain
      · rw [if_neg ‹_›]
        exact hflag

section Closing

variable {reason : Status}

lemma remember_same (s : Shared) (reason : Status) :
    (s.rememberCloseReasonLocked reason).sessionState = s.sessionState ∧
      (s.rememberCloseReasonLocked reason).finalizeAfterNotification = s.finalizeAfterNotification ∧
      (s.rememberCloseReasonLocked reason).jobs = s.jobs := by
  rw [Shared.rememberCloseReasonLocked]
  split_ifs <;> exact ⟨rfl, rfl, rfl⟩

lemma remember_enter (s : Shared) (state : SessionState) (reason : Status) :
    ({ s with sessionState := state } : Shared).rememberCloseReasonLocked reason =
      { s.rememberCloseReasonLocked reason with sessionState := state } := by
  rw [Shared.rememberCloseReasonLocked, Shared.rememberCloseReasonLocked]
  split_ifs <;> rfl

lemma close_spec (h : Accounts s H P U N O) (hs : s.sessionState.ended = false) (reason : Status) :
    Later s (({ s with sessionState := .closing } : Shared).rememberCloseReasonLocked reason) ∧
      Accounts (({ s with sessionState := .closing } : Shared).rememberCloseReasonLocked reason) H P U N O := by
  obtain ⟨hstate, -, -⟩ := remember_same s reason
  have hrank : (s.rememberCloseReasonLocked reason).sessionState.rank ≤ SessionState.closing.rank := by
    rw [hstate]
    cases hc : s.sessionState <;> simp [hc, SessionState.ended] at hs <;> simp [SessionState.rank]
  rw [remember_enter]
  exact ⟨(later_remember s reason).trans (later_enter hrank),
    (h.remember reason).enter hrank fun _ => remember_recorded s reason⟩

lemma disconnected_spec (h : Accounts s H P U N O) (reason : Status) :
    Later s (s.onDisconnected reason) ∧ Accounts (s.onDisconnected reason) H P U N O := by
  have hrank : (s.rememberCloseReasonLocked reason).sessionState.rank ≤ SessionState.closed.rank := by
    cases (s.rememberCloseReasonLocked reason).sessionState <;> simp [SessionState.rank]
  exact ⟨(later_remember s reason).trans (later_enter hrank),
    (h.remember reason).enter hrank fun _ => remember_recorded s reason⟩

end Closing

section Events

variable {c : Choice} {active : Bool}

lemma operate_spec {operation : Operation} (h : Counted s H P U N O (.operating operation active))
    (hp : Placed s runner i (.operating operation active)) :
    Advanced s runner i H P U N O (.operating operation active) (operate s c active operation).1
      (operate s c active operation).2 := by
  have hlate (hopen : s.sessionState ≠ .closed) : active = true := by
    cases active with
    | true => rfl
    | false => exact absurd (h.closed (.inl (hp.late rfl))) hopen
  have hplaces (s' : Shared) (b : Bool) (hb : b = true → active = true) (hl : Later s s') (ha : Counted s' H P U N O (.operating operation active))
      (hs : s'.sessionState = .closed → s.sessionState = .closed)
      (hd : s'.finalizeAfterNotification = s.finalizeAfterNotification) (hj : s'.jobs = s.jobs) :
      Advanced s runner i H P U N O (.operating operation active) s'
        (if b then .connection operation active else .leaving operation active) := by
    cases b with
    | true =>
      obtain rfl := hb rfl
      exact .change hl (.of_free rfl) ha rfl (fun hc => .inl (hs hc)) hd hj
    | false =>
      refine .change hl (.of_free rfl) ?_ rfl (fun hc => .inl (hs hc)) hd hj
      cases active <;> exact ha
  have hgraceful (reason : Status) : Advanced s runner i H P U N O (.operating operation active)
      (s.beginGracefulCloseLocked reason).2
      (if (s.beginGracefulCloseLocked reason).1 then .connection operation active else .leaving operation active) := by
    by_cases hs : s.sessionState.ended = true
    · rw [show s.beginGracefulCloseLocked reason = (false, s) from if_pos hs]
      exact hplaces s false nofun (.refl s) h id rfl rfl
    · rw [show s.beginGracefulCloseLocked reason = (true, _) from if_neg hs]
      obtain ⟨hl, ha⟩ := close_spec h (by simpa using hs) reason
      obtain ⟨hstate, hd, hj⟩ := remember_same ({ s with sessionState := .closing } : Shared) reason
      have hopen : s.sessionState ≠ .closed := by
        intro hc
        simp [hc, SessionState.ended] at hs
      exact hplaces _ true (fun _ => hlate hopen) hl ha (fun hc => by rw [hstate] at hc; simp at hc) hd hj
  cases operation with
  | send =>
    refine hplaces s (s.canSendLocked && c.flag) (fun hb => hlate fun hc => ?_) (.refl s) h id rfl rfl
    simp [Shared.canSendLocked, hc, SessionState.ended] at hb
  | sendAndDisconnect reason =>
    by_cases hflag : (!c.flag) = true
    · rw [show operate s c active (.sendAndDisconnect reason) = (s, .leaving (.sendAndDisconnect reason) active) from
        if_pos hflag]
      exact hplaces s false nofun (.refl s) h id rfl rfl
    · rw [operate, if_neg hflag]
      exact hgraceful reason
  | drainSends => exact hgraceful _
  | disconnect reason =>
    rw [operate]
    by_cases hclosed : s.sessionState = .closed
    · rw [show s.disconnectLocked reason = (false, s) from if_pos hclosed]
      exact hplaces s false nofun (.refl s) h id rfl rfl
    by_cases hclosing : s.sessionState = .closing
    · rw [show s.disconnectLocked reason = (true, s) by rw [Shared.disconnectLocked, if_neg hclosed, if_pos hclosing]]
      exact hplaces s true (fun _ => hlate hclosed) (.refl s) h id rfl rfl
    · rw [show s.disconnectLocked reason = (true, _) by rw [Shared.disconnectLocked, if_neg hclosed, if_neg hclosing]]
      have hs : s.sessionState.ended = false := by simp [SessionState.ended, hclosed, hclosing]
      obtain ⟨hl, ha⟩ := close_spec h hs reason
      obtain ⟨hstate, hd, hj⟩ := remember_same ({ s with sessionState := .closing } : Shared) reason
      exact hplaces _ true (fun _ => hlate hclosed) hl ha (fun hc => by rw [hstate] at hc; simp at hc) hd hj

lemma openPlace_spec (h : Counted s H P U N O .opening) (hp : Placed s runner i .opening) :
    Advanced s runner i H P U N O .opening (openPlace s c).1 (openPlace s c).2 := by
  have hrunner : runner = some i := hp.onRunner rfl
  have hdisconnect (operation : Operation) (heq : openPlace s c = (s, .entering operation)) :
      Advanced s runner i H P U N O .opening (openPlace s c).1 (openPlace s c).2 := by
    rw [heq]
    exact .move h (.of_free rfl) rfl rfl rfl rfl rfl nofun
  by_cases hf : s.finalized = true
  · rw [show openPlace s c = (s, .finished) by rw [openPlace, Shared.openOnRunner, if_pos hf]]
    exact .move h (.of_free rfl) rfl rfl rfl rfl rfl nofun
  by_cases hclosed : s.sessionState = .closed
  · rw [show openPlace s c = (s, .finalizing) by rw [openPlace, Shared.openOnRunner, if_neg hf, if_pos hclosed]]
    refine .move h ?_ rfl rfl rfl rfl rfl nofun
    constructor <;> simp [Place.claimed, Place.notifies, Place.fallsBack, Place.late, Place.strays, hclosed, hrunner]
  by_cases hreject : (!s.accepting || decide (s.sessionState = .closing)) = true
  · exact hdisconnect (.disconnect (if c.flag then stoppedAccepting else .failWithoutMessage .platformError))
      (by rw [openPlace, Shared.openOnRunner, if_neg hf, if_neg hclosed, if_pos hreject])
  by_cases htoken : c.status.code ≠ .ok
  · exact hdisconnect (.disconnect c.status)
      (by rw [openPlace, Shared.openOnRunner, if_neg hf, if_neg hclosed, if_neg hreject, if_pos htoken])
  have hf' : s.finalized = false := by simpa using hf
  have hregistry := h.registry
  rw [if_neg (by simp [hf'])] at hregistry
  cases hb : s.openedBegun with
  | true =>
    rw [hb] at hregistry
    refine hdisconnect (.disconnect s.registry.register.1) ?_
    rw [openPlace, Shared.openOnRunner, if_neg hf, if_neg hclosed, if_neg hreject, if_neg htoken, hregistry]
    rfl
  | false =>
    rw [hb] at hregistry
    rw [show openPlace s c = (_, .observing) by
      simp only [openPlace, Shared.openOnRunner, if_neg hf, if_neg hclosed, if_neg hreject, if_neg htoken, hregistry,
        Registry.register, Bool.not_false, Bool.not_true, Bool.false_eq_true, ↓reduceIte]; rfl]
    refine .change ⟨le_rfl, id, id, fun hfin => by simp [hf'] at hfin, fun hfin => by simp [hf'] at hfin⟩ ?_
      (h.opening hf' hb) rfl .inl rfl rfl
    constructor <;> simp [Place.leadsToClaim, Place.claimed, Place.notifies, Place.fallsBack, Place.late, Place.strays, hrunner]

lemma claim_spec {path : Path} {place : Place} (h : Counted s H P U N O place) (hf : s.finalized = false)
    (hplace : place.holds = 0 ∧ place.claimed = 0 ∧ place.unlists = 0 ∧ place.notifies = 0 ∧ place.observes = 0)
    (hO : O = 0) (hc : s.sessionState = .closed) (hfall : path = .fallback → s.lifecycleNotificationDepth = 0) :
    Advanced s runner i H P U N O place s.claim (.unlisting path s.registered s.opened) := by
  obtain ⟨h₁, h₂, h₃, h₄, h₅⟩ := hplace
  rw [Counted, h₁, h₂, h₃, h₄, h₅] at h
  have hregistered : s.registered = s.openedBegun := by rw [h.registered, hf, Bool.not_false, Bool.and_true]
  have hopened : s.opened = s.openedBegun := by rw [h.opened, hf, Bool.not_false, Bool.and_true]
  refine ⟨⟨le_rfl, id, fun _ => rfl, fun _ => rfl, fun _ h => h⟩, ?_, h.claim hf hO hc, .inl, fun _ => .inl rfl, .inl,
    fun _ h => h⟩
  constructor
  · exact nofun
  · exact nofun
  · exact nofun
  · rintro path' registered opened ⟨⟩
    exact ⟨hregistered, hopened⟩
  · exact nofun
  · exact fun _ => rfl
  · intro hfalls
    cases path with
    | runner => simp [Place.fallsBack] at hfalls
    | fallback => exact ⟨rfl, hfall rfl⟩
  · exact nofun
  · rfl

lemma Advanced.before {s₁ s' : Shared} {place place₁ place' : Place} (h : Advanced s₁ runner i H P U N O place₁ s' place')
    (hl : Later s s₁) (hs : s₁.sessionState = s.sessionState) (hd : s₁.finalizeAfterNotification = s.finalizeAfterNotification)
    (hj : s₁.jobs = s.jobs) (hlead : place.leadsToClaim = false) : Advanced s runner i H P U N O place s' place' where
  later := hl.trans h.later
  placed := h.placed
  accounts := h.accounts
  closes hc := hs ▸ h.closes hc
  leads hp := by simp [hlead] at hp
  deferred hf := h.deferred (hd.trans hf)
  jobs job hm := h.jobs job (hj ▸ hm)

lemma advance_spec {place place' : Place} {s' : Shared} (h : Counted s H P U N O place) (hp : Placed s runner i place)
    (hUP : U ≤ P) (hOH : O ≤ H) (hO : place = .finalizing → O = 0) (ha : advance s c place = some (s', place')) :
    Advanced s runner i H P U N O place s' place' := by
  cases place with
  | accepting =>
    rw [advance] at ha
    split_ifs at ha
    · obtain ⟨rfl, rfl⟩ := of_some_pair ha
      refine ⟨⟨le_rfl, id, id, fun _ => rfl, fun _ h => h⟩, .of_free rfl, h.post (by rintro ⟨⟩), .inl, by rintro ⟨⟩, .inl, ?_⟩
      exact fun job hj => List.mem_append_left _ hj
    · obtain ⟨rfl, rfl⟩ := of_some_pair ha
      exact .move h (.of_free rfl) rfl rfl rfl rfl rfl (by rintro ⟨⟩)
  | aborting reason =>
    obtain ⟨rfl, rfl⟩ := of_some_pair ha
    obtain ⟨hstate, hd, hj⟩ := remember_same s reason
    refine .change (later_remember s reason) ?_ (h.remember reason) rfl (fun hc => .inl (hstate ▸ hc)) hd hj
    constructor <;> simp [Place.onRunner, Place.leadsToClaim, Place.claimed, Place.notifies, Place.fallsBack, Place.late, Place.strays,
      remember_recorded]
  | abandoning =>
    obtain ⟨rfl, rfl⟩ := of_some_pair ha
    have hrank : s.sessionState.rank ≤ SessionState.closed.rank := by cases s.sessionState <;> simp [SessionState.rank]
    refine .change (later_enter hrank) ?_ (h.enter hrank fun _ => hp.recorded rfl) rfl (fun _ => .inr rfl) rfl rfl
    constructor <;> simp [Place.onRunner, Place.claimed, Place.notifies, Place.fallsBack, Place.late, Place.strays]
  | entering operation =>
    rw [advance] at ha
    by_cases hf : s.finalized = true
    · rw [show s.beginFinalizationDeferral = (false, s) from if_pos hf] at ha
      obtain ⟨rfl, rfl⟩ := of_some_pair ha
      refine .move h ?_ rfl rfl rfl rfl rfl (by rintro ⟨⟩)
      constructor <;> simp [Place.onRunner, Place.leadsToClaim, Place.claimed, Place.notifies, Place.fallsBack,
        Place.strays, hf]
    · rw [show s.beginFinalizationDeferral = (true, _) from if_neg hf] at ha
      obtain ⟨rfl, rfl⟩ := of_some_pair ha
      exact .change (later_hold (by simpa using hf)) (.of_free rfl) h.hold rfl .inl rfl rfl
  | operating operation active =>
    obtain ⟨rfl, rfl⟩ := of_some_pair ha
    exact operate_spec h hp
  | connection operation active =>
    obtain ⟨rfl, rfl⟩ := of_some_pair ha
    cases active <;> exact .move h (.of_free rfl) rfl rfl rfl rfl rfl (by rintro ⟨⟩)
  | leaving operation active =>
    cases active with
    | true =>
      obtain ⟨rfl, rfl⟩ := of_some_pair ha
      exact .complete h rfl rfl (by rintro ⟨⟩)
    | false =>
      obtain ⟨rfl, rfl⟩ := of_some_pair ha
      exact .move h (.of_free rfl) rfl rfl rfl rfl rfl (by rintro ⟨⟩)
  | authenticating timedOut =>
    rw [advance] at ha
    by_cases htime : (decide (s.sessionState = .connected) && timedOut) = true
    · rw [if_pos htime] at ha
      obtain ⟨rfl, rfl⟩ := of_some_pair ha
      exact .move h (.of_free rfl) rfl rfl rfl rfl rfl (by rintro ⟨⟩)
    rw [if_neg htime] at ha
    by_cases hmark : (s.finalized || decide (s.sessionState = .authenticated) || s.sessionState.ended) = true
    · rw [show s.markAuthenticated = (false, s) from if_pos hmark] at ha
      obtain ⟨rfl, rfl⟩ := of_some_pair ha
      exact .move h (.of_free rfl) rfl rfl rfl rfl rfl (by rintro ⟨⟩)
    · rw [show s.markAuthenticated = (true, _) from if_neg hmark] at ha
      obtain ⟨rfl, rfl⟩ := of_some_pair ha
      simp only [Bool.or_eq_true, decide_eq_true_eq, not_or, Bool.not_eq_true] at hmark
      obtain ⟨⟨hf, hauth⟩, hended⟩ := hmark
      have hrank : s.sessionState.rank ≤ SessionState.authenticated.rank := by
        cases hs : s.sessionState <;> simp [hs, SessionState.ended] at hauth hended <;> simp [SessionState.rank]
      refine .change ((later_enter hrank).trans (later_hold hf)) (.of_free rfl) (h.enter hrank (by rintro ⟨⟩)).hold rfl (by rintro ⟨⟩) rfl rfl
  | authenticated =>
    obtain ⟨rfl, rfl⟩ := of_some_pair ha
    exact .complete h rfl rfl (by rintro ⟨⟩)
  | disconnected reason =>
    obtain ⟨rfl, rfl⟩ := of_some_pair ha
    obtain ⟨hl, ha⟩ := disconnected_spec h reason
    obtain ⟨-, hd, hj⟩ := remember_same s reason
    refine .change hl ?_ ha rfl (fun _ => .inr rfl) hd hj
    constructor <;> simp [Place.onRunner, Place.claimed, Place.notifies, Place.fallsBack, Place.late, Place.strays, Shared.onDisconnected]
  | posting =>
    have hclosed := hp.closed rfl
    rw [advance] at ha
    split_ifs at ha with hf
    · obtain ⟨rfl, rfl⟩ := of_some_pair ha
      exact .move h (.of_free rfl) rfl rfl rfl rfl rfl fun _ => .inl hf
    · obtain ⟨rfl, rfl⟩ := of_some_pair ha
      refine ⟨⟨le_rfl, id, id, fun _ => rfl, fun _ h => h⟩, .of_free rfl, h.post fun _ => hclosed, .inl,
        fun _ => .inr (.inr (.inl ?_)), .inl, fun job hj => List.mem_append_left _ hj⟩
      exact List.mem_append_right _ (List.mem_singleton_self _)
    · obtain ⟨rfl, rfl⟩ := of_some_pair ha
      refine .move h ?_ rfl rfl rfl rfl rfl fun _ => .inr rfl
      constructor <;> simp [Place.onRunner, Place.claimed, Place.notifies, Place.fallsBack, Place.late, Place.strays, hclosed]
  | opening =>
    obtain ⟨rfl, rfl⟩ := of_some_pair ha
    exact openPlace_spec h hp
  | observing =>
    obtain ⟨rfl, rfl⟩ := of_some_pair ha
    have hc : Counted { s with openedReturned := true } H P U N O .authenticated := Accounts.returned h
    exact (Advanced.complete hc rfl rfl (fun hr => by simp [Place.onRunner] at hr)).before ⟨le_rfl, id, id, fun _ => rfl, fun _ h => h⟩ rfl rfl rfl rfl
  | dispatching =>
    rw [advance] at ha
    split_ifs at ha
    · obtain ⟨rfl, rfl⟩ := of_some_pair ha
      exact .move h (.of_free rfl) rfl rfl rfl rfl rfl (by rintro ⟨⟩)
    by_cases hbegin : (s.finalized || s.sessionState.ended) = true
    · rw [show s.beginMessageDispatch = (false, s) from if_pos hbegin] at ha
      obtain ⟨rfl, rfl⟩ := of_some_pair ha
      exact .move h (.of_free rfl) rfl rfl rfl rfl rfl (by rintro ⟨⟩)
    · rw [show s.beginMessageDispatch = (true, _) from if_neg hbegin] at ha
      obtain ⟨rfl, rfl⟩ := of_some_pair ha
      simp only [Bool.or_eq_true, not_or, Bool.not_eq_true] at hbegin
      refine .change (later_hold hbegin.1) ?_ h.hold rfl .inl rfl rfl
      constructor <;> simp [Place.leadsToClaim, Place.claimed, Place.notifies, Place.fallsBack, Place.late, Place.strays, hp.onRunner rfl]
  | handling =>
    obtain ⟨rfl, rfl⟩ := of_some_pair ha
    exact .complete h rfl rfl fun _ => hp.onRunner rfl
  | dispatched =>
    obtain ⟨rfl, rfl⟩ := of_some_pair ha
    split_ifs
    · exact .move h (.of_free rfl) rfl rfl rfl rfl rfl (by rintro ⟨⟩)
    · refine .move h ?_ rfl rfl rfl rfl rfl (by rintro ⟨⟩)
      constructor <;> simp [Place.leadsToClaim, Place.claimed, Place.notifies, Place.fallsBack, Place.late, Place.strays, hp.onRunner rfl]
  | finalizing =>
    rw [advance] at ha
    split_ifs at ha with hf
    · obtain ⟨rfl, rfl⟩ := of_some_pair ha
      exact .move h (.of_free rfl) rfl rfl rfl rfl rfl fun _ => .inl hf
    · obtain ⟨rfl, rfl⟩ := of_some_pair ha
      exact claim_spec h (by simpa using hf) ⟨rfl, rfl, rfl, rfl, rfl⟩ (hO rfl) (hp.closed rfl) (by rintro ⟨⟩)
  | falling =>
    have hclosed := hp.closed rfl
    rw [advance] at ha
    split_ifs at ha with hd hf
    · obtain ⟨rfl, rfl⟩ := of_some_pair ha
      refine ⟨⟨le_rfl, id, id, fun _ => rfl, fun _ h => h⟩, .of_free rfl, h.deferFinalization hd hclosed, .inl,
        fun _ => .inr (.inl rfl), fun _ => .inl rfl, fun _ h => h⟩
    · obtain ⟨rfl, rfl⟩ := of_some_pair ha
      exact .move h (.of_free rfl) rfl rfl rfl rfl rfl fun _ => .inl hf
    · obtain ⟨rfl, rfl⟩ := of_some_pair ha
      have hzero : s.lifecycleNotificationDepth = 0 := by simpa using hd
      have hH : H = 0 := h.depth.symm.trans hzero
      exact claim_spec h (by simpa using hf) ⟨rfl, rfl, rfl, rfl, rfl⟩ (by omega) hclosed fun _ => hzero
  | unlisting path registered opened =>
    obtain ⟨rfl, rfl⟩ := of_some_pair ha
    obtain ⟨rfl, rfl⟩ := hp.unlisting path registered opened rfl
    have hf := hp.claimed (.inl rfl)
    have hreturns := h.returns
    have hle := Bool.toNat_le s.finalized
    simp only [Place.claimed] at hreturns
    have hU : U = 0 := by omega
    have hun := Accounts.unlist h hf hU
    have hkeep : ∀ s', s' = (if s.openedBegun then { s with registry := s.registry.unregister } else s.discardUnregisteredId) →
        Later s s' ∧ s'.sessionState = s.sessionState ∧ s'.finalizeAfterNotification = s.finalizeAfterNotification ∧
          s'.jobs = s.jobs ∧ s'.openedBegun = s.openedBegun := by
      rintro s' rfl
      rw [Shared.discardUnregisteredId]
      split_ifs <;> exact ⟨⟨le_rfl, id, id, fun _ => rfl, fun _ h => h⟩, rfl, rfl, rfl, rfl⟩
    obtain ⟨hl, hstate, hd, hj, hb⟩ := hkeep _ rfl
    refine .change hl ?_ hun rfl (fun hc => .inl (hstate ▸ hc)) hd hj
    exact
      { onRunner := by rintro ⟨⟩
        closed := by rintro ⟨⟩
        recorded := by rintro ⟨⟩
        unlisting := by rintro _ _ _ ⟨⟩
        late := by rintro ⟨⟩
        strays := rfl
        finishing := by
          rintro path' opened ⟨⟩
          exact hb.symm
        claimed := fun _ => hl.finalized hf
        fallsBack := fun hfall => by
          have : (Place.unlisting path s.openedBegun s.openedBegun).fallsBack = true := by cases path <;> exact hfall
          obtain ⟨hfin, hdepth⟩ := hp.fallsBack this
          exact ⟨hl.finalized hfin, hl.depth hfin hdepth⟩ }
  | finishing path opened =>
    obtain ⟨rfl, rfl⟩ := of_some_pair ha
    obtain rfl := hp.finishing path opened rfl
    have hf := hp.claimed (.inl rfl)
    have hfin := Accounts.finish h
    have hl : Later s s.finishNetworkSession := ⟨le_rfl, id, id, fun _ => rfl, fun _ h => h⟩
    cases hb : s.openedBegun with
    | true =>
      rw [hb] at hfin
      refine .change hl ?_ hfin rfl .inl rfl rfl
      exact
        { onRunner := by rintro ⟨⟩
          closed := by rintro ⟨⟩
          recorded := by rintro ⟨⟩
          unlisting := by rintro _ _ _ ⟨⟩
          late := by rintro ⟨⟩
          strays := rfl
          finishing := by rintro _ _ ⟨⟩
          claimed := fun _ => hf
          fallsBack := fun hfall => by
            have : (Place.finishing path s.openedBegun).fallsBack = true := by cases path <;> exact hfall
            exact hp.fallsBack this }
    | false =>
      rw [hb] at hfin
      exact .change hl (.of_free rfl) hfin rfl .inl rfl rfl
  | notifying path =>
    obtain ⟨rfl, rfl⟩ := of_some_pair ha
    have hf := hp.claimed (.inr rfl)
    have hnotify := Accounts.notify h (h.closed (.inl hf))
    have hkeep : ∀ s', s' = s.takeCloseReason.2 →
        Later s s' ∧ s'.sessionState = s.sessionState ∧ s'.finalizeAfterNotification = s.finalizeAfterNotification ∧
          s'.jobs = s.jobs ∧ s'.finalized = s.finalized ∧ s'.lifecycleNotificationDepth = s.lifecycleNotificationDepth := by
      rintro s' rfl
      rw [Shared.takeCloseReason]
      split_ifs <;> exact ⟨⟨le_rfl, id, id, fun _ => rfl, fun _ h => h⟩, rfl, rfl, rfl, rfl, rfl⟩
    obtain ⟨hl, hstate, hd, hj, hfin, hdepth⟩ := hkeep _ rfl
    refine .change ⟨hl.rank, hl.recorded, hl.finalized, hl.openedBegun, hl.depth⟩ ?_ hnotify rfl
      (fun hc => .inl (hstate ▸ hc)) hd hj
    exact
      { onRunner := by rintro ⟨⟩
        closed := by rintro ⟨⟩
        recorded := by rintro ⟨⟩
        unlisting := by rintro _ _ _ ⟨⟩
        late := by rintro ⟨⟩
        strays := rfl
        finishing := by rintro _ _ ⟨⟩
        claimed := by rintro (⟨⟨⟩⟩ | ⟨⟨⟩⟩)
        fallsBack := fun hfall => by
          have : (Place.notifying path).fallsBack = true := by cases path <;> exact hfall
          obtain ⟨h₁, h₂⟩ := hp.fallsBack this
          exact ⟨hfin.trans h₁, hdepth.trans h₂⟩ }
  | delivering path reason =>
    obtain ⟨rfl, rfl⟩ := of_some_pair ha
    exact .move h (.of_free rfl) rfl rfl rfl rfl rfl (by rintro ⟨⟩)
  | finished => simp [advance] at ha

end Events

section Runs

variable {s : State}

lemma total_le {f g : Place → ℕ} (h : ∀ place, f place ≤ g place) (t : Table Place) : t.total f ≤ t.total g :=
  Finset.sum_le_sum fun i _ => h (t.row i)

lemma observes_le_holds (place : Place) : place.observes ≤ place.holds := by
  cases place <;> simp [Place.observes, Place.holds]

lemma row_of_total {t : Table Place} {f : Place → ℕ} (h : t.total f ≠ 0) : ∃ i < t.count, f (t.row i) ≠ 0 := by
  by_contra hnone
  push Not at hnone
  exact h (Finset.sum_eq_zero fun i hi => hnone i (Finset.mem_range.mp hi))

lemma inv_advance (h : Inv s) {i : ℕ} (hi : i < s.threads.count) {c : Choice} {shared : Shared} {place : Place}
    (ha : advance s.shared c (s.threads.row i) = some (shared, place)) :
    Inv { s with shared, threads := s.threads.set i place } ∧ Later s.shared shared := by
  have hsplit (f : Place → ℕ) : s.threads.total f = s.threads.total f - f (s.threads.row i) + f (s.threads.row i) ∧
      (s.threads.set i place).total f = s.threads.total f - f (s.threads.row i) + f place := by
    have hle := Table.le_total hi f
    have hset := Table.total_set hi place f
    omega
  have hrest {f g : Place → ℕ} (hfg : ∀ p, f p ≤ g p) (hf : f .finished = 0) (hg : g .finished = 0) :
      s.threads.total f - f (s.threads.row i) ≤ s.threads.total g - g (s.threads.row i) := by
    have h₁ := total_le hfg (s.threads.set i .finished)
    have h₂ := Table.total_set hi .finished f
    have h₃ := Table.total_set hi .finished g
    omega
  have hcounted := h.accounts
  rw [(hsplit Place.holds).1, (hsplit Place.claimed).1, (hsplit Place.unlists).1, (hsplit Place.notifies).1,
    (hsplit Place.observes).1] at hcounted
  have hadv := advance_spec hcounted (h.placed i hi) (hrest Place.unlists_le_claimed rfl rfl)
    (hrest observes_le_holds rfl rfl) ?_ ha
  · refine ⟨⟨?_, ?_, h.runner, ?_⟩, hadv.later⟩
    · simp only
      rw [(hsplit Place.holds).2, (hsplit Place.claimed).2, (hsplit Place.unlists).2, (hsplit Place.notifies).2,
        (hsplit Place.observes).2]
      exact hadv.accounts
    · intro j hj
      simp only [Table.set_count] at hj
      rcases eq_or_ne j i with rfl | hne
      · simp only [Table.set_row_self]
        exact hadv.placed
      · simp only [Table.set_row_ne _ _ hne]
        exact (h.placed j hj).later hadv.later
    · intro hclosed
      have hself : place.leadsToClaim = true → ∃ j < s.threads.count, ((s.threads.set i place).row j).leadsToClaim = true :=
        fun hl => ⟨i, hi, by rwa [Table.set_row_self]⟩
      rcases hadv.closes hclosed with hold | hl
      · rcases h.pending hold with hf | hd | hj | ⟨j, hj, hl⟩
        · exact .inl (hadv.later.finalized hf)
        · rcases hadv.deferred hd with hd' | hl
          · exact .inr (.inl hd')
          · exact .inr (.inr (.inr (hself hl)))
        · exact .inr (.inr (.inl (hadv.jobs _ hj)))
        · rcases eq_or_ne j i with rfl | hne
          · rcases hadv.leads hl with hf | hd | hm | hl'
            · exact .inl hf
            · exact .inr (.inl hd)
            · exact .inr (.inr (.inl hm))
            · exact .inr (.inr (.inr (hself hl')))
          · exact .inr (.inr (.inr ⟨j, hj, by rwa [Table.set_row_ne _ _ hne]⟩))
      · exact .inr (.inr (.inr (hself hl)))
  · -- the runner executes one job at a time
    intro hfinal
    by_contra hne
    have htotal : s.threads.total Place.observes ≠ 0 := by
      rw [(hsplit Place.observes).1]
      omega
    obtain ⟨j, hj, hobs⟩ := row_of_total htotal
    have hrow : s.threads.row j = .observing := by
      cases hr : s.threads.row j <;> simp [hr, Place.observes] at hobs ⊢
    have h₁ := (h.placed j hj).onRunner (by rw [hrow]; rfl)
    have h₂ := (h.placed i hi).onRunner (by rw [hfinal]; rfl)
    obtain rfl := Option.some.inj (h₁.symm.trans h₂)
    simp [hfinal] at hrow

lemma inv_push (h : Inv s) {shared : Shared} {place : Place} {runner : Option ℕ} (hl : Later s.shared shared)
    (ha : ∀ H P U N O, Accounts s.shared H P U N O → Accounts shared H P U N O)
    (hplace : place.holds = 0 ∧ place.claimed = 0 ∧ place.unlists = 0 ∧ place.notifies = 0 ∧ place.observes = 0)
    (hp : Placed shared runner s.threads.count place)
    (hr : runner = s.runner ∨ s.runner = none ∧ runner = some s.threads.count)
    (hstate : shared.sessionState = s.shared.sessionState)
    (hd : shared.finalizeAfterNotification = s.shared.finalizeAfterNotification)
    (hj : .finalizeOnRunner ∈ s.shared.jobs → .finalizeOnRunner ∈ shared.jobs ∨ place.leadsToClaim = true) :
    Inv ⟨shared, s.threads.push place, runner⟩ := by
  obtain ⟨h₁, h₂, h₃, h₄, h₅⟩ := hplace
  have hrow {j : ℕ} (hlt : j < s.threads.count) : (s.threads.push place).row j = s.threads.row j := by
    rw [Table.push_row, if_neg (by omega)]
  have hlast : (s.threads.push place).row s.threads.count = place := by rw [Table.push_row, if_pos rfl]
  refine ⟨?_, ?_, ?_, ?_⟩
  · simp only [Table.total_push, h₁, h₂, h₃, h₄, h₅, Nat.add_zero]
    exact ha _ _ _ _ _ h.accounts
  · intro j hlt
    simp only [Table.push_count] at hlt
    rcases Nat.lt_succ_iff_lt_or_eq.mp hlt with hlt' | rfl
    · simp only [hrow hlt']
      have hold := (h.placed j hlt').later hl
      refine { hold with onRunner := fun hon => ?_ }
      have hsome := hold.onRunner hon
      rcases hr with rfl | ⟨hnone, -⟩
      · exact hsome
      · simp [hnone] at hsome
    · simp only [hlast]
      exact hp
  · intro j hrun
    simp only [Table.push_count]
    rcases hr with rfl | ⟨-, rfl⟩
    · exact Nat.lt_succ_of_lt (h.runner j hrun)
    · obtain rfl := Option.some.inj hrun
      exact Nat.lt_succ_self _
  · intro hclosed
    rcases h.pending (hstate ▸ hclosed) with hf | hfl | hm | ⟨j, hlt, hlead⟩
    · exact .inl (hl.finalized hf)
    · exact .inr (.inl (hd.trans hfl))
    · rcases hj hm with hm' | hlead
      · exact .inr (.inr (.inl hm'))
      · exact .inr (.inr (.inr ⟨s.threads.count, Nat.lt_succ_self _, by rwa [hlast]⟩))
    · exact .inr (.inr (.inr ⟨j, Nat.lt_succ_of_lt hlt, by rwa [hrow hlt]⟩))

lemma inv_shared (h : Inv s) {shared : Shared} (hl : Later s.shared shared)
    (ha : ∀ H P U N O, Accounts s.shared H P U N O → Accounts shared H P U N O)
    (hstate : shared.sessionState = s.shared.sessionState)
    (hd : shared.finalizeAfterNotification = s.shared.finalizeAfterNotification)
    (hj : .finalizeOnRunner ∈ s.shared.jobs → .finalizeOnRunner ∈ shared.jobs) : Inv { s with shared } := by
  refine ⟨ha _ _ _ _ _ h.accounts, fun j hlt => (h.placed j hlt).later hl, h.runner, fun hclosed => ?_⟩
  rcases h.pending (hstate ▸ hclosed) with hf | hfl | hm | hlead
  · exact .inl (hl.finalized hf)
  · exact .inr (.inl (hd.trans hfl))
  · exact .inr (.inr (.inl (hj hm)))
  · exact .inr (.inr (.inr hlead))

lemma inv_runJob (h : Inv s) {job : Job} {jobs : List Job} (hrunner : s.runner = none) (hjobs : s.shared.jobs = job :: jobs) :
    Inv { s with
      shared := { s.shared with jobs }
      threads := s.threads.push job.place
      runner := some s.threads.count } := by
  have hclosed : job = .finalizeOnRunner → s.shared.sessionState = .closed := by
    rintro rfl
    exact h.accounts.closed (.inr (.inr (by simp [hjobs])))
  apply inv_push h
  · exact ⟨le_rfl, id, id, fun _ => rfl, fun _ h => h⟩
  · intro H P U N O ha
    refine { ha with closed := fun hc => ha.closed ?_ }
    rcases hc with hc | hc | hc
    · exact .inl hc
    · exact .inr (.inl hc)
    · exact .inr (.inr (by rw [hjobs]; exact List.mem_cons_of_mem _ hc))
  · cases job <;> exact ⟨rfl, rfl, rfl, rfl, rfl⟩
  · cases job with
    | finalizeOnRunner =>
      constructor <;> simp [Job.place, Place.claimed, Place.notifies, Place.fallsBack, Place.late, Place.strays, hclosed]
    | _ => constructor <;> simp [Job.place, Place.leadsToClaim, Place.claimed, Place.notifies, Place.fallsBack, Place.late, Place.strays]
  · exact .inr ⟨hrunner, rfl⟩
  · rfl
  · rfl
  · intro hm
    rw [hjobs] at hm
    rcases List.mem_cons.mp hm with rfl | hm
    · exact .inr rfl
    · exact .inl hm

lemma inv_runnerReturns (h : Inv s) {i : ℕ} (hrunner : s.runner = some i) (hrow : s.threads.row i = .finished) :
    Inv { s with runner := none } := by
  refine ⟨h.accounts, fun j hlt => ?_, nofun, h.pending⟩
  have hold := h.placed j hlt
  refine { hold with onRunner := fun hon => ?_ }
  obtain rfl := Option.some.inj (hrunner.symm.trans (hold.onRunner hon))
  simp only [hrow, Place.onRunner, Bool.false_eq_true] at hon

lemma inv_step {e : Event} {s' : State} (h : Inv s) (hs : step s e = some s') : Inv s' ∧ Later s.shared s'.shared := by
  have hsame : ∀ shared : Shared, shared.sessionState = s.shared.sessionState →
      shared.firstReason = s.shared.firstReason → shared.finalized = s.shared.finalized →
      shared.openedBegun = s.shared.openedBegun →
      shared.lifecycleNotificationDepth = s.shared.lifecycleNotificationDepth → Later s.shared shared := by
    intro shared h₁ h₂ h₃ h₄ h₅
    exact ⟨by rw [h₁], by rw [h₂]; exact id, by rw [h₃]; exact id, fun _ => h₄, fun _ hd => h₅.trans hd⟩
  cases e with
  | advance i c =>
    rw [step] at hs
    split_ifs at hs with hi
    obtain ⟨⟨shared, place⟩, ha, rfl⟩ := Option.map_eq_some_iff.mp hs
    exact inv_advance h hi ha
  | call call =>
    obtain rfl := Option.some.inj hs
    refine ⟨inv_push h (.refl _) (fun _ _ _ _ _ ha => ha) ?_ ?_ (.inl rfl) rfl rfl .inl, .refl _⟩
    · cases call <;> exact ⟨rfl, rfl, rfl, rfl, rfl⟩
    · cases call <;> exact .of_free rfl
  | disconnect reason =>
    rw [step] at hs
    split_ifs at hs
    obtain rfl := Option.some.inj hs
    have hl := hsame { s.shared with notified := true } rfl rfl rfl rfl rfl
    refine ⟨inv_push h hl (fun _ _ _ _ _ ha => { ha with }) ?_ (.of_free rfl) (.inl rfl) rfl rfl .inl, hl⟩
    exact ⟨rfl, rfl, rfl, rfl, rfl⟩
  | postReceive =>
    obtain rfl := Option.some.inj hs
    have hl := hsame { s.shared with jobs := s.shared.jobs ++ [.receive] } rfl rfl rfl rfl rfl
    refine ⟨inv_shared h hl (fun _ _ _ _ _ ha => ha.post nofun) rfl rfl ?_, hl⟩
    exact fun hm => List.mem_append_left _ hm
  | runJob =>
    rw [step] at hs
    split at hs
    · obtain rfl := Option.some.inj hs
      exact ⟨inv_runJob h ‹_› ‹_›, hsame _ rfl rfl rfl rfl rfl⟩
    · simp at hs
  | runnerReturns =>
    rw [step] at hs
    split at hs
    · split_ifs at hs
      obtain rfl := Option.some.inj hs
      exact ⟨inv_runnerReturns h ‹_› ‹_›, .refl _⟩
    · simp at hs
  | stopAccepting =>
    obtain rfl := Option.some.inj hs
    have hl := hsame { s.shared with accepting := false } rfl rfl rfl rfl rfl
    exact ⟨inv_shared h hl (fun _ _ _ _ _ ha => { ha with }) rfl rfl id, hl⟩
  | otherBegins =>
    obtain rfl := Option.some.inj hs
    have hl := hsame { s.shared with
      others := s.shared.others + 1, outstandingSessions := s.shared.outstandingSessions + 1 } rfl rfl rfl rfl rfl
    refine ⟨inv_shared h hl (fun _ _ _ _ _ ha => ?_) rfl rfl id, hl⟩
    have hout := ha.outstanding
    exact { ha with outstanding := by simp only; omega }
  | otherEnds =>
    rw [step] at hs
    split_ifs at hs
    obtain rfl := Option.some.inj hs
    have hl := hsame { s.shared with
      others := s.shared.others - 1, outstandingSessions := s.shared.outstandingSessions - 1 } rfl rfl rfl rfl rfl
    refine ⟨inv_shared h hl (fun _ _ _ _ _ ha => ?_) rfl rfl id, hl⟩
    have hout := ha.outstanding
    have hone := ha.returnedOnce
    exact { ha with outstanding := by simp only; omega }

lemma inv_start (others : ℕ) : Inv (start others) where
  accounts := by
    constructor <;> simp [start, Table.total, Place.holds, Place.claimed, Place.notifies, Place.observes, SessionState.ended]
  placed i _ := .of_free rfl
  runner := nofun
  pending := nofun

lemma Reachable.inv (h : Reachable step Initial s) : Inv s := by
  apply h.invariant
  · rintro _ ⟨others, rfl⟩
    exact inv_start others
  · exact fun _ _ _ hinv hs => (inv_step hinv hs).1

end Runs

end ServerCore.Runtime.SessionLifecycle
