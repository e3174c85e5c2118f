import ServerCore.Runtime.SessionLifecycle

/-! What holds in every state of a session's life: the notification depth counts the threads that hold
it, the finalization is claimed once and passed on once, and a closed session has a finalizer on its way. -/

namespace ServerCore.Runtime.SessionLifecycle

open ServerCore.Core ServerCore.Foundations

namespace Place

def holds : Place → ℕ
  | operating _ true | connection _ true | leaving _ true | authenticated | observing | handling => 1
  | _ => 0

def claimed : Place → ℕ
  | unlisting .. | finishing .. => 1
  | _ => 0

def unlists : Place → ℕ
  | unlisting .. => 1
  | _ => 0

def notifies : Place → ℕ
  | notifying _ => 1
  | _ => 0

def observes : Place → ℕ
  | observing => 1
  | _ => 0

def onRunner : Place → Bool
  | opening | observing | dispatching | handling | dispatched | finalizing => true
  | _ => false

def leadsToClaim : Place → Bool
  | posting | falling | finalizing => true
  | _ => false

def fallsBack : Place → Bool
  | unlisting .fallback _ _ | finishing .fallback _ | notifying .fallback | delivering .fallback _ => true
  | _ => false

def late : Place → Bool
  | operating _ false => true
  | _ => false

def strays : Place → Bool
  | connection _ false => true
  | _ => false

lemma unlists_le_claimed (place : Place) : place.unlists ≤ place.claimed := by
  cases place <;> simp [unlists, claimed]

end Place

structure Accounts (s : Shared) (holds claimed unlists notifies observes : ℕ) : Prop where
  depth : s.lifecycleNotificationDepth = holds
  claims : s.claims = s.finalized.toNat
  returns : claimed + s.returns = s.finalized.toNat
  notifications : notifies + s.closedWith.length = (s.openedBegun && s.returns = 1).toNat
  observed : observes = (s.openedBegun && !s.openedReturned).toNat
  registry : s.registry =
    if s.finalized = true ∧ unlists = 0 then ⟨false, false⟩ else ⟨!s.openedBegun, s.openedBegun⟩
  registered : s.registered = (s.openedBegun && !s.finalized)
  opened : s.opened = (s.openedBegun && !s.finalized)
  slot : s.slot = (s.returns = 0 : Bool)
  outstanding : s.outstandingSessions + s.returns = s.others + 1
  returnedOnce : s.returns ≤ 1
  closed : s.finalized = true ∨ s.finalizeAfterNotification = true ∨ .finalizeOnRunner ∈ s.jobs → s.sessionState = .closed
  deferred : s.finalizeAfterNotification = true → s.lifecycleNotificationDepth ≠ 0
  begun : s.openedReturned = true → s.openedBegun = true
  ordered : s.finalized = true → s.openedBegun = true → s.openedReturned = true
  reason : s.closedWith = [] → s.firstReason = if s.hasCloseReason then some s.closeReason else none
  ended : s.sessionState.ended = true → s.firstReason ≠ none
  reported : ∀ reason ∈ s.closedWith, s.firstReason = some reason

structure Placed (s : Shared) (runner : Option ℕ) (i : ℕ) (place : Place) : Prop where
  onRunner : place.onRunner = true → runner = some i
  closed : place.leadsToClaim = true → s.sessionState = .closed
  recorded : place = .abandoning → s.firstReason ≠ none
  unlisting : ∀ path registered opened, place = .unlisting path registered opened →
    registered = s.openedBegun ∧ opened = s.openedBegun
  finishing : ∀ path opened, place = .finishing path opened → opened = s.openedBegun
  claimed : place.claimed = 1 ∨ place.notifies = 1 → s.finalized = true
  fallsBack : place.fallsBack = true → s.finalized = true ∧ s.lifecycleNotificationDepth = 0
  late : place.late = true → s.finalized = true
  strays : place.strays = false

structure Later (s s' : Shared) : Prop where
  rank : s.sessionState.rank ≤ s'.sessionState.rank
  recorded : s.firstReason ≠ none → s'.firstReason ≠ none
  finalized : s.finalized = true → s'.finalized = true
  openedBegun : s.finalized = true → s'.openedBegun = s.openedBegun
  depth : s.finalized = true → s.lifecycleNotificationDepth = 0 → s'.lifecycleNotificationDepth = 0

lemma rank_eq_three_iff {state : SessionState} : 3 ≤ state.rank ↔ state = .closed := by
  cases state <;> simp [SessionState.rank]

lemma Later.closed {s s' : Shared} (h : Later s s') (hs : s.sessionState = .closed) : s'.sessionState = .closed := by
  have := h.rank
  rw [hs] at this
  exact rank_eq_three_iff.mp this

lemma Placed.later {s s' : Shared} {runner : Option ℕ} {i : ℕ} {place : Place} (h : Placed s runner i place)
    (hl : Later s s') : Placed s' runner i place where
  onRunner := h.onRunner
  closed hp := hl.closed (h.closed hp)
  recorded hp := hl.recorded (h.recorded hp)
  unlisting path registered opened hp := by
    rw [hl.openedBegun (h.claimed (.inl (by rw [hp]; rfl)))]
    exact h.unlisting path registered opened hp
  finishing path opened hp := by
    rw [hl.openedBegun (h.claimed (.inl (by rw [hp]; rfl)))]
    exact h.finishing path opened hp
  claimed hp := hl.finalized (h.claimed hp)
  fallsBack hp := by
    obtain ⟨hf, hd⟩ := h.fallsBack hp
    exact ⟨hl.finalized hf, hl.depth hf hd⟩
  late hp := hl.finalized (h.late hp)
  strays := h.strays

structure Inv (s : State) : Prop where
  accounts : Accounts s.shared (s.threads.total Place.holds) (s.threads.total Place.claimed)
    (s.threads.total Place.unlists) (s.threads.total Place.notifies) (s.threads.total Place.observes)
  placed : ∀ i < s.threads.count, Placed s.shared s.runner i (s.threads.row i)
  runner : ∀ i, s.runner = some i → i < s.threads.count
  pending : s.shared.sessionState = .closed → s.shared.finalized = true ∨ s.shared.finalizeAfterNotification = true ∨
    .finalizeOnRunner ∈ s.shared.jobs ∨ ∃ i < s.threads.count, (s.threads.row i).leadsToClaim = true

variable {s : Shared} {H P U N O : ℕ}

namespace Accounts

lemma remember (h : Accounts s H P U N O) (reason : Status) :
    Accounts (s.rememberCloseReasonLocked reason) H P U N O := by
  have hor (r : Status) (hr : s.firstReason = some r) : s.firstReason.or (some reason) = some r := by
    rw [hr]
    rfl
  have hkept : ∀ r ∈ s.closedWith, s.firstReason.or (some reason) = some r := fun r hr => hor r (h.reported r hr)
  have hsome : s.firstReason.or (some reason) ≠ none := by cases s.firstReason <;> simp
  rw [Shared.rememberCloseReasonLocked]
  split_ifs with hr
  · refine { h with reason := fun hc => ?_, ended := fun _ => hsome, reported := hkept }
    have := h.reason hc
    rw [if_pos hr] at this
    rw [if_pos hr]
    exact hor _ this
  · refine { h with reason := fun hc => ?_, ended := fun _ => hsome, reported := hkept }
    have := h.reason hc
    rw [if_neg hr] at this
    simp [this]

lemma enter {state : SessionState} (h : Accounts s H P U N O) (hr : s.sessionState.rank ≤ state.rank)
    (hs : state.ended = true → s.firstReason ≠ none) : Accounts { s with sessionState := state } H P U N O :=
  { h with
    closed := fun hc => by
      have := h.closed hc
      rw [this] at hr
      exact rank_eq_three_iff.mp hr
    ended := hs }

lemma hold (h : Accounts s H P U N O) :
    Accounts { s with lifecycleNotificationDepth := s.lifecycleNotificationDepth + 1 } (H + 1) P U N O :=
  { h with depth := by simp [h.depth], deferred := fun _ => Nat.succ_ne_zero _ }

lemma release (h : Accounts s (H + 1) P U N O) :
    Accounts s.completeLifecycleNotification.2 H P U N O := by
  have hd := h.depth
  simp only [Shared.completeLifecycleNotification, hd, Nat.add_sub_cancel]
  split
  · exact { h with depth := rfl, deferred := nofun, closed := fun hc => h.closed (by simpa using hc.imp_right Or.inr) }
  · exact { h with depth := rfl, deferred := fun _ => ‹_› }

lemma post (h : Accounts s H P U N O) {job : Job} (hj : job = .finalizeOnRunner → s.sessionState = .closed) :
    Accounts { s with jobs := s.jobs ++ [job] } H P U N O := by
  refine { h with closed := fun hc => ?_ }
  simp only [List.mem_append, List.mem_singleton] at hc
  rcases hc with hc | hc | hc | hc
  · exact h.closed (.inl hc)
  · exact h.closed (.inr (.inl hc))
  · exact h.closed (.inr (.inr hc))
  · exact hj hc.symm

lemma claim (h : Accounts s H P U N O) (hf : s.finalized = false) (hO : O = 0) (hc : s.sessionState = .closed) :
    Accounts s.claim H (P + 1) (U + 1) N O := by
  have hb : s.openedBegun = true → s.openedReturned = true := by
    intro hb
    have hobs := h.observed
    rw [hO, hb, Bool.true_and] at hobs
    cases hret : s.openedReturned with
    | true => rfl
    | false => simp [hret] at hobs
  have hclaims := h.claims
  have hreturns := h.returns
  have hregistry := h.registry
  rw [hf] at hclaims hreturns
  rw [if_neg (by simp [hf])] at hregistry
  exact
    { h with
      claims := by simp [Shared.claim, hclaims]
      returns := by simp only [Shared.claim, Bool.toNat_true]; simp at hreturns; omega
      registry := by simp [Shared.claim, hregistry]
      registered := by simp [Shared.claim]
      opened := by simp [Shared.claim]
      closed := fun _ => hc
      ordered := fun _ => hb }

lemma unlist (h : Accounts s H P (U + 1) N O) (hf : s.finalized = true) (hU : U = 0) :
    Accounts (if s.openedBegun then { s with registry := s.registry.unregister } else s.discardUnregisteredId) H P U N O := by
  have hregistry := h.registry
  have hreg := h.registered
  rw [if_neg (by simp)] at hregistry
  rw [hf] at hreg
  simp only [Bool.not_true, Bool.and_false] at hreg
  split_ifs with hb
  · exact { h with registry := by simp [hf, hU, hregistry, hb, Registry.unregister] }
  · rw [Shared.discardUnregisteredId, if_neg (by simp [hreg])]
    exact { h with registry := by simp [hf, hU, hregistry, hb, Registry.discardIssuedId] }

lemma finish (h : Accounts s H (P + 1) U N O) :
    Accounts s.finishNetworkSession H P U (N + s.openedBegun.toNat) O := by
  have hreturns := h.returns
  have hf := Bool.toNat_le s.finalized
  have hzero : s.returns = 0 := by omega
  have hone := h.notifications
  simp only [hzero, Nat.zero_ne_one, decide_false, Bool.and_false, Bool.toNat_false] at hone
  have hout := h.outstanding
  exact
    { h with
      returns := by simp only [Shared.finishNetworkSession]; omega
      notifications := by simp [Shared.finishNetworkSession, hzero]; omega
      slot := by simp [Shared.finishNetworkSession]
      outstanding := by simp only [Shared.finishNetworkSession]; omega
      returnedOnce := by simp [Shared.finishNetworkSession, hzero] }

lemma notify (h : Accounts s H P U (N + 1) O) (hc : s.sessionState = .closed) :
    Accounts { s.takeCloseReason.2 with closedWith := s.takeCloseReason.2.closedWith ++ [s.takeCloseReason.1] } H P U N O := by
  have hcount := h.notifications
  have hle := Bool.toNat_le (s.openedBegun && s.returns = 1)
  have hnil : s.closedWith = [] := List.length_eq_zero_iff.mp (by omega)
  have hreason := h.reason hnil
  have hsome := h.ended (by rw [hc]; rfl)
  cases hr : s.hasCloseReason with
  | false => simp [hr, hsome] at hreason
  | true =>
    rw [hr, if_pos rfl] at hreason
    simp only [Shared.takeCloseReason, hr, ↓reduceIte, hnil, List.nil_append]
    exact
      { h with
        notifications := by simp only [List.length_singleton]; simp only [hnil, List.length_nil] at hcount; omega
        reason := nofun
        reported := by simpa using hreason }

lemma opening (h : Accounts s H P U N O) (hf : s.finalized = false) (hb : s.openedBegun = false) :
    Accounts { s with
      registry := ⟨false, true⟩, registered := true, opened := true
      lifecycleNotificationDepth := s.lifecycleNotificationDepth + 1, openedBegun := true } (H + 1) P U N (O + 1) := by
  have hret : s.openedReturned = false := by
    cases hr : s.openedReturned with
    | false => rfl
    | true => simp [h.begun hr] at hb
  have hobs := h.observed
  have hreturns := h.returns
  have hnotifications := h.notifications
  rw [hb, Bool.false_and] at hobs hnotifications
  rw [hf] at hreturns
  simp only [Bool.toNat_false] at hobs hreturns hnotifications
  have hzero : s.returns = 0 := by omega
  exact
    { h with
      depth := by simp [h.depth]
      notifications := by
        simp only [hzero, Nat.zero_ne_one, decide_false, Bool.and_false, Bool.toNat_false]
        exact hnotifications
      observed := by simp [hret, hobs]
      registry := by simp [hf]
      registered := by simp [hf]
      opened := by simp [hf]
      deferred := fun _ => Nat.succ_ne_zero _
      begun := fun _ => rfl
      ordered := fun hfin => by simp [hf] at hfin }

lemma returned (h : Accounts s (H + 1) P U N (O + 1)) : Accounts { s with openedReturned := true } (H + 1) P U N O := by
  have hobs := h.observed
  have hb : s.openedBegun = true := by
    cases hb : s.openedBegun with
    | true => rfl
    | false => simp [hb] at hobs
  have hle := Bool.toNat_le (s.openedBegun && !s.openedReturned)
  exact
    { h with
      observed := by simp; omega
      begun := fun _ => hb
      ordered := fun _ _ => rfl }

lemma deferFinalization (h : Accounts s H P U N O) (hd : s.lifecycleNotificationDepth ≠ 0)
    (hc : s.sessionState = .closed) : Accounts { s with finalizeAfterNotification := true } H P U N O :=
  { h with
    closed := fun _ => hc
    deferred := fun _ => hd }

end Accounts

end ServerCore.Runtime.SessionLifecycle
