import ServerCore.Net.EpollAcceptor

/-! What holds in every state of the acceptor as long as no `Start` fails under a fetched callback and
no waiting `Stop` ends on a listener that is registered again. -/

namespace ServerCore.Net.EpollAcceptor

open ServerCore.Foundations

namespace EventSet

variable (e : EventSet) (r : Registration) (i j : ℕ) (b : Bool)

lemma arm_self : (e.arm i b).registrations i = (e.registrations i).map fun r => { r with armed := b } :=
  Function.update_self ..

lemma arm_ne (h : j ≠ i) : (e.arm i b).registrations j = e.registrations j := Function.update_of_ne h ..

lemma register_self : (e.register r).registrations e.nextRegistration = some r := Function.update_self ..

lemma register_ne (h : j ≠ e.nextRegistration) : (e.register r).registrations j = e.registrations j :=
  Function.update_of_ne h ..

end EventSet

namespace Shared

structure Ok (s : Shared) : Prop where
  defined : s.undefined = false
  next : 0 < s.epoll.nextRegistration
  known : ∀ id r, s.epoll.registrations id = some r → id ≠ 0 ∧ id < s.epoll.nextRegistration ∧
    r.generation = s.generation ∧ (id = s.registration ∧ r.target = .ready ∨ id = s.retryRegistration ∧ r.target = .retry)
  listener : s.registration ≠ 0 → s.descriptor = true ∧ s.events = true ∧
    ∃ armed, s.epoll.registrations s.registration = some ⟨.ready, s.generation, armed⟩
  retry : s.retryRegistration ≠ 0 → s.registration ≠ 0 ∧
    ∃ armed, s.epoll.registrations s.retryRegistration = some ⟨.retry, s.generation, armed⟩
  timer : s.retryTimer = true ↔ s.retryRegistration ≠ 0
  both : s.registration ≠ 0 → s.starting = false → s.retryRegistration ≠ 0
  opened : s.descriptor = true → s.stopping = false ∧ s.stopped < s.generation
  starts : s.starting = true → s.descriptor = true ∧ s.events = true ∧ s.retryRegistration = 0
  stopped : s.stopped ≤ s.generation

variable {s : Shared}

def shut (s : Shared) : Shared :=
  { s with
    stopping := true
    descriptor := false
    registration := 0
    retryTimer := false
    retryRegistration := 0
    acceptBackoff := false
    epoll := { s.epoll with registrations := fun _ => none } }

lemma Ok.registrations_none (h : s.Ok) (hr : s.registration = 0) : s.epoll.registrations = fun _ => none := by
  funext id
  cases hid : s.epoll.registrations id with
  | none => rfl
  | some r =>
    obtain ⟨hne, -, -, ⟨rfl, -⟩ | ⟨rfl, -⟩⟩ := h.known id r hid
    · exact absurd hr hne
    · exact absurd hr (h.retry hne).1

lemma Ok.remove_listener (h : s.Ok) (hretry : s.retryRegistration = 0) :
    s.epoll.remove s.registration = { s.epoll with registrations := fun _ => none } := by
  unfold EventSet.remove
  congr 1
  funext id
  by_cases hsame : id = s.registration
  · rw [hsame, Function.update_self]
  · rw [Function.update_of_ne hsame]
    cases hk : s.epoll.registrations id with
    | none => rfl
    | some r =>
      obtain ⟨hne, -, -, ⟨rfl, -⟩ | ⟨rfl, -⟩⟩ := h.known id r hk
      · exact absurd rfl hsame
      · exact absurd hretry hne

lemma Ok.distinct (h : s.Ok) (hr : s.retryRegistration ≠ 0) : s.retryRegistration ≠ s.registration := by
  intro heq
  obtain ⟨hne, armed, hid⟩ := h.retry hr
  obtain ⟨-, -, armed', hid'⟩ := h.listener hne
  rw [heq, hid'] at hid
  cases hid

lemma closeListenerLocked_eq (h : s.Ok) : s.closeListenerLocked = s.shut := by
  by_cases hr : s.registration = 0
  · have hretry : s.retryRegistration = 0 := by
      by_contra hne
      exact (h.retry hne).1 hr
    have htimer : s.retryTimer = false := Bool.eq_false_iff.mpr fun ht => h.timer.mp ht hretry
    have hepoll : s.epoll = { s.epoll with registrations := fun _ => none } := by rw [← h.registrations_none hr]
    unfold closeListenerLocked shut
    rw [← hepoll]
    cases hd : s.descriptor <;> simp [hr, htimer, hretry]
  · obtain ⟨hd, he, armed, hid⟩ := h.listener hr
    by_cases hretry : s.retryRegistration = 0
    · have htimer : s.retryTimer = false := Bool.eq_false_iff.mpr fun ht => h.timer.mp ht hretry
      simp [closeListenerLocked, shut, remove, hd, he, hr, htimer, hretry, h.remove_listener hretry]
    · have htimer : s.retryTimer = true := h.timer.mpr hretry
      have hepoll : (s.epoll.remove s.registration).remove s.retryRegistration =
          { s.epoll with registrations := fun _ => none } := by
        unfold EventSet.remove
        dsimp only
        congr 1
        funext id
        by_cases hsame : id = s.retryRegistration
        · rw [hsame, Function.update_self]
        · rw [Function.update_of_ne hsame]
          by_cases hsame' : id = s.registration
          · rw [hsame', Function.update_self]
          · rw [Function.update_of_ne hsame']
            cases hk : s.epoll.registrations id with
            | none => rfl
            | some r =>
              obtain ⟨-, -, -, ⟨rfl, -⟩ | ⟨rfl, -⟩⟩ := h.known id r hk
              · exact absurd rfl hsame'
              · exact absurd rfl hsame
      simp [closeListenerLocked, shut, remove, hd, he, hr, htimer, hretry, hepoll]

lemma Ok.shut (h : s.Ok) (hs : s.starting = false) : s.shut.Ok where
  defined := h.defined
  next := h.next
  known id r hid := by cases hid
  listener hr := absurd rfl hr
  retry hr := absurd rfl hr
  timer := by simp [Shared.shut]
  both hr := absurd rfl hr
  opened hd := by cases hd
  starts ht := by
    have ht' : s.starting = true := ht
    rw [hs] at ht'
    cases ht'
  stopped := h.stopped

lemma arm_known {e : EventSet} {i j : ℕ} {b : Bool} {r : Registration} (h : (e.arm i b).registrations j = some r) :
    ∃ armed, e.registrations j = some { r with armed := armed } := by
  by_cases hji : j = i
  · subst hji
    rw [EventSet.arm_self, Option.map_eq_some_iff] at h
    obtain ⟨r', hr', rfl⟩ := h
    exact ⟨r'.armed, hr'⟩
  · rw [EventSet.arm_ne _ _ _ _ hji] at h
    exact ⟨r.armed, h⟩

lemma arm_some {e : EventSet} {i j : ℕ} {b : Bool} {t : Target} {g : ℕ}
    (h : ∃ armed, e.registrations j = some ⟨t, g, armed⟩) : ∃ armed, (e.arm i b).registrations j = some ⟨t, g, armed⟩ := by
  obtain ⟨armed, h⟩ := h
  by_cases hji : j = i
  · subst hji
    exact ⟨b, by rw [EventSet.arm_self, h]; rfl⟩
  · exact ⟨armed, by rw [EventSet.arm_ne _ _ _ _ hji, h]⟩

lemma Ok.arm (h : s.Ok) (i : ℕ) (b : Bool) : Ok { s with epoll := s.epoll.arm i b } where
  defined := h.defined
  next := h.next
  known id r hid := by
    obtain ⟨armed, hid⟩ := arm_known hid
    have hk := h.known id _ hid
    exact hk
  listener hr := by
    obtain ⟨hd, he, hid⟩ := h.listener hr
    exact ⟨hd, he, arm_some hid⟩
  retry hr := by
    obtain ⟨hl, hid⟩ := h.retry hr
    exact ⟨hl, arm_some hid⟩
  timer := h.timer
  both := h.both
  opened := h.opened
  starts := h.starts
  stopped := h.stopped

lemma Ok.counted (h : s.Ok) (backoff : Bool) (n : ℕ) : Ok { s with acceptBackoff := backoff, accepted := n } :=
  ⟨h.defined, h.next, h.known, h.listener, h.retry, h.timer, h.both, h.opened, h.starts, h.stopped⟩

lemma Ok.handed (h : s.Ok) (n : ℕ) (given closed : ℕ → ℕ) :
    Ok { s with activeHandoffs := n, given := given, closed := closed } :=
  ⟨h.defined, h.next, h.known, h.listener, h.retry, h.timer, h.both, h.opened, h.starts, h.stopped⟩

lemma rearm_eq {id : ℕ} (he : s.events = true) (hid : (s.epoll.registrations id).isSome = true) (ok : Bool) :
    s.rearm id ok = if ok then (true, { s with epoll := s.epoll.arm id true }) else (false, s) := by
  rw [rearm, if_pos he]
  cases ok with
  | true => simp only [EventSet.rearm, hid, Bool.and_true, if_true]
  | false => simp only [EventSet.rearm, Bool.and_false, Bool.false_eq_true, if_false]

lemma rearmListener_eq (h : s.Ok) (hr : s.registration ≠ 0) (ok : Bool) :
    s.rearmListener ok = if ok then { s with epoll := s.epoll.arm s.registration true } else s.shut := by
  obtain ⟨-, he, armed, hid⟩ := h.listener hr
  rw [rearmListener, rearm_eq he (by rw [hid]; rfl)]
  cases ok with
  | true => rfl
  | false => exact closeListenerLocked_eq h

lemma parkListenerLocked_eq (h : s.Ok) (hr : s.retryRegistration ≠ 0) (ok : Bool) :
    s.parkListenerLocked ok =
      if ok then { s with acceptBackoff := true, epoll := s.epoll.arm s.retryRegistration true } else s.shut := by
  obtain ⟨hl, armed, hid⟩ := h.retry hr
  obtain ⟨-, he, -⟩ := h.listener hl
  have hskip : ¬ (!s.retryTimer || s.retryRegistration = 0) = true := by simp [h.timer.mpr hr, hr]
  have hk := @rearm_eq { s with acceptBackoff := true } s.retryRegistration he (by rw [hid]; rfl) ok
  rw [parkListenerLocked, scheduleRetryLocked, if_neg hskip, hk]
  cases ok with
  | true => rfl
  | false => exact closeListenerLocked_eq (h.counted true s.accepted)

def released (s : Shared) : Shared :=
  { s with
    registration := 0
    events := false
    starting := false
    epoll := { s.epoll with registrations := fun _ => none } }

lemma release_eq (h : s.Ok) (hs : s.starting = true) : s.release = s.released := by
  obtain ⟨-, he, hretry⟩ := h.starts hs
  by_cases hr : s.registration = 0
  · have hepoll : s.epoll = { s.epoll with registrations := fun _ => none } := by rw [← h.registrations_none hr]
    unfold release released
    rw [← hepoll]
    simp [hr]
  · simp [release, released, remove, he, hr, h.remove_listener hretry]

lemma Ok.released (h : s.Ok) (hs : s.starting = true) : s.released.Ok where
  defined := h.defined
  next := h.next
  known id r hid := by cases hid
  listener hr := absurd rfl hr
  retry hr := absurd (h.starts hs).2.2 hr
  timer := h.timer
  both hr := absurd rfl hr
  opened := h.opened
  starts ht := by cases ht
  stopped := h.stopped

lemma Ok.listens (h : s.Ok) (hd : s.descriptor = false) (hs : s.starting = false) :
    Ok { s with descriptor := true, stopping := false, generation := s.generation + 1 } := by
  have hr : s.registration = 0 := by
    by_contra hr
    rw [(h.listener hr).1] at hd
    cases hd
  have hstopped := h.stopped
  refine ⟨h.defined, h.next, ?_, fun hne => absurd hr hne, fun hne => absurd hr (h.retry hne).1, h.timer,
    fun hne => absurd hr hne, fun _ => ⟨rfl, by dsimp only; omega⟩, ?_, by dsimp only; omega⟩
  · intro id r hid
    rw [h.registrations_none hr] at hid
    cases hid
  · intro ht
    rw [hs] at ht
    cases ht

lemma Ok.retired (h : s.Ok) {generation : ℕ} (hr : s.registration = 0) (hs : s.starting = false)
    (hg : generation ≤ s.generation) (hd : s.descriptor = true → generation < s.generation) :
    (s.retire generation).Ok := by
  have hstopped := h.stopped
  refine ⟨h.defined, h.next, h.known, fun hne => absurd hr hne, h.retry, h.timer, h.both, ?_, ?_, ?_⟩
  · intro ht
    obtain ⟨hstop, hlt⟩ := h.opened ht
    have := hd ht
    exact ⟨hstop, by simp only [retire]; omega⟩
  · intro ht
    have ht' : s.starting = true := ht
    rw [hs] at ht'
    cases ht'
  · simp only [retire]
    omega

lemma Ok.starting (h : s.Ok) (hd : s.descriptor = true) (hr : s.registration = 0) :
    Ok { s with events := true, starting := true } := by
  refine ⟨h.defined, h.next, h.known, fun hne => absurd hr hne, h.retry, h.timer, fun hne => absurd hr hne, h.opened,
    fun _ => ⟨hd, rfl, ?_⟩, h.stopped⟩
  by_contra hne
  exact (h.retry hne).1 hr

lemma Ok.unstarted (h : s.Ok) (hs : s.starting = false) (hr : s.registration = 0) : Ok { s with events := false } := by
  refine ⟨h.defined, h.next, h.known, fun hne => absurd hr hne, h.retry, h.timer, h.both, h.opened, fun ht => ?_, h.stopped⟩
  rw [hs] at ht
  cases ht

lemma register_known {e : EventSet} {r r' : Registration} {id : ℕ} (h : (e.register r).registrations id = some r') :
    id = e.nextRegistration ∧ r' = r ∨ id ≠ e.nextRegistration ∧ e.registrations id = some r' := by
  by_cases hid : id = e.nextRegistration
  · subst hid
    rw [EventSet.register_self] at h
    exact .inl ⟨rfl, (Option.some.inj h).symm⟩
  · rw [EventSet.register_ne _ _ _ hid] at h
    exact .inr ⟨hid, h⟩

lemma Ok.listening (h : s.Ok) (hs : s.starting = true) (hr : s.registration = 0) :
    Ok { s with registration := s.epoll.nextRegistration, epoll := s.epoll.register ⟨.ready, s.generation, true⟩ } := by
  obtain ⟨hd, he, hretry⟩ := h.starts hs
  have hnext := h.next
  refine ⟨h.defined, by simp [EventSet.register], ?_, fun _ => ⟨hd, he, true, EventSet.register_self ..⟩,
    fun hne => absurd hretry hne, h.timer, fun _ hf => ?_, h.opened, h.starts, h.stopped⟩
  · intro id r hid
    rcases register_known hid with ⟨rfl, rfl⟩ | ⟨-, hid⟩
    · exact ⟨hnext.ne', by simp [EventSet.register], rfl, .inl ⟨rfl, rfl⟩⟩
    · rw [h.registrations_none hr] at hid
      cases hid
  · rw [hs] at hf
    cases hf

lemma Ok.retrying (h : s.Ok) (hs : s.starting = true) (hr : s.registration ≠ 0) :
    Ok { s with
      retryTimer := true
      retryRegistration := s.epoll.nextRegistration
      epoll := s.epoll.register ⟨.retry, s.generation, false⟩
      starting := false } := by
  obtain ⟨hd, he, hretry⟩ := h.starts hs
  have hnext := h.next
  obtain ⟨-, -, armed, hid⟩ := h.listener hr
  have hlt := (h.known _ _ hid).2.1
  have hkeep : (s.epoll.register ⟨.retry, s.generation, false⟩).registrations s.registration =
      some ⟨.ready, s.generation, armed⟩ := by
    rw [EventSet.register_ne _ _ _ hlt.ne, hid]
  refine ⟨h.defined, by simp [EventSet.register], ?_, fun _ => ⟨hd, he, armed, hkeep⟩,
    fun _ => ⟨hr, false, EventSet.register_self ..⟩, ?_, fun _ _ => hnext.ne', h.opened, fun hf => ?_, h.stopped⟩
  · intro id r hk
    rcases register_known hk with ⟨rfl, rfl⟩ | ⟨-, hk⟩
    · exact ⟨hnext.ne', by simp [EventSet.register], rfl, .inr ⟨rfl, rfl⟩⟩
    · obtain ⟨hne, hlt', hg, ⟨rfl, ht⟩ | ⟨rfl, -⟩⟩ := h.known id r hk
      · exact ⟨hne, by simp only [EventSet.register]; omega, hg, .inl ⟨rfl, ht⟩⟩
      · exact absurd hretry hne
  · exact ⟨fun _ => hnext.ne', fun _ => rfl⟩
  · cases hf

end Shared

namespace Place

def starts : Place → ℕ
  | .registering _ | .registeringRetry _ => 1
  | _ => 0

def handsOff : Place → ℕ
  | .accepted .. | .handling _ | .leaving _ => 1
  | _ => 0

def pending (descriptor : ℕ) : Place → ℕ
  | .accepted d _ => if d = descriptor then 1 else 0
  | _ => 0

def carries (target : Target) (generation registration : ℕ) : Place → Prop
  | .event r => r = registration
  | .callback t g r => t = target ∧ g = generation ∧ r = registration
  | _ => False

end Place

def Placed (s : Shared) : Place → Prop
  | .registering g => s.starting = true ∧ g = s.generation ∧ s.registration = 0
  | .registeringRetry g => s.starting = true ∧ g = s.generation ∧ s.registration ≠ 0
  | .waiting g => g ≤ s.generation ∧ (s.descriptor = true → g < s.generation)
  | .callback t g r => g ≤ s.generation ∧ (g = s.generation → s.descriptor = true →
      r ≠ 0 ∧ (t = .ready ∧ r = s.registration ∨ t = .retry ∧ r = s.retryRegistration))
  | .accepted d g => s.stopped < g ∧ g ≤ s.generation ∧ d < s.accepted
  | .handling g | .leaving g => s.stopped < g ∧ g ≤ s.generation
  | .event r => r ≠ 0
  | _ => True

def Live (s : Shared) (threads : Table Place) : Prop :=
  s.registration ≠ 0 → s.epoll.armed s.registration = true ∨
    (∃ j < threads.count, (threads.row j).carries .ready s.generation s.registration) ∨
    s.acceptBackoff = true ∧ (s.epoll.armed s.retryRegistration = true ∨
      ∃ j < threads.count, (threads.row j).carries .retry s.generation s.retryRegistration)

def turned (s : Shared) (descriptor : ℕ) : ℕ := if descriptor < s.accepted then 1 else 0

structure Inv (s : State) : Prop where
  ok : s.shared.Ok
  placed : ∀ j < s.threads.count, Placed s.shared (s.threads.row j)
  starts : s.threads.total Place.starts = s.shared.starting.toNat
  handoffs : s.threads.total Place.handsOff = s.shared.activeHandoffs
  descriptors : ∀ d, s.shared.given d + s.shared.closed d + s.threads.total (Place.pending d) = turned s.shared d
  live : Live s.shared s.threads

section Keep

variable {s s' : Shared} {threads : Table Place} {i : ℕ} {place : Place}

lemma Live.set (h : Live s threads) (hi : i < threads.count) (hr : s'.registration = s.registration)
    (hretry : s'.retryRegistration = s.retryRegistration) (hg : s'.generation = s.generation)
    (hb : s'.acceptBackoff = s.acceptBackoff) (he : s'.epoll = s.epoll)
    (hp : s.registration ≠ 0 → ((threads.row i).carries .ready s.generation s.registration →
        place.carries .ready s.generation s.registration) ∧
      ((threads.row i).carries .retry s.generation s.retryRegistration →
        place.carries .retry s.generation s.retryRegistration)) : Live s' (threads.set i place) := by
  have key : ∀ (t : Target) (r : ℕ), ((threads.row i).carries t s.generation r → place.carries t s.generation r) →
      (∃ j < threads.count, (threads.row j).carries t s.generation r) →
      ∃ j < (threads.set i place).count, ((threads.set i place).row j).carries t s.generation r := by
    rintro t r hkeep ⟨j, hj, hc⟩
    by_cases hji : j = i
    · subst hji
      exact ⟨j, hj, by rw [Table.set_row_self]; exact hkeep hc⟩
    · exact ⟨j, hj, by rw [Table.set_row_ne _ _ hji]; exact hc⟩
  unfold Live
  rw [hr, hretry, hg, hb, he]
  intro hne
  obtain ⟨hready, hretry'⟩ := hp hne
  rcases h hne with ha | hc | ⟨hback, ha | hc⟩
  · exact .inl ha
  · exact .inr (.inl (key _ _ hready hc))
  · exact .inr (.inr ⟨hback, .inl ha⟩)
  · exact .inr (.inr ⟨hback, .inr (key _ _ hretry' hc)⟩)

lemma Live.push (h : Live s threads) : Live s (threads.push place) := by
  have key : ∀ (t : Target) (r : ℕ), (∃ j < threads.count, (threads.row j).carries t s.generation r) →
      ∃ j < (threads.push place).count, ((threads.push place).row j).carries t s.generation r := by
    rintro t r ⟨j, hj, hc⟩
    refine ⟨j, by rw [Table.push_count]; omega, ?_⟩
    rw [Table.push_row, if_neg hj.ne]
    exact hc
  intro hne
  rcases h hne with ha | hc | ⟨hback, ha | hc⟩
  · exact .inl ha
  · exact .inr (.inl (key _ _ hc))
  · exact .inr (.inr ⟨hback, .inl ha⟩)
  · exact .inr (.inr ⟨hback, .inr (key _ _ hc)⟩)

end Keep

section Set

variable {st : State} {i : ℕ} {s' : Shared} {place : Place}

lemma Inv.set (h : Inv st) (hi : i < st.threads.count) (hok : s'.Ok) (hplace : Placed s' place)
    (hothers : ∀ j < st.threads.count, j ≠ i → Placed st.shared (st.threads.row j) → Placed s' (st.threads.row j))
    (hstarts : s'.starting.toNat + (st.threads.row i).starts = st.shared.starting.toNat + place.starts)
    (hhands : s'.activeHandoffs + (st.threads.row i).handsOff = st.shared.activeHandoffs + place.handsOff)
    (hdesc : ∀ d, s'.given d + s'.closed d + place.pending d + turned st.shared d =
      st.shared.given d + st.shared.closed d + (st.threads.row i).pending d + turned s' d)
    (hlive : Live s' (st.threads.set i place)) : Inv ⟨s', st.threads.set i place⟩ where
  ok := hok
  placed j hj := by
    by_cases hji : j = i
    · subst hji
      rw [Table.set_row_self]
      exact hplace
    · rw [Table.set_row_ne _ _ hji]
      exact hothers j hj hji (h.placed j hj)
  starts := by
    have ht := Table.total_set hi place Place.starts
    have := h.starts
    dsimp only
    omega
  handoffs := by
    have ht := Table.total_set hi place Place.handsOff
    have := h.handoffs
    dsimp only
    omega
  descriptors d := by
    have ht := Table.total_set hi place (Place.pending d)
    have hd := h.descriptors d
    have := hdesc d
    dsimp only
    omega
  live := hlive

lemma placed_same {s : Shared} (h : Placed s place) (hs : s'.starting = s.starting)
    (hg : s'.generation = s.generation) (hr : s'.registration = s.registration)
    (hretry : s'.retryRegistration = s.retryRegistration) (hd : s'.descriptor = s.descriptor)
    (hstop : s'.stopped = s.stopped) (ha : s.accepted ≤ s'.accepted) : Placed s' place := by
  cases place with
  | accepted d g =>
    obtain ⟨h₁, h₂, h₃⟩ := h
    exact ⟨hstop ▸ h₁, hg ▸ h₂, h₃.trans_le ha⟩
  | listening | configuring | starting | stopping | finished => trivial
  | event r => exact h
  | _ => simpa only [Placed, hs, hg, hr, hretry, hd, hstop] using h

lemma Inv.no_starter (h : Inv st) (hi : i < st.threads.count) (hs : st.shared.starting = false) :
    (st.threads.row i).starts = 0 := by
  have hle := Table.le_total hi Place.starts
  have := h.starts
  rw [hs] at this
  simp only [Bool.toNat_false] at this
  omega

lemma Inv.other_starter (h : Inv st) {j : ℕ} (hi : i < st.threads.count) (hj : j < st.threads.count) (hji : j ≠ i)
    (hs : (st.threads.row i).starts = 1) : (st.threads.row j).starts = 0 := by
  have hle := Table.add_le_total hi hj hji.symm Place.starts
  have := h.starts
  have hb : st.shared.starting.toNat ≤ 1 := Bool.toNat_le _
  omega

lemma Inv.no_handoff (h : Inv st) (hi : i < st.threads.count) (ha : st.shared.activeHandoffs = 0) :
    (st.threads.row i).handsOff = 0 := by
  have hle := Table.le_total hi Place.handsOff
  have := h.handoffs
  omega

end Set

section Others

variable {s : Shared} {place : Place}

lemma placed_shut (h : Placed s place) (hs : s.starting = false) : Placed s.shut place := by
  cases place with
  | registering g | registeringRetry g =>
    rw [h.1] at hs
    cases hs
  | waiting g => exact ⟨h.1, fun hd => by cases hd⟩
  | callback t g r => exact ⟨h.1, fun _ hd => by cases hd⟩
  | accepted d g | handling g | leaving g | event r => exact h
  | _ => trivial

lemma placed_released (hok : s.Ok) (hs : s.starting = true) (hp : place.starts = 0)
    (hf : s.registration ≠ 0 → place.fetched ≠ some s.registration) (h : Placed s place) : Placed s.released place := by
  cases place with
  | registering g | registeringRetry g => cases hp
  | waiting g => exact h
  | callback t g r =>
    refine ⟨h.1, fun hg hd => ?_⟩
    obtain ⟨hne, ⟨-, rfl⟩ | ⟨-, rfl⟩⟩ := h.2 hg hd
    · exact absurd rfl (hf hne)
    · exact absurd (hok.starts hs).2.2 hne
  | accepted d g | handling g | leaving g | event r => exact h
  | _ => trivial

lemma placed_listens (hs : s.starting = false) (h : Placed s place) :
    Placed { s with descriptor := true, stopping := false, generation := s.generation + 1 } place := by
  cases place with
  | registering g | registeringRetry g =>
    rw [h.1] at hs
    cases hs
  | waiting g => exact ⟨h.1.trans (Nat.le_succ _), fun _ => Nat.lt_succ_of_le h.1⟩
  | callback t g r =>
    refine ⟨h.1.trans (Nat.le_succ _), fun hg _ => ?_⟩
    have := h.1
    dsimp only at hg
    omega
  | accepted d g => exact ⟨h.1, h.2.1.trans (Nat.le_succ _), h.2.2⟩
  | handling g | leaving g => exact ⟨h.1, h.2.trans (Nat.le_succ _)⟩
  | event r => exact h
  | _ => trivial

lemma placed_retired {generation : ℕ} (hp : place.handsOff = 0) (h : Placed s place) :
    Placed (s.retire generation) place := by
  cases place with
  | accepted d g | handling g | leaving g => cases hp
  | registering g | registeringRetry g | waiting g | callback t g r | event r => exact h
  | _ => trivial

lemma placed_starting (hp : place.starts = 0) (h : Placed s place) :
    Placed { s with events := true, starting := true } place := by
  cases place with
  | registering g | registeringRetry g => cases hp
  | waiting g | callback t g r | accepted d g | handling g | leaving g | event r => exact h
  | _ => trivial

lemma placed_listening (hok : s.Ok) (hs : s.starting = true) (hr : s.registration = 0) (hp : place.starts = 0)
    (registration : ℕ) (e : EventSet) (h : Placed s place) :
    Placed { s with registration := registration, epoll := e } place := by
  cases place with
  | registering g | registeringRetry g => cases hp
  | waiting g => exact h
  | callback t g r =>
    refine ⟨h.1, fun hg hd => ?_⟩
    obtain ⟨hne, ⟨-, rfl⟩ | ⟨-, rfl⟩⟩ := h.2 hg hd
    · exact absurd hr hne
    · exact absurd (hok.starts hs).2.2 hne
  | accepted d g | handling g | leaving g | event r => exact h
  | _ => trivial

lemma placed_retrying (hok : s.Ok) (hs : s.starting = true) (hp : place.starts = 0) (registration : ℕ) (e : EventSet)
    (h : Placed s place) :
    Placed { s with retryTimer := true, retryRegistration := registration, epoll := e, starting := false } place := by
  cases place with
  | registering g | registeringRetry g => cases hp
  | waiting g => exact h
  | callback t g r =>
    refine ⟨h.1, fun hg hd => ?_⟩
    obtain ⟨hne, ⟨rfl, rfl⟩ | ⟨-, rfl⟩⟩ := h.2 hg hd
    · exact ⟨hne, .inl ⟨rfl, rfl⟩⟩
    · exact absurd (hok.starts hs).2.2 hne
  | accepted d g | handling g | leaving g | event r => exact h
  | _ => trivial

end Others

lemma live_of_unregistered {s : Shared} {threads : Table Place} (h : s.registration = 0) : Live s threads :=
  fun hne => absurd h hne

section Steps

variable {st : State} {i : ℕ} {c : Choice}

lemma Inv.shut (h : Inv st) (hi : i < st.threads.count) (hs : st.shared.starting = false) {place : Place}
    (hplace : Placed st.shared.shut place) (hstarts : place.starts = 0)
    (hhands : place.handsOff = (st.threads.row i).handsOff)
    (hdesc : ∀ d, place.pending d = (st.threads.row i).pending d) :
    Inv ⟨st.shared.shut, st.threads.set i place⟩ := by
  have hnone := h.no_starter hi hs
  refine h.set hi (h.ok.shut hs) hplace (fun j _ _ hp => placed_shut hp hs) ?_ ?_ ?_ (live_of_unregistered rfl)
  · rw [hnone, hstarts]
    rfl
  · rw [hhands]
    rfl
  · intro d
    rw [hdesc d]
    rfl

lemma Inv.pass (h : Inv st) (hi : i < st.threads.count) {place : Place} (hplace : Placed st.shared place)
    (hstarts : place.starts = (st.threads.row i).starts) (hhands : place.handsOff = (st.threads.row i).handsOff)
    (hdesc : ∀ d, place.pending d = (st.threads.row i).pending d)
    (hp : st.shared.registration ≠ 0 →
      ((st.threads.row i).carries .ready st.shared.generation st.shared.registration →
        place.carries .ready st.shared.generation st.shared.registration) ∧
      ((st.threads.row i).carries .retry st.shared.generation st.shared.retryRegistration →
        place.carries .retry st.shared.generation st.shared.retryRegistration)) :
    Inv ⟨st.shared, st.threads.set i place⟩ := by
  refine h.set hi h.ok hplace (fun j _ _ hp => hp) (by rw [hstarts]) (by rw [hhands]) (fun d => by rw [hdesc d]) ?_
  exact h.live.set hi rfl rfl rfl rfl rfl hp

lemma passes_started {s : Shared} {target : Target} {g r : ℕ} (h : s.Ok) (hs : s.starting = false)
    (hp : Placed s (.callback target g r)) (hpass : s.passes g = true) :
    g = s.generation ∧ s.registration ≠ 0 ∧ s.retryRegistration ≠ 0 ∧
      (target = .ready ∧ r = s.registration ∨ target = .retry ∧ r = s.retryRegistration) := by
  simp only [Shared.passes, Bool.and_eq_true, Bool.not_eq_true', decide_eq_true_eq] at hpass
  obtain ⟨⟨-, hd⟩, rfl⟩ := hpass
  obtain ⟨hne, hr⟩ := hp.2 rfl hd
  have hreg : s.registration ≠ 0 := by
    rcases hr with ⟨-, rfl⟩ | ⟨-, rfl⟩
    · exact hne
    · exact (h.retry hne).1
  exact ⟨rfl, hreg, h.both hreg hs, hr⟩

lemma rejected_carries {s : Shared} {target t : Target} {g r r' : ℕ} (h : s.Ok) (hpass : s.passes g = false)
    (hr : s.registration ≠ 0) : ¬ (Place.callback target g r).carries t s.generation r' := by
  rintro ⟨-, rfl, -⟩
  obtain ⟨hd, -⟩ := h.listener hr
  simp [Shared.passes, hd, (h.opened hd).1] at hpass

lemma armed_arm {s : Shared} (h : s.Ok) (hr : s.registration ≠ 0) :
    (s.epoll.arm s.registration true).armed s.registration = true := by
  obtain ⟨-, -, armed, hid⟩ := h.listener hr
  rw [EventSet.armed, EventSet.arm_self, hid]
  rfl

lemma armed_arm_retry {s : Shared} (h : s.Ok) (hr : s.retryRegistration ≠ 0) :
    (s.epoll.arm s.retryRegistration true).armed s.retryRegistration = true := by
  obtain ⟨-, armed, hid⟩ := h.retry hr
  rw [EventSet.armed, EventSet.arm_self, hid]
  rfl

lemma Inv.rearm (h : Inv st) (hi : i < st.threads.count) (hs : st.shared.starting = false)
    (hr : st.shared.registration ≠ 0) {target : Target} {g r : ℕ} (hrow : st.threads.row i = .callback target g r)
    (ok : Bool) : Inv ⟨st.shared.rearmListener ok, st.threads.set i .finished⟩ := by
  rw [Shared.rearmListener_eq h.ok hr]
  cases ok with
  | false => exact h.shut hi hs trivial rfl (by rw [hrow]; rfl) (fun d => by rw [hrow]; rfl)
  | true =>
    refine h.set hi (h.ok.arm _ _) trivial (fun j _ _ hp => placed_same hp rfl rfl rfl rfl rfl rfl le_rfl) ?_ ?_ ?_ ?_
    · rw [hrow]
      rfl
    · rw [hrow]
      rfl
    · intro d
      rw [hrow]
      rfl
    · exact fun _ => .inl (armed_arm h.ok hr)

lemma Inv.park (h : Inv st) (hi : i < st.threads.count) (hs : st.shared.starting = false)
    (hr : st.shared.retryRegistration ≠ 0) {target : Target} {g r : ℕ} (hrow : st.threads.row i = .callback target g r)
    (ok : Bool) : Inv ⟨st.shared.parkListenerLocked ok, st.threads.set i .finished⟩ := by
  rw [Shared.parkListenerLocked_eq h.ok hr]
  cases ok with
  | false => exact h.shut hi hs trivial rfl (by rw [hrow]; rfl) (fun d => by rw [hrow]; rfl)
  | true =>
    have hok : Shared.Ok { st.shared with
        acceptBackoff := true, epoll := st.shared.epoll.arm st.shared.retryRegistration true } :=
      (h.ok.arm _ _).counted true st.shared.accepted
    refine h.set hi hok trivial (fun j _ _ hp => placed_same hp rfl rfl rfl rfl rfl rfl le_rfl) ?_ ?_ ?_ ?_
    · rw [hrow]
      rfl
    · rw [hrow]
      rfl
    · intro d
      rw [hrow]
      rfl
    · exact fun _ => .inr (.inr ⟨rfl, .inl (armed_arm_retry h.ok hr)⟩)

lemma Inv.accept (h : Inv st) (hi : i < st.threads.count) (hs : st.shared.starting = false)
    (hr : st.shared.registration ≠ 0) {r : ℕ} (hrow : st.threads.row i = .callback .ready st.shared.generation r)
    (ok : Bool) {s' : Shared}
    (hs' : s' = ({ st.shared with acceptBackoff := false, accepted := st.shared.accepted + 1 } : Shared).rearmListener ok) :
    Inv ⟨{ s' with activeHandoffs := s'.activeHandoffs + 1 },
      st.threads.set i (.accepted st.shared.accepted st.shared.generation)⟩ := by
  have hok := h.ok.counted false (st.shared.accepted + 1)
  have hopen := (h.ok.opened (h.ok.listener hr).1).2
  rw [Shared.rearmListener_eq hok hr] at hs'
  have hstarts : st.shared.starting.toNat + (st.threads.row i).starts = st.shared.starting.toNat := by
    rw [hrow]
    rfl
  have hhands : st.shared.activeHandoffs + 1 + (st.threads.row i).handsOff = st.shared.activeHandoffs + 1 := by
    rw [hrow]
    rfl
  have hdesc (d : ℕ) : st.shared.given d + st.shared.closed d +
      (Place.accepted st.shared.accepted st.shared.generation).pending d + (if d < st.shared.accepted then 1 else 0) =
      st.shared.given d + st.shared.closed d + (st.threads.row i).pending d +
        if d < st.shared.accepted + 1 then 1 else 0 := by
    rw [hrow]
    simp only [Place.pending]
    split_ifs <;> omega
  cases ok with
  | false =>
    simp only [Bool.false_eq_true, if_false] at hs'
    subst hs'
    refine h.set hi ((hok.shut hs).handed _ _ _) ⟨hopen, le_rfl, Nat.lt_succ_self _⟩ ?_ hstarts hhands hdesc
      (live_of_unregistered rfl)
    intro j hj _ hp
    have hp' : Placed { st.shared with acceptBackoff := false, accepted := st.shared.accepted + 1 } (st.threads.row j) :=
      placed_same hp rfl rfl rfl rfl rfl rfl (Nat.le_succ _)
    exact placed_same (placed_shut hp' hs) rfl rfl rfl rfl rfl rfl le_rfl
  | true =>
    simp only [if_true] at hs'
    subst hs'
    have ha := armed_arm hok hr
    refine h.set hi ((hok.arm _ _).handed _ _ _) ⟨hopen, le_rfl, Nat.lt_succ_self _⟩ ?_ hstarts hhands hdesc fun _ => .inl ha
    exact fun j _ _ hp => placed_same hp rfl rfl rfl rfl rfl rfl (Nat.le_succ _)

lemma Inv.push {s' : Shared} (h : Inv st) {place : Place} (hok : s'.Ok) (hplace : Placed s' place)
    (hothers : ∀ q, Placed st.shared q → Placed s' q) (hs : s'.starting = st.shared.starting)
    (ha : s'.activeHandoffs = st.shared.activeHandoffs)
    (hd : ∀ d, s'.given d + s'.closed d = st.shared.given d + st.shared.closed d)
    (ht : s'.accepted = st.shared.accepted) (hstarts : place.starts = 0) (hhands : place.handsOff = 0)
    (hpend : ∀ d, place.pending d = 0) (hlive : Live s' (st.threads.push place)) :
    Inv ⟨s', st.threads.push place⟩ where
  ok := hok
  placed j hj := by
    rw [Table.push_row]
    split
    · exact hplace
    · rename_i hne
      rw [Table.push_count] at hj
      exact hothers _ (h.placed j (by omega))
  starts := by rw [Table.total_push, h.starts, hstarts, hs, Nat.add_zero]
  handoffs := by rw [Table.total_push, h.handoffs, hhands, ha, Nat.add_zero]
  descriptors d := by
    have hk := h.descriptors d
    rw [Table.total_push, hpend, hd, Nat.add_zero, hk]
    simp only [turned, ht]
  live := hlive

lemma Inv.call (h : Inv st) (call : Call) : Inv ⟨st.shared, st.threads.push call.place⟩ := by
  refine h.push h.ok ?_ (fun _ hq => hq) rfl rfl (fun _ => rfl) rfl ?_ ?_ ?_ h.live.push
  · cases call <;> trivial
  · cases call <;> rfl
  · cases call <;> rfl
  · cases call <;> exact fun _ => rfl

lemma Inv.poll (h : Inv st) {registration : ℕ} (harmed : st.shared.epoll.armed registration = true) :
    Inv ⟨{ st.shared with epoll := st.shared.epoll.arm registration false },
      st.threads.push (.event registration)⟩ := by
  have hne : registration ≠ 0 := by
    cases hid : st.shared.epoll.registrations registration with
    | none => simp [EventSet.armed, hid] at harmed
    | some r => exact (h.ok.known registration r hid).1
  refine h.push (h.ok.arm _ _) hne (fun q hq => placed_same hq rfl rfl rfl rfl rfl rfl le_rfl) rfl rfl
    (fun _ => rfl) rfl rfl rfl (fun _ => rfl) ?_
  have hnew : st.threads.count < (st.threads.push (.event registration)).count := Nat.lt_succ_self _
  have hrow : (st.threads.push (.event registration)).row st.threads.count = .event registration := by
    rw [Table.push_row, if_pos rfl]
  have hkeep : ∀ r, r ≠ registration →
      (st.shared.epoll.arm registration false).armed r = st.shared.epoll.armed r := by
    intro r hr
    rw [EventSet.armed, EventSet.arm_ne _ _ _ _ hr]
    rfl
  intro hne
  by_cases hreg : st.shared.registration = registration
  · exact .inr (.inl ⟨_, hnew, by rw [hrow]; exact hreg.symm⟩)
  rcases (@Live.push _ _ (.event registration) h.live) hne with ha | hc | ⟨hback, ha | hc⟩
  · exact .inl ((hkeep _ hreg).trans ha)
  · exact .inr (.inl hc)
  · by_cases hretry : st.shared.retryRegistration = registration
    · exact .inr (.inr ⟨hback, .inr ⟨_, hnew, by rw [hrow]; exact hretry.symm⟩⟩)
    · exact .inr (.inr ⟨hback, .inl ((hkeep _ hretry).trans ha)⟩)
  · exact .inr (.inr ⟨hback, .inr hc⟩)

lemma Inv.lookup (h : Inv st) (hi : i < st.threads.count) {registration : ℕ} (hrow : st.threads.row i = .event registration) :
    Inv ⟨st.shared, st.threads.set i (match st.shared.epoll.registrations registration with
      | some r => .callback r.target r.generation registration
      | none => .finished)⟩ := by
  cases hid : st.shared.epoll.registrations registration with
  | none =>
    refine h.pass hi trivial (by rw [hrow]; rfl) (by rw [hrow]; rfl) (fun d => by rw [hrow]; rfl) fun hne => ⟨?_, ?_⟩
    · intro hc
      rw [hrow] at hc
      obtain rfl : registration = _ := hc
      obtain ⟨-, -, armed, hk⟩ := h.ok.listener hne
      rw [hid] at hk
      cases hk
    · intro hc
      rw [hrow] at hc
      obtain rfl : registration = _ := hc
      have hzero : st.shared.retryRegistration ≠ 0 := by
        have hp := h.placed i hi
        rwa [hrow] at hp
      obtain ⟨-, armed, hk⟩ := h.ok.retry hzero
      rw [hid] at hk
      cases hk
  | some r =>
    obtain ⟨hne, -, hg, hr⟩ := h.ok.known registration r hid
    refine h.pass hi ⟨hg.le, fun _ _ => ⟨hne, ?_⟩⟩ (by rw [hrow]; rfl) (by rw [hrow]; rfl) (fun d => by rw [hrow]; rfl)
      fun hreg => ⟨?_, ?_⟩
    · rcases hr with ⟨hr, ht⟩ | ⟨hr, ht⟩
      · exact .inl ⟨ht, hr⟩
      · exact .inr ⟨ht, hr⟩
    · intro hc
      rw [hrow] at hc
      obtain rfl : registration = _ := hc
      obtain ⟨-, -, armed, hk⟩ := h.ok.listener hreg
      obtain rfl := Option.some.inj (hid.symm.trans hk)
      exact ⟨rfl, rfl, rfl⟩
    · intro hc
      rw [hrow] at hc
      obtain rfl : registration = _ := hc
      obtain ⟨-, armed, hk⟩ := h.ok.retry hne
      obtain rfl := Option.some.inj (hid.symm.trans hk)
      exact ⟨rfl, rfl, rfl⟩

lemma Inv.reject (h : Inv st) (hi : i < st.threads.count) {target : Target} {g r : ℕ}
    (hrow : st.threads.row i = .callback target g r) (hpass : st.shared.passes g = false) :
    Inv ⟨st.shared, st.threads.set i .finished⟩ := by
  refine h.pass hi trivial (by rw [hrow]; rfl) (by rw [hrow]; rfl) (fun d => by rw [hrow]; rfl) fun hne => ⟨?_, ?_⟩
  · intro hc
    rw [hrow] at hc
    exact absurd hc (rejected_carries h.ok hpass hne)
  · intro hc
    rw [hrow] at hc
    exact absurd hc (rejected_carries h.ok hpass hne)

lemma Inv.onRetry (h : Inv st) (hi : i < st.threads.count) (hs : st.shared.starting = false) {g r : ℕ}
    (hrow : st.threads.row i = .callback .retry g r) : Inv ⟨st.shared.onRetry g c, st.threads.set i .finished⟩ := by
  have hp := h.placed i hi
  rw [hrow] at hp
  unfold Shared.onRetry
  cases hpass : st.shared.passes g with
  | false => exact h.reject hi hrow hpass
  | true =>
    obtain ⟨-, hr, -⟩ := passes_started h.ok hs hp hpass
    exact h.rearm hi hs hr hrow c.ok

lemma Inv.onReady (h : Inv st) (hi : i < st.threads.count) (hs : st.shared.starting = false) {g r : ℕ}
    (hrow : st.threads.row i = .callback .ready g r) :
    Inv ⟨(st.shared.onReady g c).1, st.threads.set i (st.shared.onReady g c).2⟩ := by
  have hp := h.placed i hi
  rw [hrow] at hp
  unfold Shared.onReady
  cases hpass : st.shared.passes g with
  | false => exact h.reject hi hrow hpass
  | true =>
    obtain ⟨rfl, hr, hretry, -⟩ := passes_started h.ok hs hp hpass
    cases c.accept with
    | exhausted => exact h.park hi hs hretry hrow c.ok
    | connection => exact h.accept hi hs hr hrow c.ok rfl
    | wouldBlock => exact h.rearm hi hs hr hrow c.ok
    | failed => exact h.rearm hi hs hr hrow c.ok

lemma carries_call {s : Shared} {place place' : Place} (hp : ∀ t g r, ¬ place.carries t g r) :
    s.registration ≠ 0 →
      (place.carries .ready s.generation s.registration → place'.carries .ready s.generation s.registration) ∧
      (place.carries .retry s.generation s.retryRegistration → place'.carries .retry s.generation s.retryRegistration) :=
  fun _ => ⟨fun hc => absurd hc (hp _ _ _), fun hc => absurd hc (hp _ _ _)⟩

lemma Inv.listen (h : Inv st) (hi : i < st.threads.count) (hs : st.shared.starting = false)
    (hrow : st.threads.row i = .listening) : Inv ⟨st.shared.listen c, st.threads.set i .finished⟩ := by
  have hcarry : ∀ t g r, ¬ (st.threads.row i).carries t g r := by
    rw [hrow]
    exact fun _ _ _ => id
  unfold Shared.listen
  split
  · exact h.pass hi trivial (by rw [hrow]; rfl) (by rw [hrow]; rfl) (fun d => by rw [hrow]; rfl) (carries_call hcarry)
  · rename_i hcond
    have hd : st.shared.descriptor = false := by
      simp only [Bool.or_eq_true, not_or, Bool.not_eq_true] at hcond
      exact hcond.1
    refine h.set hi (h.ok.listens hd hs) trivial (fun j _ _ hp => placed_listens hs hp) ?_ ?_ ?_ ?_
    · rw [hrow]
      rfl
    · rw [hrow]
      rfl
    · intro d
      rw [hrow]
      rfl
    · apply live_of_unregistered
      by_contra hr
      have := (h.ok.listener hr).1
      rw [hd] at this
      cases this

lemma Inv.configure (h : Inv st) (hi : i < st.threads.count) {s' : Shared}
    (hrow : st.threads.row i = .configuring) (hs : st.shared.setConnectionHandler c = some s') :
    Inv ⟨s', st.threads.set i .finished⟩ := by
  have hcarry : ∀ t g r, ¬ (st.threads.row i).carries t g r := by
    rw [hrow]
    exact fun _ _ _ => id
  unfold Shared.setConnectionHandler at hs
  split at hs
  · obtain rfl := Option.some.inj hs
    have hok : Shared.Ok { st.shared with handler := c.ok } :=
      ⟨h.ok.defined, h.ok.next, h.ok.known, h.ok.listener, h.ok.retry, h.ok.timer, h.ok.both, h.ok.opened, h.ok.starts, h.ok.stopped⟩
    refine h.set hi hok trivial (fun j _ _ hp => placed_same hp rfl rfl rfl rfl rfl rfl le_rfl) ?_ ?_ ?_
      (h.live.set hi rfl rfl rfl rfl rfl (carries_call hcarry))
    · rw [hrow]
      rfl
    · rw [hrow]
      rfl
    · intro d
      rw [hrow]
      rfl
  · cases hs

lemma Inv.start (h : Inv st) (hi : i < st.threads.count) (hs : st.shared.starting = false) {s' : Shared} {place : Place}
    (hrow : st.threads.row i = .starting) (hstep : st.shared.start c = some (s', place)) :
    Inv ⟨s', st.threads.set i place⟩ := by
  have hcarry : ∀ t g r, ¬ (st.threads.row i).carries t g r := by
    rw [hrow]
    exact fun _ _ _ => id
  unfold Shared.start at hstep
  split at hstep
  · cases hstep
  rename_i hready
  simp only [Bool.or_eq_true, Bool.not_eq_true', not_or, Bool.not_eq_false] at hready
  split at hstep
  · obtain ⟨rfl, rfl⟩ := of_some_pair hstep
    exact h.pass hi trivial (by rw [hrow]; rfl) (by rw [hrow]; rfl) (fun d => by rw [hrow]; rfl) (carries_call hcarry)
  rename_i hr
  have hr : st.shared.registration = 0 := by simpa using hr
  split at hstep
  · obtain ⟨rfl, rfl⟩ := of_some_pair hstep
    refine h.set hi (h.ok.unstarted hs hr) trivial (fun j _ _ hp => placed_same hp rfl rfl rfl rfl rfl rfl le_rfl) ?_ ?_ ?_
      (live_of_unregistered hr)
    · rw [hrow]
      rfl
    · rw [hrow]
      rfl
    · intro d
      rw [hrow]
      rfl
  · obtain ⟨rfl, rfl⟩ := of_some_pair hstep
    refine h.set hi (h.ok.starting hready.1 hr) ⟨rfl, rfl, hr⟩
      (fun j hj _ hp => placed_starting (h.no_starter hj hs) hp) ?_ ?_ ?_ (live_of_unregistered hr)
    · rw [hrow, hs]
      rfl
    · rw [hrow]
      rfl
    · intro d
      rw [hrow]
      rfl

lemma Inv.release (h : Inv st) (hi : i < st.threads.count) (hs : st.shared.starting = true)
    (hone : (st.threads.row i).starts = 1) (hhands : (st.threads.row i).handsOff = 0)
    (hpend : ∀ d, (st.threads.row i).pending d = 0)
    (hf : st.shared.registration ≠ 0 → ∀ j < st.threads.count, (st.threads.row j).fetched ≠ some st.shared.registration) :
    Inv ⟨st.shared.release, st.threads.set i .finished⟩ := by
  rw [Shared.release_eq h.ok hs]
  refine h.set hi (h.ok.released hs) trivial ?_ ?_ ?_ ?_ (live_of_unregistered rfl)
  · intro j hj hji hp
    exact placed_released h.ok hs (h.other_starter hi hj hji hone) (fun hr => hf hr j hj) hp
  · rw [hone, hs]
    rfl
  · rw [hhands]
    rfl
  · intro d
    rw [hpend]
    rfl

lemma Inv.registerListener (h : Inv st) (hi : i < st.threads.count) {g : ℕ}
    (hrow : st.threads.row i = .registering g) :
    Inv ⟨(st.shared.registerListener g c).1, st.threads.set i (st.shared.registerListener g c).2⟩ := by
  have hp := h.placed i hi
  rw [hrow] at hp
  obtain ⟨hs, rfl, hr⟩ := hp
  have hone : (st.threads.row i).starts = 1 := by rw [hrow]; rfl
  unfold Shared.registerListener
  cases c.ok with
  | false =>
    exact h.release hi hs hone (by rw [hrow]; rfl) (fun d => by rw [hrow]; rfl) (fun hne => absurd hr hne)
  | true =>
    refine h.set hi (h.ok.listening hs hr) ⟨hs, rfl, h.ok.next.ne'⟩ ?_ ?_ ?_ ?_ ?_
    · intro j hj hji hp
      exact placed_listening h.ok hs hr (h.other_starter hi hj hji hone) _ _ hp
    · rw [hrow]
      rfl
    · rw [hrow]
      rfl
    · intro d
      rw [hrow]
      rfl
    · refine fun _ => .inl ?_
      change EventSet.armed (st.shared.epoll.register _) st.shared.epoll.nextRegistration = true
      rw [EventSet.armed, EventSet.register_self]
      rfl

lemma Inv.registerRetry (h : Inv st) (hi : i < st.threads.count) {g : ℕ}
    (hrow : st.threads.row i = .registeringRetry g)
    (hf : c.ok = false → ∀ j < st.threads.count, (st.threads.row j).fetched ≠ some st.shared.registration) :
    Inv ⟨st.shared.registerRetry g c, st.threads.set i .finished⟩ := by
  have hp := h.placed i hi
  rw [hrow] at hp
  obtain ⟨hs, rfl, hr⟩ := hp
  have hone : (st.threads.row i).starts = 1 := by rw [hrow]; rfl
  have hcarry : ∀ t g r, ¬ (st.threads.row i).carries t g r := by
    rw [hrow]
    exact fun _ _ _ => id
  unfold Shared.registerRetry
  cases hc : c.ok with
  | false =>
    exact h.release hi hs hone (by rw [hrow]; rfl) (fun d => by rw [hrow]; rfl) (fun _ => hf hc)
  | true =>
    have hok := h.ok.retrying hs hr
    refine h.set hi hok trivial ?_ ?_ ?_ ?_ ?_
    · intro j hj hji hp
      exact placed_retrying h.ok hs (h.other_starter hi hj hji hone) _ _ hp
    · rw [hrow, hs]
      rfl
    · rw [hrow]
      rfl
    · intro d
      rw [hrow]
      rfl
    · intro hne
      have hretry := (h.ok.starts hs).2.2
      obtain ⟨-, -, armed, hid⟩ := h.ok.listener hr
      have hlt := (h.ok.known _ _ hid).2.1
      have hkeep : (st.shared.epoll.register ⟨.retry, st.shared.generation, false⟩).armed st.shared.registration =
          st.shared.epoll.armed st.shared.registration := by
        rw [EventSet.armed, EventSet.register_ne _ _ _ hlt.ne]
        rfl
      have hnone : st.shared.epoll.armed st.shared.retryRegistration = false := by
        rw [hretry]
        cases hk : st.shared.epoll.registrations 0 with
        | none => rw [EventSet.armed, hk]; rfl
        | some r => exact absurd rfl (h.ok.known 0 r hk).1
      rcases h.live hr with ha | ⟨j, hj, hcj⟩ | ⟨-, ha | ⟨j, hj, hcj⟩⟩
      · exact .inl (hkeep.trans ha)
      · refine .inr (.inl ⟨j, hj, ?_⟩)
        rw [Table.set_row_ne _ _ (fun hji => hcarry _ _ _ (hji ▸ hcj))]
        exact hcj
      · rw [hnone] at ha
        cases ha
      · have hpj := h.placed j hj
        cases hrowj : st.threads.row j with
        | event r =>
          rw [hrowj] at hpj hcj
          obtain rfl : r = _ := hcj
          exact absurd hretry hpj
        | callback t g r =>
          rw [hrowj] at hpj hcj
          obtain ⟨rfl, rfl, rfl⟩ := hcj
          exact absurd hretry (hpj.2 rfl (h.ok.starts hs).1).1
        | _ =>
          rw [hrowj] at hcj
          cases hcj

lemma Inv.retire (h : Inv st) (hi : i < st.threads.count) {g : ℕ} (hrow : (st.threads.row i).starts = 0)
    (hhands : (st.threads.row i).handsOff = 0) (hpend : ∀ d, (st.threads.row i).pending d = 0)
    (hs : st.shared.starting = false) (hr : st.shared.registration = 0) (hg : g ≤ st.shared.generation)
    (hd : st.shared.descriptor = true → g < st.shared.generation) (ha : st.shared.activeHandoffs = 0) :
    Inv ⟨st.shared.retire g, st.threads.set i .finished⟩ := by
  refine h.set hi (h.ok.retired hr hs hg hd) trivial ?_ ?_ ?_ ?_ (live_of_unregistered hr)
  · intro j hj _ hp
    exact placed_retired (h.no_handoff hj ha) hp
  · rw [hrow]
    rfl
  · rw [hhands]
    rfl
  · intro d
    rw [hpend]
    rfl

lemma Inv.stop (h : Inv st) (hi : i < st.threads.count) (hs : st.shared.starting = false)
    (hrow : st.threads.row i = .stopping) : Inv ⟨st.shared.stop.1, st.threads.set i st.shared.stop.2⟩ := by
  have hshut : ∀ place : Place, Placed st.shared.shut place → place.starts = 0 → place.handsOff = 0 →
      (∀ d, place.pending d = 0) → Inv ⟨st.shared.shut, st.threads.set i place⟩ := by
    intro place hplace hstarts hhands hpend
    exact h.shut hi hs hplace hstarts (by rw [hhands, hrow]; rfl) (fun d => by rw [hpend, hrow]; rfl)
  unfold Shared.stop
  rw [Shared.closeListenerLocked_eq h.ok]
  dsimp only
  split
  · rename_i ha
    have hinv := hshut .finished trivial rfl rfl (fun _ => rfl)
    have hself : (st.threads.set i .finished).row i = .finished := Table.set_row_self ..
    have hret := hinv.retire (g := st.shared.generation) hi (by rw [hself]; rfl) (by rw [hself]; rfl)
      (fun d => by rw [hself]; rfl) hs rfl le_rfl (fun hd => by cases hd) ha
    have hset : (st.threads.set i .finished).set i .finished = st.threads.set i .finished := by
      simp only [Table.set, Function.update_idem]
    rw [hset] at hret
    exact hret
  · exact hshut _ ⟨le_rfl, fun hd => by cases hd⟩ rfl rfl fun _ => rfl

lemma Inv.handOff (h : Inv st) (hi : i < st.threads.count) {d g : ℕ} {given closed : ℕ → ℕ} {place : Place}
    (hrow : st.threads.row i = .accepted d g) (hplace : Placed st.shared place) (hstarts : place.starts = 0)
    (hhands : place.handsOff = 1) (hpend : ∀ e, place.pending e = 0)
    (hcount : ∀ e, given e + closed e = st.shared.given e + st.shared.closed e + if d = e then 1 else 0) :
    Inv ⟨{ st.shared with given := given, closed := closed }, st.threads.set i place⟩ := by
  have hcarry : ∀ t g r, ¬ (st.threads.row i).carries t g r := by
    rw [hrow]
    exact fun _ _ _ => id
  refine h.set hi (h.ok.handed _ _ _) (placed_same hplace rfl rfl rfl rfl rfl rfl le_rfl)
    (fun j _ _ hp => placed_same hp rfl rfl rfl rfl rfl rfl le_rfl) ?_ ?_ ?_
    (h.live.set hi rfl rfl rfl rfl rfl (carries_call hcarry))
  · rw [hrow, hstarts]
    rfl
  · rw [hrow, hhands]
    rfl
  · intro e
    have := hcount e
    rw [hrow, hpend]
    simp only [Place.pending, turned]
    omega

lemma Inv.leave (h : Inv st) (hi : i < st.threads.count) {g : ℕ} (hrow : st.threads.row i = .leaving g) :
    Inv ⟨{ st.shared with activeHandoffs := st.shared.activeHandoffs - 1 }, st.threads.set i .finished⟩ := by
  have hcarry : ∀ t g r, ¬ (st.threads.row i).carries t g r := by
    rw [hrow]
    exact fun _ _ _ => id
  refine h.set hi (h.ok.handed _ _ _) trivial (fun j _ _ hp => placed_same hp rfl rfl rfl rfl rfl rfl le_rfl) ?_ ?_ ?_
    (h.live.set hi rfl rfl rfl rfl rfl (carries_call hcarry))
  · rw [hrow]
    rfl
  · have hle := Table.le_total hi Place.handsOff
    rw [h.handoffs, hrow] at hle
    rw [hrow]
    simp only [Place.handsOff] at hle ⊢
    omega
  · intro d
    rw [hrow]
    rfl

end Steps

lemma bump_given {given closed : ℕ → ℕ} {d e : ℕ} :
    Shared.bump given d e + closed e = given e + closed e + if d = e then 1 else 0 := by
  unfold Shared.bump
  split
  · rename_i heq
    subst heq
    rw [Function.update_self]
    omega
  · rename_i hne
    rw [Function.update_of_ne (Ne.symm hne)]
    omega

lemma bump_closed {given closed : ℕ → ℕ} {d e : ℕ} :
    given e + Shared.bump closed d e = given e + closed e + if d = e then 1 else 0 := by
  rw [Nat.add_comm, bump_given, Nat.add_comm (closed e)]

lemma Inv.init : Inv {} where
  ok := by
    refine ⟨rfl, by decide, ?_, fun h => absurd rfl h, fun h => absurd rfl h, by decide, fun h => absurd rfl h, ?_, ?_, le_rfl⟩
    · intro id r hid
      cases hid
    · intro hd
      cases hd
    · intro hs
      cases hs
  placed j hj := absurd hj (Nat.not_lt_zero j)
  starts := rfl
  handoffs := rfl
  descriptors _ := rfl
  live h := absurd rfl h

section Run

variable {s s' : State} {e : Event}

lemma Inv.advance {i : ℕ} {c : Choice} {shared : Shared} {place : Place} (h : Inv s) (hi : i < s.threads.count)
    (hlock : ¬ (s.shared.starting = true ∧ (s.threads.row i).locks = true))
    (ht : timely s (.advance i c) = true) (hstep : advance s.shared c (s.threads.row i) = some (shared, place)) :
    Inv ⟨shared, s.threads.set i place⟩ := by
  have hfree : (s.threads.row i).locks = true → s.shared.starting = false :=
    fun hl => Bool.eq_false_iff.mpr fun hs => hlock ⟨hs, hl⟩
  have hp := h.placed i hi
  cases hrow : s.threads.row i with
  | listening =>
    rw [hrow] at hstep hfree
    obtain ⟨rfl, rfl⟩ := of_some_pair hstep
    exact h.listen hi (hfree rfl) hrow
  | configuring =>
    rw [hrow] at hstep
    obtain ⟨s', hs', heq⟩ := Option.map_eq_some_iff.mp hstep
    obtain ⟨rfl, rfl⟩ := Prod.mk.inj heq
    exact h.configure hi hrow hs'
  | starting =>
    rw [hrow] at hstep hfree
    exact h.start hi (hfree rfl) hrow hstep
  | registering g =>
    rw [hrow] at hstep
    obtain ⟨rfl, rfl⟩ := of_some_pair hstep
    exact h.registerListener hi hrow
  | registeringRetry g =>
    have hf : c.ok = false → ∀ j < s.threads.count, (s.threads.row j).fetched ≠ some s.shared.registration := by
      intro hok
      simp only [timely, hrow, hok, Bool.false_or, List.all_eq_true, List.mem_range, decide_eq_true_eq] at ht
      exact ht
    rw [hrow] at hstep
    obtain ⟨rfl, rfl⟩ := of_some_pair hstep
    exact h.registerRetry hi hrow hf
  | stopping =>
    rw [hrow] at hstep hfree
    obtain ⟨rfl, rfl⟩ := of_some_pair hstep
    exact h.stop hi (hfree rfl) hrow
  | waiting g =>
    have hr : s.shared.registration = 0 := by
      simp only [timely, hrow, decide_eq_true_eq] at ht
      exact ht
    rw [hrow] at hstep hp hfree
    obtain ⟨ha, rfl, rfl⟩ := of_guard_pair hstep
    exact h.retire hi (by rw [hrow]; rfl) (by rw [hrow]; rfl) (fun d => by rw [hrow]; rfl) (hfree rfl) hr hp.1 hp.2 ha
  | event r =>
    rw [hrow] at hstep
    obtain ⟨rfl, rfl⟩ := of_some_pair hstep
    exact h.lookup hi hrow
  | callback target g r =>
    rw [hrow] at hstep hfree
    cases target with
    | ready =>
      have hready : s.shared.onReady g c = (shared, place) := Option.some.inj hstep
      have hinv := @Inv.onReady s i c h hi (hfree rfl) g r hrow
      rwa [hready] at hinv
    | retry =>
      obtain ⟨rfl, rfl⟩ := of_some_pair hstep
      exact h.onRetry hi (hfree rfl) hrow
  | accepted d g =>
    rw [hrow] at hstep hp
    obtain ⟨hstop, hg, -⟩ := hp
    simp only [EpollAcceptor.advance] at hstep
    split at hstep
    · obtain ⟨rfl, rfl⟩ := of_some_pair hstep
      exact h.handOff hi hrow ⟨hstop, hg⟩ rfl rfl (fun _ => rfl) fun _ => bump_given
    · obtain ⟨rfl, rfl⟩ := of_some_pair hstep
      exact h.handOff hi hrow ⟨hstop, hg⟩ rfl rfl (fun _ => rfl) fun _ => bump_closed
  | handling g =>
    rw [hrow] at hstep hp
    obtain ⟨rfl, rfl⟩ := of_some_pair hstep
    refine h.pass hi hp (by rw [hrow]; rfl) (by rw [hrow]; rfl) (fun d => by rw [hrow]; rfl) (carries_call ?_)
    rw [hrow]
    exact fun _ _ _ => id
  | leaving g =>
    rw [hrow] at hstep
    obtain ⟨rfl, rfl⟩ := of_some_pair hstep
    exact h.leave hi hrow
  | finished =>
    rw [hrow] at hstep
    cases hstep

lemma Inv.step (h : Inv s) (hstep : timelyStep s e = some s') : Inv s' := by
  unfold timelyStep at hstep
  split at hstep
  swap
  · cases hstep
  rename_i ht
  cases e with
  | call call =>
    obtain rfl := Option.some.inj hstep
    exact h.call call
  | poll registration =>
    obtain ⟨harmed, rfl⟩ := of_guard hstep
    exact h.poll harmed
  | advance i c =>
    simp only [EpollAcceptor.step, Option.ite_none_right_eq_some] at hstep
    obtain ⟨⟨hi, -, hlock⟩, hstep⟩ := hstep
    obtain ⟨⟨shared, place⟩, hadv, rfl⟩ := Option.map_eq_some_iff.mp hstep
    exact h.advance hi hlock ht hadv

lemma inv_of_reached (h : Reachable timelyStep (· = {}) s) : Inv s :=
  h.invariant (fun _ hs => hs ▸ Inv.init) fun _ _ _ hi hs => hi.step hs

end Run

section Stopped

variable {s : Shared} {c : Choice}

lemma closeListenerLocked_stopped : s.closeListenerLocked.stopped = s.stopped := by
  unfold Shared.closeListenerLocked Shared.remove
  dsimp only
  repeat' split
  all_goals rfl

lemma rearm_stopped {id : ℕ} {ok : Bool} : (s.rearm id ok).2.stopped = s.stopped := by
  unfold Shared.rearm
  split <;> rfl

lemma rearmListener_stopped {ok : Bool} : (s.rearmListener ok).stopped = s.stopped := by
  unfold Shared.rearmListener
  dsimp only
  split
  · exact rearm_stopped
  · exact closeListenerLocked_stopped.trans rearm_stopped

lemma parkListenerLocked_stopped {ok : Bool} : (s.parkListenerLocked ok).stopped = s.stopped := by
  have hs : (({ s with acceptBackoff := true } : Shared).scheduleRetryLocked ok).2.stopped = s.stopped := by
    unfold Shared.scheduleRetryLocked
    split
    · rfl
    · exact rearm_stopped
  unfold Shared.parkListenerLocked
  dsimp only
  split
  · exact hs
  · exact closeListenerLocked_stopped.trans hs

lemma onReady_stopped {g : ℕ} : (s.onReady g c).1.stopped = s.stopped := by
  unfold Shared.onReady
  split
  · rfl
  cases c.accept with
  | exhausted => exact parkListenerLocked_stopped
  | connection => exact rearmListener_stopped
  | wouldBlock => exact rearmListener_stopped
  | failed => exact rearmListener_stopped

lemma onRetry_stopped {g : ℕ} : (s.onRetry g c).stopped = s.stopped := by
  unfold Shared.onRetry
  split
  · exact rearmListener_stopped
  · rfl

lemma release_stopped : s.release.stopped = s.stopped := by
  unfold Shared.release Shared.remove
  dsimp only
  repeat' split
  all_goals rfl

lemma start_stopped {s' : Shared} {place : Place} (h : s.start c = some (s', place)) : s'.stopped = s.stopped := by
  unfold Shared.start at h
  repeat' split at h
  all_goals cases h
  all_goals rfl

lemma advance_stopped {s' : Shared} {place place' : Place} (h : advance s c place = some (s', place')) :
    s.stopped ≤ s'.stopped := by
  cases place with
  | listening =>
    obtain ⟨rfl, -⟩ := of_some_pair h
    unfold Shared.listen
    split <;> exact le_rfl
  | configuring =>
    obtain ⟨s'', hs, heq⟩ := Option.map_eq_some_iff.mp h
    obtain ⟨rfl, -⟩ := Prod.mk.inj heq
    unfold Shared.setConnectionHandler at hs
    split at hs <;> cases hs
    exact le_rfl
  | starting => exact (start_stopped h).ge
  | registering g =>
    have hs : s.registerListener g c = (s', place') := Option.some.inj h
    unfold Shared.registerListener at hs
    split at hs
    · obtain ⟨rfl, -⟩ := Prod.mk.inj hs
      exact release_stopped.ge
    · obtain ⟨rfl, -⟩ := Prod.mk.inj hs
      exact le_rfl
  | registeringRetry g =>
    obtain ⟨rfl, -⟩ := of_some_pair h
    unfold Shared.registerRetry
    split
    · exact release_stopped.ge
    · exact le_rfl
  | stopping =>
    have hs : s.stop = (s', place') := Option.some.inj h
    unfold Shared.stop at hs
    dsimp only at hs
    split at hs
    · obtain ⟨rfl, -⟩ := Prod.mk.inj hs
      exact closeListenerLocked_stopped.ge.trans (le_max_left _ _)
    · obtain ⟨rfl, -⟩ := Prod.mk.inj hs
      exact closeListenerLocked_stopped.ge
  | waiting g =>
    obtain ⟨-, rfl, -⟩ := of_guard_pair h
    exact le_max_left _ _
  | callback target g r =>
    cases target with
    | ready =>
      have hready : s.onReady g c = (s', place') := Option.some.inj h
      have hs := @onReady_stopped s c g
      rw [hready] at hs
      exact hs.ge
    | retry =>
      obtain ⟨rfl, -⟩ := of_some_pair h
      exact onRetry_stopped.ge
  | accepted d g =>
    simp only [advance] at h
    split at h
    · obtain ⟨rfl, -⟩ := of_some_pair h
      exact le_rfl
    · obtain ⟨rfl, -⟩ := of_some_pair h
      exact le_rfl
  | finished => cases h
  | _ =>
    obtain ⟨rfl, -⟩ := of_some_pair h
    exact le_rfl

lemma stopped_mono {st st' : State} (h : Steps timelyStep st st') : st.shared.stopped ≤ st'.shared.stopped := by
  refine h.invariant (P := fun t => st.shared.stopped ≤ t.shared.stopped) le_rfl fun t e t' ht hstep => ht.trans ?_
  unfold timelyStep at hstep
  split at hstep
  swap
  · cases hstep
  cases e with
  | call call =>
    obtain rfl := Option.some.inj hstep
    exact le_rfl
  | poll registration =>
    obtain ⟨-, rfl⟩ := of_guard hstep
    exact le_rfl
  | advance i c =>
    simp only [step, Option.ite_none_right_eq_some] at hstep
    obtain ⟨⟨shared, place⟩, hadv, rfl⟩ := Option.map_eq_some_iff.mp hstep.2
    exact advance_stopped hadv

end Stopped

structure Sound (s : State) : Prop where
  started : ∀ i < s.threads.count, ∀ target g r, s.threads.row i = .callback target g r →
    s.shared.starting = false → s.shared.passes g = true → s.shared.events = true ∧ s.shared.registration ≠ 0
  descriptors : ∀ d < s.shared.accepted,
    s.shared.given d + s.shared.closed d + s.threads.total (Place.pending d) = 1
  handoffs : s.shared.activeHandoffs = s.threads.total Place.handsOff
  periods : ∀ i < s.threads.count, ∀ g, s.threads.row i = .handling g → s.shared.stopped < g
  live : s.shared.descriptor = true → Live s.shared s.threads
  defined : s.shared.undefined = false

/-- As long as no `Start` gives up its listener while a worker holds the callback and no waiting `Stop` ends on a
registered listener, the acceptor keeps its promises; the handlers of a period do not outlast its `Stop`. -/
theorem sound_of_timely {s : State} (h : Reachable timelyStep (· = {}) s) :
    Sound s ∧ ∀ s', Steps timelyStep s s' → ∀ i < s'.threads.count, ∀ g, s'.threads.row i = .handling g →
      s.shared.stopped < g := by
  have key : ∀ {s : State}, Inv s → ∀ i < s.threads.count, ∀ g, s.threads.row i = .handling g → s.shared.stopped < g := by
    intro s hi i hlt g hrow
    have hp := hi.placed i hlt
    rw [hrow] at hp
    exact hp.1
  have hi := inv_of_reached h
  refine ⟨⟨?_, ?_, hi.handoffs.symm, key hi, fun _ => hi.live, hi.ok.defined⟩, ?_⟩
  · intro i hlt target g r hrow hs hpass
    have hp := hi.placed i hlt
    rw [hrow] at hp
    obtain ⟨-, hr, -⟩ := passes_started hi.ok hs hp hpass
    exact ⟨(hi.ok.listener hr).2.1, hr⟩
  · intro d hd
    rw [hi.descriptors d, turned, if_pos hd]
  · intro s' hsteps i hlt g hrow
    exact (stopped_mono hsteps).trans_lt (key (inv_of_reached (h.steps hsteps)) i hlt g hrow)

def firstConnection : List Event :=
  [.call .listen, .advance 0 {}, .call .setConnectionHandler, .advance 1 {}, .call .start, .advance 2 {}, .advance 2 {},
    .advance 2 {}, .poll 1, .advance 3 {}, .advance 3 {}, .advance 3 {}]

theorem sound_of_timely_first : ∃ s, run timelyStep {} firstConnection = some s ∧ s.shared.given 0 = 1 ∧ Sound s := by
  refine ⟨_, rfl, rfl, ?_⟩
  exact (sound_of_timely ⟨{}, rfl, firstConnection, rfl⟩).1

def failedStart : List Event :=
  [.call .listen, .advance 0 {}, .call .setConnectionHandler, .advance 1 {}, .call .start, .advance 2 {}, .advance 2 {},
    .poll 1, .advance 3 {}, .advance 2 { ok := false }]

theorem late_callback_passes : ¬ ∀ s, Reached s → Sound s := by
  intro h
  have hreached : ∃ s, run step {} failedStart = some s ∧ s.threads.row 3 = .callback .ready 1 1 ∧ 3 < s.threads.count ∧
      s.shared.starting = false ∧ s.shared.passes 1 = true ∧ s.shared.events = false :=
    ⟨_, rfl, rfl, by decide, rfl, rfl, rfl⟩
  obtain ⟨s, hrun, hrow, hlt, hs, hpass, he⟩ := hreached
  have hsound := h s ⟨{}, rfl, failedStart, hrun⟩
  have hstarted := (hsound.started 3 hlt _ _ _ hrow hs hpass).1
  rw [he] at hstarted
  cases hstarted

end ServerCore.Net.EpollAcceptor
