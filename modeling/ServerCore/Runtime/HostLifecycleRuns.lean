import ServerCore.Runtime.HostLifecycle

/-! What holds in every state of the host. -/

namespace ServerCore.Runtime.HostLifecycle

open ServerCore.Foundations

namespace Session

def isBegun : Session → Bool
  | .begun => true
  | _ => false

def isTracked : Session → Bool
  | .tracked _ => true
  | _ => false

def unfinished (s : Session) : Bool := s.isBegun || s.isTracked

end Session

lemma tally_unfinished (sessions : Table Session) :
    sessions.tally Session.unfinished = sessions.tally Session.isBegun + sessions.tally Session.isTracked := by
  unfold Table.tally
  rw [← Table.total_add]
  congr 1
  funext session
  cases session <;> rfl

structure Partition (slots : List (Option ℕ)) (free : List ℕ) (sessions : Table Session) : Prop where
  nodup : free.Nodup
  listed : ∀ k, k ∈ free ↔ slots[k]? = some none
  used : ∀ k session, slots[k]? = some (some session) ↔ session < sessions.count ∧ sessions.row session = .tracked k
  count : free.length + sessions.tally Session.isTracked = slots.length

namespace Partition

variable {slots : List (Option ℕ)} {free : List ℕ} {sessions : Table Session} {session k : ℕ}

lemma fresh (n : ℕ) (hs : sessions.count = 0) : Partition (List.replicate n none) (List.range n) sessions where
  nodup := List.nodup_range
  listed k := by
    rw [List.mem_range, List.getElem?_replicate]
    split
    · rename_i h
      exact ⟨fun _ => rfl, fun _ => h⟩
    · rename_i h
      exact ⟨fun hk => absurd hk h, fun hk => by cases hk⟩
  used k session := by
    rw [List.getElem?_replicate, hs]
    constructor
    · intro h
      split at h <;> cases h
    · rintro ⟨h, -⟩
      exact absurd h (Nat.not_lt_zero _)
  count := by
    have hzero : sessions.tally Session.isTracked = 0 := by
      unfold Table.tally Table.total
      rw [hs]
      rfl
    rw [hzero, List.length_range, List.length_replicate]
    rfl

lemma push (h : Partition slots free sessions) : Partition slots free (sessions.push .begun) where
  nodup := h.nodup
  listed := h.listed
  used k session := by
    rw [h.used, Table.push_count, Table.push_row]
    constructor
    · rintro ⟨hlt, hrow⟩
      exact ⟨by omega, by rw [if_neg hlt.ne, hrow]⟩
    · rintro ⟨hlt, hrow⟩
      split at hrow
      · cases hrow
      · exact ⟨by omega, hrow⟩
  count := by
    rw [Table.tally_push]
    exact h.count

lemma track {index : ℕ} {rest : List ℕ} (h : Partition slots (index :: rest) sessions) (hs : session < sessions.count)
    (hrow : sessions.row session = .begun) :
    Partition (slots.set index (some session)) rest (sessions.set session (.tracked index)) where
  nodup := (List.nodup_cons.mp h.nodup).2
  listed k := by
    obtain ⟨hnot, -⟩ := List.nodup_cons.mp h.nodup
    have hk := h.listed k
    rw [List.getElem?_set]
    by_cases hki : index = k
    · subst hki
      rw [if_pos rfl]
      constructor
      · intro hm
        exact absurd hm hnot
      · intro hsome
        split at hsome <;> cases hsome
    · rw [if_neg hki]
      rw [List.mem_cons] at hk
      exact ⟨fun hm => hk.mp (.inr hm), fun hm => (hk.mpr hm).resolve_left (Ne.symm hki)⟩
  used k other := by
    have hindex : slots[index]? = some none := (h.listed index).mp List.mem_cons_self
    have hlt : index < slots.length := (List.getElem?_eq_some_iff.mp hindex).1
    have hold := h.used k other
    rw [List.getElem?_set, Table.set_count, Table.set_row]
    by_cases hki : index = k
    · subst hki
      rw [if_pos rfl, if_pos hlt]
      constructor
      · intro heq
        obtain rfl := Option.some.inj (Option.some.inj heq)
        exact ⟨hs, if_pos rfl⟩
      · rintro ⟨hother, hrow'⟩
        split at hrow'
        · rename_i heq
          rw [heq]
        · have := hold.mpr ⟨hother, hrow'⟩
          rw [hindex] at this
          cases this
    · rw [if_neg hki]
      by_cases hsame : other = session
      · subst hsame
        rw [if_pos rfl, hold, hrow]
        constructor
        · rintro ⟨-, heq⟩
          cases heq
        · rintro ⟨-, heq⟩
          exact absurd (Session.tracked.inj heq) hki
      · rw [if_neg hsame, hold]
  count := by
    have ht := Table.tally_set hs (.tracked index) Session.isTracked
    have hc := h.count
    rw [hrow] at ht
    simp only [Session.isTracked, Bool.toNat_true, Bool.toNat_false, List.length_cons] at ht hc
    rw [List.length_set]
    omega

lemma finish {index : ℕ} (h : Partition slots free sessions) (hs : session < sessions.count)
    (hrow : sessions.row session = .tracked index) :
    Partition (slots.set index none) (index :: free) (sessions.set session .finished) where
  nodup := by
    refine List.nodup_cons.mpr ⟨fun hm => ?_, h.nodup⟩
    have hused := (h.used index session).mpr ⟨hs, hrow⟩
    rw [(h.listed index).mp hm] at hused
    cases hused
  listed k := by
    have hused := (h.used index session).mpr ⟨hs, hrow⟩
    have hlt : index < slots.length := (List.getElem?_eq_some_iff.mp hused).1
    rw [List.getElem?_set, List.mem_cons]
    by_cases hki : index = k
    · subst hki
      rw [if_pos rfl, if_pos hlt]
      exact ⟨fun _ => rfl, fun _ => .inl rfl⟩
    · rw [if_neg hki, ← h.listed k]
      exact ⟨fun hm => hm.resolve_left (Ne.symm hki), .inr⟩
  used k other := by
    have hused := (h.used index session).mpr ⟨hs, hrow⟩
    have hlt : index < slots.length := (List.getElem?_eq_some_iff.mp hused).1
    have hold := h.used k other
    rw [List.getElem?_set, Table.set_count, Table.set_row]
    by_cases hki : index = k
    · subst hki
      rw [if_pos rfl, if_pos hlt]
      constructor
      · intro heq
        cases Option.some.inj heq
      · rintro ⟨hother, hrow'⟩
        split at hrow'
        · cases hrow'
        · rename_i hne
          have := hold.mpr ⟨hother, hrow'⟩
          rw [hused] at this
          exact absurd (Option.some.inj (Option.some.inj this)).symm hne
    · rw [if_neg hki]
      by_cases hsame : other = session
      · subst hsame
        rw [if_pos rfl, hold, hrow]
        constructor
        · rintro ⟨-, heq⟩
          exact absurd (Session.tracked.inj heq) hki
        · rintro ⟨-, heq⟩
          cases heq
      · rw [if_neg hsame, hold]
  count := by
    have ht := Table.tally_set hs .finished Session.isTracked
    have hc := h.count
    rw [hrow] at ht
    simp only [Session.isTracked, Bool.toNat_true, Bool.toNat_false] at ht
    rw [List.length_set, List.length_cons]
    omega

lemma drop (h : Partition slots free sessions) (hs : session < sessions.count) (hrow : sessions.row session = .begun) :
    Partition slots free (sessions.set session .finished) where
  nodup := h.nodup
  listed := h.listed
  used k other := by
    rw [h.used, Table.set_count, Table.set_row]
    by_cases hsame : other = session
    · subst hsame
      rw [if_pos rfl, hrow]
      constructor
      · rintro ⟨-, heq⟩
        cases heq
      · rintro ⟨-, heq⟩
        cases heq
    · rw [if_neg hsame]
  count := by
    have ht := Table.tally_set hs .finished Session.isTracked
    have hc := h.count
    rw [hrow] at ht
    simp only [Session.isTracked, Bool.toNat_false] at ht
    omega

end Partition

lemma Partition.bounds {slots : List (Option ℕ)} {free : List ℕ} {sessions : Table Session} {session k : ℕ}
    (h : Partition slots free sessions) (hs : session < sessions.count) (hrow : sessions.row session = .tracked k) :
    free.length < slots.length := by
  have hpos : 0 < sessions.tally Session.isTracked := Table.tally_pos hs (by rw [hrow]; rfl)
  have hcount := h.count
  omega

namespace Shared

structure Ok (s : Shared) : Prop where
  accepting : s.accepting = true → s.prepared = true ∧ (s.lifecycle = .starting ∨ s.lifecycle = .running)
  unprepared : s.prepared = false → s.sessions.count = 0 ∧ s.freeSessionSlots = []
  empty : s.tearDowns = 0 → s.prepared = false → s.sessionSlots = []
  partition : s.prepared = true → Partition s.sessionSlots s.freeSessionSlots s.sessions
  length : s.prepared = true → s.sessionSlots.length = s.options.maxConcurrentSessions
  ready : s.lifecycle = .ready → s.prepared = false
  drainStarting : s.drainStarting = true → s.lifecycle = .running ∧ s.draining = true
  owners : s.lifecycle ≠ .stopped → s.acceptor ≠ .destroyed ∧ s.io ≠ .destroyed ∧ s.parsePool ≠ .destroyed
  jobThread : s.jobThread = true → s.lifecycle ≠ .stopped
  stopped : s.lifecycle = .stopped → s.outstandingSessions = 0
  outstanding : s.outstandingSessions = s.sessions.tally Session.unfinished
  limit : s.outstandingSessions ≤ s.options.maxConcurrentSessions
  dangling : s.dangling = false
  failed : s.failed = false

structure Keeps (s s' : Shared) : Prop where
  accepting : s.accepting = false → s'.accepting = false
  prepared : s'.prepared = s.prepared
  jobThread : s.jobThread = false → s'.jobThread = false
  stopped : s.lifecycle = .stopped → s'.lifecycle = .stopped
  settled : s.accepting = false → s.outstandingSessions = 0 →
    s'.outstandingSessions = 0 ∧ s'.inFlightCloseNotifications ≤ s.inFlightCloseNotifications

variable {s s' : Shared}

lemma Keeps.refl (s : Shared) : Keeps s s := ⟨id, rfl, id, id, fun _ h => ⟨h, le_rfl⟩⟩

lemma touch_eq {owner : Owner} (h : owner ≠ .destroyed) : s.touch owner = s := by
  unfold touch
  rw [decide_eq_false h, Bool.or_false]

lemma check_eq {condition : Bool} (h : condition = true) : s.check condition = s := by
  unfold check
  rw [h, Bool.not_true, Bool.or_false]

lemma Ok.not_accepting (h : s.Ok) (hs : s.lifecycle ≠ .starting) (hr : s.lifecycle ≠ .running) : s.accepting = false := by
  by_contra hne
  obtain ⟨-, hl⟩ := h.accepting (Bool.of_not_eq_false hne)
  exact hl.elim hs hr

end Shared

structure Counts (s : Shared) (count : (Place → Bool) → ℕ) : Prop where
  starts : count Place.starts = (decide (s.lifecycle = .starting)).toNat
  tears : count Place.tears = (decide (s.lifecycle = .stopping)).toNat
  drains : count Place.drains = s.drainStarting.toNat
  inFlight : count Place.inFlight = s.inFlightCloseNotifications
  tearDowns : s.tearDowns = count Place.fails + (decide (s.lifecycle = .stopping ∨ s.lifecycle = .stopped)).toNat

/-- What a call knows in front of its next event, `depth` being how deep its thread is in close notifications. -/
def Placed (s : Shared) (depth : ℕ) : Place → Prop
  | .starting .allocate => s.prepared = false ∧ s.accepting = false
  | .starting _ => s.prepared = true
  | .tearing failed step =>
    (step = .timer → failed = true ∨ s.accepting = false) ∧ (step ≠ .timer → s.accepting = false) ∧
      (step = .io ∨ step = .runner ∨ step = .destroy →
        s.outstandingSessions = 0 ∧ s.inFlightCloseNotifications ≤ if failed then 0 else depth) ∧
      (step = .destroy → s.jobThread = false)
  | .notificationsWaiting => s.lifecycle = .stopped
  | .stopped true => depth = 0 → s.lifecycle = .stopped ∧ s.inFlightCloseNotifications = 0
  | _ => True

inductive Moves : Lifecycle → Lifecycle → Prop
  | stays (lifecycle : Lifecycle) : Moves lifecycle lifecycle
  | starts : Moves .ready .starting
  | runs : Moves .starting .running
  | fails : Moves .starting .stopped
  | stops : Moves .running .stopping
  | ends : Moves .stopping .stopped

structure Advanced (s s' : Shared) (others : (Place → Bool) → ℕ) (depth : ℕ) (place : Place) (next : Option Place) :
    Prop where
  ok : s'.Ok
  counts : Counts s' fun p => others p + (next.any p).toNat
  placed : ∀ place ∈ next, Placed s' depth place
  keeps : place.starts = true ∨ Shared.Keeps s s'
  moves : Moves s.lifecycle s'.lifecycle

section

variable {s s' : Shared} {others : (Place → Bool) → ℕ} {depth : ℕ} {c : Choice} {place : Place} {next : Option Place}

def Place.quiet (place : Place) : Bool :=
  !place.starts && !place.tears && !place.drains && !place.inFlight && !place.fails

lemma Counts.idle_iff (hq : place.quiet = true) :
    (Counts s fun p => others p + (p place).toNat) ↔ Counts s others := by
  unfold Place.quiet at hq
  simp only [Bool.and_eq_true_iff, Bool.not_eq_true'] at hq
  obtain ⟨⟨⟨⟨hs, ht⟩, hd⟩, hi⟩, hf⟩ := hq
  constructor
  · rintro ⟨h₁, h₂, h₃, h₄, h₅⟩
    simp only [hs, ht, hd, hi, hf, Bool.toNat_false, Nat.add_zero] at h₁ h₂ h₃ h₄ h₅
    exact ⟨h₁, h₂, h₃, h₄, h₅⟩
  · rintro ⟨h₁, h₂, h₃, h₄, h₅⟩
    refine ⟨?_, ?_, ?_, ?_, ?_⟩ <;> simpa only [hs, ht, hd, hi, hf, Bool.toNat_false, Nat.add_zero]

lemma Advanced.returns (h : s.Ok) (hc : Counts s others) : Advanced s s others depth place none where
  ok := h
  counts := hc
  placed := nofun
  keeps := .inr (.refl s)
  moves := .stays _

lemma Advanced.goes {place' : Place} (h : s.Ok) (hc : Counts s others) (hp : Placed s depth place')
    (hq : place'.quiet = true) : Advanced s s others depth place (some place') where
  ok := h
  counts := (Counts.idle_iff hq).mpr hc
  placed := by
    rintro _ ⟨⟩
    exact hp
  keeps := .inr (.refl s)
  moves := .stays _

lemma advanced_start (h : s.Ok) (hc : Counts s others) :
    Advanced s (s.start c).1 others depth .start (s.start c).2 := by
  unfold Shared.start
  split
  · rename_i hready
    have hl : s.lifecycle = .ready := of_decide_eq_true (Bool.and_eq_true_iff.mp hready).1
    have haccepting : s.accepting = false := h.not_accepting (by rw [hl]; decide) (by rw [hl]; decide)
    have hstarts := hc.starts
    have htears := hc.tears
    have htd := hc.tearDowns
    rw [hl] at hstarts htears htd
    exact {
      ok := { h with
        accepting := fun ha => absurd (haccepting.symm.trans ha) nofun
        ready := nofun
        drainStarting := fun hd => by
          obtain ⟨hr, -⟩ := h.drainStarting hd
          rw [hl] at hr
          cases hr
        owners := fun _ => h.owners (by rw [hl]; decide)
        jobThread := fun _ => nofun
        stopped := nofun }
      counts := {
        starts := by
          change others Place.starts + 1 = 1
          rw [hstarts]
          rfl
        tears := htears
        drains := hc.drains
        inFlight := hc.inFlight
        tearDowns := htd }
      placed := by
        rintro _ ⟨⟩
        exact ⟨h.ready hl, haccepting⟩
      keeps := .inr { Shared.Keeps.refl s with
        stopped := fun hs => by
          rw [hl] at hs
          cases hs }
      moves := by
        rw [hl]
        exact .starts }
  · exact .returns h hc

lemma Counts.starting {step : StartStep} (h : Counts s fun p => others p + (p (.starting step)).toNat) :
    s.lifecycle = .starting := by
  by_contra hne
  have hstarts : others Place.starts + 1 = (decide (s.lifecycle = .starting)).toNat := h.starts
  rw [decide_eq_false hne] at hstarts
  cases hstarts

lemma Counts.congr {count : (Place → Bool) → ℕ} (h : Counts s count) (hl : s'.lifecycle = s.lifecycle)
    (hd : s'.drainStarting = s.drainStarting) (hi : s'.inFlightCloseNotifications = s.inFlightCloseNotifications)
    (ht : s'.tearDowns = s.tearDowns) : Counts s' count where
  starts := by rw [h.starts, hl]
  tears := by rw [h.tears, hl]
  drains := by rw [h.drains, hd]
  inFlight := by rw [h.inFlight, hi]
  tearDowns := by rw [ht, hl, h.tearDowns]

lemma Counts.alike {place' : Place} (h : Counts s fun p => others p + (p place).toNat)
    (hs : place'.starts = place.starts) (ht : place'.tears = place.tears) (hd : place'.drains = place.drains)
    (hi : place'.inFlight = place.inFlight) (hf : place'.fails = place.fails) :
    Counts s fun p => others p + (p place').toNat where
  starts := by rw [hs, h.starts]
  tears := by rw [ht, h.tears]
  drains := by rw [hd, h.drains]
  inFlight := by rw [hi, h.inFlight]
  tearDowns := by rw [hf, h.tearDowns]

lemma advanced_fail {t : Shared} {step : StartStep} (hok : t.fail.1.Ok)
    (hc : Counts s fun p => others p + (p (.starting step)).toNat)
    (hl : t.lifecycle = s.lifecycle) (hd : t.drainStarting = s.drainStarting)
    (hi : t.inFlightCloseNotifications = s.inFlightCloseNotifications) (ht : t.tearDowns = s.tearDowns) : Advanced s t.fail.1 others depth (.starting step) t.fail.2 where
  ok := hok
  counts :=
    have hc' := hc.congr hl hd hi ht
    { starts := hc'.starts
      tears := hc'.tears
      drains := hc'.drains
      inFlight := hc'.inFlight
      tearDowns := by
        change t.tearDowns + 1 =
          others Place.fails + 1 + (decide (t.lifecycle = .stopping ∨ t.lifecycle = .stopped)).toNat
        rw [hc'.tearDowns, Nat.add_right_comm]
        rfl }
  placed := by
    rintro _ ⟨⟩
    exact ⟨fun _ => .inl rfl, fun hne => absurd rfl hne, nofun, nofun⟩
  keeps := .inl rfl
  moves := by
    change Moves s.lifecycle t.lifecycle
    rw [hl]
    exact .stays _

lemma Shared.Ok.failing {t : Shared} (h : t.Ok) : t.fail.1.Ok := { h with empty := nofun }

lemma advanced_next {t : Shared} {step step' : StartStep} (hok : t.Ok) (hprepared : t.prepared = true)
    (hc : Counts s fun p => others p + (p (.starting step)).toNat)
    (hl : t.lifecycle = s.lifecycle) (hd : t.drainStarting = s.drainStarting)
    (hi : t.inFlightCloseNotifications = s.inFlightCloseNotifications) (ht : t.tearDowns = s.tearDowns)
    (hstep : step' ≠ .allocate) (ok : Bool) :
    Advanced s (t.next ok step').1 others depth (.starting step) (t.next ok step').2 := by
  unfold Shared.next
  split
  · exact {
      ok := hok
      counts := (hc.congr hl hd hi ht).alike rfl rfl rfl rfl rfl
      placed := by
        rintro _ ⟨⟩
        cases step' with
        | allocate => exact absurd rfl hstep
        | _ => exact hprepared
      keeps := .inl rfl
      moves := by
        rw [hl]
        exact .stays _ }
  · exact advanced_fail hok.failing hc hl hd hi ht

lemma allocate_cases (s : Shared) (c : Choice) :
    (∃ slots, s.allocate c = { s with sessionSlots := slots }.fail) ∨
    ∃ io acceptor parsePool ok, (io = s.io ∨ io = .alive) ∧ (acceptor = s.acceptor ∨ acceptor = .alive) ∧
      (parsePool = s.parsePool ∨ parsePool = .alive) ∧
      s.allocate c =
        { s with
          sessionSlots := List.replicate s.options.maxConcurrentSessions none
          freeSessionSlots := List.range s.options.maxConcurrentSessions
          prepared := true
          io
          acceptor
          parsePool }.next ok .sendLimits := by
  by_cases h₄ : 4 ≤ c.allocations
  · right
    refine ⟨if 5 ≤ c.allocations then .alive else s.io, if 6 ≤ c.allocations then .alive else s.acceptor,
      if 7 ≤ c.allocations && s.options.parseWorkers then .alive else s.parsePool,
      7 ≤ c.allocations || 6 ≤ c.allocations && !s.options.parseWorkers, ?_, ?_, ?_, ?_⟩
    · split <;> simp
    · split <;> simp
    · split <;> simp
    · have h₁ : 1 ≤ c.allocations := by omega
      unfold Shared.allocate
      simp only [h₁, h₄, if_true]
      split <;> split <;> split <;> rfl
  · left
    refine ⟨if 1 ≤ c.allocations then List.replicate s.options.maxConcurrentSessions none else s.sessionSlots, ?_⟩
    have h₅ : ¬5 ≤ c.allocations := by omega
    have h₆ : ¬6 ≤ c.allocations := by omega
    have h₇ : ¬7 ≤ c.allocations := by omega
    unfold Shared.allocate Shared.next
    simp only [h₄, h₅, h₆, h₇, if_false, decide_false, Bool.false_and, Bool.or_false, Bool.false_eq_true]
    split <;> rfl

lemma advanced_allocate (h : s.Ok) (hc : Counts s fun p => others p + (p (.starting .allocate)).toNat)
    (hp : s.prepared = false ∧ s.accepting = false) :
    Advanced s (s.allocate c).1 others depth (.starting .allocate) (s.allocate c).2 := by
  obtain ⟨hprepared, haccepting⟩ := hp
  obtain ⟨hcount, hfree⟩ := h.unprepared hprepared
  have hl := hc.starting
  obtain ⟨slots, heq⟩ | ⟨io, acceptor, parsePool, ok, hio, hacceptor, hpool, heq⟩ := allocate_cases s c
  · obtain ⟨t, ht⟩ : ∃ t : Shared, t = { s with sessionSlots := slots } := ⟨_, rfl⟩
    have hok : t.fail.1.Ok := by
      subst ht
      exact { h with
        empty := nofun
        partition := fun htrue => absurd (hprepared.symm.trans htrue) nofun
        length := fun htrue => absurd (hprepared.symm.trans htrue) nofun }
    rw [heq, ← ht]
    subst ht
    exact advanced_fail hok hc rfl rfl rfl rfl
  · obtain ⟨t, ht⟩ : ∃ t : Shared, t =
        { s with
          sessionSlots := List.replicate s.options.maxConcurrentSessions none
          freeSessionSlots := List.range s.options.maxConcurrentSessions
          prepared := true
          io
          acceptor
          parsePool } := ⟨_, rfl⟩
    have howners : acceptor ≠ .destroyed ∧ io ≠ .destroyed ∧ parsePool ≠ .destroyed := by
      obtain ⟨ha, hi, hp⟩ := h.owners (by rw [hl]; decide)
      refine ⟨?_, ?_, ?_⟩
      · rcases hacceptor with rfl | rfl
        · exact ha
        · nofun
      · rcases hio with rfl | rfl
        · exact hi
        · nofun
      · rcases hpool with rfl | rfl
        · exact hp
        · nofun
    have hok : t.Ok := by
      subst ht
      exact { h with
        accepting := fun htrue => absurd (haccepting.symm.trans htrue) nofun
        unprepared := nofun
        empty := fun _ => nofun
        partition := fun _ => .fresh _ hcount
        length := fun _ => List.length_replicate
        ready := fun hready => absurd (hl.symm.trans hready) nofun
        owners := fun _ => howners }
    rw [heq, ← ht]
    subst ht
    exact advanced_next hok rfl hc rfl rfl rfl rfl (by decide) ok

lemma advanced_publish (h : s.Ok) (hc : Counts s fun p => others p + (p (.starting .publish)).toNat)
    (hp : s.prepared = true) : Advanced s s.publish.1 others depth (.starting .publish) s.publish.2 := by
  have hl := hc.starting
  have hstarts : others Place.starts + 1 = (decide (s.lifecycle = .starting)).toNat := hc.starts
  have htears := hc.tears
  have htd := hc.tearDowns
  rw [hl] at hstarts htears htd
  have hcounts : Counts { s with running := true, lifecycle := .running, startSucceeded := !s.stopRequestedDuringStart }
      others := {
    starts := Nat.succ.inj hstarts
    tears := htears
    drains := hc.drains
    inFlight := hc.inFlight
    tearDowns := htd }
  refine ⟨?_, ?_, ?_, .inl rfl, ?_⟩
  · exact { h with
      accepting := fun _ => ⟨hp, .inr rfl⟩
      ready := nofun
      drainStarting := fun hd => ⟨rfl, (h.drainStarting hd).2⟩
      owners := fun _ => h.owners (by rw [hl]; decide)
      jobThread := fun _ => nofun
      stopped := nofun }
  · unfold Shared.publish
    split
    · exact ⟨hcounts.starts, hcounts.tears, hcounts.drains, hcounts.inFlight, hcounts.tearDowns⟩
    · exact hcounts
  · unfold Shared.publish
    intro place hplace
    split at hplace
    · cases hplace
      trivial
    · cases hplace
  · rw [hl]
    exact .runs

lemma advanced_startStep {step : StartStep} (h : s.Ok) (hc : Counts s fun p => others p + (p (.starting step)).toNat)
    (hp : Placed s depth (.starting step)) :
    Advanced s (s.startStep c step).1 others depth (.starting step) (s.startStep c step).2 := by
  have hl := hc.starting
  obtain ⟨hacceptor, hio, hpool⟩ := h.owners (by rw [hl]; decide)
  cases step with
  | allocate => exact advanced_allocate h hc hp
  | publish => exact advanced_publish h hc hp
  | sendLimits =>
    change Advanced s ((s.touch s.acceptor).next _ _).1 others depth _ ((s.touch s.acceptor).next _ _).2
    rw [Shared.touch_eq hacceptor]
    exact advanced_next h hp hc rfl rfl rfl rfl (by decide) _
  | io =>
    change Advanced s ((s.touch s.io).next _ _).1 others depth _ ((s.touch s.io).next _ _).2
    rw [Shared.touch_eq hio]
    exact advanced_next h hp hc rfl rfl rfl rfl (by decide) _
  | runner =>
    have hok : Shared.Ok { s with jobThread := c.ok || c.created } := { h with
      jobThread := fun _ => by
        rw [hl]
        nofun }
    exact advanced_next hok hp hc rfl rfl rfl rfl (by decide) _
  | parse =>
    change Advanced s ((s.touch s.parsePool).next _ _).1 others depth _ ((s.touch s.parsePool).next _ _).2
    rw [Shared.touch_eq hpool]
    exact advanced_next h hp hc rfl rfl rfl rfl (by decide) _
  | timer => exact advanced_next h hp hc rfl rfl rfl rfl (by decide) _
  | handler =>
    change Advanced s ((s.touch s.acceptor).next _ _).1 others depth _ ((s.touch s.acceptor).next _ _).2
    rw [Shared.touch_eq hacceptor]
    exact advanced_next h hp hc rfl rfl rfl rfl (by decide) _
  | listen =>
    unfold Shared.startStep
    rw [Shared.touch_eq hacceptor]
    have hok : Shared.Ok { s with accepting := true } := { h with accepting := fun _ => ⟨hp, .inl hl⟩ }
    by_cases hok' : c.ok = true
    · rw [if_pos hok']
      exact advanced_next hok hp hc rfl rfl rfl rfl (by decide) true
    · rw [if_neg hok']
      exact advanced_fail h.failing hc rfl rfl rfl rfl
  | accept =>
    unfold Shared.startStep
    simp only [Shared.touch_eq hacceptor, Shared.touch_eq hio]
    by_cases hok' : c.ok = true
    · rw [if_pos hok']
      exact advanced_next h hp hc rfl rfl rfl rfl (by decide) true
    · rw [if_neg hok']
      have hfail : Shared.Ok (Shared.fail { s with accepting := false }).1 := { h with
        accepting := nofun
        empty := nofun }
      exact advanced_fail hfail hc rfl rfl rfl rfl

lemma Counts.tearing {failed : Bool} {step : TearStep} (h : Counts s fun p => others p + (p (.tearing failed step)).toNat) :
    s.lifecycle = if failed then .starting else .stopping := by
  by_contra hne
  cases failed with
  | true =>
    have hstarts : others Place.starts + 1 = (decide (s.lifecycle = .starting)).toNat := h.starts
    rw [decide_eq_false (by exact hne)] at hstarts
    cases hstarts
  | false =>
    have htears : others Place.tears + 1 = (decide (s.lifecycle = .stopping)).toNat := h.tears
    rw [decide_eq_false (by exact hne)] at htears
    cases htears

lemma advanced_tearing {t : Shared} {failed : Bool} {step step' : TearStep} (hok : t.Ok)
    (hc : Counts s fun p => others p + (p (.tearing failed step)).toNat)
    (hl : t.lifecycle = s.lifecycle) (hd : t.drainStarting = s.drainStarting)
    (hi : t.inFlightCloseNotifications = s.inFlightCloseNotifications) (ht : t.tearDowns = s.tearDowns)
    (hk : Shared.Keeps s t) (hp : Placed t depth (.tearing failed step')) :
    Advanced s t others depth (.tearing failed step) (some (.tearing failed step')) where
  ok := hok
  counts := by
    cases failed with
    | true => exact (hc.congr hl hd hi ht).alike rfl rfl rfl rfl rfl
    | false => exact (hc.congr hl hd hi ht).alike rfl rfl rfl rfl rfl
  placed := by
    rintro _ ⟨⟩
    exact hp
  keeps := .inr hk
  moves := by
    rw [hl]
    exact .stays _

lemma placed_tearing {failed : Bool} {step : TearStep} (ha : s.accepting = false) (h₁ : step ≠ .io) (h₂ : step ≠ .runner)
    (h₃ : step ≠ .destroy) : Placed s depth (.tearing failed step) := by
  refine ⟨fun _ => .inr ha, fun _ => ha, ?_, fun h => absurd h h₃⟩
  rintro (h | h | h)
  · exact absurd h h₁
  · exact absurd h h₂
  · exact absurd h h₃

lemma advanced_destroy {failed : Bool} (h : s.Ok) (hc : Counts s fun p => others p + (p (.tearing failed .destroy)).toNat)
    (hp : Placed s depth (.tearing failed .destroy)) :
    Advanced s
      { s with
        acceptor := Shared.reset s.acceptor
        io := Shared.reset s.io
        parsePool := Shared.reset s.parsePool
        lifecycle := .stopped }
      others depth (.tearing failed .destroy) (if failed then none else some (.stopped true)) := by
  obtain ⟨-, haccepting, hsettled, hthread⟩ := hp
  have ha : s.accepting = false := haccepting nofun
  have hj : s.jobThread = false := hthread rfl
  obtain ⟨hzero, hflight⟩ := hsettled (.inr (.inr rfl))
  have hl := hc.tearing
  refine ⟨?_, ?_, ?_, .inr ?_, ?_⟩
  · exact { h with
      accepting := fun htrue => absurd (ha.symm.trans htrue) nofun
      ready := nofun
      drainStarting := fun hd => by
        obtain ⟨hr, -⟩ := h.drainStarting hd
        rw [hl] at hr
        cases failed <;> cases hr
      owners := fun hne => absurd rfl hne
      jobThread := fun htrue => absurd (hj.symm.trans htrue) nofun
      stopped := fun _ => hzero }
  · have hstarts := hc.starts
    have htears := hc.tears
    have htd := hc.tearDowns
    rw [hl] at hstarts htears htd
    cases failed with
    | true =>
      exact {
        starts := Nat.succ.inj hstarts
        tears := htears
        drains := hc.drains
        inFlight := hc.inFlight
        tearDowns := htd }
    | false =>
      exact {
        starts := hstarts
        tears := Nat.succ.inj htears
        drains := hc.drains
        inFlight := hc.inFlight
        tearDowns := htd }
  · intro place hplace
    cases failed with
    | true => cases hplace
    | false =>
      cases hplace
      intro hdepth
      refine ⟨rfl, ?_⟩
      rw [hdepth] at hflight
      exact Nat.le_zero.mp hflight
  · exact ⟨id, rfl, id, fun _ => rfl, fun _ hz => ⟨hz, le_rfl⟩⟩
  · rw [hl]
    cases failed with
    | true => exact .fails
    | false => exact .ends

lemma advanced_tearStep {failed : Bool} {step : TearStep} (h : s.Ok)
    (hc : Counts s fun p => others p + (p (.tearing failed step)).toNat) (hp : Placed s depth (.tearing failed step))
    (hs : s.tearStep depth failed step = some (s', next)) : Advanced s s' others depth (.tearing failed step) next := by
  have hl := hc.tearing
  obtain ⟨hacceptor, hio, hpool⟩ := h.owners (by rw [hl]; split <;> decide)
  obtain ⟨htimer, haccepting, hsettled, hthread⟩ := hp
  cases step with
  | timer =>
    cases hs
    cases failed with
    | true =>
      have hok : Shared.Ok { s with accepting := false, running := false } := { h with accepting := nofun }
      exact advanced_tearing hok hc rfl rfl rfl rfl ⟨fun _ => rfl, rfl, id, id, fun _ hz => ⟨hz, le_rfl⟩⟩
        (placed_tearing rfl nofun nofun nofun)
    | false =>
      have ha : s.accepting = false := (htimer rfl).resolve_left nofun
      exact advanced_tearing h hc rfl rfl rfl rfl (.refl s) (placed_tearing ha nofun nofun nofun)
  | acceptor =>
    cases hs
    rw [Shared.touch_eq hacceptor]
    exact advanced_tearing h hc rfl rfl rfl rfl (.refl s) (placed_tearing (haccepting nofun) nofun nofun nofun)
  | parse =>
    cases hs
    rw [Shared.touch_eq hpool]
    exact advanced_tearing h hc rfl rfl rfl rfl (.refl s) (placed_tearing (haccepting nofun) nofun nofun nofun)
  | sessions index =>
    cases hs
    refine advanced_tearing h hc rfl rfl rfl rfl (.refl s) (placed_tearing (haccepting nofun) ?_ ?_ ?_)
    · split <;> nofun
    · split <;> nofun
    · split <;> nofun
  | waiting =>
    by_cases hdone : s.outstandingSessions = 0 ∧ s.inFlightCloseNotifications ≤ if failed then 0 else depth
    · have heq : s.tearStep depth failed .waiting = some (s, some (.tearing failed .io)) := if_pos hdone
      rw [heq] at hs
      cases hs
      exact advanced_tearing h hc rfl rfl rfl rfl (.refl s) ⟨nofun, fun _ => haccepting nofun, fun _ => hdone, nofun⟩
    · have heq : s.tearStep depth failed .waiting = none := if_neg hdone
      rw [heq] at hs
      cases hs
  | io =>
    cases hs
    rw [Shared.touch_eq hio]
    exact advanced_tearing h hc rfl rfl rfl rfl (.refl s)
      ⟨nofun, fun _ => haccepting nofun, fun _ => hsettled (.inl rfl), nofun⟩
  | runner =>
    cases hs
    have hok : Shared.Ok { s with jobThread := false } := { h with jobThread := nofun }
    exact advanced_tearing hok hc rfl rfl rfl rfl ⟨id, rfl, fun _ => rfl, id, fun _ hz => ⟨hz, le_rfl⟩⟩
      ⟨nofun, fun _ => haccepting nofun, fun _ => hsettled (.inr (.inl rfl)), fun _ => rfl⟩
  | destroy =>
    cases hs
    exact advanced_destroy h hc ⟨htimer, haccepting, hsettled, hthread⟩

lemma advanced_stop (h : s.Ok) (hc : Counts s others) (hdepth : depth ≤ s.inFlightCloseNotifications)
    (hs : s.stop depth = some (s', next)) : Advanced s s' others depth .stop next := by
  unfold Shared.stop at hs
  rw [Shared.check_eq (decide_eq_true hdepth)] at hs
  simp only at hs
  by_cases hstarting : s.lifecycle = .starting
  · rw [if_pos hstarting] at hs
    by_cases hd : depth ≠ 0
    · rw [if_pos hd] at hs
      cases hs
      exact {
        ok := { h with }
        counts := ⟨hc.starts, hc.tears, hc.drains, hc.inFlight, hc.tearDowns⟩
        placed := by
          rintro _ ⟨⟩
          exact fun hzero => absurd hzero hd
        keeps := .inr ⟨id, rfl, id, id, fun _ hz => ⟨hz, le_rfl⟩⟩
        moves := .stays _ }
    · rw [if_neg hd] at hs
      cases hs
  rw [if_neg hstarting] at hs
  by_cases hdrain : s.drainStarting = true
  · rw [if_pos hdrain] at hs
    cases hs
  rw [if_neg hdrain] at hs
  cases hl : s.lifecycle with
  | ready =>
    simp only [hl] at hs
    cases hs
    exact .goes h hc trivial rfl
  | starting => exact absurd hl hstarting
  | stopped =>
    simp only [hl] at hs
    cases hs
    split
    · exact .goes h hc hl rfl
    · rename_i hd
      exact .goes h hc (fun hzero => absurd hzero hd) rfl
  | stopping =>
    simp only [hl] at hs
    cases hs
    split
    · exact .goes h hc trivial rfl
    · rename_i hd
      exact .goes h hc (fun hzero => absurd hzero hd) rfl
  | running =>
    simp only [hl] at hs
    cases hs
    have hstarts := hc.starts
    have htears := hc.tears
    have htd := hc.tearDowns
    rw [hl] at hstarts htears htd
    exact {
      ok := { h with
        accepting := nofun
        empty := nofun
        ready := nofun
        drainStarting := fun hd => absurd hd hdrain
        owners := fun _ => h.owners (by rw [hl]; decide)
        jobThread := fun _ => nofun
        stopped := nofun }
      counts := {
        starts := hstarts
        tears := congrArg Nat.succ htears
        drains := hc.drains
        inFlight := hc.inFlight
        tearDowns := congrArg Nat.succ htd }
      placed := by
        rintro _ ⟨⟩
        exact placed_tearing rfl nofun nofun nofun
      keeps := .inr ⟨fun _ => rfl, rfl, id, fun hstop => absurd (hl.symm.trans hstop) nofun, fun _ hz => ⟨hz, le_rfl⟩⟩
      moves := by
        rw [hl]
        exact .stops }

lemma advanced_beginDrain (h : s.Ok) (hc : Counts s others) :
    Advanced s (s.beginDrain depth c).1 others depth .beginDrain (s.beginDrain depth c).2 := by
  unfold Shared.beginDrain
  split
  · exact .returns h hc
  split
  · exact .returns h hc
  rename_i hl
  split
  · exact .goes h hc trivial rfl
  rename_i hdraining
  have hrunning : s.lifecycle = .running := Decidable.not_not.mp hl
  have hdrain : s.drainStarting = false := by
    by_contra hne
    exact hdraining (h.drainStarting (Bool.of_not_eq_false hne)).2
  have hdrains := hc.drains
  rw [hdrain] at hdrains
  exact {
    ok := { h with drainStarting := fun _ => ⟨hrunning, rfl⟩ }
    counts := {
      starts := hc.starts
      tears := hc.tears
      drains := congrArg Nat.succ hdrains
      inFlight := hc.inFlight
      tearDowns := hc.tearDowns }
    placed := by
      rintro _ ⟨⟩
      trivial
    keeps := .inr ⟨id, rfl, id, id, fun _ hz => ⟨hz, le_rfl⟩⟩
    moves := .stays _ }

lemma Counts.draining {step : DrainStep} (h : Counts s fun p => others p + (p (.draining step)).toNat) :
    s.drainStarting = true := by
  by_contra hne
  have hdrains : others Place.drains + 1 = s.drainStarting.toNat := h.drains
  rw [Bool.eq_false_iff.mpr hne] at hdrains
  cases hdrains

lemma advanced_drainStep {step : DrainStep} (h : s.Ok) (hc : Counts s fun p => others p + (p (.draining step)).toNat) :
    Advanced s (s.drainStep step).1 others depth (.draining step) (s.drainStep step).2 := by
  have hdrain := hc.draining
  obtain ⟨hl, -⟩ := h.drainStarting hdrain
  obtain ⟨hacceptor, -, -⟩ := h.owners (by rw [hl]; decide)
  cases step with
  | acceptor =>
    unfold Shared.drainStep
    rw [Shared.touch_eq hacceptor]
    exact {
      ok := h
      counts := hc.alike rfl rfl rfl rfl rfl
      placed := by
        rintro _ ⟨⟩
        trivial
      keeps := .inr (.refl s)
      moves := .stays _ }
  | sessions index =>
    exact {
      ok := h
      counts := hc.alike rfl rfl rfl rfl rfl
      placed := by
        rintro _ ⟨⟩
        trivial
      keeps := .inr (.refl s)
      moves := .stays _ }
  | started =>
    have hdrains : others Place.drains + 1 = s.drainStarting.toNat := hc.drains
    rw [hdrain] at hdrains
    exact {
      ok := { h with drainStarting := nofun }
      counts := {
        starts := hc.starts
        tears := hc.tears
        drains := Nat.succ.inj hdrains
        inFlight := hc.inFlight
        tearDowns := hc.tearDowns }
      placed := by
        rintro _ ⟨⟩
        trivial
      keeps := .inr ⟨id, rfl, id, id, fun _ hz => ⟨hz, le_rfl⟩⟩
      moves := .stays _ }

lemma advanced_advanceDrain (h : s.Ok) (hc : Counts s others) :
    Advanced s (s.advanceDrain c).1 others depth .advanceDrain (s.advanceDrain c).2 := by
  unfold Shared.advanceDrain
  split
  · exact .returns h hc
  · exact {
      ok := { h with }
      counts := ⟨hc.starts, hc.tears, hc.drains, hc.inFlight, hc.tearDowns⟩
      placed := by
        rintro _ ⟨⟩
        trivial
      keeps := .inr ⟨id, rfl, id, id, fun _ hz => ⟨hz, le_rfl⟩⟩
      moves := .stays _ }

lemma Shared.Ok.unfinished (h : s.Ok) {session : ℕ} (hs : session < s.sessions.count)
    (hrow : (s.sessions.row session).unfinished = true) :
    s.prepared = true ∧ 0 < s.outstandingSessions ∧ s.lifecycle ≠ .stopped := by
  have hpos : 0 < s.outstandingSessions := by
    rw [h.outstanding]
    exact Table.tally_pos hs hrow
  refine ⟨?_, hpos, fun hstopped => ?_⟩
  · by_contra hne
    obtain ⟨hcount, -⟩ := h.unprepared (Bool.eq_false_iff.mpr hne)
    exact absurd hs (by omega)
  · exact absurd (h.stopped hstopped) hpos.ne'

lemma finished_eq {session : ℕ} {slot : Option ℕ} {notify : Bool} (hpos : 0 < s.outstandingSessions)
    (hslot : ∀ index ∈ slot, s.sessionSlots[index]? = some (some session) ∧
      s.freeSessionSlots.length < s.options.maxConcurrentSessions) :
    s.finishNetworkSession session slot notify =
      { s with
        inFlightCloseNotifications := s.inFlightCloseNotifications + notify.toNat
        sessionSlots := slot.elim s.sessionSlots fun index => s.sessionSlots.set index none
        freeSessionSlots := slot.elim s.freeSessionSlots fun index => index :: s.freeSessionSlots
        outstandingSessions := s.outstandingSessions - 1
        sessions := s.sessions.set session .finished } := by
  unfold Shared.finishNetworkSession
  rw [Shared.check_eq (decide_eq_true hpos.ne')]
  cases slot with
  | none => rfl
  | some index =>
    obtain ⟨hused, hfree⟩ := hslot index rfl
    simp only
    rw [Shared.check_eq (decide_eq_true hused), Shared.check_eq (decide_eq_true hfree)]
    rfl

lemma keeps_of_unfinished (h : s.Ok) {session : ℕ} (hs : session < s.sessions.count)
    (hrow : (s.sessions.row session).unfinished = true) (ha : s'.accepting = s.accepting)
    (hp : s'.prepared = s.prepared) (hj : s'.jobThread = s.jobThread) (hl : s'.lifecycle = s.lifecycle) :
    Shared.Keeps s s' where
  accepting := fun h => ha.trans h
  prepared := hp
  jobThread := fun h => hj.trans h
  stopped := fun h => hl.trans h
  settled := fun _ hzero => absurd hzero (h.unfinished hs hrow).2.1.ne'

lemma advanced_finish (h : s.Ok) (hc : Counts s others) {session : ℕ} {opened : Bool}
    (hs : s.finish session opened = some (s', next)) : Advanced s s' others depth (.finishing session opened) next := by
  unfold Shared.finish at hs
  by_cases hlt : session < s.sessions.count
  swap
  · rw [if_neg hlt] at hs
    cases hs
  rw [if_pos hlt] at hs
  cases hrow : s.sessions.row session with
  | begun =>
    simp only [hrow] at hs
    cases opened with
    | true => cases hs
    | false =>
      obtain ⟨hprepared, hpos, hl⟩ := h.unfinished hlt (by rw [hrow]; rfl)
      have htally := Table.tally_set hlt .finished Session.unfinished
      rw [hrow] at htally
      simp only [Session.unfinished, Session.isBegun, Session.isTracked, Bool.or_false, Bool.toNat_true,
        Bool.toNat_false] at htally
      cases hs
      have heq : s.finishNetworkSession session none false = _ := finished_eq hpos nofun
      rw [heq]
      exact {
        ok := { h with
          unprepared := fun hp => absurd (hprepared.symm.trans hp) nofun
          partition := fun hp => (h.partition hp).drop hlt hrow
          stopped := fun hstopped => absurd hstopped hl
          outstanding := by
            have := h.outstanding
            simp only
            omega
          limit := (Nat.sub_le _ _).trans h.limit }
        counts := ⟨hc.starts, hc.tears, hc.drains, hc.inFlight, hc.tearDowns⟩
        placed := nofun
        keeps := .inr (keeps_of_unfinished h hlt (by rw [hrow]; rfl) rfl rfl rfl rfl)
        moves := .stays _ }
  | tracked slot =>
    simp only [hrow] at hs
    obtain ⟨hprepared, hpos, hl⟩ := h.unfinished hlt (by rw [hrow]; rfl)
    have hpart := h.partition hprepared
    have htally := Table.tally_set hlt .finished Session.unfinished
    rw [hrow] at htally
    simp only [Session.unfinished, Session.isBegun, Session.isTracked, Bool.or_true, Bool.or_false, Bool.toNat_true,
      Bool.toNat_false] at htally
    have hfree := hpart.bounds hlt hrow
    rw [h.length hprepared] at hfree
    cases hs
    rw [finished_eq hpos (by
      rintro _ ⟨⟩
      exact ⟨(hpart.used slot session).mpr ⟨hlt, hrow⟩, hfree⟩)]
    exact {
      ok := { h with
        unprepared := fun hp => absurd (hprepared.symm.trans hp) nofun
        empty := fun _ hp => absurd (hprepared.symm.trans hp) nofun
        partition := fun _ => hpart.finish hlt hrow
        length := fun hp => List.length_set.trans (h.length hp)
        stopped := fun hstopped => absurd hstopped hl
        outstanding := by
          have := h.outstanding
          simp only
          omega
        limit := (Nat.sub_le _ _).trans h.limit }
      counts := by
        have hi := hc.inFlight
        cases opened with
        | true => exact ⟨hc.starts, hc.tears, hc.drains, congrArg Nat.succ hi, hc.tearDowns⟩
        | false => exact ⟨hc.starts, hc.tears, hc.drains, hi, hc.tearDowns⟩
      placed := by
        intro place hplace
        cases opened with
        | true =>
          cases hplace
          trivial
        | false => cases hplace
      keeps := .inr (keeps_of_unfinished h hlt (by rw [hrow]; rfl) rfl rfl rfl rfl)
      moves := .stays _ }
  | finished =>
    simp only [hrow] at hs
    cases hs

lemma advanced_completing (h : s.Ok) (hc : Counts s fun p => others p + (p .completing).toNat) :
    Advanced s s.finishCloseNotification others depth .completing none := by
  have hi : others Place.inFlight + 1 = s.inFlightCloseNotifications := hc.inFlight
  unfold Shared.finishCloseNotification
  rw [Shared.check_eq (decide_eq_true (by omega))]
  exact {
    ok := { h with }
    counts := {
      starts := hc.starts
      tears := hc.tears
      drains := hc.drains
      inFlight := Nat.eq_sub_of_add_eq hi
      tearDowns := hc.tearDowns }
    placed := nofun
    keeps := .inr ⟨id, rfl, id, id, fun _ hz => ⟨hz, Nat.sub_le _ _⟩⟩
    moves := .stays _ }

lemma advanced_of_advance {answer : Shared × Option Place} (h : s.Ok) (hc : Counts s fun p => others p + (p place).toNat)
    (hp : Placed s depth place) (hdepth : depth ≤ others Place.inFlight) (hs : advance s depth c place = some answer) :
    Advanced s answer.1 others depth place answer.2 := by
  have hle : depth ≤ s.inFlightCloseNotifications := by
    rw [← hc.inFlight]
    exact Nat.le_add_right_of_le hdepth
  cases place with
  | start =>
    obtain rfl := Option.some.inj hs
    exact advanced_start h ((Counts.idle_iff rfl).mp hc)
  | starting step =>
    obtain rfl := Option.some.inj hs
    exact advanced_startStep h hc hp
  | tearing failed step => exact advanced_tearStep h hc hp hs
  | stop => exact advanced_stop h ((Counts.idle_iff rfl).mp hc) hle hs
  | stopWaiting =>
    simp only [advance] at hs
    split at hs
    · rename_i hdone
      cases hs
      exact .goes h ((Counts.idle_iff rfl).mp hc) (fun _ => hdone) rfl
    · cases hs
  | notificationsWaiting =>
    simp only [advance] at hs
    split at hs
    · rename_i hdone
      cases hs
      exact .goes h ((Counts.idle_iff rfl).mp hc) (fun _ => ⟨hp, hdone⟩) rfl
    · cases hs
  | stopped started =>
    obtain rfl := Option.some.inj hs
    exact .returns h ((Counts.idle_iff rfl).mp hc)
  | beginDrain =>
    obtain rfl := Option.some.inj hs
    exact advanced_beginDrain h ((Counts.idle_iff rfl).mp hc)
  | drainWaiting =>
    simp only [advance] at hs
    split at hs
    · cases hs
    · cases hs
      exact .returns h ((Counts.idle_iff rfl).mp hc)
  | draining step =>
    obtain rfl := Option.some.inj hs
    exact advanced_drainStep h hc
  | advanceDrain =>
    obtain rfl := Option.some.inj hs
    exact advanced_advanceDrain h ((Counts.idle_iff rfl).mp hc)
  | drainingSends index =>
    obtain rfl := Option.some.inj hs
    simp only
    split
    · exact .goes h ((Counts.idle_iff rfl).mp hc) trivial rfl
    · exact .returns h ((Counts.idle_iff rfl).mp hc)
  | run =>
    obtain rfl := Option.some.inj hs
    unfold Shared.runHost
    split
    · exact .goes h ((Counts.idle_iff rfl).mp hc) trivial rfl
    · exact .returns h ((Counts.idle_iff rfl).mp hc)
  | runWaiting =>
    simp only [advance] at hs
    split at hs
    · cases hs
      exact .returns h ((Counts.idle_iff rfl).mp hc)
    · cases hs
  | finishing session opened => exact advanced_finish h ((Counts.idle_iff rfl).mp hc) hs
  | closing =>
    obtain rfl := Option.some.inj hs
    exact {
      ok := h
      counts := hc.alike rfl rfl rfl rfl rfl
      placed := by
        rintro _ ⟨⟩
        trivial
      keeps := .inr (.refl s)
      moves := .stays _ }
  | notified =>
    obtain rfl := Option.some.inj hs
    exact {
      ok := h
      counts := hc.alike rfl rfl rfl rfl rfl
      placed := by
        rintro _ ⟨⟩
        trivial
      keeps := .inr (.refl s)
      moves := .stays _ }
  | completing =>
    obtain rfl := Option.some.inj hs
    exact advanced_completing h hc

lemma beginNetworkSession_advanced (h : s.Ok) (hc : Counts s others) (hs : s.beginNetworkSession = some s') :
    s'.Ok ∧ Counts s' others ∧ Shared.Keeps s s' ∧ s'.lifecycle = s.lifecycle := by
  unfold Shared.beginNetworkSession at hs
  split at hs
  · cases hs
  rename_i hopen
  split at hs
  · cases hs
  rename_i hlimit
  have haccepting : s.accepting = true := by
    by_contra hne
    rw [Bool.eq_false_iff.mpr hne] at hopen
    exact hopen rfl
  obtain ⟨hprepared, hl⟩ := h.accepting haccepting
  cases hs
  refine ⟨?_, ⟨hc.starts, hc.tears, hc.drains, hc.inFlight, hc.tearDowns⟩, ⟨id, rfl, id, id, ?_⟩, rfl⟩
  · exact { h with
      unprepared := fun hp => absurd (hprepared.symm.trans hp) nofun
      partition := fun hp => (h.partition hp).push
      stopped := fun hstopped => by
        change s.lifecycle = .stopped at hstopped
        rw [hstopped] at hl
        rcases hl with hl | hl <;> cases hl
      outstanding := by
        simp only
        rw [Table.tally_push, h.outstanding]
        rfl
      limit := Nat.lt_of_not_le hlimit }
  · intro hfalse
    exact absurd (haccepting.symm.trans hfalse) nofun

lemma Shared.Ok.free (h : s.Ok) {session : ℕ} (hs : session < s.sessions.count) (hrow : s.sessions.row session = .begun) :
    ∃ index rest, s.freeSessionSlots = index :: rest := by
  obtain ⟨hprepared, -, -⟩ := h.unfinished hs (by rw [hrow]; rfl)
  have hpos : 0 < s.sessions.tally Session.isBegun := Table.tally_pos hs (by rw [hrow]; rfl)
  have hsum := tally_unfinished s.sessions
  have hcount := (h.partition hprepared).count
  have hout := h.outstanding
  have hlimit := h.limit
  have hlength := h.length hprepared
  cases hfree : s.freeSessionSlots with
  | nil =>
    rw [hfree, List.length_nil] at hcount
    omega
  | cons index rest => exact ⟨index, rest, rfl⟩

lemma trackNetworkSession_advanced (h : s.Ok) (hc : Counts s others) {session : ℕ} (hs : session < s.sessions.count)
    (hrow : s.sessions.row session = .begun) :
    (s.trackNetworkSession session).Ok ∧ Counts (s.trackNetworkSession session) others ∧
      Shared.Keeps s (s.trackNetworkSession session) ∧ (s.trackNetworkSession session).lifecycle = s.lifecycle := by
  obtain ⟨hprepared, hpos, -⟩ := h.unfinished hs (by rw [hrow]; rfl)
  obtain ⟨index, rest, hfree⟩ := h.free hs hrow
  have hpart := h.partition hprepared
  rw [hfree] at hpart
  have htally := Table.tally_set hs (.tracked index) Session.unfinished
  rw [hrow] at htally
  have heq : s.trackNetworkSession session =
      { s with
        freeSessionSlots := rest
        sessionSlots := s.sessionSlots.set index (some session)
        sessions := s.sessions.set session (.tracked index) } := by
    unfold Shared.trackNetworkSession
    rw [Shared.check_eq (decide_eq_true hpos.ne')]
    simp only [hfree]
  rw [heq]
  refine ⟨?_, ⟨hc.starts, hc.tears, hc.drains, hc.inFlight, hc.tearDowns⟩,
    keeps_of_unfinished h hs (by rw [hrow]; rfl) rfl rfl rfl rfl, rfl⟩
  exact { h with
    unprepared := fun hp => absurd (hprepared.symm.trans hp) nofun
    empty := fun _ hp => absurd (hprepared.symm.trans hp) nofun
    partition := fun _ => hpart.track hs hrow
    length := fun hp => List.length_set.trans (h.length hp)
    outstanding := h.outstanding.trans (Nat.add_right_cancel htally).symm }

lemma Placed.keep (h : Placed s depth place) (hok : s.Ok) (hk : Shared.Keeps s s') : Placed s' depth place := by
  cases place with
  | starting step =>
    cases step with
    | allocate =>
      obtain ⟨hp, ha⟩ := h
      exact ⟨hk.prepared.trans hp, hk.accepting ha⟩
    | _ => exact hk.prepared.trans h
  | tearing failed step =>
    obtain ⟨htimer, haccepting, hsettled, hthread⟩ := h
    refine ⟨fun hstep => (htimer hstep).imp_right hk.accepting, fun hstep => hk.accepting (haccepting hstep), ?_,
      fun hstep => hk.jobThread (hthread hstep)⟩
    intro hstep
    obtain ⟨hzero, hle⟩ := hsettled hstep
    have ha : s.accepting = false := by
      apply haccepting
      rintro rfl
      rcases hstep with h | h | h <;> cases h
    obtain ⟨hzero', hle'⟩ := hk.settled ha hzero
    exact ⟨hzero', hle'.trans hle⟩
  | notificationsWaiting => exact hk.stopped h
  | stopped started =>
    cases started with
    | false => trivial
    | true =>
      intro hdepth
      obtain ⟨hl, hzero⟩ := h hdepth
      have ha : s.accepting = false := hok.not_accepting (by rw [hl]; decide) (by rw [hl]; decide)
      obtain ⟨-, hle⟩ := hk.settled ha (hok.stopped hl)
      exact ⟨hk.stopped hl, Nat.le_zero.mp (hle.trans hzero.le)⟩
  | _ => trivial

lemma Placed.apart (h : Placed s depth place) (hl : s.lifecycle = .starting) (hs : place.starts = false)
    (ht : place.tears = false) : Placed s' depth place := by
  cases place with
  | starting step => cases hs
  | tearing failed step => cases failed with
    | true => cases hs
    | false => cases ht
  | notificationsWaiting => exact absurd (hl.symm.trans h) nofun
  | stopped started =>
    cases started with
    | false => trivial
    | true =>
      intro hdepth
      exact absurd (hl.symm.trans (h hdepth).1) nofun
  | _ => trivial


end

lemma countP_cons (p : Place → Bool) (place : Place) (rest : List Place) :
    (place :: rest).countP p = rest.countP p + (p place).toNat := by
  rw [List.countP_cons]
  cases p place <;> rfl

def Stacked (s : Shared) : List Place → Prop
  | [] => True
  | place :: rest => Placed s (depth rest) place ∧ Stacked s rest

lemma Stacked.keep {s s' : Shared} {stack : List Place} (h : Stacked s stack) (hok : s.Ok)
    (hk : s.lifecycle = .starting ∧ stack.countP Place.starts = 0 ∧ stack.countP Place.tears = 0 ∨ s.Keeps s') :
    Stacked s' stack := by
  induction stack with
  | nil => trivial
  | cons place rest ih =>
    obtain ⟨hplaced, hrest⟩ := h
    obtain ⟨hl, hs, ht⟩ | hk := hk
    · rw [List.countP_cons] at hs ht
      have hs' : place.starts = false := by
        by_contra hne
        rw [if_pos (Bool.of_not_eq_false hne)] at hs
        omega
      have ht' : place.tears = false := by
        by_contra hne
        rw [if_pos (Bool.of_not_eq_false hne)] at ht
        omega
      exact ⟨hplaced.apart hl hs' ht', ih hrest (.inl ⟨hl, by omega, by omega⟩)⟩
    · exact ⟨hplaced.keep hok hk, ih hrest (.inr hk)⟩

def State.count (s : State) (p : Place → Bool) : ℕ := s.threads.total fun stack => stack.countP p

structure Inv (s : State) : Prop where
  ok : s.shared.Ok
  counts : Counts s.shared s.count
  stacked : ∀ i < s.threads.count, Stacked s.shared (s.threads.row i)

lemma inv_of_fresh {s : State} (h : Fresh s) : Inv s := by
  obtain ⟨options, rfl⟩ := h
  refine ⟨?_, ⟨rfl, rfl, rfl, rfl, rfl⟩, fun i hi => absurd hi (Nat.not_lt_zero i)⟩
  exact {
    accepting := nofun
    unprepared := fun _ => ⟨rfl, rfl⟩
    empty := fun _ _ => rfl
    partition := nofun
    length := nofun
    ready := fun _ => rfl
    drainStarting := nofun
    owners := fun _ => ⟨nofun, nofun, nofun⟩
    jobThread := nofun
    stopped := nofun
    outstanding := rfl
    limit := Nat.zero_le _
    dangling := rfl
    failed := rfl }

section Step

variable {s : State} {shared : Shared} {i : ℕ} {place : Place} {rest : List Place}

lemma Inv.keep (h : Inv s) (hok : shared.Ok) (hc : Counts shared s.count) (hk : s.shared.Keeps shared) :
    Inv { s with shared } :=
  ⟨hok, hc, fun j hj => (h.stacked j hj).keep h.ok (.inr hk)⟩

lemma Inv.call (h : Inv s) (call : Call) : Inv { s with threads := s.threads.push [call.place] } := by
  have hquiet : call.place.quiet = true := by cases call <;> rfl
  refine ⟨h.ok, ?_, ?_⟩
  · have hcounts := (Counts.idle_iff hquiet).mpr h.counts
    have heq : (State.count { s with threads := s.threads.push [call.place] }) =
        fun p => s.count p + (p call.place).toNat := by
      funext p
      unfold State.count
      rw [Table.total_push, countP_cons, List.countP_nil, Nat.zero_add]
    rw [heq]
    exact hcounts
  · intro j hj
    rw [Table.push_row]
    split
    · refine ⟨?_, trivial⟩
      cases call <;> trivial
    · rw [Table.push_count] at hj
      exact h.stacked j (by omega)

lemma Inv.nest (h : Inv s) (hi : i < s.threads.count) (call : Call) :
    Inv { s with threads := s.threads.set i (call.place :: s.threads.row i) } := by
  have hquiet : call.place.quiet = true := by cases call <;> rfl
  refine ⟨h.ok, ?_, ?_⟩
  · have hcounts := (Counts.idle_iff hquiet).mpr h.counts
    have heq : (State.count { s with threads := s.threads.set i (call.place :: s.threads.row i) }) =
        fun p => s.count p + (p call.place).toNat := by
      funext p
      have hset := Table.total_set hi (call.place :: s.threads.row i) fun stack => stack.countP p
      rw [countP_cons] at hset
      unfold State.count
      simp only
      omega
    rw [heq]
    exact hcounts
  · intro j hj
    rw [Table.set_row]
    split
    · refine ⟨?_, h.stacked i hi⟩
      cases call <;> trivial
    · exact h.stacked j hj

def State.others (s : State) (place : Place) (p : Place → Bool) : ℕ := s.count p - (p place).toNat

lemma count_eq (hi : i < s.threads.count) (hrow : s.threads.row i = place :: rest) (p : Place → Bool) :
    s.count p = s.others place p + (p place).toNat := by
  have hle := Table.le_total hi fun stack => stack.countP p
  rw [hrow, countP_cons] at hle
  unfold State.others State.count
  omega

lemma rest_le (hi : i < s.threads.count) (hrow : s.threads.row i = place :: rest) (p : Place → Bool) :
    rest.countP p ≤ s.others place p := by
  have hle := Table.le_total hi fun stack => stack.countP p
  rw [hrow, countP_cons] at hle
  unfold State.others State.count
  omega

lemma other_le {j : ℕ} (hi : i < s.threads.count) (hrow : s.threads.row i = place :: rest) (hj : j < s.threads.count)
    (hne : i ≠ j) (p : Place → Bool) : (s.threads.row j).countP p ≤ s.others place p := by
  have hle := Table.add_le_total hi hj hne fun stack => stack.countP p
  rw [hrow, countP_cons] at hle
  unfold State.others State.count
  omega

lemma count_set {next : Option Place} (hi : i < s.threads.count) (hrow : s.threads.row i = place :: rest)
    (p : Place → Bool) :
    (State.count ⟨shared, s.threads.set i (next.toList ++ rest)⟩) p = s.others place p + (next.any p).toNat := by
  have hset := Table.total_set hi (next.toList ++ rest) fun stack => stack.countP p
  have heq := count_eq hi hrow p
  have hnext : (next.toList ++ rest).countP p = rest.countP p + (next.any p).toNat := by
    cases next with
    | none => rfl
    | some place => exact countP_cons p place rest
  rw [hrow, countP_cons, hnext] at hset
  unfold State.count at heq ⊢
  simp only
  omega

lemma Inv.advance (h : Inv s) (hi : i < s.threads.count) (hrow : s.threads.row i = place :: rest)
    {next : Option Place} (ha : Advanced s.shared shared (s.others place) (depth rest) place next) :
    Inv ⟨shared, s.threads.set i (next.toList ++ rest)⟩ := by
  have hkeep : ∀ stack : List Place, (∀ p, stack.countP p ≤ s.others place p) →
      s.shared.lifecycle = .starting ∧ stack.countP Place.starts = 0 ∧ stack.countP Place.tears = 0 ∨
        s.shared.Keeps shared := by
    intro stack hle
    apply ha.keeps.imp_left
    intro hstarts
    have hcs := h.counts.starts
    have hct := h.counts.tears
    rw [count_eq hi hrow, hstarts, Bool.toNat_true] at hcs
    have hl : s.shared.lifecycle = .starting := by
      by_contra hne
      rw [decide_eq_false hne] at hcs
      cases hcs
    rw [hl] at hcs hct
    rw [count_eq hi hrow] at hct
    have hs := hle Place.starts
    have ht := hle Place.tears
    simp only [decide_true, Bool.toNat_true] at hcs
    have hct' : (decide (Lifecycle.starting = .stopping)).toNat = 0 := rfl
    rw [hct'] at hct
    exact ⟨hl, by omega, by omega⟩
  refine ⟨ha.ok, ?_, ?_⟩
  · have heq : (State.count ⟨shared, s.threads.set i (next.toList ++ rest)⟩) =
        fun p => s.others place p + (next.any p).toNat := by
      funext p
      exact count_set hi hrow p
    rw [heq]
    exact ha.counts
  · intro j hj
    rw [Table.set_row]
    split
    · have hstack := h.stacked i hi
      rw [hrow] at hstack
      have hrest := hstack.2.keep h.ok (hkeep rest (rest_le hi hrow))
      cases next with
      | none => exact hrest
      | some place' => exact ⟨ha.placed place' rfl, hrest⟩
    · rename_i hne
      exact (h.stacked j hj).keep h.ok (hkeep _ (other_le hi hrow hj (Ne.symm hne)))

lemma Inv.advanced (h : Inv s) (hi : i < s.threads.count) (hrow : s.threads.row i = place :: rest) {c : Choice}
    {answer : Shared × Option Place} (ha : HostLifecycle.advance s.shared (depth rest) c place = some answer) :
    Advanced s.shared answer.1 (s.others place) (depth rest) place answer.2 := by
  have hstack := h.stacked i hi
  rw [hrow] at hstack
  refine advanced_of_advance h.ok ?_ hstack.1 ?_ ha
  · have heq : (fun p => s.others place p + (p place).toNat) = s.count := by
      funext p
      exact (count_eq hi hrow p).symm
    rw [heq]
    exact h.counts
  · refine le_trans ?_ (rest_le hi hrow Place.inFlight)
    apply List.countP_mono_left
    intro place _ hp
    cases place with
    | notified => rfl
    | _ => cases hp

lemma Inv.step {s' : State} {e : Event} (h : Inv s) (hs : HostLifecycle.step s e = some s') :
    Inv s' ∧ Moves s.shared.lifecycle s'.shared.lifecycle := by
  cases e with
  | call call =>
    cases hs
    exact ⟨h.call call, .stays _⟩
  | nest i call =>
    simp only [HostLifecycle.step] at hs
    split at hs
    swap
    · cases hs
    rename_i hi
    split at hs
    · cases hs
    rename_i place rest hrow
    split at hs
    · cases hs
      rw [← hrow]
      exact ⟨h.nest hi call, .stays _⟩
    · cases hs
  | begin =>
    simp only [HostLifecycle.step, Option.map_eq_some_iff] at hs
    obtain ⟨shared, hb, rfl⟩ := hs
    obtain ⟨hok, hc, hk, hl⟩ := beginNetworkSession_advanced h.ok h.counts hb
    refine ⟨h.keep hok hc hk, ?_⟩
    rw [hl]
    exact .stays _
  | track session =>
    simp only [HostLifecycle.step] at hs
    split at hs
    · rename_i hsession
      cases hs
      obtain ⟨hok, hc, hk, hl⟩ := trackNetworkSession_advanced h.ok h.counts hsession.1 hsession.2
      refine ⟨h.keep hok hc hk, ?_⟩
      rw [hl]
      exact .stays _
    · cases hs
  | parse =>
    simp only [HostLifecycle.step] at hs
    split at hs
    · rename_i hthread
      cases hs
      rw [Shared.touch_eq (h.ok.owners (h.ok.jobThread hthread)).2.2]
      exact ⟨h, .stays _⟩
    · cases hs
  | advance i c =>
    simp only [HostLifecycle.step] at hs
    split at hs
    swap
    · cases hs
    rename_i hi
    split at hs
    · cases hs
    rename_i place rest hrow
    simp only [Option.map_eq_some_iff] at hs
    obtain ⟨⟨shared, next⟩, ha, rfl⟩ := hs
    have hadv := h.advanced hi hrow ha
    exact ⟨h.advance hi hrow hadv, hadv.moves⟩

end Step

lemma inv_of_reached {s : State} (h : Reached s) : Inv s := h.invariant (fun _ => inv_of_fresh) fun _ _ _ hinv hs =>
  (hinv.step hs).1


structure Safe (s : State) : Prop where
  forward : ∀ e s', step s e = some s' → Moves s.shared.lifecycle s'.shared.lifecycle
  tearDowns : s.shared.tearDowns ≤ 1
  dangling : s.shared.dangling = false
  outstanding : s.shared.outstandingSessions = s.shared.sessions.tally Session.unfinished
  slots : Partition s.shared.sessionSlots s.shared.freeSessionSlots s.shared.sessions ∨
    s.shared.prepared = false ∧ s.shared.tearDowns = 1 ∧ s.shared.freeSessionSlots = [] ∧ s.shared.sessions.count = 0
  inFlight : s.shared.inFlightCloseNotifications = s.count Place.inFlight
  stopped : ∀ i < s.threads.count, ∀ rest, s.threads.row i = .stopped true :: rest → depth rest = 0 →
    s.shared.lifecycle = .stopped ∧ s.shared.outstandingSessions = 0 ∧ ∀ j < s.threads.count, depth (s.threads.row j) = 0
  asserted : s.shared.failed = false

lemma fails_le (stack : List Place) : stack.countP Place.fails ≤ stack.countP Place.starts := by
  apply List.countP_mono_left
  intro place _ hp
  cases place with
  | tearing failed step =>
    cases failed with
    | true => rfl
    | false => cases hp
  | _ => cases hp

lemma depth_le (stack : List Place) : depth stack ≤ stack.countP Place.inFlight := by
  apply List.countP_mono_left
  intro place _ hp
  cases place with
  | notified => rfl
  | _ => cases hp

lemma Inv.tearDowns {s : State} (h : Inv s) : s.shared.tearDowns ≤ 1 := by
  have hle : s.count Place.fails ≤ s.count Place.starts := by
    unfold State.count Table.total
    exact Finset.sum_le_sum fun i _ => fails_le _
  have hstarts := h.counts.starts
  have htd := h.counts.tearDowns
  rw [htd]
  cases hl : s.shared.lifecycle <;> rw [hl] at hstarts <;> simp at hstarts ⊢ <;> omega

lemma Partition.nothing {sessions : Table Session} (h : sessions.count = 0) : Partition [] [] sessions := .fresh 0 h

/-- In every run the host moves forward, is torn down once and behind its sessions, and accounts for them. -/
theorem safe_of_reached {s : State} (h : Reached s) : Safe s := by
  have hi := inv_of_reached h
  refine ⟨fun e s' hs => (hi.step hs).2, hi.tearDowns, hi.ok.dangling, hi.ok.outstanding, ?_, hi.counts.inFlight.symm, ?_,
    hi.ok.failed⟩
  · cases hp : s.shared.prepared with
    | true => exact .inl (hi.ok.partition hp)
    | false =>
      obtain ⟨hcount, hfree⟩ := hi.ok.unprepared hp
      by_cases htd : s.shared.tearDowns = 0
      · rw [hi.ok.empty htd hp, hfree]
        exact .inl (.nothing hcount)
      · have hle := hi.tearDowns
        exact .inr ⟨rfl, by omega, hfree, hcount⟩
  · intro i hilt rest hrow hdepth
    have hstack := hi.stacked i hilt
    rw [hrow] at hstack
    obtain ⟨hl, hzero⟩ := hstack.1 hdepth
    refine ⟨hl, hi.ok.stopped hl, fun j hj => ?_⟩
    have hle := Table.le_total hj fun stack => stack.countP Place.inFlight
    have hcount : s.threads.total (fun stack => stack.countP Place.inFlight) = 0 := hi.counts.inFlight.trans hzero
    exact Nat.le_zero.mp ((depth_le _).trans (hle.trans hcount.le))

def stopWhileStarting : List Event :=
  [.call .start, .advance 0 {}, .advance 0 {}, .advance 0 {}, .advance 0 {}, .advance 0 {}, .advance 0 {}, .advance 0 {},
    .advance 0 {}, .advance 0 {}, .begin, .track 0, .call (.finish 0 true), .advance 1 {}, .advance 1 {}, .nest 1 .stop,
    .advance 1 {}, .advance 1 {}, .advance 1 {}, .advance 1 {}, .advance 0 {}, .advance 0 {}, .advance 0 {}, .advance 0 {},
    .advance 0 {}, .advance 0 {}, .advance 0 {}, .advance 0 {}, .advance 0 {}, .advance 0 {}, .advance 0 {}, .advance 0 {}]

theorem safe_of_reached_stop : ∃ s, run step { shared := { options := ⟨1, true⟩ } } stopWhileStarting = some s ∧
    s.shared.lifecycle = .stopped ∧ s.threads.row 0 = [.stopped true] ∧ Safe s := by
  refine ⟨_, rfl, rfl, rfl, ?_⟩
  exact safe_of_reached ⟨_, ⟨⟨1, true⟩, rfl⟩, stopWhileStarting, rfl⟩

/-- `Start` runs out of memory behind the slots: they are neither used nor on the list of the free ones. -/
theorem slots_of_failed_start :
    ¬∀ s, Reached s → Partition s.shared.sessionSlots s.shared.freeSessionSlots s.shared.sessions := by
  intro h
  have hpart := h _ ⟨_, ⟨⟨1, false⟩, rfl⟩, [.call .start, .advance 0 {}, .advance 0 { allocations := 1 }], rfl⟩
  exact absurd ((hpart.listed 0).mpr rfl) List.not_mem_nil

end ServerCore.Runtime.HostLifecycle
