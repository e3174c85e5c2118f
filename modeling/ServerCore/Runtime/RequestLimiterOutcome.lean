import Mathlib.Tactic.FieldSimp
import ServerCore.Runtime.RequestLimiterReference

/-! Dropping idle buckets is invisible, and the time hints of a request limiter are sound. -/

namespace ServerCore.Runtime.RequestLimiter

open ServerCore.Core ServerCore.Foundations

def kept (log : List Call) : List Call := log.filter fun call => call.answer ≠ .refused .keyCapacity 0

def charges (log : List Call) (key : Bytes) : List (ℚ × ℚ) := log.filterMap (chargeOf key)

namespace State

def held (s : State) (key : Bytes) (now : ℕ) : ℚ := if s.closed then 0 else levelOf s.options s.entries key now

structure Inv (s : State) : Prop where
  sound : s.Sound s.clock
  busy : s.Busy
  mirrors : Mirrors s (Unbounded.replay { options := s.options } (kept s.log)).1 s.clock
  answers : (Unbounded.replay { options := s.options } (kept s.log)).2 = (kept s.log).map Call.answer
  metered : ∀ key, TokenBucket.Metered (s.options.burstTokens : ℚ) s.options.rate (charges s.log key) s.clock (s.held key s.clock)

lemma charges_append (log : List Call) (call : Call) (key : Bytes) :
    charges (log ++ [call]) key = charges log key ++ (chargeOf key call).toList := by
  rw [charges, List.filterMap_append, charges]
  cases hc : chargeOf key call <;> simp [hc]

section Levels

variable {s s' : State} {o : RequestLimiterOptions} {entries : KeyMap Bytes RequestLimitEntry} {key : Bytes} {now t : ℕ}
  {request : Request}

lemma levelOf_le : levelOf o entries key t ≤ o.burstTokens := by
  rw [levelOf]
  split_ifs
  · exact level_le_burst
  · exact le_rfl

lemma levelOf_later (ho : o.Valid) (hle : now ≤ t) :
    levelOf o entries key t = TokenBucket.level (o.burstTokens : ℚ) o.rate (levelOf o entries key now) now t := by
  have hrate := (rate_pos ho).le
  have hle' : (now : ℚ) ≤ t := Nat.cast_le.mpr hle
  rw [levelOf, levelOf]
  split_ifs
  · exact (TokenBucket.level_level hrate hle').symm
  · exact (TokenBucket.level_full hrate hle').symm

lemma levelOf_nonneg (ho : o.Valid) (h : AllValid o now entries) : 0 ≤ levelOf o entries key now := by
  rw [levelOf]
  split_ifs with hkey
  · have hv := h key hkey
    exact TokenBucket.level_nonneg (Nat.cast_nonneg _) (rate_pos ho).le hv.nonneg (Nat.cast_le.mpr hv.past)
  · exact Nat.cast_nonneg _

lemma Sound.held_le (h : s.Sound now) : 0 ≤ s.held key now ∧ s.held key now ≤ s.options.burstTokens := by
  rw [held]
  split_ifs
  · exact ⟨le_rfl, Nat.cast_nonneg _⟩
  · exact ⟨levelOf_nonneg h.options h.valid, levelOf_le⟩

lemma metered_wait (h : s.Inv) (hle : s.clock ≤ now) :
    TokenBucket.Metered (s.options.burstTokens : ℚ) s.options.rate (charges s.log key) now (s.held key now) := by
  have ho := h.sound.options
  have hle' : (s.clock : ℚ) ≤ now := Nat.cast_le.mpr hle
  refine (h.metered key).wait (rate_pos ho).le hle' ?_ (h.sound.later hle).held_le.2
  rw [held, held]
  split_ifs
  · rw [zero_add]
    exact mul_nonneg (sub_nonneg.mpr hle') (rate_pos ho).le
  · rw [levelOf_later ho hle]
    refine (TokenBucket.level_wait (rate_pos ho).le hle').trans_eq ?_
    rw [TokenBucket.level_self levelOf_le]

lemma metered_perform (h : s.Inv) (hle : s.clock ≤ now) (key : Bytes) :
    TokenBucket.Metered (s.options.burstTokens : ℚ) s.options.rate
      (charges (s.log ++ [⟨now, request, (s.perform now request).2⟩]) key) now ((s.perform now request).1.held key now) := by
  have hs := h.sound.later hle
  have hwait := @metered_wait _ key _ h hle
  have hoptions := @perform_options _ _ request hs
  rw [charges_append]
  cases hc : chargeOf key ⟨now, request, (s.perform now request).2⟩ with
  | none =>
    rw [Option.toList_none, List.append_nil]
    refine hwait.lower ?_
    cases hclosed : (s.perform now request).1.closed with
    | true =>
      rw [held, hclosed, if_pos rfl]
      exact hs.held_le.1
    | false =>
      rw [held, held, hclosed, (perform_closed hs hclosed).1, hoptions]
      exact ((perform_untouched hs hclosed hc).2 now le_rfl).le
  | some charge =>
    obtain ⟨hopen, htime, hnonneg, hcost, hlevel⟩ := perform_charged hs hc
    obtain ⟨time, cost⟩ := charge
    obtain rfl : time = now := htime
    have hheld : s.held key now = levelOf s.options s.entries key now := by rw [held, hopen]; rfl
    refine (hwait.pay (rate_pos hs.options).le (hheld ▸ hcost)).lower ?_
    rw [hheld, held]
    split_ifs
    · exact sub_nonneg.mpr hcost
    · rw [hoptions]
      exact hlevel.le

end Levels

section Runs

variable {s s' : State} {event : ℕ × Request} {now t : ℕ} {key : Bytes}

lemma initial_inv (h : Initial s) : s.Inv := by
  obtain ⟨options, h⟩ := h
  rw [create] at h
  split_ifs at h with hinvalid
  obtain rfl := Except.ok.inj h
  have ho := RequestLimiterOptions.valid_of_not_invalid (Bool.eq_false_of_not_eq_true hinvalid)
  have hsound : ({ options } : State).Sound 0 :=
    ⟨ho, fun _ hkey => absurd hkey (Finset.notMem_empty _), rfl, Nat.zero_le _, fun _ => rfl, rfl, fun _ => Nat.zero_le _,
      Nat.zero_le _, fun _ _ => rfl, fun _ hkey => absurd hkey (Finset.notMem_empty _)⟩
  refine ⟨hsound, nofun, ⟨rfl, rfl, rfl, rfl, fun _ => Alike.refl, fun _ _ hkey => absurd hkey (Finset.notMem_empty _)⟩, rfl,
    fun key => ?_⟩
  exact TokenBucket.Metered.nil (Nat.cast_nonneg _) (rate_pos ho).le hsound.held_le.2

lemma step_some (h : step s event = some s') : s.clock ≤ event.1 ∧
    s' = { (s.perform event.1 event.2).1 with
      clock := event.1
      log := s.log ++ [⟨event.1, event.2, (s.perform event.1 event.2).2⟩] } := by
  simp only [step] at h
  split_ifs at h with hlt
  exact ⟨not_lt.mp hlt, (Option.some.inj h).symm⟩

lemma answers_step (h : s.Inv) (hle : s.clock ≤ now) {request : Request} {log : List Call}
    (hlog : log = s.log ++ [⟨now, request, (s.perform now request).2⟩]) :
    Mirrors (s.perform now request).1 (Unbounded.replay { options := s.options } (kept log)).1 now ∧
      (Unbounded.replay { options := s.options } (kept log)).2 = (kept log).map Call.answer := by
  subst hlog
  rcases @Mirrors.perform _ _ _ request (h.mirrors.later hle) (h.sound.later hle) with ⟨hcapacity, hafter⟩ | ⟨hplaced, hanswer, hafter⟩
  · have hkept : kept (s.log ++ [⟨now, request, (s.perform now request).2⟩]) = kept s.log := by
      rw [kept, List.filter_append, hcapacity]
      simp [kept]
    rw [hkept]
    exact ⟨hafter, h.answers⟩
  · have hkept : kept (s.log ++ [⟨now, request, (s.perform now request).2⟩]) =
        kept s.log ++ [⟨now, request, (s.perform now request).2⟩] := by
      rw [kept, List.filter_append]
      simp [kept, hplaced]
    rw [hkept, Unbounded.replay_append, List.map_append, h.answers, hanswer]
    exact ⟨hafter, rfl⟩

lemma inv_step (h : s.Inv) (hstep : step s event = some s') : s'.Inv := by
  obtain ⟨hle, rfl⟩ := step_some hstep
  obtain ⟨now, request⟩ := event
  have hs := h.sound.later hle
  have hoptions := @perform_options _ _ request hs
  have hmetered (key : Bytes) := @metered_perform _ _ request h hle key
  obtain ⟨hmirrors, hanswers⟩ := @answers_step _ _ h hle request _ rfl
  rw [← hoptions] at hmirrors hanswers hmetered
  exact ⟨{ perform_sound hs with }, perform_busy hs h.busy, { hmirrors with }, hanswers, hmetered⟩

lemma reachable_inv (h : Reachable step Initial s) : s.Inv := h.invariant (fun _ => initial_inv) fun _ _ _ => inv_step

end Runs

section Hints

variable {s s' s'' : State} {event : ℕ × Request} {now t cost retryAfter : ℕ} {key : Bytes}

lemma scan_in_vain (h : s.Inv) (hle : s.clock ≤ t) (hlt : t < s.pressureRetry) (hkey : key ∈ s.entries.domain) :
    s.evicts t true (s.entries.get key) = false := by
  by_contra he
  have he := Bool.eq_true_of_not_eq_false he
  have hidle := evicts_idle he
  cases hclosed : s.closed with
  | true => exact h.busy hclosed key hkey hidle
  | false =>
    obtain ⟨-, hfull⟩ := evicts_full (h.sound.later hle) hclosed hkey he
    exact (h.sound.pressed key hkey hidle t hle hlt).ne hfull

lemma scan_removes_nothing (h : s.Inv) (hle : s.clock ≤ t) (hlt : t < s.pressureRetry) :
    (s.prune t true).2 = 0 ∧ (s.prune t true).1.entries.domain = s.entries.domain := by
  have hnone : (s.entries.domain.filter fun key => s.evicts t true (s.entries.get key)) = ∅ :=
    Finset.filter_eq_empty_iff.mpr fun key hkey => Bool.eq_false_iff.mp (scan_in_vain h hle hlt hkey)
  simp only [State.prune, hnone, Finset.card_empty, Finset.sdiff_empty, and_self]

lemma crowded_after_scan (h : s.Inv) (hle : s.clock ≤ now) (hr : (s.tryAcquire key now cost).2 = .refused .keyCapacity retryAfter) :
    (s.prune now true).1.crowded key = true := by
  have hs := h.sound.later hle
  have htried := tryAcquire_tried key cost hs
  generalize s.tryAcquire key now cost = result at htried hr
  obtain ⟨s', answer⟩ := result
  cases htried with
  | invalid | closed => contradiction
  | full => exact absurd (RequestAdmission.refused.inj hr).1 nofun
  | admitted => exact absurd hr (admitKnown_placed _ _ _ _ _ _)
  | crowded _ _ _ _ hcrowded =>
    rw [State.makeRoom] at hcrowded
    split_ifs at hcrowded with hscan
    · exact hcrowded
    · have hlt : now < s.pressureRetry := by simpa [hcrowded] using hscan
      have hdomain := (scan_removes_nothing h hle hlt).2
      have hbytes : (s.prune now true).1.keyBytes = s.keyBytes := by
        rw [hs.prune.bytes_eq, hs.bytes_eq, hdomain]
      rw [State.crowded, hdomain, hbytes]
      exact hcrowded

lemma level_along (h : s.Inv) (hsteps : Steps step s s') :
    s'.Inv ∧ s'.options = s.options ∧ charges s.log key <+: charges s'.log key ∧
      (charges s'.log key = charges s.log key → s'.closed = false → s.clock ≤ s'.clock ∧
        activeOf s'.entries key ≤ activeOf s.entries key ∧
        ∀ t, s'.clock ≤ t → levelOf s.options s'.entries key t = levelOf s.options s.entries key t) := by
  refine hsteps.invariant (P := fun s' => s'.Inv ∧ s'.options = s.options ∧ charges s.log key <+: charges s'.log key ∧
    (charges s'.log key = charges s.log key → s'.closed = false → s.clock ≤ s'.clock ∧
      activeOf s'.entries key ≤ activeOf s.entries key ∧
      ∀ t, s'.clock ≤ t → levelOf s.options s'.entries key t = levelOf s.options s.entries key t))
    ⟨h, rfl, List.prefix_rfl, fun _ _ => ⟨le_rfl, le_rfl, fun _ _ => rfl⟩⟩ ?_
  rintro u event u' ⟨hu, hoptions, hpre, hkeep⟩ hstep
  have hinv := inv_step hu hstep
  obtain ⟨hle, rfl⟩ := step_some hstep
  obtain ⟨now, request⟩ := event
  have hs := hu.sound.later hle
  have hgrow : charges (u.log ++ [⟨now, request, (u.perform now request).2⟩]) key =
      charges u.log key ++ (chargeOf key ⟨now, request, (u.perform now request).2⟩).toList := charges_append _ _ _
  refine ⟨hinv, (perform_options hs).trans hoptions, hgrow ▸ hpre.trans (List.prefix_append _ _), fun heq hopen => ?_⟩
  have hlength := congrArg List.length (hgrow.symm.trans heq)
  rw [List.length_append] at hlength
  have hsame : charges u.log key = charges s.log key := (hpre.eq_of_length_le (by omega)).symm
  have hnone : chargeOf key ⟨now, request, (u.perform now request).2⟩ = none := by
    rw [hsame] at hlength
    cases hc : chargeOf key ⟨now, request, (u.perform now request).2⟩ with
    | none => rfl
    | some charge =>
      rw [hc, Option.toList_some, List.length_singleton] at hlength
      omega
  obtain ⟨hclock, hactive, hlevel⟩ := hkeep hsame (perform_closed hs hopen).1
  obtain ⟨hactive', hlevel'⟩ := perform_untouched hs hopen hnone
  rw [hoptions] at hlevel'
  exact ⟨hclock.trans hle, hactive'.trans hactive, fun t ht => (hlevel' t ht).trans (hlevel t (hle.trans ht))⟩

lemma rate_answer (h : s.Sound now) (hr : (s.tryAcquire key now cost).2 = .refused .rate retryAfter) :
    s.options.argumentError key cost = none ∧ s.closed = false ∧ s.active < s.options.maxConcurrentTotal ∧
      activeOf s.entries key < s.options.maxConcurrentPerKey ∧ levelOf s.options s.entries key now < cost ∧
      retryAfter = max 1 ⌈((cost : ℚ) - levelOf s.options s.entries key now) * s.options.refillInterval / s.options.refillTokens⌉₊ := by
  have htried := tryAcquire_tried key cost h
  generalize s.tryAcquire key now cost = result at htried hr
  obtain ⟨s', answer⟩ := result
  cases htried with
  | invalid | closed => contradiction
  | full | crowded => exact absurd (RequestAdmission.refused.inj hr).1 nofun
  | admitted s' he hopen hactive hroomy =>
    obtain ⟨-, -, keyBytes, hsound⟩ := hroomy.bytes
    have hvalid := entryOf_valid hsound.valid key
    obtain ⟨hactives, hlevels⟩ := hroomy.alike key
    have ho := hroomy.options
    rw [show ({ s' with keyBytes } : State).options = s.options from ho] at hvalid
    cases hadmit : (s.options.admits (entryOf s.options s'.entries key now) now cost).2 with
    | none =>
      rw [s'.admitKnown_granted ho hadmit] at hr
      contradiction
    | some refusal =>
      rw [s'.admitKnown_refused ho hadmit] at hr
      obtain ⟨hreason, hretry⟩ := RequestAdmission.refused.inj hr
      rw [admit_eq hvalid, entryOf_active, entryOf_level h.options le_rfl, hactives, hlevels now le_rfl] at hadmit
      split_ifs at hadmit with hbusy hrate
      · obtain rfl := Option.some.inj hadmit
        contradiction
      · obtain rfl := Option.some.inj hadmit
        exact ⟨he, hopen, hactive, not_le.mp hbusy, hrate, hretry.symm⟩

lemma rate_answered (h : s.Sound now) (he : s.options.argumentError key cost = none) (hopen : s.closed = false)
    (hactive : s.active < s.options.maxConcurrentTotal) (hkey : activeOf s.entries key < s.options.maxConcurrentPerKey)
    (hlevel : levelOf s.options s.entries key now < cost) : ∃ retryAfter, (s.tryAcquire key now cost).2 = .refused .rate retryAfter := by
  have hcost : (cost : ℚ) ≤ s.options.burstTokens := Nat.cast_le.mpr (argument_cost he)
  have hmem : key ∈ s.entries.domain := by
    by_contra hnot
    rw [levelOf, if_neg hnot] at hlevel
    exact absurd hlevel (not_lt.mpr hcost)
  have hentry : s.entries.get key = entryOf s.options s.entries key now := (KeyMap.getD_of_mem hmem _).symm
  have hadmit : (s.options.admits (entryOf s.options s.entries key now) now cost).2 = some (.rate,
      max 1 ⌈((cost : ℚ) - levelOf s.options s.entries key now) * s.options.refillInterval / s.options.refillTokens⌉₊) := by
    rw [admit_eq (entryOf_valid h.valid key), entryOf_active, entryOf_level h.options le_rfl, if_neg (not_le.mpr hkey),
      if_pos hlevel]
  refine ⟨max 1 ⌈((cost : ℚ) - levelOf s.options s.entries key now) * s.options.refillInterval / s.options.refillTokens⌉₊, ?_⟩
  simp only [State.tryAcquire, he]
  rw [if_neg (Bool.eq_false_iff.mp hopen), if_neg (not_le.mpr hactive), if_pos hmem, hentry, s.admitKnown_refused rfl hadmit]

end Hints

section Waiting

variable {o : RequestLimiterOptions} {level : ℚ} {start now cost : ℕ}

lemma missing_time (ho : o.Valid) : ((cost : ℚ) - level) / o.rate =
    ((cost : ℚ) - level) * o.refillInterval / o.refillTokens * 1000000 := by
  have hinterval : (0 : ℚ) < o.refillInterval := Int.cast_pos.mpr ho.refillInterval
  have htokens : (0 : ℚ) < o.refillTokens := Nat.cast_pos.mpr ho.refillTokens
  rw [RequestLimiterOptions.rate]
  field_simp

lemma retry_suffices (ho : o.Valid) (hcost : (cost : ℚ) ≤ o.burstTokens)
    (hlate : start + max 1 ⌈((cost : ℚ) - level) * o.refillInterval / o.refillTokens⌉₊ * 1000000 ≤ now) :
    (cost : ℚ) ≤ TokenBucket.level (o.burstTokens : ℚ) o.rate level start now := by
  rw [TokenBucket.le_level_iff_wait (rate_pos ho) hcost, missing_time ho]
  have hceil := Nat.le_ceil (((cost : ℚ) - level) * o.refillInterval / o.refillTokens)
  have hmax : (⌈((cost : ℚ) - level) * o.refillInterval / o.refillTokens⌉₊ : ℚ) ≤
      (max 1 ⌈((cost : ℚ) - level) * o.refillInterval / o.refillTokens⌉₊ : ℕ) := Nat.cast_le.mpr (le_max_right _ _)
  have hlate : ((start + max 1 ⌈((cost : ℚ) - level) * o.refillInterval / o.refillTokens⌉₊ * 1000000 : ℕ) : ℚ) ≤ now :=
    Nat.cast_le.mpr hlate
  push_cast at hlate hmax
  linarith

lemma retry_needed (ho : o.Valid) (hcost : (cost : ℚ) ≤ o.burstTokens) (hmissing : level < cost)
    (hearly : now + 1000000 ≤ start + max 1 ⌈((cost : ℚ) - level) * o.refillInterval / o.refillTokens⌉₊ * 1000000) :
    TokenBucket.level (o.burstTokens : ℚ) o.rate level start now < cost := by
  have hinterval : (0 : ℚ) < o.refillInterval := Int.cast_pos.mpr ho.refillInterval
  have htokens : (0 : ℚ) < o.refillTokens := Nat.cast_pos.mpr ho.refillTokens
  have hpos : 0 < ((cost : ℚ) - level) * o.refillInterval / o.refillTokens :=
    div_pos (mul_pos (sub_pos.mpr hmissing) hinterval) htokens
  rw [max_eq_right (Nat.ceil_pos.mpr hpos)] at hearly
  rw [← not_le, TokenBucket.le_level_iff_wait (rate_pos ho) hcost, missing_time ho, not_le]
  have hceil := Nat.ceil_lt_add_one hpos.le
  have hearly : ((now + 1000000 : ℕ) : ℚ) ≤
      ((start + ⌈((cost : ℚ) - level) * o.refillInterval / o.refillTokens⌉₊ * 1000000 : ℕ) : ℚ) := Nat.cast_le.mpr hearly
  push_cast at hearly
  linarith

end Waiting

end State

open State

theorem idle_buckets_are_invisible {s : State} (h : Reachable step Initial s) :
    (Unbounded.replay { options := s.options } (kept s.log)).2 = (kept s.log).map Call.answer ∧
    (∀ key, ∀ t t' : ℚ, t ≤ t' → TokenBucket.paidBetween (charges s.log key) t t' ≤
      s.options.burstTokens + (t' - t) / 1000000 * s.options.refillTokens / s.options.refillInterval) ∧
    (∀ key, s.permits.total (holds key) ≤ s.options.maxConcurrentPerKey) ∧
    s.permits.total live ≤ s.options.maxConcurrentTotal := by
  have hinv := reachable_inv h
  have hinterval : (0 : ℚ) < s.options.refillInterval := Int.cast_pos.mpr hinv.sound.options.refillInterval
  refine ⟨hinv.answers, fun key t t' htt' => ?_, fun key => ?_, ?_⟩
  · refine ((hinv.metered key).between t t' htt').trans_eq ?_
    rw [RequestLimiterOptions.rate]
    field_simp
  · rw [← hinv.sound.active_of key]
    exact hinv.sound.perKey key
  · rw [← hinv.sound.active_eq]
    exact hinv.sound.total

theorem time_hints_are_sound {s : State} (h : Reachable step Initial s) :
    (∀ t, s.clock ≤ t → t < s.pressureRetry → (s.prune t true).2 = 0 ∧ (s.prune t true).1.entries.domain = s.entries.domain) ∧
    (∀ key now cost, s.clock ≤ now → (s.tryAcquire key now cost).2 = .refused .keyCapacity 0 →
      (s.prune now true).1.crowded key = true) ∧
    ∀ key start cost retryAfter s' s'', (s.tryAcquire key start cost).2 = .refused .rate retryAfter →
      step s (start, .tryAcquire key cost) = some s' → Steps step s' s'' → charges s''.log key = charges s'.log key →
      ∀ now, s''.clock ≤ now →
        (start + retryAfter * 1000000 ≤ now → ∀ again, (s''.tryAcquire key now cost).2 ≠ .refused .rate again) ∧
        (now + 1000000 ≤ start + retryAfter * 1000000 → s''.closed = false → s''.active < s''.options.maxConcurrentTotal →
          ∃ again, (s''.tryAcquire key now cost).2 = .refused .rate again) := by
  have hinv := reachable_inv h
  refine ⟨fun t hle hlt => scan_removes_nothing hinv hle hlt, fun key now cost hle hr => crowded_after_scan hinv hle hr,
    fun key start cost retryAfter s' s'' hrate hstep hsteps hcharges now hnow => ?_⟩
  obtain ⟨hle, heq⟩ := step_some hstep
  have hs := hinv.sound.later hle
  obtain ⟨he, hopen, hactive, hkey, hlevel, rfl⟩ := rate_answer hs hrate
  have ho := hs.options
  have hcost : (cost : ℚ) ≤ s.options.burstTokens := Nat.cast_le.mpr (argument_cost he)
  have hinv' := inv_step hinv hstep
  obtain ⟨hinv'', hoptions'', -, hkeep⟩ := @level_along _ _ key hinv' hsteps
  have hs'' := hinv''.sound.later hnow
  have hoptions' : s'.options = s.options := by rw [heq]; exact perform_options hs
  rw [hoptions'] at hoptions''
  have hnone : chargeOf key ⟨start, .tryAcquire key cost, (s.perform start (.tryAcquire key cost)).2⟩ = none := by
    rw [State.perform, hrate]
    rfl
  have hbucket (hopen'' : s''.closed = false) : start ≤ now ∧
      activeOf s''.entries key ≤ activeOf s.entries key ∧ levelOf s.options s''.entries key now =
        TokenBucket.level (s.options.burstTokens : ℚ) s.options.rate (levelOf s.options s.entries key start) start now := by
    obtain ⟨hclock, hactive', hlevel'⟩ := hkeep hcharges hopen''
    have hopen' : (s.perform start (.tryAcquire key cost)).1.closed = false := (tryAcquire_frame key cost hs).2.trans hopen
    obtain ⟨hactive₁, hlevel₁⟩ := perform_untouched hs hopen' hnone
    have hclock' : s'.clock = start := by rw [heq]
    have hlate : start ≤ now := (hclock' ▸ hclock).trans hnow
    have hentries : s'.entries = (s.perform start (.tryAcquire key cost)).1.entries := by rw [heq]
    rw [hoptions', hentries] at hlevel'
    rw [hentries] at hactive'
    refine ⟨hlate, hactive'.trans hactive₁, ?_⟩
    exact ((hlevel' now hnow).trans (hlevel₁ now hlate)).trans (levelOf_later ho hlate)
  refine ⟨fun hlate again hagain => ?_, fun hearly hopen'' hactive'' => ?_⟩
  · obtain ⟨-, hopen'', -, -, hlow, -⟩ := rate_answer hs'' hagain
    rw [hoptions'', (hbucket hopen'').2.2] at hlow
    exact absurd (retry_suffices ho hcost hlate) (not_le.mpr hlow)
  · obtain ⟨-, hfew, hbucket⟩ := hbucket hopen''
    rw [← hoptions''] at he
    refine rate_answered hs'' he hopen'' hactive'' ?_ ?_
    · rw [hoptions'']
      exact hfew.trans_lt hkey
    · rw [hoptions'', hbucket]
      exact retry_needed ho hcost hlevel hearly

section Runs

def narrowOptions (maxKeys maxConcurrentTotal : ℕ) : RequestLimiterOptions :=
  { maxKeys, maxConcurrentTotal, maxConcurrentPerKey := 1, refillTokens := 1, burstTokens := 1 }

lemma narrow_initial {maxKeys maxConcurrentTotal : ℕ} (h : (narrowOptions maxKeys maxConcurrentTotal).invalid = false) :
    Initial ({ options := narrowOptions maxKeys maxConcurrentTotal } : State) := by
  refine ⟨narrowOptions maxKeys maxConcurrentTotal, ?_⟩
  rw [create, h]
  rfl

theorem full_bucket_makes_room : ∃ s : State, s.log.map Call.answer =
      [.permit 0, .done, .refused .keyCapacity 0, .permit 1, .refused .keyCapacity 0] ∧
    (Unbounded.replay { options := s.options } (kept s.log)).2 = [.permit 0, .done, .permit 1] := by
  have h : (run step ({ options := narrowOptions 1 2 } : State)
      [(0, .tryAcquire [97] 1), (0, .reset 0), (0, .tryAcquire [98] 1), (1000000000, .tryAcquire [98] 1),
        (1000000000, .tryAcquire [97] 1)]).map (fun s => (s.log.map Call.answer, (kept s.log).map Call.answer)) =
      some ([.permit 0, .done, .refused .keyCapacity 0, .permit 1, .refused .keyCapacity 0],
        [.permit 0, .done, .permit 1]) := by
    decide +kernel
  simp only [Option.map_eq_some_iff, Prod.mk.injEq] at h
  obtain ⟨s, hrun, hanswers, hkept⟩ := h
  have hanswered := (idle_buckets_are_invisible ⟨_, narrow_initial rfl, _, hrun⟩).1
  exact ⟨s, hanswers, hanswered.trans hkept⟩

lemma refused_run : ∃ s s' s'' : State, Reachable step Initial s ∧ (s.tryAcquire [97] 0 1).2 = .refused .rate 1000 ∧
    step s (0, .tryAcquire [97] 1) = some s' ∧ step s' (1000000, .tryAcquire [98] 1) = some s'' ∧
    charges s''.log [97] = charges s'.log [97] ∧ s'.clock = 0 ∧ s''.clock = 1000000 ∧ s'.closed = false ∧ s'.active = 0 ∧
    s'.options.maxConcurrentTotal = 1 ∧ (s''.tryAcquire [97] 2000000 1).2 = .refused .totalConcurrency 0 := by
  have h : ((run step ({ options := narrowOptions 2 1 } : State)
      [(0, .tryAcquire [97] 1), (0, .reset 0)]).bind fun s => (step s (0, .tryAcquire [97] 1)).bind fun s' =>
        (step s' (1000000, .tryAcquire [98] 1)).map fun s'' => ((s.tryAcquire [97] 0 1).2, (s''.tryAcquire [97] 2000000 1).2,
          decide (charges s''.log [97] = charges s'.log [97] ∧ s'.clock = 0 ∧ s''.clock = 1000000 ∧ s'.closed = false ∧
            s'.active = 0 ∧ s'.options.maxConcurrentTotal = 1))) =
      some (.refused .rate 1000, .refused .totalConcurrency 0, true) := by
    decide +kernel
  simp only [Option.bind_eq_some_iff, Option.map_eq_some_iff, Prod.mk.injEq, decide_eq_true_eq] at h
  obtain ⟨s, hrun, s', hstep, s'', hstep', hrate, hanswer, hcharges, hclock, hclock', hopen, hactive, htotal⟩ := h
  exact ⟨s, s', s'', ⟨_, narrow_initial rfl, _, hrun⟩, hrate, hstep, hstep', hcharges, hclock, hclock', hopen,
    hactive, htotal, hanswer⟩

theorem other_key_changes_the_answer : ∃ s s' s'' : State, ∃ key start cost retryAfter now, Reachable step Initial s ∧
    (s.tryAcquire key start cost).2 = .refused .rate retryAfter ∧ step s (start, .tryAcquire key cost) = some s' ∧
    Steps step s' s'' ∧ charges s''.log key = charges s'.log key ∧ s''.clock ≤ now ∧
    now + 1000000 ≤ start + retryAfter * 1000000 ∧ ∀ again, (s''.tryAcquire key now cost).2 ≠ .refused .rate again := by
  obtain ⟨s, s', s'', hreach, hrate, hstep, hstep', hcharges, -, hclock', -, -, -, hanswer⟩ := refused_run
  refine ⟨s, s', s'', [97], 0, 1, 1000, 2000000, hreach, hrate, hstep, Steps.single hstep', hcharges, by omega, by omega,
    fun again => ?_⟩
  rw [hanswer]
  exact nofun

theorem second_decides : ∃ s' : State, (∃ again, (s'.tryAcquire [97] 999000000 1).2 = .refused .rate again) ∧
    ∀ again, (s'.tryAcquire [97] 1000000000 1).2 ≠ .refused .rate again := by
  obtain ⟨s, s', s'', hreach, hrate, hstep, -, -, hclock, -, hopen, hactive, htotal, -⟩ := refused_run
  have hsound (now : ℕ) := (time_hints_are_sound hreach).2.2 [97] 0 1 1000 s' s' hrate hstep (Steps.refl s') rfl now (by omega)
  exact ⟨s', (hsound 999000000).2 (by omega) hopen (by omega), (hsound 1000000000).1 (by omega)⟩

end Runs

end ServerCore.Runtime.RequestLimiter
