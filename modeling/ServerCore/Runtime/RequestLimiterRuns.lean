import ServerCore.Runtime.RequestLimiterBuckets

/-! What a request limiter keeps in every run. -/

namespace ServerCore.Runtime.RequestLimiter

open ServerCore.Core ServerCore.Foundations

def holds (key : Bytes) (permit : Option Bytes) : ℕ := if permit = some key then 1 else 0

def live (permit : Option Bytes) : ℕ := if permit.isSome then 1 else 0

def chargeOf (key : Bytes) (call : Call) : Option (ℚ × ℚ) :=
  match call.request, call.answer with
  | .tryAcquire key' cost, .permit _ => if key' = key then some (call.now, cost) else none
  | _, _ => none

namespace State

structure Sound (s : State) (now : ℕ) : Prop where
  options : s.options.Valid
  valid : AllValid s.options now s.entries
  bytes_eq : s.keyBytes = ∑ key ∈ s.entries.domain, key.length
  bytes_le : s.keyBytes ≤ s.options.maxRetainedKeyBytes
  active_of : ∀ key, activeOf s.entries key = s.permits.total (holds key)
  active_eq : s.active = s.permits.total live
  perKey : ∀ key, activeOf s.entries key ≤ s.options.maxConcurrentPerKey
  total : s.active ≤ s.options.maxConcurrentTotal
  unissued : ∀ i, s.permits.count ≤ i → s.permits.row i = none
  pressed : ∀ key ∈ s.entries.domain, (s.entries.get key).active = 0 →
    ∀ t, now ≤ t → t < s.pressureRetry → s.options.level (s.entries.get key) t < s.options.burstTokens

def Busy (s : State) : Prop := s.closed = true → ∀ key ∈ s.entries.domain, (s.entries.get key).active ≠ 0

section Prune

variable {s : State} {now t : ℕ} {pressure : Bool} {key : Bytes}

lemma Sound.later (h : s.Sound now) (hle : now ≤ t) : s.Sound t :=
  { h with
    valid := h.valid.later hle
    pressed := fun key hkey ha t' ht' => h.pressed key hkey ha t' (hle.trans ht') }

lemma mem_prune : key ∈ (s.prune now pressure).1.entries.domain ↔
    key ∈ s.entries.domain ∧ s.evicts now pressure (s.entries.get key) = false := by
  simp only [State.prune, Finset.mem_sdiff, Finset.mem_filter, not_and, Bool.not_eq_true]
  tauto

lemma prune_get : (s.prune now pressure).1.entries.get key = s.options.refill (s.entries.get key) now := rfl

lemma evicts_full (h : s.Sound now) (hopen : s.closed = false) (hkey : key ∈ s.entries.domain)
    (he : s.evicts now pressure (s.entries.get key) = true) :
    (s.entries.get key).active = 0 ∧ s.options.level (s.entries.get key) now = s.options.burstTokens := by
  simp only [State.evicts, hopen, refill_active, refill_tokens (h.valid key hkey), Bool.false_or, Bool.and_eq_true,
    decide_eq_true_eq] at he
  exact ⟨he.1, level_le_burst.antisymm he.2.1⟩

lemma evicts_idle (he : s.evicts now pressure (s.entries.get key) = true) : (s.entries.get key).active = 0 := by
  simp only [State.evicts, refill_active, Bool.and_eq_true, decide_eq_true_eq] at he
  exact he.1

lemma prune_activeOf : activeOf (s.prune now pressure).1.entries key = activeOf s.entries key := by
  rw [activeOf, activeOf]
  split_ifs with hp hk hk
  · rw [prune_get, refill_active]
  · exact absurd (mem_prune.mp hp).1 hk
  · have : s.evicts now pressure (s.entries.get key) = true := by
      by_contra he
      exact hp (mem_prune.mpr ⟨hk, Bool.eq_false_of_not_eq_true he⟩)
    exact (evicts_idle this).symm
  · rfl

lemma prune_alike (h : s.Sound now) (hopen : s.closed = false) :
    Alike s.options now (s.prune now pressure).1.entries s.entries := by
  refine fun key => ⟨prune_activeOf, fun t ht => ?_⟩
  rw [levelOf, levelOf]
  split_ifs with hp hk hk
  · rw [prune_get, refill_level h.options (h.valid key hk) ht]
  · exact absurd (mem_prune.mp hp).1 hk
  · have : s.evicts now pressure (s.entries.get key) = true := by
      by_contra he
      exact hp (mem_prune.mpr ⟨hk, Bool.eq_false_of_not_eq_true he⟩)
    obtain ⟨-, hfull⟩ := evicts_full h hopen hk this
    refine (le_antisymm level_le_burst ?_).symm
    rw [← hfull]
    exact TokenBucket.level_mono (rate_pos h.options).le (Nat.cast_le.mpr ht)
  · rfl

lemma prune_bytes (h : s.Sound now) :
    (s.prune now pressure).1.keyBytes = ∑ key ∈ (s.prune now pressure).1.entries.domain, key.length ∧
      (s.prune now pressure).1.keyBytes ≤ s.keyBytes := by
  have hsub : (s.entries.domain.filter fun key => s.evicts now pressure (s.entries.get key)) ⊆ s.entries.domain :=
    Finset.filter_subset _ _
  have hsum := Finset.sum_sdiff (f := fun key : Bytes => key.length) hsub
  have hbytes := h.bytes_eq
  have hle : ∑ key ∈ s.entries.domain.filter (fun key => s.evicts now pressure (s.entries.get key)), key.length ≤ s.keyBytes := by
    omega
  simp only [State.prune, sizeSub_eq hle]
  exact ⟨by omega, Nat.sub_le _ _⟩

lemma prune_retry (hkey : key ∈ (s.prune now true).1.entries.domain) (ha : ((s.prune now true).1.entries.get key).active = 0)
    (ht : t < (s.prune now true).1.pressureRetry) : t < s.options.fullAt ((s.prune now true).1.entries.get key) := by
  have hfold := Finset.lt_fold_min t |>.mp ht
  exact hfold.2 key (Finset.mem_filter.mpr ⟨hkey, ha⟩)

lemma Sound.prune (h : s.Sound now) : (s.prune now pressure).1.Sound now := by
  obtain ⟨hbytes, hle⟩ := @prune_bytes _ _ pressure h
  refine ⟨h.options, fun key hkey => ?_, hbytes, hle.trans h.bytes_le, fun key => ?_, h.active_eq, fun key => ?_, h.total,
    h.unissued, fun key hkey ha t ht hlt => ?_⟩
  · exact refill_valid h.options (h.valid key (mem_prune.mp hkey).1)
  · exact prune_activeOf.trans (h.active_of key)
  · exact prune_activeOf.trans_le (h.perKey key)
  · have hold := (mem_prune.mp hkey).1
    have hvalid := h.valid key hold
    cases pressure with
    | false =>
      rw [prune_get, refill_active] at ha
      rw [prune_get]
      exact (refill_level h.options hvalid ht).trans_lt (h.pressed key hold ha t ht hlt)
    | true =>
      refine level_lt_burst h.options ?_ (prune_retry hkey ha hlt)
      rw [prune_get, refill_refill hvalid.past]
      exact ht

lemma prune_busy (hclosed : s.closed = true) : (s.prune now pressure).1.Busy := by
  intro _ key hkey ha
  obtain ⟨-, he⟩ := mem_prune.mp hkey
  rw [prune_get, refill_active] at ha
  simp [State.evicts, hclosed, refill_active, ha] at he

end Prune

section TryAcquire

variable {s s' : State} {now t cost : ℕ} {key : Bytes} {entry : RequestLimitEntry}

lemma admitKnown_refused (s : State) {o : RequestLimiterOptions} {refusal : RequestLimitReason × ℕ} (ho : s.options = o)
    (hr : (o.admits entry now cost).2 = some refusal) : s.admitKnown key entry now cost =
      ({ s with entries := s.entries.set key (o.admits entry now cost).1 }, .refused refusal.1 refusal.2) := by
  rw [State.admitKnown, ho]
  generalize o.admits entry now cost = answer at hr ⊢
  obtain ⟨entry, result⟩ := answer
  obtain rfl : result = _ := hr
  rfl

lemma admitKnown_granted (s : State) {o : RequestLimiterOptions} (ho : s.options = o) (hr : (o.admits entry now cost).2 = none) :
    s.admitKnown key entry now cost =
      ({ s with
          entries := s.entries.set key (o.admits entry now cost).1
          active := s.active + 1
          permits := s.permits.push (some key) }, .permit s.permits.count) := by
  rw [State.admitKnown, ho]
  generalize o.admits entry now cost = answer at hr ⊢
  obtain ⟨entry, result⟩ := answer
  obtain rfl : result = _ := hr
  rfl

lemma admitKnown_placed (s : State) (key : Bytes) (entry : RequestLimitEntry) (now cost retryAfter : ℕ) :
    (s.admitKnown key entry now cost).2 ≠ .refused .keyCapacity retryAfter := by
  cases hr : (s.options.admits entry now cost).2 with
  | none =>
    rw [admitKnown_granted s rfl hr]
    simp
  | some refusal =>
    rw [admitKnown_refused s rfl hr]
    simp only [RequestLimiterOptions.admits] at hr
    split_ifs at hr <;> obtain rfl := Option.some.inj hr <;> simp

lemma makeRoom_cases (s : State) (key : Bytes) (now : ℕ) : s.makeRoom key now = s ∨ s.makeRoom key now = (s.prune now true).1 := by
  rw [State.makeRoom]
  split_ifs
  · exact .inr rfl
  · exact .inl rfl

lemma makeRoom_frame (s : State) (key : Bytes) (now : ℕ) : (s.makeRoom key now).options = s.options ∧
    (s.makeRoom key now).closed = s.closed ∧ (s.makeRoom key now).active = s.active ∧
    (s.makeRoom key now).permits = s.permits := by
  rcases makeRoom_cases s key now with heq | heq <;> rw [heq] <;> exact ⟨rfl, rfl, rfl, rfl⟩

lemma Sound.makeRoom (h : s.Sound now) (key : Bytes) : (s.makeRoom key now).Sound now := by
  rcases makeRoom_cases s key now with heq | heq <;> rw [heq]
  · exact h
  · exact h.prune

lemma makeRoom_alike (key : Bytes) (h : s.Sound now) (hopen : s.closed = false) :
    Alike s.options now (s.makeRoom key now).entries s.entries := by
  rcases makeRoom_cases s key now with heq | heq <;> rw [heq]
  · exact Alike.refl
  · exact prune_alike h hopen

/-- `s'` is `s` with room for the key, whose bytes are counted. -/
structure Roomy (s s' : State) (key : Bytes) (now : ℕ) : Prop where
  options : s'.options = s.options
  closed : s'.closed = s.closed
  active : s'.active = s.active
  permits : s'.permits = s.permits
  alike : Alike s.options now s'.entries s.entries
  sound : s'.Sound now ∧ key ∈ s'.entries.domain ∨
    key ∉ s'.entries.domain ∧ ∃ keyBytes, s'.keyBytes = keyBytes + key.length ∧ { s' with keyBytes }.Sound now ∧
      s'.keyBytes ≤ s'.options.maxRetainedKeyBytes

inductive Tried (s : State) (key : Bytes) (now cost : ℕ) : State → RequestAdmission → Prop
  | invalid (code : ErrorCode) : s.options.argumentError key cost = some code → Tried s key now cost s (.failed code)
  | closed : s.options.argumentError key cost = none → s.closed = true → Tried s key now cost s (.failed .closed)
  | full : s.options.argumentError key cost = none → s.closed = false → s.options.maxConcurrentTotal ≤ s.active →
      Tried s key now cost s (.refused .totalConcurrency 0)
  | crowded : s.options.argumentError key cost = none → s.closed = false → s.active < s.options.maxConcurrentTotal →
      key ∉ s.entries.domain → (s.makeRoom key now).crowded key = true →
      Tried s key now cost (s.makeRoom key now) (.refused .keyCapacity 0)
  | admitted (s' : State) : s.options.argumentError key cost = none → s.closed = false →
      s.active < s.options.maxConcurrentTotal → Roomy s s' key now →
      Tried s key now cost (s'.admitKnown key (entryOf s.options s'.entries key now) now cost).1
        (s'.admitKnown key (entryOf s.options s'.entries key now) now cost).2

lemma tryAcquire_tried (key : Bytes) (cost : ℕ) (h : s.Sound now) : Tried s key now cost (s.tryAcquire key now cost).1 (s.tryAcquire key now cost).2 := by
  simp only [State.tryAcquire]
  cases he : s.options.argumentError key cost with
  | some code => exact .invalid code he
  | none =>
    simp only
    by_cases hclosed : s.closed = true
    · rw [if_pos hclosed]
      exact .closed he hclosed
    have hopen := Bool.eq_false_of_not_eq_true hclosed
    rw [if_neg hclosed]
    by_cases hfull : s.active ≥ s.options.maxConcurrentTotal
    · rw [if_pos hfull]
      exact .full he hopen hfull
    rw [if_neg hfull]
    by_cases hkey : key ∈ s.entries.domain
    · have hentry : s.entries.get key = entryOf s.options s.entries key now := (KeyMap.getD_of_mem hkey _).symm
      rw [if_pos hkey, hentry]
      exact .admitted s he hopen (not_le.mp hfull) ⟨rfl, rfl, rfl, rfl, Alike.refl, .inl ⟨h, hkey⟩⟩
    rw [if_neg hkey]
    by_cases hcrowded : (s.makeRoom key now).crowded key = true
    · rw [if_pos hcrowded]
      exact .crowded he hopen (not_le.mp hfull) hkey hcrowded
    rw [if_neg hcrowded]
    have hsound := h.makeRoom key
    have hframe := makeRoom_frame s key now
    have hnot : key ∉ (s.makeRoom key now).entries.domain := by
      rcases makeRoom_cases s key now with heq | heq <;> rw [heq]
      · exact hkey
      · exact fun hp => hkey (mem_prune.mp hp).1
    have halike := makeRoom_alike key h hopen
    generalize s.makeRoom key now = room at *
    obtain ⟨hoptions, hclosed', hactive, hpermits⟩ := hframe
    have hentry : room.options.fresh now = entryOf s.options room.entries key now := by
      rw [entryOf, KeyMap.getD_of_notMem hnot, hoptions]
    rw [hentry]
    simp only [State.crowded, sizeSub_eq hsound.bytes_le, Bool.or_eq_true, decide_eq_true_eq, not_or, not_lt] at hcrowded
    refine .admitted { room with keyBytes := room.keyBytes + key.length } he hopen (not_le.mp hfull)
      ⟨hoptions, hclosed', hactive, hpermits, halike, .inr ⟨hnot, room.keyBytes, rfl, hsound, ?_⟩⟩
    have := hsound.bytes_le
    have := hcrowded.2
    simp only
    omega

end TryAcquire

section Steps

variable {s s' : State} {now t cost permit : ℕ} {key : Bytes} {entry : RequestLimitEntry}

lemma argument_cost (h : s.options.argumentError key cost = none) : cost ≤ s.options.burstTokens := by
  simp only [RequestLimiterOptions.argumentError] at h
  split_ifs at h with hempty hlarge
  simp only [Bool.or_eq_true, decide_eq_true_eq, not_or, not_lt] at hlarge
  exact hlarge.2

lemma live_total_push : (s.permits.push (some key)).total live = s.permits.total live + 1 := by
  rw [Table.total_push]
  rfl

lemma holds_total_push (key' : Bytes) :
    (s.permits.push (some key)).total (holds key') = s.permits.total (holds key') + if key' = key then 1 else 0 := by
  rw [Table.total_push, holds]
  simp only [Option.some.injEq, eq_comm]

lemma Roomy.bytes (h : Roomy s s' key now) : s'.keyBytes = ∑ k ∈ insert key s'.entries.domain, k.length ∧
    s'.keyBytes ≤ s'.options.maxRetainedKeyBytes ∧ ∃ keyBytes, { s' with keyBytes }.Sound now := by
  rcases h.sound with ⟨hsound, hkey⟩ | ⟨hkey, keyBytes, heq, hsound, hle⟩
  · rw [Finset.insert_eq_of_mem hkey]
    exact ⟨hsound.bytes_eq, hsound.bytes_le, s'.keyBytes, hsound⟩
  · rw [Finset.sum_insert hkey, heq, Nat.add_comm]
    exact ⟨congrArg _ hsound.bytes_eq, by omega, keyBytes, hsound⟩

lemma Roomy.admit_sound (h : Roomy s s' key now) (hactive : s.active < s.options.maxConcurrentTotal)
    (hcost : cost ≤ s.options.burstTokens) :
    (s'.admitKnown key (entryOf s.options s'.entries key now) now cost).1.Sound now := by
  obtain ⟨hbytes, hle, keyBytes, hsound⟩ := h.bytes
  rw [← h.options, ← h.active] at hactive
  rw [← h.options] at hcost ⊢
  have hvalid := entryOf_valid hsound.valid key
  cases hr : (s'.options.admits (entryOf s'.options s'.entries key now) now cost).2 with
  | some refusal =>
    obtain ⟨hnew, hsame⟩ := admit_refused hsound.options hvalid (by rw [hr]; exact nofun)
    have hkey : key ∈ s'.entries.domain := by
      by_contra hnot
      rw [show entryOf s'.options s'.entries key now = s'.options.fresh now from KeyMap.getD_of_notMem hnot _,
        admit_fresh hsound.options hcost] at hr
      contradiction
    rw [admitKnown_refused _ rfl hr]
    have hactives (key' : Bytes) : activeOf (s'.entries.set key
        (s'.options.admits (entryOf s'.options s'.entries key now) now cost).1) key' = activeOf s'.entries key' := by
      rw [activeOf_set]
      split_ifs with heq
      · rw [hsame.active, entryOf_active, heq]
      · rfl
    refine ⟨hsound.options, hsound.valid.set hnew, hbytes, hle, fun key' => (hactives key').trans (hsound.active_of key'),
      hsound.active_eq, fun key' => (hactives key').trans_le (hsound.perKey key'), hsound.total, hsound.unissued,
      fun key' hkey' ha t ht hlt => ?_⟩
    rcases eq_or_ne key' key with rfl | hne
    · simp only [KeyMap.set_get_self] at ha ⊢
      rw [hsame.level t ht]
      rw [hsame.active] at ha
      rw [entryOf, KeyMap.getD_of_mem hkey] at ha ⊢
      exact hsound.pressed key' hkey ha t ht hlt
    · simp only [KeyMap.set_get_ne _ _ hne] at ha ⊢
      exact hsound.pressed key' (((KeyMap.mem_set _ _ _ _).mp hkey').resolve_left hne) ha t ht hlt
  | none =>
    obtain ⟨hnew, hone, hfew, -, -⟩ := admit_granted hvalid hr
    rw [entryOf_active] at hone hfew
    rw [admitKnown_granted _ rfl hr]
    refine ⟨hsound.options, hsound.valid.set hnew, hbytes, hle, fun key' => ?_, ?_, fun key' => ?_, hactive, fun i hi => ?_,
      fun key' hkey' ha t ht hlt => ?_⟩
    · rw [activeOf_set, holds_total_push]
      have := hsound.active_of key'
      split_ifs with heq
      · rw [hone, ← heq]
        exact congrArg (· + 1) this
      · exact this
    · rw [live_total_push]
      exact congrArg (· + 1) hsound.active_eq
    · rw [activeOf_set]
      split_ifs with heq
      · rw [hone]
        exact hfew
      · exact hsound.perKey key'
    · rw [Table.push_row, if_neg (Nat.lt_of_succ_le hi).ne']
      exact hsound.unissued i (Nat.le_of_succ_le hi)
    · rcases eq_or_ne key' key with rfl | hne
      · simp only [KeyMap.set_get_self, hone] at ha
        contradiction
      · simp only [KeyMap.set_get_ne _ _ hne] at ha ⊢
        exact hsound.pressed key' (((KeyMap.mem_set _ _ _ _).mp hkey').resolve_left hne) ha t ht hlt

lemma tryAcquire_sound (h : s.Sound now) : (s.tryAcquire key now cost).1.Sound now := by
  have htried := tryAcquire_tried key cost h
  generalize s.tryAcquire key now cost = result at htried ⊢
  obtain ⟨s', answer⟩ := result
  cases htried with
  | invalid | closed | full => exact h
  | crowded => exact h.makeRoom key
  | admitted s' he _ hactive hroomy => exact hroomy.admit_sound hactive (argument_cost he)

lemma permit_entry (h : s.Sound now) (hp : s.permits.row permit = some key) :
    permit < s.permits.count ∧ key ∈ s.entries.domain ∧ 1 ≤ (s.entries.get key).active ∧ 1 ≤ s.active := by
  have hlt : permit < s.permits.count := by
    by_contra hge
    rw [h.unissued permit (not_lt.mp hge)] at hp
    contradiction
  have hone := Table.le_total hlt (holds key)
  have hlive := Table.le_total hlt live
  have hactive := h.active_of key
  have htotal := h.active_eq
  rw [holds, if_pos hp] at hone
  rw [live, hp, Option.isSome_some, if_pos rfl] at hlive
  rw [activeOf] at hactive
  split_ifs at hactive with hkey
  · exact ⟨hlt, hkey, by omega, by omega⟩
  · omega

def resetState (s : State) (permit now : ℕ) (key : Bytes) : State :=
  { s with
    entries := s.entries.set key { s.entries.get key with active := sizeSub (s.entries.get key).active 1, seen := now }
    active := sizeSub s.active 1
    permits := s.permits.set permit none
    pressureRetry := 0 }

lemma reset_none (hp : s.permits.row permit = none) : s.reset permit now = s := by
  simp only [State.reset, hp]

lemma reset_some (hp : s.permits.row permit = some key) : s.reset permit now =
    if s.closed then ((s.resetState permit now key).prune now false).1 else s.resetState permit now key := by
  simp only [State.reset, hp]
  rfl

lemma resetState_sound (h : s.Sound now) (hp : s.permits.row permit = some key) : (s.resetState permit now key).Sound now := by
  obtain ⟨hlt, hkey, hone, hsome⟩ := permit_entry h hp
  have hentry := h.valid key hkey
  have hactive (key' : Bytes) : activeOf (s.resetState permit now key).entries key' + (if key' = key then 1 else 0) =
      activeOf s.entries key' := by
    rw [resetState, activeOf_set, sizeSub_eq hone]
    split_ifs with heq
    · rw [heq, activeOf, if_pos hkey]
      exact Nat.sub_add_cancel hone
    · rfl
  have hholds (key' : Bytes) : (s.permits.set permit none).total (holds key') + (if key' = key then 1 else 0) =
      s.permits.total (holds key') := by
    have := Table.total_set hlt none (holds key')
    have hnone : holds key' none = 0 := rfl
    have hsome : holds key' (s.permits.row permit) = if key' = key then 1 else 0 := by
      simp only [holds, hp, Option.some.injEq, eq_comm]
    omega
  have hlive := Table.total_set hlt none live
  rw [live, live, hp] at hlive
  have hall := h.active_eq
  refine ⟨h.options, h.valid.set ⟨hentry.nonneg, hentry.le_burst, hentry.past⟩, ?_, h.bytes_le, fun key' => ?_, ?_,
    fun key' => ?_, ?_, fun i hi => ?_, fun _ _ _ t _ hlt => absurd hlt (Nat.not_lt_zero t)⟩
  · exact h.bytes_eq.trans (by rw [resetState, KeyMap.set, Finset.insert_eq_of_mem hkey])
  · have := hactive key'
    have := hholds key'
    have := h.active_of key'
    simp only [resetState] at *
    omega
  · simp only [resetState, sizeSub_eq hsome] at *
    simp only [Option.isSome_none, Option.isSome_some, Bool.false_eq_true, if_false, if_true] at hlive
    omega
  · have := hactive key'
    exact (Nat.le_of_add_right_le this.le).trans (h.perKey key')
  · simp only [resetState, sizeSub_eq hsome]
    exact (Nat.sub_le _ _).trans h.total
  · simp only [resetState, Table.set_row]
    split_ifs with heq
    · rfl
    · exact h.unissued i hi

lemma reset_sound (h : s.Sound now) : (s.reset permit now).Sound now := by
  cases hp : s.permits.row permit with
  | none => rwa [reset_none hp]
  | some key =>
    rw [reset_some hp]
    split_ifs with hclosed
    · exact (resetState_sound h hp).prune
    · exact resetState_sound h hp

end Steps

section Perform

variable {s s' : State} {now t cost permit : ℕ} {key : Bytes} {request : Request}

lemma admitKnown_frame (s : State) (key : Bytes) (entry : RequestLimitEntry) (now cost : ℕ) : (s.admitKnown key entry now cost).1.options = s.options ∧
    (s.admitKnown key entry now cost).1.closed = s.closed := by
  cases hr : (s.options.admits entry now cost).2 with
  | none => rw [admitKnown_granted _ rfl hr]; exact ⟨rfl, rfl⟩
  | some refusal => rw [admitKnown_refused _ rfl hr]; exact ⟨rfl, rfl⟩

lemma tryAcquire_frame (key : Bytes) (cost : ℕ) (h : s.Sound now) : (s.tryAcquire key now cost).1.options = s.options ∧
    (s.tryAcquire key now cost).1.closed = s.closed := by
  have htried := tryAcquire_tried key cost h
  generalize s.tryAcquire key now cost = result at htried ⊢
  obtain ⟨s', answer⟩ := result
  cases htried with
  | invalid | closed | full => exact ⟨rfl, rfl⟩
  | crowded =>
    obtain ⟨hoptions, hclosed, -⟩ := makeRoom_frame s key now
    exact ⟨hoptions, hclosed⟩
  | admitted s' _ _ _ hroomy =>
    obtain ⟨hoptions, hclosed⟩ := admitKnown_frame s' key (entryOf s.options s'.entries key now) now cost
    exact ⟨hoptions.trans hroomy.options, hclosed.trans hroomy.closed⟩

lemma reset_frame : (s.reset permit now).options = s.options ∧ (s.reset permit now).closed = s.closed := by
  cases hp : s.permits.row permit with
  | none => rw [reset_none hp]; exact ⟨rfl, rfl⟩
  | some key => rw [reset_some hp]; split_ifs <;> exact ⟨rfl, rfl⟩

lemma perform_options (h : s.Sound now) : (s.perform now request).1.options = s.options := by
  cases request with
  | tryAcquire key cost => exact (tryAcquire_frame key cost h).1
  | reset permit => exact reset_frame.1
  | pruneExpired | close => rfl

lemma perform_closed (h : s.Sound now) (hopen : (s.perform now request).1.closed = false) :
    s.closed = false ∧ request ≠ .close := by
  cases request with
  | tryAcquire key cost => exact ⟨(tryAcquire_frame key cost h).2.symm.trans hopen, nofun⟩
  | reset permit => exact ⟨reset_frame.2.symm.trans hopen, nofun⟩
  | pruneExpired => exact ⟨hopen, nofun⟩
  | close => contradiction

lemma perform_sound (h : s.Sound now) : (s.perform now request).1.Sound now := by
  cases request with
  | tryAcquire key cost => exact tryAcquire_sound h
  | reset permit => exact reset_sound h
  | pruneExpired => exact h.prune
  | close =>
    have hclosed : { s with closed := true }.Sound now := { h with }
    exact hclosed.prune

lemma tryAcquire_busy (h : s.Sound now) (hb : s.Busy) : (s.tryAcquire key now cost).1.Busy := by
  have hframe := (tryAcquire_frame key cost h).2
  have htried := tryAcquire_tried key cost h
  generalize s.tryAcquire key now cost = result at htried hframe ⊢
  obtain ⟨s', answer⟩ := result
  cases htried with
  | invalid | closed | full => exact hb
  | crowded _ hopen =>
    intro hclosed
    rw [hframe, hopen] at hclosed
    contradiction
  | admitted s' _ hopen =>
    intro hclosed
    rw [hframe, hopen] at hclosed
    contradiction

lemma perform_busy (h : s.Sound now) (hb : s.Busy) : (s.perform now request).1.Busy := by
  cases request with
  | tryAcquire key cost => exact tryAcquire_busy h hb
  | reset permit =>
    cases hp : s.permits.row permit with
    | none =>
      change (s.reset permit now).Busy
      rwa [reset_none hp]
    | some key =>
      change (s.reset permit now).Busy
      rw [reset_some hp]
      split_ifs with hclosed
      · exact prune_busy hclosed
      · exact fun hclosed' => absurd hclosed' hclosed
  | pruneExpired =>
    intro hclosed
    have hclosed : s.closed = true := hclosed
    exact prune_busy hclosed hclosed
  | close => exact prune_busy rfl

end Perform

section Levels

variable {s s' : State} {now t permit : ℕ} {key : Bytes} {request : Request}

lemma resetState_level (h : s.Sound now) (hp : s.permits.row permit = some key) (key' : Bytes) :
    activeOf (s.resetState permit now key).entries key' ≤ activeOf s.entries key' ∧
      levelOf s.options (s.resetState permit now key).entries key' t = levelOf s.options s.entries key' t := by
  obtain ⟨-, hkey, hone, -⟩ := permit_entry h hp
  rw [resetState, activeOf_set, levelOf_set]
  split_ifs with heq
  · subst heq
    rw [activeOf, if_pos hkey, levelOf, if_pos hkey, sizeSub_eq hone]
    exact ⟨Nat.sub_le _ _, rfl⟩
  · exact ⟨le_rfl, rfl⟩

lemma perform_untouched (h : s.Sound now) (hopen : (s.perform now request).1.closed = false)
    (hnone : chargeOf key ⟨now, request, (s.perform now request).2⟩ = none) :
    activeOf (s.perform now request).1.entries key ≤ activeOf s.entries key ∧
      ∀ t, now ≤ t → levelOf s.options (s.perform now request).1.entries key t = levelOf s.options s.entries key t := by
  have hwas := (perform_closed h hopen).1
  have halike {entries : KeyMap Bytes RequestLimitEntry} (ha : Alike s.options now entries s.entries) :
      activeOf entries key ≤ activeOf s.entries key ∧
        ∀ t, now ≤ t → levelOf s.options entries key t = levelOf s.options s.entries key t := ⟨(ha key).1.le, (ha key).2⟩
  cases request with
  | tryAcquire key' cost =>
    change chargeOf key ⟨now, _, (s.tryAcquire key' now cost).2⟩ = none at hnone
    change activeOf (s.tryAcquire key' now cost).1.entries key ≤ _ ∧ ∀ t, now ≤ t →
      levelOf s.options (s.tryAcquire key' now cost).1.entries key t = _
    have htried := tryAcquire_tried key' cost h
    generalize s.tryAcquire key' now cost = result at htried hnone ⊢
    obtain ⟨s', answer⟩ := result
    cases htried with
    | invalid | closed | full => exact halike Alike.refl
    | crowded => exact halike (makeRoom_alike key' h hwas)
    | admitted s' _ _ _ hroomy =>
      obtain ⟨-, -, keyBytes, hsound⟩ := hroomy.bytes
      have ha := hroomy.alike
      rw [← hroomy.options] at ha hnone ⊢
      cases hr : (s'.options.admits (entryOf s'.options s'.entries key' now) now cost).2 with
      | some refusal =>
        rw [admitKnown_refused _ rfl hr]
        have hrefused := alike_refused hsound.options hsound.valid (show (s'.options.admits (entryOf s'.options s'.entries key' now) now cost).2 ≠ none by
          rw [hr]
          exact nofun)
        rw [hroomy.options] at hrefused ha ⊢
        exact halike (hrefused.trans ha)
      | none =>
        rw [admitKnown_granted _ rfl hr] at hnone ⊢
        have hne : key ≠ key' := by
          rintro rfl
          simp [chargeOf] at hnone
        rw [activeOf_set, if_neg hne]
        refine ⟨(ha key).1.le, fun t ht => ?_⟩
        rw [levelOf_set, if_neg hne, (ha key).2 t ht]
  | reset permit =>
    change activeOf (s.reset permit now).entries key ≤ _ ∧ ∀ t, now ≤ t → levelOf s.options (s.reset permit now).entries key t = _
    cases hp : s.permits.row permit with
    | none =>
      rw [reset_none hp]
      exact halike Alike.refl
    | some key' =>
      rw [reset_some hp, if_neg (by simp [hwas])]
      exact ⟨(resetState_level h hp key (t := now)).1, fun t _ => (resetState_level h hp key).2⟩
  | pruneExpired => exact halike (prune_alike h hwas)
  | close => contradiction

lemma perform_charged {charge : ℚ × ℚ} (h : s.Sound now)
    (hsome : chargeOf key ⟨now, request, (s.perform now request).2⟩ = some charge) :
    s.closed = false ∧ charge.1 = now ∧ 0 ≤ charge.2 ∧ charge.2 ≤ levelOf s.options s.entries key now ∧
      levelOf s.options (s.perform now request).1.entries key now = levelOf s.options s.entries key now - charge.2 := by
  cases request with
  | reset | pruneExpired | close => contradiction
  | tryAcquire key' cost =>
    change chargeOf key ⟨now, _, (s.tryAcquire key' now cost).2⟩ = some charge at hsome
    change _ ∧ _ ∧ _ ∧ _ ∧ levelOf s.options (s.tryAcquire key' now cost).1.entries key now = _
    have htried := tryAcquire_tried key' cost h
    generalize s.tryAcquire key' now cost = result at htried hsome ⊢
    obtain ⟨s', answer⟩ := result
    cases htried with
    | invalid | closed | full | crowded => contradiction
    | admitted s' _ hopen _ hroomy =>
      obtain ⟨-, -, keyBytes, hsound⟩ := hroomy.bytes
      have ha := (hroomy.alike key).2 now le_rfl
      rw [← hroomy.options] at ha hsome ⊢
      cases hr : (s'.options.admits (entryOf s'.options s'.entries key' now) now cost).2 with
      | some refusal =>
        rw [admitKnown_refused _ rfl hr] at hsome
        contradiction
      | none =>
        obtain ⟨-, -, -, hcost, hlevel⟩ := admit_granted (entryOf_valid hsound.valid key') hr
        rw [admitKnown_granted _ rfl hr] at hsome ⊢
        simp only [chargeOf, Option.ite_none_right_eq_some, Option.some.injEq] at hsome
        obtain ⟨rfl, rfl⟩ := hsome
        rw [entryOf_level hsound.options le_rfl, ha] at hcost
        refine ⟨hopen, rfl, Nat.cast_nonneg _, hcost, ?_⟩
        rw [levelOf_set, if_pos rfl, hlevel, TokenBucket.level_self, entryOf_level hsound.options le_rfl, ha]
        exact (sub_le_self _ (Nat.cast_nonneg _)).trans level_le_burst

end Levels

end State

end ServerCore.Runtime.RequestLimiter
