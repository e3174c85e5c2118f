import ServerCore.Runtime.RequestLimiter

/-! The entries of a request limiter as token buckets, and tables of entries that answer alike. -/

namespace ServerCore.Runtime.RequestLimiter

open ServerCore.Core ServerCore.Foundations

namespace RequestLimiterOptions

structure Valid (o : RequestLimiterOptions) : Prop where
  refillTokens : 0 < o.refillTokens
  burstTokens : 0 < o.burstTokens
  refillInterval : 0 < o.refillInterval
  perKey : 0 < o.maxConcurrentPerKey

lemma valid_of_not_invalid {o : RequestLimiterOptions} (h : o.invalid = false) : o.Valid := by
  simp only [invalid, Bool.or_eq_false_iff, decide_eq_false_iff_not] at h
  constructor <;> omega

def rate (o : RequestLimiterOptions) : ℚ := o.refillTokens / (o.refillInterval * 1000000)

def level (o : RequestLimiterOptions) (entry : RequestLimitEntry) (t : ℕ) : ℚ :=
  TokenBucket.level (o.burstTokens : ℚ) o.rate entry.tokens entry.refill t

end RequestLimiterOptions

structure RequestLimitEntry.Valid (o : RequestLimiterOptions) (now : ℕ) (entry : RequestLimitEntry) : Prop where
  nonneg : 0 ≤ entry.tokens
  le_burst : entry.tokens ≤ o.burstTokens
  past : entry.refill ≤ now

section Entries

variable {o : RequestLimiterOptions} {entry entry' : RequestLimitEntry} {now t cost : ℕ}

lemma rate_pos (ho : o.Valid) : 0 < o.rate := by
  have htokens : (0 : ℚ) < o.refillTokens := Nat.cast_pos.mpr ho.refillTokens
  have hinterval : (0 : ℚ) < o.refillInterval := Int.cast_pos.mpr ho.refillInterval
  exact div_pos htokens (mul_pos hinterval (by norm_num))

lemma level_le_burst : o.level entry t ≤ o.burstTokens := TokenBucket.level_le

lemma RequestLimitEntry.Valid.later (h : entry.Valid o now) (hle : now ≤ t) : entry.Valid o t :=
  { h with past := h.past.trans hle }

lemma refill_active : (o.refill entry now).active = entry.active := by
  rw [RequestLimiterOptions.refill]
  split_ifs <;> rfl

lemma refill_refill (h : entry.refill ≤ now) : (o.refill entry now).refill = now := by
  rw [RequestLimiterOptions.refill]
  split_ifs with hle
  · exact h.antisymm hle
  · rfl

lemma refill_tokens (h : entry.Valid o now) : (o.refill entry now).tokens = o.level entry now := by
  rw [RequestLimiterOptions.refill, RequestLimiterOptions.level]
  split_ifs with hle
  · rw [h.past.antisymm hle, TokenBucket.level_self h.le_burst]
  · rw [TokenBucket.level, RequestLimiterOptions.rate]
    ring_nf

lemma refill_level (ho : o.Valid) (h : entry.Valid o now) (hle : now ≤ t) :
    o.level (o.refill entry now) t = o.level entry t := by
  rw [RequestLimiterOptions.level, refill_tokens h, refill_refill h.past]
  exact TokenBucket.level_level (rate_pos ho).le (Nat.cast_le.mpr hle)

lemma refill_valid (ho : o.Valid) (h : entry.Valid o now) : (o.refill entry now).Valid o now := by
  refine ⟨?_, ?_, (refill_refill h.past).le⟩
  · rw [refill_tokens h]
    exact TokenBucket.level_nonneg (Nat.cast_nonneg _) (rate_pos ho).le h.nonneg (Nat.cast_le.mpr h.past)
  · rw [refill_tokens h]
    exact level_le_burst

lemma fresh_valid : (o.fresh now).Valid o now := ⟨Nat.cast_nonneg _, le_rfl, le_rfl⟩

lemma fresh_level (ho : o.Valid) (hle : now ≤ t) : o.level (o.fresh now) t = o.burstTokens :=
  TokenBucket.level_full (rate_pos ho).le (Nat.cast_le.mpr hle)

lemma level_lt_burst (ho : o.Valid) (hpast : entry.refill ≤ t) (hlt : t < o.fullAt entry) : o.level entry t < o.burstTokens := by
  have hrate := rate_pos ho
  have hinterval : (0 : ℚ) < o.refillInterval := Int.cast_pos.mpr ho.refillInterval
  have htokens : (0 : ℚ) < o.refillTokens := Nat.cast_pos.mpr ho.refillTokens
  simp only [RequestLimiterOptions.fullAt] at hlt
  set milliseconds : ℚ := (o.burstTokens - entry.tokens) * o.refillInterval / o.refillTokens with hms
  by_contra hfull
  have hwait := (TokenBucket.le_level_iff_wait hrate le_rfl).mp (not_lt.mp hfull)
  have hneeded : ((o.burstTokens : ℚ) - entry.tokens) / o.rate = milliseconds * 1000000 := by
    rw [hms, RequestLimiterOptions.rate]
    field_simp
  have hspan : t - entry.refill < ⌊min (24 * 60 * 60 * 1000) (max 0 milliseconds) * 1000000⌋₊ := by omega
  have hfloor : ((t - entry.refill : ℕ) : ℚ) + 1 ≤ min (24 * 60 * 60 * 1000) (max 0 milliseconds) * 1000000 := by
    have := (Nat.le_floor_iff (by positivity)).mp (Nat.succ_le_of_lt hspan)
    exact_mod_cast this
  rw [hneeded, ← Nat.cast_sub hpast] at hwait
  have hmin : min (24 * 60 * 60 * 1000) (max 0 milliseconds) ≤ max 0 milliseconds := min_le_right _ _
  rcases le_total 0 milliseconds with hpos | hneg
  · rw [max_eq_right hpos] at hmin hfloor
    linarith
  · rw [max_eq_left hneg] at hmin hfloor
    have : (0 : ℚ) ≤ ((t - entry.refill : ℕ) : ℚ) := Nat.cast_nonneg _
    linarith

end Entries

section Admission

variable {o : RequestLimiterOptions} {entry entry' : RequestLimitEntry} {now t cost : ℕ}

/-- Two entries that nobody can tell apart from `now` on. -/
structure SameBucket (o : RequestLimiterOptions) (now : ℕ) (entry entry' : RequestLimitEntry) : Prop where
  active : entry.active = entry'.active
  level : ∀ t, now ≤ t → o.level entry t = o.level entry' t

lemma admit_eq (h : entry.Valid o now) : o.admits entry now cost =
    if entry.active ≥ o.maxConcurrentPerKey then ({ o.refill entry now with seen := now }, some (.keyConcurrency, 0))
    else if o.level entry now < cost then
      ({ o.refill entry now with seen := now },
        some (.rate, max 1 ⌈((cost : ℚ) - o.level entry now) * o.refillInterval / o.refillTokens⌉₊))
    else
      ({ o.refill entry now with tokens := o.level entry now - cost, active := entry.active + 1, seen := now }, none) := by
  simp only [RequestLimiterOptions.admits, refill_tokens h, refill_active]

lemma admit_answer (cost : ℕ) (h : entry.Valid o now) (h' : entry'.Valid o now) (hsame : SameBucket o now entry entry') :
    (o.admits entry now cost).2 = (o.admits entry' now cost).2 := by
  rw [admit_eq h, admit_eq h', hsame.active, hsame.level now le_rfl]
  split_ifs <;> rfl

lemma admit_refused (ho : o.Valid) (h : entry.Valid o now) (hr : (o.admits entry now cost).2 ≠ none) :
    (o.admits entry now cost).1.Valid o now ∧ SameBucket o now (o.admits entry now cost).1 entry := by
  have hvalid := refill_valid ho h
  rw [admit_eq h] at hr ⊢
  split_ifs at hr ⊢ with hactive hrate
  · exact ⟨⟨hvalid.nonneg, hvalid.le_burst, hvalid.past⟩, refill_active, fun t ht => refill_level ho h ht⟩
  · exact ⟨⟨hvalid.nonneg, hvalid.le_burst, hvalid.past⟩, refill_active, fun t ht => refill_level ho h ht⟩
  · contradiction

lemma admit_granted (h : entry.Valid o now) (hr : (o.admits entry now cost).2 = none) :
    (o.admits entry now cost).1.Valid o now ∧ (o.admits entry now cost).1.active = entry.active + 1 ∧
      entry.active < o.maxConcurrentPerKey ∧ (cost : ℚ) ≤ o.level entry now ∧
      ∀ t, o.level (o.admits entry now cost).1 t = TokenBucket.level (o.burstTokens : ℚ) o.rate (o.level entry now - cost) now t := by
  rw [admit_eq h] at hr ⊢
  split_ifs at hr ⊢ with hactive hrate
  have hcost : (cost : ℚ) ≤ o.level entry now := not_lt.mp hrate
  have hrefill := refill_refill (o := o) h.past
  refine ⟨⟨sub_nonneg.mpr hcost, (sub_le_self _ (Nat.cast_nonneg _)).trans level_le_burst, hrefill.le⟩, rfl, not_le.mp hactive,
    hcost, fun t => ?_⟩
  rw [RequestLimiterOptions.level, hrefill]

lemma admit_fresh (ho : o.Valid) (hcost : cost ≤ o.burstTokens) : (o.admits (o.fresh now) now cost).2 = none := by
  have hactive : ¬ (o.fresh now).active ≥ o.maxConcurrentPerKey := not_le.mpr ho.perKey
  rw [admit_eq fresh_valid, fresh_level ho le_rfl, if_neg hactive, if_neg (not_lt.mpr (Nat.cast_le.mpr hcost))]

end Admission

section Tables

variable {o : RequestLimiterOptions} {entries entries' entries'' : KeyMap Bytes RequestLimitEntry} {key key' : Bytes}
  {entry entry' : RequestLimitEntry} {now t cost : ℕ}

def levelOf (o : RequestLimiterOptions) (entries : KeyMap Bytes RequestLimitEntry) (key : Bytes) (t : ℕ) : ℚ :=
  if key ∈ entries.domain then o.level (entries.get key) t else o.burstTokens

def activeOf (entries : KeyMap Bytes RequestLimitEntry) (key : Bytes) : ℕ :=
  if key ∈ entries.domain then (entries.get key).active else 0

def Alike (o : RequestLimiterOptions) (now : ℕ) (entries entries' : KeyMap Bytes RequestLimitEntry) : Prop :=
  ∀ key, activeOf entries key = activeOf entries' key ∧ ∀ t, now ≤ t → levelOf o entries key t = levelOf o entries' key t

def AllValid (o : RequestLimiterOptions) (now : ℕ) (entries : KeyMap Bytes RequestLimitEntry) : Prop :=
  ∀ key ∈ entries.domain, (entries.get key).Valid o now

lemma Alike.refl : Alike o now entries entries := fun _ => ⟨rfl, fun _ _ => rfl⟩

lemma Alike.trans (h : Alike o now entries entries') (h' : Alike o now entries' entries'') : Alike o now entries entries'' :=
  fun key => ⟨(h key).1.trans (h' key).1, fun t ht => ((h key).2 t ht).trans ((h' key).2 t ht)⟩

lemma Alike.later (h : Alike o now entries entries') (hle : now ≤ t) : Alike o t entries entries' :=
  fun key => ⟨(h key).1, fun t' ht' => (h key).2 t' (hle.trans ht')⟩

lemma AllValid.later (h : AllValid o now entries) (hle : now ≤ t) : AllValid o t entries := fun key hkey => (h key hkey).later hle

lemma AllValid.set (h : AllValid o now entries) (hentry : entry.Valid o now) : AllValid o now (entries.set key entry) := by
  intro key' hkey'
  rcases eq_or_ne key' key with rfl | hne
  · rwa [KeyMap.set_get_self]
  · rw [KeyMap.set_get_ne _ _ hne]
    exact h key' (((KeyMap.mem_set _ _ _ _).mp hkey').resolve_left hne)

lemma levelOf_set : levelOf o (entries.set key entry) key' t = if key' = key then o.level entry t else levelOf o entries key' t := by
  rcases eq_or_ne key' key with rfl | hne
  · rw [levelOf, if_pos ((KeyMap.mem_set _ _ _ _).mpr (.inl rfl)), KeyMap.set_get_self, if_pos rfl]
  · simp only [levelOf, KeyMap.mem_set, hne, false_or, if_false, KeyMap.set_get_ne _ _ hne]

lemma activeOf_set : activeOf (entries.set key entry) key' = if key' = key then entry.active else activeOf entries key' := by
  rcases eq_or_ne key' key with rfl | hne
  · rw [activeOf, if_pos ((KeyMap.mem_set _ _ _ _).mpr (.inl rfl)), KeyMap.set_get_self, if_pos rfl]
  · simp only [activeOf, KeyMap.mem_set, hne, false_or, if_false, KeyMap.set_get_ne _ _ hne]

def entryOf (o : RequestLimiterOptions) (entries : KeyMap Bytes RequestLimitEntry) (key : Bytes) (now : ℕ) : RequestLimitEntry :=
  entries.getD key (o.fresh now)

lemma entryOf_valid (h : AllValid o now entries) (key : Bytes) : (entryOf o entries key now).Valid o now := by
  rw [entryOf, KeyMap.getD]
  split_ifs with hmem
  · exact h key hmem
  · exact fresh_valid

lemma entryOf_level (ho : o.Valid) (hle : now ≤ t) : o.level (entryOf o entries key now) t = levelOf o entries key t := by
  rw [entryOf, KeyMap.getD, levelOf]
  split_ifs with hmem
  · rfl
  · exact fresh_level ho hle

lemma entryOf_active : (entryOf o entries key now).active = activeOf entries key := by
  rw [entryOf, KeyMap.getD, activeOf]
  split_ifs <;> rfl

lemma Alike.set (h : Alike o now entries entries') (hsame : SameBucket o now entry entry') :
    Alike o now (entries.set key entry) (entries'.set key entry') := by
  intro key'
  refine ⟨?_, fun t ht => ?_⟩
  · rw [activeOf_set, activeOf_set, hsame.active, (h key').1]
  · rw [levelOf_set, levelOf_set, hsame.level t ht, (h key').2 t ht]

lemma Alike.entryOf (ho : o.Valid) (h : Alike o now entries entries') (key : Bytes) :
    SameBucket o now (entryOf o entries key now) (entryOf o entries' key now) := by
  refine ⟨?_, fun t ht => ?_⟩
  · rw [entryOf_active, entryOf_active, (h key).1]
  · rw [entryOf_level ho ht, entryOf_level ho ht, (h key).2 t ht]

lemma alike_refused (ho : o.Valid) (h : AllValid o now entries)
    (hr : (o.admits (RequestLimiter.entryOf o entries key now) now cost).2 ≠ none) :
    Alike o now (entries.set key (o.admits (RequestLimiter.entryOf o entries key now) now cost).1) entries := by
  obtain ⟨-, hsame⟩ := admit_refused ho (entryOf_valid h key) hr
  intro key'
  rw [activeOf_set]
  split_ifs with heq
  · subst heq
    refine ⟨hsame.active.trans entryOf_active, fun t ht => ?_⟩
    rw [levelOf_set, if_pos rfl, hsame.level t ht, entryOf_level ho ht]
  · exact ⟨rfl, fun t _ => by rw [levelOf_set, if_neg heq]⟩

lemma Alike.admits (key : Bytes) (cost : ℕ) (ho : o.Valid) (h : Alike o now entries entries') (hv : AllValid o now entries) (hv' : AllValid o now entries') :
    (o.admits (RequestLimiter.entryOf o entries key now) now cost).2 =
        (o.admits (RequestLimiter.entryOf o entries' key now) now cost).2 ∧
      Alike o now (entries.set key (o.admits (RequestLimiter.entryOf o entries key now) now cost).1)
        (entries'.set key (o.admits (RequestLimiter.entryOf o entries' key now) now cost).1) := by
  have hsame := h.entryOf ho key
  have hanswer := admit_answer cost (entryOf_valid hv key) (entryOf_valid hv' key) hsame
  refine ⟨hanswer, h.set ?_⟩
  by_cases hr : (o.admits (RequestLimiter.entryOf o entries key now) now cost).2 = none
  · obtain ⟨-, hactive, -, -, hlevel⟩ := admit_granted (entryOf_valid hv key) hr
    obtain ⟨-, hactive', -, -, hlevel'⟩ := admit_granted (entryOf_valid hv' key) (hanswer ▸ hr)
    refine ⟨by rw [hactive, hactive', hsame.active], fun t _ => ?_⟩
    rw [hlevel, hlevel', hsame.level now le_rfl]
  · obtain ⟨-, hleft⟩ := admit_refused ho (entryOf_valid hv key) hr
    obtain ⟨-, hright⟩ := admit_refused ho (entryOf_valid hv' key) (hanswer ▸ hr)
    refine ⟨hleft.active.trans (hsame.active.trans hright.active.symm), fun t ht => ?_⟩
    rw [hleft.level t ht, hright.level t ht, hsame.level t ht]

end Tables

end ServerCore.Runtime.RequestLimiter
