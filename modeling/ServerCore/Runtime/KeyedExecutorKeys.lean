import ServerCore.Runtime.KeyedExecutor

/-! The key map of `KeyedExecutor` and its ready list under `Enqueue` and `RemoveReady`. -/

namespace ServerCore.Runtime.KeyedExecutor

open ServerCore.Core ServerCore.Foundations TaskRecord

inductive Measure
  | outstanding
  | bytes
  | queued
  | busy

namespace Measure

def task : Measure → Task → ℕ
  | outstanding, t => if t.admitted = true ∧ t.phase ≠ .terminal then 1 else 0
  | bytes, t => if t.admitted = true ∧ t.phase ≠ .terminal then t.retainedBytes else 0
  | queued, t => if t.admitted = true ∧ t.phase = .queued then 1 else 0
  | busy, t => if t.own.occupying = true then 1 else 0

def key : Measure → Key → ℕ
  | outstanding, k => k.outstanding
  | bytes, k => k.bytes
  | queued, k => k.queued.length
  | busy, k => k.busy.toNat

def state (m : Measure) (s : State) : ℕ :=
  match m with
  | outstanding => s.outstanding
  | bytes => s.retained
  | queued => s.pending
  | busy => s.running

def ofKey (m : Measure) (k : UInt64) (t : Task) : ℕ := if t.own.key = k then m.task t else 0

lemma key_empty (m : Measure) : m.key {} = 0 := by cases m <;> rfl

lemma key_ready (m : Measure) (slot : Key) (ready : Bool) : m.key { slot with ready } = m.key slot := by
  cases m <;> rfl

end Measure

namespace Keys

variable {keys keys' : Keys} {k : UInt64} {a b : Key}

def Linked (keys : Keys) : Prop :=
  ∃ nodes, keys.ready.Represents nodes ∧ ∀ k, k ∈ nodes ↔ (keys.slot k).ready = true

lemma put_slot (keys : Keys) (k k' : UInt64) (a : Key) :
    (keys.put k a).slot k' = if k' = k then a else keys.slot k' := by
  by_cases h : k' = k
  · rw [if_pos h, h, slot, KeyMap.getD_of_mem (by simp [put])]
    exact KeyMap.set_get_self ..
  · simp only [slot, KeyMap.getD, put, KeyMap.mem_set, h, false_or, ↓reduceIte, KeyMap.set_get_ne keys.map a h]

lemma put_total (keys : Keys) (k : UInt64) (a : Key) (m : Measure) :
    (keys.put k a).map.total m.key + m.key (keys.slot k) = keys.map.total m.key + m.key a :=
  KeyMap.total_set keys.map k a {} m.key m.key_empty

/-- The record of one key becomes `b`, and all others stay. -/
structure Sets (keys : Keys) (k : UInt64) (b : Key) (keys' : Keys) : Prop where
  slot : ∀ k', keys'.slot k' = if k' = k then b else keys.slot k'
  total : ∀ m : Measure, keys'.map.total m.key + m.key (keys.slot k) = keys.map.total m.key + m.key b
  domain : ∀ k', k' ∈ keys'.map.domain ↔ if k' = k then 0 < b.outstanding else k' ∈ keys.map.domain
  linked : keys.Linked → keys'.Linked

lemma Sets.slot_self (h : keys.Sets k b keys') : keys'.slot k = b := by rw [h.slot, if_pos rfl]

lemma Sets.slot_ne (h : keys.Sets k b keys') {k' : UInt64} (hk : k' ≠ k) : keys'.slot k' = keys.slot k' := by
  rw [h.slot, if_neg hk]

lemma Sets.refl (hk : k ∈ keys.map.domain ↔ 0 < (keys.slot k).outstanding) : keys.Sets k (keys.slot k) keys := by
  refine ⟨fun k' => ?_, fun m => rfl, fun k' => ?_, id⟩
  · split_ifs with h
    · rw [h]
    · rfl
  · split_ifs with h
    · rw [h, hk]
    · rfl

lemma Sets.card_le (h : keys.Sets k b keys') (hk : k ∈ keys.map.domain) :
    keys'.map.domain.card ≤ keys.map.domain.card := by
  refine Finset.card_le_card fun k' hk' => ?_
  rw [h.domain] at hk'
  split_ifs at hk' with heq
  · rwa [heq]
  · exact hk'

lemma Linked.congr (h : keys.Linked) (hready : keys'.ready = keys.ready)
    (hslot : ∀ k, (keys'.slot k).ready = (keys.slot k).ready) : keys'.Linked := by
  obtain ⟨nodes, hrep, hmem⟩ := h
  refine ⟨nodes, by rwa [hready], fun k => ?_⟩
  rw [hmem, hslot]

lemma sets_put_links {links : Links UInt64} (hpos : 0 < a.outstanding)
    (hlinked : keys.Linked → Linked { keys.put k a with ready := links }) :
    keys.Sets k a { keys.put k a with ready := links } := by
  refine ⟨fun k' => put_slot keys k k' a, put_total keys k a, fun k' => ?_, hlinked⟩
  simp only [put, KeyMap.mem_set]
  split_ifs with heq <;> simp [heq, hpos]

lemma put_linked (hready : a.ready = (keys.slot k).ready) (h : keys.Linked) : (keys.put k a).Linked := by
  refine h.congr rfl fun k' => ?_
  rw [put_slot]
  split_ifs with heq
  · rw [heq, hready]
  · rfl

lemma sets_put (hready : a.ready = (keys.slot k).ready) (hpos : 0 < a.outstanding) : keys.Sets k a (keys.put k a) :=
  sets_put_links hpos (put_linked hready)

@[simp] lemma put_put (keys : Keys) (k : UInt64) (a b : Key) : (keys.put k a).put k b = keys.put k b := by
  simp only [put, KeyMap.set_set]

def enqueued (a : Key) : Key := { a with ready := a.ready || (!a.busy && !a.queued.isEmpty) }

lemma enqueued_ready (h : a.ready = true → a.busy = false ∧ a.queued ≠ []) (hr : (enqueued a).ready = true) :
    (enqueued a).busy = false ∧ (enqueued a).queued ≠ [] := by
  rcases Bool.or_eq_true_iff.mp hr with hr | hr
  · exact h hr
  · simpa [enqueued] using hr

lemma enqueued_awake (hbusy : a.busy = false) (hne : a.queued ≠ []) : (enqueued a).ready = true := by
  simp [enqueued, hbusy, hne]

lemma sets_enqueue (hready : a.ready = (keys.slot k).ready) (hpos : 0 < a.outstanding) :
    keys.Sets k (enqueued a) ((keys.put k a).enqueue k) := by
  rw [enqueue, put_slot, if_pos rfl]
  by_cases hc : (a.ready || a.busy || a.queued.isEmpty) = true
  · have hb : enqueued a = a := by
      rcases a with ⟨queued, _, _, busy, ready⟩
      cases ready <;> cases busy <;> simp_all [enqueued]
    simp only [hc, ↓reduceIte, hb]
    exact sets_put hready hpos
  · have hfree : a.ready = false ∧ a.busy = false ∧ a.queued.isEmpty = false := by
      simpa [and_assoc] using hc
    have hb : enqueued a = { a with ready := true } := by simp [enqueued, hfree]
    simp only [hc, Bool.false_eq_true, ↓reduceIte, hb, put_put]
    refine sets_put_links hpos fun h => ?_
    obtain ⟨nodes, hrep, hmem⟩ := h
    have hk : k ∉ nodes := by
      rw [hmem, ← hready, hfree.1]
      exact Bool.false_ne_true
    refine ⟨nodes ++ [k], hrep.pushBack hk, fun k' => ?_⟩
    have := put_slot keys k k' { a with ready := true }
    refine Iff.trans ?_ (iff_of_eq (congrArg (fun slot : Key => slot.ready = true) this.symm))
    rw [List.mem_append, List.mem_singleton, hmem]
    split_ifs with heq <;> simp [heq]

lemma removeReady_linked (h : keys.Linked) : (keys.removeReady k).Linked := by
  rw [removeReady]
  by_cases hc : (!(keys.slot k).ready) = true
  · simp only [hc, ↓reduceIte]
    exact h
  · simp only [hc, Bool.false_eq_true, ↓reduceIte]
    obtain ⟨nodes, hrep, hmem⟩ := h
    have hk : k ∈ nodes := by
      rw [hmem]
      simpa using hc
    obtain ⟨pre, post, rfl⟩ := List.append_of_mem hk
    have hnd := hrep.nodup
    refine ⟨pre ++ post, hrep.unlink, fun k' => ?_⟩
    have := put_slot keys k k' { keys.slot k with ready := false }
    refine Iff.trans ?_ (iff_of_eq (congrArg (fun slot : Key => slot.ready = true) this.symm))
    have hother := hmem k'
    split_ifs with heq
    · subst heq
      rw [List.nodup_append, List.nodup_cons] at hnd
      obtain ⟨-, ⟨hpost, -⟩, hdisj⟩ := hnd
      simp only [List.mem_append, iff_false, not_or]
      exact ⟨fun hpre => hdisj k' hpre k' (by simp) rfl, hpost⟩
    · rw [← hother]
      simp [heq]

lemma removeReady_slot (keys : Keys) (k k' : UInt64) :
    (keys.removeReady k).slot k' = if k' = k then { keys.slot k with ready := false } else keys.slot k' := by
  rw [removeReady]
  by_cases hc : (!(keys.slot k).ready) = true
  · simp only [hc, ↓reduceIte]
    split_ifs with heq
    · rw [heq]
      rcases hs : keys.slot k with ⟨_, _, _, _, ready⟩
      simp_all
    · rfl
  · simp only [hc, Bool.false_eq_true, ↓reduceIte]
    exact put_slot keys k k' _

lemma removeReady_total (keys : Keys) (k : UInt64) (m : Measure) :
    (keys.removeReady k).map.total m.key = keys.map.total m.key := by
  rw [removeReady]
  by_cases hc : (!(keys.slot k).ready) = true
  · simp only [hc, ↓reduceIte]
  · simp only [hc, Bool.false_eq_true, ↓reduceIte]
    have := put_total keys k { keys.slot k with ready := false } m
    exact Nat.add_right_cancel (this.trans (congrArg _ (m.key_ready (keys.slot k) false)))

lemma removeReady_domain (keys : Keys) {k : UInt64} (hk : k ∈ keys.map.domain) :
    (keys.removeReady k).map.domain = keys.map.domain := by
  rw [removeReady]
  by_cases hc : (!(keys.slot k).ready) = true
  · simp only [hc, ↓reduceIte]
  · simp only [hc, Bool.false_eq_true, ↓reduceIte]
    exact Finset.insert_eq_of_mem hk

lemma mem_put_self (keys : Keys) (k : UInt64) (a : Key) : k ∈ (keys.put k a).map.domain :=
  (KeyMap.mem_set keys.map k k a).mpr (.inl rfl)

lemma sets_removeReady (hready : a.ready = (keys.slot k).ready) (hpos : 0 < a.outstanding) :
    keys.Sets k { a with ready := false } ((keys.put k a).removeReady k) := by
  have hput := sets_put hready hpos
  refine ⟨fun k' => ?_, fun m => ?_, fun k' => ?_, fun h => removeReady_linked (hput.linked h)⟩
  · rw [removeReady_slot, hput.slot_self, put_slot]
    split_ifs <;> rfl
  · rw [removeReady_total]
    exact (put_total keys k a m).trans (congrArg _ (m.key_ready a false).symm)
  · rw [removeReady_domain _ (mem_put_self keys k a)]
    exact hput.domain k'

lemma Sets.trans {c : Key} {keys'' : Keys} (h : keys.Sets k b keys') (h' : keys'.Sets k c keys'') :
    keys.Sets k c keys'' := by
  refine ⟨fun k' => ?_, fun m => ?_, fun k' => ?_, fun hl => h'.linked (h.linked hl)⟩
  · rw [h'.slot, h.slot]
    split_ifs <;> rfl
  · have h₁ := h.total m
    have h₂ := h'.total m
    rw [h.slot_self] at h₂
    omega
  · rw [h'.domain, h.domain]
    split_ifs <;> rfl

lemma sets_drop (hk : k ∈ keys.map.domain) (hpos : 0 < (keys.slot k).outstanding) :
    keys.Sets k { keys.slot k with ready := false } (keys.removeReady k) := by
  refine ⟨removeReady_slot keys k, fun m => ?_, fun k' => ?_, removeReady_linked⟩
  · rw [removeReady_total]
    exact congrArg _ (m.key_ready (keys.slot k) false).symm
  · rw [removeReady_domain keys hk]
    split_ifs with heq
    · simp [heq, hk, hpos]
    · rfl

lemma erase_slot (keys : Keys) (k k' : UInt64) : (keys.erase k).slot k' = if k' = k then {} else keys.slot k' := by
  simp only [slot, KeyMap.getD, erase, KeyMap.mem_erase, KeyMap.erase_get]
  by_cases heq : k' = k <;> simp [heq]

lemma sets_erase (hready : a.ready = (keys.slot k).ready) (ha : { a with ready := false } = ({} : Key)) :
    keys.Sets k {} (((keys.put k a).removeReady k).erase k) := by
  have hk : k ∈ ((keys.put k a).removeReady k).map.domain := by
    rw [removeReady_domain _ (mem_put_self keys k a)]
    exact mem_put_self keys k a
  have hslot : ∀ k', (((keys.put k a).removeReady k).erase k).slot k' = if k' = k then {} else keys.slot k' := by
    intro k'
    rw [erase_slot, removeReady_slot, put_slot keys k k']
    split_ifs <;> rfl
  refine ⟨hslot, fun m => ?_, fun k' => ?_, fun h => ?_⟩
  · have h₁ := put_total keys k a m
    have h₂ := removeReady_total (keys.put k a) k m
    have h₃ := KeyMap.total_erase hk m.key
    have hself := removeReady_slot (keys.put k a) k k
    rw [if_pos rfl, put_slot, if_pos rfl, ha, slot, KeyMap.getD_of_mem hk] at hself
    have hzero : m.key a = 0 := by rw [← m.key_ready a false, ha, m.key_empty]
    rw [hself, m.key_empty] at h₃
    rw [m.key_empty]
    simp only [erase]
    omega
  · simp only [erase, KeyMap.mem_erase, removeReady_domain _ (mem_put_self keys k a)]
    split_ifs with heq
    · simp [heq]
    · simp [heq, put]
  · refine (removeReady_linked (k := k) (put_linked hready h)).congr rfl fun k' => ?_
    rw [hslot, removeReady_slot, put_slot, put_slot, if_pos rfl]
    split_ifs <;> rfl

end Keys

end ServerCore.Runtime.KeyedExecutor
