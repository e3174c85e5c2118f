import Mathlib.Algebra.Order.Field.Basic
import Mathlib.Algebra.BigOperators.Group.List.Basic
import Mathlib.Tactic.Linarith
import Mathlib.Tactic.Ring

/-! Token buckets that are refilled only when somebody looks, and what they let pass in any span of time. -/

namespace ServerCore.Foundations.TokenBucket

variable {K : Type*} [Field K] [LinearOrder K] {burst rate tokens since t t' : K}

/-- What a bucket that held `tokens` at `since` holds at `t`. -/
def level (burst rate tokens since t : K) : K := min burst (tokens + (t - since) * rate)

/-- What was paid from `t` on, where a charge is its time and its cost. -/
def paidSince (charges : List (K × K)) (t : K) : K := ((charges.filter fun c => t ≤ c.1).map Prod.snd).sum

def paidBetween (charges : List (K × K)) (t t' : K) : K :=
  ((charges.filter fun c => t ≤ c.1 ∧ c.1 ≤ t').map Prod.snd).sum

section Definitions

variable {charges : List (K × K)} {now cost : K}

lemma level_le : level burst rate tokens since t ≤ burst := min_le_left _ _

lemma level_self (h : tokens ≤ burst) : level burst rate tokens since since = tokens := by
  rw [level, sub_self, zero_mul, add_zero, min_eq_right h]

lemma le_level_iff (hcost : cost ≤ burst) :
    cost ≤ level burst rate tokens since t ↔ cost ≤ tokens + (t - since) * rate := by
  rw [level, le_min_iff, and_iff_right hcost]

lemma paidSince_append (charges : List (K × K)) (t now cost : K) :
    paidSince (charges ++ [(now, cost)]) t = paidSince charges t + if t ≤ now then cost else 0 := by
  rw [paidSince, List.filter_append, List.map_append, List.sum_append, paidSince]
  by_cases h : t ≤ now <;> simp [h]

lemma paidBetween_append (charges : List (K × K)) (t t' now cost : K) :
    paidBetween (charges ++ [(now, cost)]) t t' = paidBetween charges t t' + if t ≤ now ∧ now ≤ t' then cost else 0 := by
  rw [paidBetween, List.filter_append, List.map_append, List.sum_append, paidBetween]
  by_cases h : t ≤ now ∧ now ≤ t' <;> simp [h]

lemma paidSince_future (h : ∀ c ∈ charges, c.1 < t) : paidSince charges t = 0 := by
  rw [paidSince, List.filter_eq_nil_iff.mpr fun c hc => by simpa using h c hc, List.map_nil, List.sum_nil]

lemma paidBetween_eq (h : ∀ c ∈ charges, c.1 ≤ t') : paidBetween charges t t' = paidSince charges t := by
  rw [paidBetween, paidSince]
  congr 2
  refine List.filter_congr fun c hc => ?_
  simp [h c hc]

end Definitions

variable [IsStrictOrderedRing K]

section Level

lemma level_full (hrate : 0 ≤ rate) (h : since ≤ t) : level burst rate burst since t = burst :=
  min_eq_left (le_add_of_nonneg_right (mul_nonneg (sub_nonneg.mpr h) hrate))

/-- Looking in between changes nothing. -/
lemma level_level (hrate : 0 ≤ rate) (h : t ≤ t') :
    level burst rate (level burst rate tokens since t) t t' = level burst rate tokens since t' := by
  have hpass : 0 ≤ (t' - t) * rate := mul_nonneg (sub_nonneg.mpr h) hrate
  have hsum : tokens + (t - since) * rate + (t' - t) * rate = tokens + (t' - since) * rate := by ring
  rw [level, level, level, min_add, hsum, ← min_assoc, min_eq_left (le_add_of_nonneg_right hpass)]

lemma level_mono (hrate : 0 ≤ rate) (h : t ≤ t') : level burst rate tokens since t ≤ level burst rate tokens since t' := by
  apply min_le_min_left
  have := mul_le_mul_of_nonneg_right (sub_le_sub_right h since) hrate
  linarith

lemma level_wait (hrate : 0 ≤ rate) (h : t ≤ t') :
    level burst rate tokens since t' ≤ level burst rate tokens since t + (t' - t) * rate := by
  rw [← level_level hrate h]
  exact min_le_right _ _

lemma level_nonneg (hburst : 0 ≤ burst) (hrate : 0 ≤ rate) (htokens : 0 ≤ tokens) (h : since ≤ t) :
    0 ≤ level burst rate tokens since t :=
  le_min hburst (add_nonneg htokens (mul_nonneg (sub_nonneg.mpr h) hrate))

/-- The bucket can pay from the moment the missing tokens have flowed in. -/
lemma le_level_iff_wait {cost : K} (hrate : 0 < rate) (hcost : cost ≤ burst) :
    cost ≤ level burst rate tokens since t ↔ (cost - tokens) / rate ≤ t - since := by
  rw [le_level_iff hcost, div_le_iff₀ hrate, sub_le_iff_le_add, add_comm]

end Level

section Metered

variable {charges : List (K × K)} {now now' held held' cost : K}

/-- A bucket that holds `held` at `now` has paid these charges. -/
structure Metered (burst rate : K) (charges : List (K × K)) (now held : K) : Prop where
  past : ∀ c ∈ charges, c.1 ≤ now
  since : ∀ t ≤ now, paidSince charges t + held ≤ burst + (now - t) * rate
  between : ∀ t t', t ≤ t' → paidBetween charges t t' ≤ burst + (t' - t) * rate

lemma Metered.nil (hburst : 0 ≤ burst) (hrate : 0 ≤ rate) (hheld : held ≤ burst) : Metered burst rate [] now held := by
  refine ⟨nofun, fun t ht => ?_, fun t t' h => ?_⟩
  · have := mul_nonneg (sub_nonneg.mpr ht) hrate
    rw [paidSince_future (by simp)]
    linarith
  · exact add_nonneg hburst (mul_nonneg (sub_nonneg.mpr h) hrate)

lemma Metered.lower (h : Metered burst rate charges now held) (hle : held' ≤ held) : Metered burst rate charges now held' := by
  refine ⟨h.past, fun t ht => ?_, h.between⟩
  have := h.since t ht
  linarith

lemma Metered.wait (h : Metered burst rate charges now held) (hrate : 0 ≤ rate) (hnow : now ≤ now')
    (hheld : held' ≤ held + (now' - now) * rate) (hburst : held' ≤ burst) : Metered burst rate charges now' held' := by
  refine ⟨fun c hc => (h.past c hc).trans hnow, fun t ht => ?_, h.between⟩
  rcases le_or_gt t now with hle | hlt
  · have := h.since t hle
    linarith
  · have := mul_nonneg (sub_nonneg.mpr ht) hrate
    rw [paidSince_future fun c hc => (h.past c hc).trans_lt hlt]
    linarith

lemma Metered.pay (h : Metered burst rate charges now held) (hrate : 0 ≤ rate) (hcost : cost ≤ held) :
    Metered burst rate (charges ++ [(now, cost)]) now (held - cost) := by
  have hsince (t : K) (ht : t ≤ now) :
      paidSince (charges ++ [(now, cost)]) t + (held - cost) ≤ burst + (now - t) * rate := by
    have := h.since t ht
    rw [paidSince_append, if_pos ht]
    linarith
  have hpast : ∀ c ∈ charges ++ [(now, cost)], c.1 ≤ now := by
    intro c hc
    rcases List.mem_append.mp hc with hc | hc
    · exact h.past c hc
    · rw [List.mem_singleton.mp hc]
  refine ⟨hpast, hsince, fun t t' htt' => ?_⟩
  by_cases hin : t ≤ now ∧ now ≤ t'
  · have hle := hsince t hin.1
    have hlater := mul_le_mul_of_nonneg_right (sub_le_sub_right hin.2 t) hrate
    rw [paidBetween_eq fun c hc => (hpast c hc).trans hin.2]
    linarith
  · rw [paidBetween_append, if_neg hin, add_zero]
    exact h.between t t' htt'

end Metered

end ServerCore.Foundations.TokenBucket
