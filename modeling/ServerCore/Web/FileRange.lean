import Mathlib.Order.Interval.Set.Basic
import ServerCore.Web.FileResponse

/-! The byte ranges and the conditions of RFC 9110 next to the plan of `PlanFileResponse`. -/

namespace ServerCore.Web

open ServerCore.Core

inductive RangeSpec
  | between (first last : ℕ)
  | since (first : ℕ)
  | suffix (count : ℕ)
  deriving DecidableEq, Repr

def Digits (text : Bytes) (n : ℕ) : Prop := text ≠ [] ∧ text.all isDigit = true ∧ decimalValue text = n

inductive RangeText : Bytes → RangeSpec → Prop
  | between {a b : Bytes} {m n : ℕ} : Digits a m → Digits b n → m ≤ n → RangeText (a ++ 45 :: b) (.between m n)
  | since {a : Bytes} {m : ℕ} : Digits a m → RangeText (a ++ [45]) (.since m)
  | suffix {b : Bytes} {n : ℕ} : Digits b n → RangeText (45 :: b) (.suffix n)

def SingleRange (value : Bytes) (spec : RangeSpec) : Prop :=
  ∃ unit text, trim value = unit ++ text ∧ equalInsensitive unit (ascii "bytes=") = true ∧ RangeText text spec

namespace RangeSpec

def selected (size : ℕ) : RangeSpec → Set ℕ
  | between m n => {i | i < size ∧ m ≤ i ∧ i ≤ n}
  | since m => {i | i < size ∧ m ≤ i}
  | suffix n => {i | i < size ∧ size ≤ i + n}

def Fits : RangeSpec → Prop
  | between m n => m < 2 ^ 64 ∧ n < 2 ^ 64
  | since m => m < 2 ^ 64
  | suffix n => n < 2 ^ 64

def start (size : ℕ) : RangeSpec → ℕ
  | between m _ => m
  | since m => m
  | suffix n => size - n

def stop (size : ℕ) : RangeSpec → ℕ
  | between _ n => min (n + 1) size
  | since _ => size
  | suffix _ => size

lemma selected_eq (size : ℕ) (spec : RangeSpec) : spec.selected size = Set.Ico (spec.start size) (spec.stop size) := by
  ext i
  cases spec <;> simp only [selected, start, stop, Set.mem_ofPred_eq, Set.mem_Ico] <;> omega

lemma stop_le (size : ℕ) (spec : RangeSpec) : spec.stop size ≤ size := by
  cases spec <;> simp only [stop] <;> omega

lemma selected_eq_empty (size : ℕ) (spec : RangeSpec) : spec.selected size = ∅ ↔ spec.stop size ≤ spec.start size := by
  rw [selected_eq, Set.Ico_eq_empty_iff, not_lt]

end RangeSpec

section Numbers

lemma integer_eq {text : Bytes} {n : ℕ} (h : Digits text n) (hfits : n < 2 ^ 64) :
    integer text = some (UInt64.ofNat n) := by
  obtain ⟨hne, hdigits, hvalue⟩ := h
  unfold integer decimal
  rw [hvalue, if_pos]
  · rfl
  · simp only [hne, ne_eq, not_false_eq_true, decide_true, hdigits, Bool.true_and, decide_eq_true_eq]
    exact hfits

lemma integer_some {text : Bytes} {w : UInt64} (h : integer text = some w) : Digits text w.toNat := by
  unfold integer decimal at h
  split_ifs at h with hread
  · obtain rfl : UInt64.ofNat (decimalValue text) = w := by simpa using h
    simp only [Bool.and_eq_true, decide_eq_true_eq] at hread
    obtain ⟨⟨hne, hdigits⟩, hlt⟩ := hread
    exact ⟨hne, hdigits, (UInt64.toNat_ofNat_of_lt' hlt).symm⟩
  · cases h

lemma digits_free {text : Bytes} {n : ℕ} (h : Digits text n) : 45 ∉ text ∧ 44 ∉ text := by
  obtain ⟨_, hdigits, _⟩ := h
  rw [List.all_eq_true] at hdigits
  constructor
  · intro hmem
    exact absurd (hdigits 45 hmem) (by decide)
  · intro hmem
    exact absurd (hdigits 44 hmem) (by decide)

lemma toNat_min (a b : UInt64) : (min a b).toNat = min a.toNat b.toNat := by
  have hmin : min a b = if a ≤ b then a else b := rfl
  rw [hmin]
  split_ifs with h <;> rw [UInt64.le_iff_toNat_le] at h <;> omega

end Numbers

def RangeSpec.Planned (size : UInt64) (spec : RangeSpec) (plan : FileResponsePlan) : Prop :=
  (spec.stop size.toNat ≤ spec.start size.toNat ∧ plan = { wholeFile size with status := 416 }) ∨
    (spec.start size.toNat < spec.stop size.toNat ∧ plan.status = 206 ∧ plan.offset.toNat = spec.start size.toNat ∧
      plan.length.toNat = spec.stop size.toNat - spec.start size.toNat)

section Selection

variable {size : UInt64} {left right : Bytes} {m n : ℕ}

lemma selectRange_suffix (hright : Digits right n) (hfits : n < 2 ^ 64) :
    (RangeSpec.suffix n).Planned size (selectRange size [] right) := by
  have hn : (UInt64.ofNat n).toNat = n := UInt64.toNat_ofNat_of_lt' hfits
  unfold selectRange
  rw [if_pos rfl, integer_eq hright hfits]
  dsimp only
  by_cases hnone : UInt64.ofNat n = 0 ∨ size = 0
  · rw [if_pos (by simpa using hnone)]
    refine .inl ⟨?_, rfl⟩
    dsimp only [RangeSpec.start, RangeSpec.stop]
    obtain hzero | hzero := hnone
    · rw [hzero] at hn
      have hn0 : n = 0 := hn.symm
      omega
    · rw [hzero]
      exact Nat.zero_le _
  · rw [if_neg (by simpa using hnone)]
    rw [not_or] at hnone
    have hn0 : n ≠ 0 := by
      rintro rfl
      exact hnone.1 rfl
    have hs0 : size.toNat ≠ 0 := by
      intro hzero
      exact hnone.2 (UInt64.toNat_inj.mp hzero)
    have hmin : min size (UInt64.ofNat n) ≤ size := by
      rw [UInt64.le_iff_toNat_le, toNat_min]
      exact Nat.min_le_left _ _
    have hoffset : (size - min size (UInt64.ofNat n)).toNat = size.toNat - n := by
      rw [UInt64.toNat_sub_of_le _ _ hmin, toNat_min, hn]
      omega
    have hle : size - min size (UInt64.ofNat n) ≤ size := by
      rw [UInt64.le_iff_toNat_le, hoffset]
      omega
    refine .inr ⟨?_, rfl, hoffset, ?_⟩
    · dsimp only [RangeSpec.start, RangeSpec.stop]
      omega
    · dsimp only [RangeSpec.start, RangeSpec.stop]
      rw [UInt64.toNat_sub_of_le _ _ hle, hoffset]

lemma one_toNat : (1 : UInt64).toNat = 1 := rfl

lemma toNat_last (h : m < size.toNat) : (size - 1).toNat = size.toNat - 1 := by
  have hone : (1 : UInt64) ≤ size := by
    rw [UInt64.le_iff_toNat_le, one_toNat]
    omega
  exact UInt64.toNat_sub_of_le _ _ hone

lemma selectRange_since (hleft : Digits left m) (hfits : m < 2 ^ 64) :
    (RangeSpec.since m).Planned size (selectRange size left []) := by
  have hsize := size.toNat_lt
  have hm : (UInt64.ofNat m).toNat = m := UInt64.toNat_ofNat_of_lt' hfits
  unfold selectRange
  rw [if_neg hleft.1, integer_eq hleft hfits, if_pos rfl]
  dsimp only
  rw [if_neg (by simp)]
  by_cases hnone : size ≤ UInt64.ofNat m
  · rw [if_pos hnone]
    rw [UInt64.le_iff_toNat_le, hm] at hnone
    exact .inl ⟨hnone, rfl⟩
  · rw [if_neg hnone]
    rw [UInt64.le_iff_toNat_le, hm, not_le] at hnone
    have hle : UInt64.ofNat m ≤ size - 1 := by
      rw [UInt64.le_iff_toNat_le, toNat_last hnone, hm]
      omega
    refine .inr ⟨hnone, rfl, hm, ?_⟩
    dsimp only [RangeSpec.start, RangeSpec.stop]
    rw [if_pos rfl, UInt64.toNat_add, UInt64.toNat_sub_of_le _ _ hle, toNat_last hnone, hm, one_toNat]
    omega

lemma selectRange_between (hleft : Digits left m) (hright : Digits right n) (hmn : m ≤ n) (hfits : n < 2 ^ 64) :
    (RangeSpec.between m n).Planned size (selectRange size left right) := by
  have hsize := size.toNat_lt
  have hmfits : m < 2 ^ 64 := lt_of_le_of_lt hmn hfits
  have hm : (UInt64.ofNat m).toNat = m := UInt64.toNat_ofNat_of_lt' hmfits
  have hn : (UInt64.ofNat n).toNat = n := UInt64.toNat_ofNat_of_lt' hfits
  have horder : ¬UInt64.ofNat n < UInt64.ofNat m := by
    rw [UInt64.lt_iff_toNat_lt, hm, hn]
    omega
  unfold selectRange
  rw [if_neg hleft.1, integer_eq hleft hmfits, if_neg hright.1, integer_eq hright hfits]
  dsimp only
  rw [if_neg (by simp [horder])]
  by_cases hnone : size ≤ UInt64.ofNat m
  · rw [if_pos hnone]
    rw [UInt64.le_iff_toNat_le, hm] at hnone
    refine .inl ⟨?_, rfl⟩
    dsimp only [RangeSpec.start, RangeSpec.stop]
    omega
  · rw [if_neg hnone]
    rw [UInt64.le_iff_toNat_le, hm, not_le] at hnone
    have hle : UInt64.ofNat m ≤ min (UInt64.ofNat n) (size - 1) := by
      rw [UInt64.le_iff_toNat_le, toNat_min, toNat_last hnone, hm, hn]
      omega
    refine .inr ⟨?_, rfl, hm, ?_⟩
    · dsimp only [RangeSpec.start, RangeSpec.stop]
      omega
    · dsimp only [RangeSpec.start, RangeSpec.stop]
      rw [if_neg hright.1, UInt64.toNat_add, UInt64.toNat_sub_of_le _ _ hle, toNat_min, toNat_last hnone, hm, hn,
        one_toNat]
      omega

end Selection

section Field

variable {size : UInt64} {value : Bytes} {spec : RangeSpec}

lemma RangeSpec.Planned.labelled {plan : FileResponsePlan} (h : spec.Planned size plan) :
    (spec.selected size.toNat = ∅ ∧
      withContentRange size plan = ⟨416, 0, 0, ascii "bytes */" ++ spelled size⟩) ∨
    (spec.selected size.toNat ≠ ∅ ∧ (withContentRange size plan).status = 206 ∧
      1 ≤ (withContentRange size plan).length.toNat ∧
      (withContentRange size plan).offset.toNat + (withContentRange size plan).length.toNat ≤ size.toNat ∧
      spec.selected size.toNat = Set.Ico (withContentRange size plan).offset.toNat
        ((withContentRange size plan).offset.toNat + (withContentRange size plan).length.toNat) ∧
      (withContentRange size plan).contentRange =
        ascii "bytes " ++ toChars 10 (withContentRange size plan).offset.toNat ++ [45] ++
          toChars 10 ((withContentRange size plan).offset.toNat + (withContentRange size plan).length.toNat - 1) ++
          [47] ++ toChars 10 size.toNat) := by
  have hsize := size.toNat_lt
  have hstop := spec.stop_le size.toNat
  obtain ⟨hempty, rfl⟩ | ⟨hsome, hstatus, hoffset, hlength⟩ := h
  · exact .inl ⟨(spec.selected_eq_empty size.toNat).mpr hempty, rfl⟩
  · have hplan : withContentRange size plan = { plan with
        contentRange := ascii "bytes " ++ spelled plan.offset ++ [45] ++ spelled (plan.offset + plan.length - 1) ++
          [47] ++ spelled size } := by
      unfold withContentRange
      rw [if_neg (by rw [hstatus]; decide), if_pos hstatus]
    have hsum : (plan.offset + plan.length).toNat = plan.offset.toNat + plan.length.toNat := by
      rw [UInt64.toNat_add]
      omega
    have hone : (1 : UInt64) ≤ plan.offset + plan.length := by
      rw [UInt64.le_iff_toNat_le, one_toNat]
      omega
    have hlast : (plan.offset + plan.length - 1).toNat = plan.offset.toNat + plan.length.toNat - 1 := by
      rw [UInt64.toNat_sub_of_le _ _ hone, hsum, one_toNat]
    rw [hplan]
    dsimp only
    refine .inr ⟨?_, hstatus, by omega, by omega, ?_, ?_⟩
    · rw [ne_eq, spec.selected_eq_empty]
      omega
    · rw [spec.selected_eq, hoffset, hlength]
      congr 1
      omega
    · unfold spelled
      rw [hlast]

lemma equalInsensitive_length {x y : Bytes} (h : equalInsensitive x y = true) : x.length = y.length := by
  unfold equalInsensitive at h
  have hmap := congrArg List.length (beq_iff_eq.mp h)
  simpa using hmap

lemma RangeText.free {text : Bytes} (h : RangeText text spec) : 44 ∉ text := by
  cases h with
  | between ha hb _ => simp [(digits_free ha).2, (digits_free hb).2]
  | since ha => simp [(digits_free ha).2]
  | suffix hb => simp [(digits_free hb).2]

lemma RangeText.dash {text : Bytes} (h : RangeText text spec) (hfits : spec.Fits) : ∃ left right,
    text = left ++ 45 :: right ∧ 45 ∉ left ∧ spec.Planned size (selectRange size left right) := by
  cases h with
  | between ha hb hmn => exact ⟨_, _, rfl, (digits_free ha).1, selectRange_between ha hb hmn hfits.2⟩
  | since ha => exact ⟨_, [], rfl, (digits_free ha).1, selectRange_since ha hfits⟩
  | suffix hb => exact ⟨[], _, rfl, by simp, selectRange_suffix hb hfits⟩

lemma rangePlan_single (h : SingleRange value spec) (hfits : spec.Fits) :
    ∃ plan, spec.Planned size plan ∧ rangePlan size value = withContentRange size plan := by
  obtain ⟨unit, text, hvalue, hunit, htext⟩ := h
  have hlength : unit.length = 6 := equalInsensitive_length hunit
  obtain ⟨left, right, hsplit, hleft, hplanned⟩ := @RangeText.dash size spec text htext hfits
  have htake : (trim value).take 6 = unit := by rw [hvalue, ← hlength, List.take_left]
  have hdrop : (trim value).drop 6 = text := by rw [hvalue, ← hlength, List.drop_left]
  have hlong : ¬(trim value).length < 6 := by
    rw [hvalue, List.length_append]
    omega
  refine ⟨_, hplanned, ?_⟩
  unfold rangePlan
  dsimp only
  rw [htake, hdrop, if_neg (by simp [hlong, hunit]), if_neg (by simpa using htext.free), hsplit, findIdx?_mid hleft]
  dsimp only
  rw [List.take_left, ← List.drop_drop, List.drop_left, List.drop_one, List.tail_cons]

lemma selectRange_single {left right : Bytes} : selectRange size left right = wholeFile size ∨
    ∃ spec : RangeSpec, RangeText (left ++ 45 :: right) spec ∧ spec.Fits := by
  unfold selectRange
  by_cases hleft : left = []
  · rw [if_pos hleft, hleft]
    cases hright : integer right with
    | none => exact .inl rfl
    | some last => exact .inr ⟨_, .suffix (integer_some hright), last.toNat_lt⟩
  · rw [if_neg hleft]
    cases hfirst : integer left with
    | none => exact .inl rfl
    | some first =>
      have hdigits := integer_some hfirst
      by_cases hright : right = []
      · subst hright
        exact .inr ⟨_, .since hdigits, first.toNat_lt⟩
      · rw [if_neg hright]
        cases hlast : integer right with
        | none => exact .inl rfl
        | some last =>
          dsimp only
          by_cases horder : last < first
          · rw [if_pos (by simp [hright, horder])]
            exact .inl rfl
          · have hle : first.toNat ≤ last.toNat := by
              rw [UInt64.lt_iff_toNat_lt] at horder
              omega
            exact .inr ⟨_, .between hdigits (integer_some hlast) hle, first.toNat_lt, last.toNat_lt⟩

lemma rangePlan_whole : rangePlan size value = wholeFile size ∨
    ∃ spec : RangeSpec, SingleRange value spec ∧ spec.Fits := by
  unfold rangePlan
  dsimp only
  by_cases hunit : (decide ((trim value).length < 6) || !equalInsensitive ((trim value).take 6) (ascii "bytes=")) = true
  · rw [if_pos hunit]
    exact .inl rfl
  · rw [if_neg hunit]
    by_cases hcomma : ((trim value).drop 6).contains 44 = true
    · rw [if_pos hcomma]
      exact .inl rfl
    · rw [if_neg hcomma]
      cases hdash : ((trim value).drop 6).findIdx? (· = 45) with
      | none => exact .inl rfl
      | some dash =>
        obtain ⟨hsplit, -⟩ := findIdx?_split hdash
        dsimp only
        obtain hwhole | ⟨spec, htext, hfits⟩ := @selectRange_single size (((trim value).drop 6).take dash)
          (((trim value).drop 6).drop (dash + 1))
        · rw [hwhole]
          exact .inl rfl
        · rw [← hsplit] at htext
          simp only [Bool.or_eq_true, decide_eq_true_eq, Bool.not_eq_true', not_or, Bool.not_eq_false] at hunit
          exact .inr ⟨spec, ⟨_, _, (List.take_append_drop 6 _).symm, hunit.2, htext⟩, hfits⟩

end Field

structure Conditions where
  retrieval : Bool
  ifMatch : Option Bool
  ifUnmodifiedSince : Option Bool
  ifNoneMatch : Option Bool
  ifModifiedSince : Option Bool

def Conditions.noneMatchOutcome (c : Conditions) : Option ℕ :=
  match c.ifNoneMatch with
  | some false => some (if c.retrieval then 304 else 412)
  | some true => none
  | none => if c.retrieval && c.ifModifiedSince = some false then some 304 else none

def Conditions.outcome (c : Conditions) : Option ℕ :=
  match c.ifMatch, c.ifUnmodifiedSince with
  | some false, _ => some 412
  | none, some false => some 412
  | _, _ => c.noneMatchOutcome

section Plan

variable (getTime : FileDateFormat → Bytes → Option Tm) (current : ℤ)

def conditions (request : HttpRequest) (entityTag : Bytes) (lastModified : ℤ) : Conditions where
  retrieval := request.method = ascii "GET" || request.method = ascii "HEAD"
  ifMatch := (joinedField request.headers (ascii "if-match")).map (entityTagMatches · entityTag false)
  ifUnmodifiedSince := ((joinedField request.headers (ascii "if-unmodified-since")).bind
    (parseFileDate getTime current)).map (lastModified ≤ ·)
  ifNoneMatch := (joinedField request.headers (ascii "if-none-match")).map fun list => !entityTagMatches list entityTag true
  ifModifiedSince := ((joinedField request.headers (ascii "if-modified-since")).bind
    (parseFileDate getTime current)).map (· < lastModified)

def Asks (request : HttpRequest) (entityTag : Bytes) (spec : RangeSpec) : Prop :=
  request.method = ascii "GET" ∧ (∃ range, joinedField request.headers (ascii "range") = some range ∧ SingleRange range spec) ∧
    ∀ condition, joinedField request.headers (ascii "if-range") = some condition →
      validEntityTag condition = true ∧ weakTag condition = false ∧ weakTag entityTag = false ∧ condition = entityTag

variable {getTime current} {request : HttpRequest} {size : UInt64} {entityTag : Bytes} {modified lastModified : ℤ}

lemma noneMatchStatus_eq : noneMatchStatus getTime current request entityTag lastModified =
    (conditions getTime current request entityTag lastModified).noneMatchOutcome.getD 200 := by
  unfold noneMatchStatus Conditions.noneMatchOutcome conditions
  dsimp only
  generalize (joinedField request.headers (ascii "if-modified-since")).bind (parseFileDate getTime current) = since
  generalize (decide (request.method = ascii "GET") || decide (request.method = ascii "HEAD")) = retrieval
  cases joinedField request.headers (ascii "if-none-match") with
  | some list => cases hmatch : entityTagMatches list entityTag true <;> simp [hmatch]
  | none =>
    cases retrieval with
    | false => rfl
    | true =>
      cases since with
      | none => rfl
      | some date => by_cases hdate : lastModified ≤ date <;> simp [hdate]

lemma conditionStatus_eq : conditionStatus getTime current request entityTag lastModified =
    (conditions getTime current request entityTag lastModified).outcome.getD 200 := by
  unfold conditionStatus unmodifiedStatus Conditions.outcome
  rw [noneMatchStatus_eq]
  generalize (conditions getTime current request entityTag lastModified).noneMatchOutcome = rest
  unfold conditions
  dsimp only
  generalize (joinedField request.headers (ascii "if-unmodified-since")).bind (parseFileDate getTime current) = unmodified
  cases joinedField request.headers (ascii "if-match") with
  | some list => cases hmatch : entityTagMatches list entityTag false <;> simp [hmatch]
  | none =>
    cases unmodified with
    | none => simp
    | some date =>
      by_cases hdate : date < lastModified
      · simp [hdate, not_le.mpr hdate]
      · simp [hdate, not_lt.mp hdate]

lemma noneMatchOutcome_status {c : Conditions} {status : ℕ} (h : c.noneMatchOutcome = some status) :
    status = 304 ∨ status = 412 := by
  unfold Conditions.noneMatchOutcome at h
  split at h
  · split_ifs at h
    · exact .inl (Option.some.inj h).symm
    · exact .inr (Option.some.inj h).symm
  · cases h
  · split_ifs at h
    exact .inl (Option.some.inj h).symm

lemma outcome_status {c : Conditions} {status : ℕ} (h : c.outcome = some status) : status = 304 ∨ status = 412 := by
  unfold Conditions.outcome at h
  split at h
  · exact .inr (Option.some.inj h).symm
  · exact .inr (Option.some.inj h).symm
  · exact noneMatchOutcome_status h

lemma rangeAllowed_iff (condition : Bytes) : rangeAllowed condition entityTag = true ↔
    validEntityTag condition = true ∧ weakTag condition = false ∧ weakTag entityTag = false ∧ condition = entityTag := by
  simp [rangeAllowed, and_assoc]

lemma plan_ended {status : ℕ}
    (h : (conditions getTime current request entityTag (modified / 1000000000)).outcome = some status) :
    planFileResponse getTime current request size entityTag modified = { wholeFile size with status := status, length := 0 } := by
  have hstatus : conditionStatus getTime current request entityTag (modified / 1000000000) = status := by
    rw [conditionStatus_eq, h]
    rfl
  have hne : status ≠ 200 := by
    obtain rfl | rfl := outcome_status h <;> decide
  unfold planFileResponse
  dsimp only
  rw [hstatus, if_pos hne]

section Passed

variable (h : (conditions getTime current request entityTag (modified / 1000000000)).outcome = none)

include h

lemma plan_passed : planFileResponse getTime current request size entityTag modified =
    passedPlan request size entityTag := by
  have hstatus : conditionStatus getTime current request entityTag (modified / 1000000000) = 200 := by
    rw [conditionStatus_eq, h]
    rfl
  unfold planFileResponse
  dsimp only
  rw [hstatus, if_neg (by decide)]

lemma plan_asked {spec : RangeSpec} (hasks : Asks request entityTag spec) (hfits : spec.Fits) :
    ∃ plan, spec.Planned size plan ∧
      planFileResponse getTime current request size entityTag modified = withContentRange size plan := by
  obtain ⟨hmethod, ⟨range, hrange, hspec⟩, hcondition⟩ := hasks
  rw [plan_passed h, passedPlan, if_neg (not_not.mpr hmethod), hrange]
  dsimp only
  cases hif : joinedField request.headers (ascii "if-range") with
  | none => exact rangePlan_single hspec hfits
  | some condition =>
    dsimp only
    rw [if_pos ((rangeAllowed_iff condition).mpr (hcondition condition hif))]
    exact rangePlan_single hspec hfits

lemma plan_not_asked (hno : ∀ spec, Asks request entityTag spec → ¬spec.Fits) :
    planFileResponse getTime current request size entityTag modified = wholeFile size := by
  rw [plan_passed h, passedPlan]
  by_cases hmethod : request.method = ascii "GET"
  · rw [if_neg (not_not.mpr hmethod)]
    cases hrange : joinedField request.headers (ascii "range") with
    | none => rfl
    | some range =>
      have hwhole (hcondition : ∀ condition, joinedField request.headers (ascii "if-range") = some condition →
          rangeAllowed condition entityTag = true) : rangePlan size range = wholeFile size := by
        apply rangePlan_whole.resolve_right
        rintro ⟨spec, hspec, hfits⟩
        refine hno spec ⟨hmethod, ⟨range, hrange, hspec⟩, ?_⟩ hfits
        intro condition hif
        exact (rangeAllowed_iff condition).mp (hcondition condition hif)
      dsimp only
      cases hif : joinedField request.headers (ascii "if-range") with
      | none =>
        apply hwhole
        intro condition heq
        rw [hif] at heq
        cases heq
      | some condition =>
        dsimp only
        split_ifs with hallowed
        · apply hwhole
          intro other heq
          rw [hif] at heq
          cases heq
          exact hallowed
        · rfl
  · rw [if_pos hmethod]

end Passed

end Plan

/-- Positions from 2^64 on make a range that the plan passes over. -/
theorem planFileResponse_exact (getTime : FileDateFormat → Bytes → Option Tm) (current : ℤ) (request : HttpRequest)
    (size : UInt64) (entityTag : Bytes) (modified : ℤ) :
    let plan := planFileResponse getTime current request size entityTag modified
    let outcome := (conditions getTime current request entityTag (modified / 1000000000)).outcome
    plan.offset.toNat + plan.length.toNat ≤ size.toNat ∧
    (plan.status = 206 → 1 ≤ plan.length.toNat ∧ ∃ spec, Asks request entityTag spec ∧
      spec.selected size.toNat = Set.Ico plan.offset.toNat (plan.offset.toNat + plan.length.toNat) ∧
      plan.contentRange = ascii "bytes " ++ toChars 10 plan.offset.toNat ++ [45] ++
        toChars 10 (plan.offset.toNat + plan.length.toNat - 1) ++ [47] ++ toChars 10 size.toNat) ∧
    (plan.status = 416 ↔ outcome = none ∧ ∃ spec, Asks request entityTag spec ∧ spec.Fits ∧
      spec.selected size.toNat = ∅) ∧
    (plan.status = 416 → plan.length = 0 ∧ plan.contentRange = ascii "bytes */" ++ toChars 10 size.toNat) ∧
    (outcome = none → (∀ spec, Asks request entityTag spec → ¬spec.Fits) → plan = wholeFile size) ∧
    (plan.status = 200 → plan = wholeFile size) ∧
    (∀ status, status = 304 ∨ status = 412 → (plan.status = status ↔ outcome = some status)) ∧
    (plan.status = 304 ∨ plan.status = 412 → plan.length = 0) ∧
    (∀ list weak, entityTagMatches list entityTag weak = true ↔ trim list = [42] ∨
      ∃ tags, TagList (trim list) tags ∧ ∃ tag ∈ tags, sameTag weak tag entityTag = true) := by
  dsimp only
  cases houtcome : (conditions getTime current request entityTag (modified / 1000000000)).outcome with
  | some status =>
    have hplan := @plan_ended getTime current request size entityTag modified status houtcome
    have hstatus := outcome_status houtcome
    rw [hplan]
    refine ⟨Nat.zero_le _, ?_, ?_, ?_, nofun, ?_, ?_, fun _ => rfl, fun list weak => entityTagMatches_iff list _ weak⟩
    · rintro h
      obtain rfl | rfl := hstatus <;> cases h
    · constructor
      · intro h
        obtain rfl | rfl := hstatus <;> cases h
      · rintro ⟨h, _⟩
        cases h
    · intro h
      obtain rfl | rfl := hstatus <;> cases h
    · intro h
      obtain rfl | rfl := hstatus <;> cases h
    · intro other _
      rw [Option.some.injEq]
  | none =>
    by_cases hasked : ∃ spec, Asks request entityTag spec ∧ spec.Fits
    · obtain ⟨spec, hasks, hfits⟩ := hasked
      obtain ⟨plan, hplanned, hplan⟩ := @plan_asked getTime current request size entityTag modified houtcome spec hasks hfits
      rw [hplan]
      obtain ⟨hempty, hlabel⟩ | ⟨hsome, hstatus, hlength, hbound, hselected, hspelled⟩ := hplanned.labelled
      · rw [hlabel]
        refine ⟨Nat.zero_le _, nofun, ?_, fun _ => ⟨rfl, rfl⟩, ?_, nofun, ?_, fun _ => rfl,
          fun list weak => entityTagMatches_iff list _ weak⟩
        · exact ⟨fun _ => ⟨rfl, spec, hasks, hfits, hempty⟩, fun _ => rfl⟩
        · intro _ hno
          exact absurd hfits (hno spec hasks)
        · rintro status (rfl | rfl) <;> simp
      · refine ⟨hbound, fun _ => ⟨hlength, spec, hasks, hselected, hspelled⟩, ?_, ?_, ?_, ?_, ?_, ?_,
          fun list weak => entityTagMatches_iff list _ weak⟩
        · rw [hstatus]
          constructor
          · nofun
          · rintro ⟨_, other, hotherAsks, hotherFits, hotherEmpty⟩
            obtain ⟨otherPlan, hotherPlanned, hotherPlan⟩ :=
              @plan_asked getTime current request size entityTag modified houtcome other hotherAsks hotherFits
            obtain ⟨_, hlabel⟩ | ⟨hother, _⟩ := hotherPlanned.labelled
            · rw [← hplan, hotherPlan, hlabel] at hstatus
              cases hstatus
            · exact absurd hotherEmpty hother
        · rw [hstatus]
          nofun
        · intro _ hno
          exact absurd hfits (hno spec hasks)
        · rw [hstatus]
          nofun
        · rw [hstatus]
          rintro status (rfl | rfl) <;> simp
        · rw [hstatus]
          rintro (h | h) <;> cases h
    · have hno : ∀ spec, Asks request entityTag spec → ¬spec.Fits := fun spec hasks hfits => hasked ⟨spec, hasks, hfits⟩
      rw [@plan_not_asked getTime current request size entityTag modified houtcome hno]
      refine ⟨?_, nofun, ?_, nofun, fun _ _ => rfl, fun _ => rfl, ?_, ?_,
        fun list weak => entityTagMatches_iff list _ weak⟩
      · simp [wholeFile]
      · constructor
        · nofun
        · rintro ⟨_, spec, hasks, hfits, _⟩
          exact absurd hfits (hno spec hasks)
      · rintro status (rfl | rfl) <;> simp [wholeFile]
      · rintro (h | h) <;> cases h

theorem planFileResponse_exact_middle (getTime : FileDateFormat → Bytes → Option Tm) :
    (planFileResponse getTime 2024 ⟨ascii "GET", ascii "/file", [(ascii "Range", ascii "bytes=2-5")], []⟩ 10
      (ascii "\"v1\"") 0).contentRange = ascii "bytes 2-5/10" ∧
    ∃ spec, RangeSpec.selected 10 spec = Set.Ico 2 (2 + 4) := by
  obtain ⟨-, hpartial, -⟩ := planFileResponse_exact getTime 2024
    ⟨ascii "GET", ascii "/file", [(ascii "Range", ascii "bytes=2-5")], []⟩ 10 (ascii "\"v1\"") 0
  obtain ⟨-, spec, -, hselected, hspelled⟩ := hpartial rfl
  exact ⟨hspelled, spec, hselected⟩

/-- A first position of 2^64 selects no byte, and the whole file is sent. -/
theorem planFileResponse_overlong : ¬∀ (getTime : FileDateFormat → Bytes → Option Tm) (current : ℤ)
    (request : HttpRequest) (size : UInt64) (entityTag : Bytes) (modified : ℤ),
    (planFileResponse getTime current request size entityTag modified).status = 416 ↔
      (conditions getTime current request entityTag (modified / 1000000000)).outcome = none ∧
      ∃ spec, Asks request entityTag spec ∧ spec.selected size.toNat = ∅ := by
  intro h
  have hasks : Asks ⟨ascii "GET", ascii "/file", [(ascii "Range", ascii "bytes=18446744073709551616-")], []⟩
      (ascii "\"v1\"") (.since 18446744073709551616) := by
    refine ⟨rfl, ⟨_, rfl, ascii "bytes=", ascii "18446744073709551616" ++ [45], by decide, by decide, ?_⟩, nofun⟩
    exact .since ⟨by decide, by decide, by decide⟩
  have hstatus := (h (fun _ _ => none) 2024 _ 10 _ 0).mpr
    ⟨rfl, _, hasks, by rw [RangeSpec.selected_eq_empty]; decide⟩
  exact absurd hstatus (by decide)

end ServerCore.Web
