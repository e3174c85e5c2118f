import ServerCore.Core.Utf8Prefix

/-! `Utf8FragmentState`: the text of a message as it comes in pieces. -/

namespace ServerCore.Web

open ServerCore.Core

/-- The first `size` bytes of the array. -/
structure Utf8FragmentState where
  pending : Bytes := []
  deriving DecidableEq, Repr

namespace Utf8FragmentState

def padding (lead : Byte) (index : ℕ) : Byte :=
  if index = 1 ∧ lead = 0xE0 then 0xA0 else if index = 1 ∧ lead = 0xF0 then 0x90 else 0x80

def validPartial (pending : Bytes) : Bool :=
  let lead := pending.headD 0
  let expected := utf8Width lead
  if expected = 0 then false
  else isValidUtf8 (pending ++ (List.range' pending.length (expected - pending.length)).map (padding lead))

def lastLead (text : Bytes) : ℕ → ℕ
  | 0 => 0
  | last + 1 => if isContinuation (text.getD (last + 1) 0) then lastLead text last else last + 1

def appendText (text : Bytes) (final : Bool) : Bool × Utf8FragmentState :=
  if text.isEmpty then (true, {})
  else
    let last := lastLead text (text.length - 1)
    let expected := utf8Width (text.getD last 0)
    if expected > text.length - last then
      let pending := text.drop last
      (validPartial pending && isValidUtf8 (text.take last) && !final, ⟨pending⟩)
    else (isValidUtf8 text, {})

def append (s : Utf8FragmentState) (bytes : Bytes) (final : Bool) : Bool × Utf8FragmentState :=
  if s.pending.isEmpty then appendText bytes final
  else
    let expected := utf8Width (s.pending.headD 0)
    let take := min (sizeSub expected s.pending.length) bytes.length
    let pending := s.pending ++ bytes.take take
    if pending.length ≠ expected then (!final && validPartial pending, ⟨pending⟩)
    else if !isValidUtf8 pending then (false, ⟨pending⟩)
    else appendText (bytes.drop take) final

section Padding

lemma padding_last {lead : Byte} {index : ℕ} (h : 2 ≤ index) : padding lead index = UInt8.ofNat 0x80 := by
  rw [padding, if_neg (by omega), if_neg (by omega)]
  rfl

lemma padding_second (k : ℕ) (h : k < 256) : padding (UInt8.ofNat k) 1 =
    UInt8.ofNat (if k = 0xE0 then 0xA0 else if k = 0xF0 then 0x90 else 0x80) := by
  have hk (j : ℕ) (hj : j < 256) : UInt8.ofNat k = UInt8.ofNat j ↔ k = j := by
    rw [← UInt8.toNat_inj, byte_toNat h, byte_toNat hj]
  have he := hk 0xE0 (by decide)
  have hf := hk 0xF0 (by decide)
  simp only [padding, true_and]
  split_ifs <;> first | rfl | simp_all

lemma range_two (k : ℕ) : List.range' k 2 = [k, k + 1] := rfl

lemma range_three (k : ℕ) : List.range' k 3 = [k, k + 1, k + 2] := rfl

lemma padded_char {n k : ℕ} (h : n.isValidChar) (hk : 0 < k) (hlength : k < (appendUtf8 n).length) :
    ∃ m, m.isValidChar ∧ (appendUtf8 n).take k ++
      (List.range' k ((appendUtf8 n).length - k)).map (padding ((appendUtf8 n).headD 0)) = appendUtf8 m := by
  have hr : n < 0xD800 ∨ 0xDFFF < n ∧ n < 0x110000 := h
  rw [appendUtf8_eq (n := n) (by omega)] at hlength ⊢
  split_ifs at hlength ⊢ with h1 h2 h3
  · simp only [List.length_singleton] at hlength
    omega
  · obtain rfl : k = 1 := by
      simp only [List.length_cons, List.length_nil] at hlength
      omega
    refine ⟨n / 64 * 64, .inl (by omega), ?_⟩
    rw [appendUtf8_eq (by omega), if_neg (by omega), if_pos (by omega)]
    simp only [List.length_cons, List.length_nil, Nat.zero_add, Nat.reduceAdd, Nat.add_one_sub_one, List.take_succ_cons,
      List.take_zero, List.headD_cons, List.range'_one, List.map_cons, List.map_nil, padding_second (0xC0 + n / 64) (by omega),
      List.cons_append, List.nil_append]
    rw [if_neg (by omega), if_neg (by omega), show n / 64 * 64 / 64 = n / 64 by omega, show n / 64 * 64 % 64 = 0 by omega]
  · simp only [List.length_cons, List.length_nil] at hlength
    obtain rfl | rfl : k = 1 ∨ k = 2 := by omega
    · have hm : ∃ m, m.isValidChar ∧ 0x7FF < m ∧ m ≤ 0xFFFF ∧ m / 4096 = n / 4096 ∧
          m / 64 % 64 = (if 0xE0 + n / 4096 = 0xE0 then 0x20 else 0) ∧ m % 64 = 0 := by
        by_cases hz : 0xE0 + n / 4096 = 0xE0
        · refine ⟨0x800, .inl (by decide), by decide, by decide, by omega, ?_, by decide⟩
          rw [if_pos hz]
        · refine ⟨n / 4096 * 4096, ?_, by omega, by omega, by omega, ?_, by omega⟩
          · simp only [Nat.isValidChar]
            omega
          · rw [if_neg hz]
            omega
      obtain ⟨m, hvalid, hlow, hhigh, hfirst, hsecond, hthird⟩ := hm
      refine ⟨m, hvalid, ?_⟩
      rw [appendUtf8_eq (by omega), if_neg (by omega), if_neg (by omega), if_pos (by omega), hfirst, hsecond, hthird]
      simp only [List.length_cons, List.length_nil, Nat.zero_add, Nat.reduceAdd, Nat.reduceSub, List.take_succ_cons,
        List.take_zero, List.headD_cons, range_two, List.map_cons, List.map_nil, padding_second (0xE0 + n / 4096) (by omega),
        padding_last (le_refl 2), List.cons_append, List.nil_append]
      split_ifs
      all_goals first | rfl | omega
    · refine ⟨n / 64 * 64, ?_, ?_⟩
      · simp only [Nat.isValidChar]
        omega
      rw [appendUtf8_eq (by omega), if_neg (by omega), if_neg (by omega), if_pos (by omega)]
      simp only [List.length_cons, List.length_nil, Nat.zero_add, Nat.reduceAdd, Nat.reduceSub, List.take_succ_cons,
        List.take_zero, List.headD_cons, List.range'_one, List.map_cons, List.map_nil, padding_last (le_refl 2),
        List.cons_append, List.nil_append]
      rw [show n / 64 * 64 / 4096 = n / 4096 by omega, show n / 64 * 64 / 64 % 64 = n / 64 % 64 by omega,
        show n / 64 * 64 % 64 = 0 by omega]
  · simp only [List.length_cons, List.length_nil] at hlength
    obtain rfl | rfl | rfl : k = 1 ∨ k = 2 ∨ k = 3 := by omega
    · have hm : ∃ m, m.isValidChar ∧ 0xFFFF < m ∧ m / 262144 = n / 262144 ∧
          m / 4096 % 64 = (if 0xF0 + n / 262144 = 0xF0 then 0x10 else 0) ∧ m / 64 % 64 = 0 ∧ m % 64 = 0 := by
        by_cases hz : 0xF0 + n / 262144 = 0xF0
        · refine ⟨0x10000, .inr (by decide), by decide, by omega, ?_, by decide, by decide⟩
          rw [if_pos hz]
        · refine ⟨n / 262144 * 262144, ?_, by omega, by omega, ?_, by omega, by omega⟩
          · simp only [Nat.isValidChar]
            omega
          · rw [if_neg hz]
            omega
      obtain ⟨m, hvalid, hlow, hfirst, hsecond, hthird, hfourth⟩ := hm
      have hm : m ≤ 0x10FFFF := by
        simp only [Nat.isValidChar] at hvalid
        omega
      refine ⟨m, hvalid, ?_⟩
      rw [appendUtf8_eq hm, if_neg (by omega), if_neg (by omega), if_neg (by omega), hfirst, hsecond, hthird, hfourth]
      simp only [List.length_cons, List.length_nil, Nat.zero_add, Nat.reduceAdd, Nat.reduceSub, List.take_succ_cons,
        List.take_zero, List.headD_cons, range_three, List.map_cons, List.map_nil, padding_second (0xF0 + n / 262144) (by omega),
        padding_last (le_refl 2), padding_last (Nat.le_succ 2), List.cons_append, List.nil_append]
      split_ifs
      all_goals first | rfl | omega
    · refine ⟨n / 4096 * 4096, ?_, ?_⟩
      · simp only [Nat.isValidChar]
        omega
      rw [appendUtf8_eq (by omega), if_neg (by omega), if_neg (by omega), if_neg (by omega)]
      simp only [List.length_cons, List.length_nil, Nat.zero_add, Nat.reduceAdd, Nat.reduceSub, List.take_succ_cons,
        List.take_zero, List.headD_cons, range_two, List.map_cons, List.map_nil, padding_last (le_refl 2),
        padding_last (Nat.le_succ 2), List.cons_append, List.nil_append]
      rw [show n / 4096 * 4096 / 262144 = n / 262144 by omega, show n / 4096 * 4096 / 4096 % 64 = n / 4096 % 64 by omega,
        show n / 4096 * 4096 / 64 % 64 = 0 by omega, show n / 4096 * 4096 % 64 = 0 by omega]
    · refine ⟨n / 64 * 64, ?_, ?_⟩
      · simp only [Nat.isValidChar]
        omega
      rw [appendUtf8_eq (by omega), if_neg (by omega), if_neg (by omega), if_neg (by omega)]
      simp only [List.length_cons, List.length_nil, Nat.zero_add, Nat.reduceAdd, Nat.reduceSub, List.take_succ_cons,
        List.take_zero, List.headD_cons, List.range'_one, List.map_cons, List.map_nil, padding_last (Nat.le_succ 2),
        List.cons_append, List.nil_append]
      rw [show n / 64 * 64 / 262144 = n / 262144 by omega, show n / 64 * 64 / 4096 % 64 = n / 4096 % 64 by omega,
        show n / 64 * 64 / 64 % 64 = n / 64 % 64 by omega, show n / 64 * 64 % 64 = 0 by omega]

end Padding

section Pieces

variable {p q v x : Bytes} {final : Bool}

lemma validPartial_iff {lead : Byte} (h : q.length + 1 < utf8Width lead) : validPartial (lead :: q) = true ↔ Begun (lead :: q) := by
  have hne : utf8Width lead ≠ 0 := by omega
  have hvalue : validPartial (lead :: q) = isValidUtf8 (lead :: q ++
      (List.range' (q.length + 1) (utf8Width lead - (q.length + 1))).map (padding lead)) := if_neg hne
  rw [hvalue]
  constructor
  · intro hvalid
    rw [isValidUtf8_iff, List.cons_append] at hvalid
    obtain ⟨c, z, heq, hlength, -⟩ := hvalid.first
    have hfull := congrArg List.length heq
    simp only [List.length_cons, List.length_append, List.length_map, List.length_range', hlength] at hfull
    obtain rfl : z = [] := List.eq_nil_of_length_eq_zero (by omega)
    refine ⟨nofun, c, ⟨_, heq.trans (List.append_nil _)⟩, ?_⟩
    rw [hlength]
    exact h
  · rintro ⟨-, c, hpre, hlength⟩
    have hwidth := width_eq (hpre.trans (List.prefix_append _ []))
    obtain ⟨m, hm, hpadded⟩ := padded_char c.valid (Nat.succ_pos q.length) hlength
    obtain ⟨d, hd⟩ := exists_char hm
    have htake : (appendUtf8 c.toNat).take (q.length + 1) = lead :: q := (List.prefix_iff_eq_take.mp hpre).symm
    obtain ⟨y, hy⟩ := hpre
    have hhead : (appendUtf8 c.toNat).headD 0 = lead := by
      rw [← hy]
      rfl
    rw [isValidUtf8_iff, hwidth]
    change (appendUtf8 c.toNat).take (q.length + 1) ++ (List.range' (q.length + 1) ((appendUtf8 c.toNat).length - (q.length + 1))).map
      (padding ((appendUtf8 c.toNat).headD 0)) = _ at hpadded
    rw [htake, hhead, ← hd] at hpadded
    rw [hpadded]
    exact .char d

lemma lastLead_eq {lead : Byte} {tail : Bytes} (hlead : isContinuation lead = false) (htail : ∀ b ∈ tail, isContinuation b = true) :
    lastLead (v ++ lead :: tail) ((v ++ lead :: tail).length - 1) = v.length := by
  have hloop (k : ℕ) (hk : k ≤ tail.length) : lastLead (v ++ lead :: tail) (v.length + k) = v.length := by
    induction k with
    | zero =>
      cases hv : v.length with
      | zero => rfl
      | succ n =>
        rw [Nat.add_zero, lastLead, if_neg]
        rw [← hv, List.getD_eq_getElem?_getD, List.getElem?_append_right (le_refl _), Nat.sub_self]
        simpa using hlead
    | succ k ih =>
      rw [← Nat.add_assoc, lastLead, if_pos]
      · exact ih (by omega)
      · rw [List.getD_eq_getElem?_getD, List.getElem?_append_right (by omega), show v.length + k + 1 - v.length = k + 1 by omega,
          List.getElem?_cons_succ, List.getElem?_eq_getElem (by omega), Option.getD_some]
        exact htail _ (List.getElem_mem _)
  rw [List.length_append, List.length_cons]
  exact hloop tail.length le_rfl

lemma appendText_eq (hv : Utf8 v) (hq : q = [] ∨ Begun q) : appendText (v ++ q) final = (q.isEmpty || !final, ⟨q⟩) := by
  rcases hq with rfl | hq
  · rw [List.append_nil]
    obtain ⟨chars, rfl⟩ := hv
    rcases List.eq_nil_or_concat chars with rfl | ⟨chars, c, rfl⟩
    · rfl
    obtain ⟨lead, tail, henc, hwidth, hlead, htail⟩ := appendUtf8_cons c
    rw [List.concat_eq_append, List.flatMap_append, List.flatMap_singleton, henc]
    generalize hx : (chars.flatMap fun c => appendUtf8 c.toNat) = x
    have hvalid : isValidUtf8 (x ++ lead :: tail) = true := by
      rw [isValidUtf8_iff, ← henc, ← hx]
      exact Utf8.append ⟨chars, rfl⟩ (.char c)
    have hshort : ¬ utf8Width ((x ++ lead :: tail).getD x.length 0) > (x ++ lead :: tail).length - x.length := by
      rw [List.getD_eq_getElem?_getD, List.getElem?_append_right (le_refl _), Nat.sub_self, List.getElem?_cons_zero,
        Option.getD_some, hwidth, List.length_append, List.length_cons]
      omega
    rw [appendText, if_neg (by simp)]
    simp only [lastLead_eq hlead htail, if_neg hshort, hvalid]
    rfl
  · obtain ⟨lead, tail, rfl, hlead, htail⟩ := hq.cons
    have hwidth := hq.width
    have hlong : utf8Width ((v ++ lead :: tail).getD v.length 0) > (v ++ lead :: tail).length - v.length := by
      rw [List.getD_eq_getElem?_getD, List.getElem?_append_right (le_refl _), Nat.sub_self, List.getElem?_cons_zero,
        Option.getD_some, List.length_append, List.length_cons]
      omega
    rw [appendText, if_neg (by simp)]
    simp only [lastLead_eq hlead htail, if_pos hlong, List.drop_left, List.take_left, (validPartial_iff hwidth).mpr hq,
      (isValidUtf8_iff v).mpr hv]
    rfl

lemma lastLead_le (x : Bytes) (i : ℕ) : lastLead x i ≤ i := by
  induction i with
  | zero => exact le_rfl
  | succ i ih =>
    rw [lastLead]
    split
    · exact ih.trans (Nat.le_succ i)
    · exact le_rfl

lemma appendText_true (h : (appendText x final).1 = true) : Viable x := by
  rw [viable_iff]
  rw [appendText] at h
  split at h
  · rename_i hempty
    exact ⟨[], [], List.isEmpty_iff.mp hempty, ⟨[], rfl⟩, .inl rfl⟩
  rename_i hne
  have hpos : 0 < x.length := List.length_pos_of_ne_nil fun hnil => hne (List.isEmpty_iff.mpr hnil)
  have hlast := lastLead_le x (x.length - 1)
  dsimp only at h
  generalize lastLead x (x.length - 1) = last at h hlast
  split at h
  · rename_i hlong
    simp only [Bool.and_eq_true] at h
    obtain ⟨⟨hpart, hvalid⟩, -⟩ := h
    have hdrop : x.drop last = x.getD last 0 :: x.drop (last + 1) := by
      rw [List.drop_eq_getElem_cons (by omega), List.getD_eq_getElem?_getD, List.getElem?_eq_getElem (by omega), Option.getD_some]
    rw [hdrop, validPartial_iff] at hpart
    · exact ⟨_, _, (List.take_append_drop last x).symm, (isValidUtf8_iff _).mp hvalid, .inr (hdrop ▸ hpart)⟩
    · rw [List.length_drop]
      omega
  · exact ⟨x, [], (List.append_nil x).symm, (isValidUtf8_iff x).mp h, .inl rfl⟩

lemma append_short {lead : Byte} {t bytes : Bytes} (h : (lead :: t ++ bytes).length < utf8Width lead) :
    append ⟨lead :: t⟩ bytes final = (!final && validPartial (lead :: t ++ bytes), ⟨lead :: t ++ bytes⟩) := by
  simp only [List.length_append, List.length_cons] at h
  have hsub : sizeSub (utf8Width lead) (lead :: t).length = utf8Width lead - (t.length + 1) := sizeSub_eq (by simp only [List.length_cons]; omega)
  have htake : bytes.take (min (utf8Width lead - (t.length + 1)) bytes.length) = bytes := by
    rw [List.take_of_length_le]
    omega
  rw [append, if_neg (by simp)]
  simp only [List.headD_cons, hsub, htake]
  rw [if_pos]
  simp only [List.length_append, List.length_cons]
  omega

lemma append_long {lead : Byte} {t bytes : Bytes} (ht : t.length + 1 < utf8Width lead)
    (h : utf8Width lead ≤ (lead :: t ++ bytes).length) : append ⟨lead :: t⟩ bytes final =
      if isValidUtf8 ((lead :: t ++ bytes).take (utf8Width lead)) then appendText ((lead :: t ++ bytes).drop (utf8Width lead)) final
      else (false, ⟨(lead :: t ++ bytes).take (utf8Width lead)⟩) := by
  simp only [List.length_append, List.length_cons] at h
  have hsub : sizeSub (utf8Width lead) (lead :: t).length = utf8Width lead - (t.length + 1) := sizeSub_eq (by simp only [List.length_cons]; omega)
  have hmin : min (utf8Width lead - (t.length + 1)) bytes.length = utf8Width lead - (t.length + 1) := min_eq_left (by omega)
  have htake : (lead :: t ++ bytes).take (utf8Width lead) = lead :: t ++ bytes.take (utf8Width lead - (t.length + 1)) := by
    rw [List.take_append, List.take_of_length_le (by simp only [List.length_cons]; omega), List.length_cons]
  have hdrop : (lead :: t ++ bytes).drop (utf8Width lead) = bytes.drop (utf8Width lead - (t.length + 1)) := by
    rw [List.drop_append, List.drop_of_length_le (by simp only [List.length_cons]; omega), List.length_cons, List.nil_append]
  rw [append, if_neg (by simp), htake, hdrop]
  simp only [List.headD_cons, hsub, hmin]
  rw [if_neg]
  · cases isValidUtf8 (lead :: t ++ bytes.take (utf8Width lead - (t.length + 1))) <;> rfl
  · simp only [List.length_append, List.length_cons, List.length_take]
    omega

lemma append_eq {bytes : Bytes} (hp : p = [] ∨ Begun p) (hx : p ++ bytes = v ++ q) (hv : Utf8 v) (hq : q = [] ∨ Begun q) :
    append ⟨p⟩ bytes final = (q.isEmpty || !final, ⟨q⟩) := by
  rcases hp with rfl | hp
  · rw [List.nil_append] at hx
    rw [hx]
    exact appendText_eq hv hq
  obtain ⟨lead, t, rfl, -, -⟩ := hp.cons
  have hwidth := hp.width
  cases v with
  | nil =>
    rw [List.nil_append] at hx
    subst hx
    have hbegun := hq.resolve_left nofun
    rw [List.cons_append] at hbegun
    have hlong := hbegun.width
    rw [append_short (by simpa using hlong), List.cons_append, (validPartial_iff hlong).mpr hbegun, Bool.and_true]
    rfl
  | cons lead' v =>
    obtain ⟨rfl, htail⟩ := List.cons.inj (show lead :: (t ++ bytes) = lead' :: (v ++ q) from hx)
    obtain ⟨c, z, heq, hlength, hz⟩ := hv.first
    have htotal := congrArg List.length heq
    rw [List.length_append, hlength] at htotal
    rw [append_long hwidth, hx, heq, List.append_assoc, ← hlength, List.take_left, List.drop_left, if_pos]
    · exact appendText_eq hz hq
    · rw [isValidUtf8_iff]
      exact .char c
    · rw [hx, List.length_append]
      omega

lemma append_true {bytes : Bytes} (hp : p = [] ∨ Begun p) (h : (append ⟨p⟩ bytes final).1 = true) : Viable (p ++ bytes) := by
  rcases hp with rfl | hp
  · exact appendText_true h
  obtain ⟨lead, t, rfl, -, -⟩ := hp.cons
  have hwidth := hp.width
  by_cases hshort : (lead :: t ++ bytes).length < utf8Width lead
  · rw [append_short hshort, Bool.and_eq_true] at h
    have hbegun := (validPartial_iff (by simpa using hshort)).mp h.2
    exact viable_iff.mpr ⟨[], _, rfl, ⟨[], rfl⟩, .inr hbegun⟩
  · rw [append_long hwidth (not_lt.mp hshort)] at h
    split at h
    · rename_i hvalid
      obtain ⟨y, hy⟩ := appendText_true h
      refine ⟨y, ?_⟩
      rw [← List.take_append_drop (utf8Width lead) (lead :: t ++ bytes), List.append_assoc]
      exact ((isValidUtf8_iff _).mp hvalid).append hy
    · cases h

end Pieces

/-- The answers of a call for each piece, the last one final, as long as they are all `true`. -/
def appendAll (s : Utf8FragmentState) : List Bytes → Bool
  | [] => true
  | [bytes] => (s.append bytes true).1
  | bytes :: pieces => (s.append bytes false).1 && (s.append bytes false).2.appendAll pieces

def appendSome (s : Utf8FragmentState) : List Bytes → Bool
  | [] => true
  | bytes :: pieces => (s.append bytes false).1 && (s.append bytes false).2.appendSome pieces

section Calls

variable {p : Bytes}

lemma append_false (bytes : Bytes) (hp : p = [] ∨ Begun p) : ((append ⟨p⟩ bytes false).1 = true ↔ Viable (p ++ bytes)) ∧
    (Viable (p ++ bytes) → ∃ v q, p ++ bytes = v ++ q ∧ Utf8 v ∧ (q = [] ∨ Begun q) ∧ (append ⟨p⟩ bytes false).2 = ⟨q⟩) := by
  refine ⟨⟨append_true hp, fun h => ?_⟩, fun h => ?_⟩
  · obtain ⟨v, q, hx, hv, hq⟩ := viable_iff.mp h
    rw [append_eq hp hx hv hq, Bool.not_false, Bool.or_true]
  · obtain ⟨v, q, hx, hv, hq⟩ := viable_iff.mp h
    refine ⟨v, q, hx, hv, hq, ?_⟩
    rw [append_eq hp hx hv hq]

lemma append_final {bytes : Bytes} (hp : p = [] ∨ Begun p) : (append ⟨p⟩ bytes true).1 = isValidUtf8 (p ++ bytes) := by
  rw [Bool.eq_iff_iff, isValidUtf8_iff]
  constructor
  · intro h
    obtain ⟨v, q, hx, hv, hq⟩ := viable_iff.mp (append_true hp h)
    rw [append_eq hp hx hv hq, Bool.not_true, Bool.or_false, List.isEmpty_iff] at h
    rw [hx, h, List.append_nil]
    exact hv
  · intro h
    rw [append_eq hp (List.append_nil _).symm h (.inl rfl)]
    rfl

lemma viable_append {v x : Bytes} (hv : Utf8 v) : Viable (v ++ x) ↔ Viable x := by
  refine exists_congr fun y => ?_
  rw [List.append_assoc]
  exact ⟨hv.of_append, hv.append⟩

lemma appendAll_eq {pieces : List Bytes} (hp : p = [] ∨ Begun p) (hne : pieces ≠ []) :
    appendAll ⟨p⟩ pieces = isValidUtf8 (p ++ pieces.flatten) := by
  induction pieces generalizing p with
  | nil => exact absurd rfl hne
  | cons bytes pieces ih =>
    cases pieces with
    | nil =>
      rw [appendAll, List.flatten_singleton]
      exact append_final hp
    | cons next pieces =>
      rw [appendAll, List.flatten_cons, ← List.append_assoc]
      obtain ⟨hiff, hkept⟩ := append_false bytes hp
      by_cases hviable : Viable (p ++ bytes)
      · obtain ⟨v, q, hx, hv, hq, hstate⟩ := hkept hviable
        rw [hiff.mpr hviable, Bool.true_and, hstate, ih hq nofun, hx, List.append_assoc, Bool.eq_iff_iff, isValidUtf8_iff,
          isValidUtf8_iff]
        exact ⟨hv.append, hv.of_append⟩
      · rw [Bool.eq_false_iff.mpr (mt hiff.mp hviable), Bool.false_and, eq_comm, ← Bool.not_eq_true, isValidUtf8_iff]
        exact fun h => hviable ⟨_, h⟩
      · exact nofun

lemma appendSome_iff {pieces : List Bytes} (hp : p = [] ∨ Begun p) :
    appendSome ⟨p⟩ pieces = true ↔ Viable (p ++ pieces.flatten) := by
  induction pieces generalizing p with
  | nil =>
    rw [appendSome, List.flatten_nil, List.append_nil, viable_iff]
    exact ⟨fun _ => ⟨[], p, rfl, ⟨[], rfl⟩, hp⟩, fun _ => rfl⟩
  | cons bytes pieces ih =>
    rw [appendSome, List.flatten_cons, ← List.append_assoc, Bool.and_eq_true]
    obtain ⟨hiff, hkept⟩ := append_false bytes hp
    constructor
    · rintro ⟨hfirst, hrest⟩
      obtain ⟨v, q, hx, hv, hq, hstate⟩ := hkept (hiff.mp hfirst)
      rw [hstate, ih hq] at hrest
      rw [hx, List.append_assoc, viable_append hv]
      exact hrest
    · rintro ⟨y, hy⟩
      have hviable : Viable (p ++ bytes) := ⟨pieces.flatten ++ y, by rwa [← List.append_assoc]⟩
      obtain ⟨v, q, hx, hv, hq, hstate⟩ := hkept hviable
      refine ⟨hiff.mpr hviable, ?_⟩
      rw [hstate, ih hq, ← viable_append hv, ← List.append_assoc, ← hx]
      exact ⟨y, hy⟩

end Calls

/-- The calls for the pieces of a text are all answered `true` exactly if the text is UTF-8, and those before the last one exactly
as long as it is the beginning of some UTF-8 text. -/
theorem appendAll_agrees (pieces : List Bytes) : appendAll {} pieces = isValidUtf8 pieces.flatten ∧
    (appendSome {} pieces = true ↔ ∃ y, isValidUtf8 (pieces.flatten ++ y) = true) := by
  constructor
  · cases pieces with
    | nil => rw [appendAll, List.flatten_nil, isValidUtf8]
    | cons bytes pieces => exact appendAll_eq (.inl rfl) (by simp)
  · simp only [isValidUtf8_iff]
    exact appendSome_iff (.inl rfl)

end Utf8FragmentState

end ServerCore.Web
