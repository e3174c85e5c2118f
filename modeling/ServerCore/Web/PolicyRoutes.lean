import Mathlib.Data.List.Forall2
import ServerCore.Web.HttpPolicy

/-! Policy rules and routes see the same path: the canonical path of a request is its decoded
segments joined again, and a prefix applies exactly when its segments are the first ones. -/

namespace ServerCore.Web

open ServerCore.Core
open RequestData (percentDecodeComponent)

def joinPath (segments : List Bytes) : Bytes := segments.flatMap (47 :: ·)

def withoutTrailing (segments : List Bytes) : List Bytes :=
  if 1 < segments.length ∧ segments.getLast? = some [] then segments.dropLast else segments

lemma hexDigit?_ne {value : Byte} {n : ℕ} (h : hexDigit? value = some n) : value ≠ 63 ∧ value ≠ 35 ∧ value ≠ 47 := by
  refine ⟨?_, ?_, ?_⟩ <;> rintro rfl <;> cases h

inductive Decodes : Bytes → Bytes → Prop
  | nil : Decodes [] []
  | plain {b : Byte} {rest decoded : Bytes} : b ≠ 63 → b ≠ 35 → b ≠ 37 → isForbidden b = false →
      Decodes rest decoded → Decodes (b :: rest) (b :: decoded)
  | escape {high low : Byte} {m n : ℕ} {rest decoded : Bytes} : hexDigit? high = some m → hexDigit? low = some n →
      isForbidden (UInt8.ofNat (m * 16 + n)) = false → Decodes rest decoded →
      Decodes (37 :: high :: low :: rest) (UInt8.ofNat (m * 16 + n) :: decoded)

section Segments

variable {raw decoded : Bytes}

lemma decodes_of_decodeBytes (h : decodeBytes raw = some decoded) : Decodes raw decoded := by
  fun_induction decodeBytes raw generalizing decoded with
  | case1 =>
    obtain rfl := Option.some.inj h
    exact .nil
  | case2 | case3 | case5 | case6 | case7 => cases h
  | case4 =>
    rename_i value hgood hpercent high low rest m n hn hm v hv ih
    obtain ⟨d, hd, rfl⟩ := Option.map_eq_some_iff.mp h
    obtain rfl : value = 37 := by simpa using hpercent
    exact .escape hm hn (Bool.not_eq_true _ ▸ hv) (ih hd)
  | case8 value rest hgood hpercent hv ih =>
    obtain ⟨d, hd, rfl⟩ := Option.map_eq_some_iff.mp h
    simp only [Bool.or_eq_true, beq_iff_eq, not_or] at hgood
    exact .plain hgood.1.2 hgood.2 (by simpa using hpercent) (by simpa using hv) (ih hd)

lemma Decodes.plain_bytes (h : Decodes raw decoded) : ∀ b ∈ raw, b ≠ 63 ∧ b ≠ 35 := by
  induction h with
  | nil => simp
  | plain h₁ h₂ _ _ _ ih => exact List.forall_mem_cons.mpr ⟨⟨h₁, h₂⟩, ih⟩
  | escape hm hn _ _ ih =>
    have hhigh := hexDigit?_ne hm
    have hlow := hexDigit?_ne hn
    exact List.forall_mem_cons.mpr ⟨by decide, List.forall_mem_cons.mpr ⟨⟨hhigh.1, hhigh.2.1⟩,
      List.forall_mem_cons.mpr ⟨⟨hlow.1, hlow.2.1⟩, ih⟩⟩⟩

lemma Decodes.allowed (h : Decodes raw decoded) : decoded.any isForbidden = false := by
  induction h with
  | nil => rfl
  | plain _ _ _ hv _ ih => rw [List.any_cons, hv, ih, Bool.or_self]
  | escape _ _ hv _ ih => rw [List.any_cons, hv, ih, Bool.or_self]

lemma Decodes.decodeLoop (h : Decodes raw decoded) {result : Bytes} {max : ℕ} (hmax : result.length + raw.length ≤ max) :
    RequestData.decodeLoop false max raw result = .ok (result ++ decoded) := by
  have hpush (result : Bytes) (b : Byte) (hroom : result.length < max) :
      RequestData.push max result b = .ok (result ++ [b]) := if_neg hroom.ne
  induction h generalizing result with
  | nil => rw [RequestData.decodeLoop, List.append_nil]
  | @plain b rest decoded _ _ hb _ _ ih =>
    simp only [List.length_cons] at hmax
    rw [RequestData.decodeLoop.eq_def]
    simp only [hb, ↓reduceIte, Bool.and_false, Bool.false_eq_true, hpush result b (by omega)]
    refine (ih (by rw [List.length_append, List.length_singleton]; omega)).trans ?_
    rw [List.append_assoc, List.singleton_append]
  | @escape high low m n rest decoded hm hn _ _ ih =>
    simp only [List.length_cons] at hmax
    rw [RequestData.decodeLoop.eq_def]
    simp only [↓reduceIte, hm, hn, hpush result _ (by omega)]
    refine (ih (by rw [List.length_append, List.length_singleton]; omega)).trans ?_
    rw [List.append_assoc, List.singleton_append]

lemma not_mem_of_allowed {part : Bytes} {b : Byte} (h : part.any isForbidden = false) (hb : isForbidden b = true) :
    b ∉ part := by
  intro hmem
  have := List.any_eq_false.mp h b hmem
  exact this hb

lemma canonicalPart_of_decodeSegment (h : decodeSegment raw = some decoded) (hlen : raw.length ≤ maxPathBytes) :
    canonicalPart raw = .ok decoded ∧ (∀ b ∈ raw, b ≠ 63 ∧ b ≠ 35) ∧ 47 ∉ decoded := by
  rw [decodeSegment] at h
  cases hd : decodeBytes raw with
  | none => simp [hd] at h
  | some text =>
    simp only [hd, Option.ite_none_left_eq_some, Option.some.injEq, Bool.or_eq_true, not_or, Bool.not_eq_true,
      Bool.not_eq_false'] at h
    obtain ⟨⟨hdots, hutf⟩, rfl⟩ := h
    have hdecodes := decodes_of_decodeBytes hd
    have hallowed := hdecodes.allowed
    have hzero : text.contains 0 = false := by
      simpa using not_mem_of_allowed hallowed (b := 0) (by decide)
    refine ⟨?_, hdecodes.plain_bytes, not_mem_of_allowed hallowed (by decide)⟩
    have hloop := @Decodes.decodeLoop _ _ hdecodes [] maxPathBytes (by simpa using hlen)
    rw [canonicalPart, percentDecodeComponent, if_neg (by decide), hloop]
    simp only [Bind.bind, Except.bind, RequestData.text, List.nil_append, hzero, hutf, hdots, hallowed, Bool.not_false,
      Bool.not_true, Bool.and_self, ↓reduceIte, Bool.or_self, Bool.false_eq_true]

end Segments

section Joining

variable {s q : List Bytes}

def Separate (segments : List Bytes) : Prop := segments ≠ [] ∧ ∀ segment ∈ segments, 47 ∉ segment

lemma joinPath_append (q s : List Bytes) : joinPath (q ++ s) = joinPath q ++ joinPath s := List.flatMap_append

lemma split_joinPath (h : Separate s) : (joinPath s).tail.splitOn 47 = s := by
  obtain ⟨hne, hmem⟩ := h
  induction s with
  | nil => exact absurd rfl hne
  | cons segment s ih =>
    have hsegment : 47 ∉ segment := hmem segment (by simp)
    cases s with
    | nil =>
      simp only [joinPath, List.flatMap_cons, List.flatMap_nil, List.append_nil, List.tail_cons]
      exact List.splitOn_eq_singleton hsegment
    | cons next s =>
      have hrest := ih (by simp) fun segment' h => hmem segment' (by simp [h])
      have hjoin : (joinPath (segment :: next :: s)).tail = segment ++ 47 :: (joinPath (next :: s)).tail := rfl
      rw [hjoin, List.splitOn_append_cons_self_of_not_mem hsegment, hrest]

lemma prefixApplies_iff (hq : Separate q) (hs : Separate s) :
    prefixApplies (joinPath s) (joinPath q) = true ↔ joinPath q = [47] ∨ q <+: s := by
  rw [prefixApplies, Bool.or_eq_true, Bool.and_eq_true, Bool.or_eq_true, beq_iff_eq, beq_iff_eq, beq_iff_eq,
    startsWith, List.isPrefixOf_iff_prefix]
  apply or_congr Iff.rfl
  constructor
  · rintro ⟨⟨t, ht⟩, hend⟩
    cases t with
    | nil =>
      rw [List.append_nil] at ht
      rw [← split_joinPath hs, ← split_joinPath hq, ht]
    | cons b t =>
      have hb : b = 47 := by
        rw [← ht, List.length_append, List.getElem?_append_right le_rfl, Nat.sub_self] at hend
        simpa using hend
      subst hb
      obtain ⟨first, rest, rfl⟩ := List.exists_cons_of_ne_nil hq.1
      have htail : (joinPath s).tail = (joinPath (first :: rest)).tail ++ 47 :: t := by
        rw [← ht]
        rfl
      rw [← split_joinPath hs, htail, List.splitOn_append_cons_self, split_joinPath hq]
      exact List.prefix_append _ _
  · rintro ⟨r, rfl⟩
    cases r with
    | nil => simp
    | cons segment r =>
      rw [joinPath_append]
      exact ⟨List.prefix_append _ _, .inr (by rw [List.getElem?_append_right le_rfl, Nat.sub_self]; rfl)⟩

lemma dropSlash_joinPath (hq : Separate q) :
    HttpPolicyPipeline.dropSlash (joinPath q) = joinPath (withoutTrailing q) ∧ Separate (withoutTrailing q) := by
  obtain ⟨front, last, rfl⟩ : ∃ front last, q = front ++ [last] :=
    ⟨q.dropLast, q.getLast hq.1, (List.dropLast_append_getLast hq.1).symm⟩
  have hlast : 47 ∉ last := hq.2 last (by simp)
  have hjoin : joinPath (front ++ [last]) = joinPath front ++ 47 :: last := by
    rw [joinPath_append]
    simp [joinPath]
  rcases List.eq_nil_or_concat last with rfl | ⟨init, b, rfl⟩
  · cases front with
    | nil =>
      simp only [List.nil_append, withoutTrailing, List.length_singleton, lt_self_iff_false, false_and, ↓reduceIte]
      exact ⟨rfl, hq⟩
    | cons first rest =>
      have hlong : 1 < (joinPath (first :: rest ++ [[]])).length := by
        rw [hjoin]
        simp only [joinPath, List.flatMap_cons, List.length_append, List.length_cons, List.length_nil]
        omega
      have hsegments : withoutTrailing (first :: rest ++ [[]]) = first :: rest := by
        rw [withoutTrailing, if_pos ⟨by simp, List.getLast?_concat⟩, List.dropLast_concat]
      rw [hsegments]
      refine ⟨?_, by simp, fun segment h => hq.2 segment (List.mem_append_left _ h)⟩
      rw [HttpPolicyPipeline.dropSlash, hjoin, if_pos ⟨by rwa [← hjoin], by simp⟩, List.dropLast_concat]
  · have hb : b ≠ 47 := by
      rintro rfl
      simp at hlast
    have hsegments : withoutTrailing (front ++ [init.concat b]) = front ++ [init.concat b] := by
      rw [withoutTrailing, if_neg (by simp)]
    rw [hsegments]
    refine ⟨?_, hq⟩
    rw [HttpPolicyPipeline.dropSlash, hjoin, if_neg]
    rintro ⟨-, h⟩
    rw [List.concat_eq_append, ← List.cons_append, ← List.append_assoc, List.getLast?_concat] at h
    exact hb (Option.some.inj h)

end Joining

section Canonical

lemma canonicalPart_separate {raw part : Bytes} (h : canonicalPart raw = .ok part) :
    percentDecodeComponent raw false maxPathBytes = .ok part ∧ 47 ∉ part := by
  rw [canonicalPart] at h
  cases hd : percentDecodeComponent raw false maxPathBytes with
  | error status => simp [hd] at h
  | ok text =>
    simp only [hd] at h
    split_ifs at h with hbad
    obtain rfl := Except.ok.inj h
    rw [Bool.or_eq_true, not_or, Bool.not_eq_true, Bool.not_eq_true] at hbad
    exact ⟨rfl, not_mem_of_allowed hbad.2 (by decide)⟩

lemma canonicalLoop_ok {front path : Bytes} {raws : List Bytes} (hne : raws ≠ [])
    (h : canonicalLoop (front ++ [47]) raws = .ok path) :
    ∃ parts, raws.mapM (fun raw => percentDecodeComponent raw false maxPathBytes) = .ok parts ∧ Separate parts ∧
      path = front ++ joinPath parts := by
  induction raws generalizing front with
  | nil => exact absurd rfl hne
  | cons raw rest ih =>
    cases rest with
    | nil =>
      rw [canonicalLoop] at h
      cases hpart : canonicalPart raw with
      | error code => simp [hpart, Except.map] at h
      | ok part =>
        rw [hpart] at h
        obtain rfl := Except.ok.inj h
        obtain ⟨hdecode, hslash⟩ := canonicalPart_separate hpart
        refine ⟨[part], by rw [List.mapM_cons, hdecode]; rfl, ⟨by simp, by simpa using hslash⟩, ?_⟩
        simp [joinPath]
    | cons next rest =>
      rw [canonicalLoop] at h
      cases hpart : canonicalPart raw with
      | error code => simp [hpart] at h
      | ok part =>
        simp only [hpart] at h
        obtain ⟨hdecode, hslash⟩ := canonicalPart_separate hpart
        obtain ⟨parts, hparts, hsep, rfl⟩ := ih (by simp) h
        refine ⟨part :: parts, by rw [List.mapM_cons, hdecode, hparts]; rfl, ⟨by simp, ?_⟩, ?_⟩
        · exact List.forall_mem_cons.mpr ⟨hslash, hsep.2⟩
        · simp [joinPath]
      all_goals simp

lemma canonicalLoop_decoded {front : Bytes} {raws segments : List Bytes} (hne : raws ≠ [])
    (h : raws.mapM decodeSegment = some segments) (hlen : ∀ raw ∈ raws, raw.length ≤ maxPathBytes) :
    canonicalLoop (front ++ [47]) raws = .ok (front ++ joinPath segments) ∧ Separate segments ∧
      ∀ raw ∈ raws, ∀ b ∈ raw, b ≠ 63 ∧ b ≠ 35 := by
  induction raws generalizing front segments with
  | nil => exact absurd rfl hne
  | cons raw rest ih =>
    rw [List.mapM_cons] at h
    obtain ⟨part, hpart, h⟩ := Option.bind_eq_some_iff.mp h
    obtain ⟨parts, hparts, h⟩ := Option.bind_eq_some_iff.mp h
    obtain rfl := Option.some.inj h
    obtain ⟨hcanonical, hbytes, hslash⟩ := canonicalPart_of_decodeSegment hpart (hlen raw (by simp))
    cases rest with
    | nil =>
      obtain rfl := Option.some.inj hparts
      rw [canonicalLoop, hcanonical]
      exact ⟨by simp [joinPath, Except.map], ⟨by simp, by simpa using hslash⟩, by simpa using hbytes⟩
    | cons next rest =>
      obtain ⟨hloop, hsep, hplain⟩ := @ih (front ++ (47 :: part)) parts (by simp) hparts fun raw h => hlen raw (by simp [h])
      rw [canonicalLoop]
      · simp only [hcanonical]
        refine ⟨?_, ⟨by simp, List.forall_mem_cons.mpr ⟨hslash, hsep.2⟩⟩, List.forall_mem_cons.mpr ⟨hbytes, hplain⟩⟩
        rw [show front ++ [47] ++ part ++ [47] = front ++ (47 :: part) ++ [47] by simp, hloop]
        simp [joinPath]
      all_goals simp

lemma joinPath_split (x : Bytes) : joinPath (x.splitOn 47) = 47 :: x := by
  induction x with
  | nil => rfl
  | cons b x ih =>
    rw [List.splitOn_cons_eq_if_modifyHead]
    obtain ⟨first, rest, hsplit⟩ := List.exists_cons_of_ne_nil (List.splitOn_ne_nil 47 x)
    rw [hsplit] at ih ⊢
    split_ifs with hb
    · obtain rfl : b = 47 := by simpa using hb
      rw [← ih]
      rfl
    · have hx : first ++ joinPath rest = x := (List.cons.inj ih).2
      rw [← hx]
      rfl

lemma length_le_of_mem {x segment : Bytes} (h : segment ∈ x.splitOn 47) : segment.length ≤ x.length := by
  obtain ⟨front, back, hsplit⟩ := List.append_of_mem h
  have hx := joinPath_split x
  rw [hsplit, joinPath_append] at hx
  have hlen := congrArg List.length hx
  simp only [joinPath, List.flatMap_cons, List.length_append, List.length_cons] at hlen
  omega

lemma canonicalPath_of_decode {raw : Bytes} {segments : List Bytes} (hlen : raw.length ≤ maxPathBytes)
    (h : decodeRoutePath raw = some segments) : canonicalPath raw = .ok (joinPath segments) ∧ Separate segments := by
  obtain ⟨raws, hraws, hdecode⟩ := Option.bind_eq_some_iff.mp h
  rw [visitSegments.eq_def] at hraws
  split at hraws
  · rename_i rest
    obtain rfl := Option.some.inj hraws
    rw [List.length_cons] at hlen
    obtain ⟨hloop, hsep, hplain⟩ := @canonicalLoop_decoded [] _ _ (List.splitOn_ne_nil _ _) hdecode
      fun raw hraw => (length_le_of_mem hraw).trans (by omega)
    refine ⟨?_, hsep⟩
    have hquery : (47 :: rest).any (fun b => b == 63 || b == 35) = false := by
      rw [List.any_eq_false, ← joinPath_split]
      intro b hb
      obtain ⟨segment, hmem, hb⟩ := List.mem_flatMap.mp hb
      rcases List.mem_cons.mp hb with rfl | hb
      · decide
      · simpa using hplain segment hmem b hb
    simp only [canonicalPath, hquery, List.length_cons, bne_self_eq_false, Bool.false_or, Bool.or_false, decide_eq_true_eq]
    rw [if_neg (by omega)]
    exact hloop
  · cases hraws

lemma canonicalPath_ok {raw path : Bytes} (h : canonicalPath raw = .ok path) :
    ∃ raws parts, visitSegments raw = some raws ∧
      raws.mapM (fun raw => percentDecodeComponent raw false maxPathBytes) = .ok parts ∧ Separate parts ∧
      path = joinPath parts := by
  cases raw with
  | nil => cases h
  | cons first rest =>
    simp only [canonicalPath] at h
    split_ifs at h with hbad
    simp only [Bool.or_eq_true, not_or, bne_iff_ne, ne_eq, not_not] at hbad
    obtain rfl := hbad.1.1
    obtain ⟨parts, hparts, hsep, hpath⟩ := @canonicalLoop_ok [] _ _ (List.splitOn_ne_nil _ _) h
    exact ⟨_, parts, rfl, hparts, hsep, hpath⟩

lemma canonicalPath_long {raw : Bytes} (h : maxPathBytes < raw.length) : canonicalPath raw = .error .invalidFormat := by
  cases raw with
  | nil => rfl
  | cons first rest =>
    rw [canonicalPath, decide_eq_true h]
    simp

end Canonical

namespace HttpPolicyPipeline

lemma evaluateRules_filter (limits : HttpPolicyLimits) (request : HttpRequest) (upgrade : Bool) (path : Bytes)
    (rules : List PipelineRule) (result : HttpPolicyResult) :
    evaluateRules limits request upgrade path rules result =
      evaluateRules limits request upgrade path (rules.filter fun rule => prefixApplies path rule.pathPrefix) result := by
  induction rules generalizing result with
  | nil => rfl
  | cons rule rules ih =>
    cases happlies : prefixApplies path rule.pathPrefix with
    | false =>
      rw [List.filter_cons_of_neg (by simp [happlies]), evaluateRules, happlies, if_neg (by decide), ih]
    | true =>
      rw [List.filter_cons_of_pos (by simpa using happlies), evaluateRules, evaluateRules, happlies, if_pos rfl, if_pos rfl]
      cases rule.step request upgrade with
      | error code => rfl
      | ok value =>
        simp only
        rcases absorb limits result value with _ | ⟨result', _ | _⟩
        · rfl
        · exact ih result'
        · rfl

lemma createRules_prefixes {limits : HttpPolicyLimits} {bytes : ℕ} {given : List HttpPolicyRule} {rules : List PipelineRule}
    (h : createRules limits bytes given = .ok rules) :
    List.Forall₂ (fun (given : HttpPolicyRule) rule => ∃ path, canonicalPath given.pathPrefix = .ok path ∧
      rule.pathPrefix = dropSlash path) given rules := by
  induction given generalizing bytes rules with
  | nil =>
    obtain rfl := Except.ok.inj h
    exact .nil
  | cons rule given ih =>
    rw [createRules] at h
    cases hstep : rule.step with
    | none => simp [hstep] at h
    | some step =>
      cases hpath : canonicalPath rule.pathPrefix with
      | error code => simp [hstep, hpath] at h
      | ok path =>
        simp only [hstep, hpath] at h
        split_ifs at h
        cases hrest : createRules limits (bytes + (dropSlash path).length) given with
        | error code => simp [hrest, Except.map] at h
        | ok rest =>
          rw [hrest] at h
          obtain rfl := Except.ok.inj h
          exact .cons ⟨path, hpath, rfl⟩ (ih hrest)

end HttpPolicyPipeline

open HttpPolicyPipeline

lemma applicable_eq {pipeline : HttpPolicyPipeline} {raw : Bytes} {segments : List Bytes} (hlen : raw.length ≤ maxPathBytes)
    (h : decodeRoutePath raw = some segments) :
    pipeline.applicable raw = pipeline.rules.filter fun rule => prefixApplies (joinPath segments) rule.pathPrefix := by
  rw [applicable, (canonicalPath_of_decode hlen h).1]

end ServerCore.Web
