import Mathlib.Data.List.TakeWhile
import ServerCore.Web.TrustedProxy

/-! Where text of unknown origin meets hops that a proxy wrote behind it, `ParseForwarded` either
fails or reads the hops as if they stood alone. -/

namespace ServerCore.Web

open ServerCore.Core

def Closed (text : Bytes) : Prop := ∃ b, text.getLast? = some b ∧ isBlank b = false

def Guarded (text : Bytes) : Prop :=
  ∀ u v, text = u ++ 34 :: v → 34 ∉ u → 92 ∉ u ∧ ∃ c v', v = c :: v' ∧ endsToken c = false

lemma Closed.ne_nil {text : Bytes} (h : Closed text) : text ≠ [] := by
  rintro rfl
  obtain ⟨b, hb, -⟩ := h
  cases hb

lemma Closed.append {y : Bytes} (h : Closed y) (x : Bytes) : Closed (x ++ y) := by
  obtain ⟨b, hb, hblank⟩ := h
  refine ⟨b, ?_, hblank⟩
  rw [List.getLast?_append, hb, Option.some_or]

lemma Closed.cons {y : Bytes} (h : Closed y) (c : Byte) : Closed (c :: y) := h.append [c]

lemma trim_closed {text : Bytes} (h : Closed text) : trim text = text.dropWhile isBlank := by
  obtain ⟨b, hb, hblank⟩ := h
  obtain ⟨front, rfl⟩ := List.getLast?_eq_some_iff.mp hb
  have hdrop : (front ++ [b]).dropWhile isBlank = front.dropWhile isBlank ++ [b] := by
    rw [List.dropWhile_append]
    split_ifs with hempty
    · rw [List.isEmpty_iff.mp hempty, List.dropWhile_cons_of_neg (by simp [hblank]), List.nil_append]
    · rfl
  rw [trim, hdrop, List.reverse_append, List.reverse_singleton, List.singleton_append,
    List.dropWhile_cons_of_neg (by simp [hblank])]
  simp

lemma trim_junction {suffix : Bytes} (h : Closed suffix) (r : Bytes) :
    trim (r ++ 44 :: suffix) = r.dropWhile isBlank ++ 44 :: suffix := by
  rw [trim_closed ((h.cons 44).append r), List.dropWhile_append]
  split_ifs with hempty
  · rw [List.isEmpty_iff.mp hempty, List.dropWhile_cons_of_neg (by decide), List.nil_append]
  · rfl

lemma trim_cons {c : Byte} (h : isBlank c = false) (x : Bytes) : ∃ y, trim (c :: x) = c :: y := by
  rw [trim, List.dropWhile_cons_of_neg (by simp [h]), List.reverse_cons, List.dropWhile_append]
  split_ifs
  · exact ⟨[], by rw [List.dropWhile_cons_of_neg (by simp [h])]; rfl⟩
  · exact ⟨(x.reverse.dropWhile isBlank).reverse, by simp⟩

lemma trim_behind {text w : Bytes} (h : Closed text) (hw : ∀ b ∈ w, isBlank b = true) :
    trim (text ++ w) = trim text := by
  have hne : text.dropWhile isBlank ≠ [] := by
    obtain ⟨b, hb, hblank⟩ := h
    intro hnil
    have := List.dropWhile_eq_nil_iff.mp hnil b (List.mem_of_getLast? hb)
    rw [hblank] at this
    cases this
  have hdrop : (text ++ w).dropWhile isBlank = text.dropWhile isBlank ++ w := by
    rw [List.dropWhile_append, if_neg (by simpa using hne)]
  rw [trim, hdrop, List.reverse_append, List.dropWhile_append_of_pos (by simpa using hw), trim]

lemma quotedLoop_quote {parsed value text rest : Bytes} (h : quotedLoop parsed value = some (text, rest)) :
    34 ∈ value := by
  fun_induction quotedLoop parsed value with
  | case1 => cases h
  | case2 => exact List.mem_cons_self
  | case3 => cases h
  | case4 parsed hq c value hc ih => exact List.mem_cons_of_mem _ (List.mem_cons_of_mem _ (ih h))
  | case5 => cases h
  | case6 parsed c value hq hb hc ih => exact List.mem_cons_of_mem _ (ih h)
  | case7 => cases h

lemma quotedLoop_plain {u v parsed text rest : Bytes} (hq : 34 ∉ u) (hb : 92 ∉ u)
    (h : quotedLoop parsed (u ++ 34 :: v) = some (text, rest)) : rest = v := by
  induction u generalizing parsed with
  | nil =>
    rw [List.nil_append, quotedLoop.eq_def] at h
    simp only [↓reduceIte, Option.some.injEq, Prod.mk.injEq] at h
    exact h.2.symm
  | cons c u ih =>
    rw [List.mem_cons, not_or] at hq hb
    rw [List.cons_append, quotedLoop.eq_def] at h
    simp only [Ne.symm hq.1, Ne.symm hb.1, ↓reduceIte] at h
    split_ifs at h
    exact ih hq.2 hb.2 h

lemma quotedLoop_guarded {suffix : Bytes} (hs : Guarded suffix) {parsed text rest : Bytes}
    (h : quotedLoop parsed suffix = some (text, rest)) : ∃ c rest', rest = c :: rest' ∧ endsToken c = false := by
  obtain ⟨u, v, hsplit, hq⟩ := List.eq_append_cons_of_mem (quotedLoop_quote h)
  obtain ⟨hb, hc⟩ := hs u v hsplit hq
  rw [hsplit] at h
  rwa [quotedLoop_plain hq hb h]

lemma quotedLoop_junction {suffix : Bytes} (hs : Guarded suffix) {parsed r text rest : Bytes}
    (h : quotedLoop parsed (r ++ 44 :: suffix) = some (text, rest)) :
    (∃ r', rest = r' ++ 44 :: suffix ∧ r'.length < r.length) ∨ ∃ c rest', rest = c :: rest' ∧ endsToken c = false := by
  induction hn : r.length using Nat.strong_induction_on generalizing r parsed with
  | _ n ih =>
    have hrec {r₁ parsed₁ : Bytes} (hlt : r₁.length < n)
        (h₁ : quotedLoop parsed₁ (r₁ ++ 44 :: suffix) = some (text, rest)) :
        (∃ r', rest = r' ++ 44 :: suffix ∧ r'.length < n) ∨ ∃ c rest', rest = c :: rest' ∧ endsToken c = false := by
      rcases ih _ hlt h₁ rfl with ⟨r', hr, hr'⟩ | hend
      · exact .inl ⟨r', hr, by omega⟩
      · exact .inr hend
    cases r with
    | nil =>
      rw [List.nil_append, quotedLoop.eq_def] at h
      exact .inr (quotedLoop_guarded hs h)
    | cons c r =>
      rw [List.length_cons] at hn
      rw [List.cons_append, quotedLoop.eq_def] at h
      simp only at h
      split_ifs at h with hquote hslash hc
      · obtain ⟨-, rfl⟩ := Prod.mk.inj (Option.some.inj h)
        exact .inl ⟨r, rfl, by omega⟩
      · cases r with
        | nil => exact .inr (quotedLoop_guarded hs h)
        | cons c' r =>
          rw [List.length_cons] at hn
          simp only [List.cons_append] at h
          split_ifs at h
          exact hrec (by omega) h
      · exact hrec (by omega) h

lemma forwardedValue_junction {suffix : Bytes} (hs : Guarded suffix) {r text rest : Bytes}
    (h : forwardedValue (r ++ 44 :: suffix) = some (text, rest)) :
    (∃ r', rest = r' ++ 44 :: suffix ∧ r'.length ≤ r.length) ∨ ∃ c rest', rest = c :: rest' ∧ endsToken c = false := by
  unfold forwardedValue at h
  split at h
  · next value rest' hvalue =>
    cases r with
    | nil => cases hvalue
    | cons c r =>
      obtain ⟨-, rfl⟩ := List.cons.inj hvalue
      rcases quotedLoop_junction hs h with ⟨r', hr, hlen⟩ | hend
      · exact .inl ⟨r', hr, by simp only [List.length_cons]; omega⟩
      · exact .inr hend
  · have htake : (r ++ 44 :: suffix).takeWhile (fun b => !endsToken b) = r.takeWhile fun b => !endsToken b := by
      rw [List.takeWhile_append]
      split_ifs with hall
      · rw [List.takeWhile_cons_of_neg (by decide), List.append_nil]
        exact (List.takeWhile_prefix _).eq_of_length hall |>.symm
      · rfl
    simp only [htake, Option.ite_none_right_eq_some, Option.some.injEq, Prod.mk.injEq] at h
    obtain ⟨-, -, rfl⟩ := h
    have hle := (List.takeWhile_prefix (l := r) fun b => !endsToken b).length_le
    refine .inl ⟨r.drop (r.takeWhile fun b => !endsToken b).length, ?_, ?_⟩
    · rw [List.drop_append_of_le_length hle]
    · rw [List.length_drop]
      omega

lemma dropBlanks_length (r : Bytes) : (r.dropWhile isBlank).length ≤ r.length := (List.dropWhile_suffix _).length_le

lemma not_isToken_comma {x y : Bytes} : isToken ((trim (x ++ 44 :: y)).map lower) = false := by
  have hmem : (44 : Byte) ∈ trim (x ++ 44 :: y) := by
    have hleft : (44 : Byte) ∈ (x ++ 44 :: y).dropWhile isBlank := by
      rw [List.dropWhile_append]
      split_ifs
      · rw [List.dropWhile_cons_of_neg (by decide)]
        exact List.mem_cons_self
      · simp
    obtain ⟨u, v, huv⟩ := List.append_of_mem hleft
    rw [trim, huv, List.reverse_append, List.reverse_cons, List.append_assoc, List.singleton_append,
      List.mem_reverse, List.dropWhile_append]
    split_ifs
    · rw [List.dropWhile_cons_of_neg (by decide)]
      exact List.mem_cons_self
    · simp
  rw [Bool.eq_false_iff]
  intro htoken
  have := (isToken_iff.mp htoken).2 (lower 44) (List.mem_map_of_mem hmem)
  exact absurd this (by decide)

lemma forwardedPair_junction {suffix : Bytes} (hc : Closed suffix) (hg : Guarded suffix) {names : List Bytes}
    {r name parsed rest : Bytes} (h : forwardedPair names (r ++ 44 :: suffix) = some (name, parsed, rest)) :
    (∃ r', rest = r' ++ 44 :: suffix ∧ r'.length < r.length) ∨ ∃ c rest', rest = c :: rest' ∧ endsToken c = false := by
  simp only [forwardedPair, trim_junction hc] at h
  obtain ⟨equal, hequal, h⟩ := Option.bind_eq_some_iff.mp h
  split_ifs at h with hname
  simp only [Bool.or_eq_true, not_or, Bool.not_eq_true', Bool.not_eq_false] at hname
  have hlt : equal < (r.dropWhile isBlank).length := by
    by_contra hge
    have hne : equal ≠ (r.dropWhile isBlank).length := by
      rintro rfl
      obtain ⟨hbound, hmatch, -⟩ := List.findIdx?_eq_some_iff_getElem.mp hequal
      rw [List.getElem_append_right (le_refl _)] at hmatch
      simp at hmatch
    obtain ⟨k, rfl⟩ : ∃ k, equal = (r.dropWhile isBlank).length + (k + 1) :=
      ⟨equal - (r.dropWhile isBlank).length - 1, by omega⟩
    rw [List.take_length_add_append, List.take_succ_cons, not_isToken_comma] at hname
    cases hname.1
  obtain ⟨⟨text, rest₁⟩, hvalue, h⟩ := Option.bind_eq_some_iff.mp h
  obtain ⟨-, -, rfl⟩ : _ ∧ _ ∧ _ := by simpa using h
  have hr := dropBlanks_length r
  rw [List.drop_append_of_le_length (by omega), trim_junction hc] at hvalue
  have hdrop := dropBlanks_length ((r.dropWhile isBlank).drop (equal + 1))
  rw [List.length_drop] at hdrop
  rcases forwardedValue_junction hg hvalue with ⟨r', rfl, hlen⟩ | ⟨c, rest', rfl, hend⟩
  · refine .inl ⟨r'.dropWhile isBlank, trim_junction hc r', ?_⟩
    have := dropBlanks_length r'
    omega
  · have hblank : isBlank c = false := by
      simp only [endsToken, Bool.or_eq_false_iff, decide_eq_false_iff_not] at hend
      simp [isBlank, hend]
    obtain ⟨y, hy⟩ := trim_cons hblank rest'
    exact .inr ⟨c, y, hy, hend⟩

lemma forwardedHop_junction {suffix : Bytes} (hc : Closed suffix) (hg : Guarded suffix) {names : List Bytes}
    {hop hop' : Hop} {r rest : Bytes} (h : forwardedHop names hop (r ++ 44 :: suffix) = some (hop', rest)) :
    rest = suffix ∨ ∃ r', rest = r' ++ 44 :: suffix := by
  induction hn : r.length using Nat.strong_induction_on generalizing r names hop with
  | _ n ih =>
    rw [forwardedHop.eq_def] at h
    split at h
    · cases h
    · next name parsed rest₁ hpair =>
      rcases forwardedPair_junction hc hg hpair with ⟨r', rfl, hlen⟩ | ⟨c, rest', rfl, hend⟩
      · cases r' with
        | nil =>
          simp only [List.nil_append, ↓reduceIte] at h
          split_ifs at h
          obtain ⟨-, rfl⟩ := Prod.mk.inj (Option.some.inj h)
          exact .inl rfl
        | cons c r' =>
          simp only [List.cons_append] at h
          split_ifs at h with hcomma hblank hsemi
          · obtain ⟨-, rfl⟩ := Prod.mk.inj (Option.some.inj h)
            exact .inr ⟨r', rfl⟩
          · rw [List.length_cons] at hlen
            exact ih r'.length (by omega) h rfl
      · -- nothing may follow the value that the open quote has swallowed
        simp only [endsToken, Bool.or_eq_false_iff, decide_eq_false_iff_not] at hend
        simp [hend] at h

def afterPair (names : List Bytes) (hop : Hop) : Bytes → Option (Hop × Bytes)
  | [] => some (hop, [])
  | delimiter :: rest =>
    if delimiter = 44 then if trim rest = [] then none else some (hop, rest)
    else if delimiter ≠ 59 || rest = [] then none
    else forwardedHop names hop rest

lemma forwardedHop_eq (names : List Bytes) (hop : Hop) (value : Bytes) : forwardedHop names hop value =
    (forwardedPair names value).bind fun r => afterPair (r.1 :: names) (hop.assign r.1 r.2.1) r.2.2 := by
  rw [forwardedHop.eq_def]
  split
  · next h =>
    rw [h]
    rfl
  · next name parsed rest h =>
    have hbind : ((forwardedPair names value).bind fun r => afterPair (r.1 :: names) (hop.assign r.1 r.2.1) r.2.2) =
        afterPair (name :: names) (hop.assign name parsed) rest := by
      rw [h, Option.bind_some]
    rw [hbind]
    cases rest <;> rfl

lemma forwardedHop_trim {names : List Bytes} {hop : Hop} {x y : Bytes} (h : trim x = trim y) :
    forwardedHop names hop x = forwardedHop names hop y := by
  rw [forwardedHop_eq, forwardedHop_eq, forwardedPair, forwardedPair, h]

lemma parseForwarded_mono {m n : ℕ} (hmn : m ≤ n) {value : Bytes} {hops : List Hop}
    (h : parseForwarded m value = .ok hops) : parseForwarded n value = .ok hops := by
  induction m generalizing n value hops with
  | zero =>
    unfold parseForwarded at h ⊢
    split_ifs at h with hnil
    rw [if_pos hnil]
    exact h
  | succ m ih =>
    obtain ⟨k, rfl⟩ : ∃ k, n = k + 1 := ⟨n - 1, by omega⟩
    unfold parseForwarded at h ⊢
    split_ifs at h ⊢ with hnil
    · exact h
    · simp only at h ⊢
      cases hhop : forwardedHop [] ⟨[], [], []⟩ value with
      | none => simp [hhop] at h
      | some r =>
        obtain ⟨hop, rest⟩ := r
        simp only [hhop] at h ⊢
        cases hrest : parseForwarded m rest with
        | error code => simp [hrest, bind, Except.bind] at h
        | ok tail =>
          rw [ih (by omega) hrest]
          rw [hrest] at h
          exact h

lemma parseForwarded_junction {suffix : Bytes} (hc : Closed suffix) (hg : Guarded suffix) {n : ℕ} {r : Bytes}
    {hops : List Hop} (h : parseForwarded n (r ++ 44 :: suffix) = .ok hops) :
    ∃ front tail, hops = front ++ tail ∧ parseForwarded n suffix = .ok tail := by
  induction n generalizing r hops with
  | zero =>
    unfold parseForwarded at h
    rw [if_neg (by simp)] at h
    cases h
  | succ n ih =>
    unfold parseForwarded at h
    rw [if_neg (by simp)] at h
    cases hhop : forwardedHop [] ⟨[], [], []⟩ (r ++ 44 :: suffix) with
    | none => simp [hhop] at h
    | some result =>
      obtain ⟨hop, rest⟩ := result
      simp only [hhop] at h
      cases hrest : parseForwarded n rest with
      | error code => simp [hrest, bind, Except.bind] at h
      | ok more =>
        rw [hrest] at h
        obtain rfl := Except.ok.inj h
        rcases forwardedHop_junction hc hg hhop with rfl | ⟨r', rfl⟩
        · exact ⟨[hop], more, rfl, parseForwarded_mono (Nat.le_succ n) hrest⟩
        · obtain ⟨front, tail, rfl, htail⟩ := ih hrest
          exact ⟨hop :: front, tail, rfl, parseForwarded_mono (Nat.le_succ n) htail⟩

lemma parseForwarded_trim {x y : Bytes} (hx : x ≠ []) (hy : y ≠ []) (h : trim x = trim y) (n : ℕ) :
    parseForwarded n x = parseForwarded n y := by
  unfold parseForwarded
  rw [if_neg hx, if_neg hy, forwardedHop_trim h]

end ServerCore.Web
