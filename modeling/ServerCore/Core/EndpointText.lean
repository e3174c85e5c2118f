import ServerCore.Core.Charconv
import ServerCore.Core.Endpoint

/-! `IpAddress::ToString` and its agreement with `IpAddress::Parse`. -/

namespace ServerCore.Core

def wordAt (bytes : Bytes) (index : ℕ) : ℕ :=
  (bytes.getD (index * 2) 0).toNat * 256 + (bytes.getD (index * 2 + 1) 0).toNat

def addressWords (bytes : Bytes) : List ℕ := (List.range 8).map (wordAt bytes)

/-- The search for the longest run of zeros: the words from `index` on and the best so far,
as its start and length. -/
def bestRun : ℕ → ℕ → List ℕ → ℕ × ℕ → ℕ × ℕ
  | 0, _, _, best => best
  | _ + 1, _, [], best => best
  | fuel + 1, index, w :: rest, best =>
    if w ≠ 0 then bestRun fuel (index + 1) rest best
    else
      let length := ((w :: rest).takeWhile (· = 0)).length
      bestRun fuel (index + length) ((w :: rest).drop length)
        (if 2 ≤ length && best.2 < length then (index, length) else best)

def writeWords (best : ℕ × ℕ) : ℕ → ℕ → List ℕ → Bytes → Bytes
  | 0, _, _, result => result
  | _ + 1, _, [], result => result
  | fuel + 1, index, w :: rest, result =>
    if index = best.1 then writeWords best fuel (index + best.2) ((w :: rest).drop best.2) (result ++ [58, 58])
    else
      let result := if result ≠ [] && result.getLast? ≠ some 58 then result ++ [58] else result
      writeWords best fuel (index + 1) rest (result ++ toChars 16 w)

namespace IpAddress

def fromBytes (family : IpFamily) (bytes : Bytes) (scope : ℕ) : Except Status IpAddress :=
  if family = .unspecified || bytes.length ≠ (if family = .v4 then 4 else 16) || (family = .v4 && scope ≠ 0) then
    .error (.failWithoutMessage .invalidArgument)
  else .ok ⟨family, bytes, scope⟩

def toString (address : IpAddress) : Bytes :=
  match address.family with
  | .unspecified => []
  | .v4 => [46].intercalate ((List.range 4).map fun index => toChars 10 (address.bytes.getD index 0).toNat)
  | .v6 =>
    let words := addressWords address.bytes
    writeWords (bestRun 8 0 words (8, 0)) 8 0 words [] ++
      (if address.scopeId ≠ 0 then 37 :: toChars 10 address.scopeId else [])

/-- The values an `IpAddress` takes: the default one and what `FromBytes` builds. -/
def Built (address : IpAddress) : Prop :=
  address = ⟨.unspecified, [], 0⟩ ∨
    ∃ family bytes scope, scope < 2 ^ 32 ∧ fromBytes family bytes scope = .ok address

example : toString ⟨.v6, [0, 0, 0, 0, 0, 1, 0, 0, 0, 0, 0, 0, 0, 0, 0, 10], 7⟩ = ascii "0:0:1::a%7" := by decide

end IpAddress

section Digits

lemma digitChar_ne : ∀ d < 16, digitChar d ≠ 46 ∧ digitChar d ≠ 58 ∧ digitChar d ≠ 37 := by decide

lemma decimal_toChars {limit n : ℕ} (h : n < limit) : decimal limit (toChars 10 n) = some n := by
  have hvalue : decimalValue (toChars 10 n) = n := by
    apply foldl_toChars (by decide)
    exact fun d hd => (digitChar_decimal d hd).2
  have hdigits : (toChars 10 n).all isDigit = true := List.all_eq_true.mpr fun b hb => isDigit_toChars hb
  unfold decimal
  rw [hvalue, if_pos]
  simp [toChars_ne_nil, hdigits, h]

lemma octet_toChars (b : Byte) : octet (toChars 10 b.toNat) = some b := by
  have hlt := b.toNat_lt
  have hlength := @toChars_length_le 10 (by decide) b.toNat 2 (by omega)
  have hlead : ¬(1 < (toChars 10 b.toNat).length ∧ (toChars 10 b.toNat).head? = some 48) := by
    rintro ⟨hlong, hhead⟩
    by_cases hzero : b.toNat = 0
    · rw [hzero, toChars_of_lt (by decide)] at hlong
      exact absurd hlong (by decide)
    · obtain ⟨d, rest, hd, hten, heq⟩ := @toChars_head 10 (by decide) _ hzero
      rw [heq, List.head?_cons, Option.some.injEq] at hhead
      have hdigit := (digitChar_decimal d hten).2
      rw [hhead] at hdigit
      simp at hdigit
      omega
  unfold octet
  rw [if_neg, decimal_toChars hlt]
  · simp
  · simp only [Bool.or_eq_true, decide_eq_true_eq, Bool.and_eq_true, not_or]
    exact ⟨by omega, by simpa using hlead⟩

lemma not_mem_toChars {base : ℕ} (hbase : 2 ≤ base) {c : Byte} (h : ∀ d < base, digitChar d ≠ c) (n : ℕ) :
    c ∉ toChars base n := by
  intro hmem
  obtain ⟨d, hd, heq⟩ := mem_toChars hbase hmem
  exact h d hd heq.symm

lemma group_toChars {w : ℕ} (h : w < 65536) :
    group (toChars 16 w) = some [UInt8.ofNat (w / 256), UInt8.ofNat (w % 256)] := by
  have hlength := @toChars_length_le 16 (by decide) w 3 (by omega)
  have hvalue : hexValue (toChars 16 w) = w := by
    apply foldl_toChars (by decide)
    exact fun d hd => (digitChar_hex d hd).2
  have hdigits : (toChars 16 w).all isHexDigit = true := List.all_eq_true.mpr fun b hb => isHexDigit_toChars hb
  unfold group
  rw [if_neg, hvalue]
  simp only [hdigits, Bool.not_true, Bool.or_false, decide_eq_true_eq]
  omega

end Digits

section FourBytes

lemma v4Loop_join (b : Byte) (rest : List Byte) :
    v4Loop rest.length ([46].intercalate ((b :: rest).map fun b => toChars 10 b.toNat)) = some (b :: rest) := by
  have hdot : ∀ n, (46 : Byte) ∉ toChars 10 n :=
    not_mem_toChars (by decide) fun d hd => (digitChar_ne d (by omega)).1
  induction rest generalizing b with
  | nil =>
    simp only [List.map_cons, List.map_nil, List.intercalate_singleton, List.length_nil]
    rw [v4Loop, if_neg (by simpa using hdot b.toNat), octet_toChars]
    rfl
  | cons c rest ih =>
    have hrest := ih c
    simp only [List.map_cons] at hrest ⊢
    rw [List.intercalate_cons_cons, List.append_assoc, List.singleton_append, List.length_cons, v4Loop,
      findIdx?_mid (hdot b.toNat)]
    simp only [Option.bind_eq_bind, Option.bind_some, List.take_left]
    rw [octet_toChars, ← List.drop_drop, List.drop_left, List.drop_one, List.tail_cons, hrest]
    rfl

lemma four_bytes {bytes : Bytes} (h : bytes.length = 4) : ∃ a b c d, bytes = [a, b, c, d] := by
  match bytes, h with
  | [a, b, c, d], _ => exact ⟨a, b, c, d, rfl⟩

lemma IpAddress.toString_v4 (a b c d : Byte) : toString ⟨.v4, [a, b, c, d], 0⟩ =
    [46].intercalate ([a, b, c, d].map fun b => toChars 10 b.toNat) := rfl

lemma length_intercalate_le {c : Byte} {k : ℕ} {parts : List Bytes} (h : ∀ part ∈ parts, part.length ≤ k) :
    ([c].intercalate parts).length ≤ (k + 1) * parts.length := by
  induction parts with
  | nil => simp
  | cons part parts ih =>
    have hhead := h part List.mem_cons_self
    have htail := ih fun p hp => h p (List.mem_cons_of_mem _ hp)
    cases parts with
    | nil =>
      simp only [List.intercalate_singleton, List.length_singleton]
      omega
    | cons next parts =>
      simp only [List.intercalate_cons_cons, List.length_append, List.length_nil, List.length_cons] at htail ⊢
      rw [Nat.mul_add (k + 1) (parts.length + 1) 1]
      omega

theorem IpAddress.parse_toString_v4 {bytes : Bytes} (h : bytes.length = 4) :
    parse (toString ⟨.v4, bytes, 0⟩) = .ok ⟨.v4, bytes, 0⟩ := by
  obtain ⟨a, b, c, d, rfl⟩ := four_bytes h
  have hparts : ∀ part ∈ [a, b, c, d].map fun b : Byte => toChars 10 b.toNat, part.length ≤ 3 ∧ 58 ∉ part := by
    intro part hpart
    obtain ⟨b, _, rfl⟩ := List.mem_map.mp hpart
    have hlt := b.toNat_lt
    exact ⟨@toChars_length_le 10 (by decide) b.toNat 2 (by omega),
      not_mem_toChars (by decide) (fun d hd => (digitChar_ne d (by omega)).2.1) _⟩
  have hlength := length_intercalate_le (c := 46) fun part hpart => (hparts part hpart).1
  have hcolon : (58 : Byte) ∉ [46].intercalate ([a, b, c, d].map fun b : Byte => toChars 10 b.toNat) :=
    not_mem_intercalate (by decide) fun part hpart => (hparts part hpart).2
  have hread : v4 ([46].intercalate ([a, b, c, d].map fun b : Byte => toChars 10 b.toNat)) = some [a, b, c, d] :=
    v4Loop_join a [b, c, d]
  have hne : [46].intercalate ([a, b, c, d].map fun b : Byte => toChars 10 b.toNat) ≠ [] := by
    intro hnil
    rw [hnil] at hread
    cases hread
  rw [toString_v4]
  unfold parse
  rw [List.length_map] at hlength
  rw [if_neg, if_pos (by simpa using hcolon), hread]
  simp only [hne, decide_false, Bool.false_or, decide_eq_true_eq, List.length_cons, List.length_nil] at hlength ⊢
  omega

end FourBytes

def wordBytes (w : ℕ) : Bytes := [UInt8.ofNat (w / 256), UInt8.ofNat (w % 256)]

def joinWords (ws : List ℕ) : Bytes := [58].intercalate (ws.map (toChars 16))

section WordText

lemma colon_not_mem (w : ℕ) : (58 : Byte) ∉ toChars 16 w :=
  not_mem_toChars (by decide) (fun d hd => (digitChar_ne d hd).2.1) w

lemma joinWords_cons (w v : ℕ) (ws : List ℕ) :
    joinWords (w :: v :: ws) = toChars 16 w ++ 58 :: joinWords (v :: ws) := by
  simp [joinWords, List.intercalate_cons_cons]

lemma joinWords_ne_nil (w : ℕ) (ws : List ℕ) : joinWords (w :: ws) ≠ [] := by
  cases ws with
  | nil => simpa [joinWords] using toChars_ne_nil (by decide) w
  | cons v ws => simp [joinWords_cons]

lemma joinWords_head (w : ℕ) (ws : List ℕ) : ∃ b rest, joinWords (w :: ws) = b :: rest ∧ b ≠ 58 := by
  obtain ⟨b, rest, heq⟩ := List.exists_cons_of_ne_nil (@toChars_ne_nil 16 (by decide) w)
  have hne : b ≠ 58 := by
    rintro rfl
    exact colon_not_mem w (heq ▸ List.mem_cons_self)
  cases ws with
  | nil => exact ⟨b, rest, by simp [joinWords, heq], hne⟩
  | cons v ws => exact ⟨b, rest ++ 58 :: joinWords (v :: ws), by rw [joinWords_cons, heq, List.cons_append], hne⟩

lemma not_mem_joinWords {c : Byte} (hc : c ≠ 58) (hdigit : ∀ d < 16, digitChar d ≠ c) (ws : List ℕ) :
    c ∉ joinWords ws := by
  apply not_mem_intercalate hc
  intro part hpart
  obtain ⟨w, _, rfl⟩ := List.mem_map.mp hpart
  exact not_mem_toChars (by decide) hdigit w

lemma joinWords_length_le {ws : List ℕ} (h : ∀ w ∈ ws, w < 65536) : (joinWords ws).length ≤ 5 * ws.length := by
  have hparts : ∀ part ∈ ws.map (toChars 16), part.length ≤ 4 := by
    intro part hpart
    obtain ⟨w, hw, rfl⟩ := List.mem_map.mp hpart
    exact @toChars_length_le 16 (by decide) w 3 (h w hw)
  have hlength := length_intercalate_le (c := 58) hparts
  rwa [List.length_map] at hlength

lemma wordsLoop_joinWords (allowV4 : Bool) {w : ℕ} {ws : List ℕ} (h : ∀ v ∈ w :: ws, v < 65536) (room : ℕ)
    (hroom : ws.length < room) :
    wordsLoop allowV4 room (joinWords (w :: ws)) = some ((w :: ws).flatMap wordBytes) := by
  have hdot : ∀ n, (toChars 16 n).contains 46 = false := by
    intro n
    apply Bool.eq_false_iff.mpr
    intro hmem
    exact not_mem_toChars (by decide) (fun d hd => (digitChar_ne d hd).1) n (by simpa using hmem)
  induction ws generalizing w room with
  | nil =>
    obtain ⟨room, rfl⟩ : ∃ r, room = r + 1 := ⟨room - 1, by omega⟩
    have htext : joinWords [w] = toChars 16 w := by simp [joinWords]
    rw [htext, wordsLoop, findIdx?_absent (colon_not_mem w)]
    simp only [upTo, @toChars_ne_nil 16 (by decide) w, if_false, hdot, Bool.false_eq_true]
    rw [group_toChars (h w List.mem_cons_self)]
    simp [wordBytes]
  | cons v ws ih =>
    obtain ⟨room, rfl⟩ : ∃ r, room = r + 1 := ⟨room - 1, by omega⟩
    have hrest := ih (fun x hx => h x (List.mem_cons_of_mem _ hx)) room (by simpa using hroom)
    rw [joinWords_cons, wordsLoop, findIdx?_mid (colon_not_mem w)]
    simp only [upTo, List.take_left, @toChars_ne_nil 16 (by decide) w, if_false, hdot,
      Bool.false_eq_true]
    rw [group_toChars (h w List.mem_cons_self), ← List.drop_drop, List.drop_left, List.drop_one, List.tail_cons]
    simp only [joinWords_ne_nil, if_false]
    rw [hrest]
    simp [wordBytes]

lemma words_joinWords (allowV4 : Bool) {ws : List ℕ} (h : ∀ v ∈ ws, v < 65536) (hcount : ws.length ≤ 8) :
    words (joinWords ws) allowV4 = some (ws.flatMap wordBytes) := by
  cases ws with
  | nil => rfl
  | cons w ws =>
    unfold words
    rw [if_neg (joinWords_ne_nil w ws)]
    rw [List.length_cons] at hcount
    exact wordsLoop_joinWords allowV4 h 8 (by omega)

lemma find_double_skip {a : Bytes} (ha : (58 : Byte) ∉ a) (rest : Bytes) :
    find [58, 58] (a ++ rest) = (find [58, 58] rest).map (· + a.length) := by
  induction a with
  | nil => simp
  | cons b a ih =>
    rw [List.mem_cons, not_or] at ha
    rw [List.cons_append, find, if_neg, ih ha.2, Option.map_map]
    · congr 1
    · simpa [List.isPrefixOf] using fun h => absurd h ha.1

lemma find_double_single {b : Byte} (hb : b ≠ 58) (rest : Bytes) :
    find [58, 58] (58 :: b :: rest) = (find [58, 58] (b :: rest)).map (· + 1) := by
  rw [find, if_neg]
  simpa [List.isPrefixOf] using Ne.symm hb

lemma find_double_joinWords (ws : List ℕ) (rest : Bytes) :
    find [58, 58] (joinWords ws ++ 58 :: 58 :: rest) = some (joinWords ws).length := by
  induction ws with
  | nil => rfl
  | cons w ws ih =>
    cases ws with
    | nil =>
      have htext : joinWords [w] = toChars 16 w := by simp [joinWords]
      rw [htext, find_double_skip (colon_not_mem w)]
      simp [find, List.isPrefixOf]
    | cons v ws =>
      obtain ⟨b, tail, heq, hb⟩ := joinWords_head v ws
      rw [joinWords_cons, List.append_assoc, find_double_skip (colon_not_mem w)]
      rw [heq] at ih ⊢
      rw [List.cons_append, List.cons_append, find_double_single hb, ← List.cons_append, ih]
      simp only [Option.map_some, List.length_append, List.length_cons, Option.some.injEq]
      omega

lemma find_double_joinWords_none (ws : List ℕ) : find [58, 58] (joinWords ws) = none := by
  induction ws with
  | nil => rfl
  | cons w ws ih =>
    cases ws with
    | nil =>
      have hskip := find_double_skip (colon_not_mem w) []
      rw [List.append_nil] at hskip
      have htext : joinWords [w] = toChars 16 w := by simp [joinWords]
      rw [htext, hskip]
      rfl
    | cons v ws =>
      obtain ⟨b, tail, heq, hb⟩ := joinWords_head v ws
      rw [joinWords_cons, find_double_skip (colon_not_mem w)]
      rw [heq] at ih ⊢
      rw [find_double_single hb, ih]
      rfl

end WordText

def RunIn (all : List ℕ) (best : ℕ × ℕ) : Prop :=
  best = (8, 0) ∨ ∃ before after, all = before ++ List.replicate best.2 0 ++ after ∧ before.length = best.1 ∧ 2 ≤ best.2

section Runs

lemma takeWhile_zero (words : List ℕ) :
    words.takeWhile (· = 0) = List.replicate (words.takeWhile (· = 0)).length 0 := by
  rw [List.eq_replicate_iff]
  refine ⟨rfl, ?_⟩
  intro w hw
  have hall := List.all_takeWhile (p := fun w => decide (w = 0)) (l := words)
  rw [List.all_eq_true] at hall
  simpa using hall w hw

lemma drop_takeWhile (words : List ℕ) :
    words.takeWhile (· = 0) ++ words.drop (words.takeWhile (· = 0)).length = words := by
  induction words with
  | nil => rfl
  | cons w words ih =>
    by_cases hw : w = 0
    · rw [List.takeWhile_cons_of_pos (by simpa using hw), List.length_cons, List.drop_succ_cons,
        List.cons_append, ih]
    · rw [List.takeWhile_cons_of_neg (by simpa using hw)]
      rfl

lemma bestRun_in (all : List ℕ) (fuel : ℕ) : ∀ (index : ℕ) (words before : List ℕ) (best : ℕ × ℕ),
    all = before ++ words → before.length = index → RunIn all best →
      RunIn all (bestRun fuel index words best) := by
  induction fuel with
  | zero => intro index words before best _ _ hbest; exact hbest
  | succ fuel ih =>
    intro index words before best hall hindex hbest
    cases words with
    | nil => exact hbest
    | cons w rest =>
      rw [bestRun]
      split_ifs with hw
      · apply ih (index + 1) rest (before ++ [w])
        · rw [hall, List.append_assoc, List.singleton_append]
        · rw [List.length_append, List.length_singleton, hindex]
        · exact hbest
      · apply ih _ _ (before ++ (w :: rest).takeWhile (· = 0))
        · rw [hall, List.append_assoc, drop_takeWhile]
        · rw [List.length_append, hindex]
        · split_ifs with hlong
          · simp only [Bool.and_eq_true, decide_eq_true_eq] at hlong
            apply Or.inr
            refine ⟨before, (w :: rest).drop ((w :: rest).takeWhile (· = 0)).length, ?_, hindex, hlong.1⟩
            dsimp only
            rw [← takeWhile_zero, List.append_assoc, drop_takeWhile]
            exact hall
          · exact hbest

end Runs

def colonAfter (result : Bytes) : Bytes := if result ≠ [] && result.getLast? ≠ some 58 then [58] else []

section Writer

lemma colonAfter_word (x : Bytes) (w : ℕ) : colonAfter (x ++ toChars 16 w) = [58] := by
  have hlast : (x ++ toChars 16 w).getLast? ≠ some 58 := by
    intro h
    obtain ⟨front, c, heq⟩ := (toChars 16 w).eq_nil_or_concat'.resolve_left (toChars_ne_nil (by decide) w)
    have hc : c = 58 := by
      rw [heq, ← List.append_assoc, List.getLast?_concat] at h
      simpa using h
    apply colon_not_mem w
    rw [heq, hc]
    simp
  have hne : x ++ toChars 16 w ≠ [] := List.append_ne_nil_of_right_ne_nil x (toChars_ne_nil (by decide) w)
  unfold colonAfter
  rw [if_pos (by simpa only [ne_eq, hne, not_false_eq_true, decide_true, Bool.true_and, decide_eq_true_eq] using hlast)]

lemma writeWords_word (best : ℕ × ℕ) (fuel index w : ℕ) (rest : List ℕ) (result : Bytes) (h : index ≠ best.1) :
    writeWords best (fuel + 1) index (w :: rest) result =
      writeWords best fuel (index + 1) rest (result ++ colonAfter result ++ toChars 16 w) := by
  rw [writeWords, if_neg h]
  unfold colonAfter
  split_ifs <;> simp

lemma writeWords_words (best : ℕ × ℕ) (ws : List ℕ) : ∀ (fuel index w : ℕ) (rest : List ℕ) (result : Bytes),
    (∀ i ≤ ws.length, index + i ≠ best.1) →
      writeWords best (fuel + (ws.length + 1)) index (w :: ws ++ rest) result =
        writeWords best fuel (index + (ws.length + 1)) rest (result ++ colonAfter result ++ joinWords (w :: ws)) := by
  induction ws with
  | nil =>
    intro fuel index w rest result h
    have hhere : index ≠ best.1 := h 0 le_rfl
    rw [List.length_nil, List.cons_append, List.nil_append, writeWords_word best _ _ _ _ _ hhere]
    simp [joinWords]
  | cons v ws ih =>
    intro fuel index w rest result h
    have hhere : index ≠ best.1 := h 0 (Nat.zero_le _)
    have hnext : ∀ i ≤ ws.length, index + 1 + i ≠ best.1 := by
      intro i hi heq
      apply h (i + 1) (by rw [List.length_cons]; omega)
      omega
    rw [List.length_cons, List.cons_append, ← Nat.add_assoc fuel, writeWords_word best _ _ _ _ _ hhere,
      ih fuel (index + 1) v rest _ hnext, colonAfter_word, joinWords_cons]
    congr 1
    · omega
    · simp

lemma writeWords_empty (best : ℕ × ℕ) (fuel index : ℕ) (result : Bytes) :
    writeWords best fuel index [] result = result := by
  cases fuel <;> rfl

lemma colonAfter_nil : colonAfter [] = [] := rfl

lemma colonAfter_double (x : Bytes) : colonAfter (x ++ [58, 58]) = [] := by
  unfold colonAfter
  rw [if_neg]
  simp

lemma writeWords_all {words : List ℕ} (hlength : words.length = 8) :
    writeWords (8, 0) 8 0 words [] = joinWords words := by
  obtain ⟨w, ws, rfl⟩ : ∃ w ws, words = w :: ws := List.exists_cons_of_ne_nil (by rintro rfl; simp at hlength)
  rw [List.length_cons] at hlength
  have hwrite := writeWords_words (8, 0) ws 0 0 w [] [] (by intro i hi; dsimp only; omega)
  rw [Nat.zero_add, hlength, List.append_nil] at hwrite
  rw [hwrite, writeWords_empty, colonAfter_nil]
  simp

lemma writeWords_zeros (best : ℕ × ℕ) (fuel : ℕ) (after : List ℕ) (result : Bytes) (hrun : best.2 ≠ 0)
    (hfuel : after.length ≤ fuel) :
    writeWords best (fuel + 1) best.1 (List.replicate best.2 0 ++ after) result =
      result ++ 58 :: 58 :: joinWords after := by
  obtain ⟨n, hn⟩ := Nat.exists_eq_succ_of_ne_zero hrun
  have hzeros : List.replicate best.2 0 ++ after = 0 :: (List.replicate n 0 ++ after) := by
    rw [hn, List.replicate_succ, List.cons_append]
  have hdrop : (0 :: (List.replicate n 0 ++ after)).drop best.2 = after := by
    rw [← hzeros]
    apply List.drop_left'
    rw [List.length_replicate]
  rw [hzeros, writeWords, if_pos rfl, hdrop]
  cases after with
  | nil => simp [writeWords_empty, joinWords]
  | cons w ws =>
    obtain ⟨k, rfl⟩ := Nat.exists_eq_add_of_le' hfuel
    have hwrite := writeWords_words best ws k (best.1 + best.2) w [] (result ++ [58, 58])
      (by intro i _; omega)
    rw [List.append_nil] at hwrite
    rw [List.length_cons, hwrite, writeWords_empty, colonAfter_double]
    simp

lemma writeWords_run {before after : List ℕ} {best : ℕ × ℕ} (hbefore : before.length = best.1) (hrun : 2 ≤ best.2)
    (hlength : (before ++ List.replicate best.2 0 ++ after).length = 8) :
    writeWords best 8 0 (before ++ List.replicate best.2 0 ++ after) [] =
      joinWords before ++ 58 :: 58 :: joinWords after := by
  simp only [List.length_append, List.length_replicate] at hlength
  cases before with
  | nil =>
    have hstart : best.1 = 0 := hbefore.symm
    have hwrite := writeWords_zeros best 7 after [] (by omega) (by omega)
    rw [hstart] at hwrite
    exact hwrite
  | cons w ws =>
    rw [List.length_cons] at hbefore hlength
    obtain ⟨k, hk⟩ : ∃ k, 8 = k + 1 + (ws.length + 1) := ⟨7 - (ws.length + 1), by omega⟩
    have hwrite := writeWords_words best ws (k + 1) 0 w (List.replicate best.2 0 ++ after) []
      (by intro i hi; omega)
    have hzeros := writeWords_zeros best k after (joinWords (w :: ws)) (by omega) (by omega)
    rw [hk, List.append_assoc, hwrite, Nat.zero_add, hbefore, colonAfter_nil, List.append_nil, List.nil_append]
    exact hzeros

lemma writeWords_text {words : List ℕ} (hlength : words.length = 8) :
    writeWords (bestRun 8 0 words (8, 0)) 8 0 words [] = joinWords words ∨
      ∃ before after n, words = before ++ List.replicate (n + 2) 0 ++ after ∧
        writeWords (bestRun 8 0 words (8, 0)) 8 0 words [] = joinWords before ++ 58 :: 58 :: joinWords after := by
  obtain hnone | ⟨before, after, hwords, hbefore, hrun⟩ := bestRun_in words 8 0 words [] (8, 0) rfl rfl (.inl rfl)
  · rw [hnone]
    exact .inl (writeWords_all hlength)
  · apply Or.inr
    refine ⟨before, after, (bestRun 8 0 words (8, 0)).2 - 2, ?_, ?_⟩
    · rw [Nat.sub_add_cancel hrun]
      exact hwords
    · have hwrite := @writeWords_run before after _ hbefore hrun (by rw [← hwords]; exact hlength)
      rw [← hwords] at hwrite
      exact hwrite

end Writer

section SixteenBytes

lemma wordBytes_pair (a b : Byte) : wordBytes (a.toNat * 256 + b.toNat) = [a, b] := by
  have ha := a.toNat_lt
  have hb := b.toNat_lt
  have hhigh : (a.toNat * 256 + b.toNat) / 256 = a.toNat := by omega
  have hlow : (a.toNat * 256 + b.toNat) % 256 = b.toNat := by omega
  rw [wordBytes, hhigh, hlow, UInt8.ofNat_toNat, UInt8.ofNat_toNat]

lemma sixteen_bytes {bytes : Bytes} (h : bytes.length = 16) : (addressWords bytes).flatMap wordBytes = bytes := by
  match bytes, h with
  | [a₀, b₀, a₁, b₁, a₂, b₂, a₃, b₃, a₄, b₄, a₅, b₅, a₆, b₆, a₇, b₇], _ =>
    have hwords : addressWords [a₀, b₀, a₁, b₁, a₂, b₂, a₃, b₃, a₄, b₄, a₅, b₅, a₆, b₆, a₇, b₇] =
        [a₀.toNat * 256 + b₀.toNat, a₁.toNat * 256 + b₁.toNat, a₂.toNat * 256 + b₂.toNat,
          a₃.toNat * 256 + b₃.toNat, a₄.toNat * 256 + b₄.toNat, a₅.toNat * 256 + b₅.toNat,
          a₆.toNat * 256 + b₆.toNat, a₇.toNat * 256 + b₇.toNat] := rfl
    rw [hwords]
    simp only [List.flatMap_cons, List.flatMap_nil, wordBytes_pair, List.cons_append, List.nil_append]

lemma addressWords_length (bytes : Bytes) : (addressWords bytes).length = 8 := by simp [addressWords]

lemma addressWords_lt (bytes : Bytes) : ∀ w ∈ addressWords bytes, w < 65536 := by
  intro w hw
  obtain ⟨index, _, rfl⟩ := List.mem_map.mp hw
  have ha := (bytes.getD (index * 2) 0).toNat_lt
  have hb := (bytes.getD (index * 2 + 1) 0).toNat_lt
  unfold wordAt
  omega

lemma flatMap_wordBytes_length (ws : List ℕ) : (ws.flatMap wordBytes).length = 2 * ws.length := by
  induction ws with
  | nil => rfl
  | cons w ws ih =>
    rw [List.flatMap_cons, List.length_append, ih, List.length_cons]
    simp only [wordBytes, List.length_cons, List.length_nil]
    omega

lemma flatMap_zeros (n : ℕ) : (List.replicate n 0).flatMap wordBytes = List.replicate (2 * n) 0 := by
  induction n with
  | zero => rfl
  | succ n ih =>
    rw [List.replicate_succ, List.flatMap_cons, ih, Nat.mul_add]
    rfl

lemma v6_joinWords {ws : List ℕ} (h : ∀ w ∈ ws, w < 65536) (hlength : ws.length = 8) :
    v6 (joinWords ws) = some (ws.flatMap wordBytes) := by
  unfold v6
  rw [find_double_joinWords_none]
  simp only [Option.bind_eq_bind]
  rw [words_joinWords true h (by omega), Option.bind_some, if_pos]
  rw [flatMap_wordBytes_length, hlength]

lemma v6_compressed {before after : List ℕ} {n : ℕ} (h : ∀ w ∈ before ++ List.replicate (n + 2) 0 ++ after, w < 65536)
    (hlength : (before ++ List.replicate (n + 2) 0 ++ after).length = 8) :
    v6 (joinWords before ++ 58 :: 58 :: joinWords after) =
      some ((before ++ List.replicate (n + 2) 0 ++ after).flatMap wordBytes) := by
  simp only [List.length_append, List.length_replicate] at hlength
  have hleft : ∀ w ∈ before, w < 65536 := fun w hw => h w (by simp [hw])
  have hright : ∀ w ∈ after, w < 65536 := fun w hw => h w (by simp [hw])
  have hdrop : (joinWords before ++ 58 :: 58 :: joinWords after).drop ((joinWords before).length + 2) =
      joinWords after := by
    rw [← List.drop_drop, List.drop_left]
    rfl
  have hbefore := flatMap_wordBytes_length before
  have hafter := flatMap_wordBytes_length after
  unfold v6
  rw [find_double_joinWords]
  simp only [hdrop, List.take_left, find_double_joinWords_none, Option.isSome_none, Bool.false_eq_true, if_false,
    Option.bind_eq_bind]
  rw [words_joinWords false hleft (by omega), words_joinWords true hright (by omega), Option.bind_some,
    Option.bind_some, if_neg (by omega)]
  have hzeros : 16 - (before.flatMap wordBytes).length - (after.flatMap wordBytes).length = 2 * (n + 2) := by omega
  rw [hzeros, List.flatMap_append, List.flatMap_append, flatMap_zeros]

lemma v6Text_parts (bytes : Bytes) (h : bytes.length = 16) : ∃ body,
    writeWords (bestRun 8 0 (addressWords bytes) (8, 0)) 8 0 (addressWords bytes) [] = body ∧
      v6 body = some bytes ∧ 58 ∈ body ∧ 37 ∉ body ∧ body.length ≤ 42 := by
  have hlt := addressWords_lt bytes
  have hlength := addressWords_length bytes
  have hzone : ∀ d < 16, digitChar d ≠ 37 := fun d hd => (digitChar_ne d hd).2.2
  obtain hall | ⟨before, after, n, hwords, hcompressed⟩ := writeWords_text hlength
  · refine ⟨_, hall, ?_, ?_, not_mem_joinWords (by decide) hzone _, ?_⟩
    · rw [v6_joinWords hlt hlength, sixteen_bytes h]
    · obtain ⟨w, v, ws, hcons⟩ : ∃ w v ws, addressWords bytes = w :: v :: ws := ⟨_, _, _, rfl⟩
      rw [hcons, joinWords_cons]
      simp
    · have := joinWords_length_le hlt
      omega
  · refine ⟨_, hcompressed, ?_, by simp, ?_, ?_⟩
    · rw [hwords] at hlt hlength
      rw [v6_compressed hlt hlength, ← hwords, sixteen_bytes h]
    · simp only [List.mem_append, List.mem_cons, not_or]
      exact ⟨not_mem_joinWords (by decide) hzone _, by decide, by decide, not_mem_joinWords (by decide) hzone _⟩
    · rw [hwords] at hlt hlength
      have hbefore := @joinWords_length_le before fun w hw => hlt w (by simp [hw])
      have hafter := @joinWords_length_le after fun w hw => hlt w (by simp [hw])
      simp only [List.length_append, List.length_replicate, List.length_cons] at hlength ⊢
      omega

theorem IpAddress.parse_toString_v6 {bytes : Bytes} {scope : ℕ} (h : bytes.length = 16) (hscope : scope < 2 ^ 32) :
    parse (toString ⟨.v6, bytes, scope⟩) = .ok ⟨.v6, bytes, scope⟩ := by
  obtain ⟨body, hbody, hread, hcolon, hzone, hlength⟩ := v6Text_parts bytes h
  have hne : body ≠ [] := by
    rintro rfl
    cases hcolon
  have htext : toString ⟨.v6, bytes, scope⟩ = body ++ (if scope ≠ 0 then 37 :: toChars 10 scope else []) := by
    rw [← hbody]
    rfl
  rw [htext]
  unfold parse
  by_cases hzero : scope = 0
  · subst hzero
    have hshort : ¬64 < body.length := by omega
    simp only [ne_eq, not_true_eq_false, if_false, List.append_nil]
    rw [if_neg (by simp [hne, hshort]), if_neg (by simp [hcolon]), findIdx?_absent hzone]
    dsimp only
    rw [hread]
  · have hdigits := @toChars_length_le 10 (by decide) scope 9 (hscope.trans (by decide))
    have hdrop : (body ++ 37 :: toChars 10 scope).drop (body.length + 1) = toChars 10 scope := by
      rw [← List.drop_drop, List.drop_left]
      rfl
    have hlong : ¬64 < (body ++ 37 :: toChars 10 scope).length := by
      rw [List.length_append, List.length_cons]
      omega
    rw [if_pos hzero]
    rw [if_neg (by simpa [hne] using hlong), if_neg (by simp [hcolon]), findIdx?_mid hzone]
    dsimp only
    rw [hdrop, List.take_left, decimal_toChars hscope, hread]

end SixteenBytes

namespace IpAddress

lemma Built.cases {a : IpAddress} (h : a.Built) : a = ⟨.unspecified, [], 0⟩ ∨
    (∃ bytes, bytes.length = 4 ∧ a = ⟨.v4, bytes, 0⟩) ∨
      ∃ bytes scope, bytes.length = 16 ∧ scope < 2 ^ 32 ∧ a = ⟨.v6, bytes, scope⟩ := by
  obtain rfl | ⟨family, bytes, scope, hscope, hbuilt⟩ := h
  · exact .inl rfl
  · unfold fromBytes at hbuilt
    rw [ite_eq_iff] at hbuilt
    obtain ⟨_, herror⟩ | ⟨hbad, hok⟩ := hbuilt
    · cases herror
    · cases hok
      simp only [Bool.or_eq_true, decide_eq_true_eq, Bool.and_eq_true, not_or, not_and, ne_eq,
        Decidable.not_not] at hbad
      obtain ⟨⟨hfamily, hlength⟩, hzone⟩ := hbad
      cases family with
      | unspecified => exact absurd rfl hfamily
      | v4 =>
        obtain rfl := hzone rfl
        exact .inr (.inl ⟨bytes, hlength, rfl⟩)
      | v6 => exact .inr (.inr ⟨bytes, scope, hlength, hscope, rfl⟩)

lemma Built.parse_toString {a : IpAddress} (h : a.Built) (hfamily : a.family ≠ .unspecified) :
    parse a.toString = .ok a := by
  obtain rfl | ⟨bytes, hlength, rfl⟩ | ⟨bytes, scope, hlength, hscope, rfl⟩ := h.cases
  · exact absurd rfl hfamily
  · exact parse_toString_v4 hlength
  · exact parse_toString_v6 hlength hscope

lemma parse_nil : parse [] = .error (.failWithoutMessage .invalidArgument) := rfl

lemma Built.toString_inj {a b : IpAddress} (ha : a.Built) (hb : b.Built) (h : a.toString = b.toString) : a = b := by
  have hnil : ∀ c : IpAddress, c.Built → c.family = .unspecified → c = ⟨.unspecified, [], 0⟩ := by
    intro c hc hfamily
    obtain rfl | ⟨bytes, _, rfl⟩ | ⟨bytes, scope, _, _, rfl⟩ := hc.cases
    · rfl
    · cases hfamily
    · cases hfamily
  have hempty : ∀ c : IpAddress, c.Built → c.family ≠ .unspecified → c.toString ≠ [] := by
    intro c hc hfamily htext
    have hparse := hc.parse_toString hfamily
    rw [htext, parse_nil] at hparse
    cases hparse
  by_cases hfa : a.family = .unspecified
  · obtain rfl := hnil a ha hfa
    by_contra hne
    apply hempty b hb _ h.symm
    intro hfb
    exact hne (hnil b hb hfb).symm
  · by_cases hfb : b.family = .unspecified
    · obtain rfl := hnil b hb hfb
      exact absurd h (hempty a ha hfa)
    · have hparse := ha.parse_toString hfa
      rw [h, hb.parse_toString hfb] at hparse
      cases hparse
      rfl

end IpAddress

end ServerCore.Core
