import ServerCore.Protocol.JsonCompleteness
import ServerCore.Protocol.JsonFailure
import ServerCore.Protocol.JsonMagnitude

/-! The language of `JsonValue::Parse`. -/

namespace ServerCore.Protocol.Json

open ServerCore.Core ServerCore.Foundations

def byteOrderMark : Bytes := [0xEF, 0xBB, 0xBF]

def IsText (t : Tree) (text : Bytes) : Prop :=
  ∃ mark w x w', (mark = [] ∨ mark = byteOrderMark) ∧ text = mark ++ w ++ x ++ w' ∧ Whitespace w ∧
    Spells (.value t) x ∧ Whitespace w'

lemma skipByteOrderMark_split (text : Bytes) :
    ∃ mark, (mark = [] ∨ mark = byteOrderMark) ∧ text = mark ++ skipByteOrderMark text := by
  by_cases h : startsWith text [0xEF, 0xBB, 0xBF] = true
  · obtain ⟨rest, rfl⟩ := List.isPrefixOf_iff_prefix.mp h
    refine ⟨byteOrderMark, .inr rfl, ?_⟩
    rw [skipByteOrderMark, if_pos h]
    rfl
  · exact ⟨[], .inl rfl, by rw [skipByteOrderMark, if_neg h]; rfl⟩

lemma skipByteOrderMark_mark (rest : Bytes) : skipByteOrderMark (byteOrderMark ++ rest) = rest := by
  have h : startsWith (byteOrderMark ++ rest) [0xEF, 0xBB, 0xBF] = true :=
    List.isPrefixOf_iff_prefix.mpr ⟨rest, rfl⟩
  rw [skipByteOrderMark, if_pos h]
  rfl

lemma skipByteOrderMark_of_head {b : Byte} {rest : Bytes} (h : b ≠ 0xEF) :
    skipByteOrderMark (b :: rest) = b :: rest := by
  have hne : ¬ startsWith (b :: rest) [0xEF, 0xBB, 0xBF] = true := by
    simpa [startsWith] using fun h' => absurd h'.symm h
  rw [skipByteOrderMark, if_neg hne]

lemma isWhitespace_ne_mark {b : Byte} (h : isWhitespace b = true) : b ≠ 0xEF := by
  rintro rfl
  cases h

variable {charconv : Charconv}

lemma follows_whitespace {w : Bytes} (h : Whitespace w) : Follows w := by
  intro b hb
  exact .inl (h b (List.mem_of_mem_head? hb))

lemma skipWhitespace_eq_nil {w : Bytes} (h : Whitespace w) : skipWhitespace w = [] := by
  have := skipWhitespace_append h (y := [])
  rwa [List.append_nil] at this

lemma skip_front {mark w x y : Bytes} {t : Tree} (hmark : mark = [] ∨ mark = byteOrderMark) (hw : Whitespace w)
    (hs : Spells (.value t) x) : skipWhitespace (skipByteOrderMark (mark ++ w ++ x ++ y)) = x ++ y := by
  have hskip : skipByteOrderMark (mark ++ w ++ x ++ y) = w ++ (x ++ y) := by
    rcases hmark with rfl | rfl
    · rw [List.nil_append, List.append_assoc]
      cases w with
      | nil =>
        obtain ⟨b, x', rfl, -, -, -, hb⟩ := spells_head hs
        exact skipByteOrderMark_of_head (by rintro rfl; exact absurd hb (by decide))
      | cons b w => exact skipByteOrderMark_of_head (isWhitespace_ne_mark (hw b (by simp)))
    · rw [List.append_assoc, List.append_assoc, skipByteOrderMark_mark]
  rw [hskip, skipWhitespace_spells hw hs]

lemma parseDocument_sound {text : Bytes} {maxValues : ℕ} {v : JsonValue}
    (h : parseDocument charconv text maxValues = .ok v) :
    ∃ t, IsText t text ∧ t.Good charconv ∧ t.depth ≤ maximumJsonNestingDepth ∧ t.value charconv = v := by
  obtain ⟨⟨v', c⟩, hv, h⟩ := bind_eq_ok h
  simp only at h
  split_ifs at h with htail
  obtain rfl := Except.ok.inj h
  obtain ⟨t, x, hx, hs, hg, hd, hval, -⟩ := (parse_sound _).1 _ _ _ _ hv
  obtain ⟨mark, hmark, htext⟩ := skipByteOrderMark_split text
  obtain ⟨w, hw, hsplit⟩ := skipWhitespace_split (skipByteOrderMark text)
  obtain ⟨w', hw', hsplit'⟩ := skipWhitespace_split c.rest
  rw [List.eq_nil_of_length_eq_zero (not_not.mp htail), List.append_nil] at hsplit'
  refine ⟨t, ⟨mark, w, x, w', hmark, ?_, hw, hs, hw'⟩, hg, by omega, hval⟩
  simp only at hx
  rw [htext, hsplit, hx, hsplit']
  simp

lemma parseDocument_ok_iff {text : Bytes} {maxValues : ℕ} (hmax : text.length ≤ maxValues) {v : JsonValue} :
    parseDocument charconv text maxValues = .ok v ↔
      ∃ t, IsText t text ∧ t.Good charconv ∧ t.depth ≤ maximumJsonNestingDepth ∧ t.value charconv = v := by
  constructor
  · exact parseDocument_sound
  · rintro ⟨t, ⟨mark, w, x, w', hmark, rfl, hw, hs, hw'⟩, hg, hd, rfl⟩
    simp only [List.length_append] at hmax
    obtain ⟨remaining, -, hparse⟩ := parse_complete hs hg (3 * (mark ++ w ++ x ++ w').length + 1) 0 maxValues w'
      (by simp only [List.length_append]; omega) (by omega) (by omega) (follows_whitespace hw')
    rw [parseDocument, skip_front hmark hw hs, hparse]
    simp [skipWhitespace_eq_nil hw', bind, Except.bind]

lemma skipByteOrderMark_length (text : Bytes) : (skipByteOrderMark text).length ≤ text.length := by
  obtain ⟨mark, -, h⟩ := skipByteOrderMark_split text
  have := congrArg List.length h
  rw [List.length_append] at this
  omega

lemma parseDocument_settles {text : Bytes} {maxValues : ℕ} (hmax : text.length ≤ maxValues) :
    Settles (parseDocument charconv text maxValues) := by
  have h₁ := skipByteOrderMark_length text
  have h₂ := skipWhitespace_length (skipByteOrderMark text)
  refine ((parse_settles _).1 0 _ (by simp only; omega) (by simp only; omega)).bind ?_
  rintro ⟨v, c⟩ -
  simp only
  split_ifs <;> trivial

lemma parse_cases {text : Bytes} (hlen : text.length < sizeModulus) :
    (∃ v, parse charconv text = .ok v ∧ isValidUtf8 text = true ∧ parseDocument charconv text noValueLimit = .ok v) ∨
    (∃ status, parse charconv text = .error status ∧ status.code = .invalidFormat ∧
      ¬ (isValidUtf8 text = true ∧ ∃ v, parseDocument charconv text noValueLimit = .ok v)) := by
  have hsettles := @parseDocument_settles charconv text noValueLimit (by simp only [noValueLimit]; omega)
  simp only [parse, parseText]
  cases hutf : isValidUtf8 text with
  | false => exact .inr ⟨_, rfl, rfl, by simp⟩
  | true =>
    cases hdoc : parseDocument charconv text noValueLimit with
    | ok v => exact .inl ⟨v, rfl, rfl, rfl⟩
    | error failure =>
      rw [hdoc] at hsettles
      cases failure with
      | format message rest => exact .inr ⟨_, rfl, rfl, by simp⟩
      | valueLimit => exact hsettles.elim
      | outOfFuel => exact hsettles.elim

namespace Tree

def KeysDistinct : Tree → Prop
  | .object members => (members.map fun m => unescape m.1).Nodup
  | _ => True

def SurrogatesPaired : Tree → Prop
  | .string items => surrogatesPaired items = true
  | .object members => ∀ m ∈ members, surrogatesPaired m.1 = true
  | _ => True

def IntegerFits : Tree → Prop
  | .number token => token.IntegerFits
  | _ => True

def RoundsFinite : Tree → Prop
  | .number token => token.RoundsFinite
  | _ => True

def Admissible (t : Tree) : Prop := t.KeysDistinct ∧ t.SurrogatesPaired ∧ t.IntegerFits ∧ t.RoundsFinite

lemma accepted_iff {t : Tree} (h : ∀ token, t = .number token → (token.text.length : ℤ) < exponentLimit) :
    t.Accepted charconv ↔ t.Admissible := by
  cases t with
  | number token =>
    simp only [Accepted, NumberToken.numberValue_ok_iff charconv token (h token rfl), Admissible, KeysDistinct,
      SurrogatesPaired, IntegerFits, RoundsFinite, true_and]
  | object members =>
    simp only [Accepted, Admissible, KeysDistinct, SurrogatesPaired, IntegerFits, RoundsFinite, and_true]
    exact and_comm
  | _ => simp [Accepted, Admissible, KeysDistinct, SurrogatesPaired, IntegerFits, RoundsFinite]

end Tree

def Item.nodes : Item → List Tree
  | .value t => t.nodes
  | .elements ts => Tree.elementNodes ts
  | .members ms => Tree.memberNodes ms

lemma spells_number_length {item : Item} {x : Bytes} (h : Spells item x) {token : NumberToken}
    (ht : Tree.number token ∈ item.nodes) : token.text.length ≤ x.length := by
  induction h with
  | number t =>
    obtain rfl : token = t := by simpa [Item.nodes, Tree.nodes] using ht
    exact le_rfl
  | null | boolean | string => simp [Item.nodes, Tree.nodes] at ht
  | emptyArray | emptyObject => simp [Item.nodes, Tree.nodes, Tree.elementNodes, Tree.memberNodes] at ht
  | array _ _ ih | object _ _ ih =>
    have := ih (by simpa [Item.nodes, Tree.nodes] using ht)
    simp only [List.length_append, List.length_cons]
    omega
  | lastElement _ _ ih | lastMember _ _ _ _ ih =>
    have := ih (by simpa [Item.nodes, Tree.elementNodes, Tree.memberNodes] using ht)
    simp only [List.length_append, List.length_cons]
    omega
  | element _ _ _ _ ih ih' | member _ _ _ _ _ _ ih ih' =>
    simp only [List.length_append, List.length_cons]
    rcases List.mem_append.mp ht with ht | ht
    · have := ih ht
      omega
    · have := ih' ht
      omega

lemma good_iff {t : Tree} {text : Bytes} (h : IsText t text) (hlen : (text.length : ℤ) < exponentLimit) :
    t.Good charconv ↔ ∀ s ∈ t.nodes, s.Admissible := by
  obtain ⟨mark, w, x, w', -, rfl, -, hs, -⟩ := h
  refine forall₂_congr fun s hmem => Tree.accepted_iff ?_
  rintro token rfl
  have := spells_number_length hs hmem
  simp only [List.length_append] at hlen
  omega

/-- `Parse` accepts exactly the UTF-8 texts of RFC 8259 that are nested at most 256 deep and follow the
rules on keys, surrogates and numbers; everything else is an invalid format. The text is shorter than
the largest exponent that the underflow test tells apart. -/
theorem parse_accepts_iff (charconv : Charconv) (text : Bytes) (hlen : (text.length : ℤ) < exponentLimit) :
    ((∃ v, parse charconv text = .ok v) ↔ Utf8 text ∧ ∃ t, IsText t text ∧
      t.depth ≤ maximumJsonNestingDepth ∧ ∀ s ∈ t.nodes, s.Admissible) ∧
    ((¬ ∃ v, parse charconv text = .ok v) →
      ∃ status, parse charconv text = .error status ∧ status.code = .invalidFormat) := by
  have hsize : text.length < sizeModulus := by
    simp only [exponentLimit, sizeModulus] at hlen ⊢
    omega
  have hlanguage : (∃ v, parseDocument charconv text noValueLimit = .ok v) ↔ ∃ t, IsText t text ∧
      t.depth ≤ maximumJsonNestingDepth ∧ ∀ s ∈ t.nodes, s.Admissible := by
    constructor
    · rintro ⟨v, hv⟩
      obtain ⟨t, htext, hgood, hd, -⟩ := (parseDocument_ok_iff (by simp only [noValueLimit]; omega)).mp hv
      exact ⟨t, htext, hd, (good_iff htext hlen).mp hgood⟩
    · rintro ⟨t, htext, hd, hadm⟩
      exact ⟨_, (parseDocument_ok_iff (by simp only [noValueLimit]; omega)).mpr
        ⟨t, htext, (good_iff htext hlen).mpr hadm, hd, rfl⟩⟩
  rw [← isValidUtf8_iff, ← hlanguage]
  rcases @parse_cases charconv text hsize with ⟨v, hok, hutf, hdoc⟩ | ⟨status, herr, hcode, hnot⟩
  · exact ⟨iff_of_true ⟨v, hok⟩ ⟨hutf, v, hdoc⟩, fun h => absurd ⟨v, hok⟩ h⟩
  · refine ⟨iff_of_false ?_ hnot, fun _ => ⟨status, herr, hcode⟩⟩
    rintro ⟨v, hok⟩
    rw [herr] at hok
    cases hok

theorem parse_accepts_array_of_seven :
    ∃ v, parse ⟨fun _ => none, fun _ => true⟩ (ascii "[7]") = .ok v := by
  let seven : NumberToken := ⟨false, [55], none, none, by simp [Digits, isDigit], by simp, by simp, by simp⟩
  refine (parse_accepts_iff _ (ascii "[7]") (by decide)).1.mpr ⟨.ofAll (by decide), .array [.number seven], ?_, ?_, ?_⟩
  · have hs : Spells (.value (.array [.number seven])) (91 :: [] ++ ([55] ++ []) ++ [93]) :=
      .array (by simp [Whitespace]) (.lastElement (.number seven) (by simp [Whitespace]))
    exact ⟨[], [], _, [], .inl rfl, rfl, by simp [Whitespace], hs, by simp [Whitespace]⟩
  · decide
  · simp [Tree.nodes, Tree.elementNodes, Tree.Admissible, Tree.KeysDistinct, Tree.SurrogatesPaired,
      Tree.IntegerFits, Tree.RoundsFinite, NumberToken.IntegerFits, NumberToken.RoundsFinite,
      NumberToken.isInteger, digitsValue, seven]

section FarExponent

lemma toChars_digits (n : ℕ) : Digits (toChars 10 n) :=
  ⟨toChars_ne_nil (by decide) n, fun _ hb => isDigit_toChars hb⟩

lemma digitsValue_toChars (n : ℕ) : digitsValue (toChars 10 n) = n :=
  foldl_toChars (by decide) (fun b => b.toNat - 48) (fun d hd => (digitChar_decimal d hd).2) n

/-- `0.0…01e…` with `n` zeros behind the point and the exponent `n + 400`: the value is `10 ^ 399`. -/
def farToken (n : ℕ) : NumberToken where
  negative := false
  integer := [48]
  fraction := some (List.replicate n 48 ++ [49])
  exponent := some (101, none, toChars 10 (n + 400))
  integer_digits := zero_digits
  no_leading_zero := zero_alone
  fraction_digits := by
    rintro _ ⟨⟩
    refine ⟨by simp, fun b hb => ?_⟩
    rcases List.mem_append.mp hb with hb | hb
    · obtain rfl := List.eq_of_mem_replicate hb
      rfl
    · obtain rfl := List.mem_singleton.mp hb
      rfl
  exponent_digits := by
    rintro _ _ _ ⟨⟩
    exact ⟨.inl rfl, by simp, toChars_digits _⟩

lemma digitsValue_replicate (n : ℕ) : digitsValue (List.replicate n 48) = 0 := by
  induction n with
  | zero => rfl
  | succ n ih =>
    rw [List.replicate_succ, digitsValue_cons, ih]
    simp

lemma farToken_infinite (n : ℕ) : Binary64.infinityBits ≤ (farToken n).parts.bits := by
  have hscale : (farToken n).parts.scale = 399 := by
    simp only [NumberParts.scale, NumberToken.parts, farToken, digitsValue_toChars, Option.getD_some,
      List.length_append, List.length_replicate, List.length_singleton, Bool.false_eq_true, ↓reduceIte]
    omega
  have hdigits : digitsValue ((farToken n).parts.integer ++ (farToken n).parts.fraction) = 1 := by
    simp only [NumberToken.parts, farToken, Option.getD_some]
    rw [digitsValue_append, digitsValue_append, digitsValue_replicate]
    simp [digitsValue]
  rw [NumberParts.bits, NumberParts.numerator, NumberParts.denominator, hscale, hdigits]
  decide +kernel

lemma farToken_below {n : ℕ} (h : exponentLimit ≤ n) : magnitudeBelowOne (farToken n).text = true := by
  have hlead : leadingPower (farToken n).parts = some (-1 - (n : ℤ)) := by
    have hfind : (List.replicate n 48 ++ [49] : Bytes).findIdx? (· ≠ 48) = some n := by
      rw [List.findIdx?_append]
      simp
    simp only [leadingPower, NumberToken.parts, farToken, Option.getD_some, hfind]
    rfl
  simp only [magnitudeBelowOne, splitNumber_text, hlead, saturatedExponent_eq, decide_eq_true_eq]
  simp only [NumberToken.parts, farToken, digitsValue_toChars, Bool.false_eq_true, ↓reduceIte]
  push_cast
  omega

lemma spells_eq_number {t : Tree} {x y : Bytes} {token : NumberToken} (h : Spells (.value t) x)
    (hx : x ++ y = token.text) : ∃ token', t = .number token' ∧ x = token'.text := by
  obtain ⟨b, rest, hb, hdigit⟩ := numberText_head token
  rw [hb] at hx
  have hne (b' : Byte) (hb' : b' ≠ 45 ∧ isDigit b' = false) (tail : Bytes) : b' :: tail ≠ b :: rest := by
    rintro ⟨⟩
    rcases hdigit with rfl | hd
    · exact hb'.1 rfl
    · rw [hb'.2] at hd
      cases hd
  cases h with
  | number token' => exact ⟨token', rfl, rfl⟩
  | null => exact absurd hx (hne 110 (by decide) _)
  | boolean value =>
    cases value with
    | true => exact absurd hx (hne 116 (by decide) _)
    | false => exact absurd hx (hne 102 (by decide) _)
  | string => exact absurd hx (hne 34 (by decide) _)
  | emptyArray => exact absurd hx (hne 91 (by decide) _)
  | array => exact absurd hx (hne 91 (by decide) _)
  | emptyObject => exact absurd hx (hne 123 (by decide) _)
  | object => exact absurd hx (hne 123 (by decide) _)

lemma isText_numberText {t : Tree} {token : NumberToken} (h : IsText t token.text) :
    ∃ token', t = .number token' ∧ token'.text = token.text := by
  obtain ⟨mark, w, x, w', hmark, htext, hw, hs, hw'⟩ := h
  have hnil : Whitespace [] := by simp [Whitespace]
  have hskip : x ++ w' = token.text := by
    have hself := skip_front (y := []) (.inl rfl) hnil (.number token)
    rw [List.nil_append, List.nil_append, List.append_nil, htext, skip_front hmark hw hs] at hself
    rw [hself, htext]
  obtain ⟨token', rfl, rfl⟩ := spells_eq_number hs hskip
  refine ⟨token', rfl, ?_⟩
  have h₁ := scanNumber_complete token' (follows_whitespace hw')
  have h₂ := scanNumber_complete token (follows_whitespace hnil)
  rw [hskip] at h₁
  rw [List.append_nil, h₁] at h₂
  rw [Except.ok.inj h₂, List.append_nil] at hskip
  exact hskip

lemma parse_farToken {n : ℕ} (h : exponentLimit ≤ n) (hsize : (farToken n).text.length < sizeModulus) :
    (∃ v, parse charconv (farToken n).text = .ok v) ∧
    ¬ ∃ t, IsText t (farToken n).text ∧ t.depth ≤ maximumJsonNestingDepth ∧ ∀ s ∈ t.nodes, s.Admissible := by
  have hnil : Whitespace [] := by simp [Whitespace]
  constructor
  · have hutf : isValidUtf8 (farToken n).text = true := (isValidUtf8_iff _).mpr (.ofAscii (farToken n).text_ascii)
    have hvalue : ∃ v, numberValue charconv (farToken n).text = .ok v := by
      rw [NumberToken.numberValue_double charconv (.inl rfl), doubleValue, fromCharsDouble, splitNumber_text]
      simp only [farToken_infinite n, ↓reduceIte]
      exact (convertedValue_none_ok_iff _).mpr (farToken_below h)
    have hdoc : ∃ v, parseDocument charconv (farToken n).text noValueLimit = .ok v := by
      refine ⟨_, (parseDocument_ok_iff (by simp only [noValueLimit]; omega)).mpr
        ⟨.number (farToken n), ⟨[], [], _, [], .inl rfl, ?_, hnil, .number _, hnil⟩, ?_, Nat.zero_le _, rfl⟩⟩
      · simp
      · simpa [Tree.Good, Tree.nodes, Tree.Accepted] using hvalue
    rcases @parse_cases charconv _ hsize with ⟨v, hok, -⟩ | ⟨-, -, -, hnot⟩
    · exact ⟨v, hok⟩
    · exact absurd ⟨hutf, hdoc⟩ hnot
  · rintro ⟨t, htext, -, hadm⟩
    obtain ⟨token, rfl, heq⟩ := isText_numberText htext
    have hparts : token.parts = (farToken n).parts := by rw [← splitNumber_text, heq, splitNumber_text]
    have hint : token.isInteger = false := by
      have h₁ := NumberToken.mark_any token
      rw [heq, NumberToken.mark_any] at h₁
      exact (Bool.not_inj h₁).symm
    have hfinite := (hadm (.number token) (by simp [Tree.nodes])).2.2.2 hint
    rw [hparts] at hfinite
    exact absurd hfinite (not_lt.mpr (farToken_infinite n))

lemma farToken_length (n : ℕ) : (farToken n).text.length ≤ 2 * n + 500 := by
  have := toChars_length_le (by decide) (Nat.lt_pow_self (by decide) : n + 400 < 10 ^ (n + 400))
  simp only [NumberToken.text, farToken, fractionText, exponentText, Bool.false_eq_true, ↓reduceIte,
    List.length_append, List.length_cons, List.length_replicate, List.length_nil, Option.toList_none]
  omega

/-- A text with `10 ^ 17` zeros behind the point is accepted though its value rounds to infinity. -/
theorem parse_accepts_far_exponent :
    (farToken exponentLimit.toNat).text.length < sizeModulus ∧
    (∃ v, parse ⟨fun _ => none, fun _ => true⟩ (farToken exponentLimit.toNat).text = .ok v) ∧
    ¬ ∃ t, IsText t (farToken exponentLimit.toNat).text ∧ t.depth ≤ maximumJsonNestingDepth ∧
      ∀ s ∈ t.nodes, s.Admissible := by
  have hlimit : (exponentLimit.toNat : ℤ) = 100000000000000000 := rfl
  have hsize : (farToken exponentLimit.toNat).text.length < sizeModulus := by
    have := farToken_length exponentLimit.toNat
    simp only [sizeModulus]
    omega
  exact ⟨hsize, parse_farToken (Int.self_le_toNat _) hsize⟩

end FarExponent

end ServerCore.Protocol.Json
