import ServerCore.Protocol.JsonDump
import ServerCore.Protocol.JsonLanguage

/-! `Parse` undoes `Dump`: the text of a value spells a tree whose value is the value again. -/

namespace ServerCore.Protocol

open ServerCore.Core ServerCore.Foundations

namespace JsonValue

mutual

def reparsed : JsonValue → JsonValue
  | .int64 value => if 0 ≤ value.toInt then .uint64 (UInt64.ofNat value.toInt.toNat) else .int64 value
  | .array elements => .array (reparsedElements elements)
  | .object members => .object (reparsedMembers members)
  | leaf => leaf

def reparsedElements : List JsonValue → List JsonValue
  | [] => []
  | v :: rest => reparsed v :: reparsedElements rest

def reparsedMembers : List (Bytes × JsonValue) → List (Bytes × JsonValue)
  | [] => []
  | (key, v) :: rest => (key, reparsed v) :: reparsedMembers rest

end

lemma reparsedMembers_eq (ms : List (Bytes × JsonValue)) :
    reparsedMembers ms = ms.map fun m => (m.1, m.2.reparsed) := by
  induction ms with
  | nil => rfl
  | cons m ms ih => rw [reparsedMembers, ih, List.map_cons]

end JsonValue

namespace Json

variable {charconv : Charconv}

section Strings

lemma controlHex {n : ℕ} (h : n < 32) : isHexDigit (digitChar (n >>> 4)) = true ∧
    isHexDigit (digitChar (n &&& 0x0F)) = true ∧
    StringItem.hex4 48 48 (digitChar (n >>> 4)) (digitChar (n &&& 0x0F)) = n := by
  have hall : ∀ m < 32, isHexDigit (digitChar (m >>> 4)) = true ∧
      isHexDigit (digitChar (m &&& 0x0F)) = true ∧
      StringItem.hex4 48 48 (digitChar (m >>> 4)) (digitChar (m &&& 0x0F)) = m := by decide
  exact hall n h

lemma escapeByte_item (b : Byte) : ∃ item : StringItem, item.text = escapeByte b ∧
    ∀ rest, surrogatesPaired (item :: rest) = surrogatesPaired rest ∧ unescape (item :: rest) = b :: unescape rest := by
  have hescape (letter : Byte) (hl : simpleEscape letter = some b) (ht : [92, letter] = escapeByte b) :
      ∃ item : StringItem, item.text = escapeByte b ∧
        ∀ rest, surrogatesPaired (item :: rest) = surrogatesPaired rest ∧ unescape (item :: rest) = b :: unescape rest :=
    ⟨.escape letter b hl, ht, fun rest => ⟨surrogatesPaired_escape, by rw [unescape]⟩⟩
  by_cases h34 : b = 34
  · subst h34; exact hescape 34 rfl rfl
  by_cases h92 : b = 92
  · subst h92; exact hescape 92 rfl rfl
  by_cases h8 : b = 8
  · subst h8; exact hescape 98 rfl rfl
  by_cases h12 : b = 12
  · subst h12; exact hescape 102 rfl rfl
  by_cases h10 : b = 10
  · subst h10; exact hescape 110 rfl rfl
  by_cases h13 : b = 13
  · subst h13; exact hescape 114 rfl rfl
  by_cases h9 : b = 9
  · subst h9; exact hescape 116 rfl rfl
  by_cases hlow : b < 0x20
  · -- the other control characters are written as a code unit
    have hn : b.toNat < 32 := UInt8.lt_iff_toNat_lt.mp hlow
    obtain ⟨h₁, h₂, hhex⟩ := controlHex hn
    have hnot : isHighSurrogate b.toNat = false := by
      simp only [isHighSurrogate, Bool.and_eq_false_iff, decide_eq_false_iff_not]
      omega
    have hnot' : isLowSurrogate b.toNat = false := by
      simp only [isLowSurrogate, Bool.and_eq_false_iff, decide_eq_false_iff_not]
      omega
    refine ⟨.unicode 48 48 (digitChar (b.toNat >>> 4)) (digitChar (b.toNat &&& 0x0F)) ?_, ?_, fun rest => ⟨?_, ?_⟩⟩
    · simp only [List.forall_mem_cons]
      exact ⟨rfl, rfl, h₁, h₂, by simp⟩
    · simp [StringItem.text, escapeByte, h34, h92, h8, h12, h10, h13, h9, hlow]
    · rw [surrogatesPaired_unicode (by rw [hhex, hnot]), hhex, hnot']
      simp
    · rw [unescape_unicode (by rw [hhex, hnot]), hhex, appendUtf8_ascii (UInt8.lt_trans hlow (by decide))]
      rfl
  · have hprint : 0x20 ≤ b := UInt8.not_lt.mp hlow
    refine ⟨.raw b hprint h34 h92, ?_, fun rest => ⟨surrogatesPaired_raw, by rw [unescape]⟩⟩
    simp [StringItem.text, escapeByte, h34, h92, h8, h12, h10, h13, h9, hlow]

lemma dumpEscapedString_items (text : Bytes) : ∃ items, stringText items = dumpEscapedString text ∧
    surrogatesPaired items = true ∧ unescape items = text := by
  have h : ∃ items : List StringItem, items.flatMap StringItem.text = text.flatMap escapeByte ∧
      surrogatesPaired items = true ∧ unescape items = text := by
    induction text with
    | nil => exact ⟨[], rfl, by rw [surrogatesPaired], by rw [unescape]⟩
    | cons b text ih =>
      obtain ⟨items, htext, hp, hu⟩ := ih
      obtain ⟨item, hitem, hrest⟩ := escapeByte_item b
      refine ⟨item :: items, ?_, ?_, ?_⟩
      · rw [List.flatMap_cons, List.flatMap_cons, hitem, htext]
      · rw [(hrest items).1, hp]
      · rw [(hrest items).2, hu]
  obtain ⟨items, htext, hp, hu⟩ := h
  exact ⟨items, by rw [stringText, htext, dumpEscapedString], hp, hu⟩

lemma escapeByte_ascii {b : Byte} (h : b < 0x80) : ∀ b' ∈ escapeByte b, b' < 0x80 := by
  have hall : ∀ n < 128, (escapeByte (UInt8.ofNat n)).all (· < 0x80) = true := by decide +kernel
  have := hall b.toNat (UInt8.lt_iff_toNat_lt.mp h)
  rw [UInt8.ofNat_toNat] at this
  simpa using this

lemma escapeByte_other {b : Byte} (h : 0x80 ≤ b) : escapeByte b = [b] := by
  have hn : 128 ≤ b.toNat := UInt8.le_iff_toNat_le.mp h
  have hne (c : Byte) (hc : c.toNat < 128) : b ≠ c := by
    rintro rfl
    omega
  have hlow : ¬ b < 0x20 := by
    rw [UInt8.lt_iff_toNat_lt]
    simp only [UInt8.reduceToNat]
    omega
  simp [escapeByte, hne 34 (by decide), hne 92 (by decide), hne 8 (by decide), hne 12 (by decide),
    hne 10 (by decide), hne 13 (by decide), hne 9 (by decide), hlow]

lemma dumpEscapedString_utf8 {text : Bytes} (h : Utf8 text) : Utf8 (dumpEscapedString text) := by
  have hbody := h.flatMap (f := escapeByte) (fun b hb => escapeByte_ascii hb) (fun b hb => escapeByte_other hb)
  have hquote : Utf8 [34] := .ofAll (by decide)
  exact (hquote.append hbody).append hquote

end Strings

section Numbers

lemma toChars_zero_head {n : ℕ} (h : (toChars 10 n).head? = some 48) : toChars 10 n = [48] := by
  rcases Nat.eq_zero_or_pos n with rfl | hn
  · rfl
  · obtain ⟨d, rest, hd, hten, heq⟩ := @toChars_head 10 (by decide) n hn.ne'
    rw [heq, List.head?_cons, Option.some.injEq] at h
    have hdigit := (digitChar_decimal d hten).2
    rw [h] at hdigit
    simp at hdigit
    omega

def integerToken (n : ℤ) : NumberToken where
  negative := decide (n < 0)
  integer := toChars 10 n.natAbs
  fraction := none
  exponent := none
  integer_digits := toChars_digits _
  no_leading_zero := toChars_zero_head
  fraction_digits := by simp
  exponent_digits := by simp

lemma integerToken_text (n : ℤ) : (integerToken n).text = toCharsInteger n := by
  simp only [NumberToken.text, integerToken, toCharsInteger, fractionText, exponentText, decide_eq_true_eq]
  split_ifs <;> simp

lemma toCharsInteger_ne_minusZero (n : ℤ) : (integerToken n).text ≠ [45, 48] := by
  rw [integerToken_text, toCharsInteger]
  intro h
  split_ifs at h with hn
  · have hv := congrArg digitsValue (List.cons.inj h).2
    rw [digitsValue_toChars] at hv
    simp only [digitsValue, List.foldl_cons, List.foldl_nil, UInt8.reduceToNat] at hv
    omega
  · obtain ⟨b, rest, hcons, hb⟩ := (toChars_digits n.natAbs).cons
    rw [hcons] at h
    obtain rfl := (List.cons.inj h).1
    simp [isDigit] at hb

lemma numberValue_uint64 (value : UInt64) :
    numberValue charconv (integerToken value.toNat).text = .ok (.uint64 value) := by
  have hlt := value.toNat_lt
  rw [NumberToken.numberValue_integer charconv rfl (toCharsInteger_ne_minusZero _)]
  simp only [integerToken, digitsValue_toChars, Int.natAbs_natCast, hlt, ↓reduceIte, decide_eq_true_eq,
    UInt64.ofNat_toNat]
  rw [if_neg (by omega)]

lemma numberValue_int64 (value : Int64) :
    numberValue charconv (integerToken value.toInt).text = .ok (JsonValue.int64 value).reparsed := by
  have hlo := value.le_toInt
  have hhi := value.toInt_lt
  rw [NumberToken.numberValue_integer charconv rfl (toCharsInteger_ne_minusZero _)]
  simp only [integerToken, digitsValue_toChars, decide_eq_true_eq, JsonValue.reparsed]
  by_cases hneg : value.toInt < 0
  · have habs : value.toInt.natAbs ≤ 2 ^ 63 := by omega
    have hback : -(value.toInt.natAbs : ℤ) = value.toInt := by omega
    simp only [hneg, habs, hback, ↓reduceIte, Int64.ofInt_toInt, not_le.mpr hneg]
  · have habs : value.toInt.natAbs < 2 ^ 64 := by omega
    have hback : value.toInt.natAbs = value.toInt.toNat := by omega
    simp only [hneg, not_lt.mp hneg, ↓reduceIte]
    rw [if_pos habs, hback]

def withPoint (t : NumberToken) : NumberToken where
  negative := t.negative
  integer := t.integer
  fraction := some [48]
  exponent := none
  integer_digits := t.integer_digits
  no_leading_zero := t.no_leading_zero
  fraction_digits := by
    rintro _ ⟨⟩
    exact ⟨by simp, by simp [isDigit]⟩
  exponent_digits := by simp

lemma withPoint_text {t : NumberToken} (h : t.isInteger = true) : (withPoint t).text = t.text ++ ascii ".0" := by
  rw [NumberToken.text_of_isInteger h]
  simp only [NumberToken.text, withPoint, fractionText, exponentText, List.append_nil]
  rfl

lemma integer_parts {t : NumberToken} (h : t.isInteger = true) :
    t.parts.numerator = digitsValue t.integer ∧ t.parts.denominator = 1 := by
  simp only [NumberToken.isInteger, Bool.and_eq_true, Option.isNone_iff_eq_none] at h
  simp [NumberParts.numerator, NumberParts.denominator, NumberParts.scale, NumberToken.parts, h.1, h.2, digitsValue]

lemma withPoint_parts (t : NumberToken) :
    (withPoint t).parts.numerator = digitsValue t.integer * 10 ∧ (withPoint t).parts.denominator = 10 := by
  simp [NumberParts.numerator, NumberParts.denominator, NumberParts.scale, NumberToken.parts, withPoint,
    digitsValue]

lemma fromCharsDouble_withPoint {t : NumberToken} (h : t.isInteger = true) {bits : UInt64}
    (hbits : fromCharsDouble charconv t.text = some bits) :
    fromCharsDouble charconv (withPoint t).text = some bits := by
  obtain ⟨hn, hd⟩ := integer_parts h
  obtain ⟨hn', hd'⟩ := withPoint_parts t
  have hsame : (withPoint t).parts.bits = t.parts.bits := by
    rw [NumberParts.bits, NumberParts.bits, hn, hd, hn', hd']
    exact Binary64.magnitudeBits_mul (digitsValue t.integer) 1 (by decide)
  have hneg : (withPoint t).parts.negative = t.parts.negative := rfl
  have hnormal : digitsValue t.integer ≠ 0 → ¬ t.parts.bits < Binary64.normalBits := by
    intro hne
    rw [NumberParts.bits, hn, hd, not_lt]
    exact Binary64.magnitudeBits_normal (by decide) (Nat.one_le_iff_ne_zero.mpr hne)
  have hunder (token : Bytes) : ¬ (digitsValue t.integer ≠ 0 ∧ t.parts.bits < Binary64.normalBits ∧
      charconv.reportsUnderflow token = true) := fun h => hnormal h.1 h.2.1
  have hunder' (token : Bytes) : ¬ (digitsValue t.integer * 10 ≠ 0 ∧ t.parts.bits < Binary64.normalBits ∧
      charconv.reportsUnderflow token = true) := fun h => hnormal (by omega) h.2.1
  rw [fromCharsDouble, splitNumber_text] at hbits ⊢
  simp only [hn, hunder, ↓reduceIte] at hbits
  simp only [hsame, hneg, hn', hunder', ↓reduceIte]
  exact hbits

lemma dumpNumber_token (hconv : Charconv.RoundTrips charconv) {bits : UInt64} {x : Bytes}
    (h : dumpNumber charconv bits = .ok x) :
    ∃ t : NumberToken, t.text = x ∧ numberValue charconv t.text = .ok (.number bits) := by
  have hf := (dumpNumber_ok_iff hconv bits).mp ⟨x, h⟩
  obtain ⟨token, hchars, hback⟩ := hconv bits hf
  have hvalue {t : NumberToken} (ht : t.isInteger = false) (hb : fromCharsDouble charconv t.text = some bits) :
      numberValue charconv t.text = .ok (.number bits) := by
    rw [NumberToken.numberValue_double charconv (.inl ht), doubleValue, hb]
    exact convertedValue_some hf
  simp only [dumpNumber, hf, hchars, NumberToken.mark_any, Bool.not_true, Bool.false_eq_true, ↓reduceIte] at h
  cases hint : token.isInteger with
  | false =>
    simp only [hint, Bool.not_false, ↓reduceIte] at h
    exact ⟨token, Except.ok.inj h, hvalue hint hback⟩
  | true =>
    simp only [hint, Bool.not_true, Bool.false_eq_true, ↓reduceIte] at h
    refine ⟨withPoint token, ?_, hvalue rfl (fromCharsDouble_withPoint hint hback)⟩
    rw [withPoint_text hint, Except.ok.inj h]

end Numbers

def Writes (charconv : Charconv) (v : JsonValue) (x : Bytes) : Prop :=
  Utf8 x ∧ ∃ t, Spells (.value t) x ∧ t.Good charconv ∧ t.depth = v.depth ∧ t.value charconv = v.reparsed

lemma writes_number {v : JsonValue} {t : NumberToken} (hd : v.depth = 0)
    (h : numberValue charconv t.text = .ok v.reparsed) : Writes charconv v t.text := by
  refine ⟨.ofAscii t.text_ascii, .number t, .number t, ?_, hd.symm, ?_⟩
  · simpa [Tree.Good, Tree.nodes, Tree.Accepted] using ⟨_, h⟩
  · rw [Tree.value, h]
    rfl

lemma writes_elements {vs : List JsonValue} {depth : ℕ} {body : Bytes} (hne : vs ≠ [])
    (hwrites : ∀ v ∈ vs, ∀ x, dumpValue charconv depth v = .ok x → Writes charconv v x)
    (h : joinTexts (vs.map (dumpValue charconv depth)) = .ok body) :
    Utf8 body ∧ ∃ ts, Spells (.elements ts) body ∧ (∀ t ∈ ts, t.Good charconv) ∧
      Tree.elementDepth ts = JsonValue.elementDepth vs ∧
      Tree.elementValues charconv ts = JsonValue.reparsedElements vs := by
  have hnil : Whitespace [] := by simp [Whitespace]
  have hspace : Whitespace [32] := by simp [Whitespace, isWhitespace]
  induction vs generalizing body with
  | nil => exact absurd rfl hne
  | cons v vs ih =>
    rw [List.forall_mem_cons] at hwrites
    cases vs with
    | nil =>
      obtain ⟨hutf, t, hs, hg, hd, hv⟩ := hwrites.1 body h
      refine ⟨hutf, [t], ?_, by simpa using hg, ?_, ?_⟩
      · simpa using Spells.lastElement hs hnil
      · simp [Tree.elementDepth, JsonValue.elementDepth, hd]
      · simp [Tree.elementValues, JsonValue.reparsedElements, hv]
    | cons v' vs =>
      obtain ⟨head, hhead, h⟩ := bind_eq_ok h
      obtain ⟨tail, htail, h⟩ := bind_eq_ok h
      obtain rfl := Except.ok.inj h
      obtain ⟨hutf, t, hs, hg, hd, hv⟩ := hwrites.1 head hhead
      obtain ⟨hutf', ts, hs', hg', hd', hv'⟩ := ih (by simp) hwrites.2 htail
      refine ⟨(hutf.append (.ofAll (by decide))).append hutf', t :: ts, ?_, List.forall_mem_cons.mpr ⟨hg, hg'⟩, ?_, ?_⟩
      · have hcomma : ascii ", " = 44 :: [32] := rfl
        have := Spells.element hs hnil hspace hs'
        simpa [hcomma] using this
      · rw [Tree.elementDepth, JsonValue.elementDepth, hd, hd']
      · rw [Tree.elementValues, JsonValue.reparsedElements, hv, hv']

lemma writes_member {key value : Bytes} {v : JsonValue} (hkey : Utf8 key) (h : Writes charconv v value) :
    Utf8 (dumpEscapedString key ++ ascii ": " ++ value) ∧ ∃ items t, surrogatesPaired items = true ∧ unescape items = key ∧
      Spells (.value t) value ∧ t.Good charconv ∧ t.depth = v.depth ∧ t.value charconv = v.reparsed ∧
      dumpEscapedString key ++ ascii ": " ++ value = stringText items ++ [] ++ 58 :: [32] ++ value ++ [] := by
  obtain ⟨hutf, t, hs, hg, hd, hv⟩ := h
  obtain ⟨items, htext, hp, hu⟩ := dumpEscapedString_items key
  refine ⟨((dumpEscapedString_utf8 hkey).append (.ofAll (by decide))).append hutf, items, t, hp, hu, hs, hg, hd, hv, ?_⟩
  rw [htext]
  simp
  rfl

lemma writes_members {ms : List (Bytes × JsonValue)} {depth : ℕ} {body : Bytes} (hne : ms ≠ [])
    (hkeys : ∀ m ∈ ms, Utf8 m.1)
    (hwrites : ∀ m ∈ ms, ∀ x, dumpValue charconv depth m.2 = .ok x → Writes charconv m.2 x)
    (h : joinTexts ((ms.map fun m => (m.1, dumpValue charconv depth m.2)).map memberText) = .ok body) :
    Utf8 body ∧ ∃ ts, Spells (.members ts) body ∧ (∀ t ∈ ts, surrogatesPaired t.1 = true ∧ t.2.Good charconv) ∧
      Tree.memberDepth ts = JsonValue.memberDepth ms ∧
      Tree.memberValues charconv ts = JsonValue.reparsedMembers ms := by
  have hnil : Whitespace [] := by simp [Whitespace]
  have hspace : Whitespace [32] := by simp [Whitespace, isWhitespace]
  induction ms generalizing body with
  | nil => exact absurd rfl hne
  | cons m ms ih =>
    obtain ⟨key, v⟩ := m
    rw [List.forall_mem_cons] at hkeys hwrites
    cases ms with
    | nil =>
      obtain ⟨value, hvalue, hbody⟩ := bind_eq_ok h
      obtain rfl := Except.ok.inj hbody
      obtain ⟨hutf, items, t, hp, hu, hs, hg, hd, hv, htext⟩ := writes_member hkeys.1 (hwrites.1 value hvalue)
      refine ⟨hutf, [(items, t)], ?_, by simpa using ⟨hp, hg⟩, ?_, ?_⟩
      · rw [htext]
        exact .lastMember hnil hspace hs hnil
      · simp [Tree.memberDepth, JsonValue.memberDepth, hd]
      · simp [Tree.memberValues, JsonValue.reparsedMembers, hv, hu]
    | cons m' ms =>
      obtain ⟨head, hhead, h⟩ := bind_eq_ok h
      obtain ⟨tail, htail, h⟩ := bind_eq_ok h
      obtain rfl := Except.ok.inj h
      obtain ⟨value, hvalue, hbody⟩ := bind_eq_ok hhead
      obtain rfl := Except.ok.inj hbody
      obtain ⟨hutf, items, t, hp, hu, hs, hg, hd, hv, htext⟩ := writes_member hkeys.1 (hwrites.1 value hvalue)
      obtain ⟨hutf', ts, hs', hg', hd', hv'⟩ := ih (by simp) hkeys.2 hwrites.2 htail
      refine ⟨(hutf.append (.ofAll (by decide))).append hutf', (items, t) :: ts, ?_,
        List.forall_mem_cons.mpr ⟨⟨hp, hg⟩, hg'⟩, ?_, ?_⟩
      · have hcomma : ascii ", " = 44 :: [32] := rfl
        have : Spells (.members ((items, t) :: ts)) _ := .member hnil hspace hs hnil hspace hs'
        simp only [htext, hcomma]
        simpa using this
      · rw [Tree.memberDepth, JsonValue.memberDepth, hd, hd']
      · rw [Tree.memberValues, JsonValue.reparsedMembers, hv, hv', hu]

lemma writes_array {vs : List JsonValue} {depth : ℕ} {x : Bytes}
    (hwrites : ∀ v ∈ vs, ∀ x, dumpValue charconv depth v = .ok x → Writes charconv v x)
    (h : dumpArray (vs.map (dumpValue charconv depth)) = .ok x) : Writes charconv (.array vs) x := by
  have hnil : Whitespace [] := by simp [Whitespace]
  obtain ⟨body, hbody, h⟩ := bind_eq_ok h
  obtain rfl := Except.ok.inj h
  cases vs with
  | nil =>
    obtain rfl := Except.ok.inj hbody
    exact ⟨.ofAll (by decide), .array [], .emptyArray hnil, Tree.good_array.mpr (by simp), rfl, rfl⟩
  | cons v vs =>
    obtain ⟨hutf, ts, hs, hg, hd, hv⟩ := writes_elements (by simp) hwrites hbody
    have hopen : Utf8 [91] := .ofAll (by decide)
    refine ⟨(hopen.append hutf).append (.ofAll (by decide)), .array ts, .array hnil hs, Tree.good_array.mpr hg, ?_, ?_⟩
    · rw [Tree.depth, JsonValue.depth, hd]
    · rw [Tree.value, JsonValue.reparsed, hv]

lemma writes_object {ms : List (Bytes × JsonValue)} {depth : ℕ} {x : Bytes} (hsorted : OrderedMap.Sorted ms)
    (hwrites : ∀ m ∈ ms, ∀ x, dumpValue charconv depth m.2 = .ok x → Writes charconv m.2 x)
    (h : dumpObject (ms.map fun m => (m.1, dumpValue charconv depth m.2)) = .ok x) :
    Writes charconv (.object ms) x := by
  have hnil : Whitespace [] := by simp [Whitespace]
  have hkeys : ∀ m ∈ ms, Utf8 m.1 := by
    have hall := dumpObject_ok_iff.mp ⟨x, h⟩
    rw [List.forall_mem_map] at hall
    exact fun m hm => (hall m hm).1
  have hsort : (ms.map fun m => (m.1, dumpValue charconv depth m.2)).mergeSort (fun l r => l.1 ≤ r.1) =
      ms.map fun m => (m.1, dumpValue charconv depth m.2) := by
    refine List.mergeSort_of_pairwise (List.pairwise_map.mpr (hsorted.imp fun hlt => ?_))
    exact decide_eq_true (List.le_of_lt hlt)
  rw [dumpObject] at h
  split_ifs at h
  obtain ⟨body, hbody, h⟩ := bind_eq_ok h
  obtain rfl := Except.ok.inj h
  rw [hsort] at hbody
  cases ms with
  | nil =>
    obtain rfl := Except.ok.inj hbody
    exact ⟨.ofAll (by decide), .object [], .emptyObject hnil, Tree.good_object.mpr (by simp [Tree.Accepted]), rfl, rfl⟩
  | cons m ms =>
    obtain ⟨hutf, ts, hs, hg, hd, hv⟩ := writes_members (by simp) hkeys hwrites hbody
    have hopen : Utf8 [123] := .ofAll (by decide)
    have hinsert : OrderedMap.insertAll [] (Tree.memberValues charconv ts) =
        some (JsonValue.reparsedMembers (m :: ms)) := by
      rw [hv]
      refine OrderedMap.insertAll_sorted ?_
      rw [List.nil_append, JsonValue.reparsedMembers_eq]
      exact List.pairwise_map.mpr hsorted
    refine ⟨(hopen.append hutf).append (.ofAll (by decide)), .object ts, .object hnil hs,
      Tree.good_object.mpr ⟨⟨fun t ht => (hg t ht).1, ?_⟩, fun t ht => (hg t ht).2⟩, ?_, ?_⟩
    · exact Tree.insertAll_memberValues.mp (Option.isSome_of_eq_some hinsert)
    · rw [Tree.depth, JsonValue.depth, hd]
    · rw [Tree.value, JsonValue.reparsed, hinsert, Option.getD_some]

lemma atDepth_eq_ok {depth : ℕ} {text : Except Status Bytes} {x : Bytes} (h : atDepth depth text = .ok x) :
    text = .ok x := by
  rw [atDepth] at h
  split_ifs at h
  exact h

lemma dumpValue_writes (hconv : Charconv.RoundTrips charconv) (v : JsonValue) (hv : v.Ordered) (depth : ℕ)
    {x : Bytes} (h : dumpValue charconv depth v = .ok x) : Writes charconv v x := by
  induction v using JsonValue.induction generalizing depth x with
  | null =>
    obtain rfl := Except.ok.inj (atDepth_eq_ok h)
    exact ⟨.ofAll (by decide), .null, .null, by simp [Tree.Good, Tree.nodes, Tree.Accepted], rfl, rfl⟩
  | boolean b =>
    obtain rfl := Except.ok.inj (atDepth_eq_ok h)
    refine ⟨.ofAll (by cases b <;> decide), .boolean b, .boolean b, ?_, rfl, rfl⟩
    simp [Tree.Good, Tree.nodes, Tree.Accepted]
  | int64 value =>
    obtain rfl := Except.ok.inj (atDepth_eq_ok h)
    rw [← integerToken_text]
    exact writes_number rfl (numberValue_int64 value)
  | uint64 value =>
    obtain rfl := Except.ok.inj (atDepth_eq_ok h)
    rw [← integerToken_text]
    exact writes_number rfl (numberValue_uint64 value)
  | number bits =>
    obtain ⟨t, rfl, hvalue⟩ := dumpNumber_token hconv (atDepth_eq_ok h)
    exact writes_number rfl hvalue
  | string text =>
    have htext := atDepth_eq_ok h
    have hutf := (dumpString_ok_iff text).mp ⟨x, htext⟩
    rw [dumpString, (isValidUtf8_iff text).mpr hutf] at htext
    obtain rfl := Except.ok.inj htext
    obtain ⟨items, hitems, hp, hu⟩ := dumpEscapedString_items text
    refine ⟨dumpEscapedString_utf8 hutf, .string items, ?_, by simpa [Tree.Good, Tree.nodes, Tree.Accepted] using hp,
      rfl, ?_⟩
    · rw [← hitems]
      exact .string items
    · rw [Tree.value, hu]
      rfl
  | array vs ih =>
    have htext := atDepth_eq_ok h
    rw [dumpElements_eq] at htext
    have hvs := (JsonValue.forall_nodes_array.mp hv).2
    exact writes_array (fun v hmem x hx => ih v hmem (hvs v hmem) (depth + 1) hx) htext
  | object ms ih =>
    have htext := atDepth_eq_ok h
    rw [dumpMembers_eq] at htext
    obtain ⟨hsorted, hms⟩ := JsonValue.forall_nodes_object.mp hv
    exact writes_object hsorted (fun m hmem x hx => ih m hmem (hms m hmem) (depth + 1) hx) htext

lemma Writes.parseText {v : JsonValue} {x : Bytes} (h : Writes charconv v x) (hd : v.depth ≤ maximumJsonNestingDepth)
    {maxValues : ℕ} (hlen : x.length ≤ maxValues) : parseText charconv x maxValues = .ok v.reparsed := by
  have hnil : Whitespace [] := by simp [Whitespace]
  obtain ⟨hutf, t, hs, hg, hdepth, hval⟩ := h
  have hdoc : parseDocument charconv x maxValues = .ok v.reparsed := by
    refine (parseDocument_ok_iff hlen).mpr ⟨t, ⟨[], [], x, [], .inl rfl, by simp, hnil, hs, hnil⟩, hg, ?_, hval⟩
    rwa [hdepth]
  rw [Json.parseText, (isValidUtf8_iff x).mpr hutf, hdoc]
  rfl

/-- `Dump` fails only for the reasons it has to, and `Parse` gives back what it wrote. -/
theorem parse_dump (charconv : Charconv) (hconv : Charconv.RoundTrips charconv) (v : JsonValue) (hv : v.Ordered) :
    ((∃ text, dump charconv v = .ok text) ↔
      v.depth ≤ maximumJsonNestingDepth ∧ ∀ s ∈ v.nodes, s.TextsValid ∧ s.NumberFinite) ∧
    ∀ text, dump charconv v = .ok text → text.length < sizeModulus → parse charconv text = .ok v.reparsed := by
  have hok := dumpValue_ok_iff hconv v 0
  rw [Nat.zero_add] at hok
  refine ⟨hok, fun text htext hsize => ?_⟩
  apply (dumpValue_writes hconv v hv 0 htext).parseText
  · exact (hok.mp ⟨text, htext⟩).1
  · simp only [noValueLimit]
    omega

section Exact

def exactToken (bits : UInt64) : NumberToken where
  negative := decide (Binary64.signBit ≤ bits.toNat)
  integer := toChars 10 (Binary64.units (bits.toNat % Binary64.signBit) * 5 ^ Binary64.unitExponent)
  fraction := none
  exponent := some (101, some 45, toChars 10 Binary64.unitExponent)
  integer_digits := toChars_digits _
  no_leading_zero := toChars_zero_head
  fraction_digits := by simp
  exponent_digits := by
    rintro _ _ _ ⟨⟩
    exact ⟨.inl rfl, by simp, toChars_digits _⟩

lemma exactToken_bits (bits : UInt64) : (exactToken bits).parts.bits = bits.toNat % Binary64.signBit := by
  have hscale : (exactToken bits).parts.scale = -(Binary64.unitExponent : ℤ) := by
    simp [NumberParts.scale, NumberToken.parts, exactToken, digitsValue_toChars]
  have hdigits : digitsValue ((exactToken bits).parts.integer ++ (exactToken bits).parts.fraction) =
      Binary64.units (bits.toNat % Binary64.signBit) * 5 ^ Binary64.unitExponent := by
    simp [NumberToken.parts, exactToken, digitsValue_toChars]
  have hten : 10 ^ Binary64.unitExponent = 2 ^ Binary64.unitExponent * 5 ^ Binary64.unitExponent := by
    rw [← Nat.mul_pow]
  have htoNat : (-(Binary64.unitExponent : ℤ)).toNat = 0 := by simp
  have hneg : (- -(Binary64.unitExponent : ℤ)).toNat = Binary64.unitExponent := by simp
  rw [NumberParts.bits, NumberParts.numerator, NumberParts.denominator, hscale, hdigits, htoNat, hneg, Nat.pow_zero,
    Nat.mul_one, hten, Binary64.magnitudeBits_mul _ _ (Nat.pow_pos (by decide)), Binary64.magnitudeBits_units]

lemma signedBits_split (bits : UInt64) :
    signedBits (decide (Binary64.signBit ≤ bits.toNat)) (bits.toNat % Binary64.signBit) = bits := by
  have hlt := bits.toNat_lt
  rw [signedBits, ← UInt64.toNat_inj, UInt64.toNat_ofNat']
  simp only [Binary64.signBit, decide_eq_true_eq]
  split_ifs <;> omega

def oneHalf : UInt64 := 0x3FE0000000000000

def oneHalfToken : NumberToken where
  negative := false
  integer := [48]
  fraction := some [53]
  exponent := none
  integer_digits := zero_digits
  no_leading_zero := zero_alone
  fraction_digits := by
    rintro _ ⟨⟩
    simp [Digits, isDigit]
  exponent_digits := by simp

def exactCharconv : Charconv where
  toChars bits := some (if bits = oneHalf then oneHalfToken.text else (exactToken bits).text)
  reportsUnderflow _ := false

lemma exactCharconv_roundTrips : Charconv.RoundTrips exactCharconv := by
  have hread (t : NumberToken) (bits : UInt64) (hb : t.parts.bits = bits.toNat % Binary64.signBit)
      (hn : t.parts.negative = decide (Binary64.signBit ≤ bits.toNat)) (hf : isFinite bits = true) :
      fromCharsDouble exactCharconv t.text = some bits := by
    have hbig : ¬ Binary64.infinityBits ≤ bits.toNat % Binary64.signBit := not_le.mpr (of_decide_eq_true hf)
    rw [fromCharsDouble, splitNumber_text]
    simp only [hb, hn, hbig, exactCharconv, Bool.false_eq_true, and_false, ↓reduceIte, signedBits_split]
  intro bits hf
  by_cases hhalf : bits = oneHalf
  · subst hhalf
    exact ⟨oneHalfToken, by simp [exactCharconv], hread _ _ (by decide +kernel) (by decide +kernel) hf⟩
  · exact ⟨exactToken bits, by simp [exactCharconv, hhalf], hread _ _ (exactToken_bits bits) rfl hf⟩

end Exact

theorem parse_dump_array : parse exactCharconv (ascii "[5, 0.5, true]") =
    .ok (.array [.uint64 5, .number oneHalf, .boolean true]) := by
  have hfinite : isFinite oneHalf = true := by decide +kernel
  have hchars : exactCharconv.toChars oneHalf = some (ascii "0.5") := by
    simp only [exactCharconv, ↓reduceIte]
    rfl
  have hhalf : dumpNumber exactCharconv oneHalf = .ok (ascii "0.5") := by
    simp only [dumpNumber, hfinite, hchars]
    rfl
  have hfive : toCharsInteger (Int64.toInt 5) = ascii "5" := by
    rw [toCharsInteger, if_neg (by decide)]
    rfl
  have hdump : dump exactCharconv (.array [.int64 5, .number oneHalf, .boolean true]) = .ok (ascii "[5, 0.5, true]") := by
    simp only [dump, dumpValue, dumpElements, hhalf, hfive]
    rfl
  refine (parse_dump exactCharconv exactCharconv_roundTrips (.array [.int64 5, .number oneHalf, .boolean true]) ?_).2
    _ hdump (by decide)
  simp [JsonValue.Ordered, JsonValue.nodes, JsonValue.elementNodes, JsonValue.KeysSorted]

end Json

end ServerCore.Protocol
