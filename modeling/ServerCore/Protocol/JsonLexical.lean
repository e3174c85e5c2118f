import ServerCore.Protocol.JsonGrammar

/-! The scanners of the parser against the lexical rules of the grammar: white space,
literals, strings and number tokens. -/

namespace ServerCore.Protocol.Json

open ServerCore.Core ServerCore.Foundations

section Whitespace

lemma skipWhitespace_split (x : Bytes) :
    ∃ w, Whitespace w ∧ x = w ++ skipWhitespace x := by
  refine ⟨x.takeWhile isWhitespace, List.all_eq_true.mp List.all_takeWhile, ?_⟩
  rw [skipWhitespace, List.takeWhile_append_dropWhile]

lemma skipWhitespace_append {w y : Bytes} (hw : Whitespace w) :
    skipWhitespace (w ++ y) = skipWhitespace y := by
  rw [skipWhitespace, List.dropWhile_append_of_pos hw, skipWhitespace]

lemma skipWhitespace_cons {b : Byte} {y : Bytes} (h : isWhitespace b = false) :
    skipWhitespace (b :: y) = b :: y := by
  rw [skipWhitespace, List.dropWhile_cons_of_neg (by simp [h])]

lemma skipWhitespace_length (x : Bytes) : (skipWhitespace x).length ≤ x.length :=
  (List.dropWhile_suffix _).length_le

end Whitespace

lemma consume_eq_some {b : Byte} {x y : Bytes} : consume b x = some y ↔ x = b :: y := by
  cases x with
  | nil => simp [consume]
  | cons b' x =>
    simp only [consume, List.cons.injEq]
    split_ifs with h
    · simp [h]
    · simp [h]

lemma consume_cons (b : Byte) (x : Bytes) : consume b (b :: x) = some x := consume_eq_some.mpr rfl

lemma consume_ne {b b' : Byte} {x : Bytes} (h : b' ≠ b) : consume b (b' :: x) = none := by
  simp [consume, h]

lemma parseLiteral_eq_ok {literal x y : Bytes} :
    parseLiteral literal x = .ok y ↔ x = literal ++ y := by
  simp only [parseLiteral]
  split_ifs with h
  · simp only [false_iff]
    rintro rfl
    exact h (List.take_left' rfl)
  · rw [not_not] at h
    constructor
    · intro hy
      have hx := List.take_append_drop literal.length x
      rw [h, Except.ok.inj hy] at hx
      exact hx.symm
    · rintro rfl
      rw [List.drop_left' rfl]

section Strings

lemma parseHex4_hex {d₁ d₂ d₃ d₄ : Byte} (hex : ∀ d ∈ [d₁, d₂, d₃, d₄], isHexDigit d = true) (y : Bytes) :
    parseHex4 (d₁ :: d₂ :: d₃ :: d₄ :: y) = .ok (StringItem.hex4 d₁ d₂ d₃ d₄, y) := by
  simp only [List.mem_cons, List.not_mem_nil, or_false, forall_eq_or_imp, forall_eq] at hex
  obtain ⟨h₁, h₂, h₃, h₄⟩ := hex
  rw [parseHex4, if_neg (by simp only [List.length_cons]; omega)]
  simp [hexDigits, h₁, h₂, h₃, h₄, StringItem.hex4]

lemma parseHex4_eq_ok {n : ℕ} {x y : Bytes} (h : parseHex4 x = .ok (n, y)) :
    ∃ d₁ d₂ d₃ d₄, (∀ d ∈ [d₁, d₂, d₃, d₄], isHexDigit d = true) ∧ n = StringItem.hex4 d₁ d₂ d₃ d₄ ∧
      x = d₁ :: d₂ :: d₃ :: d₄ :: y := by
  simp only [parseHex4] at h
  split_ifs at h with hl
  obtain _ | ⟨d₁, _ | ⟨d₂, _ | ⟨d₃, _ | ⟨d₄, y'⟩⟩⟩⟩ := x
  · simp at hl
  · simp at hl
  · simp at hl
  · simp at hl
  simp only [hexDigits] at h
  split_ifs at h with h₁ h₂ h₃ h₄
  obtain ⟨rfl, rfl⟩ := Prod.mk.inj (Except.ok.inj h)
  refine ⟨d₁, d₂, d₃, d₄, ?_, by simp [StringItem.hex4], rfl⟩
  simp [h₁, h₂, h₃, h₄]

lemma parseUnicodeEscape_single {d₁ d₂ d₃ d₄ : Byte} (hex : ∀ d ∈ [d₁, d₂, d₃, d₄], isHexDigit d = true)
    (y : Bytes) (hh : isHighSurrogate (StringItem.hex4 d₁ d₂ d₃ d₄) = false)
    (hl : isLowSurrogate (StringItem.hex4 d₁ d₂ d₃ d₄) = false) :
    parseUnicodeEscape (d₁ :: d₂ :: d₃ :: d₄ :: y) =
      .ok (appendUtf8 (StringItem.hex4 d₁ d₂ d₃ d₄), y) := by
  simp [parseUnicodeEscape, parseHex4_hex hex, hh, hl, bind, Except.bind]

lemma parseUnicodeEscape_pair {d₁ d₂ d₃ d₄ e₁ e₂ e₃ e₄ : Byte}
    (hex : ∀ d ∈ [d₁, d₂, d₃, d₄], isHexDigit d = true) (hex' : ∀ d ∈ [e₁, e₂, e₃, e₄], isHexDigit d = true)
    (y : Bytes) (hh : isHighSurrogate (StringItem.hex4 d₁ d₂ d₃ d₄) = true)
    (hl : isLowSurrogate (StringItem.hex4 e₁ e₂ e₃ e₄) = true) :
    parseUnicodeEscape (d₁ :: d₂ :: d₃ :: d₄ :: 92 :: 117 :: e₁ :: e₂ :: e₃ :: e₄ :: y) =
      .ok (appendUtf8 (combineSurrogates (StringItem.hex4 d₁ d₂ d₃ d₄) (StringItem.hex4 e₁ e₂ e₃ e₄)), y) := by
  simp [parseUnicodeEscape, parseHex4_hex hex, parseHex4_hex hex', hh, hl, bind, Except.bind]

lemma parseUnicodeEscape_eq_ok {text x y : Bytes} (h : parseUnicodeEscape x = .ok (text, y)) :
    ∃ d₁ d₂ d₃ d₄, ∃ hex : ∀ d ∈ [d₁, d₂, d₃, d₄], isHexDigit d = true,
      (isHighSurrogate (StringItem.hex4 d₁ d₂ d₃ d₄) = false ∧
        isLowSurrogate (StringItem.hex4 d₁ d₂ d₃ d₄) = false ∧
        text = appendUtf8 (StringItem.hex4 d₁ d₂ d₃ d₄) ∧
        92 :: 117 :: x = (StringItem.unicode d₁ d₂ d₃ d₄ hex).text ++ y) ∨
      (isHighSurrogate (StringItem.hex4 d₁ d₂ d₃ d₄) = true ∧
        ∃ e₁ e₂ e₃ e₄, ∃ hex' : ∀ d ∈ [e₁, e₂, e₃, e₄], isHexDigit d = true,
          isLowSurrogate (StringItem.hex4 e₁ e₂ e₃ e₄) = true ∧
          text = appendUtf8 (combineSurrogates (StringItem.hex4 d₁ d₂ d₃ d₄) (StringItem.hex4 e₁ e₂ e₃ e₄)) ∧
          92 :: 117 :: x = (StringItem.unicode d₁ d₂ d₃ d₄ hex).text ++
            (StringItem.unicode e₁ e₂ e₃ e₄ hex').text ++ y) := by
  obtain ⟨⟨n, rest⟩, h₁, hrest⟩ := bind_eq_ok h
  obtain ⟨d₁, d₂, d₃, d₄, hex, rfl, rfl⟩ := parseHex4_eq_ok h₁
  clear h h₁
  refine ⟨d₁, d₂, d₃, d₄, hex, ?_⟩
  simp only at hrest
  split_ifs at hrest with hh hu hl
  · obtain ⟨⟨low, rest'⟩, h₂, hlast⟩ := bind_eq_ok hrest
    obtain ⟨e₁, e₂, e₃, e₄, hex', rfl, hr⟩ := parseHex4_eq_ok h₂
    clear hrest h₂
    simp only at hlast
    split_ifs at hlast with hlow
    obtain ⟨rfl, rfl⟩ := Prod.mk.inj (Except.ok.inj hlast)
    refine .inr ⟨hh, e₁, e₂, e₃, e₄, hex', by simpa using hlow, rfl, ?_⟩
    have hrest : rest = 92 :: 117 :: e₁ :: e₂ :: e₃ :: e₄ :: rest' := by
      rw [← List.take_append_drop 2 rest, not_not.mp hu, hr]
      rfl
    rw [hrest]
    rfl
  · obtain ⟨rfl, rfl⟩ := Prod.mk.inj (Except.ok.inj hrest)
    exact .inl ⟨by simpa using hh, by simpa using hl, rfl, rfl⟩

section Items

variable {d₁ d₂ d₃ d₄ : Byte} {hex : ∀ d ∈ [d₁, d₂, d₃, d₄], isHexDigit d = true} {items : List StringItem}

lemma unescape_unicode (hh : isHighSurrogate (StringItem.hex4 d₁ d₂ d₃ d₄) = false) :
    unescape (.unicode d₁ d₂ d₃ d₄ hex :: items) =
      appendUtf8 (StringItem.hex4 d₁ d₂ d₃ d₄) ++ unescape items := by
  cases items <;> simp [unescape, hh]

lemma surrogatesPaired_unicode (hh : isHighSurrogate (StringItem.hex4 d₁ d₂ d₃ d₄) = false) :
    surrogatesPaired (.unicode d₁ d₂ d₃ d₄ hex :: items) =
      (!isLowSurrogate (StringItem.hex4 d₁ d₂ d₃ d₄) && surrogatesPaired items) := by
  cases items <;> simp [surrogatesPaired, StringItem.codeUnit, hh]

lemma surrogatesPaired_raw {b : Byte} {h₁ h₂ h₃} :
    surrogatesPaired (.raw b h₁ h₂ h₃ :: items) = surrogatesPaired items := by
  cases items <;> simp [surrogatesPaired, StringItem.codeUnit]

lemma surrogatesPaired_escape {letter b : Byte} {h} :
    surrogatesPaired (.escape letter b h :: items) = surrogatesPaired items := by
  cases items <;> simp [surrogatesPaired, StringItem.codeUnit]

end Items

lemma stringLoop_sound (result x : Bytes) : ∀ s y, stringLoop result x = .ok (s, y) →
    ∃ items, surrogatesPaired items = true ∧ x = items.flatMap StringItem.text ++ 34 :: y ∧
      s = result ++ unescape items := by
  fun_induction stringLoop result x with
  | case1 result => simp
  | case2 result rest =>
    rintro s y h
    obtain ⟨rfl, rfl⟩ := Prod.mk.inj (Except.ok.inj h)
    exact ⟨[], rfl, rfl, by simp [unescape]⟩
  | case3 => simp
  | case4 result character rest hq hc hb ih =>
    rintro s y h
    obtain ⟨items, hp, rfl, rfl⟩ := ih s y h
    refine ⟨.raw character (by simpa using hc) hq hb :: items, ?_, rfl, by simp [unescape]⟩
    rw [surrogatesPaired_raw, hp]
  | case5 => simp
  | case6 result character hq hc hb escape rest b he ih =>
    rintro s y h
    obtain ⟨items, hp, rfl, rfl⟩ := ih s y h
    refine ⟨.escape escape b he :: items, ?_, ?_, by simp [unescape]⟩
    · rw [surrogatesPaired_escape, hp]
    · rw [not_not.mp hb]
      rfl
  | case7 => simp
  | case8 result character hq hc hb rest text rest' hu hs ih =>
    rintro s y h
    obtain ⟨items, hp, rfl, rfl⟩ := ih s y h
    obtain ⟨d₁, d₂, d₃, d₄, hex, hcase⟩ := parseUnicodeEscape_eq_ok hu
    rw [not_not.mp hb]
    rcases hcase with ⟨hh, hl, ht, hx⟩ | ⟨hh, e₁, e₂, e₃, e₄, hex', hl, ht, hx⟩
    · refine ⟨.unicode d₁ d₂ d₃ d₄ hex :: items, ?_, ?_, ?_⟩
      · rw [surrogatesPaired_unicode hh, hl, hp]
        rfl
      · rw [hx, List.flatMap_cons, List.append_assoc]
      · rw [unescape_unicode hh, ht, List.append_assoc]
    · refine ⟨.unicode d₁ d₂ d₃ d₄ hex :: .unicode e₁ e₂ e₃ e₄ hex' :: items, ?_, ?_, ?_⟩
      · simp [surrogatesPaired, StringItem.codeUnit, hh, hl, hp]
      · rw [hx, List.flatMap_cons, List.flatMap_cons, List.append_assoc, List.append_assoc, List.append_assoc]
      · simp [unescape, hh, ht, StringItem.codeUnit]
  | case9 => simp

lemma stringLoop_raw {b : Byte} (h₁ : 0x20 ≤ b) (h₂ : b ≠ 34) (h₃ : b ≠ 92) (result x : Bytes) :
    stringLoop result (b :: x) = stringLoop (result ++ [b]) x := by
  have h : ¬ b < 0x20 := UInt8.not_lt.mpr h₁
  rw [stringLoop.eq_def]
  simp [h₂, h₃, h]

lemma stringLoop_escape {letter b : Byte} (h : simpleEscape letter = some b) (result x : Bytes) :
    stringLoop result (92 :: letter :: x) = stringLoop (result ++ [b]) x := by
  rw [stringLoop.eq_def]
  simp [h]

lemma stringLoop_unicode {x text y : Bytes} (h : parseUnicodeEscape x = .ok (text, y)) (result : Bytes) :
    stringLoop result (92 :: 117 :: x) = stringLoop (result ++ text) y := by
  have hs : simpleEscape 117 = none := rfl
  rw [stringLoop.eq_def]
  simp only [hs]
  simp
  split <;> simp_all

lemma stringLoop_complete (items : List StringItem) (result y : Bytes) (hp : surrogatesPaired items = true) :
    stringLoop result (items.flatMap StringItem.text ++ 34 :: y) = .ok (result ++ unescape items, y) := by
  induction items using unescape.induct generalizing result with
  | case1 =>
    rw [stringLoop.eq_def]
    simp [unescape]
  | case2 b h₁ h₂ h₃ rest ih =>
    rw [surrogatesPaired_raw] at hp
    simp only [List.flatMap_cons, StringItem.text, List.cons_append, List.nil_append]
    rw [stringLoop_raw h₁ h₂ h₃, ih _ hp]
    simp [unescape]
  | case3 letter b h rest ih =>
    rw [surrogatesPaired_escape] at hp
    simp only [List.flatMap_cons, StringItem.text, List.cons_append, List.nil_append]
    rw [stringLoop_escape h, ih _ hp]
    simp [unescape]
  | case4 d₁ d₂ d₃ d₄ hex hh => simp [surrogatesPaired, StringItem.codeUnit, hh] at hp
  | case5 d₁ d₂ d₃ d₄ hex hh next rest ih =>
    simp only [surrogatesPaired, StringItem.codeUnit, hh, ↓reduceIte, Bool.and_eq_true] at hp
    cases next with
    | raw => simp at hp
    | escape => simp at hp
    | unicode e₁ e₂ e₃ e₄ hex' =>
      simp only [List.flatMap_cons, StringItem.text, List.cons_append, List.nil_append]
      rw [stringLoop_unicode (parseUnicodeEscape_pair hex hex' _ hh (by simpa [StringItem.codeUnit] using hp.1)),
        ih _ hp.2]
      simp [unescape, hh, StringItem.codeUnit]
  | case6 d₁ d₂ d₃ d₄ hex rest hh ih =>
    have hh' : isHighSurrogate (StringItem.hex4 d₁ d₂ d₃ d₄) = false := by simpa using hh
    rw [surrogatesPaired_unicode hh', Bool.and_eq_true] at hp
    simp only [List.flatMap_cons, StringItem.text, List.cons_append, List.nil_append]
    rw [stringLoop_unicode (parseUnicodeEscape_single hex _ hh' (by simpa using hp.1)), ih _ hp.2,
      unescape_unicode hh', List.append_assoc]

lemma parseString_eq_ok {x s y : Bytes} : parseString x = .ok (s, y) ↔
    ∃ items, surrogatesPaired items = true ∧ x = stringText items ++ y ∧ s = unescape items := by
  simp only [parseString, stringText]
  constructor
  · intro h
    cases hc : consume 34 x with
    | none => simp [hc] at h
    | some rest =>
      obtain rfl := consume_eq_some.mp hc
      simp only [hc] at h
      obtain ⟨items, hp, rfl, rfl⟩ := stringLoop_sound [] rest s y h
      exact ⟨items, hp, by simp, rfl⟩
  · rintro ⟨items, hp, rfl, rfl⟩
    simp only [List.cons_append, consume_cons, List.append_assoc, List.nil_append]
    rw [stringLoop_complete items [] y hp, List.nil_append]

end Strings

section Numbers

def NoDigit (y : Bytes) : Prop := startsWithDigit y = false

lemma startsWithDigit_cons (b : Byte) (x : Bytes) : startsWithDigit (b :: x) = isDigit b := rfl

lemma takeWhile_digits {digits y : Bytes} (hd : ∀ b ∈ digits, isDigit b = true) (hy : NoDigit y) :
    (digits ++ y).takeWhile isDigit = digits := by
  rw [List.takeWhile_append_of_pos hd]
  cases y with
  | nil => simp
  | cons b y => rw [List.takeWhile_cons_of_neg (by simpa [NoDigit, startsWithDigit] using hy), List.append_nil]

lemma dropWhile_digits {digits y : Bytes} (hd : ∀ b ∈ digits, isDigit b = true) (hy : NoDigit y) :
    (digits ++ y).dropWhile isDigit = y := by
  rw [List.dropWhile_append_of_pos hd]
  cases y with
  | nil => rfl
  | cons b y => rw [List.dropWhile_cons_of_neg (by simpa [NoDigit, startsWithDigit] using hy)]

lemma digits_of_startsWithDigit {x : Bytes} (h : startsWithDigit x = true) :
    Digits (x.takeWhile isDigit) := by
  cases x with
  | nil => simp [startsWithDigit] at h
  | cons b x =>
    rw [startsWithDigit_cons] at h
    refine ⟨by rw [List.takeWhile_cons_of_pos h]; simp, ?_⟩
    exact List.all_eq_true.mp List.all_takeWhile

lemma Digits.cons {digits : Bytes} (h : Digits digits) : ∃ b rest, digits = b :: rest ∧ isDigit b = true := by
  cases digits with
  | nil => exact absurd rfl h.1
  | cons b rest => exact ⟨b, rest, rfl, h.2 b (by simp)⟩

lemma Digits.startsWithDigit {digits : Bytes} (h : Digits digits) (y : Bytes) :
    startsWithDigit (digits ++ y) = true := by
  obtain ⟨b, rest, rfl, hb⟩ := h.cons
  exact hb

lemma takeWhile_append_dropWhile_digits (x : Bytes) :
    x = x.takeWhile isDigit ++ x.dropWhile isDigit := (List.takeWhile_append_dropWhile).symm

lemma scanInteger_sound {x y : Bytes} (h : scanInteger x = .ok y) :
    ∃ integer, Digits integer ∧ (integer.head? = some 48 → integer = [48]) ∧ x = integer ++ y := by
  simp only [scanInteger] at h
  cases hc : consume 48 x with
  | some rest =>
    obtain rfl := consume_eq_some.mp hc
    simp only [hc] at h
    split_ifs at h
    obtain rfl := Except.ok.inj h
    exact ⟨[48], ⟨by simp, by simp [isDigit]⟩, fun _ => rfl, rfl⟩
  | none =>
    simp only [hc] at h
    split_ifs at h with hd
    obtain rfl := Except.ok.inj h
    refine ⟨x.takeWhile isDigit, digits_of_startsWithDigit (by simpa using hd), ?_,
      takeWhile_append_dropWhile_digits x⟩
    intro hz
    cases x with
    | nil => simp at hz
    | cons b x =>
      have hb : isDigit b = true := by simpa [startsWithDigit] using hd
      rw [List.takeWhile_cons_of_pos hb, List.head?_cons, Option.some.injEq] at hz
      rw [hz, consume_cons] at hc
      cases hc

lemma scanInteger_complete {integer y : Bytes} (hd : Digits integer)
    (hz : integer.head? = some 48 → integer = [48]) (hy : NoDigit y) : scanInteger (integer ++ y) = .ok y := by
  obtain ⟨b, rest, rfl, hb⟩ := hd.cons
  simp only [scanInteger]
  by_cases hb0 : b = 48
  · subst hb0
    obtain rfl : rest = [] := by simpa using hz rfl
    have hy' : startsWithDigit y = false := hy
    simp [consume_cons, hy']
  · have hs := hd.startsWithDigit y
    rw [List.cons_append, consume_ne hb0]
    rw [List.cons_append] at hs
    simp only [hs, Bool.not_true, Bool.false_eq_true, ↓reduceIte]
    rw [← List.cons_append, dropWhile_digits hd.2 hy]

lemma scanFraction_sound {x y : Bytes} (h : scanFraction x = .ok y) :
    ∃ fraction, (∀ digits, fraction = some digits → Digits digits) ∧ x = fractionText fraction ++ y := by
  simp only [scanFraction] at h
  cases hc : consume 46 x with
  | some rest =>
    obtain rfl := consume_eq_some.mp hc
    simp only [hc] at h
    split_ifs at h with hd
    obtain rfl := Except.ok.inj h
    refine ⟨some (rest.takeWhile isDigit), ?_, ?_⟩
    · rintro _ ⟨⟩
      exact digits_of_startsWithDigit (by simpa using hd)
    · rw [fractionText, List.cons_append, ← takeWhile_append_dropWhile_digits]
  | none =>
    simp only [hc] at h
    obtain rfl := Except.ok.inj h
    exact ⟨none, by simp, rfl⟩

lemma scanFraction_complete {fraction : Option Bytes} {y : Bytes}
    (hd : ∀ digits, fraction = some digits → Digits digits) (hy : NoDigit y) (hp : y.head? ≠ some 46) :
    scanFraction (fractionText fraction ++ y) = .ok y := by
  cases fraction with
  | none =>
    cases y with
    | nil => rfl
    | cons b y =>
      have hb : b ≠ 46 := by simpa using hp
      simp [scanFraction, fractionText, consume_ne hb]
  | some digits =>
    have hs := (hd digits rfl).startsWithDigit y
    simp only [scanFraction, fractionText, List.cons_append, consume_cons, hs, Bool.not_true,
      Bool.false_eq_true, ↓reduceIte]
    rw [dropWhile_digits (hd digits rfl).2 hy]

lemma scanExponent_sound {x y : Bytes} (h : scanExponent x = .ok y) :
    ∃ exponent, (∀ mark sign digits, exponent = some (mark, sign, digits) →
      (mark = 101 ∨ mark = 69) ∧ (∀ b, sign = some b → b = 43 ∨ b = 45) ∧ Digits digits) ∧
      x = exponentText exponent ++ y := by
  cases x with
  | nil =>
    obtain rfl := Except.ok.inj h
    exact ⟨none, by simp, rfl⟩
  | cons mark x =>
    simp only [scanExponent] at h
    split_ifs at h with hm hs hd
    · obtain rfl := Except.ok.inj h
      obtain ⟨sign, hx, hsign⟩ : ∃ sign, x = sign :: x.drop 1 ∧ (sign = 43 ∨ sign = 45) := by
        cases x with
        | nil => simp at hs
        | cons sign x => exact ⟨sign, rfl, by simpa using hs⟩
      refine ⟨some (mark, some sign, (x.drop 1).takeWhile isDigit), ?_, ?_⟩
      · rintro _ _ _ ⟨⟩
        exact ⟨by simpa using hm, by simpa using hsign, digits_of_startsWithDigit (by simpa using hd)⟩
      · simp only [exponentText, Option.toList_some, List.cons_append, List.nil_append]
        rw [← takeWhile_append_dropWhile_digits, ← hx]
    · rename_i hd'
      obtain rfl := Except.ok.inj h
      refine ⟨some (mark, none, x.takeWhile isDigit), ?_, ?_⟩
      · rintro _ _ _ ⟨⟩
        exact ⟨by simpa using hm, by simp, digits_of_startsWithDigit (by simpa using hd')⟩
      · simp only [exponentText, Option.toList_none, List.cons_append, List.nil_append]
        rw [← takeWhile_append_dropWhile_digits]
    · obtain rfl := Except.ok.inj h
      exact ⟨none, by simp, rfl⟩

lemma scanExponent_complete {exponent : Option (Byte × Option Byte × Bytes)} {y : Bytes}
    (hd : ∀ mark sign digits, exponent = some (mark, sign, digits) →
      (mark = 101 ∨ mark = 69) ∧ (∀ b, sign = some b → b = 43 ∨ b = 45) ∧ Digits digits)
    (hy : NoDigit y) (he : y.head? ≠ some 101) (hE : y.head? ≠ some 69) :
    scanExponent (exponentText exponent ++ y) = .ok y := by
  cases exponent with
  | none =>
    cases y with
    | nil => rfl
    | cons b y =>
      have hb : b ≠ 101 := by simpa using he
      have hb' : b ≠ 69 := by simpa using hE
      simp [scanExponent, exponentText, hb, hb']
  | some e =>
    obtain ⟨mark, sign, digits⟩ := e
    obtain ⟨hm, hsign, hdig⟩ := hd mark sign digits rfl
    have hm' : (mark = 101 || mark = 69) = true := by simpa using hm
    have hs := hdig.startsWithDigit y
    cases sign with
    | none =>
      obtain ⟨b, rest, rfl, hb⟩ := hdig.cons
      have hb43 : b ≠ 43 := by rintro rfl; simp [isDigit] at hb
      have hb45 : b ≠ 45 := by rintro rfl; simp [isDigit] at hb
      have hdrop := dropWhile_digits hdig.2 hy
      simp only [List.cons_append] at hs hdrop
      simp [scanExponent, exponentText, hm', hb43, hb45, hs, hdrop]
    | some b =>
      have hb : (b = 43 || b = 45) = true := by simpa using hsign b rfl
      have hdrop := dropWhile_digits hdig.2 hy
      simp only [Bool.or_eq_true, decide_eq_true_eq] at hb
      simp [scanExponent, exponentText, hm', hb, hs, hdrop]

def Follows (y : Bytes) : Prop :=
  ∀ b, y.head? = some b → isWhitespace b = true ∨ b = 44 ∨ b = 93 ∨ b = 125

lemma Follows.not_head {y : Bytes} (h : Follows y) {b : Byte} (hb : isWhitespace b = false)
    (h₁ : b ≠ 44) (h₂ : b ≠ 93) (h₃ : b ≠ 125) : y.head? ≠ some b := by
  intro hy
  rcases h b hy with hw | hw | hw | hw
  · rw [hb] at hw
    cases hw
  · exact h₁ hw
  · exact h₂ hw
  · exact h₃ hw

lemma Follows.noDigit {y : Bytes} (h : Follows y) : NoDigit y := by
  cases y with
  | nil => rfl
  | cons b y =>
    have hb := h b rfl
    simp only [NoDigit, startsWithDigit_cons]
    rcases hb with hw | rfl | rfl | rfl
    · simp only [isWhitespace, Bool.or_eq_true, decide_eq_true_eq] at hw
      rcases hw with ((rfl | rfl) | rfl) | rfl <;> rfl
    · rfl
    · rfl
    · rfl

lemma noDigit_tail {t : NumberToken} {y : Bytes} (hy : Follows y) :
    NoDigit (exponentText t.exponent ++ y) ∧ NoDigit (fractionText t.fraction ++ (exponentText t.exponent ++ y)) := by
  have he : NoDigit (exponentText t.exponent ++ y) := by
    cases h : t.exponent with
    | none => exact hy.noDigit
    | some e =>
      obtain ⟨hm, -, -⟩ := t.exponent_digits e.1 e.2.1 e.2.2 h
      rcases hm with hm | hm <;> simp [NoDigit, exponentText, startsWithDigit, isDigit, hm]
  refine ⟨he, ?_⟩
  cases h : t.fraction with
  | none => exact he
  | some digits => rfl

lemma scanNumber_complete (t : NumberToken) {y : Bytes} (hy : Follows y) : scanNumber (t.text ++ y) = .ok y := by
  obtain ⟨he, hf⟩ := noDigit_tail (t := t) hy
  have hminus : (consume 45 (t.text ++ y)).getD (t.text ++ y) =
      t.integer ++ (fractionText t.fraction ++ (exponentText t.exponent ++ y)) := by
    simp only [NumberToken.text]
    cases t.negative with
    | true => simp [consume_cons]
    | false =>
      obtain ⟨b, rest, hint, hb⟩ := t.integer_digits.cons
      have hb45 : b ≠ 45 := by rintro rfl; simp [isDigit] at hb
      simp [hint, consume_ne hb45]
  have hpoint : (exponentText t.exponent ++ y).head? ≠ some 46 := by
    cases h : t.exponent with
    | none => exact hy.not_head rfl (by decide) (by decide) (by decide)
    | some e =>
      obtain ⟨hm, -, -⟩ := t.exponent_digits e.1 e.2.1 e.2.2 h
      rcases hm with hm | hm <;> simp [exponentText, hm]
  simp only [scanNumber, hminus, bind, Except.bind]
  rw [scanInteger_complete t.integer_digits t.no_leading_zero hf]
  simp only
  rw [scanFraction_complete t.fraction_digits he hpoint]
  exact scanExponent_complete t.exponent_digits hy.noDigit
    (hy.not_head rfl (by decide) (by decide) (by decide)) (hy.not_head rfl (by decide) (by decide) (by decide))

lemma scanNumber_sound {x y : Bytes} (h : scanNumber x = .ok y) : ∃ t : NumberToken, x = t.text ++ y := by
  obtain ⟨x₁, h₁, h⟩ := bind_eq_ok h
  obtain ⟨x₂, h₂, h₃⟩ := bind_eq_ok h
  obtain ⟨integer, hd, hz, hi⟩ := scanInteger_sound h₁
  obtain ⟨fraction, hf, rfl⟩ := scanFraction_sound h₂
  obtain ⟨exponent, he, rfl⟩ := scanExponent_sound h₃
  cases hc : consume 45 x with
  | none =>
    refine ⟨⟨false, integer, fraction, exponent, hd, hz, hf, he⟩, ?_⟩
    simpa [hc, NumberToken.text] using hi
  | some rest =>
    obtain rfl := consume_eq_some.mp hc
    refine ⟨⟨true, integer, fraction, exponent, hd, hz, hf, he⟩, ?_⟩
    simpa [hc, NumberToken.text] using hi

lemma text_of_lengths {token y : Bytes} : (token ++ y).take ((token ++ y).length - y.length) = token := by
  rw [List.length_append, Nat.add_sub_cancel, List.take_left' rfl]

lemma parseNumber_complete (charconv : Charconv) (t : NumberToken) {v : JsonValue} {y : Bytes} (hy : Follows y)
    (hv : numberValue charconv t.text = .ok v) : parseNumber charconv (t.text ++ y) = .ok (v, y) := by
  simp only [parseNumber, scanNumber_complete t hy, bind, Except.bind, text_of_lengths, hv]

lemma parseNumber_sound {charconv : Charconv} {x y : Bytes} {v : JsonValue}
    (h : parseNumber charconv x = .ok (v, y)) :
    ∃ t : NumberToken, x = t.text ++ y ∧ numberValue charconv t.text = .ok v := by
  obtain ⟨rest, hs, h⟩ := bind_eq_ok h
  obtain ⟨t, rfl⟩ := scanNumber_sound hs
  rw [text_of_lengths] at h
  cases hv : numberValue charconv t.text with
  | error message => simp [hv] at h
  | ok value =>
    simp only [hv] at h
    obtain ⟨rfl, rfl⟩ := Prod.mk.inj (Except.ok.inj h)
    exact ⟨t, rfl, hv⟩

end Numbers

end ServerCore.Protocol.Json
