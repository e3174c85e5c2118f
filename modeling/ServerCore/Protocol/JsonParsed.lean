import ServerCore.Protocol.JsonRoundTrip

/-! The values that come out of the parser: they can be dumped again, and dumping loses nothing of them. -/

namespace ServerCore.Protocol

open ServerCore.Core ServerCore.Foundations

namespace JsonValue

structure Parsed (v : JsonValue) : Prop where
  ordered : v.Ordered
  dumpable : v.Dumpable
  reparsed : v.reparsed = v

lemma reparsedElements_eq (vs : List JsonValue) : reparsedElements vs = vs.map reparsed := by
  induction vs with
  | nil => rfl
  | cons v vs ih => rw [reparsedElements, ih, List.map_cons]

lemma Parsed.array {vs : List JsonValue} (h : ∀ v ∈ vs, v.Parsed) : (JsonValue.array vs).Parsed where
  ordered := forall_nodes_array.mpr ⟨trivial, fun v hv => (h v hv).ordered⟩
  dumpable := forall_nodes_array.mpr ⟨⟨trivial, trivial⟩, fun v hv => (h v hv).dumpable⟩
  reparsed := by
    rw [JsonValue.reparsed, reparsedElements_eq, List.map_congr_left fun v hv => (h v hv).reparsed, List.map_id']

lemma Parsed.object {ms : List (Bytes × JsonValue)} (hs : OrderedMap.Sorted ms) (hk : ∀ m ∈ ms, Utf8 m.1)
    (h : ∀ m ∈ ms, m.2.Parsed) : (JsonValue.object ms).Parsed where
  ordered := forall_nodes_object.mpr ⟨hs, fun m hm => (h m hm).ordered⟩
  dumpable := forall_nodes_object.mpr ⟨⟨hk, trivial⟩, fun m hm => (h m hm).dumpable⟩
  reparsed := by
    have hmap : (ms.map fun m => (m.1, m.2.reparsed)) = ms.map id :=
      List.map_congr_left fun m hm => Prod.ext rfl (h m hm).reparsed
    rw [JsonValue.reparsed, reparsedMembers_eq, hmap, List.map_id]

lemma parsed_object_iff {ms : List (Bytes × JsonValue)} : (JsonValue.object ms).Parsed ↔
    OrderedMap.Sorted ms ∧ (∀ m ∈ ms, Utf8 m.1) ∧ ∀ m ∈ ms, m.2.Parsed := by
  constructor
  · intro h
    obtain ⟨hs, ho⟩ := forall_nodes_object.mp h.ordered
    obtain ⟨⟨hk, -⟩, hd⟩ := forall_nodes_object.mp h.dumpable
    have hr := h.reparsed
    rw [JsonValue.reparsed, reparsedMembers_eq] at hr
    refine ⟨hs, hk, fun m hm => ⟨ho m hm, hd m hm, ?_⟩⟩
    have hmap : (ms.map fun m => (m.1, m.2.reparsed)) = ms.map id := by
      rw [List.map_id]
      exact JsonValue.object.inj hr
    exact (Prod.mk.inj (List.map_inj_left.mp hmap m hm)).2
  · rintro ⟨hs, hk, h⟩
    exact .object hs hk h

lemma Parsed.leaf {v : JsonValue} (hn : v.nodes = [v]) (ho : v.KeysSorted) (ht : v.TextsValid) (hf : v.NumberFinite)
    (hr : v.reparsed = v) : v.Parsed := by
  refine ⟨?_, ?_, hr⟩
  · rw [Ordered, hn]
    simpa using ho
  · rw [Dumpable, hn]
    simpa using ⟨ht, hf⟩

end JsonValue

namespace Json

variable {charconv : Charconv}

lemma digitsValue_pos {t : NumberToken} (hi : t.isInteger = true) (hn : t.negative = true) (hz : t.text ≠ [45, 48]) :
    0 < digitsValue t.integer := by
  obtain ⟨b, rest, hcons, hb⟩ := t.integer_digits.cons
  have hb0 : b ≠ 48 := by
    rintro rfl
    apply hz
    rw [NumberToken.text_of_isInteger hi, hn, t.no_leading_zero (by rw [hcons]; rfl)]
    rfl
  rw [hcons, digitsValue_cons]
  have hpos : 0 < b.toNat - 48 := by
    have hne : b.toNat ≠ 48 := fun h => hb0 (UInt8.toNat_inj.mp h)
    simp only [isDigit, Bool.and_eq_true, decide_eq_true_eq, UInt8.le_iff_toNat_le, UInt8.reduceToNat] at hb
    omega
  have := Nat.mul_pos hpos (Nat.pow_pos (n := rest.length) (show 0 < 10 by decide))
  omega

lemma doubleValue_parsed {text : Bytes} {v : JsonValue} (h : doubleValue charconv text = .ok v) :
    v.Parsed ∧ v.depth = 0 ∧ ∀ ms, v ≠ .object ms := by
  have hnumber : ∃ bits, v = .number bits ∧ isFinite bits = true := by
    rw [doubleValue] at h
    cases hc : fromCharsDouble charconv text with
    | none =>
      rw [hc, convertedValue] at h
      split_ifs at h
      refine ⟨_, (Except.ok.inj h).symm, ?_⟩
      cases decide (text.head? = some 45) <;>
        simp [isFinite, signedBits, Binary64.signBit, Binary64.infinityBits]
    | some bits =>
      rw [hc, convertedValue] at h
      split_ifs at h with hf
      exact ⟨bits, (Except.ok.inj h).symm, by simpa using hf⟩
  obtain ⟨bits, rfl, hf⟩ := hnumber
  exact ⟨.leaf rfl trivial trivial hf rfl, rfl, by simp⟩

lemma numberValue_parsed {t : NumberToken} {v : JsonValue} (h : numberValue charconv t.text = .ok v) :
    v.Parsed ∧ v.depth = 0 ∧ ∀ ms, v ≠ .object ms := by
  by_cases hdouble : t.isInteger = false ∨ t.text = [45, 48]
  · rw [NumberToken.numberValue_double charconv hdouble] at h
    exact doubleValue_parsed h
  · simp only [not_or, Bool.not_eq_false] at hdouble
    obtain ⟨hi, hz⟩ := hdouble
    rw [NumberToken.numberValue_integer charconv hi hz] at h
    split_ifs at h with hn hbound hbound
    · obtain rfl := Except.ok.inj h
      have hpos := digitsValue_pos hi hn hz
      have hneg : ¬ 0 ≤ (Int64.ofInt (-(digitsValue t.integer : ℤ))).toInt := by
        rw [Int64.toInt_ofInt_of_le (by omega) (by omega)]
        omega
      exact ⟨.leaf rfl trivial trivial trivial (by rw [JsonValue.reparsed, if_neg hneg]), rfl, by simp⟩
    · obtain rfl := Except.ok.inj h
      exact ⟨.leaf rfl trivial trivial trivial rfl, rfl, by simp⟩

section Strings

lemma ascii_of_hexDigit {b : Byte} (h : isHexDigit b = true) : b < 0x80 := by
  simp only [isHexDigit, isDigit, Bool.or_eq_true, Bool.and_eq_true, decide_eq_true_eq, UInt8.le_iff_toNat_le,
    UInt8.reduceToNat] at h
  rw [UInt8.lt_iff_toNat_lt]
  simp only [UInt8.reduceToNat]
  omega

lemma hexDigit_lt {b : Byte} (h : isHexDigit b = true) : hexDigit b < 16 := by
  simp only [isHexDigit, isDigit, Bool.or_eq_true, Bool.and_eq_true, decide_eq_true_eq, UInt8.le_iff_toNat_le,
    UInt8.reduceToNat] at h
  simp only [hexDigit, isDigit, Bool.and_eq_true, decide_eq_true_eq, UInt8.le_iff_toNat_le, UInt8.reduceToNat]
  split_ifs <;> omega

lemma simpleEscape_ascii {letter b : Byte} (h : simpleEscape letter = some b) : letter < 0x80 ∧ b < 0x80 := by
  simp only [simpleEscape] at h
  split_ifs at h
  all_goals
    subst letter
    obtain rfl := Option.some.inj h
    decide

lemma whitespace_ascii {w : Bytes} (h : Whitespace w) : ∀ b ∈ w, b < 0x80 := by
  intro b hb
  have := h b hb
  simp only [isWhitespace, Bool.or_eq_true, decide_eq_true_eq] at this
  rcases this with ((rfl | rfl) | rfl) | rfl <;> decide

lemma utf8_codePoint {n : ℕ} (hn : n < 0x110000) (h : isHighSurrogate n = false) (l : isLowSurrogate n = false) :
    Utf8 (appendUtf8 n) := by
  have hvalid : n.isValidChar := by
    simp only [isHighSurrogate, isLowSurrogate, Bool.and_eq_false_iff, decide_eq_false_iff_not] at h l
    simp only [Nat.isValidChar]
    omega
  obtain ⟨c, hc⟩ := exists_char hvalid
  rw [← hc]
  exact .char c

lemma utf8_surrogates {high low : ℕ} (h : isHighSurrogate high = true) (l : isLowSurrogate low = true) :
    Utf8 (appendUtf8 (combineSurrogates high low)) := by
  simp only [isHighSurrogate, isLowSurrogate, Bool.and_eq_true, decide_eq_true_eq] at h l
  have hn : combineSurrogates high low = 0x10000 + (high - 0xD800) * 1024 + (low - 0xDC00) := rfl
  generalize combineSurrogates high low = n at hn
  apply utf8_codePoint
  · omega
  · simp only [isHighSurrogate, Bool.and_eq_false_iff, decide_eq_false_iff_not]
    omega
  · simp only [isLowSurrogate, Bool.and_eq_false_iff, decide_eq_false_iff_not]
    omega

variable {d₁ d₂ d₃ d₄ : Byte}

lemma hex4_lt (hex : ∀ d ∈ [d₁, d₂, d₃, d₄], isHexDigit d = true) : StringItem.hex4 d₁ d₂ d₃ d₄ < 0x10000 := by
  have h₁ := hexDigit_lt (hex d₁ (by simp))
  have h₂ := hexDigit_lt (hex d₂ (by simp))
  have h₃ := hexDigit_lt (hex d₃ (by simp))
  have h₄ := hexDigit_lt (hex d₄ (by simp))
  simp only [StringItem.hex4]
  omega

lemma unicode_ascii (hex : ∀ d ∈ [d₁, d₂, d₃, d₄], isHexDigit d = true) : ∀ b ∈ [117, d₁, d₂, d₃, d₄], b < 0x80 := by
  rw [List.forall_mem_cons]
  exact ⟨by decide, fun b hb => ascii_of_hexDigit (hex b hb)⟩

lemma unescape_utf8 {items : List StringItem} (hp : surrogatesPaired items = true) {front : Bytes}
    (h : Utf8 (front ++ items.flatMap StringItem.text)) : Utf8 (front ++ unescape items) := by
  induction items using unescape.induct generalizing front with
  | case1 => exact h
  | case2 b h₁ h₂ h₃ rest ih =>
    rw [surrogatesPaired_raw] at hp
    have := @ih hp (front ++ [b]) (by simpa [StringItem.text] using h)
    simpa [unescape] using this
  | case3 letter b hs rest ih =>
    rw [surrogatesPaired_escape] at hp
    obtain ⟨hletter, hb⟩ := simpleEscape_ascii hs
    obtain ⟨hfront, hrest⟩ := Utf8.cut (b := 92) (by decide) h
    have htail : Utf8 (rest.flatMap StringItem.text) := hrest.of_ascii_append (w := [letter]) (by simpa using hletter)
    have hone : Utf8 [b] := .ofAscii (by simpa using hb)
    exact hfront.append (hone.append (@ih hp [] htail))
  | case4 d₁ d₂ d₃ d₄ hex hh => simp [surrogatesPaired, StringItem.codeUnit, hh] at hp
  | case5 d₁ d₂ d₃ d₄ hex hh next rest ih =>
    simp only [surrogatesPaired, StringItem.codeUnit, hh, ↓reduceIte, Bool.and_eq_true] at hp
    cases next with
    | raw => simp at hp
    | escape => simp at hp
    | unicode e₁ e₂ e₃ e₄ hex' =>
      have hl : isLowSurrogate (StringItem.hex4 e₁ e₂ e₃ e₄) = true := by simpa [StringItem.codeUnit] using hp.1
      obtain ⟨hfront, hrest⟩ := Utf8.cut (b := 92) (by decide) h
      obtain ⟨-, hrest⟩ := Utf8.cut (b := 92) (x := [117, d₁, d₂, d₃, d₄]) (by decide) hrest
      have htail : Utf8 (rest.flatMap StringItem.text) := hrest.of_ascii_append (unicode_ascii hex')
      have hpair := utf8_surrogates hh hl
      have := hfront.append (hpair.append (@ih hp.2 [] htail))
      simpa [unescape, hh, StringItem.codeUnit] using this
  | case6 d₁ d₂ d₃ d₄ hex rest hh ih =>
    have hh' : isHighSurrogate (StringItem.hex4 d₁ d₂ d₃ d₄) = false := by simpa using hh
    rw [surrogatesPaired_unicode hh', Bool.and_eq_true] at hp
    obtain ⟨hfront, hrest⟩ := Utf8.cut (b := 92) (by decide) h
    have htail : Utf8 (rest.flatMap StringItem.text) := hrest.of_ascii_append (unicode_ascii hex)
    have hone := utf8_codePoint (by have := hex4_lt hex; omega) hh' (by simpa using hp.1)
    rw [unescape_unicode hh']
    exact hfront.append (hone.append (@ih hp.2 [] htail))

lemma stringText_utf8 {items : List StringItem} (hp : surrogatesPaired items = true) (h : Utf8 (stringText items)) :
    Utf8 (unescape items) := by
  obtain ⟨-, htail⟩ := Utf8.cut (b := 34) (x := []) (by decide) h
  obtain ⟨hbody, -⟩ := Utf8.cut (b := 34) (y := []) (by decide) htail
  exact @unescape_utf8 items hp [] hbody

end Strings

def Item.Parsed (charconv : Charconv) : Item → Prop
  | .value t => t.Good charconv → (t.value charconv).Parsed ∧ (t.value charconv).depth ≤ t.depth
  | .elements ts => ∀ t ∈ ts, t.Good charconv → (t.value charconv).Parsed ∧ (t.value charconv).depth ≤ t.depth
  | .members ms => ∀ m ∈ ms, surrogatesPaired m.1 = true → m.2.Good charconv →
      Utf8 (unescape m.1) ∧ (m.2.value charconv).Parsed ∧ (m.2.value charconv).depth ≤ m.2.depth

lemma elementValues_eq (ts : List Tree) : Tree.elementValues charconv ts = ts.map (Tree.value charconv) := by
  induction ts with
  | nil => rfl
  | cons t ts ih => rw [Tree.elementValues, ih, List.map_cons]

lemma parsed_array {ts : List Tree} (h : Item.Parsed charconv (.elements ts)) :
    Item.Parsed charconv (.value (.array ts)) := by
  intro hg
  rw [Tree.good_array] at hg
  rw [Tree.value, elementValues_eq]
  refine ⟨.array ?_, ?_⟩
  · rw [List.forall_mem_map]
    exact fun t ht => (h t ht (hg t ht)).1
  · rw [JsonValue.depth, Tree.depth, ← Nat.zero_add (JsonValue.elementDepth _), JsonValue.add_elementDepth_le_iff,
      List.forall_mem_map]
    refine ⟨Nat.zero_le _, fun t ht => ?_⟩
    have hle := Tree.elementDepth_le_iff.mp (le_refl (Tree.elementDepth ts)) t ht
    have := (h t ht (hg t ht)).2
    omega

lemma parsed_object {ms : List (List StringItem × Tree)} (h : Item.Parsed charconv (.members ms)) :
    Item.Parsed charconv (.value (.object ms)) := by
  intro hg
  obtain ⟨⟨hp, hkeys⟩, hg⟩ := Tree.good_object.mp hg
  obtain ⟨object, hobject⟩ := Option.isSome_iff_exists.mp (Tree.insertAll_memberValues.mpr hkeys)
  have hmem : ∀ m ∈ object, ∃ e ∈ ms, m = (unescape e.1, e.2.value charconv) := by
    intro m hm
    have := (OrderedMap.insertAll_perm hobject).mem_iff.mp hm
    rw [List.append_nil, Tree.memberValues_eq, List.mem_map] at this
    obtain ⟨e, he, rfl⟩ := this
    exact ⟨e, he, rfl⟩
  rw [Tree.value, hobject, Option.getD_some]
  refine ⟨.object ?_ ?_ ?_, ?_⟩
  · exact OrderedMap.insertAll_keeps_sorted List.Pairwise.nil hobject
  · intro m hm
    obtain ⟨e, he, rfl⟩ := hmem m hm
    exact (h e he (hp e he) (hg e he)).1
  · intro m hm
    obtain ⟨e, he, rfl⟩ := hmem m hm
    exact (h e he (hp e he) (hg e he)).2.1
  · rw [JsonValue.depth, Tree.depth, ← Nat.zero_add (JsonValue.memberDepth _), JsonValue.add_memberDepth_le_iff]
    refine ⟨Nat.zero_le _, fun m hm => ?_⟩
    obtain ⟨e, he, rfl⟩ := hmem m hm
    have hle := Tree.memberDepth_le_iff.mp (le_refl (Tree.memberDepth ms)) e he
    have := (h e he (hp e he) (hg e he)).2.2
    simp only
    omega

lemma spells_parsed {item : Item} {x : Bytes} (h : Spells item x) (hx : Utf8 x) : item.Parsed charconv := by
  induction h with
  | null => exact fun _ => ⟨.leaf rfl trivial trivial trivial rfl, le_refl _⟩
  | boolean b => exact fun _ => ⟨.leaf rfl trivial trivial trivial rfl, le_refl _⟩
  | number t =>
    intro hg
    obtain ⟨v, hv⟩ : ∃ v, numberValue charconv t.text = .ok v := hg (.number t) (by simp [Tree.nodes])
    obtain ⟨hp, hd, -⟩ := numberValue_parsed hv
    rw [Tree.value, hv]
    exact ⟨hp, hd.le⟩
  | string items =>
    intro hg
    have hp : surrogatesPaired items = true := hg (.string items) (by simp [Tree.nodes])
    exact ⟨.leaf rfl trivial (stringText_utf8 hp hx) trivial rfl, le_refl _⟩
  | emptyArray hw => exact parsed_array fun t ht => absurd ht (by simp)
  | @array w ts x hw hs ih =>
    obtain ⟨-, hx⟩ := Utf8.cut (b := 91) (x := []) (by decide) hx
    obtain ⟨hx, -⟩ := Utf8.cut (b := 93) (x := w ++ x) (y := []) (by decide) hx
    exact parsed_array (ih (hx.of_ascii_append (whitespace_ascii hw)))
  | emptyObject hw => exact parsed_object fun m hm => absurd hm (by simp)
  | @object w ms x hw hs ih =>
    obtain ⟨-, hx⟩ := Utf8.cut (b := 123) (x := []) (by decide) hx
    obtain ⟨hx, -⟩ := Utf8.cut (b := 125) (x := w ++ x) (y := []) (by decide) hx
    exact parsed_object (ih (hx.of_ascii_append (whitespace_ascii hw)))
  | lastElement hs hw ih =>
    intro t ht
    obtain rfl := List.mem_singleton.mp ht
    exact ih (hx.of_append_ascii (whitespace_ascii hw))
  | @element t x w w' ts y hs hw hw' hs' ih ih' =>
    obtain ⟨hx, hy⟩ := Utf8.cut (b := 44) (x := x ++ w) (y := w' ++ y) (by decide) (by simpa using hx)
    intro t' ht'
    rcases List.mem_cons.mp ht' with rfl | ht'
    · exact ih (hx.of_append_ascii (whitespace_ascii hw))
    · exact ih' (hy.of_ascii_append (whitespace_ascii hw')) t' ht'
  | @lastMember key w w' t x w'' hw hw' hs hw'' ih =>
    obtain ⟨hkey, hx⟩ := Utf8.cut (b := 58) (x := stringText key ++ w) (y := w' ++ (x ++ w'')) (by decide)
      (by simpa using hx)
    intro m hm hp hg
    obtain rfl := List.mem_singleton.mp hm
    have hvalue := (hx.of_ascii_append (whitespace_ascii hw')).of_append_ascii (whitespace_ascii hw'')
    exact ⟨stringText_utf8 hp (hkey.of_append_ascii (whitespace_ascii hw)), ih hvalue hg⟩
  | @member key w w' t x w'' w₃ ms y hw hw' hs hw'' hw₃ hs' ih ih' =>
    obtain ⟨hkey, hx⟩ := Utf8.cut (b := 58) (x := stringText key ++ w) (y := w' ++ (x ++ w'') ++ 44 :: (w₃ ++ y))
      (by decide) (by simpa using hx)
    obtain ⟨hx, hy⟩ := Utf8.cut (b := 44) (by decide) hx
    intro m hm hp hg
    rcases List.mem_cons.mp hm with rfl | hm
    · have hvalue := (hx.of_ascii_append (whitespace_ascii hw')).of_append_ascii (whitespace_ascii hw'')
      exact ⟨stringText_utf8 hp (hkey.of_append_ascii (whitespace_ascii hw)), ih hvalue hg⟩
    · exact ih' (hy.of_ascii_append (whitespace_ascii hw₃)) m hm hp hg

lemma utf8_behind_mark {rest : Bytes} (h : Utf8 (byteOrderMark ++ rest)) : Utf8 rest := by
  have hmark : byteOrderMark = appendUtf8 (Char.ofNat 0xFEFF).toNat := by decide
  rw [← isValidUtf8_iff, hmark, isValidUtf8_append] at h
  exact (isValidUtf8_iff rest).mp h

lemma IsText.parsed {t : Tree} {text : Bytes} (h : IsText t text) (hutf : Utf8 text) (hg : t.Good charconv) :
    (t.value charconv).Parsed ∧ (t.value charconv).depth ≤ t.depth := by
  obtain ⟨mark, w, x, w', hmark, rfl, hw, hs, hw'⟩ := h
  have hrest : Utf8 (w ++ x ++ w') := by
    rcases hmark with rfl | rfl
    · exact hutf
    · apply utf8_behind_mark
      simpa using hutf
  have hx := (hrest.of_append_ascii (whitespace_ascii hw')).of_ascii_append (whitespace_ascii hw)
  exact spells_parsed hs hx hg

lemma parseDocument_parsed {text : Bytes} {maxValues : ℕ} {v : JsonValue} (hutf : Utf8 text)
    (h : parseDocument charconv text maxValues = .ok v) : v.Parsed ∧ v.depth ≤ maximumJsonNestingDepth := by
  obtain ⟨t, htext, hg, hd, rfl⟩ := parseDocument_sound h
  obtain ⟨hp, hle⟩ := htext.parsed hutf hg
  exact ⟨hp, hle.trans hd⟩

end Json

end ServerCore.Protocol
