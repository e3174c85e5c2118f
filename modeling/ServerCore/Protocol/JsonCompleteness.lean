import ServerCore.Protocol.JsonSoundness

/-! Every text that spells an acceptable tree is parsed to the tree's value. -/

namespace ServerCore.Protocol.Json

open ServerCore.Core ServerCore.Foundations

lemma numberText_head (t : NumberToken) : ∃ b x, t.text = b :: x ∧ (b = 45 ∨ isDigit b = true) := by
  simp only [NumberToken.text]
  cases t.negative with
  | true => exact ⟨45, _, rfl, .inl rfl⟩
  | false =>
    obtain ⟨b, rest, hint, hb⟩ := t.integer_digits.cons
    exact ⟨b, _, by rw [hint]; rfl, .inr hb⟩

lemma spells_head {item : Item} {x : Bytes} (h : Spells item x) :
    ∃ b x', x = b :: x' ∧ isWhitespace b = false ∧ b ≠ 93 ∧ b ≠ 125 ∧ b < 0x80 := by
  induction h with
  | null => exact ⟨110, _, rfl, rfl, by decide, by decide, by decide⟩
  | boolean b =>
    cases b with
    | true => exact ⟨116, _, rfl, rfl, by decide, by decide, by decide⟩
    | false => exact ⟨102, _, rfl, rfl, by decide, by decide, by decide⟩
  | number t =>
    obtain ⟨b, x, hx, hb⟩ := numberText_head t
    refine ⟨b, x, hx, ?_⟩
    rcases hb with rfl | hb
    · exact ⟨rfl, by decide, by decide, by decide⟩
    · refine ⟨?_, ?_, ?_, ?_⟩
      · simp only [isWhitespace, Bool.or_eq_false_iff, decide_eq_false_iff_not]
        refine ⟨⟨⟨?_, ?_⟩, ?_⟩, ?_⟩ <;> rintro rfl <;> simp [isDigit] at hb
      · rintro rfl
        simp [isDigit] at hb
      · rintro rfl
        simp [isDigit] at hb
      · simp only [isDigit, Bool.and_eq_true, decide_eq_true_eq] at hb
        exact UInt8.lt_of_le_of_lt hb.2 (by decide)
  | string | lastMember | member => exact ⟨34, _, rfl, rfl, by decide, by decide, by decide⟩
  | emptyArray | array => exact ⟨91, _, rfl, rfl, by decide, by decide, by decide⟩
  | emptyObject | object => exact ⟨123, _, rfl, rfl, by decide, by decide, by decide⟩
  | lastElement _ _ ih =>
    obtain ⟨b, x', rfl, h⟩ := ih
    exact ⟨b, _, rfl, h⟩
  | element _ _ _ _ ih =>
    obtain ⟨b, x', rfl, h⟩ := ih
    exact ⟨b, _, rfl, h⟩

lemma skipWhitespace_spells {item : Item} {w x : Bytes} (hw : Whitespace w) (h : Spells item x) (y : Bytes) :
    skipWhitespace (w ++ (x ++ y)) = x ++ y := by
  obtain ⟨b, x', rfl, hb, -⟩ := spells_head h
  rw [skipWhitespace_append hw, List.cons_append, skipWhitespace_cons hb]

lemma skipWhitespace_byte {w y : Bytes} {b : Byte} (hw : Whitespace w) (hb : isWhitespace b = false) :
    skipWhitespace (w ++ b :: y) = b :: y := by
  rw [skipWhitespace_append hw, skipWhitespace_cons hb]

lemma consume_spells {item : Item} {x : Bytes} (h : Spells item x) (y : Bytes) :
    consume 93 (x ++ y) = none ∧ consume 125 (x ++ y) = none := by
  obtain ⟨b, x', rfl, -, h₁, h₂, -⟩ := spells_head h
  exact ⟨consume_ne h₁, consume_ne h₂⟩

lemma Follows.append {w y : Bytes} (hw : Whitespace w) (hy : Follows y) : Follows (w ++ y) := by
  intro b hb
  cases w with
  | nil => exact hy b hb
  | cons b' w =>
    obtain rfl : b' = b := by simpa using hb
    exact .inl (hw b' (by simp))

lemma follows_comma (y : Bytes) : Follows (44 :: y) := by
  rintro b ⟨⟩
  exact .inr (.inl rfl)

lemma follows_bracket (y : Bytes) : Follows (93 :: y) := by
  rintro b ⟨⟩
  exact .inr (.inr (.inl rfl))

lemma follows_brace (y : Bytes) : Follows (125 :: y) := by
  rintro b ⟨⟩
  exact .inr (.inr (.inr rfl))

variable (charconv : Charconv)

def Parses : Item → Bytes → Prop
  | .value t, x => t.Good charconv → ∀ fuel depth remaining y, 3 * x.length ≤ fuel →
      depth + t.depth ≤ maximumJsonNestingDepth → x.length ≤ remaining → Follows y →
      ∃ remaining', remaining ≤ remaining' + x.length ∧
        parseValue charconv fuel depth ⟨x ++ y, remaining⟩ = .ok (t.value charconv, ⟨y, remaining'⟩)
  | .elements ts, x => (∀ t ∈ ts, t.Good charconv) → ∀ fuel depth remaining result y,
      3 * x.length + 1 ≤ fuel → (∀ t ∈ ts, depth + t.depth ≤ maximumJsonNestingDepth) →
      x.length ≤ remaining →
      ∃ remaining', remaining ≤ remaining' + x.length ∧
        elementLoop charconv fuel depth result ⟨x ++ 93 :: y, remaining⟩ =
          .ok (result ++ Tree.elementValues charconv ts, ⟨y, remaining'⟩)
  | .members ms, x => (∀ m ∈ ms, surrogatesPaired m.1 = true ∧ m.2.Good charconv) →
      ∀ fuel depth remaining top result object y, 3 * x.length + 1 ≤ fuel →
      (∀ m ∈ ms, depth + m.2.depth ≤ maximumJsonNestingDepth) → x.length ≤ remaining →
      OrderedMap.insertAll result (Tree.memberValues charconv ms) = some object →
      ∃ top' remaining', remaining ≤ remaining' + x.length ∧
        memberLoop charconv fuel depth top result ⟨x ++ 125 :: y, remaining⟩ =
          .ok (object, top', ⟨y, remaining'⟩)

variable {charconv}

lemma parseValue_dispatch {fuel depth remaining : ℕ} {b : Byte} {x : Bytes}
    (hd : depth ≤ maximumJsonNestingDepth) (hr : 0 < remaining) :
    parseValue charconv (fuel + 1) depth ⟨b :: x, remaining⟩ =
      if b = 110 then do
        let rest ← parseLiteral (ascii "null") (b :: x)
        .ok (.null, ⟨rest, remaining - 1⟩)
      else if b = 116 then do
        let rest ← parseLiteral (ascii "true") (b :: x)
        .ok (.boolean true, ⟨rest, remaining - 1⟩)
      else if b = 102 then do
        let rest ← parseLiteral (ascii "false") (b :: x)
        .ok (.boolean false, ⟨rest, remaining - 1⟩)
      else if b = 34 then do
        let (text, rest) ← parseString (b :: x)
        .ok (.string text, ⟨rest, remaining - 1⟩)
      else if b = 91 then do
        let (elements, c) ← parseArray charconv fuel (depth + 1) ⟨b :: x, remaining - 1⟩
        .ok (.array elements, c)
      else if b = 123 then do
        let (members, _, c) ← parseObjectMembers charconv fuel (depth + 1) none ⟨b :: x, remaining - 1⟩
        .ok (.object members, c)
      else if b = 45 || isDigit b then do
        let (value, rest) ← parseNumber charconv (b :: x)
        .ok (value, ⟨rest, remaining - 1⟩)
      else .error (.format "invalid value" (b :: x)) := by
  have hd' : ¬ depth > maximumJsonNestingDepth := by omega
  have hr' : remaining ≠ 0 := by omega
  simp only [parseValue, hd', hr', ↓reduceIte]

lemma parses_leaf {t : Tree} {x : Bytes} (hx : 0 < x.length)
    (h : t.Good charconv → ∀ fuel depth remaining y, depth ≤ maximumJsonNestingDepth → 0 < remaining →
      Follows y → parseValue charconv (fuel + 1) depth ⟨x ++ y, remaining⟩ =
        .ok (t.value charconv, ⟨y, remaining - 1⟩)) : Parses charconv (.value t) x := by
  intro hg fuel depth remaining y hf hd hr hy
  obtain ⟨fuel, rfl⟩ : ∃ n, fuel = n + 1 := ⟨fuel - 1, by omega⟩
  exact ⟨remaining - 1, by omega, h hg fuel depth remaining y (by omega) (by omega) hy⟩

lemma parses_null : Parses charconv (.value .null) (ascii "null") := by
  refine parses_leaf (by decide) fun _ fuel depth remaining y hd hr _ => ?_
  have hx : ascii "null" = 110 :: [117, 108, 108] := rfl
  have hl := parseLiteral_eq_ok.mpr (rfl : ascii "null" ++ y = ascii "null" ++ y)
  rw [hx, List.cons_append] at hl ⊢
  rw [parseValue_dispatch hd hr, if_pos rfl, hx, hl]
  rfl

lemma parses_boolean (b : Bool) :
    Parses charconv (.value (.boolean b)) (if b then ascii "true" else ascii "false") := by
  cases b with
  | true =>
    refine parses_leaf (by decide) fun _ fuel depth remaining y hd hr _ => ?_
    have hx : ascii "true" = 116 :: [114, 117, 101] := rfl
    have hl := parseLiteral_eq_ok.mpr (rfl : ascii "true" ++ y = ascii "true" ++ y)
    simp only [↓reduceIte]
    rw [hx, List.cons_append] at hl ⊢
    rw [parseValue_dispatch hd hr, if_neg (by decide), if_pos rfl, hx, hl]
    rfl
  | false =>
    refine parses_leaf (by decide) fun _ fuel depth remaining y hd hr _ => ?_
    have hx : ascii "false" = 102 :: [97, 108, 115, 101] := rfl
    have hl := parseLiteral_eq_ok.mpr (rfl : ascii "false" ++ y = ascii "false" ++ y)
    simp only [Bool.false_eq_true, ↓reduceIte]
    rw [hx, List.cons_append] at hl ⊢
    rw [parseValue_dispatch hd hr, if_neg (by decide), if_neg (by decide), if_pos rfl, hx, hl]
    rfl

lemma parses_string (items : List StringItem) : Parses charconv (.value (.string items)) (stringText items) := by
  refine parses_leaf (by simp [stringText]) fun hg fuel depth remaining y hd hr _ => ?_
  have hp : surrogatesPaired items = true := hg (.string items) (by simp [Tree.nodes])
  have hs := parseString_eq_ok.mpr ⟨items, hp, (rfl : stringText items ++ y = stringText items ++ y), rfl⟩
  rw [stringText, List.cons_append, List.cons_append] at hs ⊢
  rw [parseValue_dispatch hd hr, if_neg (by decide), if_neg (by decide), if_neg (by decide), if_pos rfl, hs]
  rfl

lemma parses_number (t : NumberToken) : Parses charconv (.value (.number t)) t.text := by
  refine parses_leaf (List.length_pos_iff.mpr (numberText_ne_nil t)) fun hg fuel depth remaining y hd hr hy => ?_
  obtain ⟨v, hv⟩ : ∃ v, numberValue charconv t.text = .ok v := hg (.number t) (by simp [Tree.nodes])
  have hn := parseNumber_complete charconv t hy hv
  obtain ⟨b, x, hx, hb⟩ := numberText_head t
  have hvalue : (Tree.number t).value charconv = v := by simp [Tree.value, hv, Except.toOption]
  have hne : b ≠ 110 ∧ b ≠ 116 ∧ b ≠ 102 ∧ b ≠ 34 ∧ b ≠ 91 ∧ b ≠ 123 := by
    refine ⟨?_, ?_, ?_, ?_, ?_, ?_⟩ <;> rintro rfl <;> simp [isDigit] at hb
  have hb' : (b = 45 || isDigit b) = true := by simpa using hb
  rw [hvalue]
  rw [hx, List.cons_append] at hn ⊢
  rw [parseValue_dispatch hd hr, if_neg hne.1, if_neg hne.2.1, if_neg hne.2.2.1, if_neg hne.2.2.2.1,
    if_neg hne.2.2.2.2.1, if_neg hne.2.2.2.2.2, if_pos hb', hn]
  rfl

lemma parseArray_empty {fuel depth remaining : ℕ} {w : Bytes} (hw : Whitespace w) (y : Bytes) :
    parseArray charconv (fuel + 1) depth ⟨91 :: w ++ [93] ++ y, remaining⟩ = .ok ([], ⟨y, remaining⟩) := by
  simp only [parseArray, List.cons_append, List.append_assoc, consume_cons, Option.getD_some, List.nil_append]
  rw [skipWhitespace_byte hw rfl, consume_cons]

lemma parseArray_elements {fuel depth remaining : ℕ} {w x : Bytes} {ts : List Tree} (hw : Whitespace w)
    (h : Spells (.elements ts) x) (y : Bytes) :
    parseArray charconv (fuel + 1) depth ⟨91 :: w ++ x ++ [93] ++ y, remaining⟩ =
      elementLoop charconv fuel depth [] ⟨x ++ 93 :: y, remaining⟩ := by
  simp only [parseArray, List.cons_append, List.append_assoc, consume_cons, Option.getD_some, List.nil_append]
  rw [skipWhitespace_spells hw h, (consume_spells h _).1]

lemma parseObjectMembers_empty {fuel depth remaining : ℕ} {top : Option TopLevelMembers} {w : Bytes}
    (hw : Whitespace w) (y : Bytes) :
    parseObjectMembers charconv (fuel + 1) depth top ⟨123 :: w ++ [125] ++ y, remaining⟩ =
      .ok ([], top, ⟨y, remaining⟩) := by
  simp only [parseObjectMembers, List.cons_append, List.append_assoc, consume_cons, Option.getD_some,
    List.nil_append]
  rw [skipWhitespace_byte hw rfl, consume_cons]

lemma parseObjectMembers_members {fuel depth remaining : ℕ} {top : Option TopLevelMembers} {w x : Bytes}
    {ms : List (List StringItem × Tree)} (hw : Whitespace w) (h : Spells (.members ms) x) (y : Bytes) :
    parseObjectMembers charconv (fuel + 1) depth top ⟨123 :: w ++ x ++ [125] ++ y, remaining⟩ =
      memberLoop charconv fuel depth top [] ⟨x ++ 125 :: y, remaining⟩ := by
  simp only [parseObjectMembers, List.cons_append, List.append_assoc, consume_cons, Option.getD_some,
    List.nil_append]
  rw [skipWhitespace_spells hw h, (consume_spells h _).2]

lemma parseValue_array {fuel depth remaining remaining' : ℕ} {ts : List Tree} {x y : Bytes}
    (hd : depth ≤ maximumJsonNestingDepth) (hr : 0 < remaining)
    (h : parseArray charconv fuel (depth + 1) ⟨91 :: x, remaining - 1⟩ =
      .ok (Tree.elementValues charconv ts, ⟨y, remaining'⟩)) :
    parseValue charconv (fuel + 1) depth ⟨91 :: x, remaining⟩ =
      .ok ((Tree.array ts).value charconv, ⟨y, remaining'⟩) := by
  rw [parseValue_dispatch hd hr, if_neg (by decide), if_neg (by decide), if_neg (by decide),
    if_neg (by decide), if_pos rfl, h]
  rfl

lemma parseValue_object {fuel depth remaining remaining' : ℕ} {ms : List (List StringItem × Tree)}
    {object : List (Bytes × JsonValue)} {top' : Option TopLevelMembers} {x y : Bytes}
    (hd : depth ≤ maximumJsonNestingDepth) (hr : 0 < remaining)
    (hv : OrderedMap.insertAll [] (Tree.memberValues charconv ms) = some object)
    (h : parseObjectMembers charconv fuel (depth + 1) none ⟨123 :: x, remaining - 1⟩ =
      .ok (object, top', ⟨y, remaining'⟩)) :
    parseValue charconv (fuel + 1) depth ⟨123 :: x, remaining⟩ =
      .ok ((Tree.object ms).value charconv, ⟨y, remaining'⟩) := by
  rw [parseValue_dispatch hd hr, if_neg (by decide), if_neg (by decide), if_neg (by decide),
    if_neg (by decide), if_neg (by decide), if_pos rfl, h, Tree.value, hv]
  rfl

lemma parses_array {w x : Bytes} {ts : List Tree} (hw : Whitespace w) (hs : Spells (.elements ts) x)
    (ih : Parses charconv (.elements ts) x) :
    Parses charconv (.value (.array ts)) (91 :: w ++ x ++ [93]) := by
  intro hg fuel depth remaining y hf hd hr _
  have hlen : (91 :: w ++ x ++ [93]).length = w.length + x.length + 2 := by
    simp [Nat.add_assoc]
  obtain ⟨fuel, rfl⟩ : ∃ n, fuel = n + 2 := ⟨fuel - 2, by omega⟩
  have hdepth : ∀ t ∈ ts, depth + 1 + t.depth ≤ maximumJsonNestingDepth := by
    have hle : Tree.elementDepth ts ≤ maximumJsonNestingDepth - depth := by
      have : (Tree.array ts).depth = Tree.elementDepth ts := rfl
      omega
    intro t ht
    have := Tree.elementDepth_le_iff.mp hle t ht
    omega
  obtain ⟨remaining', hr', hloop⟩ := ih (Tree.good_array.mp hg) fuel (depth + 1) (remaining - 1) [] y
    (by omega) hdepth (by omega)
  have harr : parseArray charconv (fuel + 1) (depth + 1) ⟨91 :: w ++ x ++ [93] ++ y, remaining - 1⟩ = _ :=
    parseArray_elements hw hs y
  exact ⟨remaining', by omega, parseValue_array (by omega) (by omega) (harr.trans hloop)⟩

lemma parses_object {w x : Bytes} {ms : List (List StringItem × Tree)} (hw : Whitespace w)
    (hs : Spells (.members ms) x) (ih : Parses charconv (.members ms) x) :
    Parses charconv (.value (.object ms)) (123 :: w ++ x ++ [125]) := by
  intro hg fuel depth remaining y hf hd hr _
  obtain ⟨⟨hpaired, hkeys⟩, hgood⟩ := Tree.good_object.mp hg
  have hlen : (123 :: w ++ x ++ [125]).length = w.length + x.length + 2 := by
    simp [Nat.add_assoc]
  obtain ⟨fuel, rfl⟩ : ∃ n, fuel = n + 2 := ⟨fuel - 2, by omega⟩
  have hdepth : ∀ m ∈ ms, depth + 1 + m.2.depth ≤ maximumJsonNestingDepth := by
    have hle : Tree.memberDepth ms ≤ maximumJsonNestingDepth - depth := by
      have : (Tree.object ms).depth = Tree.memberDepth ms := rfl
      omega
    intro m hm
    have := Tree.memberDepth_le_iff.mp hle m hm
    omega
  obtain ⟨object, hv⟩ := Option.isSome_iff_exists.mp (Tree.insertAll_memberValues.mpr hkeys)
  obtain ⟨top', remaining', hr', hloop⟩ := ih (fun m hm => ⟨hpaired m hm, hgood m hm⟩) fuel (depth + 1)
    (remaining - 1) none [] object y (by omega) hdepth (by omega) hv
  have hobj : parseObjectMembers charconv (fuel + 1) (depth + 1) none
      ⟨123 :: w ++ x ++ [125] ++ y, remaining - 1⟩ = _ := parseObjectMembers_members hw hs y
  exact ⟨remaining', by omega, parseValue_object (by omega) (by omega) hv (hobj.trans hloop)⟩

lemma elementLoop_last {fuel depth remaining remaining' : ℕ} {result : List JsonValue} {v : JsonValue}
    {x w y : Bytes} (hw : Whitespace w)
    (h : parseValue charconv fuel depth ⟨x ++ (w ++ 93 :: y), remaining⟩ = .ok (v, ⟨w ++ 93 :: y, remaining'⟩)) :
    elementLoop charconv (fuel + 1) depth result ⟨x ++ w ++ 93 :: y, remaining⟩ =
      .ok (result ++ [v], ⟨y, remaining'⟩) := by
  rw [elementLoop, List.append_assoc, h]
  simp only [bind, Except.bind]
  rw [skipWhitespace_byte hw rfl, consume_cons]

lemma elementLoop_next {fuel depth remaining remaining' : ℕ} {result : List JsonValue} {v : JsonValue}
    {x w w' z : Bytes} {item : Item} {x' : Bytes} (hw : Whitespace w) (hw' : Whitespace w')
    (hz : Spells item x')
    (h : parseValue charconv fuel depth ⟨x ++ (w ++ 44 :: (w' ++ (x' ++ z))), remaining⟩ =
      .ok (v, ⟨w ++ 44 :: (w' ++ (x' ++ z)), remaining'⟩)) :
    elementLoop charconv (fuel + 1) depth result ⟨x ++ w ++ 44 :: w' ++ x' ++ z, remaining⟩ =
      elementLoop charconv fuel depth (result ++ [v]) ⟨x' ++ z, remaining'⟩ := by
  have hassoc : x ++ w ++ 44 :: w' ++ x' ++ z = x ++ (w ++ 44 :: (w' ++ (x' ++ z))) := by simp
  rw [elementLoop, hassoc, h]
  simp only [bind, Except.bind]
  rw [skipWhitespace_byte hw rfl, consume_ne (by decide)]
  simp only [consume_cons]
  rw [skipWhitespace_spells hw' hz]

lemma parses_lastElement {t : Tree} {x w : Bytes} (ih : Parses charconv (.value t) x) (hw : Whitespace w) :
    Parses charconv (.elements [t]) (x ++ w) := by
  intro hg fuel depth remaining result y hf hd hr
  simp only [List.length_append] at hf hr ⊢
  obtain ⟨fuel, rfl⟩ : ∃ n, fuel = n + 1 := ⟨fuel - 1, by omega⟩
  obtain ⟨remaining', hr', h⟩ := ih (hg t (by simp)) fuel depth remaining (w ++ 93 :: y) (by omega)
    (hd t (by simp)) (by omega) (.append hw (follows_bracket y))
  exact ⟨remaining', by omega, elementLoop_last hw h⟩

lemma parses_element {t : Tree} {ts : List Tree} {x w w' y : Bytes} (hs : Spells (.value t) x)
    (hs' : Spells (.elements ts) y) (ih : Parses charconv (.value t) x)
    (ih' : Parses charconv (.elements ts) y) (hw : Whitespace w) (hw' : Whitespace w') :
    Parses charconv (.elements (t :: ts)) (x ++ w ++ 44 :: w' ++ y) := by
  intro hg fuel depth remaining result z hf hd hr
  have hx := spells_length hs
  have hlen : (x ++ w ++ 44 :: w' ++ y).length = x.length + w.length + w'.length + y.length + 1 := by
    simp only [List.length_append, List.length_cons]
    omega
  rw [hlen] at hf hr ⊢
  obtain ⟨fuel, rfl⟩ : ∃ n, fuel = n + 1 := ⟨fuel - 1, by omega⟩
  obtain ⟨remaining₁, hr₁, h₁⟩ := ih (hg t (by simp)) fuel depth remaining (w ++ 44 :: (w' ++ (y ++ 93 :: z)))
    (by omega) (hd t (by simp)) (by omega) (.append hw (follows_comma _))
  obtain ⟨remaining₂, hr₂, h₂⟩ := ih' (fun t' ht => hg t' (by simp [ht])) fuel depth remaining₁
    (result ++ [t.value charconv]) z (by omega) (fun t' ht => hd t' (by simp [ht])) (by omega)
  refine ⟨remaining₂, by omega, ?_⟩
  rw [elementLoop_next hw hw' hs' h₁, h₂, Tree.elementValues, List.append_assoc, List.singleton_append]

lemma memberLoop_key {fuel depth remaining remaining' : ℕ} (top : Option TopLevelMembers)
    {result result' : List (Bytes × JsonValue)} {items : List StringItem} {v : JsonValue} {w w' x z : Bytes}
    {t : Tree} (hp : surrogatesPaired items = true) (hw : Whitespace w) (hw' : Whitespace w')
    (hs : Spells (.value t) x) (hins : OrderedMap.insert (unescape items) v result = some result')
    (h : parseValue charconv fuel depth ⟨x ++ z, remaining⟩ = .ok (v, ⟨z, remaining'⟩)) :
    ∃ top', memberLoop charconv (fuel + 1) depth top result
        ⟨stringText items ++ (w ++ 58 :: (w' ++ (x ++ z))), remaining⟩ =
      match consume 125 (skipWhitespace z) with
      | some rest => .ok (result', top', ⟨rest, remaining'⟩)
      | none =>
        match consume 44 (skipWhitespace z) with
        | none => .error (.format "expected ',' or '\x7d'" (skipWhitespace z))
        | some rest => memberLoop charconv fuel depth top' result' ⟨skipWhitespace rest, remaining'⟩ := by
  have hstr := parseString_eq_ok.mpr ⟨items, hp,
    (rfl : stringText items ++ (w ++ 58 :: (w' ++ (x ++ z))) = _), rfl⟩
  have hhead : (stringText items ++ (w ++ 58 :: (w' ++ (x ++ z)))).head? = some 34 := rfl
  have hins' : emplace (unescape items) v result = some result' := hins
  refine ⟨top.map fun members => if unescape items = ascii "body" then ⟨true, (x ++ z).length - z.length⟩
    else members, ?_⟩
  rw [memberLoop]
  simp only [hhead, ne_eq, not_true_eq_false, ↓reduceIte, hstr, bind, Except.bind]
  rw [skipWhitespace_byte hw rfl]
  simp only [consume_cons]
  rw [skipWhitespace_spells hw' hs, h]
  simp only [hins'] <;> rfl

lemma parses_lastMember {items : List StringItem} {t : Tree} {x w w' w'' : Bytes} (hw : Whitespace w)
    (hw' : Whitespace w') (hs : Spells (.value t) x) (ih : Parses charconv (.value t) x)
    (hw'' : Whitespace w'') :
    Parses charconv (.members [(items, t)]) (stringText items ++ w ++ 58 :: w' ++ x ++ w'') := by
  intro hg fuel depth remaining top result object y hf hd hr hv
  obtain ⟨hp, hg⟩ := hg (items, t) (by simp)
  have hlen : x.length + w''.length + 1 ≤ (stringText items ++ w ++ 58 :: w' ++ x ++ w'').length := by
    simp only [List.length_append, List.length_cons]
    omega
  obtain ⟨fuel, rfl⟩ : ∃ n, fuel = n + 1 := ⟨fuel - 1, by omega⟩
  obtain ⟨remaining', hr', h⟩ := ih hg fuel depth remaining (w'' ++ 125 :: y) (by omega)
    (hd (items, t) (by simp)) (by omega) (.append hw'' (follows_brace y))
  have hins : OrderedMap.insert (unescape items) (t.value charconv) result = some object := by
    simpa [Tree.memberValues, OrderedMap.insertAll, Option.bind_eq_some_iff] using hv
  obtain ⟨top', hloop⟩ := memberLoop_key top hp hw hw' hs hins h
  refine ⟨top', remaining', by omega, ?_⟩
  have hassoc : stringText items ++ w ++ 58 :: w' ++ x ++ w'' ++ 125 :: y =
      stringText items ++ (w ++ 58 :: (w' ++ (x ++ (w'' ++ 125 :: y)))) := by simp
  rw [hassoc, hloop, skipWhitespace_byte hw'' rfl, consume_cons]

lemma parses_member {items : List StringItem} {t : Tree} {ms : List (List StringItem × Tree)}
    {x w w' w'' w₃ y : Bytes} (hw : Whitespace w) (hw' : Whitespace w') (hs : Spells (.value t) x)
    (ih : Parses charconv (.value t) x) (hw'' : Whitespace w'') (hw₃ : Whitespace w₃)
    (hs' : Spells (.members ms) y) (ih' : Parses charconv (.members ms) y) :
    Parses charconv (.members ((items, t) :: ms))
      (stringText items ++ w ++ 58 :: w' ++ x ++ w'' ++ 44 :: w₃ ++ y) := by
  intro hg fuel depth remaining top result object z hf hd hr hv
  obtain ⟨hp, hgt⟩ := hg (items, t) (by simp)
  have hx := spells_length hs
  have hlen : x.length + y.length + 1 ≤
      (stringText items ++ w ++ 58 :: w' ++ x ++ w'' ++ 44 :: w₃ ++ y).length := by
    simp only [List.length_append, List.length_cons]
    omega
  obtain ⟨fuel, rfl⟩ : ∃ n, fuel = n + 1 := ⟨fuel - 1, by omega⟩
  obtain ⟨remaining₁, hr₁, h₁⟩ := ih hgt fuel depth remaining (w'' ++ 44 :: (w₃ ++ (y ++ 125 :: z)))
    (by omega) (hd (items, t) (by simp)) (by omega) (.append hw'' (follows_comma _))
  simp only [Tree.memberValues, OrderedMap.insertAll, Option.bind_eq_some_iff] at hv
  obtain ⟨result', hins, hv⟩ := hv
  obtain ⟨top', hloop⟩ := memberLoop_key top hp hw hw' hs hins h₁
  obtain ⟨top'', remaining₂, hr₂, h₂⟩ := ih' (fun m hm => hg m (by simp [hm])) fuel depth remaining₁ top' result'
    object z (by omega) (fun m hm => hd m (by simp [hm])) (by omega) hv
  refine ⟨top'', remaining₂, by omega, ?_⟩
  have hassoc : stringText items ++ w ++ 58 :: w' ++ x ++ w'' ++ 44 :: w₃ ++ y ++ 125 :: z =
      stringText items ++ (w ++ 58 :: (w' ++ (x ++ (w'' ++ 44 :: (w₃ ++ (y ++ 125 :: z)))))) := by simp
  rw [hassoc, hloop, skipWhitespace_byte hw'' rfl, consume_ne (by decide)]
  simp only [consume_cons]
  rw [skipWhitespace_spells hw₃ hs', h₂]

lemma parse_complete {item : Item} {x : Bytes} (h : Spells item x) : Parses charconv item x := by
  induction h with
  | null => exact parses_null
  | boolean b => exact parses_boolean b
  | number t => exact parses_number t
  | string items => exact parses_string items
  | emptyArray hw =>
    intro _ fuel depth remaining y hf hd hr _
    simp only [List.cons_append, List.length_cons, List.length_append] at hf hr ⊢
    obtain ⟨fuel, rfl⟩ : ∃ n, fuel = n + 2 := ⟨fuel - 2, by omega⟩
    exact ⟨remaining - 1, by omega, parseValue_array (by omega) (by omega) (parseArray_empty hw y)⟩
  | array hw hs ih => exact parses_array hw hs ih
  | emptyObject hw =>
    intro _ fuel depth remaining y hf hd hr _
    simp only [List.cons_append, List.length_cons, List.length_append] at hf hr ⊢
    obtain ⟨fuel, rfl⟩ : ∃ n, fuel = n + 2 := ⟨fuel - 2, by omega⟩
    exact ⟨remaining - 1, by omega,
      parseValue_object (by omega) (by omega) rfl (parseObjectMembers_empty hw y)⟩
  | object hw hs ih => exact parses_object hw hs ih
  | lastElement _ hw ih => exact parses_lastElement ih hw
  | element hs hw hw' hs' ih ih' => exact parses_element hs hs' ih ih' hw hw'
  | lastMember hw hw' hs hw'' ih => exact parses_lastMember hw hw' hs ih hw''
  | member hw hw' hs hw'' hw₃ hs' ih ih' => exact parses_member hw hw' hs ih hw'' hw₃ hs' ih'

end ServerCore.Protocol.Json
