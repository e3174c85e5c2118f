import ServerCore.Protocol.JsonLexical

/-! What the parser accepts is spelled by a tree of the grammar whose value it returns. -/

namespace ServerCore.Protocol.Json

open ServerCore.Core ServerCore.Foundations

namespace Tree

variable (charconv : Charconv)

lemma elementNodes_eq (ts : List Tree) : elementNodes ts = ts.flatMap nodes := by
  induction ts with
  | nil => rfl
  | cons t ts ih => rw [elementNodes, ih, List.flatMap_cons]

lemma memberNodes_eq (ms : List (List StringItem × Tree)) : memberNodes ms = ms.flatMap fun m => m.2.nodes := by
  induction ms with
  | nil => rfl
  | cons m ms ih => rw [memberNodes, ih, List.flatMap_cons]

lemma memberValues_eq (ms : List (List StringItem × Tree)) :
    memberValues charconv ms = ms.map fun m => (unescape m.1, m.2.value charconv) := by
  induction ms with
  | nil => rfl
  | cons m ms ih => rw [memberValues, ih, List.map_cons]

lemma elementDepth_le_iff {ts : List Tree} {n : ℕ} : elementDepth ts ≤ n ↔ ∀ t ∈ ts, t.depth + 1 ≤ n := by
  induction ts with
  | nil => simp [elementDepth]
  | cons t ts ih => simp [elementDepth, ih]

lemma memberDepth_le_iff {ms : List (List StringItem × Tree)} {n : ℕ} :
    memberDepth ms ≤ n ↔ ∀ m ∈ ms, m.2.depth + 1 ≤ n := by
  induction ms with
  | nil => simp [memberDepth]
  | cons m ms ih =>
    obtain ⟨key, t⟩ := m
    simp [memberDepth, ih]

def Accepted : Tree → Prop
  | .number token => ∃ v, numberValue charconv token.text = .ok v
  | .string items => surrogatesPaired items = true
  | .object members => (∀ m ∈ members, surrogatesPaired m.1 = true) ∧ (members.map fun m => unescape m.1).Nodup
  | _ => True

def Good (t : Tree) : Prop := ∀ s ∈ t.nodes, s.Accepted charconv

variable {charconv}

lemma good_array {ts : List Tree} : (Tree.array ts).Good charconv ↔ ∀ t ∈ ts, t.Good charconv := by
  simp only [Good, nodes, elementNodes_eq, List.mem_cons, List.mem_flatMap]
  constructor
  · intro h t ht s hs
    exact h s (.inr ⟨t, ht, hs⟩)
  · rintro h s (rfl | ⟨t, ht, hs⟩)
    · trivial
    · exact h t ht s hs

lemma good_object {ms : List (List StringItem × Tree)} : (Tree.object ms).Good charconv ↔
    (Tree.object ms).Accepted charconv ∧ ∀ m ∈ ms, m.2.Good charconv := by
  simp only [Good, nodes, memberNodes_eq, List.mem_cons, List.mem_flatMap]
  constructor
  · intro h
    exact ⟨h _ (.inl rfl), fun m hm s hs => h s (.inr ⟨m, hm, hs⟩)⟩
  · rintro ⟨h₀, h⟩ s (rfl | ⟨m, hm, hs⟩)
    · exact h₀
    · exact h m hm s hs

lemma insertAll_memberValues {ms : List (List StringItem × Tree)} :
    (OrderedMap.insertAll [] (memberValues charconv ms)).isSome ↔ (ms.map fun m => unescape m.1).Nodup := by
  rw [OrderedMap.insertAll_isSome_iff (by simp [OrderedMap.Sorted]), memberValues_eq]
  simp [Function.comp_def]

end Tree

lemma numberText_ne_nil (t : NumberToken) : t.text ≠ [] := by
  have := t.integer_digits.1
  simp [NumberToken.text, this]

lemma spells_length {item : Item} {x : Bytes} (h : Spells item x) : 0 < x.length := by
  induction h with
  | null => decide
  | boolean b => cases b <;> decide
  | number t => exact List.length_pos_iff.mpr (numberText_ne_nil t)
  | lastElement _ _ ih => simp only [List.length_append]; omega
  | element _ _ _ _ ih => simp only [List.length_append]; omega
  | _ => simp [stringText]

section Reads

variable (charconv : Charconv)

def ReadsValue (depth : ℕ) (c : Cursor) (v : JsonValue) (c' : Cursor) : Prop :=
  ∃ t x, c.rest = x ++ c'.rest ∧ Spells (.value t) x ∧ t.Good charconv ∧
    depth + t.depth ≤ maximumJsonNestingDepth ∧ t.value charconv = v ∧
    c.remainingValues ≤ c'.remainingValues + x.length

def ReadsElements (depth : ℕ) (c : Cursor) (vs : List JsonValue) (c' : Cursor) : Prop :=
  ∃ ts x, c.rest = x ++ 93 :: c'.rest ∧ Spells (.elements ts) x ∧
    (∀ t ∈ ts, t.Good charconv ∧ depth + t.depth ≤ maximumJsonNestingDepth) ∧
    Tree.elementValues charconv ts = vs ∧ c.remainingValues ≤ c'.remainingValues + x.length

def ReadsMembers (depth : ℕ) (c : Cursor) (result object : List (Bytes × JsonValue)) (c' : Cursor) : Prop :=
  ∃ ms x, c.rest = x ++ 125 :: c'.rest ∧ Spells (.members ms) x ∧
    (∀ m ∈ ms, surrogatesPaired m.1 = true ∧ m.2.Good charconv ∧
      depth + m.2.depth ≤ maximumJsonNestingDepth) ∧
    OrderedMap.insertAll result (Tree.memberValues charconv ms) = some object ∧
    c.remainingValues ≤ c'.remainingValues + x.length

def ReadsArray (depth : ℕ) (c : Cursor) (vs : List JsonValue) (c' : Cursor) : Prop :=
  ∃ ts x, c.rest = x ++ c'.rest ∧ Spells (.value (.array ts)) x ∧ (Tree.array ts).Good charconv ∧
    depth + (Tree.array ts).depth ≤ maximumJsonNestingDepth ∧ Tree.elementValues charconv ts = vs ∧
    c.remainingValues + 1 ≤ c'.remainingValues + x.length

def ReadsObject (depth : ℕ) (c : Cursor) (object : List (Bytes × JsonValue)) (c' : Cursor) : Prop :=
  ∃ ms x, c.rest = x ++ c'.rest ∧ Spells (.value (.object ms)) x ∧ (Tree.object ms).Good charconv ∧
    depth + (Tree.object ms).depth ≤ maximumJsonNestingDepth ∧
    OrderedMap.insertAll [] (Tree.memberValues charconv ms) = some object ∧
    c.remainingValues + 1 ≤ c'.remainingValues + x.length

variable {charconv}

lemma readsValue_leaf {depth remaining : ℕ} {c : Cursor} {t : Tree} {x rest : Bytes} (hx : c.rest = x ++ rest)
    (hs : Spells (.value t) x) (hg : t.Good charconv) (ht : t.depth = 0)
    (hd : depth ≤ maximumJsonNestingDepth) (hr : c.remainingValues = remaining + 1) :
    ReadsValue charconv depth c (t.value charconv) ⟨rest, remaining⟩ := by
  have := spells_length hs
  exact ⟨t, x, hx, hs, hg, by omega, rfl, by simp only; omega⟩

lemma consume_getD_cons {b : Byte} {x y : Bytes} (h : x = b :: y) : (consume b x).getD x = y := by
  rw [h, consume_cons, Option.getD_some]

lemma parseArray_sound {fuel depth : ℕ} {c c' : Cursor} {vs : List JsonValue} {tail : Bytes}
    (hloop : ∀ result c vs c', elementLoop charconv fuel (depth + 1) result c = .ok (vs, c') →
      ∃ vs', vs = result ++ vs' ∧ ReadsElements charconv (depth + 1) c vs' c')
    (hd : depth ≤ maximumJsonNestingDepth) (hc : c.rest = 91 :: tail)
    (h : parseArray charconv (fuel + 1) (depth + 1) c = .ok (vs, c')) :
    ReadsArray charconv depth c vs c' := by
  simp only [parseArray, consume_getD_cons hc] at h
  obtain ⟨w, hw, hsplit⟩ := skipWhitespace_split tail
  cases hclose : consume 93 (skipWhitespace tail) with
  | some rest =>
    simp only [hclose] at h
    obtain ⟨rfl, rfl⟩ := Prod.mk.inj (Except.ok.inj h)
    rw [consume_eq_some] at hclose
    refine ⟨[], 91 :: w ++ [93], ?_, .emptyArray hw, Tree.good_array.mpr (by simp), by simpa [Tree.depth,
      Tree.elementDepth] using hd, rfl, by simp⟩
    rw [hc, hsplit, hclose]
    simp
  | none =>
    simp only [hclose] at h
    obtain ⟨vs', rfl, ts, x, hx, hs, hgood, hv, hr⟩ := hloop _ _ _ _ h
    simp only at hx
    refine ⟨ts, 91 :: w ++ x ++ [93], ?_, .array hw hs, Tree.good_array.mpr fun t ht => (hgood t ht).1, ?_, ?_, ?_⟩
    · rw [hc, hsplit, hx]
      simp
    · have hle : (Tree.array ts).depth ≤ maximumJsonNestingDepth - depth := by
        rw [Tree.depth, Tree.elementDepth_le_iff]
        intro t ht
        have := (hgood t ht).2
        omega
      omega
    · exact hv
    · simp only [List.length_append, List.length_cons] at hr ⊢
      omega

lemma parseObjectMembers_sound {fuel depth : ℕ} {c c' : Cursor} {top top' : Option TopLevelMembers}
    {object : List (Bytes × JsonValue)} {tail : Bytes}
    (hloop : ∀ top result c object top' c',
      memberLoop charconv fuel (depth + 1) top result c = .ok (object, top', c') →
        ReadsMembers charconv (depth + 1) c result object c')
    (hd : depth ≤ maximumJsonNestingDepth) (hc : c.rest = 123 :: tail)
    (h : parseObjectMembers charconv (fuel + 1) (depth + 1) top c = .ok (object, top', c')) :
    ReadsObject charconv depth c object c' := by
  simp only [parseObjectMembers, consume_getD_cons hc] at h
  obtain ⟨w, hw, hsplit⟩ := skipWhitespace_split tail
  cases hclose : consume 125 (skipWhitespace tail) with
  | some rest =>
    simp only [hclose] at h
    obtain ⟨rfl, -, rfl⟩ : _ ∧ _ ∧ _ := by simpa using h
    rw [consume_eq_some] at hclose
    refine ⟨[], 123 :: w ++ [125], ?_, .emptyObject hw, Tree.good_object.mpr (by simp [Tree.Accepted]),
      by simpa [Tree.depth, Tree.memberDepth] using hd, rfl, by simp⟩
    rw [hc, hsplit, hclose]
    simp
  | none =>
    simp only [hclose] at h
    obtain ⟨ms, x, hx, hs, hgood, hv, hr⟩ := hloop _ _ _ _ _ _ h
    simp only at hx
    refine ⟨ms, 123 :: w ++ x ++ [125], ?_, .object hw hs, Tree.good_object.mpr ⟨⟨fun m hm => (hgood m hm).1, ?_⟩,
      fun m hm => (hgood m hm).2.1⟩, ?_, hv, ?_⟩
    · rw [hc, hsplit, hx]
      simp
    · exact Tree.insertAll_memberValues.mp (Option.isSome_of_eq_some hv)
    · have hle : (Tree.object ms).depth ≤ maximumJsonNestingDepth - depth := by
        rw [Tree.depth, Tree.memberDepth_le_iff]
        intro m hm
        have := (hgood m hm).2.2
        omega
      omega
    · simp only [List.length_append, List.length_cons] at hr ⊢
      omega

lemma elementLoop_sound {fuel depth : ℕ}
    (hvalue : ∀ c v c', parseValue charconv fuel depth c = .ok (v, c') → ReadsValue charconv depth c v c')
    (hloop : ∀ result c vs c', elementLoop charconv fuel depth result c = .ok (vs, c') →
      ∃ vs', vs = result ++ vs' ∧ ReadsElements charconv depth c vs' c')
    {result : List JsonValue} {c c' : Cursor} {vs : List JsonValue}
    (h : elementLoop charconv (fuel + 1) depth result c = .ok (vs, c')) :
    ∃ vs', vs = result ++ vs' ∧ ReadsElements charconv depth c vs' c' := by
  rw [elementLoop] at h
  obtain ⟨⟨v, c₁⟩, h₁, h⟩ := bind_eq_ok h
  obtain ⟨t, x, hx, hs, hgood, hd, rfl, hr⟩ := hvalue _ _ _ h₁
  obtain ⟨w, hw, hsplit⟩ := skipWhitespace_split c₁.rest
  simp only at h
  cases hclose : consume 93 (skipWhitespace c₁.rest) with
  | some rest =>
    simp only [hclose] at h
    obtain ⟨rfl, rfl⟩ := Prod.mk.inj (Except.ok.inj h)
    rw [consume_eq_some] at hclose
    refine ⟨_, rfl, [t], x ++ w, ?_, .lastElement hs hw, by simpa using ⟨hgood, hd⟩, rfl, ?_⟩
    · rw [hx, hsplit, hclose, List.append_assoc]
    · simp only [List.length_append]
      omega
  | none =>
    simp only [hclose] at h
    cases hcomma : consume 44 (skipWhitespace c₁.rest) with
    | none => simp [hcomma] at h
    | some rest =>
      simp only [hcomma] at h
      rw [consume_eq_some] at hcomma
      obtain ⟨w', hw', hsplit'⟩ := skipWhitespace_split rest
      obtain ⟨vs', rfl, ts, y, hy, hs', hgood', hv', hr'⟩ := hloop _ _ _ _ h
      simp only at hy hr'
      refine ⟨t.value charconv :: vs', by simp, t :: ts, x ++ w ++ 44 :: w' ++ y, ?_, .element hs hw hw' hs',
        ?_, ?_, ?_⟩
      · rw [hx, hsplit, hcomma, hsplit', hy]
        simp
      · simpa using ⟨⟨hgood, hd⟩, hgood'⟩
      · rw [Tree.elementValues, hv']
      · simp only [List.length_append, List.length_cons]
        omega

lemma memberLoop_sound {fuel depth : ℕ}
    (hvalue : ∀ c v c', parseValue charconv fuel depth c = .ok (v, c') → ReadsValue charconv depth c v c')
    (hloop : ∀ top result c object top' c',
      memberLoop charconv fuel depth top result c = .ok (object, top', c') →
        ReadsMembers charconv depth c result object c')
    {top top' : Option TopLevelMembers} {result object : List (Bytes × JsonValue)} {c c' : Cursor}
    (h : memberLoop charconv (fuel + 1) depth top result c = .ok (object, top', c')) :
    ReadsMembers charconv depth c result object c' := by
  simp only [memberLoop] at h
  split_ifs at h with hquote
  obtain ⟨⟨key, rest₀⟩, hkey, h⟩ := bind_eq_ok h
  obtain ⟨items, hpaired, hc, rfl⟩ := parseString_eq_ok.mp hkey
  obtain ⟨w, hw, hsplit⟩ := skipWhitespace_split rest₀
  simp only at h
  cases hcolon : consume 58 (skipWhitespace rest₀) with
  | none => simp [hcolon] at h
  | some rest₁ =>
    simp only [hcolon] at h
    rw [consume_eq_some] at hcolon
    obtain ⟨w', hw', hsplit'⟩ := skipWhitespace_split rest₁
    obtain ⟨⟨v, c₁⟩, h₁, h⟩ := bind_eq_ok h
    obtain ⟨t, x, hx, hs, hgood, hd, rfl, hr⟩ := hvalue _ _ _ h₁
    simp only at hx hr h
    cases hins : emplace (unescape items) (t.value charconv) result with
    | none => simp [hins] at h
    | some result' =>
      simp only [hins] at h
      obtain ⟨w'', hw'', hsplit''⟩ := skipWhitespace_split c₁.rest
      cases hclose : consume 125 (skipWhitespace c₁.rest) with
      | some rest₂ =>
        simp only [hclose] at h
        obtain ⟨rfl, -, rfl⟩ : _ ∧ _ ∧ _ := by simpa using h
        rw [consume_eq_some] at hclose
        refine ⟨[(items, t)], stringText items ++ w ++ 58 :: w' ++ x ++ w'', ?_, .lastMember hw hw' hs hw'',
          by simpa using ⟨hpaired, hgood, hd⟩, ?_, ?_⟩
        · rw [hc, hsplit, hcolon, hsplit', hx, hsplit'', hclose]
          simp
        · have hins' : OrderedMap.insert (unescape items) (t.value charconv) result = some result' := hins
          simp [Tree.memberValues, OrderedMap.insertAll, hins']
        · simp only [List.length_append, List.length_cons]
          omega
      | none =>
        simp only [hclose] at h
        cases hcomma : consume 44 (skipWhitespace c₁.rest) with
        | none => simp [hcomma] at h
        | some rest₂ =>
          simp only [hcomma] at h
          rw [consume_eq_some] at hcomma
          obtain ⟨w₃, hw₃, hsplit₃⟩ := skipWhitespace_split rest₂
          obtain ⟨ms, y, hy, hs', hgood', hv', hr'⟩ := hloop _ _ _ _ _ _ h
          simp only at hy hr'
          refine ⟨(items, t) :: ms, stringText items ++ w ++ 58 :: w' ++ x ++ w'' ++ 44 :: w₃ ++ y, ?_,
            .member hw hw' hs hw'' hw₃ hs', ?_, ?_, ?_⟩
          · rw [hc, hsplit, hcolon, hsplit', hx, hsplit'', hcomma, hsplit₃, hy]
            simp
          · exact List.forall_mem_cons.mpr ⟨⟨hpaired, hgood, hd⟩, hgood'⟩
          · have hins' : OrderedMap.insert (unescape items) (t.value charconv) result = some result' := hins
            simpa [Tree.memberValues, OrderedMap.insertAll, hins'] using hv'
          · simp only [List.length_append, List.length_cons]
            omega

lemma parseValue_sound_step {fuel depth : ℕ}
    (harray : ∀ c vs c' tail, depth ≤ maximumJsonNestingDepth → c.rest = 91 :: tail →
      parseArray charconv fuel (depth + 1) c = .ok (vs, c') →
      ReadsArray charconv depth c vs c')
    (hobject : ∀ c object top' c' tail, depth ≤ maximumJsonNestingDepth → c.rest = 123 :: tail →
      parseObjectMembers charconv fuel (depth + 1) none c = .ok (object, top', c') →
      ReadsObject charconv depth c object c')
    {c c' : Cursor} {v : JsonValue} (h : parseValue charconv (fuel + 1) depth c = .ok (v, c')) :
    ReadsValue charconv depth c v c' := by
  obtain ⟨rest, remaining⟩ := c
  by_cases hdepth : depth > maximumJsonNestingDepth
  · simp [parseValue, hdepth] at h
  have hd : depth ≤ maximumJsonNestingDepth := by omega
  simp only [parseValue, hdepth, ↓reduceIte] at h
  cases rest with
  | nil => simp at h
  | cons b tail =>
    simp only at h
    split_ifs at h with hzero hn ht hf hq ha ho hnum
    · obtain ⟨rest, hl, h⟩ := bind_eq_ok h
      obtain ⟨rfl, rfl⟩ := Prod.mk.inj (Except.ok.inj h)
      exact readsValue_leaf (parseLiteral_eq_ok.mp hl) .null (by simp [Tree.Good, Tree.nodes, Tree.Accepted]) rfl hd
        (by simp only; omega)
    · obtain ⟨rest, hl, h⟩ := bind_eq_ok h
      obtain ⟨rfl, rfl⟩ := Prod.mk.inj (Except.ok.inj h)
      exact readsValue_leaf (parseLiteral_eq_ok.mp hl) (.boolean true)
        (by simp [Tree.Good, Tree.nodes, Tree.Accepted]) rfl hd (by simp only; omega)
    · obtain ⟨rest, hl, h⟩ := bind_eq_ok h
      obtain ⟨rfl, rfl⟩ := Prod.mk.inj (Except.ok.inj h)
      exact readsValue_leaf (parseLiteral_eq_ok.mp hl) (.boolean false)
        (by simp [Tree.Good, Tree.nodes, Tree.Accepted]) rfl hd (by simp only; omega)
    · obtain ⟨⟨text, rest⟩, hl, h⟩ := bind_eq_ok h
      obtain ⟨rfl, rfl⟩ := Prod.mk.inj (Except.ok.inj h)
      obtain ⟨items, hp, hx, rfl⟩ := parseString_eq_ok.mp hl
      exact readsValue_leaf hx (.string items) (by simpa [Tree.Good, Tree.nodes, Tree.Accepted] using hp) rfl hd
        (by simp only; omega)
    · obtain ⟨⟨vs, c₁⟩, hl, h⟩ := bind_eq_ok h
      obtain ⟨rfl, rfl⟩ := Prod.mk.inj (Except.ok.inj h)
      obtain ⟨ts, x, hx, hs, hg, hdep, rfl, hr⟩ := harray _ _ _ tail hd (by rw [ha]) hl
      exact ⟨.array ts, x, hx, hs, hg, hdep, rfl, by simp only at hr ⊢; omega⟩
    · obtain ⟨⟨object, top', c₁⟩, hl, h⟩ := bind_eq_ok h
      obtain ⟨rfl, rfl⟩ := Prod.mk.inj (Except.ok.inj h)
      obtain ⟨ms, x, hx, hs, hg, hdep, hv, hr⟩ := hobject _ _ _ _ tail hd (by rw [ho]) hl
      refine ⟨.object ms, x, hx, hs, hg, hdep, ?_, by simp only at hr ⊢; omega⟩
      rw [Tree.value, hv, Option.getD_some]
    · obtain ⟨⟨value, rest⟩, hl, h⟩ := bind_eq_ok h
      obtain ⟨rfl, rfl⟩ := Prod.mk.inj (Except.ok.inj h)
      obtain ⟨t, hx, hv⟩ := parseNumber_sound hl
      have hread : ReadsValue charconv depth ⟨b :: tail, remaining⟩ ((Tree.number t).value charconv)
          ⟨rest, remaining - 1⟩ :=
        readsValue_leaf hx (.number t) (by simpa [Tree.Good, Tree.nodes, Tree.Accepted] using ⟨_, hv⟩) rfl hd
          (by simp only; omega)
      simpa [Tree.value, hv, Except.toOption] using hread

lemma parse_sound (fuel : ℕ) :
    (∀ depth c v c', parseValue charconv fuel depth c = .ok (v, c') → ReadsValue charconv depth c v c') ∧
    (∀ depth c vs c' tail, depth ≤ maximumJsonNestingDepth → c.rest = 91 :: tail →
      parseArray charconv fuel (depth + 1) c = .ok (vs, c') →
      ReadsArray charconv depth c vs c') ∧
    (∀ depth result c vs c', elementLoop charconv fuel depth result c = .ok (vs, c') →
      ∃ vs', vs = result ++ vs' ∧ ReadsElements charconv depth c vs' c') ∧
    (∀ depth top c object top' c' tail, depth ≤ maximumJsonNestingDepth → c.rest = 123 :: tail →
      parseObjectMembers charconv fuel (depth + 1) top c = .ok (object, top', c') →
      ReadsObject charconv depth c object c') ∧
    (∀ depth top result c object top' c', memberLoop charconv fuel depth top result c = .ok (object, top', c') →
      ReadsMembers charconv depth c result object c') := by
  induction fuel with
  | zero => simp [parseValue, parseArray, elementLoop, parseObjectMembers, memberLoop]
  | succ fuel ih =>
    obtain ⟨hvalue, harray, helements, hobject, hmembers⟩ := ih
    refine ⟨fun depth c v c' h => parseValue_sound_step (harray depth) (hobject depth none) h,
      fun depth c vs c' tail hd hc h => parseArray_sound (helements (depth + 1)) hd hc h,
      fun depth result c vs c' h => elementLoop_sound (hvalue depth) (helements depth) h,
      fun depth top c object top' c' tail hd hc h => parseObjectMembers_sound (hmembers (depth + 1)) hd hc h,
      fun depth top result c object top' c' h => memberLoop_sound (hvalue depth) (hmembers depth) h⟩

end Reads

end ServerCore.Protocol.Json
