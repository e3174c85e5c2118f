import ServerCore.Protocol.JsonParsed

/-! The envelope parser of `Json.cpp`, which keeps the members of the outermost object, and
its agreement with the document parser. -/

namespace ServerCore.Protocol

open ServerCore.Core ServerCore.Foundations

structure ParsedEnvelopeDocument where
  members : List (Bytes × JsonValue)
  isObject : Bool
  hasBody : Bool
  rawBodySize : ℕ

def Cursor.more (k : ℕ) (c : Cursor) : Cursor := ⟨c.rest, c.remainingValues + k⟩

namespace Json

def parseEnvelopeObject (charconv : Charconv) (fuel : ℕ) (c : Cursor) :
    Except ParseFailure (ParsedEnvelopeDocument × Cursor) := do
  let (members, topLevelMembers, c) ← parseObjectMembers charconv fuel 1 (some ⟨false, 0⟩) c
  let top := topLevelMembers.getD ⟨false, 0⟩
  .ok (⟨members, true, top.hasBody, top.rawBodySize⟩, c)

/-- `ParseEnvelopeDocument`, with the fuel that `parseDocument` has left behind an opening brace. -/
def parseEnvelopeDocument (charconv : Charconv) (text : Bytes) (maxValues : ℕ) :
    Except ParseFailure ParsedEnvelopeDocument := do
  let rest := skipWhitespace (skipByteOrderMark text)
  let (document, c) ←
    if rest.head? = some 123 then parseEnvelopeObject charconv (3 * text.length) ⟨rest, maxValues⟩
    else do
      let (_, c) ← parseValue charconv (3 * text.length + 1) 0 ⟨rest, maxValues⟩
      .ok (⟨[], false, false, 0⟩, c)
  let rest := skipWhitespace c.rest
  if rest.length ≠ 0 then .error (.format "unexpected trailing data" rest) else .ok document

def parseTextWith {α : Type} (parse : Bytes → ℕ → Except ParseFailure α) (text : Bytes) (maxValues : ℕ) :
    Except Status α :=
  if !isValidUtf8 text then .error (.fail .invalidFormat "JSON text is not valid UTF-8")
  else
    match parse text maxValues with
    | .ok value => .ok value
    | .error (.format message rest) => .error (.fail .invalidFormat (failureMessage text message rest))
    | .error .valueLimit => .error (.failWithoutMessage .tooLarge)
    | .error .outOfFuel => .error (.failWithoutMessage .platformError)

def parseEnvelopeText (charconv : Charconv) (text : Bytes) (maxValues : ℕ) : Except Status ParsedEnvelopeDocument :=
  parseTextWith (parseEnvelopeDocument charconv) text maxValues

variable {charconv : Charconv}

lemma parseText_eq (text : Bytes) (maxValues : ℕ) :
    parseText charconv text maxValues = parseTextWith (parseDocument charconv) text maxValues := by
  rw [parseText, parseTextWith]
  split_ifs
  · rfl
  · cases parseDocument charconv text maxValues with
    | ok value => rfl
    | error failure => cases failure <;> rfl

section Limit

def Lifts {α : Type} (f : α → α) (x y : Except ParseFailure α) : Prop := x = .error .valueLimit ∨ y = x.map f

lemma Lifts.bind {α β : Type} {f : α → α} {g : β → β} {x y : Except ParseFailure α}
    {F G : α → Except ParseFailure β} (h : Lifts f x y) (hF : ∀ a, Lifts g (F a) (G (f a))) :
    Lifts g (x >>= F) (y >>= G) := by
  rcases h with rfl | rfl
  · exact .inl rfl
  · cases x with
    | error failure => exact .inr rfl
    | ok a => exact hF a

lemma Lifts.error {α : Type} {f : α → α} (failure : ParseFailure) : Lifts f (.error failure) (.error failure) := .inr rfl

lemma Lifts.ok {α : Type} {f : α → α} {a b : α} (h : b = f a) : Lifts f (.ok a) (.ok b) := by
  rw [h]
  exact .inr rfl

lemma Lifts.bind_same {α β : Type} {g : β → β} (x : Except ParseFailure α) {F G : α → Except ParseFailure β}
    (hF : ∀ a, Lifts g (F a) (G a)) : Lifts g (x >>= F) (x >>= G) := by
  cases x with
  | error failure => exact .inr rfl
  | ok a => exact hF a

lemma Lifts.ite {α : Type} {f : α → α} {p : Prop} [Decidable p] {x y x' y' : Except ParseFailure α}
    (h : Lifts f x y) (h' : Lifts f x' y') : Lifts f (if p then x else x') (if p then y else y') := by
  split_ifs
  · exact h
  · exact h'

def moreValue {α : Type} (k : ℕ) (r : α × Cursor) : α × Cursor := (r.1, r.2.more k)

def moreMembers {α β : Type} (k : ℕ) (r : α × β × Cursor) : α × β × Cursor := (r.1, r.2.1, r.2.2.more k)

variable {k fuel depth : ℕ}

lemma parseValue_lifts
    (harray : ∀ depth c, Lifts (moreValue k) (parseArray charconv fuel depth c)
      (parseArray charconv fuel depth (c.more k)))
    (hobject : ∀ depth top c, Lifts (moreMembers k) (parseObjectMembers charconv fuel depth top c)
      (parseObjectMembers charconv fuel depth top (c.more k))) (c : Cursor) :
    Lifts (moreValue k) (parseValue charconv (fuel + 1) depth c) (parseValue charconv (fuel + 1) depth (c.more k)) := by
  obtain ⟨rest, remaining⟩ := c
  by_cases hd : depth > maximumJsonNestingDepth
  · simp only [parseValue, Cursor.more, hd, ↓reduceIte]
    exact .error _
  simp only [parseValue, Cursor.more, hd, ↓reduceIte]
  cases rest with
  | nil => exact .error _
  | cons b tail =>
    simp only
    by_cases hzero : remaining = 0
    · rw [if_pos hzero]
      exact .inl rfl
    obtain ⟨m, rfl⟩ := Nat.exists_eq_succ_of_ne_zero hzero
    have hless : m.succ + k - 1 = m.succ - 1 + k := by omega
    have hmore : ¬ m.succ + k = 0 := by omega
    rw [if_neg hzero, if_neg hmore, hless]
    have hleaf {α : Type} (x : Except ParseFailure α) (v : α → JsonValue) (rest : α → Bytes) :
        Lifts (moreValue k) (x >>= fun a => .ok (v a, ⟨rest a, m.succ - 1⟩))
          (x >>= fun a => .ok (v a, ⟨rest a, m.succ - 1 + k⟩)) :=
      .bind_same x fun a => .ok rfl
    apply Lifts.ite (hleaf _ (fun _ => .null) id)
    apply Lifts.ite (hleaf _ (fun _ => .boolean true) id)
    apply Lifts.ite (hleaf _ (fun _ => .boolean false) id)
    apply Lifts.ite (hleaf _ (fun r => .string r.1) Prod.snd)
    apply Lifts.ite
    · exact (harray (depth + 1) ⟨b :: tail, m.succ - 1⟩).bind fun r => .ok rfl
    apply Lifts.ite
    · exact (hobject (depth + 1) none ⟨b :: tail, m.succ - 1⟩).bind fun r => .ok rfl
    exact .ite (hleaf _ Prod.fst Prod.snd) (.error _)

lemma elementLoop_lifts
    (hvalue : ∀ depth c, Lifts (moreValue k) (parseValue charconv fuel depth c)
      (parseValue charconv fuel depth (c.more k)))
    (helements : ∀ depth result c, Lifts (moreValue k) (elementLoop charconv fuel depth result c)
      (elementLoop charconv fuel depth result (c.more k))) (result : List JsonValue) (c : Cursor) :
    Lifts (moreValue k) (elementLoop charconv (fuel + 1) depth result c)
      (elementLoop charconv (fuel + 1) depth result (c.more k)) := by
  rw [elementLoop, elementLoop]
  apply (hvalue depth c).bind
  rintro ⟨v, c₁⟩
  simp only [moreValue, Cursor.more]
  cases consume 93 (skipWhitespace c₁.rest) with
  | some rest => exact .ok rfl
  | none =>
    cases consume 44 (skipWhitespace c₁.rest) with
    | none => exact .error _
    | some rest => exact helements depth _ ⟨skipWhitespace rest, c₁.remainingValues⟩

lemma memberLoop_lifts
    (hvalue : ∀ depth c, Lifts (moreValue k) (parseValue charconv fuel depth c)
      (parseValue charconv fuel depth (c.more k)))
    (hmembers : ∀ depth top result c, Lifts (moreMembers k) (memberLoop charconv fuel depth top result c)
      (memberLoop charconv fuel depth top result (c.more k)))
    (top : Option TopLevelMembers) (result : List (Bytes × JsonValue)) (c : Cursor) :
    Lifts (moreMembers k) (memberLoop charconv (fuel + 1) depth top result c)
      (memberLoop charconv (fuel + 1) depth top result (c.more k)) := by
  simp only [memberLoop, Cursor.more]
  split_ifs
  · exact .error _
  apply Lifts.bind_same
  rintro ⟨key, rest⟩
  simp only
  cases consume 58 (skipWhitespace rest) with
  | none => exact .error _
  | some rest =>
    apply (hvalue depth ⟨skipWhitespace rest, c.remainingValues⟩).bind
    rintro ⟨v, c₁⟩
    simp only [moreValue, Cursor.more]
    cases emplace key v result with
    | none => exact .error _
    | some result =>
      simp only
      cases consume 125 (skipWhitespace c₁.rest) with
      | some rest => exact .ok rfl
      | none =>
        cases consume 44 (skipWhitespace c₁.rest) with
        | none => exact .error _
        | some rest => exact hmembers depth _ result ⟨skipWhitespace rest, c₁.remainingValues⟩

lemma parse_lifts (k fuel : ℕ) :
    (∀ depth c, Lifts (moreValue k) (parseValue charconv fuel depth c) (parseValue charconv fuel depth (c.more k))) ∧
    (∀ depth c, Lifts (moreValue k) (parseArray charconv fuel depth c) (parseArray charconv fuel depth (c.more k))) ∧
    (∀ depth result c, Lifts (moreValue k) (elementLoop charconv fuel depth result c)
      (elementLoop charconv fuel depth result (c.more k))) ∧
    (∀ depth top c, Lifts (moreMembers k) (parseObjectMembers charconv fuel depth top c)
      (parseObjectMembers charconv fuel depth top (c.more k))) ∧
    (∀ depth top result c, Lifts (moreMembers k) (memberLoop charconv fuel depth top result c)
      (memberLoop charconv fuel depth top result (c.more k))) := by
  induction fuel with
  | zero => simp [parseValue, parseArray, elementLoop, parseObjectMembers, memberLoop, Lifts.error]
  | succ fuel ih =>
    obtain ⟨hvalue, harray, helements, hobject, hmembers⟩ := ih
    refine ⟨fun depth => parseValue_lifts harray hobject, ?_, fun depth => elementLoop_lifts hvalue helements, ?_,
      fun depth => memberLoop_lifts hvalue hmembers⟩
    · intro depth c
      simp only [parseArray, Cursor.more]
      cases consume 93 (skipWhitespace ((consume 91 c.rest).getD c.rest)) with
      | some rest => exact .ok rfl
      | none => exact helements depth [] ⟨_, c.remainingValues⟩
    · intro depth top c
      simp only [parseObjectMembers, Cursor.more]
      cases consume 125 (skipWhitespace ((consume 123 c.rest).getD c.rest)) with
      | some rest => exact .ok rfl
      | none => exact hmembers depth top [] ⟨_, c.remainingValues⟩

lemma parseDocument_fueled (text : Bytes) (maxValues : ℕ) :
    parseDocument charconv text maxValues ≠ .error .outOfFuel := by
  have h₁ := skipByteOrderMark_length text
  have h₂ := skipWhitespace_length (skipByteOrderMark text)
  have hroom := (@parse_settles charconv (3 * text.length + 1)).1 0
    ⟨skipWhitespace (skipByteOrderMark text), maxValues + text.length⟩ (by simp only; omega) (by simp only; omega)
  have hlifts := (@parse_lifts charconv text.length (3 * text.length + 1)).1 0
    ⟨skipWhitespace (skipByteOrderMark text), maxValues⟩
  intro h
  rw [parseDocument] at h
  cases hvalue : parseValue charconv (3 * text.length + 1) 0 ⟨skipWhitespace (skipByteOrderMark text), maxValues⟩ with
  | ok r =>
    rw [hvalue] at h
    change (if (skipWhitespace r.2.rest).length ≠ 0 then _ else _) = _ at h
    split_ifs at h
    cases h
  | error failure =>
    rw [hvalue] at h hlifts
    obtain rfl := Except.error.inj h
    rcases hlifts with hlimit | hmore
    · cases hlimit
    · rw [Cursor.more] at hmore
      rw [hmore] at hroom
      exact hroom

end Limit

section Agreement

lemma memberLoop_top (fuel depth : ℕ) (top : Option TopLevelMembers) (result : List (Bytes × JsonValue)) (c : Cursor) :
    (memberLoop charconv fuel depth top result c).map (fun r => (r.1, r.2.2)) =
      (memberLoop charconv fuel depth none result c).map fun r => (r.1, r.2.2) := by
  induction fuel generalizing top result c with
  | zero => rw [memberLoop, memberLoop]
  | succ fuel ih =>
    simp only [memberLoop]
    split_ifs
    · rfl
    cases parseString c.rest with
    | error failure => rfl
    | ok r =>
      obtain ⟨key, rest⟩ := r
      simp only [bind, Except.bind]
      cases consume 58 (skipWhitespace rest) with
      | none => rfl
      | some rest =>
        simp only
        cases parseValue charconv fuel depth ⟨skipWhitespace rest, c.remainingValues⟩ with
        | error failure => rfl
        | ok r =>
          obtain ⟨v, c₁⟩ := r
          simp only
          cases emplace key v result with
          | none => rfl
          | some result =>
            simp only
            cases consume 125 (skipWhitespace c₁.rest) with
            | some rest => rfl
            | none =>
              cases consume 44 (skipWhitespace c₁.rest) with
              | none => rfl
              | some rest =>
                simp only
                rw [ih, Option.map_none]

lemma parseObjectMembers_top (fuel depth : ℕ) (top : Option TopLevelMembers) (c : Cursor) :
    (parseObjectMembers charconv fuel depth top c).map (fun r => (r.1, r.2.2)) =
      (parseObjectMembers charconv fuel depth none c).map fun r => (r.1, r.2.2) := by
  cases fuel with
  | zero => rw [parseObjectMembers, parseObjectMembers]
  | succ fuel =>
    simp only [parseObjectMembers]
    cases consume 125 (skipWhitespace ((consume 123 c.rest).getD c.rest)) with
    | some rest => rfl
    | none => exact memberLoop_top fuel depth top [] _

def OpensObject (text : Bytes) : Prop := (skipWhitespace (skipByteOrderMark text)).head? = some 123

lemma parseValue_brace {fuel remaining : ℕ} {x : Bytes} (h : x.head? = some 123) :
    parseValue charconv (fuel + 1) 0 ⟨x, remaining + 1⟩ =
      (parseObjectMembers charconv fuel 1 none ⟨x, remaining⟩).map fun r => (.object r.1, r.2.2) := by
  obtain ⟨y, rfl⟩ : ∃ y, x = 123 :: y := by
    cases x with
    | nil => cases h
    | cons b y => exact ⟨y, by rw [Option.some.inj h]⟩
  rw [parseValue_dispatch (Nat.zero_le _) (Nat.succ_pos _), if_neg (by decide), if_neg (by decide),
    if_neg (by decide), if_neg (by decide), if_neg (by decide), if_pos rfl]
  rfl

lemma parseEnvelopeDocument_object {text : Bytes} (h : OpensObject text) (n : ℕ) :
    (parseEnvelopeDocument charconv text n).map (fun d => (d.isObject, JsonValue.object d.members)) =
      (parseDocument charconv text (n + 1)).map fun v => (true, v) := by
  have htop := @parseObjectMembers_top charconv (3 * text.length) 1 (some ⟨false, 0⟩)
    ⟨skipWhitespace (skipByteOrderMark text), n⟩
  rw [OpensObject] at h
  rw [parseEnvelopeDocument, parseDocument, if_pos h, parseValue_brace h, parseEnvelopeObject]
  cases hnone : parseObjectMembers charconv (3 * text.length) 1 none ⟨skipWhitespace (skipByteOrderMark text), n⟩ with
  | error failure =>
    rw [hnone] at htop
    cases hsome : parseObjectMembers charconv (3 * text.length) 1 (some ⟨false, 0⟩)
        ⟨skipWhitespace (skipByteOrderMark text), n⟩ with
    | error failure' =>
      rw [hsome] at htop
      obtain rfl : failure' = failure := Except.error.inj htop
      rfl
    | ok r =>
      rw [hsome] at htop
      cases htop
  | ok r =>
    rw [hnone] at htop
    cases hsome : parseObjectMembers charconv (3 * text.length) 1 (some ⟨false, 0⟩)
        ⟨skipWhitespace (skipByteOrderMark text), n⟩ with
    | error failure' =>
      rw [hsome] at htop
      cases htop
    | ok r' =>
      rw [hsome] at htop
      obtain ⟨members, top, c⟩ := r
      obtain ⟨members', top', c'⟩ := r'
      obtain ⟨rfl, rfl⟩ : members' = members ∧ c' = c := by simpa [Except.map] using htop
      simp only [bind, Except.bind, Except.map]
      split_ifs <;> rfl

lemma parseEnvelopeDocument_other {text : Bytes} (h : ¬ OpensObject text) {n : ℕ} {d : ParsedEnvelopeDocument}
    (hd : parseEnvelopeDocument charconv text n = .ok d) : d.isObject = false := by
  rw [OpensObject] at h
  rw [parseEnvelopeDocument, if_neg h] at hd
  obtain ⟨⟨v, c⟩, -, hd⟩ := bind_eq_ok hd
  change (if (skipWhitespace c.rest).length ≠ 0 then _ else _) = _ at hd
  split_ifs at hd
  rw [← Except.ok.inj hd]

lemma parseDocument_other {text : Bytes} (h : ¬ OpensObject text) {n : ℕ} {members : List (Bytes × JsonValue)} :
    parseDocument charconv text n ≠ .ok (.object members) := by
  intro hd
  obtain ⟨⟨v, c⟩, hv, hd⟩ := bind_eq_ok hd
  change (if (skipWhitespace c.rest).length ≠ 0 then _ else _) = _ at hd
  split_ifs at hd
  obtain rfl := Except.ok.inj hd
  obtain ⟨t, x, hx, hs, hg, -, hval, -⟩ := (parse_sound _).1 _ _ _ _ hv
  have hbrace : ∃ y, x = 123 :: y := by
    cases t with
    | object ms => cases hs <;> exact ⟨_, rfl⟩
    | number token =>
      obtain ⟨v, hv⟩ : ∃ v, numberValue charconv token.text = .ok v := hg (.number token) (by simp [Tree.nodes])
      rw [Tree.value, hv] at hval
      exact ((numberValue_parsed hv).2.2 members hval).elim
    | _ => cases hval
  obtain ⟨y, rfl⟩ := hbrace
  apply h
  simp only at hx
  rw [OpensObject, hx]
  rfl

end Agreement

section Body

def MembersBefore (x : Bytes) : Prop :=
  x = [] ∨ ∃ ms y w, x = y ++ 44 :: w ∧ Spells (.members ms) y ∧ Whitespace w

def MembersAfter (x : Bytes) : Prop :=
  x = [] ∨ ∃ ms w y, x = 44 :: w ++ y ∧ Whitespace w ∧ Spells (.members ms) y

/-- The inside of an object with the member `key`, whose value is written as `token`. -/
def HasToken (charconv : Charconv) (inside key token : Bytes) (value : JsonValue) : Prop :=
  ∃ before items w w' w'' after t,
    inside = before ++ (stringText items ++ w ++ 58 :: w' ++ token ++ w'') ++ after ∧
    MembersBefore before ∧ Whitespace w ∧ Whitespace w' ∧ Spells (.value t) token ∧ Whitespace w'' ∧
    MembersAfter after ∧ unescape items = key ∧ t.value charconv = value

lemma HasToken.cons {inside key token : Bytes} {value : JsonValue} (h : HasToken charconv inside key token value)
    {items : List StringItem} {t : Tree} {w w' x w'' w₃ : Bytes} (hw : Whitespace w) (hw' : Whitespace w')
    (hs : Spells (.value t) x) (hw'' : Whitespace w'') (hw₃ : Whitespace w₃) :
    HasToken charconv (stringText items ++ w ++ 58 :: w' ++ x ++ w'' ++ 44 :: w₃ ++ inside) key token value := by
  obtain ⟨before, items', u, u', u'', after, t', rfl, hbefore, hu, hu', ht, hu'', hafter, hkey, hval⟩ := h
  refine ⟨stringText items ++ w ++ 58 :: w' ++ x ++ w'' ++ 44 :: w₃ ++ before, items', u, u', u'', after, t', by simp,
    ?_, hu, hu', ht, hu'', hafter, hkey, hval⟩
  apply Or.inr
  rcases hbefore with rfl | ⟨ms, y, v, rfl, hms, hv⟩
  · exact ⟨[(items, t)], _, w₃, by rw [List.append_nil], .lastMember hw hw' hs hw'', hw₃⟩
  · exact ⟨(items, t) :: ms, stringText items ++ w ++ 58 :: w' ++ x ++ w'' ++ 44 :: w₃ ++ y, v, by simp,
      .member hw hw' hs hw'' hw₃ hms, hv⟩

/-- What `topLevelMembers` holds behind a stretch of members: the token of the one with the key `body`. -/
def TopAfter (charconv : Charconv) (inside : Bytes) (top top' : TopLevelMembers)
    (result object : List (Bytes × JsonValue)) : Prop :=
  (top' = top ∧ ∀ v, (ascii "body", v) ∈ object → (ascii "body", v) ∈ result) ∨
  ∃ token v, top' = ⟨true, token.length⟩ ∧ (ascii "body", v) ∈ object ∧
    HasToken charconv inside (ascii "body") token v

lemma memberLoop_subset {fuel depth : ℕ} {top top' : Option TopLevelMembers} {result object : List (Bytes × JsonValue)}
    {c c' : Cursor} (h : memberLoop charconv fuel depth top result c = .ok (object, top', c')) : result ⊆ object := by
  obtain ⟨ms, x, -, -, -, hins, -⟩ := (parse_sound fuel).2.2.2.2 _ _ _ _ _ _ _ h
  intro m hm
  exact (OrderedMap.insertAll_perm hins).mem_iff.mpr (List.mem_append_right _ hm)

lemma memberLoop_body {fuel depth : ℕ} {top : TopLevelMembers} {top' : Option TopLevelMembers}
    {result object : List (Bytes × JsonValue)} {c c' : Cursor}
    (h : memberLoop charconv fuel depth (some top) result c = .ok (object, top', c')) :
    ∃ inside ms top'', c.rest = inside ++ 125 :: c'.rest ∧ Spells (.members ms) inside ∧ top' = some top'' ∧
      TopAfter charconv inside top top'' result object := by
  induction fuel generalizing top result c with
  | zero => simp [memberLoop] at h
  | succ fuel ih =>
    simp only [memberLoop] at h
    split_ifs at h with hquote
    obtain ⟨⟨key, rest₀⟩, hkey, h⟩ := bind_eq_ok h
    obtain ⟨items, hpaired, hc, rfl⟩ := parseString_eq_ok.mp hkey
    obtain ⟨w, hw, hsplit⟩ := skipWhitespace_split rest₀
    simp only at h
    cases hcolon : consume 58 (skipWhitespace rest₀) with
    | none => simp [hcolon] at h
    | some rest₁ =>
      simp only [hcolon] at h
      rw [consume_eq_some] at hcolon
      obtain ⟨w', hw', hsplit'⟩ := skipWhitespace_split rest₁
      obtain ⟨⟨v, c₁⟩, h₁, h⟩ := bind_eq_ok h
      obtain ⟨t, x, hx, hs, -, -, rfl, -⟩ := (parse_sound fuel).1 _ _ _ _ h₁
      simp only at hx h
      have hlen : (skipWhitespace rest₁).length - c₁.rest.length = x.length := by
        rw [hx, List.length_append]
        omega
      rw [Option.map_some, hlen] at h
      cases hins : emplace (unescape items) (t.value charconv) result with
      | none => simp [hins] at h
      | some result' =>
        simp only [hins] at h
        have hperm : result'.Perm ((unescape items, t.value charconv) :: result) := OrderedMap.insert_perm hins
        obtain ⟨w'', hw'', hsplit''⟩ := skipWhitespace_split c₁.rest
        have hmem : (unescape items, t.value charconv) ∈ result' := hperm.mem_iff.mpr List.mem_cons_self
        have hhere (after : Bytes) (hafter : MembersAfter after) :
            HasToken charconv (stringText items ++ w ++ 58 :: w' ++ x ++ w'' ++ after) (unescape items) x
              (t.value charconv) :=
          ⟨[], items, w, w', w'', after, t, rfl, .inl rfl, hw, hw', hs, hw'', hafter, rfl, rfl⟩
        have hother (hbody : unescape items ≠ ascii "body") (v : JsonValue) (hv : (ascii "body", v) ∈ result') :
            (ascii "body", v) ∈ result := by
          rcases List.mem_cons.mp (hperm.mem_iff.mp hv) with heq | hv
          · exact absurd (Prod.mk.inj heq).1.symm hbody
          · exact hv
        cases hclose : consume 125 (skipWhitespace c₁.rest) with
        | some rest₂ =>
          simp only [hclose] at h
          obtain ⟨rfl, rfl, rfl⟩ : _ ∧ _ ∧ _ := by simpa using h
          rw [consume_eq_some] at hclose
          refine ⟨_, [(items, t)], _, ?_, .lastMember hw hw' hs hw'', rfl, ?_⟩
          · rw [hc, hsplit, hcolon, hsplit', hx, hsplit'', hclose]
            simp
          · split_ifs with hbody
            · rw [hbody] at hmem hhere
              have htoken := hhere [] (.inl rfl)
              rw [List.append_nil] at htoken
              exact .inr ⟨x, t.value charconv, rfl, hmem, htoken⟩
            · exact .inl ⟨rfl, hother hbody⟩
        | none =>
          simp only [hclose] at h
          cases hcomma : consume 44 (skipWhitespace c₁.rest) with
          | none => simp [hcomma] at h
          | some rest₂ =>
            simp only [hcomma] at h
            rw [consume_eq_some] at hcomma
            obtain ⟨w₃, hw₃, hsplit₃⟩ := skipWhitespace_split rest₂
            obtain ⟨inside, ms, top'', hrest, hms, rfl, htop⟩ := ih h
            simp only at hrest
            refine ⟨stringText items ++ w ++ 58 :: w' ++ x ++ w'' ++ 44 :: w₃ ++ inside, (items, t) :: ms, top'', ?_,
              .member hw hw' hs hw'' hw₃ hms, rfl, ?_⟩
            · rw [hc, hsplit, hcolon, hsplit', hx, hsplit'', hcomma, hsplit₃, hrest]
              simp
            · rcases htop with ⟨rfl, hsame⟩ | ⟨token, v, rfl, hv, htoken⟩
              · split_ifs with hbody
                · rw [hbody] at hmem hhere
                  have htoken := hhere (44 :: w₃ ++ inside) (.inr ⟨ms, w₃, inside, rfl, hw₃, hms⟩)
                  refine .inr ⟨x, t.value charconv, rfl, memberLoop_subset h hmem, ?_⟩
                  rwa [List.append_assoc _ (44 :: w₃)]
                · exact .inl ⟨rfl, fun v hv => hother hbody v (hsame v hv)⟩
              · exact .inr ⟨token, v, rfl, hv, htoken.cons hw hw' hs hw'' hw₃⟩

/-- A text that is one object, whose member `key` has the given token for its value. -/
def ValueToken (charconv : Charconv) (text key token : Bytes) (value : JsonValue) : Prop :=
  ∃ mark w w' inside w'', text = mark ++ w ++ 123 :: w' ++ inside ++ 125 :: w'' ∧
    (mark = [] ∨ mark = byteOrderMark) ∧ Whitespace w ∧ Whitespace w' ∧ Whitespace w'' ∧
    HasToken charconv inside key token value

lemma parseObjectMembers_body {fuel : ℕ} {top' : Option TopLevelMembers} {object : List (Bytes × JsonValue)}
    {c c' : Cursor} (hbrace : c.rest.head? = some 123)
    (h : parseObjectMembers charconv fuel 1 (some ⟨false, 0⟩) c = .ok (object, top', c')) :
    ∃ w inside top'', c.rest = 123 :: w ++ inside ++ 125 :: c'.rest ∧ Whitespace w ∧ top' = some top'' ∧
      TopAfter charconv inside ⟨false, 0⟩ top'' [] object := by
  obtain ⟨tail, hc⟩ : ∃ tail, c.rest = 123 :: tail := by
    cases hrest : c.rest with
    | nil => rw [hrest] at hbrace; cases hbrace
    | cons b tail => rw [hrest] at hbrace; exact ⟨tail, by rw [Option.some.inj hbrace]⟩
  cases fuel with
  | zero => simp [parseObjectMembers] at h
  | succ fuel =>
    simp only [parseObjectMembers, consume_getD_cons hc] at h
    obtain ⟨w, hw, hsplit⟩ := skipWhitespace_split tail
    cases hclose : consume 125 (skipWhitespace tail) with
    | some rest =>
      simp only [hclose] at h
      obtain ⟨rfl, rfl, rfl⟩ : _ ∧ _ ∧ _ := by simpa using h
      rw [consume_eq_some] at hclose
      refine ⟨w, [], ⟨false, 0⟩, ?_, hw, rfl, .inl ⟨rfl, by simp⟩⟩
      rw [hc, hsplit, hclose]
      simp
    | none =>
      simp only [hclose] at h
      obtain ⟨inside, ms, top'', hrest, -, rfl, htop⟩ := memberLoop_body h
      simp only at hrest
      refine ⟨w, inside, top'', ?_, hw, rfl, htop⟩
      rw [hc, hsplit, hrest]
      simp

lemma parseEnvelopeDocument_body {text : Bytes} (hopens : OpensObject text) {n : ℕ} {d : ParsedEnvelopeDocument}
    (h : parseEnvelopeDocument charconv text n = .ok d) :
    (d.hasBody = false ∧ ∀ v, (ascii "body", v) ∉ d.members) ∨
    (d.hasBody = true ∧ ∃ token v, d.rawBodySize = token.length ∧ (ascii "body", v) ∈ d.members ∧
      ValueToken charconv text (ascii "body") token v) := by
  rw [OpensObject] at hopens
  rw [parseEnvelopeDocument, if_pos hopens, parseEnvelopeObject] at h
  obtain ⟨⟨d', c⟩, hobject, h⟩ := bind_eq_ok h
  change (if (skipWhitespace c.rest).length ≠ 0 then _ else _) = _ at h
  split_ifs at h with htail
  obtain rfl := Except.ok.inj h
  obtain ⟨⟨members, top, c'⟩, hmembers, hobject⟩ := bind_eq_ok hobject
  obtain ⟨hd, rfl⟩ := Prod.mk.inj (Except.ok.inj hobject)
  obtain ⟨w', inside, top'', hrest, hw', rfl, htop⟩ := parseObjectMembers_body hopens hmembers
  rw [Option.getD_some] at hd
  subst hd
  obtain ⟨mark, hmark, htext⟩ := skipByteOrderMark_split text
  obtain ⟨w, hw, hsplit⟩ := skipWhitespace_split (skipByteOrderMark text)
  obtain ⟨w'', hw'', hsplit''⟩ := skipWhitespace_split c'.rest
  rw [List.eq_nil_of_length_eq_zero (not_not.mp htail), List.append_nil] at hsplit''
  rcases htop with ⟨rfl, hnone⟩ | ⟨token, v, rfl, hv, htoken⟩
  · exact .inl ⟨rfl, fun v hv => absurd (hnone v hv) (by simp)⟩
  · refine .inr ⟨rfl, token, v, rfl, hv, mark, w, w', inside, w'', ?_, hmark, hw, hw', hw'', htoken⟩
    simp only at hrest
    rw [htext, hsplit, hrest, hsplit'']
    simp

end Body

section Texts

variable {α : Type} {parser : Bytes → ℕ → Except ParseFailure α} {text : Bytes} {n : ℕ}

lemma parseTextWith_ok {a : α} :
    parseTextWith parser text n = .ok a ↔ isValidUtf8 text = true ∧ parser text n = .ok a := by
  rw [parseTextWith]
  cases isValidUtf8 text with
  | false => simp
  | true =>
    cases parser text n with
    | ok value => simp
    | error failure => cases failure <;> simp

lemma parseTextWith_error {β : Type} {parser' : Bytes → ℕ → Except ParseFailure β} {n' : ℕ}
    (h : ∀ failure, parser text n = .error failure ↔ parser' text n' = .error failure) (status : Status) :
    parseTextWith parser text n = .error status ↔ parseTextWith parser' text n' = .error status := by
  rw [parseTextWith, parseTextWith]
  cases isValidUtf8 text with
  | false => simp
  | true =>
    cases hp : parser text n with
    | ok value =>
      cases hp' : parser' text n' with
      | ok value' => simp
      | error failure => rw [(h failure).mpr hp'] at hp; cases hp
    | error failure =>
      rw [(h failure).mp hp]
      cases failure <;> simp

lemma parseTextWith_code (hfuel : parser text n ≠ .error .outOfFuel) {status : Status}
    (h : parseTextWith parser text n = .error status) : status.code = .invalidFormat ∨ status.code = .tooLarge := by
  rw [parseTextWith] at h
  cases hutf : isValidUtf8 text with
  | false =>
    rw [hutf] at h
    obtain rfl := Except.error.inj h
    exact .inl rfl
  | true =>
    rw [hutf] at h
    cases hp : parser text n with
    | ok value => simp [hp] at h
    | error failure =>
      rw [hp] at h
      cases failure with
      | format message rest =>
        obtain rfl := Except.error.inj h
        exact .inl rfl
      | valueLimit =>
        obtain rfl := Except.error.inj h
        exact .inr rfl
      | outOfFuel => exact (hfuel hp).elim

lemma map_eq_ok {ε β : Type} {f : α → β} {x : Except ε α} {b : β} : x.map f = .ok b ↔ ∃ a, x = .ok a ∧ f a = b := by
  cases x with
  | error e => simp [Except.map]
  | ok a => simp [Except.map]

lemma map_eq_error {ε β : Type} {f : α → β} {x : Except ε α} {e : ε} : x.map f = .error e ↔ x = .error e := by
  cases x with
  | error e' => simp [Except.map]
  | ok a => simp [Except.map]

lemma parseEnvelopeDocument_members (members : List (Bytes × JsonValue)) :
    (∃ d, parseEnvelopeDocument charconv text n = .ok d ∧ d.isObject = true ∧ d.members = members) ↔
      parseDocument charconv text (n + 1) = .ok (.object members) := by
  by_cases hopens : OpensObject text
  · have hagree := @parseEnvelopeDocument_object charconv text hopens n
    constructor
    · rintro ⟨d, hd, -, rfl⟩
      rw [hd] at hagree
      obtain ⟨v, hv, heq⟩ := map_eq_ok.mp hagree.symm
      rw [hv, (Prod.mk.inj heq).2]
    · intro hv
      rw [hv] at hagree
      obtain ⟨d, hd, heq⟩ := map_eq_ok.mp hagree
      obtain ⟨hobject, hmembers⟩ := Prod.mk.inj heq
      exact ⟨d, hd, hobject, JsonValue.object.inj hmembers⟩
  · constructor
    · rintro ⟨d, hd, hobject, -⟩
      rw [parseEnvelopeDocument_other hopens hd] at hobject
      cases hobject
    · intro hv
      exact (parseDocument_other hopens hv).elim

lemma parseEnvelopeDocument_error (hopens : OpensObject text) (failure : ParseFailure) :
    parseEnvelopeDocument charconv text n = .error failure ↔ parseDocument charconv text (n + 1) = .error failure := by
  have hagree := @parseEnvelopeDocument_object charconv text hopens n
  constructor
  · intro h
    rw [h] at hagree
    exact map_eq_error.mp hagree.symm
  · intro h
    rw [h] at hagree
    exact map_eq_error.mp hagree

lemma parseEnvelopeText_members (members : List (Bytes × JsonValue)) :
    (∃ d, parseEnvelopeText charconv text n = .ok d ∧ d.isObject = true ∧ d.members = members) ↔
      parseText charconv text (n + 1) = .ok (.object members) := by
  rw [parseText_eq, parseTextWith_ok, ← parseEnvelopeDocument_members]
  simp only [parseEnvelopeText, parseTextWith_ok]
  constructor
  · rintro ⟨d, ⟨hutf, hd⟩, hd'⟩
    exact ⟨hutf, d, hd, hd'⟩
  · rintro ⟨hutf, d, hd, hd'⟩
    exact ⟨d, ⟨hutf, hd⟩, hd'⟩

/-- The envelope parser is the document parser with one value more to spend, down to the status of
every failure, and it knows the size of the body's token. -/
theorem envelope_agrees (charconv : Charconv) (text : Bytes) (n : ℕ) :
    (∀ members, (∃ d, parseEnvelopeText charconv text n = .ok d ∧ d.isObject = true ∧ d.members = members) ↔
      parseText charconv text (n + 1) = .ok (.object members)) ∧
    (OpensObject text → ∀ status, parseEnvelopeText charconv text n = .error status ↔
      parseText charconv text (n + 1) = .error status) ∧
    (∀ status, parseText charconv text (n + 1) = .error status →
      status.code = .invalidFormat ∨ status.code = .tooLarge) ∧
    ∀ d, parseEnvelopeText charconv text n = .ok d → d.isObject = true →
      (d.hasBody = true ↔ ∃ v, (ascii "body", v) ∈ d.members) ∧
      ∀ v, (ascii "body", v) ∈ d.members →
        ∃ token, ValueToken charconv text (ascii "body") token v ∧ d.rawBodySize = token.length := by
  refine ⟨parseEnvelopeText_members, fun hopens status => ?_, fun status h => ?_, fun d hd hobject => ?_⟩
  · rw [parseText_eq]
    exact parseTextWith_error (parseEnvelopeDocument_error hopens) status
  · rw [parseText_eq] at h
    exact parseTextWith_code (parseDocument_fueled text (n + 1)) h
  · obtain ⟨hutf, hdoc⟩ := parseTextWith_ok.mp hd
    have hopens : OpensObject text := by
      by_contra hopens
      rw [parseEnvelopeDocument_other hopens hdoc] at hobject
      cases hobject
    have hsorted : OrderedMap.Sorted d.members := by
      have hparse := (parseEnvelopeDocument_members d.members).mp ⟨d, hdoc, hobject, rfl⟩
      have hparsed := parseDocument_parsed ((isValidUtf8_iff text).mp hutf) hparse
      exact (JsonValue.parsed_object_iff.mp hparsed.1).1
    rcases parseEnvelopeDocument_body hopens hdoc with ⟨hno, hnone⟩ | ⟨hyes, token, v, hsize, hv, htoken⟩
    · refine ⟨by simp [hno, hnone], fun v hv => absurd hv (hnone v)⟩
    · refine ⟨iff_of_true hyes ⟨v, hv⟩, fun v' hv' => ?_⟩
      rw [hsorted.value_unique hv' hv]
      exact ⟨token, htoken, hsize⟩

end Texts

end Json

end ServerCore.Protocol
