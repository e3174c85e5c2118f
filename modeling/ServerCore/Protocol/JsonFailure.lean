import ServerCore.Protocol.JsonSoundness

/-! How the parser fails: with enough fuel and without a value limit every failure is one of
format. -/

namespace ServerCore.Protocol.Json

open ServerCore.Core ServerCore.Foundations

def Settles {α : Type} : Except ParseFailure α → Prop
  | .ok _ => True
  | .error (.format ..) => True
  | .error _ => False

lemma Settles.bind {α β : Type} {x : Except ParseFailure α} {f : α → Except ParseFailure β} (hx : Settles x)
    (hf : ∀ a, x = .ok a → Settles (f a)) : Settles (x >>= f) := by
  cases x with
  | ok a => exact hf a rfl
  | error failure => cases failure <;> exact hx

lemma parseLiteral_settles (literal rest : Bytes) : Settles (parseLiteral literal rest) := by
  simp only [parseLiteral]
  split_ifs <;> trivial

lemma hexDigits_settles (count value : ℕ) (rest : Bytes) : Settles (hexDigits count value rest) := by
  induction count generalizing value rest with
  | zero => trivial
  | succ count ih =>
    cases rest with
    | nil => trivial
    | cons b rest =>
      simp only [hexDigits]
      split_ifs
      · exact ih _ _
      · trivial

lemma parseHex4_settles (rest : Bytes) : Settles (parseHex4 rest) := by
  simp only [parseHex4]
  split_ifs
  · trivial
  · exact hexDigits_settles 4 0 rest

lemma parseUnicodeEscape_settles (rest : Bytes) : Settles (parseUnicodeEscape rest) := by
  refine (parseHex4_settles rest).bind ?_
  rintro ⟨codePoint, rest⟩ -
  simp only
  split_ifs
  · trivial
  · refine (parseHex4_settles _).bind ?_
    rintro ⟨low, rest⟩ -
    simp only
    split_ifs <;> trivial
  · trivial
  · trivial

lemma stringLoop_settles (result rest : Bytes) : Settles (stringLoop result rest) := by
  fun_induction stringLoop result rest with
  | case7 result b _ _ _ rest failure h =>
    have := parseUnicodeEscape_settles rest
    rwa [h] at this
  | _ => trivial

lemma parseString_settles (rest : Bytes) : Settles (parseString rest) := by
  simp only [parseString]
  split
  · trivial
  · exact stringLoop_settles _ _

lemma scanInteger_settles (rest : Bytes) : Settles (scanInteger rest) := by
  simp only [scanInteger]
  split <;> split_ifs <;> trivial

lemma scanFraction_settles (rest : Bytes) : Settles (scanFraction rest) := by
  simp only [scanFraction]
  split
  · split_ifs <;> trivial
  · trivial

lemma scanExponent_settles (rest : Bytes) : Settles (scanExponent rest) := by
  simp only [scanExponent]
  split
  · split_ifs <;> trivial
  · trivial

lemma parseNumber_settles (charconv : Charconv) (rest : Bytes) : Settles (parseNumber charconv rest) := by
  refine Settles.bind ?_ fun rest' _ => ?_
  · exact (scanInteger_settles _).bind fun _ _ => (scanFraction_settles _).bind fun _ _ => scanExponent_settles _
  · split <;> trivial

variable {charconv : Charconv}

lemma consume_length {b : Byte} {x y : Bytes} (h : consume b x = some y) : x.length = y.length + 1 := by
  rw [consume_eq_some.mp h, List.length_cons]

lemma ReadsValue.room {depth : ℕ} {c c' : Cursor} {v : JsonValue} (h : ReadsValue charconv depth c v c')
    (hr : c.rest.length ≤ c.remainingValues) :
    c'.rest.length < c.rest.length ∧ c'.rest.length ≤ c'.remainingValues := by
  obtain ⟨t, x, hx, hs, -, -, -, hrem⟩ := h
  have hpos := spells_length hs
  have hlen : c.rest.length = x.length + c'.rest.length := by rw [hx, List.length_append]
  omega

lemma elementLoop_settles {fuel depth : ℕ} {result : List JsonValue} {c : Cursor}
    (hvalue : ∀ c, 3 * c.rest.length + 1 ≤ fuel → c.rest.length ≤ c.remainingValues →
      Settles (parseValue charconv fuel depth c))
    (hloop : ∀ result c, 3 * c.rest.length + 2 ≤ fuel → c.rest.length ≤ c.remainingValues →
      Settles (elementLoop charconv fuel depth result c))
    (hf : 3 * c.rest.length + 2 ≤ fuel + 1) (hr : c.rest.length ≤ c.remainingValues) :
    Settles (elementLoop charconv (fuel + 1) depth result c) := by
  rw [elementLoop]
  refine (hvalue c (by omega) hr).bind ?_
  rintro ⟨v, c₁⟩ hv
  obtain ⟨hlen, hroom⟩ := ((parse_sound fuel).1 _ _ _ _ hv).room hr
  have hws := skipWhitespace_length c₁.rest
  simp only
  split
  · trivial
  · split
    · trivial
    · rename_i rest hcomma
      have hc := consume_length hcomma
      have hws' := skipWhitespace_length rest
      exact hloop _ _ (by simp only; omega) (by simp only; omega)

lemma memberLoop_settles {fuel depth : ℕ} {top : Option TopLevelMembers} {result : List (Bytes × JsonValue)}
    {c : Cursor}
    (hvalue : ∀ c, 3 * c.rest.length + 1 ≤ fuel → c.rest.length ≤ c.remainingValues →
      Settles (parseValue charconv fuel depth c))
    (hloop : ∀ top result c, 3 * c.rest.length + 2 ≤ fuel → c.rest.length ≤ c.remainingValues →
      Settles (memberLoop charconv fuel depth top result c))
    (hf : 3 * c.rest.length + 2 ≤ fuel + 1) (hr : c.rest.length ≤ c.remainingValues) :
    Settles (memberLoop charconv (fuel + 1) depth top result c) := by
  rw [memberLoop]
  split_ifs
  · trivial
  refine (parseString_settles _).bind ?_
  rintro ⟨key, rest₀⟩ hkey
  obtain ⟨items, -, hc, -⟩ := parseString_eq_ok.mp hkey
  have hkeylen : rest₀.length < c.rest.length := by
    rw [hc]
    simp only [stringText, List.length_append, List.length_cons]
    omega
  have hws := skipWhitespace_length rest₀
  simp only
  split
  · trivial
  rename_i rest₁ hcolon
  have hcl := consume_length hcolon
  have hws₁ := skipWhitespace_length rest₁
  refine (hvalue ⟨skipWhitespace rest₁, c.remainingValues⟩ (by simp only; omega) (by simp only; omega)).bind ?_
  rintro ⟨v, c₁⟩ hv
  obtain ⟨hlen, hroom⟩ := ((parse_sound fuel).1 _ _ _ _ hv).room (by simp only; omega)
  simp only at hlen
  have hws₂ := skipWhitespace_length c₁.rest
  simp only
  split
  · trivial
  · split
    · trivial
    · split
      · trivial
      · rename_i rest₂ hcomma
        have hc₂ := consume_length hcomma
        have hws₃ := skipWhitespace_length rest₂
        exact hloop _ _ _ (by simp only; omega) (by simp only; omega)

lemma parseValue_settles_step {fuel depth : ℕ} {c : Cursor}
    (harray : ∀ c tail, c.rest = 91 :: tail → 3 * c.rest.length ≤ fuel → tail.length ≤ c.remainingValues →
      Settles (parseArray charconv fuel (depth + 1) c))
    (hobject : ∀ top c tail, c.rest = 123 :: tail → 3 * c.rest.length ≤ fuel → tail.length ≤ c.remainingValues →
      Settles (parseObjectMembers charconv fuel (depth + 1) top c))
    (hf : 3 * c.rest.length + 1 ≤ fuel + 1) (hr : c.rest.length ≤ c.remainingValues) :
    Settles (parseValue charconv (fuel + 1) depth c) := by
  obtain ⟨rest, remaining⟩ := c
  by_cases hdepth : depth > maximumJsonNestingDepth
  · simp only [parseValue, hdepth, ↓reduceIte]
    trivial
  simp only [parseValue, hdepth, ↓reduceIte]
  cases rest with
  | nil => trivial
  | cons b tail =>
    simp only [List.length_cons] at hf hr ⊢
    split_ifs with hzero hn ht hfalse hq ha ho hnum
    · omega
    · exact (parseLiteral_settles _ _).bind fun _ _ => trivial
    · exact (parseLiteral_settles _ _).bind fun _ _ => trivial
    · exact (parseLiteral_settles _ _).bind fun _ _ => trivial
    · exact (parseString_settles _).bind fun _ _ => trivial
    · refine (harray _ tail (by rw [ha]) ?_ ?_).bind fun _ _ => trivial
      · simp only [List.length_cons]
        omega
      · simp only
        omega
    · refine (hobject none _ tail (by rw [ho]) ?_ ?_).bind fun _ _ => trivial
      · simp only [List.length_cons]
        omega
      · simp only
        omega
    · exact (parseNumber_settles _ _).bind fun _ _ => trivial
    · trivial

lemma parse_settles (fuel : ℕ) :
    (∀ depth c, 3 * c.rest.length + 1 ≤ fuel → c.rest.length ≤ c.remainingValues →
      Settles (parseValue charconv fuel depth c)) ∧
    (∀ depth c tail, c.rest = 91 :: tail → 3 * c.rest.length ≤ fuel → tail.length ≤ c.remainingValues →
      Settles (parseArray charconv fuel depth c)) ∧
    (∀ depth result c, 3 * c.rest.length + 2 ≤ fuel → c.rest.length ≤ c.remainingValues →
      Settles (elementLoop charconv fuel depth result c)) ∧
    (∀ depth top c tail, c.rest = 123 :: tail → 3 * c.rest.length ≤ fuel → tail.length ≤ c.remainingValues →
      Settles (parseObjectMembers charconv fuel depth top c)) ∧
    (∀ depth top result c, 3 * c.rest.length + 2 ≤ fuel → c.rest.length ≤ c.remainingValues →
      Settles (memberLoop charconv fuel depth top result c)) := by
  induction fuel with
  | zero =>
    refine ⟨by omega, ?_, by omega, ?_, by omega⟩
    · intro depth c tail hc hf
      simp [hc] at hf
    · intro depth top c tail hc hf
      simp [hc] at hf
  | succ fuel ih =>
    obtain ⟨hvalue, harray, helements, hobject, hmembers⟩ := ih
    refine ⟨fun depth c => parseValue_settles_step (harray (depth + 1)) (hobject (depth + 1)), ?_,
      fun depth result c => elementLoop_settles (hvalue depth) (helements depth), ?_,
      fun depth top result c => memberLoop_settles (hvalue depth) (hmembers depth)⟩
    · intro depth c tail hc hf hr
      have hws := skipWhitespace_length tail
      simp only [parseArray, consume_getD_cons hc]
      rw [hc, List.length_cons] at hf
      split
      · trivial
      · exact helements _ _ _ (by simp only; omega) (by simp only; omega)
    · intro depth top c tail hc hf hr
      have hws := skipWhitespace_length tail
      simp only [parseObjectMembers, consume_getD_cons hc]
      rw [hc, List.length_cons] at hf
      split
      · trivial
      · exact hmembers _ _ _ _ (by simp only; omega) (by simp only; omega)

end ServerCore.Protocol.Json
