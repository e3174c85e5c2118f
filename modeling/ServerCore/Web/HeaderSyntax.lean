import ServerCore.Core.Bytes

/-! Lexical rules of HTTP header fields, transfer codings and chunk extensions, and the bounded append of the encoders. -/

namespace ServerCore.Web

open ServerCore.Core

def crlf : Bytes := [13, 10]

def append (limit : ℕ) (output value : Bytes) : Option Bytes :=
  if limit < output.length || limit - output.length < value.length then none else some (output ++ value)

lemma append_some {limit : ℕ} {output value wire : Bytes} (h : append limit output value = some wire) :
    wire = output ++ value ∧ wire.length ≤ limit := by
  simp only [append, Bool.or_eq_true, decide_eq_true_eq, Option.ite_none_left_eq_some, not_or, not_lt,
    Option.some.injEq] at h
  obtain ⟨⟨hout, hvalue⟩, rfl⟩ := h
  refine ⟨rfl, ?_⟩
  rw [List.length_append]
  omega

def lower (b : Byte) : Byte := if 65 ≤ b && b ≤ 90 then b + 32 else b

def isBlank (b : Byte) : Bool := b == 32 || b == 9

def trim (value : Bytes) : Bytes :=
  ((value.dropWhile isBlank).reverse.dropWhile isBlank).reverse

def equalInsensitive (left right : Bytes) : Bool := left.map lower == right.map lower

def isTokenByte (b : Byte) : Bool :=
  (97 ≤ b && b ≤ 122) || (65 ≤ b && b ≤ 90) || isDigit b || (ascii "!#$%&'*+-.^_`|~").contains b

def isToken (value : Bytes) : Bool := !value.isEmpty && value.all isTokenByte

def isControl (b : Byte) : Bool := (b < 32 && b != 9) || b == 127

def validHeaderValue (value : Bytes) : Bool := value.all fun b => !isControl b

def listElements (value : Bytes) : List Bytes := (value.splitOn 44).map trim

def tokenList (value : Bytes) (allowEmpty : Bool) : Bool :=
  (listElements value).all fun element => isToken element || (allowEmpty && element.isEmpty)

def upgradeProtocols (value : Bytes) : Bool :=
  (listElements value).all fun protocol =>
    let slash := find (ascii "/") protocol
    isToken (upTo protocol slash) &&
      match slash with
      | some n => isToken (protocol.drop (n + 1))
      | none => true

def parseHeader (line : Bytes) : Option (Bytes × Bytes) :=
  match find (ascii ":") line with
  | none => none
  | some colon =>
    if !isToken (line.take colon) then none
    else
      let fieldValue := trim (line.drop (colon + 1))
      if !validHeaderValue fieldValue then none
      else some ((line.take colon).map lower, fieldValue)

/-- What follows the closing quote of a quoted string, `none` where it is malformed or open. -/
def quotedRest : Bytes → Option Bytes
  | [] => none
  | b :: rest =>
    if b == 34 then some rest
    else if b == 92 then
      match rest with
      | [] => none
      | escaped :: rest' => if isControl escaped then none else quotedRest rest'
    else if isControl b then none
    else quotedRest rest

/-- One turn of the extension loop from a `;`: the rest after the extension. -/
def chunkExtension (value : Bytes) : Option Bytes :=
  let value := trim value
  let name := value.takeWhile isTokenByte
  if name.isEmpty then none
  else
    let value := trim (value.drop name.length)
    match value with
    | [] => some []
    | b :: rest =>
      if b == 59 then some value
      else if b != 61 then none
      else
        match trim rest with
        | [] => none
        | 34 :: quoted => quotedRest quoted
        | value =>
          let text := value.takeWhile isTokenByte
          if text.isEmpty then none else some (value.drop text.length)

def chunkExtensions : ℕ → Bytes → Bool
  | 0, _ => false
  | fuel + 1, value =>
    match trim value with
    | [] => true
    | b :: rest =>
      if b != 59 then false
      else
        match chunkExtension rest with
        | none => false
        | some value => chunkExtensions fuel value

def validChunkExtensions (value : Bytes) : Bool := chunkExtensions (value.length + 1) value

def forbiddenTrailer (name : Bytes) : Bool :=
  ["content-length", "transfer-encoding", "host", "connection", "upgrade", "trailer", "te",
    "authorization", "proxy-authorization", "cookie", "content-type", "content-encoding",
    "expect"].any (fun field => name == ascii field) || startsWith name (ascii "sec-websocket-")

lemma isToken_iff {x : Bytes} : isToken x = true ↔ x ≠ [] ∧ ∀ c ∈ x, isTokenByte c = true := by
  simp [isToken]

lemma isTokenByte_lower {c : Byte} (h : isTokenByte c = true) : isTokenByte (lower c) = true := by
  simp only [lower]
  split
  · rename_i hc
    simp only [Bool.and_eq_true, decide_eq_true_eq] at hc
    have h1 : c.toNat + 32 < 256 := by
      have := UInt8.le_iff_toNat_le.mp hc.2
      simp at this
      omega
    simp only [isTokenByte, Bool.or_eq_true, Bool.and_eq_true, decide_eq_true_eq]
    refine .inl (.inl (.inl ⟨?_, ?_⟩)) <;> rw [UInt8.le_iff_toNat_le, UInt8.toNat_add] <;>
      have h2 := UInt8.le_iff_toNat_le.mp hc.1 <;> have h3 := UInt8.le_iff_toNat_le.mp hc.2 <;> simp at h2 h3 ⊢ <;> omega
  · exact h

lemma isToken_lower {x : Bytes} (h : isToken x = true) : isToken (x.map lower) = true := by
  rw [isToken_iff] at h ⊢
  refine ⟨by simpa using h.1, ?_⟩
  intro c hc
  obtain ⟨d, hd, rfl⟩ := List.mem_map.mp hc
  exact isTokenByte_lower (h.2 d hd)

lemma lower_lower (b : Byte) : lower (lower b) = lower b := by
  by_cases h : (65 ≤ b && b ≤ 90) = true
  · simp only [lower, h, if_true]
    simp only [Bool.and_eq_true, decide_eq_true_eq, UInt8.le_iff_toNat_le] at h
    rw [if_neg]
    simp only [Bool.and_eq_true, decide_eq_true_eq, UInt8.le_iff_toNat_le, UInt8.toNat_add]
    simp at h ⊢
    omega
  · simp only [lower, h, Bool.false_eq_true, if_false]

lemma trim_length_le (value : Bytes) : (trim value).length ≤ value.length := by
  have h := (List.dropWhile_sublist isBlank (l := (value.dropWhile isBlank).reverse)).length_le
  have h' := (List.dropWhile_sublist isBlank (l := value)).length_le
  simp only [trim, List.length_reverse] at h ⊢
  omega

lemma quotedRest_length_lt {value rest : Bytes} (h : quotedRest value = some rest) :
    rest.length < value.length := by
  fun_induction quotedRest value <;> simp_all <;> grind

lemma chunkExtension_length_le {value rest : Bytes} (h : chunkExtension value = some rest) :
    rest.length ≤ value.length := by
  have ht := trim_length_le value
  simp only [chunkExtension] at h
  split at h
  · cases h
  set value₁ := (trim value).drop ((trim value).takeWhile isTokenByte).length with hv₁
  have h₁ : value₁.length ≤ (trim value).length := by simp [hv₁]
  have ht₁ := trim_length_le value₁
  split at h
  · simp_all
  · rename_i b after hb
    rw [hb, List.length_cons] at ht₁
    have ht₂ := trim_length_le after
    split at h
    · simp only [Option.some.injEq] at h
      simp only [← h, hb, List.length_cons]
      omega
    split at h
    · cases h
    split at h
    · cases h
    · rename_i quoted hq
      have := quotedRest_length_lt h
      rw [hq, List.length_cons] at ht₂
      omega
    · split at h
      · cases h
      · simp only [Option.some.injEq] at h
        simp only [← h, List.length_drop]
        omega

lemma chunkExtensions_fuel (value : Bytes) {fuel fuel' : ℕ} (h : value.length < fuel)
    (h' : value.length < fuel') : chunkExtensions fuel value = chunkExtensions fuel' value := by
  induction fuel generalizing value fuel' with
  | zero => omega
  | succ fuel ih =>
    cases fuel' with
    | zero => omega
    | succ fuel' =>
      simp only [chunkExtensions]
      have ht := trim_length_le value
      split
      · rfl
      · rename_i b rest hb
        rw [hb, List.length_cons] at ht
        split
        · rfl
        split
        · rfl
        · rename_i value' hv
          have := chunkExtension_length_le hv
          exact ih value' (by omega) (by omega)

end ServerCore.Web
