import ServerCore.Core.Status
import ServerCore.Core.Utf8
import Mathlib.Data.List.Forall2

/-! Percent-encoding of form fields and query parameters as `RequestData.cpp` has it. -/

namespace ServerCore.Web.RequestData

open ServerCore.Core

structure FieldLimits where
  maxBytes : ℕ := 64 * 1024
  maxFields : ℕ := 128
  maxNameBytes : ℕ := 1024
  maxValueBytes : ℕ := 64 * 1024
  deriving DecidableEq, Repr

def FieldLimits.valid (limits : FieldLimits) : Bool :=
  limits.maxBytes ≠ 0 && limits.maxFields ≠ 0 && limits.maxNameBytes ≠ 0 && limits.maxValueBytes ≠ 0

def text (value : Bytes) : Bool := !value.contains 0 && isValidUtf8 value

def push (maxBytes : ℕ) (result : Bytes) (b : Byte) : Except Status Bytes :=
  if result.length = maxBytes then .error (.failWithoutMessage .tooLarge) else .ok (result ++ [b])

/-- The loop of `PercentDecodeComponent` over the bytes not read yet. -/
def decodeLoop (plusAsSpace : Bool) (maxBytes : ℕ) : Bytes → Bytes → Except Status Bytes
  | [], result => .ok result
  | b :: rest, result =>
    if b = 37 then
      match rest with
      | high :: low :: rest' =>
        match hexDigit? high, hexDigit? low with
        | some high, some low => do
          let result ← push maxBytes result (UInt8.ofNat (high * 16 + low))
          decodeLoop plusAsSpace maxBytes rest' result
        | _, _ => .error (.failWithoutMessage .invalidFormat)
      | _ => .error (.failWithoutMessage .invalidFormat)
    else do
      let result ← push maxBytes result (if b = 43 && plusAsSpace then 32 else b)
      decodeLoop plusAsSpace maxBytes rest result

def percentDecodeComponent (input : Bytes) (plusAsSpace : Bool) (maxBytes : ℕ) : Except Status Bytes :=
  if maxBytes = 0 then .error (.failWithoutMessage .invalidArgument)
  else do
    let result ← decodeLoop plusAsSpace maxBytes input []
    if !text result then .error (.failWithoutMessage .invalidFormat) else .ok result

def literal (formMode : Bool) (b : Byte) : Bool :=
  (97 ≤ b && b ≤ 122) || (65 ≤ b && b ≤ 90) || (48 ≤ b && b ≤ 57) || b = 45 || b = 46 || b = 95 ||
    (if formMode then b = 42 else b = 126)

def upperHex (n : ℕ) : Byte := UInt8.ofNat (if n < 10 then 48 + n else 55 + n)

def encodeByte (formMode : Bool) (b : Byte) : Bytes :=
  if literal formMode b then [b]
  else if formMode && b = 32 then [43]
  else [37, upperHex (b.toNat / 16), upperHex (b.toNat % 16)]

def encodeNext (formMode : Bool) (maxBytes : ℕ) (result : Bytes) (b : Byte) : Except Status Bytes :=
  let count := if literal formMode b || (formMode && b = 32) then 1 else 3
  if maxBytes - result.length < count then .error (.failWithoutMessage .tooLarge)
  else .ok (result ++ encodeByte formMode b)

def percentEncodeComponent (input : Bytes) (formMode : Bool) (maxBytes : ℕ) : Except Status Bytes :=
  if maxBytes = 0 || !text input then .error (.failWithoutMessage .invalidArgument)
  else input.foldlM (encodeNext formMode maxBytes) []

/-- One turn of the loop of `ParseFields` with the bytes between two `&`. -/
def parseField (form : Bool) (limits : FieldLimits) (result : List (Bytes × Bytes)) (field : Bytes) :
    Except Status (List (Bytes × Bytes)) :=
  if field = [] then .ok result
  else if result.length = limits.maxFields then .error (.failWithoutMessage .tooLarge)
  else do
    let equal := field.findIdx? (· = 61)
    let name ← percentDecodeComponent (upTo field equal) form limits.maxNameBytes
    let value ← percentDecodeComponent ((equal.map fun n => field.drop (n + 1)).getD []) form limits.maxValueBytes
    .ok (result ++ [(name, value)])

def parseFields (input : Bytes) (form : Bool) (limits : FieldLimits) : Except Status (List (Bytes × Bytes)) :=
  if !limits.valid then .error (.failWithoutMessage .invalidArgument)
  else if limits.maxBytes < input.length then .error (.failWithoutMessage .tooLarge)
  else (input.splitOn 38).foldlM (parseField form limits) []

def parseQueryParameters (target : Bytes) (limits : FieldLimits) : Except Status (List (Bytes × Bytes)) :=
  if target.contains 35 then .error (.failWithoutMessage .invalidFormat)
  else
    match target.findIdx? (· = 63) with
    | none => parseFields [] false limits
    | some question => parseFields (target.drop (question + 1)) false limits

def parseFormUrlEncoded (body : Bytes) (limits : FieldLimits) : Except Status (List (Bytes × Bytes)) :=
  parseFields body true limits

/-- What `PercentEncodeComponent` writes when nothing stands in the way. -/
def encoded (form : Bool) (input : Bytes) : Bytes := input.flatMap (encodeByte form)

section Component

lemma hexDigit?_upperHex {n : ℕ} (h : n < 16) : hexDigit? (upperHex n) = some n := by
  have key : ∀ n < 16, hexDigit? (upperHex n) = some n := by decide
  exact key n h

lemma literal_ne (form : Bool) (b : Byte) : literal form b = true → b ≠ 37 ∧ b ≠ 43 := by
  revert b
  apply byte_cases
  cases form <;> decide +kernel

lemma byte_parts (b : Byte) : UInt8.ofNat (b.toNat / 16 * 16 + b.toNat % 16) = b := by
  rw [Nat.div_add_mod', UInt8.ofNat_toNat]

lemma decodeLoop_encodeByte (form : Bool) (maxBytes : ℕ) (b : Byte) (rest result : Bytes)
    (hroom : result.length < maxBytes) :
    decodeLoop form maxBytes (encodeByte form b ++ rest) result =
      decodeLoop form maxBytes rest (result ++ [b]) := by
  have hpush : push maxBytes result b = .ok (result ++ [b]) := by
    unfold push
    rw [if_neg (by omega)]
  unfold encodeByte
  by_cases hlit : literal form b = true
  · obtain ⟨hpercent, hplus⟩ := literal_ne form b hlit
    rw [if_pos hlit, List.singleton_append, decodeLoop.eq_def]
    simp only [hpercent, hplus, if_false, decide_false, Bool.false_and, Bool.false_eq_true]
    rw [hpush]
    rfl
  · rw [if_neg hlit]
    by_cases hspace : (form && b = 32) = true
    · rw [if_pos hspace, List.singleton_append, decodeLoop.eq_def]
      obtain ⟨hform, rfl⟩ : form = true ∧ b = 32 := by simpa using hspace
      subst hform
      simp only [show ¬((43 : Byte) = 37) by decide, if_false, decide_true, Bool.and_self, if_true]
      rw [hpush]
      rfl
    · have hlow := Nat.mod_lt b.toNat (show 16 > 0 by decide)
      have hhigh : b.toNat / 16 < 16 := by have := b.toNat_lt; omega
      rw [if_neg hspace]
      simp only [List.cons_append, List.nil_append]
      rw [decodeLoop.eq_def]
      simp only [if_true, hexDigit?_upperHex hhigh, hexDigit?_upperHex hlow]
      rw [byte_parts, hpush]
      rfl

lemma decodeLoop_encoded (form : Bool) (maxBytes : ℕ) (input : Bytes) :
    ∀ rest result : Bytes, result.length + input.length ≤ maxBytes →
      decodeLoop form maxBytes (encoded form input ++ rest) result =
        decodeLoop form maxBytes rest (result ++ input) := by
  induction input with
  | nil => intro rest result _; simp [encoded]
  | cons b input ih =>
    intro rest result hroom
    rw [List.length_cons] at hroom
    have hsplit : encoded form (b :: input) ++ rest = encodeByte form b ++ (encoded form input ++ rest) := by
      simp [encoded]
    rw [hsplit, decodeLoop_encodeByte form maxBytes b _ result (by omega), ih]
    · simp
    · simp only [List.length_append, List.length_singleton]
      omega

lemma percentDecodeComponent_encoded (form : Bool) (maxBytes : ℕ) (input : Bytes)
    (hne : maxBytes ≠ 0) (htext : text input = true) (hroom : input.length ≤ maxBytes) :
    percentDecodeComponent (encoded form input) form maxBytes = .ok input := by
  have hloop := decodeLoop_encoded form maxBytes input [] [] (by simpa using hroom)
  rw [List.append_nil, List.nil_append] at hloop
  unfold percentDecodeComponent
  rw [if_neg hne, hloop]
  simp [decodeLoop, Bind.bind, Except.bind, htext]

lemma encodeByte_length (form : Bool) (b : Byte) :
    (encodeByte form b).length = if literal form b || (form && b = 32) then 1 else 3 := by
  unfold encodeByte
  by_cases hlit : literal form b = true
  · simp [hlit]
  · by_cases hspace : (form && b = 32) = true
    · rw [if_neg hlit, if_pos hspace, if_pos (by rw [hspace, Bool.or_true])]
      rfl
    · rw [if_neg hlit, if_neg hspace, if_neg (by simp [hlit, hspace])]
      rfl

lemma encodeByte_length_le (form : Bool) (b : Byte) : (encodeByte form b).length ≤ 3 := by
  rw [encodeByte_length]
  split <;> omega

lemma encoded_length_le (form : Bool) (input : Bytes) : (encoded form input).length ≤ 3 * input.length := by
  induction input with
  | nil => simp [encoded]
  | cons b input ih =>
    have := encodeByte_length_le form b
    simp only [encoded, List.flatMap_cons, List.length_append, List.length_cons] at ih ⊢
    omega

lemma encodeNext_eq (form : Bool) (maxBytes : ℕ) (result : Bytes) (b : Byte)
    (hfit : result.length ≤ maxBytes) :
    encodeNext form maxBytes result b =
      if (result ++ encodeByte form b).length ≤ maxBytes then .ok (result ++ encodeByte form b)
      else .error (.failWithoutMessage .tooLarge) := by
  unfold encodeNext
  rw [← encodeByte_length, List.length_append]
  by_cases h : maxBytes - result.length < (encodeByte form b).length
  · rw [if_pos h, if_neg (by omega)]
  · rw [if_neg h, if_pos (by omega)]

lemma foldlM_encodeNext (form : Bool) (maxBytes : ℕ) (input : Bytes) :
    ∀ result : Bytes, result.length ≤ maxBytes →
      input.foldlM (encodeNext form maxBytes) result =
        if (result ++ encoded form input).length ≤ maxBytes then .ok (result ++ encoded form input)
        else .error (.failWithoutMessage .tooLarge) := by
  induction input with
  | nil =>
    intro result hfit
    simp [encoded, hfit, pure, Except.pure]
  | cons b input ih =>
    intro result hfit
    have hsplit : encoded form (b :: input) = encodeByte form b ++ encoded form input := by simp [encoded]
    rw [List.foldlM_cons, encodeNext_eq form maxBytes result b hfit, hsplit, ← List.append_assoc]
    by_cases h : (result ++ encodeByte form b).length ≤ maxBytes
    · rw [if_pos h]
      apply ih
      exact h
    · rw [if_neg h, if_neg]
      · rfl
      · rw [List.length_append]
        omega

lemma percentEncodeComponent_eq_ok (input : Bytes) (form : Bool) (maxBytes : ℕ) (result : Bytes) :
    percentEncodeComponent input form maxBytes = .ok result ↔
      maxBytes ≠ 0 ∧ text input = true ∧ (encoded form input).length ≤ maxBytes ∧
        result = encoded form input := by
  unfold percentEncodeComponent
  rw [foldlM_encodeNext form maxBytes input [] (by simp), List.nil_append]
  by_cases hne : maxBytes = 0
  · simp [hne]
  · by_cases htext : text input = true
    · by_cases hfit : (encoded form input).length ≤ maxBytes
      · simp [hne, htext, hfit, eq_comm]
      · simp [hne, htext, hfit]
    · simp [htext]

end Component

def PlainUnit (unit : Bytes) : Prop :=
  (∃ b : Byte, unit = [b] ∧ 33 ≤ b ∧ b ≤ 126 ∧ b ∉ [38, 61, 35, 63, 37]) ∨
    ∃ high low : Byte, unit = [37, high, low] ∧ isHexDigit high = true ∧ isHexDigit low = true

def Plain (text : Bytes) : Prop := ∃ units : List Bytes, text = units.flatten ∧ ∀ unit ∈ units, PlainUnit unit

section Shape

lemma literal_plain (form : Bool) (b : Byte) :
    literal form b = true → 33 ≤ b ∧ b ≤ 126 ∧ b ∉ ([38, 61, 35, 63, 37] : Bytes) := by
  revert b
  apply byte_cases
  cases form <;> decide +kernel

lemma isHexDigit_upperHex {n : ℕ} (h : n < 16) : isHexDigit (upperHex n) = true := by
  have key : ∀ n < 16, isHexDigit (upperHex n) = true := by decide
  exact key n h

lemma hexDigit_plain (b : Byte) : isHexDigit b = true → 33 ≤ b ∧ b ≤ 126 ∧ b ∉ ([38, 61, 35, 63] : Bytes) := by
  revert b
  apply byte_cases
  decide +kernel

lemma encodeByte_plain (form : Bool) (b : Byte) : PlainUnit (encodeByte form b) := by
  unfold encodeByte
  by_cases hlit : literal form b = true
  · rw [if_pos hlit]
    apply Or.inl
    exact ⟨b, rfl, literal_plain form b hlit⟩
  · rw [if_neg hlit]
    by_cases hspace : (form && b = 32) = true
    · rw [if_pos hspace]
      apply Or.inl
      exact ⟨43, rfl, by decide, by decide, by decide⟩
    · have hhigh : b.toNat / 16 < 16 := by have := b.toNat_lt; omega
      rw [if_neg hspace]
      apply Or.inr
      exact ⟨_, _, rfl, isHexDigit_upperHex hhigh, isHexDigit_upperHex (Nat.mod_lt _ (by decide))⟩

lemma encoded_plain (form : Bool) (input : Bytes) : Plain (encoded form input) := by
  refine ⟨input.map (encodeByte form), ?_, ?_⟩
  · rw [encoded, List.flatMap_def]
  · intro unit hunit
    obtain ⟨b, _, rfl⟩ := List.mem_map.mp hunit
    apply encodeByte_plain

lemma PlainUnit.mem {unit : Bytes} (h : PlainUnit unit) {b : Byte} (hb : b ∈ unit) :
    33 ≤ b ∧ b ≤ 126 ∧ b ∉ ([38, 61, 35, 63] : Bytes) := by
  obtain ⟨c, rfl, hlow, hhigh, hc⟩ | ⟨high, low, rfl, hhigh, hlow⟩ := h
  · obtain rfl := List.mem_singleton.mp hb
    refine ⟨hlow, hhigh, fun hmem => hc ?_⟩
    simp only [List.mem_cons, List.not_mem_nil, or_false] at hmem ⊢
    tauto
  · simp only [List.mem_cons, List.not_mem_nil, or_false] at hb
    obtain rfl | rfl | rfl := hb
    · decide
    · apply hexDigit_plain
      exact hhigh
    · apply hexDigit_plain
      exact hlow

lemma Plain.mem {text : Bytes} (h : Plain text) {b : Byte} (hb : b ∈ text) :
    33 ≤ b ∧ b ≤ 126 ∧ b ∉ ([38, 61, 35, 63] : Bytes) := by
  obtain ⟨units, rfl, hunits⟩ := h
  obtain ⟨unit, hunit, hb⟩ := List.mem_flatten.mp hb
  exact (hunits unit hunit).mem hb

lemma encoded_not_mem (form : Bool) (input : Bytes) {c : Byte} (hc : c ∈ ([38, 61, 35, 63] : Bytes)) :
    c ∉ encoded form input := by
  intro hmem
  exact ((encoded_plain form input).mem hmem).2.2 hc

end Shape

/-- A name and a value, each through `PercentEncodeComponent`, with `=` between. -/
def EncodedPair (form : Bool) (pair : Bytes × Bytes) (field : Bytes) : Prop :=
  ∃ (m n : ℕ) (name value : Bytes), percentEncodeComponent pair.1 form m = .ok name ∧
    percentEncodeComponent pair.2 form n = .ok value ∧ field = name ++ 61 :: value

def FieldLimits.Admits (limits : FieldLimits) (pair : Bytes × Bytes) : Prop :=
  pair.1.length ≤ limits.maxNameBytes ∧ pair.2.length ≤ limits.maxValueBytes

section Fields

lemma EncodedPair.eq {form : Bool} {pair : Bytes × Bytes} {field : Bytes} (h : EncodedPair form pair field) :
    field = encoded form pair.1 ++ 61 :: encoded form pair.2 ∧ text pair.1 = true ∧ text pair.2 = true := by
  obtain ⟨m, n, name, value, hname, hvalue, rfl⟩ := h
  obtain ⟨_, htext, _, rfl⟩ := (percentEncodeComponent_eq_ok _ _ _ _).mp hname
  obtain ⟨_, htext', _, rfl⟩ := (percentEncodeComponent_eq_ok _ _ _ _).mp hvalue
  exact ⟨rfl, htext, htext'⟩

lemma EncodedPair.not_mem {form : Bool} {pair : Bytes × Bytes} {field : Bytes} (h : EncodedPair form pair field)
    {c : Byte} (hc : c ∈ ([38, 35, 63] : Bytes)) : c ∉ field := by
  have hmem : c ∈ ([38, 61, 35, 63] : Bytes) := by
    simp only [List.mem_cons, List.not_mem_nil, or_false] at hc ⊢
    tauto
  have hne : c ≠ 61 := by
    rintro rfl
    exact absurd hc (by decide)
  rw [h.eq.1, List.mem_append, List.mem_cons]
  rintro (hin | rfl | hin)
  · exact encoded_not_mem form _ hmem hin
  · exact hne rfl
  · exact encoded_not_mem form _ hmem hin

lemma parseField_encoded {form : Bool} {limits : FieldLimits} {pair : Bytes × Bytes} {field : Bytes}
    (h : EncodedPair form pair field) (hvalid : limits.valid = true) (hpair : limits.Admits pair)
    (result : List (Bytes × Bytes)) (hroom : result.length < limits.maxFields) :
    parseField form limits result field = .ok (result ++ [pair]) := by
  obtain ⟨rfl, hname, hvalue⟩ := h.eq
  simp only [FieldLimits.valid, Bool.and_eq_true, decide_eq_true_eq] at hvalid
  obtain ⟨⟨⟨_, _⟩, hnames⟩, hvalues⟩ := hvalid
  have hfind := findIdx?_mid (encoded_not_mem form pair.1 (c := 61) (by decide)) (encoded form pair.2)
  have hdrop : (encoded form pair.1 ++ 61 :: encoded form pair.2).drop ((encoded form pair.1).length + 1) =
      encoded form pair.2 := by
    rw [← List.drop_drop, List.drop_left]
    rfl
  unfold parseField
  rw [if_neg (by simp), if_neg (by omega), hfind]
  simp only [upTo, List.take_left, Option.map_some, Option.getD_some, hdrop]
  rw [percentDecodeComponent_encoded form _ _ hnames hname hpair.1,
    percentDecodeComponent_encoded form _ _ hvalues hvalue hpair.2]
  rfl

lemma fields_not_mem {form : Bool} {pairs : List (Bytes × Bytes)} {fields : List Bytes}
    (h : List.Forall₂ (EncodedPair form) pairs fields) {c : Byte} (hc : c ∈ ([38, 35, 63] : Bytes)) :
    ∀ field ∈ fields, c ∉ field := by
  induction h with
  | nil => simp
  | cons hfield _ ih =>
    intro field hmem
    obtain rfl | hmem := List.mem_cons.mp hmem
    · exact hfield.not_mem hc
    · exact ih field hmem

lemma foldlM_parseField_encoded {form : Bool} {limits : FieldLimits} (hvalid : limits.valid = true)
    {pairs : List (Bytes × Bytes)} {fields : List Bytes} (h : List.Forall₂ (EncodedPair form) pairs fields) :
    ∀ result : List (Bytes × Bytes), result.length + pairs.length ≤ limits.maxFields →
      (∀ pair ∈ pairs, limits.Admits pair) →
      fields.foldlM (parseField form limits) result = .ok (result ++ pairs) := by
  induction h with
  | nil => intro result _ _; simp [pure, Except.pure]
  | @cons pair field pairs fields hfield _ ih =>
    intro result hroom hadmits
    rw [List.length_cons] at hroom
    rw [List.foldlM_cons,
      parseField_encoded hfield hvalid (hadmits pair List.mem_cons_self) result (by omega)]
    have hrest := ih (result ++ [pair]) (by rw [List.length_append, List.length_singleton]; omega)
      (fun p hp => hadmits p (List.mem_cons_of_mem _ hp))
    rw [List.append_assoc, List.singleton_append] at hrest
    exact hrest

lemma parseFields_encoded {form : Bool} {limits : FieldLimits} (hvalid : limits.valid = true)
    {pairs : List (Bytes × Bytes)} {fields : List Bytes} (h : List.Forall₂ (EncodedPair form) pairs fields)
    (hcount : pairs.length ≤ limits.maxFields) (hadmits : ∀ pair ∈ pairs, limits.Admits pair)
    (hbytes : ([38].intercalate fields).length ≤ limits.maxBytes) :
    parseFields ([38].intercalate fields) form limits = .ok pairs := by
  unfold parseFields
  rw [if_neg (by simp [hvalid]), if_neg (by omega)]
  have hfold := foldlM_parseField_encoded hvalid h [] (by simpa using hcount) hadmits
  cases h with
  | nil => rfl
  | @cons pair field pairs fields hfield hrest =>
    have hsep := fields_not_mem (.cons hfield hrest) (c := 38) (by decide)
    rw [List.splitOn_intercalate _ hsep (List.cons_ne_nil _ _)]
    exact hfold

theorem encoding_undone :
    (∀ (form : Bool) (limits : FieldLimits) (pairs : List (Bytes × Bytes)) (fields : List Bytes),
      limits.valid = true → pairs.length ≤ limits.maxFields → (∀ pair ∈ pairs, limits.Admits pair) →
      List.Forall₂ (EncodedPair form) pairs fields → ([38].intercalate fields).length ≤ limits.maxBytes →
        (form = true → parseFormUrlEncoded ([38].intercalate fields) limits = .ok pairs) ∧
        (form = false → ∀ path : Bytes, 35 ∉ path → 63 ∉ path →
          parseQueryParameters (path ++ 63 :: [38].intercalate fields) limits = .ok pairs)) ∧
    (∀ (form : Bool) (input : Bytes) (maxBytes : ℕ) (component : Bytes),
      percentEncodeComponent input form maxBytes = .ok component →
        (∀ bound, bound ≠ 0 → input.length ≤ bound → percentDecodeComponent component form bound = .ok input) ∧
        Plain component ∧ ∀ b ∈ component, 33 ≤ b ∧ b ≤ 126 ∧ b ∉ ([38, 61, 35, 63] : Bytes)) ∧
    (∀ (form : Bool) (input : Bytes) (maxBytes : ℕ), text input = true → maxBytes ≠ 0 →
      3 * input.length ≤ maxBytes → ∃ component, percentEncodeComponent input form maxBytes = .ok component) := by
  refine ⟨?_, ?_, ?_⟩
  · intro form limits pairs fields hvalid hcount hadmits hfields hbytes
    have hparse := parseFields_encoded hvalid hfields hcount hadmits hbytes
    refine ⟨?_, ?_⟩
    · rintro rfl
      exact hparse
    · rintro rfl path hhash hquestion
      have hfree : (35 : Byte) ∉ path ++ 63 :: [38].intercalate fields := by
        rw [List.mem_append, List.mem_cons]
        rintro (hin | heq | hin)
        · exact hhash hin
        · exact absurd heq (by decide)
        · exact not_mem_intercalate (by decide) (fields_not_mem hfields (by decide)) hin
      have hdrop : (path ++ 63 :: [38].intercalate fields).drop (path.length + 1) = [38].intercalate fields := by
        rw [← List.drop_drop, List.drop_left]
        rfl
      unfold parseQueryParameters
      rw [if_neg (by simpa using hfree), findIdx?_mid hquestion]
      dsimp only
      rw [hdrop]
      exact hparse
  · intro form input maxBytes component hencode
    obtain ⟨_, htext, _, rfl⟩ := (percentEncodeComponent_eq_ok _ _ _ _).mp hencode
    refine ⟨?_, encoded_plain form input, fun b hb => (encoded_plain form input).mem hb⟩
    intro bound hne hroom
    exact percentDecodeComponent_encoded form bound input hne htext hroom
  · intro form input maxBytes htext hne hroom
    have hlength := encoded_length_le form input
    refine ⟨encoded form input, (percentEncodeComponent_eq_ok _ _ _ _).mpr ?_⟩
    exact ⟨hne, htext, by omega, rfl⟩

lemma text_ofAscii {value : Bytes} (h : value.all (fun b => 0 < b && b < 0x80) = true) : text value = true := by
  rw [List.all_eq_true] at h
  have hbyte : ∀ b ∈ value, 0 < b ∧ b < 0x80 := by simpa using h
  have hzero : value.contains 0 = false := by
    apply Bool.eq_false_iff.mpr
    intro hmem
    exact absurd (hbyte 0 (by simpa using hmem)).1 (by decide)
  unfold text
  rw [hzero, (isValidUtf8_iff value).mpr (Utf8.ofAscii fun b hb => (hbyte b hb).2)]
  rfl

lemma EncodedPair.intro {form : Bool} {pair : Bytes × Bytes} (hname : text pair.1 = true)
    (hvalue : text pair.2 = true) : EncodedPair form pair (encoded form pair.1 ++ 61 :: encoded form pair.2) := by
  refine ⟨(encoded form pair.1).length + 1, (encoded form pair.2).length + 1, _, _, ?_, ?_, rfl⟩
  · exact (percentEncodeComponent_eq_ok _ _ _ _).mpr ⟨by omega, hname, by omega, rfl⟩
  · exact (percentEncodeComponent_eq_ok _ _ _ _).mpr ⟨by omega, hvalue, by omega, rfl⟩

/-- An empty name, an empty value and the bytes the two modes write differently. -/
theorem encoding_undone_marks :
    parseFormUrlEncoded ([38].intercalate [ascii "=*+%2B", ascii "%7E="]) {} = .ok [([], ascii "* +"), (ascii "~", [])] ∧
    parseQueryParameters (ascii "/a" ++ 63 :: [38].intercalate [ascii "=%2A%20%2B", ascii "~="]) {} =
      .ok [([], ascii "* +"), (ascii "~", [])] := by
  have htext : ∀ pair ∈ [([], ascii "* +"), (ascii "~", [])], text pair.1 = true ∧ text pair.2 = true := by
    simp only [List.forall_mem_cons, List.not_mem_nil, false_imp_iff, implies_true, and_true]
    exact ⟨⟨text_ofAscii rfl, text_ofAscii rfl⟩, text_ofAscii rfl, text_ofAscii rfl⟩
  have hadmits : ∀ pair ∈ [([], ascii "* +"), (ascii "~", [])], FieldLimits.Admits {} pair := by
    simp only [List.forall_mem_cons, List.not_mem_nil, false_imp_iff, implies_true, and_true]
    exact ⟨⟨by decide, by decide⟩, by decide, by decide⟩
  have hfields (form : Bool) : List.Forall₂ (EncodedPair form) [([], ascii "* +"), (ascii "~", [])]
      [encoded form [] ++ 61 :: encoded form (ascii "* +"), encoded form (ascii "~") ++ 61 :: encoded form []] := by
    refine .cons ?_ (.cons ?_ .nil)
    · exact EncodedPair.intro (htext _ List.mem_cons_self).1 (htext _ List.mem_cons_self).2
    · have hlast := htext (ascii "~", []) (by simp)
      exact EncodedPair.intro hlast.1 hlast.2
  refine ⟨?_, ?_⟩
  · exact (encoding_undone.1 true {} _ _ (by decide) (by decide) hadmits (hfields true) (by decide)).1 rfl
  · exact (encoding_undone.1 false {} _ _ (by decide) (by decide) hadmits (hfields false) (by decide)).2 rfl _
      (by decide) (by decide)

end Fields

end ServerCore.Web.RequestData
