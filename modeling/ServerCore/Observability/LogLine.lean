import ServerCore.Core.Logging
import ServerCore.Protocol.JsonRoundTrip

/-! The lines of `AsyncLogger`, and structured ones read as JSON. -/

namespace ServerCore.Observability

open ServerCore.Core ServerCore.Core.LogRecord ServerCore.Protocol ServerCore.Protocol.Json ServerCore.Foundations

structure Record where
  level : LogLevel
  message : Bytes
  timestamp : Int64
  structured : Bool := false

def toStringInt64 (n : Int64) : Bytes := toCharsInteger n.toInt

def levelTag : LogLevel → Bytes
  | .trace => ascii "TRACE"
  | .debug => ascii "DEBUG"
  | .info => ascii "INFO"
  | .warn => ascii "WARN"
  | .error => ascii "ERROR"

def escapeText (value : Byte) : Bytes :=
  if value < 32 ∨ value = 127 then [92, 120, digitChar (value.toNat >>> 4), digitChar (value.toNat &&& 15)]
  else [value]

def format (record : Record) : Bytes :=
  if record.structured then
    ascii "\x7b\"timestamp_ms\":" ++ toStringInt64 record.timestamp ++ ascii "," ++ record.message.drop 1 ++ ascii "\n"
  else
    toStringInt64 record.timestamp ++ ascii " " ++ levelTag record.level ++ ascii " " ++
      record.message.flatMap escapeText ++ ascii "\n"

section Clean

def Clean (text : Bytes) : Prop := Utf8 text ∧ ∀ b ∈ text, 32 ≤ b ∧ b ≠ 127

lemma Clean.append {x y : Bytes} (hx : Clean x) (hy : Clean y) : Clean (x ++ y) := by
  refine ⟨hx.1.append hy.1, fun b hb => ?_⟩
  rcases List.mem_append.mp hb with hb | hb
  · exact hx.2 b hb
  · exact hy.2 b hb

lemma clean_ascii {text : Bytes} (h : (text.all fun b => 32 ≤ b && b < 127) = true) : Clean text := by
  have hall : ∀ b ∈ text, 32 ≤ b ∧ b < 127 := by simpa using h
  refine ⟨.ofAscii fun b hb => UInt8.lt_trans (hall b hb).2 (by decide), fun b hb => ⟨(hall b hb).1, ?_⟩⟩
  rintro rfl
  exact absurd (hall 127 hb).2 (by decide)

lemma escape_spec (c : Byte) : (∀ b ∈ escape c, 32 ≤ b ∧ b ≠ 127) ∧ (c < 0x80 → ∀ b ∈ escape c, b < 0x80) ∧
    (0x80 ≤ c → escape c = [c]) := by
  have h : ((escape c).all fun b => 32 ≤ b && b != 127) = true ∧
      (c < 0x80 → ((escape c).all fun b => b < 0x80) = true) ∧ (0x80 ≤ c → escape c = [c]) := by
    revert c
    apply byte_cases
    decide +kernel
  refine ⟨?_, fun hc => ?_, h.2.2⟩
  · simpa using h.1
  · simpa using h.2.1 hc

lemma clean_quotedText {value : Bytes} (h : Utf8 value) : Clean (quotedText value) := by
  have hquote : Clean [34] := clean_ascii (by decide)
  refine (hquote.append ⟨?_, fun b hb => ?_⟩).append hquote
  · exact h.flatMap (fun b hb => (escape_spec b).2.1 hb) (fun b hb => (escape_spec b).2.2 hb)
  · obtain ⟨c, -, hc⟩ := List.mem_flatMap.mp hb
    exact (escape_spec c).1 b hc

lemma clean_toChars (n : ℕ) : Clean (toChars 10 n) := by
  apply clean_ascii
  rw [List.all_eq_true]
  intro b hb
  obtain ⟨d, hd, rfl⟩ := mem_toChars (by decide) hb
  have hall : ∀ d < 10, (32 ≤ digitChar d && digitChar d < 127) = true := by decide
  exact hall d hd

lemma clean_toStringInt64 (n : Int64) : Clean (toStringInt64 n) := by
  have hsign : Clean [45] := clean_ascii (by decide)
  rw [toStringInt64, toCharsInteger]
  split_ifs
  · exact hsign.append (clean_toChars _)
  · exact clean_toChars _

lemma clean_idText {name : Bytes} (h : Utf8 name) (value : UInt64) : Clean (idText name value) := by
  rw [idText]
  split_ifs
  · exact clean_ascii rfl
  · exact (((clean_ascii (by decide)).append (clean_quotedText h)).append (clean_ascii (by decide))).append (clean_toChars _)

lemma utf8_name {field : LogField} (h : ValidField field) : Utf8 field.name := by
  refine .ofAscii fun b hb => ?_
  have hall (b : Byte) : isNameByte b = true → b < 0x80 := by
    revert b
    apply byte_cases
    decide +kernel
  exact hall b (h.nameBytes b hb)

lemma clean_fieldText {field : LogField} (h : ValidField field) : Clean (fieldText field) :=
  ((clean_quotedText (utf8_name h)).append (clean_ascii (by decide))).append (clean_quotedText h.utf8)

lemma clean_fieldsText {fields : List LogField} (h : ∀ field ∈ fields, ValidField field) (index : ℕ) :
    Clean (fieldsText index fields) := by
  induction fields generalizing index with
  | nil => exact clean_ascii rfl
  | cons field rest ih =>
    rw [List.forall_mem_cons] at h
    have hcomma : Clean (if index = 0 then [] else ascii ",") := by
      split_ifs
      · exact clean_ascii rfl
      · exact clean_ascii (by decide)
    exact (hcomma.append (clean_fieldText h.1)).append (ih h.2 (index + 1))

lemma clean_encoding {record : LogRecord} {maximum : ℕ} {level : LogLevel} (h : Valid record maximum level) :
    Clean (encoding level record) := by
  have hlevel : Utf8 (levelName level) := by
    cases level <;> exact .ofAll (by decide)
  have hid (name : Bytes) (hname : name.all (· < 0x80) = true) (value : UInt64) : Clean (idText name value) :=
    clean_idText (.ofAll hname) value
  rw [encoding]
  refine Clean.append (Clean.append (Clean.append (Clean.append (Clean.append (Clean.append (Clean.append
    (Clean.append (Clean.append (Clean.append (clean_ascii (by decide)) (clean_quotedText hlevel)) (clean_ascii (by decide)))
    (clean_quotedText h.message)) ?_) ?_) ?_) ?_) (clean_ascii (by decide))) (clean_fieldsText h.fields 0)) (clean_ascii (by decide))
  · exact hid _ (by decide) _
  · exact hid _ (by decide) _
  · exact hid _ (by decide) _
  · exact hid _ (by decide) _

end Clean

section Reading

variable {charconv : Charconv}

def Reads (charconv : Charconv) (v : JsonValue) (depth : ℕ) (x : Bytes) : Prop :=
  ∃ t, Spells (.value t) x ∧ t.Good charconv ∧ t.depth ≤ depth ∧ t.value charconv = v

lemma digitChar_item {n : ℕ} (h : n < 128) : isHexDigit (digitChar (n >>> 4)) = true ∧
    isHexDigit (digitChar (n &&& 15)) = true ∧
    StringItem.hex4 48 48 (digitChar (n >>> 4)) (digitChar (n &&& 15)) = n := by
  have hall : ∀ m < 128, isHexDigit (digitChar (m >>> 4)) = true ∧ isHexDigit (digitChar (m &&& 15)) = true ∧
      StringItem.hex4 48 48 (digitChar (m >>> 4)) (digitChar (m &&& 15)) = m := by decide +kernel
  exact hall n h

lemma escape_item (c : Byte) : ∃ item : StringItem, item.text = escape c ∧
    ∀ rest, surrogatesPaired (item :: rest) = surrogatesPaired rest ∧ unescape (item :: rest) = c :: unescape rest := by
  have hescape (hl : simpleEscape c = some c) (hc : c = 34 ∨ c = 92) : ∃ item : StringItem, item.text = escape c ∧
      ∀ rest, surrogatesPaired (item :: rest) = surrogatesPaired rest ∧ unescape (item :: rest) = c :: unescape rest :=
    ⟨.escape c c hl, by rw [escape, if_pos hc]; rfl, fun rest => ⟨surrogatesPaired_escape, by rw [unescape]⟩⟩
  by_cases h34 : c = 34
  · exact hescape (by rw [h34]; rfl) (.inl h34)
  by_cases h92 : c = 92
  · exact hescape (by rw [h92]; rfl) (.inr h92)
  have hplain : ¬ (c = 34 ∨ c = 92) := by
    rw [not_or]
    exact ⟨h34, h92⟩
  by_cases hcontrol : c < 32 ∨ c = 127
  · have hn : c.toNat < 128 := by
      rcases hcontrol with hlow | rfl
      · have := UInt8.lt_iff_toNat_lt.mp hlow
        simp only [UInt8.reduceToNat] at this
        omega
      · decide
    obtain ⟨h₁, h₂, hhex⟩ := digitChar_item hn
    have hhigh : isHighSurrogate c.toNat = false := by
      simp only [isHighSurrogate, Bool.and_eq_false_iff, decide_eq_false_iff_not]
      omega
    have hlow : isLowSurrogate c.toNat = false := by
      simp only [isLowSurrogate, Bool.and_eq_false_iff, decide_eq_false_iff_not]
      omega
    have hascii : c < 0x80 := UInt8.lt_iff_toNat_lt.mpr hn
    refine ⟨.unicode 48 48 (digitChar (c.toNat >>> 4)) (digitChar (c.toNat &&& 15)) ?_, ?_, fun rest => ⟨?_, ?_⟩⟩
    · simp only [List.forall_mem_cons]
      exact ⟨rfl, rfl, h₁, h₂, by simp⟩
    · rw [escape, if_neg hplain, if_pos hcontrol]
      rfl
    · rw [surrogatesPaired_unicode (by rw [hhex, hhigh]), hhex, hlow]
      simp
    · rw [unescape_unicode (by rw [hhex, hhigh]), hhex, appendUtf8_ascii hascii]
      rfl
  · rw [not_or] at hcontrol
    refine ⟨.raw c (UInt8.not_lt.mp hcontrol.1) h34 h92, ?_, fun rest => ⟨surrogatesPaired_raw, by rw [unescape]⟩⟩
    rw [escape, if_neg hplain, if_neg (by rw [not_or]; exact hcontrol)]
    rfl

lemma quotedText_items (value : Bytes) : ∃ items, stringText items = quotedText value ∧ surrogatesPaired items = true ∧
    unescape items = value := by
  have h : ∃ items : List StringItem, items.flatMap StringItem.text = value.flatMap escape ∧
      surrogatesPaired items = true ∧ unescape items = value := by
    induction value with
    | nil => exact ⟨[], rfl, by rw [surrogatesPaired], by rw [unescape]⟩
    | cons c value ih =>
      obtain ⟨items, htext, hpaired, hunescape⟩ := ih
      obtain ⟨item, hitem, hrest⟩ := escape_item c
      refine ⟨item :: items, ?_, ?_, ?_⟩
      · rw [List.flatMap_cons, List.flatMap_cons, hitem, htext]
      · rw [(hrest items).1, hpaired]
      · rw [(hrest items).2, hunescape]
  obtain ⟨items, htext, hpaired, hunescape⟩ := h
  exact ⟨items, by rw [stringText, htext, quotedText]; rfl, hpaired, hunescape⟩

lemma reads_quoted (value : Bytes) : Reads charconv (.string value) 0 (quotedText value) := by
  obtain ⟨items, htext, hpaired, hunescape⟩ := quotedText_items value
  refine ⟨.string items, ?_, by simpa [Tree.Good, Tree.nodes, Tree.Accepted] using hpaired, le_rfl, ?_⟩
  · rw [← htext]
    exact .string items
  · rw [Tree.value, hunescape]

lemma reads_token {v : JsonValue} {t : NumberToken} (h : numberValue charconv t.text = .ok v) :
    Reads charconv v 0 t.text := by
  refine ⟨.number t, .number t, ?_, le_rfl, ?_⟩
  · simpa [Tree.Good, Tree.nodes, Tree.Accepted] using ⟨_, h⟩
  · rw [Tree.value, h]
    rfl

lemma reads_uint64 (value : UInt64) : Reads charconv (.uint64 value) 0 (toChars 10 value.toNat) := by
  have h := reads_token (@numberValue_uint64 charconv value)
  rwa [integerToken_text, toCharsInteger, if_neg (by omega), Int.natAbs_natCast] at h

lemma reads_int64 (n : Int64) : Reads charconv (JsonValue.int64 n).reparsed 0 (toStringInt64 n) := by
  have h := reads_token (@numberValue_int64 charconv n)
  rwa [integerToken_text] at h

def MemberReads (charconv : Charconv) (depth : ℕ) (m : Bytes × JsonValue) (x : Bytes) : Prop :=
  ∃ y, x = quotedText m.1 ++ ascii ":" ++ y ∧ Reads charconv m.2 depth y

def commaed (texts : List Bytes) : Bytes := texts.flatMap fun x => ascii "," ++ x

lemma reads_members {depth : ℕ} {m : Bytes × JsonValue} {ms : List (Bytes × JsonValue)} {x : Bytes} {xs : List Bytes}
    (h : MemberReads charconv depth m x) (hs : List.Forall₂ (MemberReads charconv depth) ms xs) :
    ∃ ts, Spells (.members ts) (x ++ commaed xs) ∧ (∀ t ∈ ts, surrogatesPaired t.1 = true ∧ t.2.Good charconv) ∧
      Tree.memberDepth ts ≤ depth + 1 ∧ Tree.memberValues charconv ts = m :: ms := by
  have hnil : Whitespace [] := by simp [Whitespace]
  obtain ⟨y, rfl, t, hspells, hgood, hdepth, hvalue⟩ := h
  obtain ⟨items, htext, hpaired, hunescape⟩ := quotedText_items m.1
  induction hs generalizing m y t items with
  | nil =>
    refine ⟨[(items, t)], ?_, by simpa using ⟨hpaired, hgood⟩, ?_, ?_⟩
    · have hlast : Spells (.members [(items, t)]) _ := .lastMember hnil hnil hspells hnil
      have hcolon : ascii ":" = [58] := rfl
      rw [← htext]
      simpa [commaed, hcolon] using hlast
    · simp only [Tree.memberDepth]
      omega
    · rw [Tree.memberValues, hunescape, hvalue]
      rfl
  | @cons m' x' ms xs hm' _ ih =>
    obtain ⟨y', rfl, t', hspells', hgood', hdepth', hvalue'⟩ := hm'
    obtain ⟨items', htext', hpaired', hunescape'⟩ := quotedText_items m'.1
    obtain ⟨ts, hts, hgoods, hdepths, hvalues⟩ := ih y' t' hspells' hgood' hdepth' hvalue' items' htext' hpaired' hunescape'
    refine ⟨(items, t) :: ts, ?_, List.forall_mem_cons.mpr ⟨⟨hpaired, hgood⟩, hgoods⟩, ?_, ?_⟩
    · have hnext : Spells (.members ((items, t) :: ts)) _ := .member hnil hnil hspells hnil hnil hts
      have hcomma : ascii "," = [44] := rfl
      have hcolon : ascii ":" = [58] := rfl
      rw [← htext]
      simpa [commaed, hcomma, hcolon] using hnext
    · simp only [Tree.memberDepth]
      omega
    · rw [Tree.memberValues, hunescape, hvalue, hvalues]

lemma reads_object {depth : ℕ} {ms : List (Bytes × JsonValue)} {body : Bytes} (hnodup : (ms.map Prod.fst).Nodup)
    (h : (ms = [] ∧ body = []) ∨ ∃ ts, Spells (.members ts) body ∧
      (∀ t ∈ ts, surrogatesPaired t.1 = true ∧ t.2.Good charconv) ∧ Tree.memberDepth ts ≤ depth ∧
      Tree.memberValues charconv ts = ms) :
    ∃ object, object.Perm ms ∧ OrderedMap.Sorted object ∧
      Reads charconv (.object object) depth (ascii "\x7b" ++ body ++ ascii "\x7d") := by
  have hnil : Whitespace [] := by simp [Whitespace]
  rcases h with ⟨rfl, rfl⟩ | ⟨ts, hspells, hgood, hdepth, rfl⟩
  · refine ⟨[], .refl _, List.Pairwise.nil, .object [], .emptyObject hnil, ?_, Nat.zero_le _, rfl⟩
    exact Tree.good_object.mpr (by simp [Tree.Accepted])
  · have hsome := (OrderedMap.insertAll_isSome_iff List.Pairwise.nil).mpr ⟨hnodup, by simp⟩
    obtain ⟨object, hobject⟩ := Option.isSome_iff_exists.mp hsome
    have hperm := OrderedMap.insertAll_perm hobject
    rw [List.append_nil] at hperm
    refine ⟨object, hperm, OrderedMap.insertAll_keeps_sorted List.Pairwise.nil hobject, .object ts, .object hnil hspells, ?_,
      hdepth, ?_⟩
    · exact Tree.good_object.mpr ⟨⟨fun t ht => (hgood t ht).1, Tree.insertAll_memberValues.mp hsome⟩, fun t ht => (hgood t ht).2⟩
    · rw [Tree.value, hobject, Option.getD_some]

lemma Reads.parse {v : JsonValue} {depth : ℕ} {x w : Bytes} (h : Reads charconv v depth x) (hw : Whitespace w)
    (hutf8 : Utf8 (x ++ w)) (hdepth : depth ≤ maximumJsonNestingDepth) (hlength : (x ++ w).length ≤ noValueLimit) :
    parse charconv (x ++ w) = .ok v := by
  obtain ⟨t, hspells, hgood, hd, hvalue⟩ := h
  have hdocument : parseDocument charconv (x ++ w) noValueLimit = .ok v :=
    (parseDocument_ok_iff hlength).mpr ⟨t, ⟨[], [], x, w, .inl rfl, by simp, by simp [Whitespace], hspells, hw⟩, hgood,
      hd.trans hdepth, hvalue⟩
  rw [Json.parse, parseText, (isValidUtf8_iff _).mpr hutf8, hdocument]
  rfl

end Reading

section Records

variable {charconv : Charconv}

def idMember (name : Bytes) (value : UInt64) : List (Bytes × JsonValue) :=
  if value = 0 then [] else [(name, .uint64 value)]

def fieldMember (field : LogField) : Bytes × JsonValue := (field.name, .string field.value)

/-- The members of a record's object, `fields` being the object of its fields. -/
def recordMembers (level : LogLevel) (record : LogRecord) (fields : List (Bytes × JsonValue)) : List (Bytes × JsonValue) :=
  [(ascii "level", .string (levelName level)), (ascii "message", .string record.message)] ++
    idMember (ascii "request_id") record.correlation.requestId ++ idMember (ascii "session_id") record.correlation.sessionId ++
    idMember (ascii "task_id") record.correlation.taskId ++ idMember (ascii "connection_id") record.correlation.connectionId ++
    [(ascii "fields", .object fields)]

/-- What the parser makes of a time stamp: an `int64` below zero, else a `uint64`. -/
def timestampMember (timestamp : Int64) : Bytes × JsonValue :=
  (ascii "timestamp_ms", (JsonValue.int64 timestamp).reparsed)

lemma idMember_keys (name : Bytes) (value : UInt64) : ((idMember name value).map Prod.fst).Sublist [name] := by
  rw [idMember]
  split_ifs
  · exact List.nil_sublist _
  · exact List.Sublist.refl _

lemma recordMembers_nodup (level : LogLevel) (record : LogRecord) (fields : List (Bytes × JsonValue)) (timestamp : Int64) :
    ((timestampMember timestamp :: recordMembers level record fields).map Prod.fst).Nodup := by
  have hall : ([ascii "timestamp_ms"] ++ ([ascii "level", ascii "message"] ++ [ascii "request_id"] ++ [ascii "session_id"] ++
      [ascii "task_id"] ++ [ascii "connection_id"] ++ [ascii "fields"])).Nodup := by decide
  refine hall.sublist ?_
  rw [recordMembers, ← List.singleton_append]
  simp only [List.map_append]
  apply List.Sublist.append (.refl _)
  apply List.Sublist.append _ (.refl _)
  apply List.Sublist.append _ (idMember_keys _ _)
  apply List.Sublist.append _ (idMember_keys _ _)
  apply List.Sublist.append _ (idMember_keys _ _)
  exact List.Sublist.append (.refl _) (idMember_keys _ _)

lemma reads_idText (name : Bytes) (value : UInt64) : ∃ xs, idText name value = commaed xs ∧
    List.Forall₂ (MemberReads charconv 1) (idMember name value) xs := by
  rw [idText, idMember]
  split_ifs
  · exact ⟨[], rfl, .nil⟩
  · refine ⟨[quotedText name ++ ascii ":" ++ toChars 10 value.toNat], by simp [commaed], .cons ⟨_, rfl, ?_⟩ .nil⟩
    obtain ⟨t, hspells, hgood, hdepth, hvalue⟩ := @reads_uint64 charconv value
    exact ⟨t, hspells, hgood, by omega, hvalue⟩

lemma fieldsText_eq (fields : List LogField) (index : ℕ) :
    fieldsText (index + 1) fields = commaed (fields.map fieldText) := by
  induction fields generalizing index with
  | nil => rfl
  | cons field rest ih =>
    rw [fieldsText, if_neg (by omega), ih (index + 1), List.map_cons, commaed, commaed, List.flatMap_cons]

lemma reads_fields (fields : List LogField) (hnodup : (fields.map LogField.name).Nodup) :
    ∃ object, object.Perm (fields.map fieldMember) ∧ OrderedMap.Sorted object ∧
      Reads charconv (.object object) 1 (ascii "\x7b" ++ fieldsText 0 fields ++ ascii "\x7d") := by
  have hmember (field : LogField) : MemberReads charconv 0 (fieldMember field) (fieldText field) :=
    ⟨quotedText field.value, rfl, reads_quoted field.value⟩
  apply reads_object
  · rw [List.map_map]
    exact hnodup
  · cases fields with
    | nil => exact .inl ⟨rfl, rfl⟩
    | cons field rest =>
      right
      have hrest : List.Forall₂ (MemberReads charconv 0) (rest.map fieldMember) (rest.map fieldText) := by
        rw [List.forall₂_map_left_iff, List.forall₂_map_right_iff]
        exact List.forall₂_same.mpr fun other _ => hmember other
      rw [fieldsText, fieldsText_eq, if_pos rfl, List.nil_append]
      exact reads_members (hmember field) hrest

lemma reads_encoding (level : LogLevel) (record : LogRecord) (hnodup : (record.fields.map LogField.name).Nodup) :
    ∃ fields x xs, fields.Perm (record.fields.map fieldMember) ∧ OrderedMap.Sorted fields ∧
      encoding level record = ascii "\x7b" ++ (x ++ commaed xs) ++ ascii "\x7d" ∧
      List.Forall₂ (MemberReads charconv 1) (recordMembers level record fields) (x :: xs) := by
  obtain ⟨fields, hperm, hsorted, hfields⟩ := @reads_fields charconv record.fields hnodup
  obtain ⟨xs₁, htext₁, hreads₁⟩ := @reads_idText charconv (ascii "request_id") record.correlation.requestId
  obtain ⟨xs₂, htext₂, hreads₂⟩ := @reads_idText charconv (ascii "session_id") record.correlation.sessionId
  obtain ⟨xs₃, htext₃, hreads₃⟩ := @reads_idText charconv (ascii "task_id") record.correlation.taskId
  obtain ⟨xs₄, htext₄, hreads₄⟩ := @reads_idText charconv (ascii "connection_id") record.correlation.connectionId
  have hstring (key value : Bytes) : MemberReads charconv 1 (key, .string value)
      (quotedText key ++ ascii ":" ++ quotedText value) := by
    refine ⟨_, rfl, ?_⟩
    obtain ⟨t, hspells, hgood, hdepth, hvalue⟩ := @reads_quoted charconv value
    exact ⟨t, hspells, hgood, by omega, hvalue⟩
  have hlast : MemberReads charconv 1 (ascii "fields", .object fields)
      (quotedText (ascii "fields") ++ ascii ":" ++ (ascii "\x7b" ++ fieldsText 0 record.fields ++ ascii "\x7d")) :=
    ⟨_, rfl, hfields⟩
  refine ⟨fields, quotedText (ascii "level") ++ ascii ":" ++ quotedText (levelName level),
    [quotedText (ascii "message") ++ ascii ":" ++ quotedText record.message] ++ xs₁ ++ xs₂ ++ xs₃ ++ xs₄ ++
      [quotedText (ascii "fields") ++ ascii ":" ++ (ascii "\x7b" ++ fieldsText 0 record.fields ++ ascii "\x7d")],
    hperm, hsorted, ?_, ?_⟩
  · have hopen : ascii "\x7b\"level\":" = ascii "\x7b" ++ quotedText (ascii "level") ++ ascii ":" := by decide
    have hmessage : ascii ",\"message\":" = ascii "," ++ quotedText (ascii "message") ++ ascii ":" := by decide
    have hbraces : ascii ",\"fields\":\x7b" = ascii "," ++ quotedText (ascii "fields") ++ ascii ":" ++ ascii "\x7b" := by decide
    have hclose : ascii "\x7d\x7d" = ascii "\x7d" ++ ascii "\x7d" := by decide
    rw [encoding, htext₁, htext₂, htext₃, htext₄, hopen, hmessage, hbraces, hclose]
    simp only [commaed, List.flatMap_append, List.flatMap_cons, List.flatMap_nil, List.append_assoc, List.append_nil]
  · have hhead := List.Forall₂.cons (hstring (ascii "level") (levelName level))
      (List.Forall₂.cons (hstring (ascii "message") record.message) .nil)
    have hids := List.rel_append (List.rel_append (List.rel_append (List.rel_append hhead hreads₁) hreads₂) hreads₃) hreads₄
    exact List.rel_append hids (.cons hlast .nil)

lemma reads_record {level : LogLevel} {record : LogRecord} {fields : List (Bytes × JsonValue)} {x : Bytes} {xs : List Bytes}
    (h : List.Forall₂ (MemberReads charconv 1) (recordMembers level record fields) (x :: xs)) (timestamp : Int64) :
    (∃ object, object.Perm (recordMembers level record fields) ∧ OrderedMap.Sorted object ∧
      Reads charconv (.object object) 2 (ascii "\x7b" ++ (x ++ commaed xs) ++ ascii "\x7d")) ∧
    ∃ object, object.Perm (timestampMember timestamp :: recordMembers level record fields) ∧ OrderedMap.Sorted object ∧
      Reads charconv (.object object) 2 (ascii "\x7b" ++ (quotedText (ascii "timestamp_ms") ++ ascii ":" ++
        toStringInt64 timestamp ++ commaed (x :: xs)) ++ ascii "\x7d") := by
  have hnodup := recordMembers_nodup level record fields timestamp
  have htimestamp : MemberReads charconv 1 (timestampMember timestamp)
      (quotedText (ascii "timestamp_ms") ++ ascii ":" ++ toStringInt64 timestamp) := by
    obtain ⟨t, hspells, hgood, hdepth, hvalue⟩ := @reads_int64 charconv timestamp
    exact ⟨_, rfl, t, hspells, hgood, by omega, hvalue⟩
  constructor
  · apply reads_object (List.nodup_cons.mp hnodup).2
    cases h with
    | cons hfirst hrest => exact .inr (reads_members hfirst hrest)
  · exact reads_object hnodup (.inr (reads_members htimestamp h))

lemma format_structured (level : LogLevel) (timestamp : Int64) (x : Bytes) (xs : List Bytes) :
    format ⟨level, ascii "\x7b" ++ (x ++ commaed xs) ++ ascii "\x7d", timestamp, true⟩ =
      ascii "\x7b" ++ (quotedText (ascii "timestamp_ms") ++ ascii ":" ++ toStringInt64 timestamp ++ commaed (x :: xs)) ++
        ascii "\x7d" ++ ascii "\n" := by
  have hopen : ascii "\x7b\"timestamp_ms\":" = ascii "\x7b" ++ quotedText (ascii "timestamp_ms") ++ ascii ":" := by decide
  have hdrop : (ascii "\x7b" ++ (x ++ commaed xs) ++ ascii "\x7d").drop 1 = x ++ commaed xs ++ ascii "\x7d" := rfl
  rw [format, if_pos rfl, hopen, hdrop]
  simp only [commaed, List.flatMap_cons, List.append_assoc]

end Records

/-- Structured log lines are JSON that reads back to the record, and the only valid record refused is too long. -/
theorem formatLogRecord_reads_back (charconv : Charconv) :
    (∀ record maximum text, formatLogRecord record maximum = .ok text → ∃ level fields object,
      record.level = some level ∧ text.length ≤ maximum ∧ (∀ b ∈ text, 32 ≤ b ∧ b ≠ 127) ∧
      fields.Perm (record.fields.map fieldMember) ∧ OrderedMap.Sorted fields ∧
      object.Perm (recordMembers level record fields) ∧ OrderedMap.Sorted object ∧
      parse charconv text = .ok (.object object) ∧
      ∀ timestamp, ∃ stamped, stamped.Perm (timestampMember timestamp :: object) ∧ OrderedMap.Sorted stamped ∧
        parse charconv (format ⟨level, text, timestamp, true⟩) = .ok (.object stamped)) ∧
    (∀ record maximum level, Valid record maximum level →
      (formatLogRecord record maximum = .error .tooLarge ↔ maximum < (encoding level record).length)) := by
  constructor
  · intro record maximum text h
    obtain ⟨level, hvalid, rfl, hlength⟩ := formatLogRecord_eq_ok h
    have hclean := clean_encoding hvalid
    have hbounded := hvalid.bounded
    have hlimit : noValueLimit = 2 ^ 64 - 1 := rfl
    have hmax : maxStructuredLogBytes = 65536 := rfl
    obtain ⟨fields, x, xs, hfields, hsorted, hencoding, hmembers⟩ := @reads_encoding charconv level record hvalid.distinct
    obtain ⟨⟨object, hperm, hobject, hreads⟩, -⟩ := reads_record hmembers 0
    refine ⟨level, fields, object, hvalid.level, hlength, hclean.2, hfields, hsorted, hperm, hobject, ?_, ?_⟩
    · have hparse := hreads.parse (w := []) (by simp [Whitespace]) (by rw [List.append_nil, ← hencoding]; exact hclean.1)
        (by decide) (by rw [List.append_nil, ← hencoding]; omega)
      rwa [List.append_nil, ← hencoding] at hparse
    · intro timestamp
      obtain ⟨-, stamped, hperm', hstamped, hreads'⟩ := reads_record hmembers timestamp
      refine ⟨stamped, hperm'.trans (hperm.symm.cons _), hstamped, ?_⟩
      have hline := format_structured level timestamp x xs
      rw [← hencoding] at hline
      have hbytes : format ⟨level, encoding level record, timestamp, true⟩ = ascii "\x7b\"timestamp_ms\":" ++
          toStringInt64 timestamp ++ ascii "," ++ (encoding level record).drop 1 ++ ascii "\n" := rfl
      have hutf8 : Utf8 (format ⟨level, encoding level record, timestamp, true⟩) := by
        have hrest : Utf8 ((encoding level record).drop 1) := by
          have hfront : ∀ b ∈ ascii "\x7b", b < 0x80 := List.forall_mem_singleton.mpr (show (123 : Byte) < 0x80 by decide)
          refine Utf8.of_ascii_append hfront ?_
          rw [hencoding]
          rw [hencoding] at hclean
          exact hclean.1
        have hfeed : Utf8 (ascii "\n") := .ofAll (by decide)
        have hcomma : Clean (ascii ",") := clean_ascii (by decide)
        have hopen : Clean (ascii "\x7b\"timestamp_ms\":") := clean_ascii (by decide)
        rw [hbytes]
        exact (((hopen.append (clean_toStringInt64 timestamp)).append hcomma).1.append hrest).append hfeed
      have hsize : (format ⟨level, encoding level record, timestamp, true⟩).length ≤ noValueLimit := by
        have hstamp : (toStringInt64 timestamp).length ≤ 20 := by
          have habs : timestamp.toInt.natAbs < 10 ^ (18 + 1) := by
            have hlo := timestamp.le_toInt
            have hhi := timestamp.toInt_lt
            omega
          have hdigits := @toChars_length_le 10 (by decide) _ 18 habs
          rw [toStringInt64, toCharsInteger]
          split_ifs
          · rw [List.length_cons]
            omega
          · omega
        have hopen : (ascii "\x7b\"timestamp_ms\":").length = 16 := by decide
        have hcomma : (ascii ",").length = 1 := by decide
        have hfeed : (ascii "\n").length = 1 := by decide
        rw [hbytes]
        simp only [List.length_append, List.length_drop, hopen, hcomma, hfeed]
        omega
      rw [hline] at hutf8 hsize ⊢
      exact hreads'.parse (by simp [Whitespace, ascii, isWhitespace]) hutf8 (by decide) hsize
  · intro record maximum level hvalid
    rw [formatLogRecord_valid hvalid]
    split_ifs with hfit
    · refine ⟨by rintro ⟨⟩, ?_⟩
      intro hlong
      omega
    · exact ⟨fun _ => not_le.mp hfit, fun _ => rfl⟩

end ServerCore.Observability
