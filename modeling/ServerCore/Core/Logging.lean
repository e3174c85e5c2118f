import ServerCore.Core.Charconv
import ServerCore.Core.Status
import ServerCore.Core.Utf8

/-! Log records and `FormatLogRecord`. -/

namespace ServerCore.Core

inductive LogLevel
  | trace
  | debug
  | info
  | warn
  | error
  deriving DecidableEq, Repr

structure LogField where
  name : Bytes
  value : Bytes
  deriving DecidableEq

structure LogCorrelation where
  requestId : UInt64 := 0
  sessionId : UInt64 := 0
  taskId : UInt64 := 0
  connectionId : UInt64 := 0

/-- `level` is `none` for a value that is none of the enumerators. -/
structure LogRecord where
  level : Option LogLevel := some .info
  message : Bytes
  fields : List LogField := []
  correlation : LogCorrelation := {}

namespace LogRecord

def maxLogFields : ℕ := 32

def maxLogFieldNameBytes : ℕ := 64

def maxStructuredLogBytes : ℕ := 65536

def isNameByte (c : Byte) : Bool :=
  (65 ≤ c && c ≤ 90) || (97 ≤ c && c ≤ 122) || (48 ≤ c && c ≤ 57) || c = 95 || c = 46 || c = 45

def checkField (maximum : ℕ) (previous : List LogField) (field : LogField) : Except ErrorCode Unit :=
  if field.name = [] ∨ field.name.length > maxLogFieldNameBytes then .error .invalidArgument
  else if field.value.length > maximum then .error .tooLarge
  else if isValidUtf8 field.value = false then .error .invalidArgument
  else if field.name.any fun c => !isNameByte c then .error .invalidArgument
  else if previous.any fun other => other.name = field.name then .error .invalidArgument
  else .ok ()

def checkFields (maximum : ℕ) (previous : List LogField) : List LogField → Except ErrorCode Unit
  | [] => .ok ()
  | field :: rest =>
    (checkField maximum previous field).bind fun _ => checkFields maximum (previous ++ [field]) rest

structure Buffer where
  text : Bytes
  tooLarge : Bool

def append (maximum : ℕ) (value : Bytes) (b : Buffer) : Buffer :=
  if value.length > sizeSub maximum b.text.length then { b with tooLarge := true }
  else { b with text := b.text ++ value }

def escape (c : Byte) : Bytes :=
  if c = 34 ∨ c = 92 then [92, c]
  else if c < 32 ∨ c = 127 then [92, 117, 48, 48, digitChar (c.toNat >>> 4), digitChar (c.toNat &&& 15)]
  else [c]

def quotedLoop (maximum : ℕ) : Bytes → Buffer → Buffer
  | [], b => b
  | c :: rest, b => if b.tooLarge then b else quotedLoop maximum rest (append maximum (escape c) b)

def quoted (maximum : ℕ) (value : Bytes) (b : Buffer) : Buffer :=
  append maximum [34] (quotedLoop maximum value (append maximum [34] b))

def levelName : LogLevel → Bytes
  | .trace => ascii "trace"
  | .debug => ascii "debug"
  | .info => ascii "info"
  | .warn => ascii "warn"
  | .error => ascii "error"

def appendId (maximum : ℕ) (name : Bytes) (value : UInt64) (b : Buffer) : Buffer :=
  if value = 0 then b
  else append maximum (toChars 10 value.toNat) (append maximum (ascii ":") (quoted maximum name (append maximum (ascii ",") b)))

def appendFields (maximum : ℕ) (index : ℕ) : List LogField → Buffer → Buffer
  | [], b => b
  | field :: rest, b =>
    let b := if index = 0 then b else append maximum (ascii ",") b
    appendFields maximum (index + 1) rest
      (quoted maximum field.value (append maximum (ascii ":") (quoted maximum field.name b)))

def appendRecord (maximum : ℕ) (level : LogLevel) (record : LogRecord) (b : Buffer) : Buffer :=
  let b := quoted maximum (levelName level) (append maximum (ascii "\x7b\"level\":") b)
  let b := quoted maximum record.message (append maximum (ascii ",\"message\":") b)
  let b := appendId maximum (ascii "request_id") record.correlation.requestId b
  let b := appendId maximum (ascii "session_id") record.correlation.sessionId b
  let b := appendId maximum (ascii "task_id") record.correlation.taskId b
  let b := appendId maximum (ascii "connection_id") record.correlation.connectionId b
  let b := appendFields maximum 0 record.fields (append maximum (ascii ",\"fields\":\x7b") b)
  append maximum (ascii "\x7d\x7d") b

def formatLogRecord (record : LogRecord) (maximum : ℕ) : Except ErrorCode Bytes :=
  match record.level with
  | none => .error .invalidArgument
  | some level =>
    if maximum = 0 ∨ maximum > maxStructuredLogBytes ∨ record.fields.length > maxLogFields then .error .invalidArgument
    else if record.message.length > maximum then .error .tooLarge
    else if isValidUtf8 record.message = false then .error .invalidArgument
    else
      (checkFields maximum [] record.fields).bind fun _ =>
        let b := appendRecord maximum level record ⟨[], false⟩
        if b.tooLarge then .error .tooLarge else .ok b.text

section Checks

structure ValidField (field : LogField) : Prop where
  name : field.name ≠ []
  nameLength : field.name.length ≤ maxLogFieldNameBytes
  nameBytes : ∀ c ∈ field.name, isNameByte c = true
  utf8 : Utf8 field.value

structure Valid (record : LogRecord) (maximum : ℕ) (level : LogLevel) : Prop where
  level : record.level = some level
  positive : maximum ≠ 0
  bounded : maximum ≤ maxStructuredLogBytes
  count : record.fields.length ≤ maxLogFields
  message : Utf8 record.message
  fields : ∀ field ∈ record.fields, ValidField field
  distinct : (record.fields.map LogField.name).Nodup

variable {maximum : ℕ} {previous fields : List LogField} {field : LogField}

lemma checkField_ok_iff : checkField maximum previous field = .ok () ↔
    ValidField field ∧ field.value.length ≤ maximum ∧ field.name ∉ previous.map LogField.name := by
  have hprevious : (previous.any fun other => other.name = field.name) = true ↔
      field.name ∈ previous.map LogField.name := by
    simp [List.any_eq_true, List.mem_map]
  have hbytes : (field.name.any fun c => !isNameByte c) = true ↔ ¬ ∀ c ∈ field.name, isNameByte c = true := by
    simp [List.any_eq_true]
  rw [checkField]
  constructor
  · intro h
    split_ifs at h with hname hlong hutf8 hnames hknown
    rw [not_or, not_lt] at hname
    rw [Bool.not_eq_false, isValidUtf8_iff] at hutf8
    rw [hbytes, not_not] at hnames
    rw [hprevious] at hknown
    exact ⟨⟨hname.1, hname.2, hnames, hutf8⟩, not_lt.mp hlong, hknown⟩
  · rintro ⟨hfield, hlong, hknown⟩
    rw [if_neg (by rw [not_or, not_lt]; exact ⟨hfield.name, hfield.nameLength⟩), if_neg (not_lt.mpr hlong),
      if_neg (by rw [Bool.not_eq_false, isValidUtf8_iff]; exact hfield.utf8),
      if_neg (by rw [hbytes, not_not]; exact hfield.nameBytes), if_neg (by rw [hprevious]; exact hknown)]

lemma checkField_tooLarge (hfield : ValidField field) (hknown : field.name ∉ previous.map LogField.name) :
    checkField maximum previous field = if field.value.length ≤ maximum then .ok () else .error .tooLarge := by
  split_ifs with hlong
  · exact checkField_ok_iff.mpr ⟨hfield, hlong, hknown⟩
  · rw [checkField, if_neg (by rw [not_or, not_lt]; exact ⟨hfield.name, hfield.nameLength⟩), if_pos (not_le.mp hlong)]

lemma checkFields_ok_iff : checkFields maximum previous fields = .ok () ↔
    (∀ field ∈ fields, ValidField field ∧ field.value.length ≤ maximum) ∧ (fields.map LogField.name).Nodup ∧
      ∀ field ∈ fields, field.name ∉ previous.map LogField.name := by
  induction fields generalizing previous with
  | nil => simp [checkFields]
  | cons field rest ih =>
    rw [checkFields]
    cases hcheck : checkField maximum previous field with
    | error code =>
      constructor
      · intro h
        cases h
      · rintro ⟨hall, -, hknown⟩
        obtain ⟨hfield, hlong⟩ := hall field List.mem_cons_self
        rw [checkField_ok_iff.mpr ⟨hfield, hlong, hknown field List.mem_cons_self⟩] at hcheck
        cases hcheck
    | ok =>
      obtain ⟨hfield, hlong, hknown⟩ := checkField_ok_iff.mp hcheck
      change checkFields maximum (previous ++ [field]) rest = .ok () ↔ _
      rw [ih]
      simp only [List.forall_mem_cons, List.map_cons, List.nodup_cons, List.map_append, List.map_nil, List.mem_append,
        List.mem_singleton, not_or]
      constructor
      · rintro ⟨hall, hnodup, hnew⟩
        refine ⟨⟨⟨hfield, hlong⟩, hall⟩, ⟨?_, hnodup⟩, hknown, fun other hother => (hnew other hother).1⟩
        intro hmem
        obtain ⟨other, hother, hname⟩ := List.mem_map.mp hmem
        exact (hnew other hother).2 hname
      · rintro ⟨⟨-, hall⟩, ⟨hnot, hnodup⟩, -, hnew⟩
        refine ⟨hall, hnodup, fun other hother => ⟨hnew other hother, fun hname => hnot ?_⟩⟩
        rw [← hname]
        exact List.mem_map_of_mem hother

lemma checkFields_tooLarge (hall : ∀ field ∈ fields, ValidField field) (hnodup : (fields.map LogField.name).Nodup)
    (hnew : ∀ field ∈ fields, field.name ∉ previous.map LogField.name) (hlong : ∃ field ∈ fields, maximum < field.value.length) :
    checkFields maximum previous fields = .error .tooLarge := by
  induction fields generalizing previous with
  | nil => simp at hlong
  | cons field rest ih =>
    rw [List.forall_mem_cons] at hall hnew
    rw [List.map_cons, List.nodup_cons] at hnodup
    rw [checkFields, checkField_tooLarge hall.1 hnew.1]
    by_cases hfield : field.value.length ≤ maximum
    · rw [if_pos hfield]
      apply ih hall.2 hnodup.2
      · intro other hother hmem
        rw [List.map_append, List.mem_append] at hmem
        rcases hmem with hmem | hmem
        · exact hnew.2 other hother hmem
        · obtain hname : other.name = field.name := by simpa using hmem
          rw [← hname] at hnodup
          exact hnodup.1 (List.mem_map_of_mem hother)
      · obtain ⟨other, hother, hlarge⟩ := hlong
        rcases List.mem_cons.mp hother with rfl | hother
        · omega
        · exact ⟨other, hother, hlarge⟩
    · rw [if_neg hfield]
      rfl

end Checks

section Writers

variable {maximum : ℕ}

/-- A writer that adds `x` where `x` fits and reports it where it does not. -/
structure Emits (maximum : ℕ) (write : Buffer → Buffer) (x : Bytes) : Prop where
  fits : ∀ b, b.tooLarge = false → b.text.length + x.length ≤ maximum → write b = ⟨b.text ++ x, false⟩
  overflows : ∀ b, b.text.length ≤ maximum → b.tooLarge = true ∨ maximum < b.text.length + x.length →
    (write b).tooLarge = true ∧ (write b).text.length ≤ maximum

lemma emits_append (x : Bytes) : Emits maximum (append maximum x) x where
  fits b hb hfits := by
    rw [append, sizeSub_eq (by omega), if_neg (by omega), hb]
  overflows b hle hover := by
    rw [append, sizeSub_eq hle]
    split_ifs with hlong
    · exact ⟨rfl, hle⟩
    · refine ⟨hover.resolve_right (by omega), ?_⟩
      rw [List.length_append]
      omega

lemma Emits.then {f g : Buffer → Buffer} {x y : Bytes} (hf : Emits maximum f x) (hg : Emits maximum g y) :
    Emits maximum (fun b => g (f b)) (x ++ y) where
  fits b hb hfits := by
    rw [List.length_append] at hfits
    rw [hf.fits b hb (by omega), hg.fits _ rfl (by rw [List.length_append]; omega), List.append_assoc]
  overflows b hle hover := by
    rw [List.length_append] at hover
    by_cases hx : b.tooLarge = true ∨ maximum < b.text.length + x.length
    · obtain ⟨hlarge, hle'⟩ := hf.overflows b hle hx
      exact hg.overflows _ hle' (.inl hlarge)
    · rw [not_or, Bool.not_eq_true, not_lt] at hx
      rw [hf.fits b hx.1 hx.2]
      apply hg.overflows _ (by rw [List.length_append]; exact hx.2)
      right
      rw [List.length_append]
      have := hover.resolve_left (by rw [hx.1]; decide)
      omega

lemma emits_nothing : Emits maximum (fun b => b) [] where
  fits b hb _ := by
    rw [List.append_nil, ← hb]
  overflows b hle hover := ⟨hover.resolve_right (by rw [List.length_nil]; omega), hle⟩

lemma emits_quotedLoop (value : Bytes) : Emits maximum (quotedLoop maximum value) (value.flatMap escape) := by
  induction value with
  | nil => exact emits_nothing
  | cons c rest ih =>
    have hnext := (emits_append (escape c)).then ih
    rw [List.flatMap_cons]
    constructor
    · intro b hb hfits
      rw [quotedLoop, if_neg (by rw [hb]; decide)]
      exact hnext.fits b hb hfits
    · intro b hle hover
      rw [quotedLoop]
      split_ifs with hb
      · exact ⟨hb, hle⟩
      · exact hnext.overflows b hle hover

def quotedText (value : Bytes) : Bytes := [34] ++ value.flatMap escape ++ [34]

lemma emits_quoted (value : Bytes) : Emits maximum (quoted maximum value) (quotedText value) :=
  ((emits_append [34]).then (emits_quotedLoop value)).then (emits_append [34])

def idText (name : Bytes) (value : UInt64) : Bytes :=
  if value = 0 then [] else ascii "," ++ quotedText name ++ ascii ":" ++ toChars 10 value.toNat

lemma emits_appendId (name : Bytes) (value : UInt64) : Emits maximum (appendId maximum name value) (idText name value) := by
  by_cases hzero : value = 0
  · have hsame : appendId maximum name value = fun b => b := by
      funext b
      rw [appendId, if_pos hzero]
    rw [hsame, idText, if_pos hzero]
    exact emits_nothing
  · have hsame : appendId maximum name value = fun b =>
        append maximum (toChars 10 value.toNat) (append maximum (ascii ":") (quoted maximum name (append maximum (ascii ",") b))) := by
      funext b
      rw [appendId, if_neg hzero]
    rw [hsame, idText, if_neg hzero]
    exact (((emits_append _).then (emits_quoted name)).then (emits_append _)).then (emits_append _)

def fieldText (field : LogField) : Bytes := quotedText field.name ++ ascii ":" ++ quotedText field.value

def fieldsText (index : ℕ) : List LogField → Bytes
  | [] => []
  | field :: rest => (if index = 0 then [] else ascii ",") ++ fieldText field ++ fieldsText (index + 1) rest

lemma emits_appendFields (index : ℕ) (fields : List LogField) :
    Emits maximum (appendFields maximum index fields) (fieldsText index fields) := by
  induction fields generalizing index with
  | nil => exact emits_nothing
  | cons field rest ih =>
    have hcomma : Emits maximum (fun b => if index = 0 then b else append maximum (ascii ",") b)
        (if index = 0 then [] else ascii ",") := by
      by_cases hindex : index = 0
      · simp only [hindex, ↓reduceIte]
        exact emits_nothing
      · simp only [hindex, ↓reduceIte]
        exact emits_append _
    have hfield := ((@emits_quoted maximum field.name).then (emits_append (ascii ":"))).then (emits_quoted field.value)
    exact (hcomma.then hfield).then (ih (index + 1))

def encoding (level : LogLevel) (record : LogRecord) : Bytes :=
  ascii "\x7b\"level\":" ++ quotedText (levelName level) ++ ascii ",\"message\":" ++ quotedText record.message ++
    idText (ascii "request_id") record.correlation.requestId ++ idText (ascii "session_id") record.correlation.sessionId ++
    idText (ascii "task_id") record.correlation.taskId ++ idText (ascii "connection_id") record.correlation.connectionId ++
    ascii ",\"fields\":\x7b" ++ fieldsText 0 record.fields ++ ascii "\x7d\x7d"

lemma emits_appendRecord (level : LogLevel) (record : LogRecord) :
    Emits maximum (appendRecord maximum level record) (encoding level record) := by
  have hlevel := (@emits_append maximum (ascii "\x7b\"level\":")).then (emits_quoted (levelName level))
  have hmessage := (hlevel.then (emits_append (ascii ",\"message\":"))).then (emits_quoted record.message)
  have hrequest := hmessage.then (emits_appendId (ascii "request_id") record.correlation.requestId)
  have hsession := hrequest.then (emits_appendId (ascii "session_id") record.correlation.sessionId)
  have htask := hsession.then (emits_appendId (ascii "task_id") record.correlation.taskId)
  have hconnection := htask.then (emits_appendId (ascii "connection_id") record.correlation.connectionId)
  have hfields := (hconnection.then (emits_append (ascii ",\"fields\":\x7b"))).then (emits_appendFields 0 record.fields)
  exact hfields.then (emits_append (ascii "\x7d\x7d"))

lemma length_le_quotedText (value : Bytes) : value.length ≤ (quotedText value).length := by
  have hloop : value.length ≤ (value.flatMap escape).length := by
    induction value with
    | nil => exact le_rfl
    | cons c rest ih =>
      have hone : 1 ≤ (escape c).length := by
        rw [escape]
        split_ifs <;> simp
      rw [List.flatMap_cons, List.length_append, List.length_cons]
      omega
  rw [quotedText, List.length_append, List.length_append]
  omega

lemma message_length_le (level : LogLevel) (record : LogRecord) : record.message.length ≤ (encoding level record).length := by
  have := length_le_quotedText record.message
  simp only [encoding, List.length_append]
  omega

lemma value_length_le {level : LogLevel} {record : LogRecord} {field : LogField} (h : field ∈ record.fields) :
    field.value.length ≤ (encoding level record).length := by
  have hfields (index : ℕ) (fields : List LogField) (h : field ∈ fields) :
      field.value.length ≤ (fieldsText index fields).length := by
    induction fields generalizing index with
    | nil => cases h
    | cons other rest ih =>
      rw [fieldsText, List.length_append, List.length_append]
      rcases List.mem_cons.mp h with rfl | h
      · have := length_le_quotedText field.value
        rw [fieldText, List.length_append]
        omega
      · have := ih (index + 1) h
        omega
  have := hfields 0 record.fields h
  simp only [encoding, List.length_append]
  omega

end Writers

section Format

variable {record : LogRecord} {maximum : ℕ} {level : LogLevel} {text : Bytes}

lemma formatLogRecord_valid (h : Valid record maximum level) : formatLogRecord record maximum =
    if (encoding level record).length ≤ maximum then .ok (encoding level record) else .error .tooLarge := by
  have hemits := @emits_appendRecord maximum level record
  have hmessage := message_length_le level record
  have hargument : ¬ (maximum = 0 ∨ maximum > maxStructuredLogBytes ∨ record.fields.length > maxLogFields) := by
    rw [not_or, not_or, not_lt, not_lt]
    exact ⟨h.positive, h.bounded, h.count⟩
  have hutf8 : ¬ isValidUtf8 record.message = false := by
    rw [Bool.not_eq_false, isValidUtf8_iff]
    exact h.message
  rw [formatLogRecord, h.level]
  dsimp only
  rw [if_neg hargument]
  by_cases hfit : (encoding level record).length ≤ maximum
  · have hcheck : checkFields maximum [] record.fields = .ok () :=
      checkFields_ok_iff.mpr ⟨fun field hfield => ⟨h.fields field hfield, (value_length_le hfield).trans hfit⟩, h.distinct, by simp⟩
    rw [if_pos hfit, if_neg (by omega), if_neg hutf8, hcheck]
    change (if (appendRecord maximum level record ⟨[], false⟩).tooLarge = true then _ else _) = _
    rw [hemits.fits ⟨[], false⟩ rfl (by simpa using hfit)]
    rfl
  · rw [if_neg hfit]
    by_cases hlong : record.message.length > maximum
    · rw [if_pos hlong]
    · rw [if_neg hlong, if_neg hutf8]
      by_cases hvalues : ∃ field ∈ record.fields, maximum < field.value.length
      · rw [checkFields_tooLarge h.fields h.distinct (by simp) hvalues]
        rfl
      · have hcheck : checkFields maximum [] record.fields = .ok () := by
          refine checkFields_ok_iff.mpr ⟨fun field hfield => ⟨h.fields field hfield, ?_⟩, h.distinct, by simp⟩
          by_contra hlarge
          exact hvalues ⟨field, hfield, not_le.mp hlarge⟩
        rw [hcheck]
        change (if (appendRecord maximum level record ⟨[], false⟩).tooLarge = true then _ else _) = _
        rw [(hemits.overflows ⟨[], false⟩ (Nat.zero_le _) (.inr (by simpa using hfit))).1]
        rfl

lemma valid_of_formatLogRecord (h : formatLogRecord record maximum = .ok text) : ∃ level, Valid record maximum level := by
  rw [formatLogRecord] at h
  cases hlevel : record.level with
  | none =>
    rw [hlevel] at h
    cases h
  | some level =>
    rw [hlevel] at h
    dsimp only at h
    by_cases hargument : maximum = 0 ∨ maximum > maxStructuredLogBytes ∨ record.fields.length > maxLogFields
    · rw [if_pos hargument] at h
      cases h
    by_cases hlong : record.message.length > maximum
    · rw [if_neg hargument, if_pos hlong] at h
      cases h
    by_cases hutf8 : isValidUtf8 record.message = false
    · rw [if_neg hargument, if_neg hlong, if_pos hutf8] at h
      cases h
    rw [if_neg hargument, if_neg hlong, if_neg hutf8] at h
    rw [not_or, not_or, not_lt, not_lt] at hargument
    rw [Bool.not_eq_false, isValidUtf8_iff] at hutf8
    cases hcheck : checkFields maximum [] record.fields with
    | error code =>
      rw [hcheck] at h
      cases h
    | ok =>
      obtain ⟨hall, hnodup, -⟩ := checkFields_ok_iff.mp hcheck
      exact ⟨level, hlevel, hargument.1, hargument.2.1, hargument.2.2, hutf8, fun field hfield => (hall field hfield).1, hnodup⟩

lemma formatLogRecord_eq_ok (h : formatLogRecord record maximum = .ok text) :
    ∃ level, Valid record maximum level ∧ text = encoding level record ∧ text.length ≤ maximum := by
  obtain ⟨level, hvalid⟩ := valid_of_formatLogRecord h
  rw [formatLogRecord_valid hvalid] at h
  split_ifs at h with hfit
  cases h
  exact ⟨level, hvalid, rfl, hfit⟩

end Format

end LogRecord

end ServerCore.Core
