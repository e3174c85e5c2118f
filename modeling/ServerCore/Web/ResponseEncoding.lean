import ServerCore.Core.Charconv
import ServerCore.Core.Status
import ServerCore.Foundations.CivilDate
import ServerCore.Web.HttpParser

/-! `PrepareResponseHead`: the bytes it writes and the lines a reader splits them into. -/

namespace ServerCore.Web

open ServerCore.Core ServerCore.Foundations

def reasonPhrase (status : ℕ) : String :=
  match status with
  | 200 => "OK"
  | 201 => "Created"
  | 202 => "Accepted"
  | 204 => "No Content"
  | 205 => "Reset Content"
  | 206 => "Partial Content"
  | 301 => "Moved Permanently"
  | 302 => "Found"
  | 304 => "Not Modified"
  | 400 => "Bad Request"
  | 401 => "Unauthorized"
  | 403 => "Forbidden"
  | 404 => "Not Found"
  | 405 => "Method Not Allowed"
  | 408 => "Request Timeout"
  | 412 => "Precondition Failed"
  | 413 => "Content Too Large"
  | 416 => "Range Not Satisfiable"
  | 417 => "Expectation Failed"
  | 426 => "Upgrade Required"
  | 431 => "Request Header Fields Too Large"
  | 500 => "Internal Server Error"
  | 501 => "Not Implemented"
  | 503 => "Service Unavailable"
  | 505 => "HTTP Version Not Supported"
  | _ => "Response"

def daysOfWeek : List String := ["Sun", "Mon", "Tue", "Wed", "Thu", "Fri", "Sat"]

def months : List String :=
  ["Jan", "Feb", "Mar", "Apr", "May", "Jun", "Jul", "Aug", "Sep", "Oct", "Nov", "Dec"]

def paddedNumber (width n : ℕ) : Bytes := (toChars 10 n).leftpad width 48

def paddedYear (year : ℤ) : Bytes :=
  if year < 0 then 45 :: paddedNumber 3 year.natAbs else paddedNumber 4 year.toNat

def httpDate (seconds : ℤ) : Bytes :=
  let days := seconds / 86400
  let date := CivilDate.ofDays days
  let timeOfDay := (seconds % 86400).toNat
  let text := ascii (daysOfWeek.getD (CivilDate.weekday days) "") ++ ascii ", " ++ paddedNumber 2 date.day ++
    ascii " " ++ ascii (months.getD (date.month - 1) "") ++ ascii " " ++ paddedYear date.year ++ ascii " " ++
    paddedNumber 2 (timeOfDay / 3600) ++ ascii ":" ++ paddedNumber 2 (timeOfDay / 60 % 60) ++ ascii ":" ++
    paddedNumber 2 (timeOfDay % 60) ++ ascii " GMT"
  if text.length = 29 then text else []

inductive ResponseBodyMode
  | none
  | fixedLength
  | chunked
  | closeDelimited
  deriving DecidableEq, Repr

structure PreparedResponseHead where
  wire : Bytes := []
  mode : ResponseBodyMode := .none
  length : ℕ := 0
  deriving DecidableEq, Repr

def appendAll (limit : ℕ) (output : Bytes) (values : List Bytes) : Except Status Bytes :=
  match values.foldlM (append limit) output with
  | some wire => .ok wire
  | none => .error (.failWithoutMessage .tooLarge)

structure HeadProgress where
  wire : Bytes
  haveDate : Bool := false
  haveUpgrade : Bool := false
  deriving DecidableEq, Repr

def framingName (name : Bytes) : Bool :=
  equalInsensitive name (ascii "content-length") || equalInsensitive name (ascii "transfer-encoding") ||
    equalInsensitive name (ascii "connection") || equalInsensitive name (ascii "trailer")

def appendHeader (limit : ℕ) (progress : HeadProgress) (header : Bytes × Bytes) :
    Except Status HeadProgress :=
  let (name, value) := header
  let upgrade := equalInsensitive name (ascii "upgrade")
  let date := equalInsensitive name (ascii "date")
  if !isToken name || !validHeaderValue value || framingName name then
    .error (.failWithoutMessage .invalidArgument)
  else if upgrade && !upgradeProtocols value then .error (.failWithoutMessage .invalidArgument)
  else if date && progress.haveDate then .error (.failWithoutMessage .invalidArgument)
  else do
    let wire ← appendAll limit progress.wire [name, ascii ": ", value, crlf]
    .ok ⟨wire, progress.haveDate || date, progress.haveUpgrade || upgrade⟩

def noContent (status : ℕ) : Bool := status = 204 || status = 205 || status = 304

def responseBodyMode (status : ℕ) (length : Option ℕ) (head chunkedAllowed : Bool) : ResponseBodyMode :=
  if head || noContent status then .none
  else if length.isSome then .fixedLength
  else if chunkedAllowed then .chunked
  else .closeDelimited

def announcesLength (status : ℕ) (length : Option ℕ) : Bool :=
  status = 205 || (status ≠ 204 && status ≠ 304 && length.isSome)

def appendDate (limit : ℕ) (now : ℤ) (progress : HeadProgress) : Except Status Bytes :=
  if progress.haveDate then .ok progress.wire
  else appendAll limit progress.wire [ascii "Date: ", httpDate now, crlf]

def appendFraming (limit status : ℕ) (length : Option ℕ) (mode : ResponseBodyMode) (bodyLength : ℕ)
    (wire : Bytes) : Except Status Bytes :=
  if announcesLength status length then
    appendAll limit wire [ascii "Content-Length: ", toChars 10 bodyLength, crlf]
  else if mode = .chunked then appendAll limit wire [ascii "Transfer-Encoding: chunked\r\n"]
  else .ok wire

def appendConnection (limit : ℕ) (close haveUpgrade : Bool) (wire : Bytes) : Except Status Bytes :=
  appendAll limit wire ([ascii (if close then "Connection: close" else "Connection: keep-alive")] ++
    (if haveUpgrade then [ascii ", Upgrade"] else []) ++ [ascii "\r\n\r\n"])

/-- `PrepareResponseHead` when `system_clock::now()` is so many seconds since the epoch. -/
def prepareResponseHead (now : ℤ) (status : ℕ) (headers : List (Bytes × Bytes)) (length : Option ℕ)
    (head close : Bool) (maxHeaders : ℕ) (chunkedAllowed : Bool) : Except Status PreparedResponseHead :=
  if status < 200 || 599 < status then .error (.failWithoutMessage .invalidArgument)
  else do
    let wire ← appendAll maxHeaders []
      [ascii "HTTP/1.1 ", toChars 10 status, ascii " ", ascii (reasonPhrase status), crlf]
    let progress ← headers.foldlM (appendHeader maxHeaders) ⟨wire, false, false⟩
    if status = 426 && !progress.haveUpgrade then .error (.failWithoutMessage .invalidArgument)
    else
      let mode := responseBodyMode status length head chunkedAllowed
      let close := close || mode = .closeDelimited
      let bodyLength := if noContent status then 0 else length.getD 0
      let wire ← appendDate maxHeaders now progress
      let wire ← appendFraming maxHeaders status length mode bodyLength wire
      let wire ← appendConnection maxHeaders close progress.haveUpgrade wire
      .ok ⟨wire, mode, bodyLength⟩

def splitCrlf : Bytes → List Bytes
  | [] => [[]]
  | [b] => [[b]]
  | a :: b :: rest =>
    if a = 13 && b = 10 then [] :: splitCrlf rest else (splitCrlf (b :: rest)).modifyHead (a :: ·)

def statusLine (status : ℕ) : Bytes :=
  ascii "HTTP/1.1 " ++ toChars 10 status ++ ascii " " ++ ascii (reasonPhrase status)

def fieldLine (header : Bytes × Bytes) : Bytes := header.1 ++ ascii ": " ++ header.2

def fieldName (line : Bytes) : Bytes := line.takeWhile (· != 58)

def named (name : String) (line : Bytes) : Bool := equalInsensitive (fieldName line) (ascii name)

section Split

lemma splitCrlf_ne_nil (x : Bytes) : splitCrlf x ≠ [] := by
  fun_induction splitCrlf x with
  | case1 => simp
  | case2 => simp
  | case3 => simp
  | case4 a b rest h ih => simpa using ih

lemma splitCrlf_append (x y : Bytes) : splitCrlf (x ++ crlf ++ y) = splitCrlf x ++ splitCrlf y := by
  fun_induction splitCrlf x with
  | case1 => simp [crlf, splitCrlf]
  | case2 b => simp [crlf, splitCrlf]
  | case3 a b rest h ih =>
    simp only [List.cons_append, splitCrlf, h, if_true]
    rw [ih]
  | case4 a b rest h ih =>
    simp only [List.cons_append] at ih ⊢
    rw [splitCrlf, if_neg h, ih]
    obtain ⟨line, lines, hlines⟩ := List.exists_cons_of_ne_nil (splitCrlf_ne_nil (b :: rest))
    rw [hlines]
    rfl

lemma splitCrlf_line {line : Bytes} (h : 13 ∉ line) : splitCrlf line = [line] := by
  fun_induction splitCrlf line with
  | case1 => rfl
  | case2 => rfl
  | case3 a b rest hab ih =>
    simp only [Bool.and_eq_true, decide_eq_true_eq] at hab
    simp [hab.1] at h
  | case4 a b rest hab ih =>
    rw [ih fun hb => h (List.mem_cons_of_mem a hb)]
    rfl

lemma splitCrlf_lines {lines : List Bytes} (h : ∀ line ∈ lines, 13 ∉ line) (y : Bytes) :
    splitCrlf (lines.flatMap (· ++ crlf) ++ y) = lines ++ splitCrlf y := by
  induction lines with
  | nil => rfl
  | cons line lines ih =>
    rw [List.flatMap_cons, List.append_assoc, splitCrlf_append, splitCrlf_line (h line (by simp)),
      ih fun l hl => h l (List.mem_cons_of_mem line hl)]
    rfl

lemma splitCrlf_eq_blank {y : Bytes} (h : splitCrlf y = [[]]) : y = [] := by
  fun_induction splitCrlf y with
  | case1 => rfl
  | case2 => simp at h
  | case3 a b rest hab ih => exact absurd (List.cons.inj h).2 (splitCrlf_ne_nil rest)
  | case4 a b rest hab ih =>
    obtain ⟨line, lines, hlines⟩ := List.exists_cons_of_ne_nil (splitCrlf_ne_nil (b :: rest))
    rw [hlines] at h
    simp at h

lemma blank_line_last {lines : List Bytes} (h : ∀ line ∈ lines, 13 ∉ line ∧ line ≠ []) {x y : Bytes}
    (hxy : lines.flatMap (· ++ crlf) ++ crlf = x ++ crlf ++ crlf ++ y) : y = [] := by
  have hsplit : lines ++ [[], []] = splitCrlf x ++ [] :: splitCrlf y := by
    have hleft := splitCrlf_lines (fun line hl => (h line hl).1) crlf
    rw [hxy, List.append_assoc, splitCrlf_append] at hleft
    exact hleft.symm
  have hlast := List.length_pos_of_ne_nil (splitCrlf_ne_nil y)
  have hlength := congrArg List.length hsplit
  simp only [List.length_append, List.length_cons, List.length_nil] at hlength
  have hbeyond : lines.length ≤ (splitCrlf x).length := by
    by_contra hlt
    have hat : (lines ++ [[], []])[(splitCrlf x).length]? = some [] := by
      rw [hsplit]
      simp
    rw [List.getElem?_append_left (by omega)] at hat
    exact (h _ (List.mem_of_getElem? hat)).2 rfl
  have htail : [[], []] = [] :: splitCrlf y := (List.append_inj hsplit (by omega)).2
  exact splitCrlf_eq_blank (List.cons.inj htail).2.symm

end Split

section Printable

@[simp] lemma validHeaderValue_append (x y : Bytes) :
    validHeaderValue (x ++ y) = (validHeaderValue x && validHeaderValue y) := List.all_append

lemma no_return {line : Bytes} (h : validHeaderValue line = true) : 13 ∉ line := by
  intro hb
  have := List.all_eq_true.mp h 13 hb
  simp [isControl] at this

lemma isControl_token {b : Byte} (h : isTokenByte b = true) : isControl b = false := by
  simp only [isTokenByte, isDigit, Bool.or_eq_true, Bool.and_eq_true, decide_eq_true_eq, UInt8.le_iff_toNat_le] at h
  have hb : 33 ≤ b.toNat ∧ b.toNat < 127 := by
    rcases h with ((h | h) | h) | h
    · simp at h
      omega
    · simp at h
      omega
    · simp at h
      omega
    · have key : (ascii "!#$%&'*+-.^_`|~").all (fun c => 33 ≤ c.toNat && c.toNat < 127) = true := by decide
      have hc := List.all_eq_true.mp key b (List.contains_iff_mem.mp h)
      simpa using hc
  have h9 : b ≠ 127 := by
    rintro rfl
    simp at hb
  simp only [isControl, Bool.or_eq_false_iff, Bool.and_eq_false_iff, decide_eq_false_iff_not,
    UInt8.lt_iff_toNat_lt, beq_eq_false_iff_ne, ne_eq]
  refine ⟨.inl ?_, h9⟩
  simp
  omega

lemma validHeaderValue_token {name : Bytes} (h : isToken name = true) : validHeaderValue name = true := by
  rw [isToken_iff] at h
  refine List.all_eq_true.mpr fun b hb => ?_
  rw [isControl_token (h.2 b hb)]
  rfl

lemma validHeaderValue_toChars (n : ℕ) : validHeaderValue (toChars 10 n) = true := by
  refine List.all_eq_true.mpr fun b hb => ?_
  obtain ⟨d, hd, rfl⟩ := mem_toChars (by decide) hb
  have key : ∀ d < 10, (!isControl (digitChar d)) = true := by decide
  exact key d hd

lemma validHeaderValue_padded (width n : ℕ) : validHeaderValue (paddedNumber width n) = true := by
  have hzeros (k : ℕ) : validHeaderValue (List.replicate k 48) = true := by
    refine List.all_eq_true.mpr fun b hb => ?_
    obtain rfl := List.eq_of_mem_replicate hb
    rfl
  rw [paddedNumber, List.leftpad, validHeaderValue_append, hzeros, validHeaderValue_toChars]
  rfl

lemma validHeaderValue_paddedYear (year : ℤ) : validHeaderValue (paddedYear year) = true := by
  rw [paddedYear]
  split
  · exact validHeaderValue_padded 3 _
  · exact validHeaderValue_padded _ _

lemma validHeaderValue_text {texts : List String} (h : ∀ text ∈ texts, validHeaderValue (ascii text) = true)
    (n : ℕ) : validHeaderValue (ascii (texts.getD n "")) = true := by
  rw [List.getD_eq_getElem?_getD]
  cases hn : texts[n]? with
  | none => rfl
  | some text => exact h text (List.mem_of_getElem? hn)

lemma validHeaderValue_httpDate (seconds : ℤ) : validHeaderValue (httpDate seconds) = true := by
  have hday := @validHeaderValue_text daysOfWeek (by decide) (CivilDate.weekday (seconds / 86400))
  have hmonth := @validHeaderValue_text months (by decide)
    ((CivilDate.ofDays (seconds / 86400)).month - 1)
  have hcomma : validHeaderValue (ascii ", ") = true := rfl
  have hspace : validHeaderValue (ascii " ") = true := rfl
  have hcolon : validHeaderValue (ascii ":") = true := rfl
  have hzone : validHeaderValue (ascii " GMT") = true := rfl
  rw [httpDate]
  split
  · simp only [validHeaderValue_append, hday, hmonth, hcomma, hspace, hcolon, hzone, validHeaderValue_padded,
      validHeaderValue_paddedYear, Bool.and_self]
  · rfl

lemma validHeaderValue_reasonPhrase (status : ℕ) : validHeaderValue (ascii (reasonPhrase status)) = true := by
  have hliteral {text : String} {characters : List Char} (h : text = String.ofList characters)
      (hall : validHeaderValue (characters.map fun c => UInt8.ofNat c.toNat) = true) : validHeaderValue (ascii text) = true := by
    rwa [ascii_eq h]
  unfold reasonPhrase
  split <;> exact hliteral rfl rfl

lemma validHeaderValue_statusLine (status : ℕ) : validHeaderValue (statusLine status) = true := by
  have hversion : validHeaderValue (ascii "HTTP/1.1 ") = true := rfl
  have hspace : validHeaderValue (ascii " ") = true := rfl
  rw [statusLine]
  simp only [validHeaderValue_append, hversion, hspace, validHeaderValue_toChars, validHeaderValue_reasonPhrase,
    Bool.and_self]

end Printable

section Append

variable {limit : ℕ} {output wire : Bytes}

lemma appendAll_ok {values : List Bytes} (h : appendAll limit output values = .ok wire)
    (hout : output.length ≤ limit) : wire = output ++ values.flatten ∧ wire.length ≤ limit := by
  induction values generalizing output with
  | nil =>
    cases h
    simpa using hout
  | cons value values ih =>
    unfold appendAll at h ih
    rw [List.foldlM_cons] at h
    cases hv : append limit output value with
    | none =>
      rw [hv] at h
      cases h
    | some next =>
      rw [hv] at h
      obtain ⟨rfl, hnext⟩ := append_some hv
      obtain ⟨rfl, hwire⟩ := ih h hnext
      exact ⟨by rw [List.flatten_cons, List.append_assoc], hwire⟩

lemma appendAll_of_le {values : List Bytes} (h : (output ++ values.flatten).length ≤ limit) :
    appendAll limit output values = .ok (output ++ values.flatten) := by
  induction values generalizing output with
  | nil => simp [appendAll]
  | cons value values ih =>
    rw [List.flatten_cons, ← List.append_assoc] at h ⊢
    have hfits : append limit output value = some (output ++ value) := by
      simp only [List.length_append] at h
      simp only [append, Bool.or_eq_true, decide_eq_true_eq]
      exact if_neg (by omega)
    have htail := ih h
    rw [appendAll] at htail ⊢
    rw [List.foldlM_cons, hfits]
    exact htail

lemma appendAll_resized {values values' : List Bytes} {output' : Bytes} (h : appendAll limit output values = .ok wire)
    (hout : output.length ≤ limit) (hsame : output'.length = output.length)
    (hvalues : values'.flatten.length = values.flatten.length) :
    ∃ wire', appendAll limit output' values' = .ok wire' ∧ wire'.length = wire.length := by
  obtain ⟨rfl, hlimit⟩ := appendAll_ok h hout
  have hlength : (output' ++ values'.flatten).length = (output ++ values.flatten).length := by
    rw [List.length_append, List.length_append, hsame, hvalues]
  exact ⟨_, appendAll_of_le (by rw [hlength]; exact hlimit), hlength⟩

end Append

section Headers

def isNamed (name : String) (header : Bytes × Bytes) : Bool := equalInsensitive header.1 (ascii name)

structure Accepted (header : Bytes × Bytes) : Prop where
  token : isToken header.1 = true
  value : validHeaderValue header.2 = true
  framing : framingName header.1 = false

structure Wrote (limit : ℕ) (headers : List (Bytes × Bytes)) (before after : HeadProgress) : Prop where
  wire : after.wire = before.wire ++ headers.flatMap (fun header => fieldLine header ++ crlf)
  bounded : after.wire.length ≤ limit
  accepted : ∀ header ∈ headers, Accepted header
  dates : after.haveDate.toNat = before.haveDate.toNat + (headers.filter (isNamed "date")).length

variable {limit : ℕ}

lemma appendHeader_ok {header : Bytes × Bytes} {before after : HeadProgress}
    (h : appendHeader limit before header = .ok after) (hb : before.wire.length ≤ limit) :
    Wrote limit [header] before after := by
  obtain ⟨name, value⟩ := header
  unfold appendHeader at h
  dsimp only at h
  split at h
  · cases h
  rename_i hname
  split at h
  · cases h
  split at h
  · cases h
  rename_i hdate
  obtain ⟨wire, hwire, hafter⟩ : ∃ wire, appendAll limit before.wire [name, ascii ": ", value, crlf] = .ok wire ∧
      after = ⟨wire, before.haveDate || equalInsensitive name (ascii "date"),
        before.haveUpgrade || equalInsensitive name (ascii "upgrade")⟩ := by
    cases hw : appendAll limit before.wire [name, ascii ": ", value, crlf] with
    | error status =>
      rw [hw] at h
      cases h
    | ok wire =>
      rw [hw] at h
      exact ⟨wire, rfl, (Except.ok.inj h).symm⟩
  subst hafter
  obtain ⟨rfl, hlimit⟩ := appendAll_ok hwire hb
  simp only [Bool.or_eq_true, Bool.not_eq_true', not_or, Bool.not_eq_false, Bool.not_eq_true] at hname
  simp only [Bool.and_eq_true, not_and, Bool.not_eq_true] at hdate
  refine ⟨?_, hlimit, ?_, ?_⟩
  · simp [fieldLine]
  · intro header hh
    obtain rfl := List.mem_singleton.mp hh
    exact ⟨hname.1.1, hname.1.2, hname.2⟩
  · cases hd : equalInsensitive name (ascii "date") with
    | false => simp [isNamed, hd]
    | true => simp [isNamed, hd, hdate hd]

lemma appendHeaders_ok {headers : List (Bytes × Bytes)} {before after : HeadProgress}
    (h : headers.foldlM (appendHeader limit) before = .ok after) (hb : before.wire.length ≤ limit) :
    Wrote limit headers before after := by
  induction headers generalizing before with
  | nil =>
    cases h
    exact ⟨by simp, hb, by simp, by simp⟩
  | cons header headers ih =>
    rw [List.foldlM_cons] at h
    cases hh : appendHeader limit before header with
    | error status =>
      rw [hh] at h
      cases h
    | ok next =>
      rw [hh] at h
      have hfirst := appendHeader_ok hh hb
      have hrest := ih h hfirst.bounded
      refine ⟨?_, hrest.bounded, ?_, ?_⟩
      · rw [hrest.wire, hfirst.wire]
        simp
      · intro header' hm
        rcases List.mem_cons.mp hm with rfl | hm
        · exact hfirst.accepted _ (by simp)
        · exact hrest.accepted _ hm
      · rw [hrest.dates, hfirst.dates, ← @List.singleton_append _ _ headers, List.filter_append,
          List.length_append, Nat.add_assoc]

end Headers

section Fields

lemma fieldName_fieldLine {header : Bytes × Bytes} (h : isToken header.1 = true) :
    fieldName (fieldLine header) = header.1 := by
  have hname : ∀ b ∈ header.1, (b != 58) = true := by
    intro b hb
    have hb' := (isToken_iff.mp h).2 b hb
    apply bne_iff_ne.mpr
    rintro rfl
    exact absurd hb' (by decide)
  rw [fieldName, fieldLine, List.append_assoc, List.takeWhile_append_of_pos hname]
  have hcolon : ascii ": " = [58, 32] := by decide
  simp [hcolon]

lemma filter_named {headers : List (Bytes × Bytes)} (h : ∀ header ∈ headers, isToken header.1 = true) (name : String) :
    (headers.map fieldLine).filter (named name) = (headers.filter (isNamed name)).map fieldLine := by
  rw [List.filter_map]
  apply congrArg
  apply List.filter_congr
  intro header hm
  rw [Function.comp_apply, named, fieldName_fieldLine (h header hm), isNamed]

lemma validHeaderValue_fieldLine {header : Bytes × Bytes} (h : isToken header.1 = true)
    (hv : validHeaderValue header.2 = true) : validHeaderValue (fieldLine header) = true := by
  have hcolon : validHeaderValue (ascii ": ") = true := rfl
  rw [fieldLine, validHeaderValue_append, validHeaderValue_append, validHeaderValue_token h, hcolon, hv]
  rfl

lemma framing_not_named {headers : List (Bytes × Bytes)} (h : ∀ header ∈ headers, Accepted header) :
    headers.filter (isNamed "content-length") = [] ∧ headers.filter (isNamed "transfer-encoding") = [] ∧
      headers.filter (isNamed "connection") = [] := by
  have key : ∀ header ∈ headers, isNamed "content-length" header = false ∧
      isNamed "transfer-encoding" header = false ∧ isNamed "connection" header = false := by
    intro header hm
    have hf := (h header hm).framing
    simp only [framingName, Bool.or_eq_false_iff] at hf
    exact ⟨hf.1.1.1, hf.1.1.2, hf.1.2⟩
  simp only [List.filter_eq_nil_iff, Bool.not_eq_true]
  exact ⟨fun header hm => (key header hm).1, fun header hm => (key header hm).2.1, fun header hm => (key header hm).2.2⟩

def dateFields (now : ℤ) (headers : List (Bytes × Bytes)) : List (Bytes × Bytes) :=
  if headers.any (isNamed "date") then [] else [(ascii "Date", httpDate now)]

def framingFields (status : ℕ) (length : Option ℕ) (mode : ResponseBodyMode) (bodyLength : ℕ) :
    List (Bytes × Bytes) :=
  if status = 205 ∨ (length.isSome ∧ status ≠ 204 ∧ status ≠ 304) then
    [(ascii "Content-Length", toChars 10 bodyLength)]
  else if mode = .chunked then [(ascii "Transfer-Encoding", ascii "chunked")]
  else []

structure HeadFraming (status : ℕ) (length : Option ℕ) (mode : ResponseBodyMode) (fields : List Bytes) : Prop where
  date : (fields.filter (named "date")).length = 1
  contentLength : (fields.filter (named "content-length")).length =
    if status = 205 ∨ (length.isSome ∧ status ≠ 204 ∧ status ≠ 304) then 1 else 0
  transferEncoding : (fields.filter (named "transfer-encoding")).length = if mode = .chunked then 1 else 0
  exclusive : (fields.filter (named "content-length")).length + (fields.filter (named "transfer-encoding")).length ≤ 1
  connection : (fields.filter (named "connection")).length = 1
  closes : mode = .closeDelimited → ascii "Connection: close" ∈ fields ∨ ascii "Connection: close, Upgrade" ∈ fields

lemma announcesLength_iff {status : ℕ} {length : Option ℕ} : announcesLength status length = true ↔
    status = 205 ∨ (length.isSome ∧ status ≠ 204 ∧ status ≠ 304) := by
  simp only [announcesLength, Bool.or_eq_true, Bool.and_eq_true, decide_eq_true_eq]
  tauto

lemma chunked_not_announced {status : ℕ} {length : Option ℕ} {head chunkedAllowed : Bool}
    (h : responseBodyMode status length head chunkedAllowed = .chunked) :
    ¬ (status = 205 ∨ (length.isSome ∧ status ≠ 204 ∧ status ≠ 304)) := by
  unfold responseBodyMode at h
  split_ifs at h with hnone hlength
  simp only [noContent, Bool.or_eq_true, decide_eq_true_eq] at hnone
  tauto

end Fields

section Head

variable {now : ℤ} {status maxHeaders : ℕ} {headers : List (Bytes × Bytes)} {length : Option ℕ}
variable {head close chunkedAllowed : Bool} {prepared : PreparedResponseHead}

def connectionValues (mode : ResponseBodyMode) : List Bytes :=
  if mode = .closeDelimited then [ascii "close", ascii "close, Upgrade"]
  else [ascii "close", ascii "close, Upgrade", ascii "keep-alive", ascii "keep-alive, Upgrade"]

def fieldBytes (fields : List (Bytes × Bytes)) : Bytes := fields.flatMap fun field => fieldLine field ++ crlf

lemma fieldBytes_append (x y : List (Bytes × Bytes)) : fieldBytes (x ++ y) = fieldBytes x ++ fieldBytes y :=
  List.flatMap_append

lemma fieldBytes_map (fields : List (Bytes × Bytes)) :
    fieldBytes fields = (fields.map fieldLine).flatMap (· ++ crlf) := by
  rw [fieldBytes, List.flatMap_map]

lemma bind_ok {α β : Type} {x : Except Status α} {f : α → Except Status β} {b : β} (h : x >>= f = .ok b) :
    ∃ a, x = .ok a ∧ f a = .ok b := by
  cases x with
  | error status => cases h
  | ok a => exact ⟨a, rfl, h⟩

variable {limit : ℕ} {wire output : Bytes}

lemma appendDate_ok {progress : HeadProgress} (h : appendDate limit now progress = .ok wire)
    (hb : progress.wire.length ≤ limit)
    (hd : progress.haveDate.toNat = (headers.filter (isNamed "date")).length) :
    wire = progress.wire ++ fieldBytes (dateFields now headers) ∧ wire.length ≤ limit := by
  have hany : headers.any (isNamed "date") = progress.haveDate := by
    cases hp : progress.haveDate with
    | false =>
      rw [hp] at hd
      have hnone := List.filter_eq_nil_iff.mp (List.length_eq_zero_iff.mp hd.symm)
      exact List.any_eq_false.mpr hnone
    | true =>
      rw [hp, Bool.toNat_true] at hd
      obtain ⟨header, hh⟩ := List.exists_mem_of_length_pos (hd ▸ Nat.one_pos)
      obtain ⟨hm, hnamed⟩ := List.mem_filter.mp hh
      exact List.any_eq_true.mpr ⟨header, hm, hnamed⟩
  rw [dateFields, hany]
  unfold appendDate at h
  split at h
  · rename_i hdate
    cases h
    rw [if_pos hdate]
    exact ⟨(List.append_nil _).symm, hb⟩
  · rename_i hdate
    rw [if_neg hdate]
    obtain ⟨rfl, hlimit⟩ := appendAll_ok h hb
    exact ⟨by simp [fieldBytes, fieldLine, ascii], hlimit⟩

lemma appendFraming_ok {mode : ResponseBodyMode} {bodyLength : ℕ}
    (h : appendFraming limit status length mode bodyLength output = .ok wire) (hb : output.length ≤ limit) :
    wire = output ++ fieldBytes (framingFields status length mode bodyLength) ∧ wire.length ≤ limit := by
  unfold appendFraming at h
  rw [framingFields]
  split at h
  · rename_i hlength
    rw [if_pos (announcesLength_iff.mp hlength)]
    obtain ⟨rfl, hlimit⟩ := appendAll_ok h hb
    exact ⟨by simp [fieldBytes, fieldLine, ascii], hlimit⟩
  · rename_i hlength
    rw [if_neg fun hc => hlength (announcesLength_iff.mpr hc)]
    split at h
    · rename_i hmode
      rw [if_pos hmode]
      obtain ⟨rfl, hlimit⟩ := appendAll_ok h hb
      exact ⟨by simp [fieldBytes, fieldLine, ascii, crlf], hlimit⟩
    · rename_i hmode
      cases h
      rw [if_neg hmode]
      exact ⟨(List.append_nil _).symm, hb⟩

lemma appendConnection_ok {mode : ResponseBodyMode} {upgrade : Bool}
    (h : appendConnection limit (close || mode = .closeDelimited) upgrade output = .ok wire)
    (hb : output.length ≤ limit) :
    ∃ connection ∈ connectionValues mode,
      wire = output ++ fieldBytes [(ascii "Connection", connection)] ++ crlf ∧ wire.length ≤ limit := by
  obtain ⟨rfl, hlimit⟩ := appendAll_ok h hb
  obtain ⟨closing, hclosing⟩ : ∃ closing, closing = (close || decide (mode = .closeDelimited)) := ⟨_, rfl⟩
  have hmust : mode = .closeDelimited → closing = true := fun hm => by simp [hclosing, hm]
  rw [← hclosing] at hlimit ⊢
  refine ⟨ascii (if closing then "close" else "keep-alive") ++ (if upgrade then ascii ", Upgrade" else []), ?_, ?_, hlimit⟩
  · rw [connectionValues]
    split
    · rename_i hm
      rw [hmust hm]
      cases upgrade <;> decide
    · cases closing <;> cases upgrade <;> decide
  · cases closing <;> cases upgrade <;> simp [fieldBytes, fieldLine, ascii, crlf]

/-- The appends of `PrepareResponseHead`, one after the other. -/
lemma prepareResponseHead_steps :
    prepareResponseHead now status headers length head close maxHeaders chunkedAllowed = .ok prepared ↔
      ¬ (status < 200 || 599 < status) = true ∧ ∃ line progress dated framed wire,
        appendAll maxHeaders [] [ascii "HTTP/1.1 ", toChars 10 status, ascii " ", ascii (reasonPhrase status), crlf] = .ok line ∧
        headers.foldlM (appendHeader maxHeaders) ⟨line, false, false⟩ = .ok progress ∧
        ¬ (status = 426 && !progress.haveUpgrade) = true ∧ appendDate maxHeaders now progress = .ok dated ∧
        appendFraming maxHeaders status length prepared.mode prepared.length dated = .ok framed ∧
        appendConnection maxHeaders (close || prepared.mode = .closeDelimited) progress.haveUpgrade framed = .ok wire ∧
        prepared = ⟨wire, responseBodyMode status length head chunkedAllowed, if noContent status then 0 else length.getD 0⟩ := by
  rw [prepareResponseHead]
  constructor
  · intro h
    split at h
    · cases h
    rename_i hstatus
    obtain ⟨line, hline, h⟩ := bind_ok h
    obtain ⟨progress, hprogress, h⟩ := bind_ok h
    split at h
    · cases h
    rename_i hupgrade
    obtain ⟨dated, hdated, h⟩ := bind_ok h
    obtain ⟨framed, hframed, h⟩ := bind_ok h
    obtain ⟨wire, hwire, h⟩ := bind_ok h
    obtain rfl := Except.ok.inj h
    exact ⟨hstatus, line, progress, dated, framed, wire, hline, hprogress, hupgrade, hdated, hframed, hwire, rfl⟩
  · rintro ⟨hstatus, line, progress, dated, framed, wire, hline, hprogress, hupgrade, hdated, hframed, hwire, rfl⟩
    dsimp only at hframed hwire
    rw [if_neg hstatus, hline]
    dsimp only [bind, Except.bind]
    rw [hprogress]
    dsimp only
    rw [if_neg hupgrade, hdated]
    dsimp only
    rw [hframed]
    dsimp only
    rw [hwire]

lemma prepareResponseHead_ok
    (h : prepareResponseHead now status headers length head close maxHeaders chunkedAllowed = .ok prepared) :
    prepared.wire.length ≤ maxHeaders ∧ (∀ header ∈ headers, Accepted header) ∧
      (headers.filter (isNamed "date")).length ≤ 1 ∧
      prepared.mode = responseBodyMode status length head chunkedAllowed ∧
      ∃ connection ∈ connectionValues prepared.mode, prepared.wire = statusLine status ++ crlf ++
        fieldBytes (headers ++ (dateFields now headers ++
          framingFields status length prepared.mode prepared.length ++ [(ascii "Connection", connection)])) ++ crlf := by
  obtain ⟨-, line, progress, dated, framed, wire, hline, hprogress, -, hdated, hframed, hwire, rfl⟩ :=
    prepareResponseHead_steps.mp h
  obtain ⟨hline, hbound⟩ := appendAll_ok hline (Nat.zero_le _)
  have hwrote := appendHeaders_ok hprogress hbound
  have hdates := hwrote.dates
  simp only [Bool.toNat_false, Nat.zero_add] at hdates
  obtain ⟨hdated, hbound⟩ := appendDate_ok hdated hwrote.bounded hdates
  obtain ⟨hframed, hbound⟩ := appendFraming_ok hframed hbound
  obtain ⟨connection, hconnection, hwire, hbound⟩ := appendConnection_ok hwire hbound
  refine ⟨hbound, hwrote.accepted, ?_, rfl, connection, hconnection, ?_⟩
  · rw [← hdates]
    exact Bool.toNat_le progress.haveDate
  · simp only [hwire, hframed, hdated, hwrote.wire, hline, fieldBytes_append, statusLine]
    simp [fieldBytes]

lemma appendDate_resized {progress : HeadProgress} {later : ℤ} (h : appendDate limit now progress = .ok wire)
    (hb : progress.wire.length ≤ limit) (hdate : (httpDate later).length = (httpDate now).length) :
    ∃ wire', appendDate limit later progress = .ok wire' ∧ wire'.length = wire.length := by
  rw [appendDate] at h ⊢
  by_cases hhave : progress.haveDate = true
  · rw [if_pos hhave] at h ⊢
    exact ⟨wire, h, rfl⟩
  · rw [if_neg hhave] at h ⊢
    exact appendAll_resized h hb rfl (by simp [hdate])

lemma appendFraming_resized {mode : ResponseBodyMode} {bodyLength : ℕ} {output' : Bytes}
    (h : appendFraming limit status length mode bodyLength output = .ok wire) (hb : output.length ≤ limit)
    (hsame : output'.length = output.length) :
    ∃ wire', appendFraming limit status length mode bodyLength output' = .ok wire' ∧ wire'.length = wire.length := by
  rw [appendFraming] at h ⊢
  by_cases hlength : announcesLength status length = true
  · rw [if_pos hlength] at h ⊢
    exact appendAll_resized h hb hsame rfl
  rw [if_neg hlength] at h ⊢
  by_cases hmode : mode = .chunked
  · rw [if_pos hmode] at h ⊢
    exact appendAll_resized h hb hsame rfl
  · rw [if_neg hmode] at h ⊢
    obtain rfl := Except.ok.inj h
    exact ⟨output', rfl, hsame⟩

/-- At another time the head is as long, where the date is. -/
lemma prepareResponseHead_redated {later : ℤ}
    (h : prepareResponseHead now status headers length head close maxHeaders chunkedAllowed = .ok prepared)
    (hdate : (httpDate later).length = (httpDate now).length) :
    ∃ wire, prepareResponseHead later status headers length head close maxHeaders chunkedAllowed =
      .ok { prepared with wire := wire } ∧ wire.length = prepared.wire.length := by
  obtain ⟨hstatus, line, progress, dated, framed, wire, hline, hprogress, hupgrade, hdated, hframed, hwire, rfl⟩ :=
    prepareResponseHead_steps.mp h
  have hwrote := appendHeaders_ok hprogress (appendAll_ok hline (Nat.zero_le _)).2
  have hdates := hwrote.dates
  simp only [Bool.toNat_false, Nat.zero_add] at hdates
  have hboundDated := (appendDate_ok hdated hwrote.bounded hdates).2
  obtain ⟨dated', hdated', hlengthDated⟩ := appendDate_resized hdated hwrote.bounded hdate
  have hboundFramed := (appendFraming_ok hframed hboundDated).2
  obtain ⟨framed', hframed', hlengthFramed⟩ := appendFraming_resized hframed hboundDated hlengthDated
  obtain ⟨wire', hwire', hlength⟩ := appendAll_resized hwire hboundFramed hlengthFramed rfl
  exact ⟨wire', prepareResponseHead_steps.mpr ⟨hstatus, line, progress, dated', framed', wire', hline, hprogress, hupgrade,
    hdated', hframed', hwire', rfl⟩, hlength⟩

lemma valid_added {connection : Bytes} {mode : ResponseBodyMode} {bodyLength : ℕ}
    (hc : connection ∈ connectionValues mode) :
    ∀ field ∈ dateFields now headers ++ framingFields status length mode bodyLength ++ [(ascii "Connection", connection)],
      isToken field.1 = true ∧ validHeaderValue field.2 = true := by
  have hdate : isToken (ascii "Date") = true := by decide
  have hlength : isToken (ascii "Content-Length") = true := by decide
  have hcoding : isToken (ascii "Transfer-Encoding") = true := by decide
  have hconnection : isToken (ascii "Connection") = true := by decide
  have key : ∀ value ∈ connectionValues mode, validHeaderValue value = true := by
    cases mode <;> decide
  intro field hf
  simp only [List.mem_append, List.mem_singleton] at hf
  rcases hf with (hf | hf) | rfl
  · rw [dateFields] at hf
    split at hf
    · simp at hf
    · obtain rfl := List.mem_singleton.mp hf
      refine ⟨hdate, ?_⟩
      dsimp only
      apply validHeaderValue_httpDate
  · rw [framingFields] at hf
    split_ifs at hf
    · obtain rfl := List.mem_singleton.mp hf
      refine ⟨hlength, ?_⟩
      dsimp only
      apply validHeaderValue_toChars
    · obtain rfl := List.mem_singleton.mp hf
      exact ⟨hcoding, rfl⟩
    · simp at hf
  · exact ⟨hconnection, key connection hc⟩

def countNamed (name : String) (fields : List (Bytes × Bytes)) : ℕ := fields.countP (isNamed name)

@[simp] lemma countNamed_append (name : String) (x y : List (Bytes × Bytes)) :
    countNamed name (x ++ y) = countNamed name x + countNamed name y := List.countP_append

lemma countNamed_dateFields (name : String) : countNamed name (dateFields now headers) =
    if headers.any (isNamed "date") then 0 else (equalInsensitive (ascii "Date") (ascii name)).toNat := by
  rw [dateFields]
  split
  · rfl
  · cases he : equalInsensitive (ascii "Date") (ascii name) <;> simp [countNamed, isNamed, he]

lemma countNamed_framingFields (name : String) {mode : ResponseBodyMode} {bodyLength : ℕ} :
    countNamed name (framingFields status length mode bodyLength) =
      if status = 205 ∨ (length.isSome ∧ status ≠ 204 ∧ status ≠ 304) then
        (equalInsensitive (ascii "Content-Length") (ascii name)).toNat
      else if mode = .chunked then (equalInsensitive (ascii "Transfer-Encoding") (ascii name)).toNat
      else 0 := by
  rw [framingFields]
  split
  · cases he : equalInsensitive (ascii "Content-Length") (ascii name) <;> simp [countNamed, isNamed, he]
  split
  · cases he : equalInsensitive (ascii "Transfer-Encoding") (ascii name) <;> simp [countNamed, isNamed, he]
  · rfl

lemma countNamed_connection (name : String) (connection : Bytes) :
    countNamed name [(ascii "Connection", connection)] = (equalInsensitive (ascii "Connection") (ascii name)).toNat := by
  cases he : equalInsensitive (ascii "Connection") (ascii name) <;> simp [countNamed, isNamed, he]

lemma framed_fields {connection : Bytes} {mode : ResponseBodyMode} {bodyLength : ℕ}
    (hmode : mode = responseBodyMode status length head chunkedAllowed)
    (haccepted : ∀ header ∈ headers, Accepted header) (hdates : (headers.filter (isNamed "date")).length ≤ 1)
    (hc : connection ∈ connectionValues mode) :
    HeadFraming status length mode ((headers ++ (dateFields now headers ++ framingFields status length mode bodyLength ++
      [(ascii "Connection", connection)])).map fieldLine) := by
  obtain ⟨added, hadded⟩ : ∃ added, added = dateFields now headers ++ framingFields status length mode bodyLength ++
    [(ascii "Connection", connection)] := ⟨_, rfl⟩
  have htoken : ∀ field ∈ headers ++ added, isToken field.1 = true := by
    intro field hf
    rcases List.mem_append.mp hf with hf | hf
    · exact (haccepted field hf).token
    · rw [hadded] at hf
      exact (valid_added hc field hf).1
  have hcount (name : String) : (((headers ++ added).map fieldLine).filter (named name)).length =
      (headers.filter (isNamed name)).length + (countNamed name (dateFields now headers) +
        countNamed name (framingFields status length mode bodyLength) +
        (equalInsensitive (ascii "Connection") (ascii name)).toNat) := by
    have hnew : countNamed name added = countNamed name (dateFields now headers) +
        countNamed name (framingFields status length mode bodyLength) +
        (equalInsensitive (ascii "Connection") (ascii name)).toNat := by
      rw [hadded, countNamed_append, countNamed_append, countNamed_connection]
    rw [filter_named htoken, List.length_map, List.filter_append, List.length_append, ← hnew, countNamed,
      List.countP_eq_length_filter]
  obtain ⟨hnoLength, hnoCoding, hnoConnection⟩ := framing_not_named haccepted
  have hlength := hcount "content-length"
  have hcoding := hcount "transfer-encoding"
  have hconnection := hcount "connection"
  have hdate := hcount "date"
  rw [hnoLength, countNamed_dateFields, countNamed_framingFields] at hlength
  rw [hnoCoding, countNamed_dateFields, countNamed_framingFields] at hcoding
  rw [hnoConnection, countNamed_dateFields, countNamed_framingFields] at hconnection
  rw [countNamed_dateFields, countNamed_framingFields] at hdate
  have hnames : equalInsensitive (ascii "Date") (ascii "content-length") = false ∧
      equalInsensitive (ascii "Date") (ascii "transfer-encoding") = false ∧
      equalInsensitive (ascii "Date") (ascii "connection") = false ∧
      equalInsensitive (ascii "Date") (ascii "date") = true := by decide
  have hlengths : equalInsensitive (ascii "Content-Length") (ascii "content-length") = true ∧
      equalInsensitive (ascii "Content-Length") (ascii "transfer-encoding") = false ∧
      equalInsensitive (ascii "Content-Length") (ascii "connection") = false ∧
      equalInsensitive (ascii "Content-Length") (ascii "date") = false := by decide
  have hcodings : equalInsensitive (ascii "Transfer-Encoding") (ascii "content-length") = false ∧
      equalInsensitive (ascii "Transfer-Encoding") (ascii "transfer-encoding") = true ∧
      equalInsensitive (ascii "Transfer-Encoding") (ascii "connection") = false ∧
      equalInsensitive (ascii "Transfer-Encoding") (ascii "date") = false := by decide
  have hconnections : equalInsensitive (ascii "Connection") (ascii "content-length") = false ∧
      equalInsensitive (ascii "Connection") (ascii "transfer-encoding") = false ∧
      equalInsensitive (ascii "Connection") (ascii "connection") = true ∧
      equalInsensitive (ascii "Connection") (ascii "date") = false := by decide
  simp only [hnames, hlengths, hcodings, hconnections, Bool.toNat_false, Bool.toNat_true, ite_self, List.length_nil,
    Nat.zero_add, Nat.add_zero] at hlength hcoding hconnection hdate
  have hchunked : mode = .chunked → ¬ (status = 205 ∨ (length.isSome ∧ status ≠ 204 ∧ status ≠ 304)) :=
    fun hm => chunked_not_announced (hmode ▸ hm)
  rw [← hadded]
  refine ⟨?_, hlength, ?_, ?_, hconnection, ?_⟩
  · rw [hdate]
    split_ifs with hany
    · obtain ⟨header, hm, hn⟩ := List.any_eq_true.mp hany
      have := List.length_pos_of_mem (List.mem_filter.mpr ⟨hm, hn⟩)
      omega
    · rw [Bool.not_eq_true, List.any_eq_false] at hany
      rw [List.filter_eq_nil_iff.mpr hany]
      rfl
  · rw [hcoding]
    by_cases hm : mode = .chunked
    · rw [if_neg (hchunked hm)]
    · simp only [hm, if_false, ite_self]
  · rw [hlength, hcoding]
    split_ifs <;> simp
  · intro hm
    have hlast : fieldLine (ascii "Connection", connection) ∈ (headers ++ added).map fieldLine := by
      apply List.mem_map_of_mem
      simp [hadded]
    rw [connectionValues, if_pos hm] at hc
    simp only [List.mem_cons, List.not_mem_nil, or_false] at hc
    rcases hc with rfl | rfl
    · exact .inl hlast
    · exact .inr hlast

/-- A head that is written splits into the status line, the given headers, the date where none is
given, the framing fields and one connection field, and its first blank line is its end. -/
theorem prepareResponseHead_framed
    (h : prepareResponseHead now status headers length head close maxHeaders chunkedAllowed = .ok prepared) :
    prepared.wire.length ≤ maxHeaders ∧ (∃ x, prepared.wire = x ++ crlf ++ crlf) ∧
      (∀ x y, prepared.wire = x ++ crlf ++ crlf ++ y → y = []) ∧
      ∃ connection,
        let fields := (headers ++ (dateFields now headers ++
          framingFields status length prepared.mode prepared.length ++ [(ascii "Connection", connection)])).map fieldLine
        splitCrlf prepared.wire = statusLine status :: fields ++ [[], []] ∧
          (∀ line ∈ statusLine status :: fields, validHeaderValue line = true) ∧
          HeadFraming status length prepared.mode fields := by
  obtain ⟨hbound, haccepted, hdates, hmode, connection, hc, hwire⟩ := prepareResponseHead_ok h
  obtain ⟨added, hadded⟩ : ∃ added, added = dateFields now headers ++
    framingFields status length prepared.mode prepared.length ++ [(ascii "Connection", connection)] := ⟨_, rfl⟩
  have hframed := @framed_fields now status headers length head chunkedAllowed connection prepared.mode
    prepared.length hmode haccepted hdates hc
  rw [← hadded] at hwire hframed
  have hvalid : ∀ line ∈ statusLine status :: (headers ++ added).map fieldLine, validHeaderValue line = true := by
    intro line hl
    rcases List.mem_cons.mp hl with rfl | hl
    · exact validHeaderValue_statusLine status
    · obtain ⟨field, hf, rfl⟩ := List.mem_map.mp hl
      rcases List.mem_append.mp hf with hf | hf
      · exact validHeaderValue_fieldLine (haccepted field hf).token (haccepted field hf).value
      · rw [hadded] at hf
        obtain ⟨htoken, hvalue⟩ := valid_added hc field hf
        exact validHeaderValue_fieldLine htoken hvalue
  have hlines : prepared.wire =
      (statusLine status :: (headers ++ added).map fieldLine).flatMap (· ++ crlf) ++ crlf := by
    rw [hwire, fieldBytes_map, List.flatMap_cons]
  have hfull : ∀ line ∈ statusLine status :: (headers ++ added).map fieldLine, 13 ∉ line ∧ line ≠ [] := by
    intro line hl
    refine ⟨no_return (hvalid line hl), ?_⟩
    rcases List.mem_cons.mp hl with rfl | hl
    · simp [statusLine, ascii]
    · obtain ⟨field, hf, rfl⟩ := List.mem_map.mp hl
      simp [fieldLine, ascii]
  refine ⟨hbound, ?_, ?_, connection, ?_⟩
  · obtain ⟨x, hx⟩ : ∃ x, (statusLine status :: (headers ++ added).map fieldLine).flatMap (· ++ crlf) = x ++ crlf := by
      obtain ⟨lines, line, hlast⟩ := (statusLine status :: (headers ++ added).map fieldLine).eq_nil_or_concat.resolve_left
        (by simp)
      rw [hlast]
      exact ⟨lines.flatMap (· ++ crlf) ++ line, by simp [List.flatMap_append]⟩
    exact ⟨x, by rw [hlines, hx]⟩
  · intro x y hxy
    exact blank_line_last hfull (hlines ▸ hxy)
  · rw [← hadded]
    refine ⟨?_, hvalid, hframed⟩
    rw [hlines, splitCrlf_lines fun line hl => (hfull line hl).1]
    rfl

theorem prepareResponseHead_framed_created : ∃ prepared,
    prepareResponseHead 1709210096 201 [(ascii "X-Id", ascii "7")] none false false 200 true = .ok prepared ∧
      prepared.wire.length ≤ 200 ∧ ∀ x y, prepared.wire = x ++ crlf ++ crlf ++ y → y = [] := by
  obtain ⟨prepared, hrun⟩ : ∃ prepared,
      prepareResponseHead 1709210096 201 [(ascii "X-Id", ascii "7")] none false false 200 true = .ok prepared := by
    have hok : (prepareResponseHead 1709210096 201 [(ascii "X-Id", ascii "7")] none false false 200 true).isOk = true := by
      decide
    cases hr : prepareResponseHead 1709210096 201 [(ascii "X-Id", ascii "7")] none false false 200 true with
    | error status =>
      rw [hr] at hok
      cases hok
    | ok prepared => exact ⟨prepared, rfl⟩
  obtain ⟨hbound, -, honce, -⟩ := prepareResponseHead_framed hrun
  exact ⟨prepared, hrun, hbound, honce⟩

end Head

end ServerCore.Web
