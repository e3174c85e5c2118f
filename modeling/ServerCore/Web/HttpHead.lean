import ServerCore.Web.HttpFields

/-! The framing that an accepted header block fixes. -/

namespace ServerCore.Web

open ServerCore.Core HttpParser

def reportedHeaders (target : Bytes) (fields : List Bytes) : List (Bytes × Bytes) :=
  let headers := fields.filterMap parseHeader
  match splitTarget target with
  | none => headers
  | some (authority, _) => if authority.isEmpty then headers else setHost authority headers

structure HeadFramed (m : Message) (r : HttpRequest) : Prop where
  method : r.method = m.method ∧ isToken m.method = true
  version : m.version = ascii "HTTP/1.1" ∨ m.version = ascii "HTTP/1.0"
  target : r.target = ascii "*" ∨ ∃ rest, r.target = 47 :: rest
  headers : r.headers = reportedHeaders m.target m.fields
  fields : ∀ field ∈ r.headers, FieldOk field
  lengthOnce : (fieldValues "content-length" r.headers).length ≤ 1
  transferOnce : (fieldValues "transfer-encoding" r.headers).length ≤ 1
  notBoth : fieldValues "content-length" r.headers = [] ∨ fieldValues "transfer-encoding" r.headers = []
  transfer : ∀ v ∈ fieldValues "transfer-encoding" r.headers,
    equalInsensitive v (ascii "chunked") = true ∧ m.version = ascii "HTTP/1.1"
  host : m.version = ascii "HTTP/1.1" → ∃ v, fieldValues "host" r.headers = [v] ∧ HostValue v
  authority : ∀ authority path, AbsoluteForm m.target authority path →
    fieldValues "host" r.headers = [authority]

def Announces (headers : List (Bytes × Bytes)) (n : ℕ) : Prop :=
  (fieldValues "content-length" headers = [] ∧ n = 0) ∨
    ∃ v, fieldValues "content-length" headers = [v] ∧ LengthValue v n

namespace HttpParser

section SetHost

variable (authority : Bytes) (headers : List (Bytes × Bytes))

lemma setHost_nil : setHost authority [] = [(ascii "host", authority)] := rfl

lemma setHost_cons (field : Bytes × Bytes) :
    setHost authority (field :: headers) =
      if field.1 = ascii "host" then (field.1, authority) :: headers
      else field :: setHost authority headers := by
  by_cases h : field.1 = ascii "host"
  · simp [setHost, List.findIdx?_cons, h]
  · have hb : (field.1 == ascii "host") = false := by simpa using h
    simp only [setHost, List.findIdx?_cons, hb, h, if_false, Bool.false_eq_true]
    cases List.findIdx? (fun field => field.1 == ascii "host") headers <;> simp

lemma setHost_other (name : String) (hn : ascii name ≠ ascii "host") :
    fieldValues name (setHost authority headers) = fieldValues name headers := by
  induction headers with
  | nil => simp [setHost_nil, fieldValues_cons, hn.symm]
  | cons field headers ih =>
    rw [setHost_cons]
    split
    · rename_i hf
      have hne : field.1 ≠ ascii name := by
        rw [hf]
        exact hn.symm
      rw [fieldValues_cons, fieldValues_cons, if_neg hne, if_neg hne]
    · rw [fieldValues_cons, fieldValues_cons, ih]

variable {headers}

lemma setHost_host (h : (fieldValues "host" headers).length ≤ 1) :
    fieldValues "host" (setHost authority headers) = [authority] := by
  induction headers with
  | nil => simp [setHost_nil, fieldValues_cons]
  | cons field headers ih =>
    rw [fieldValues_cons] at h
    rw [setHost_cons]
    split
    · rename_i hf
      rw [if_pos hf, List.length_cons] at h
      have hnil : fieldValues "host" headers = [] := List.length_eq_zero_iff.mp (by omega)
      rw [fieldValues_cons, if_pos hf, hnil]
    · rename_i hf
      rw [if_neg hf] at h
      rw [fieldValues_cons, if_neg hf, ih h]

variable {authority}

lemma setHost_fields (ha : FieldOk (ascii "host", authority)) (h : ∀ field ∈ headers, FieldOk field) :
    ∀ field ∈ setHost authority headers, FieldOk field := by
  induction headers with
  | nil =>
    intro field hmem
    obtain rfl := List.mem_singleton.mp hmem
    exact ha
  | cons first headers ih =>
    intro field hmem
    rw [setHost_cons] at hmem
    split at hmem
    · rename_i hf
      rcases List.mem_cons.mp hmem with rfl | hmem
      · exact hf ▸ ha
      · exact h field (by simp [hmem])
    · rcases List.mem_cons.mp hmem with rfl | hmem
      · exact h _ (by simp)
      · exact ih (fun field hm => h field (by simp [hm])) field hmem

end SetHost

section Authority

variable {target authority origin : Bytes}

lemma authority_bytes (ht : ∀ b ∈ target, 33 ≤ b ∧ b < 127 ∧ b ≠ 35)
    (hs : splitTarget target = some (authority, origin)) (hne : authority ≠ []) :
    FieldOk (ascii "host", authority) ∧ HostValue authority := by
  rcases splitTarget_cases hs with ⟨he, -⟩ | ⟨path, ha, -, hbad, -⟩
  · exact absurd he hne
  obtain ⟨⟨scheme, rfl, -⟩, hpath, -⟩ := ha
  have hb : ∀ b ∈ authority, 33 ≤ b ∧ b < 127 ∧ b ≠ 35 := by
    intro b hb
    apply ht
    simp [hb]
  have htoken : isToken (ascii "host") = true ∧ (ascii "host").map lower = ascii "host" := by decide
  refine ⟨⟨htoken.1, htoken.2, fun b hmem => ?_⟩, hne, fun b hmem hin => ?_⟩
  · obtain ⟨h₁, h₂, -⟩ := hb b hmem
    rw [UInt8.le_iff_toNat_le] at h₁
    rw [UInt8.lt_iff_toNat_lt] at h₂
    constructor
    · left
      rw [UInt8.le_iff_toNat_le]
      exact le_trans (by decide) h₁
    · rintro rfl
      exact absurd h₂ (by decide)
  · have h₁ := (hb b hmem).1
    have h₃ := (hb b hmem).2.2
    have hp := hpath b hmem
    have hc := hbad b hmem
    have hall : (ascii " \t,/@?#\\").all fun c => c < 33 ∨ c = 47 ∨ c = 63 ∨ c = 35 ∨ c ∈ ascii ",@\\" := by decide
    rcases of_decide_eq_true (List.all_eq_true.mp hall b hin) with h | h | h | h | h
    · exact absurd h (UInt8.not_lt.mpr h₁)
    · exact hp.1 h
    · exact hp.2 h
    · exact h₃ h
    · exact hc h

end Authority

lemma Collected.once {maxBody : ℕ} {h : Head} {flags : HeaderFlags} (hc : Collected maxBody h flags) :
    (fieldValues "host" h.request.headers).length ≤ 1 ∧
      (fieldValues "content-length" h.request.headers).length ≤ 1 ∧
      (fieldValues "transfer-encoding" h.request.headers).length ≤ 1 := by
  refine ⟨?_, ?_, ?_⟩
  · rcases hc.host with ⟨-, h⟩ | ⟨-, v, h, -⟩ <;> simp [h]
  · rcases hc.length with ⟨-, h, -⟩ | ⟨-, -, v, h, -⟩ <;> simp [h]
  · rcases hc.transfer with ⟨-, h, -⟩ | ⟨-, v, h, -⟩ <;> simp [h]

/-- What an accepted header block leaves behind, its first member the message it spells. -/
structure HeadResult (maxBody : ℕ) (m : Message) (h : Head) : Prop where
  framed : HeadFramed m h.request
  body : h.request.body = []
  stage : (h.stage = .fixedBody ∧ fieldValues "transfer-encoding" h.request.headers = [] ∧
      Announces h.request.headers h.remaining ∧ h.remaining ≤ maxBody) ∨
    (h.stage = .chunkSize ∧ fieldValues "transfer-encoding" h.request.headers ≠ [])

lemma finishHeaders_ok {h h' : Head} {flags : HeaderFlags} {authority : Bytes}
    (ho : finishHeaders h flags authority = .ok h') :
    (flags.haveHost = true ∨ h.http10 = true) ∧ (flags.haveLength = false ∨ flags.haveTransfer = false) ∧
      (h.http10 = false ∨ flags.haveTransfer = false) ∧ flags.transferFailure = 0 ∧
      h'.request = { h.request with
        headers := if authority.isEmpty then h.request.headers else setHost authority h.request.headers } ∧
      h'.stage = (if flags.haveTransfer then .chunkSize else .fixedBody) ∧ h'.remaining = h.remaining := by
  unfold finishHeaders at ho
  split at ho
  · cases ho
  rename_i hbad
  split at ho
  · cases ho
  rename_i hfailure
  obtain rfl := Except.ok.inj ho
  simp only [Bool.or_eq_true, Bool.and_eq_true, Bool.not_eq_true', not_or, not_and, Bool.not_eq_true] at hbad
  obtain ⟨⟨h₁, h₂⟩, h₃⟩ := hbad
  refine ⟨?_, ?_, ?_, not_not.mp hfailure, rfl, rfl, rfl⟩
  · cases hh : flags.haveHost with
    | true => exact .inl rfl
    | false => exact .inr (by simpa using h₁ hh)
  · cases hl : flags.haveLength with
    | true => exact .inr (h₂ hl)
    | false => exact .inl rfl
  · cases ht : h.http10 with
    | true => exact .inr (h₃ ht)
    | false => exact .inl rfl

lemma finishHeaders_values {h h' : Head} {flags : HeaderFlags} {authority : Bytes}
    (ho : finishHeaders h flags authority = .ok h') (name : String) (hn : ascii name ≠ ascii "host") :
    fieldValues name h'.request.headers = fieldValues name h.request.headers := by
  obtain ⟨-, -, -, -, hreq, -, -⟩ := finishHeaders_ok ho
  rw [hreq]
  dsimp only
  split
  · rfl
  · exact setHost_other _ _ _ hn

section Finish

variable {maxBody : ℕ} {h h' : Head} {flags : HeaderFlags} {authority origin : Bytes} {m : Message}

lemma headFramed_of_finish (hc : Collected maxBody h flags) (hmethod : h.request.method = m.method)
    (htoken : isToken m.method = true)
    (hversion : m.version = ascii "HTTP/1.1" ∨ m.version = ascii "HTTP/1.0")
    (hten : h.http10 = (m.version == ascii "HTTP/1.0")) (htarget : h.request.target = origin)
    (hbytes : ∀ b ∈ m.target, 33 ≤ b ∧ b < 127 ∧ b ≠ 35)
    (hsplit : splitTarget m.target = some (authority, origin))
    (hfields : h.request.headers = m.fields.filterMap parseHeader)
    (ho : finishHeaders h flags authority = .ok h') : HeadFramed m h'.request := by
  obtain ⟨h₁, h₂, h₃, hz, hreq, -, -⟩ := finishHeaders_ok ho
  obtain ⟨honce, hlonce, htonce⟩ := hc.once
  have hheaders : h'.request.headers = reportedHeaders m.target m.fields := by
    simp only [reportedHeaders, hsplit, hreq, hfields]
  have hcl := finishHeaders_values ho "content-length" (by decide)
  have hte := finishHeaders_values ho "transfer-encoding" (by decide)
  have hten' : h.http10 = false → m.version = ascii "HTTP/1.1" := by
    intro hf
    rcases hversion with hv | hv
    · exact hv
    · rw [hten, hv] at hf
      cases hf
  have hauth : authority ≠ [] → fieldValues "host" h'.request.headers = [authority] := by
    intro hne
    rw [hreq]
    dsimp only
    rw [if_neg (by simpa using hne)]
    exact setHost_host authority honce
  refine ⟨⟨by rw [hreq]; exact hmethod, htoken⟩, hversion, ?_, hheaders, ?_, ?_, ?_, ?_, ?_, ?_, ?_⟩
  · rw [hreq]
    dsimp only
    rw [htarget]
    rcases splitTarget_cases hsplit with ⟨-, rfl, ht⟩ | ⟨path, -, -, -, ht⟩
    · exact ht
    · exact .inr ht
  · rw [hreq]
    dsimp only
    split
    · exact hc.fields
    · rename_i hne
      exact setHost_fields (authority_bytes hbytes hsplit (by simpa using hne)).1 hc.fields
  · rw [hcl]
    exact hlonce
  · rw [hte]
    exact htonce
  · rw [hcl, hte]
    rcases h₂ with hl | ht
    · rcases hc.length with ⟨-, he, -⟩ | ⟨hl', -⟩
      · exact .inl he
      · rw [hl] at hl'
        cases hl'
    · rcases hc.transfer with ⟨-, he, -⟩ | ⟨ht', -⟩
      · exact .inr he
      · rw [ht] at ht'
        cases ht'
  · rw [hte]
    rcases hc.transfer with ⟨-, he, -⟩ | ⟨ht, v, he, hv⟩
    · simp [he]
    · intro w hw
      rw [he] at hw
      obtain rfl := List.mem_singleton.mp hw
      refine ⟨hv hz, hten' ?_⟩
      rcases h₃ with h₃ | h₃
      · exact h₃
      · rw [ht] at h₃
        cases h₃
  · intro hv
    by_cases hne : authority = []
    · have hf : h.http10 = false := by
        rw [hten, hv]
        decide
      rw [hreq]
      dsimp only
      rw [if_pos (by simpa using hne)]
      rcases hc.host with ⟨hh, -⟩ | ⟨-, hh⟩
      · simp [hh, hf] at h₁
      · exact hh
    · exact ⟨authority, hauth hne, (authority_bytes hbytes hsplit hne).2⟩
  · intro authority' path ha
    rcases splitTarget_cases hsplit with ⟨-, -, ht⟩ | ⟨path', ha', hne, -⟩
    · obtain ⟨h₄, h₅⟩ := absolute_not_origin ha
      exact absurd ht (not_or.mpr ⟨h₄, h₅⟩)
    · rw [absolute_authority_unique ha ha']
      exact hauth hne

lemma parseHeaders_framed {block : Bytes} (hreq : h.request = {}) (hrem : h.remaining = 0)
    (ho : parseHeaders maxBody h block = .ok h') :
    ∃ m, HeadResult maxBody m h' ∧ (crlf <:+ block → m.block = block) := by
  obtain ⟨lineEnd, h₁, authority, h₂, flags, hf, hr, hl, hfin⟩ := parseHeaders_ok ho
  obtain ⟨method, target, version, origin, hline, htoken, hversion, hbytes, hsplit, rfl⟩ :=
    parseRequestLine_ok hr
  have hs := find_split hf
  have hc₀ : Collected maxBody { h with
      http10 := version == ascii "HTTP/1.0"
      request := { h.request with target := origin, method := method } } {} := by
    refine ⟨?_, .inl ⟨rfl, ?_⟩, .inl ⟨rfl, ?_, hrem⟩, .inl ⟨rfl, ?_, rfl⟩⟩ <;> simp [hreq]
  obtain ⟨hc, hten, hreq₂⟩ := parseHeaderLines_ok hc₀ hl
  obtain ⟨-, -, -, -, hreq', hstage, hrem'⟩ := finishHeaders_ok hfin
  let m : Message := ⟨0, method, target, version, headerLines [] (block.drop (lineEnd + 2)), .fixed []⟩
  have hframed : HeadFramed m h'.request := by
    apply headFramed_of_finish hc _ htoken hversion hten _ hbytes hsplit _ hfin
    · rw [hreq₂]
    · rw [hreq₂]
    · rw [hreq₂, hreq]
      rfl
  have hcl := finishHeaders_values hfin "content-length" (by decide)
  have hte := finishHeaders_values hfin "transfer-encoding" (by decide)
  refine ⟨m, ⟨hframed, ?_, ?_⟩, fun hend => ?_⟩
  · rw [hreq', hreq₂, hreq]
  · rw [hte, hstage]
    rcases hc.transfer with ⟨ht, he, -⟩ | ⟨ht, v, he, -⟩
    · refine .inl ⟨by simp [ht], he, ?_, ?_⟩
      · rw [Announces, hcl, hrem']
        rcases hc.length with ⟨-, hle, hz⟩ | ⟨-, -, v, hle, hv⟩
        · exact .inl ⟨hle, hz⟩
        · exact .inr ⟨v, hle, hv⟩
      · rw [hrem']
        rcases hc.length with ⟨-, -, hz⟩ | ⟨-, hb, -⟩
        · omega
        · exact hb
    · exact .inr ⟨by simp [ht], by simp [he]⟩
  · have hm : m.requestLine = block.take lineEnd := hline.symm
    have hfields : encodeLines m.fields = block.drop (lineEnd + 2) := by
      apply encodeLines_fields (block.take lineEnd)
      exact hs ▸ hend
    rw [Message.block, hm, hfields, List.append_assoc]
    exact hs.symm

end Finish

end HttpParser

end ServerCore.Web
