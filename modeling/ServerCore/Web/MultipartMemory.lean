import Mathlib.Tactic.Linarith
import ServerCore.Foundations.Transition
import ServerCore.Web.MultipartSearch

/-! The memory of the multipart parser: what its events are charged, and that neither a full
buffer nor an event too large for it can stop the parser. -/

namespace ServerCore.Web.Multipart

open ServerCore.Core ServerCore.Foundations

section Charges

lemma upTo_length_add_beyond (text : Bytes) (width : ℕ) (n : Option ℕ) :
    (upTo text n).length + (beyond text width n).length ≤ text.length := by
  cases n with
  | none => simp [upTo, beyond]
  | some n =>
    simp only [upTo, beyond, List.length_take, List.length_drop]
    omega

lemma quotedValue_length {text : Bytes} {v : Bytes × Bytes} (h : quotedValue text = some v) :
    v.1.length + v.2.length ≤ text.length := by
  fun_induction quotedValue text generalizing v with
  | case1 => cases h
  | case2 b rest hb =>
    obtain rfl := Option.some.inj h
    simp
  | case3 => cases h
  | case4 b _ _ escaped rest' ih =>
    obtain ⟨w, hw, rfl⟩ := Option.map_eq_some_iff.mp h
    have := ih hw
    simp only [List.length_cons]
    omega
  | case5 b rest _ _ ih =>
    obtain ⟨w, hw, rfl⟩ := Option.map_eq_some_iff.mp h
    have := ih hw
    simp only [List.length_cons]
    omega

lemma nextParameter_eq {value rest : Bytes} {v : Bytes × Bytes} (h : nextParameter value rest = some v) :
    v = (value, rest) := by
  simp only [nextParameter] at h
  split at h
  · cases h
  · exact (Option.some.inj h).symm

lemma quotedParameter_length {quoted : Bytes} {v : Bytes × Bytes} (h : quotedParameter quoted = some v) :
    v.1.length + v.2.length ≤ quoted.length := by
  simp only [quotedParameter] at h
  split at h
  · cases h
  rename_i value rest hq
  have hl := quotedValue_length hq
  have ht := trim_length_le rest
  split at h
  · obtain rfl := Option.some.inj h
    simp only [List.length_nil] at hl ⊢
    omega
  · rename_i b rest' hr
    split at h
    · cases h
    · obtain rfl := nextParameter_eq h
      rw [hr, List.length_cons] at ht
      simp only at hl ⊢
      omega

lemma tokenParameter_length {input : Bytes} {v : Bytes × Bytes} (h : tokenParameter input = some v) :
    v.1.length + v.2.length ≤ input.length := by
  simp only [tokenParameter] at h
  split at h
  · cases h
  cases hf : find (ascii ";") input with
  | none =>
    simp only [hf, Option.some.injEq] at h
    subst h
    have := trim_length_le (upTo input none)
    simpa [upTo] using this
  | some n =>
    simp only [hf] at h
    obtain rfl := nextParameter_eq h
    have ht := trim_length_le (upTo input (some n))
    have hb := find_bound hf
    simp only [upTo, List.length_take] at ht
    simp only [upTo, List.length_drop]
    omega

lemma parameterValue_length {input : Bytes} {v : Bytes × Bytes} (h : parameterValue input = some v) :
    v.1.length + v.2.length ≤ input.length := by
  cases input with
  | nil => exact tokenParameter_length h
  | cons b rest =>
    simp only [parameterValue] at h
    split at h
    · have := quotedParameter_length h
      simp only [List.length_cons]
      omega
    · exact tokenParameter_length h

lemma parameterLoop_length {fuel : ℕ} {input : Bytes} {found result : List (Bytes × Bytes)}
    (h : parameterLoop fuel input found = some result) :
    (result.map fun v => v.2.length).sum ≤ (found.map fun v => v.2.length).sum + input.length := by
  induction fuel generalizing input found with
  | zero => cases h
  | succ fuel ih =>
    simp only [parameterLoop] at h
    split at h
    · obtain rfl := Option.some.inj h
      omega
    split at h
    · cases h
    rename_i equal hf
    split at h
    · cases h
    split at h
    · cases h
    split at h
    · cases h
    rename_i value rest hv
    split at h
    · cases h
    have hrec := ih h
    have hval : value.length + rest.length ≤ _ := parameterValue_length hv
    have ht := trim_length_le input
    have hd := trim_length_le ((trim input).drop (equal + 1))
    simp only [List.length_drop] at hd
    simp only [List.map_append, List.map_cons, List.map_nil, List.sum_append, List.sum_cons, List.sum_nil] at hrec
    omega

lemma parameters_length {input : Bytes} {parsed : Parameterized} (h : parameters input = some parsed) :
    (parsed.parameters.map fun v => v.2.length).sum ≤ input.length := by
  simp only [parameters, Option.map_eq_some_iff] at h
  obtain ⟨found, hloop, rfl⟩ := h
  have hl := parameterLoop_length hloop
  have hb := upTo_length_add_beyond input 1 (find (ascii ";") input)
  simp only [List.map_nil, List.sum_nil] at hl
  simp only
  omega

def Event.copied (event : Event) : ℕ := event.name.length + (event.filename.getD []).length

lemma formParameter_copied {event event' : Event × Bool} {parameter : Bytes × Bytes}
    (h : formParameter event parameter = some event') :
    event'.1.copied ≤ event.1.copied + parameter.2.length ∧ event'.1.headers = event.1.headers ∧
      event'.1.contentType = event.1.contentType ∧ event'.1.data = event.1.data ∧ event'.1.kind = event.1.kind := by
  simp only [formParameter] at h
  split_ifs at h
  all_goals
    obtain rfl := Option.some.inj h
    simp only [Event.copied, Option.getD_some, and_self, and_true]
    omega

lemma foldlM_copied {list : List (Bytes × Bytes)} {event event' : Event × Bool}
    (h : list.foldlM formParameter event = some event') :
    event'.1.copied ≤ event.1.copied + (list.map fun v => v.2.length).sum ∧ event'.1.headers = event.1.headers ∧
      event'.1.contentType = event.1.contentType ∧ event'.1.data = event.1.data ∧ event'.1.kind = event.1.kind := by
  induction list generalizing event with
  | nil =>
    obtain rfl := Option.some.inj h
    simp
  | cons parameter list ih =>
    simp only [List.foldlM_cons, Option.bind_eq_bind, Option.bind_eq_some_iff] at h
    obtain ⟨next, hp, h⟩ := h
    obtain ⟨hc, hh, ht, hd, hk⟩ := formParameter_copied hp
    obtain ⟨hc', hh', ht', hd', hk'⟩ := ih h
    refine ⟨?_, hh'.trans hh, ht'.trans ht, hd'.trans hd, hk'.trans hk⟩
    simp only [List.map_cons, List.sum_cons]
    omega

lemma formData_copied {event event' : Event} {value : Bytes} (h : formData event value = some event') :
    event'.copied ≤ event.copied + value.length ∧ event'.headers = event.headers ∧
      event'.contentType = event.contentType ∧ event'.data = event.data ∧ event'.kind = event.kind := by
  simp only [formData] at h
  split at h
  · cases h
  rename_i parsed hp
  split at h
  · cases h
  split at h
  · cases h
  rename_i next named hf
  split at h
  · obtain rfl := Option.some.inj h
    obtain ⟨hc, hrest⟩ := foldlM_copied hf
    have := parameters_length hp
    simp only at hc
    exact ⟨by omega, hrest⟩
  · cases h

structure HeaderState.Charged (s : HeaderState) (read : ℕ) : Prop where
  kind : s.event.kind = .partBegin
  data : s.event.data = []
  disposition : s.disposition = false → s.event.copied = 0
  contentType : s.contentType = false → s.event.contentType = []
  bytes : s.event.bytes ≤ 2 * read

lemma headerField_charged {maxHeaders : ℕ} {s s' : HeaderState} {name value : Bytes} {read : ℕ} (hs : s.Charged read)
    (h : headerField maxHeaders s name value = .ok s') : s'.Charged (read + name.length + value.length) := by
  have hb := hs.bytes
  simp only [Event.bytes, hs.data, List.length_nil] at hb
  simp only [headerField] at h
  split at h
  · cases h
  split at h
  · split at h
    · cases h
    rename_i hd
    split at h
    · cases h
    rename_i event hf
    obtain rfl := Except.ok.inj h
    obtain ⟨hc, hh, ht, hdata, hkind⟩ := formData_copied hf
    have hzero := hs.disposition (by simpa using hd)
    refine ⟨hkind.trans hs.kind, hdata.trans hs.data, by simp, fun hct => ht.trans (hs.contentType hct), ?_⟩
    simp only [Event.copied] at hc hzero
    simp only [Event.bytes, hdata, hs.data, ht, hh, List.map_append, List.sum_append, List.map_cons, List.map_nil,
      List.sum_cons, List.sum_nil, List.length_nil]
    omega
  split at h
  · split at h
    · cases h
    rename_i hd
    obtain rfl := Except.ok.inj h
    have hzero := hs.contentType (by simpa using hd)
    refine ⟨hs.kind, hs.data, hs.disposition, by simp, ?_⟩
    simp only [hzero, List.length_nil] at hb
    simp only [Event.bytes, hs.data, List.map_append, List.sum_append, List.map_cons, List.map_nil,
      List.sum_cons, List.sum_nil, List.length_nil]
    omega
  split at h
  · cases h
  obtain rfl := Except.ok.inj h
  refine ⟨hs.kind, hs.data, hs.disposition, hs.contentType, ?_⟩
  simp only [Event.bytes, hs.data, List.map_append, List.sum_append, List.map_cons, List.map_nil,
      List.sum_cons, List.sum_nil, List.length_nil]
  omega

lemma parseHeader_length {line : Bytes} {field : Bytes × Bytes} (h : parseHeader line = some field) :
    field.1.length + field.2.length < line.length := by
  simp only [parseHeader] at h
  split at h
  · cases h
  rename_i colon hf
  have hb := find_bound hf
  have ht := trim_length_le (line.drop (colon + 1))
  split at h
  · cases h
  split at h
  · cases h
  obtain rfl := Option.some.inj h
  have hone : (ascii ":").length = 1 := by decide
  simp only [List.length_map, List.length_take, List.length_drop] at ht ⊢
  omega

lemma headerLines_charged {maxHeaders fuel : ℕ} {block : Bytes} {s s' : HeaderState} {read : ℕ} (hs : s.Charged read)
    (h : headerLines maxHeaders fuel block s = .ok s') : s'.Charged (read + block.length) := by
  induction fuel generalizing block s read with
  | zero =>
    obtain rfl := Except.ok.inj h
    exact { hs with bytes := by have := hs.bytes; omega }
  | succ fuel ih =>
    simp only [headerLines] at h
    split at h
    · obtain rfl := Except.ok.inj h
      exact { hs with bytes := by have := hs.bytes; omega }
    have hsplit := upTo_length_add_beyond block 2 (find crlf block)
    split at h
    · cases h
    rename_i name value hp
    have hl := parseHeader_length hp
    cases hfield : headerField maxHeaders s name value with
    | error code =>
      rw [hfield] at h
      cases h
    | ok s'' =>
      rw [hfield] at h
      have hch := ih (headerField_charged hs hfield) h
      refine { hch with bytes := ?_ }
      have := hch.bytes
      simp only at hl
      omega

lemma headers_bytes {s : State} {block : Bytes} {event : Event} (h : s.headers block = .ok event) :
    event.kind = .partBegin ∧ event.bytes ≤ 2 * block.length := by
  simp only [State.headers] at h
  split at h
  · cases h
  rename_i parsed hl
  split at h
  · obtain rfl := Except.ok.inj h
    have hfresh : HeaderState.Charged { event := { partIndex := s.part + 1 } } 0 :=
      ⟨rfl, rfl, by simp [Event.copied], by simp, by simp [Event.bytes]⟩
    have hch := headerLines_charged hfresh hl
    have := hch.bytes
    exact ⟨hch.kind, by omega⟩
  · cases h

end Charges

section Invariant

variable {s : State}

structure State.Wf (s : State) : Prop where
  valid : s.options.valid = true
  boundary : ∃ value, Multipart.boundary value = true ∧ s.marker = ascii "--" ++ value ∧
    s.delimiter = crlf ++ s.marker
  retained : s.buffer.length + s.credit ≤ s.options.maxRetainedBytes
  input : s.buffer.length + s.options.maxHeaderBytes ≤ s.options.maxRetainedBytes
  total : s.total ≤ s.options.maxTotalBytes
  partBytes : s.partBytes ≤ s.limit
  error : s.error ≠ some .wouldBlock

lemma Options.valid_bounds {o : Options} (h : o.valid = true) :
    0 < o.maxHeaderBytes ∧ 0 < o.maxEventBytes ∧ o.maxHeaderBytes * 2 + 80 ≤ o.maxRetainedBytes := by
  simp only [Options.valid, gt_iff_lt, Bool.not_eq_true', Bool.or_eq_false_iff,
    decide_eq_false_iff_not, not_lt] at h
  omega

namespace State.Wf

lemma delimiter_length (h : s.Wf) : s.marker.length + 2 = s.delimiter.length ∧ s.delimiter.length ≤ 74 := by
  obtain ⟨value, hb, hm, hd⟩ := h.boundary
  have hlen : value.length ≤ 70 := by
    simp only [Multipart.boundary, Bool.and_eq_true, decide_eq_true_eq] at hb
    exact hb.1.1.2
  have hdash : (ascii "--").length = 2 := by decide
  rw [hd, hm]
  simp only [crlf, List.length_append, List.length_cons, List.length_nil, hdash]
  omega

lemma delimiter_ne_nil (h : s.Wf) : s.delimiter ≠ [] := by
  have := h.delimiter_length
  intro hnil
  rw [hnil] at this
  simp at this

lemma fresh {value : Bytes} {options : Options} (hv : options.valid = true) (hb : Multipart.boundary value = true) :
    (State.fresh value options).Wf := by
  have := Options.valid_bounds hv
  refine ⟨hv, ⟨value, hb, rfl, rfl⟩, ?_, ?_, ?_, ?_, ?_⟩ <;>
    simp only [State.fresh, State.limit, List.length_nil, ne_eq, reduceCtorEq, not_false_eq_true] <;> omega

lemma shrink (h : s.Wf) {b : Bytes} (hle : b.length ≤ s.buffer.length) (start : Bool) (phase : Phase)
    (error : Option ErrorCode) (he : error ≠ some .wouldBlock) :
    ({ s with buffer := b, initialStart := start, phase := phase, error := error } : State).Wf where
  valid := h.valid
  boundary := h.boundary
  retained := (Nat.add_le_add_right hle _).trans h.retained
  input := (Nat.add_le_add_right hle _).trans h.input
  total := h.total
  partBytes := h.partBytes
  error := he

lemma failWith (h : s.Wf) {code : ErrorCode} (hc : code ≠ .wouldBlock) : (s.failWith code).Wf :=
  h.shrink (by simp) s.initialStart s.phase (some code) (by simpa using hc)

end State.Wf

-- The subtractions of `Feed`, of `Event` and of `Data` stay within their operands.
def State.FeedExact (s : State) : Prop :=
  s.total ≤ s.options.maxTotalBytes ∧ s.options.maxHeaderBytes ≤ s.options.maxRetainedBytes ∧
    s.retained ≤ s.options.maxRetainedBytes ∧ s.buffer.length ≤ s.inputLimit

def State.EventExact (s : State) (consumed : ℕ) : Prop :=
  s.credit ≤ s.options.maxRetainedBytes ∧ consumed ≤ s.buffer.length ∧
    s.buffer.length - consumed ≤ s.options.maxRetainedBytes - s.credit

def State.ExitExact (s : State) : Exit → Prop
  | .data count => s.partBytes ≤ s.limit ∧ s.EventExact (min count s.options.maxEventBytes)
  | .partBegin _ consumed => s.EventExact consumed
  | .partEnd _ consumed => s.EventExact consumed
  | _ => True

def Exit.isEvent : Exit → Bool
  | .data _ | .partBegin _ _ | .partEnd _ _ => true
  | _ => false

lemma State.Wf.feedExact (h : s.Wf) : s.FeedExact := by
  have hr := h.retained
  have hi := h.input
  have hm : s.options.maxHeaderBytes ≤ s.options.maxRetainedBytes := by omega
  refine ⟨h.total, hm, hr, ?_⟩
  rw [State.inputLimit, sizeSub_eq hm]
  omega

lemma State.Wf.eventExact (h : s.Wf) {consumed : ℕ} (hc : consumed ≤ s.buffer.length) : s.EventExact consumed := by
  have hr := h.retained
  exact ⟨by omega, hc, by omega⟩

end Invariant

section Scan

variable {s : State}

-- What a turn of `Read` leaves behind and what it calls.
structure Exit.Fits (s : State) (exit : Exit) : Prop where
  data : ∀ count, exit = .data count → 0 < count ∧ count ≤ s.buffer.length
  partBegin : ∀ event consumed, exit = .partBegin event consumed →
    consumed ≤ s.buffer.length ∧ consumed ≤ s.options.maxHeaderBytes ∧ event.bytes + 8 ≤ 2 * consumed
  partEnd : ∀ final consumed, exit = .partEnd final consumed → 0 < consumed ∧ consumed ≤ s.buffer.length
  idle : exit = .wait → s.eof = false
  fail : ∀ code, exit = .fail code → code ≠ .wouldBlock
  wait : exit = .wait ∨ exit = .more →
    s.buffer.length ≤ s.delimiter.length + s.options.maxHeaderBytes + 1

lemma headerField_error {maxHeaders : ℕ} {t : HeaderState} {name value : Bytes} {code : ErrorCode}
    (h : headerField maxHeaders t name value = .error code) : code ≠ .wouldBlock := by
  simp only [headerField] at h
  split_ifs at h
  all_goals try (obtain rfl := Except.error.inj h; simp)
  · split at h
    · obtain rfl := Except.error.inj h
      simp
    · cases h

lemma headerLines_error {maxHeaders fuel : ℕ} {block : Bytes} {t : HeaderState} {code : ErrorCode}
    (h : headerLines maxHeaders fuel block t = .error code) : code ≠ .wouldBlock := by
  induction fuel generalizing block t with
  | zero => cases h
  | succ fuel ih =>
    simp only [headerLines] at h
    split at h
    · cases h
    split at h
    · obtain rfl := Except.error.inj h
      simp
    rename_i name value _
    cases hf : headerField maxHeaders t name value with
    | error code' =>
      rw [hf] at h
      obtain rfl := Except.error.inj h
      exact headerField_error hf
    | ok t' =>
      rw [hf] at h
      exact ih h

lemma headers_error {block : Bytes} {code : ErrorCode} (h : s.headers block = .error code) : code ≠ .wouldBlock := by
  simp only [State.headers] at h
  split at h
  · rename_i hl
    obtain rfl := Except.error.inj h
    exact headerLines_error hl
  · split at h
    · cases h
    · obtain rfl := Except.error.inj h
      simp

lemma Exit.Fits.ofFail {code : ErrorCode} (h : code ≠ .wouldBlock) : (Exit.fail code).Fits s := by
  constructor <;> simp [h]

lemma scanHeaders_fits : s.scanHeaders.1 = s ∧ s.scanHeaders.2.Fits s := by
  simp only [State.scanHeaders]
  split
  · split
    · exact ⟨rfl, .ofFail (by simp)⟩
    · refine ⟨rfl, ?_⟩
      constructor <;> simp
      omega
  rename_i length hf
  have hb := find_bound hf
  have hfour : (crlf ++ crlf).length = 4 := rfl
  split
  · exact ⟨rfl, .ofFail (by simp)⟩
  split
  · exact ⟨rfl, .ofFail (by simp)⟩
  split
  · rename_i code he
    exact ⟨rfl, .ofFail (headers_error he)⟩
  rename_i event he
  have hbytes := (headers_bytes he).2
  simp only [List.length_take] at hbytes
  split
  · exact ⟨rfl, .ofFail (by simp)⟩
  · refine ⟨rfl, ?_⟩
    constructor <;> simp
    omega

lemma scanEpilogue_fits :
    (∃ phase, s.scanEpilogue.1 = { s with buffer := [], phase := phase }) ∧ s.scanEpilogue.2.Fits s.scanEpilogue.1 := by
  simp only [State.scanEpilogue]
  split
  · refine ⟨⟨.done, rfl⟩, ?_⟩
    constructor <;> simp
  · rename_i heof
    refine ⟨⟨s.phase, rfl⟩, ?_⟩
    constructor <;> simp
    simpa using heof

lemma scanBody_fits (h : s.Wf) : s.scanBody.1 = s ∧ s.scanBody.2.Fits s := by
  have hs := searchFuel_enough false h.delimiter_ne_nil
  have hsame := hs.frame.2 rfl
  have hfit := hs.fits h.delimiter_ne_nil (by have := h.delimiter_length; omega) (Options.valid_bounds h.valid).1
  simp only [State.scanBody]
  generalize s.search false s.searchFuel 0 = r at hsame hfit
  obtain ⟨s', found⟩ := r
  obtain rfl : s' = s := hsame
  cases found with
  | stop =>
    refine ⟨rfl, ?_⟩
    constructor <;> simp
    exact hfit
  | data count =>
    refine ⟨rfl, ?_⟩
    constructor <;> simp
    exact hfit
  | delimiter final consumed =>
    refine ⟨rfl, ?_⟩
    constructor <;> simp
    exact hfit

lemma scan_fits (h : s.Wf) :
    (∃ buffer start phase, buffer.length ≤ s.buffer.length ∧
      s.scan.1 = { s with buffer := buffer, initialStart := start, phase := phase }) ∧ s.scan.2.Fits s.scan.1 := by
  have hself : ∃ buffer start phase, buffer.length ≤ s.buffer.length ∧
      s = { s with buffer := buffer, initialStart := start, phase := phase } :=
    ⟨s.buffer, s.initialStart, s.phase, le_rfl, rfl⟩
  cases hp : s.phase with
  | done =>
    simp only [State.scan, hp]
    refine ⟨hself, ?_⟩
    constructor <;> simp
  | epilogue =>
    simp only [State.scan, hp]
    obtain ⟨⟨phase, heq⟩, hfit⟩ := scanEpilogue_fits (s := s)
    exact ⟨⟨[], s.initialStart, phase, by simp, heq⟩, hfit⟩
  | headers =>
    simp only [State.scan, hp]
    obtain ⟨heq, hfit⟩ := scanHeaders_fits (s := s)
    rw [heq]
    exact ⟨hself, hfit⟩
  | body =>
    simp only [State.scan, hp]
    obtain ⟨heq, hfit⟩ := scanBody_fits h
    rw [heq]
    exact ⟨hself, hfit⟩
  | initial =>
    have hs := searchFuel_enough true h.delimiter_ne_nil
    have hfit := hs.fits h.delimiter_ne_nil (by have := h.delimiter_length; omega) (Options.valid_bounds h.valid).1
    obtain ⟨⟨count, start, hframe⟩, -⟩ := hs.frame
    have hdata := fun count => hs.data_body (c := count)
    simp only [State.scan, hp]
    generalize s.search true s.searchFuel 0 = r at hfit hframe hdata
    obtain ⟨s', found⟩ := r
    simp only at hframe hfit
    have hdrop (n : ℕ) : (s.buffer.drop n).length ≤ s.buffer.length := by simp
    cases found with
    | stop =>
      simp only
      refine ⟨⟨_, start, s.phase, hdrop count, hframe⟩, ?_⟩
      constructor <;> simp
      exact hfit
    | data count' => exact absurd (hdata count' rfl) (by simp)
    | delimiter final consumed =>
      simp only
      cases final with
      | false =>
        simp only [Bool.false_eq_true, ↓reduceIte]
        obtain ⟨heq, hfit⟩ := scanHeaders_fits (s := { s'.skipPreamble consumed with phase := afterDelimiter false })
        rw [heq]
        refine ⟨⟨(s.buffer.drop count).drop consumed, false, afterDelimiter false, ?_, ?_⟩, hfit⟩
        · rw [List.drop_drop]
          exact hdrop _
        · rw [hframe]
          rfl
      | true =>
        simp only [↓reduceIte]
        obtain ⟨⟨phase, heq⟩, hfit⟩ :=
          scanEpilogue_fits (s := { s'.skipPreamble consumed with phase := afterDelimiter true })
        refine ⟨⟨[], false, phase, by simp, ?_⟩, hfit⟩
        rw [heq, hframe]
        rfl

lemma exitExact_of_fits (h : s.Wf) {exit : Exit} (hf : exit.Fits s) : s.ExitExact exit := by
  cases exit with
  | data count =>
    have := (hf.data count rfl).2
    exact ⟨h.partBytes, h.eventExact (by omega)⟩
  | partBegin event consumed => exact h.eventExact (hf.partBegin event consumed rfl).1
  | partEnd final consumed => exact h.eventExact (hf.partEnd final consumed rfl).2
  | _ => trivial

end Scan

section Deliver

variable {s : State}

lemma deliver_cases {v : Event} {consumed : ℕ} (h : s.EventExact consumed) :
    (s.options.maxRetainedBytes < v.bytes ∧
      s.deliver v consumed = (s.failWith .tooLarge, .error .tooLarge)) ∨
    (s.options.maxRetainedBytes < v.bytes + s.credit + (s.buffer.length - consumed) ∧
      s.deliver v consumed = (s, .error .wouldBlock)) ∨
    (v.bytes + s.credit + (s.buffer.length - consumed) ≤ s.options.maxRetainedBytes ∧
      s.deliver v consumed =
        ({ s with credit := s.credit + v.bytes, buffer := s.buffer.drop consumed }, .event v)) := by
  obtain ⟨hcredit, hconsumed, hroom⟩ := h
  simp only [State.deliver, sizeSub_eq hcredit, sizeSub_eq hconsumed, sizeSub_eq hroom]
  split
  · exact .inl ⟨by omega, rfl⟩
  split
  · exact .inr (.inl ⟨by omega, rfl⟩)
  · exact .inr (.inr ⟨by omega, rfl⟩)

lemma deliver_wf (h : s.Wf) {v : Event} {consumed : ℕ} (hc : consumed ≤ s.buffer.length) :
    (s.deliver v consumed).1.Wf := by
  rcases deliver_cases (h.eventExact hc) with ⟨-, heq⟩ | ⟨-, heq⟩ | ⟨hfit, heq⟩ <;> rw [heq]
  · exact h.failWith (by simp)
  · exact h
  · have hi := h.input
    exact { h with
      retained := by
        simp only [List.length_drop]
        omega
      input := by
        simp only [List.length_drop]
        omega }

lemma data_wf (h : s.Wf) {count : ℕ} (hc : count ≤ s.buffer.length) : (s.data count).1.Wf := by
  simp only [State.data, sizeSub_eq h.partBytes]
  have hmin : min count s.options.maxEventBytes ≤ s.buffer.length := by omega
  split
  · exact h.failWith (by simp)
  rename_i hlimit
  set event : Event := { kind := .data, partIndex := s.part, data := s.buffer.take (min count s.options.maxEventBytes) }
  have hwf := deliver_wf h (v := event) hmin
  rcases deliver_cases (h.eventExact hmin) with ⟨-, heq⟩ | ⟨-, heq⟩ | ⟨-, heq⟩
  · rw [heq] at hwf ⊢
    exact hwf
  · rw [heq] at hwf ⊢
    exact hwf
  · rw [heq] at hwf ⊢
    simp only [ReadResult.isOk, ↓reduceIte]
    have hp := h.partBytes
    exact { hwf with
      partBytes := by
        change s.partBytes + _ ≤ s.limit
        omega }

lemma conclude_wf (h : s.Wf) {exit : Exit} (hf : exit.Fits s) : (s.conclude exit).1.Wf := by
  cases exit with
  | null => exact h
  | wait => exact h
  | more =>
    simp only [State.conclude]
    split
    · exact h.failWith (by simp)
    · exact h
  | fail code => exact h.failWith (hf.fail code rfl)
  | data count => exact data_wf h (hf.data count rfl).2
  | partBegin event consumed =>
    have hwf := deliver_wf h (v := event) (hf.partBegin event consumed rfl).1
    simp only [State.conclude]
    split
    · exact { hwf with partBytes := Nat.zero_le _ }
    · exact hwf
  | partEnd final consumed =>
    have hwf := deliver_wf h (v := { kind := .partEnd, partIndex := s.part }) (hf.partEnd final consumed rfl).2
    simp only [State.conclude]
    split
    · exact { hwf with }
    · exact hwf

lemma scan_wf (h : s.Wf) (he : s.error = none) : s.scan.1.Wf := by
  obtain ⟨⟨buffer, start, phase, hle, heq⟩, -⟩ := scan_fits h
  have hw := h.shrink hle start phase none (by simp)
  rw [← he, ← heq] at hw
  exact hw

lemma read_wf (h : s.Wf) : s.read.1.Wf := by
  simp only [State.read]
  split
  · exact h
  · rename_i he
    exact conclude_wf (scan_wf h he) (scan_fits h).2

lemma feed_wf (h : s.Wf) (bytes : Bytes) : (s.feed bytes).1.Wf := by
  obtain ⟨htotal, hheader, hretained, hinput⟩ := h.feedExact
  simp only [State.feed, sizeSub_eq htotal, sizeSub_eq hretained, sizeSub_eq hinput]
  rw [State.inputLimit, sizeSub_eq hheader] at hinput ⊢
  split
  · exact h
  split
  · exact h
  split
  · exact h
  split
  · exact h.failWith (by simp)
  rename_i hsize
  split
  · exact h
  · simp only [State.retained] at hretained ⊢
    exact { h with
      retained := by
        simp only [List.length_append, List.length_take]
        omega
      input := by
        simp only [List.length_append, List.length_take]
        omega
      total := by
        simp only
        omega }

lemma finish_wf (h : s.Wf) : s.finish.1.Wf := by
  simp only [State.finish]
  split
  · exact h
  · exact { h with }

lemma cancel_wf (h : s.Wf) : s.cancel.Wf := by
  simp only [State.cancel]
  split
  · exact h.failWith (by simp)
  · exact h

lemma release_wf (h : s.Wf) (bytes : ℕ) : (s.release bytes).Wf :=
  { h with
    retained := by
      have := h.retained
      simp only [State.release]
      omega }

end Deliver

section Sessions

structure Session where
  parser : State
  held : List ℕ

inductive Call
  | feed (bytes : Bytes)
  | read
  | finish
  | cancel
  | release (index : ℕ)

def Session.step (t : Session) : Call → Option Session
  | .feed bytes => some { t with parser := (t.parser.feed bytes).1 }
  | .read =>
    match t.parser.read with
    | (parser, .event event) => some ⟨parser, event.bytes :: t.held⟩
    | (parser, _) => some { t with parser := parser }
  | .finish => some { t with parser := t.parser.finish.1 }
  | .cancel => some { t with parser := t.parser.cancel }
  | .release index =>
    match t.held[index]? with
    | none => none
    | some bytes => some ⟨t.parser.release bytes, t.held.eraseIdx index⟩

def Session.opened (t : Session) : Prop :=
  ∃ contentType options, create contentType options = .ok t.parser ∧ t.held = []

variable {s : State} {t : Session}

lemma create_fresh {contentType : Bytes} {options : Options} (h : create contentType options = .ok s) :
    ∃ value, boundary value = true ∧ options.valid = true ∧ s = .fresh value options := by
  simp only [create] at h
  split at h
  · cases h
  rename_i hv
  split at h
  · cases h
  split at h
  · cases h
  split at h
  · cases h
  split at h
  · cases h
  rename_i hb
  exact ⟨_, by simpa using hb, by simpa using hv, (Except.ok.inj h).symm⟩

lemma deliver_credit (event : Event) (consumed : ℕ) :
    (s.deliver event consumed).2 = .event event ∧ (s.deliver event consumed).1.credit = s.credit + event.bytes ∨
      (s.deliver event consumed).2.isOk = false ∧ (s.deliver event consumed).1.credit = s.credit := by
  simp only [State.deliver]
  split
  · exact .inr ⟨rfl, rfl⟩
  split
  · exact .inr ⟨rfl, rfl⟩
  · exact .inl ⟨rfl, rfl⟩

def ReadResult.charge : ReadResult → ℕ
  | .event e => e.bytes
  | _ => 0

lemma charge_of_not_ok {result : ReadResult} (h : result.isOk = false) : result.charge = 0 := by
  cases result with
  | null => rfl
  | event event => cases h
  | error code => rfl

lemma deliver_charge (event : Event) (consumed : ℕ) :
    (s.deliver event consumed).1.credit = s.credit + (s.deliver event consumed).2.charge := by
  rcases deliver_credit (s := s) event consumed with ⟨hr, hc⟩ | ⟨hr, hc⟩
  · rw [hc, hr]
    rfl
  · rw [hc, charge_of_not_ok hr]
    rfl

lemma conclude_charge (exit : Exit) : (s.conclude exit).1.credit = s.credit + (s.conclude exit).2.charge := by
  cases exit with
  | null | wait | fail code => rfl
  | more =>
    simp only [State.conclude]
    split <;> rfl
  | data count =>
    simp only [State.conclude, State.data]
    split
    · rfl
    split <;> exact deliver_charge _ _
  | partBegin event consumed | partEnd final consumed =>
    simp only [State.conclude]
    split <;> exact deliver_charge _ _

lemma read_charge (h : s.Wf) : s.read.1.credit = s.credit + s.read.2.charge := by
  simp only [State.read]
  split
  · rfl
  · obtain ⟨⟨_, _, _, -, heq⟩, -⟩ := scan_fits h
    rw [conclude_charge, heq]

lemma feed_credit (bytes : Bytes) : (s.feed bytes).1.credit = s.credit := by
  simp only [State.feed]
  split
  · rfl
  split_ifs <;> rfl

lemma sum_eraseIdx {held : List ℕ} {index bytes : ℕ} (h : held[index]? = some bytes) :
    (held.eraseIdx index).sum + bytes = held.sum := by
  induction held generalizing index with
  | nil => simp at h
  | cons a held ih =>
    cases index with
    | zero =>
      obtain rfl : a = bytes := by simpa using h
      simp only [List.eraseIdx_cons_zero, List.sum_cons]
      omega
    | succ index =>
      have := ih (by simpa using h)
      simp only [List.eraseIdx_cons_succ, List.sum_cons]
      omega

structure Session.Accounted (t : Session) : Prop where
  wf : t.parser.Wf
  credit : t.parser.credit = t.held.sum

lemma step_accounted {t' : Session} {call : Call} (h : t.Accounted) (hstep : t.step call = some t') :
    t'.Accounted := by
  cases call with
  | feed bytes =>
    obtain rfl := Option.some.inj hstep
    exact ⟨feed_wf h.wf bytes, (feed_credit bytes).trans h.credit⟩
  | read =>
    have hwf := read_wf h.wf
    have hcharge := read_charge h.wf
    simp only [Session.step] at hstep
    generalize t.parser.read = r at hwf hcharge hstep
    obtain ⟨parser, result⟩ := r
    have hc := h.credit
    cases result with
    | event event =>
      obtain rfl := Option.some.inj hstep
      refine ⟨hwf, ?_⟩
      simp only [ReadResult.charge] at hcharge
      simp only [List.sum_cons]
      omega
    | null | error code =>
      obtain rfl := Option.some.inj hstep
      exact ⟨hwf, hcharge.trans hc⟩
  | finish =>
    obtain rfl := Option.some.inj hstep
    refine ⟨finish_wf h.wf, ?_⟩
    simp only [State.finish]
    split <;> exact h.credit
  | cancel =>
    obtain rfl := Option.some.inj hstep
    refine ⟨cancel_wf h.wf, ?_⟩
    simp only [State.cancel]
    split <;> exact h.credit
  | release index =>
    simp only [Session.step] at hstep
    split at hstep
    · cases hstep
    rename_i bytes hb
    obtain rfl := Option.some.inj hstep
    refine ⟨release_wf h.wf bytes, ?_⟩
    have := sum_eraseIdx hb
    have := h.credit
    simp only [State.release]
    omega

lemma reachable_accounted (h : Reachable Session.step Session.opened t) : t.Accounted := by
  refine h.invariant ?_ fun t call t' ht hs => step_accounted ht hs
  rintro t ⟨contentType, options, hc, hheld⟩
  obtain ⟨value, hb, hv, heq⟩ := create_fresh hc
  refine ⟨heq ▸ .fresh hv hb, ?_⟩
  rw [heq, hheld]
  rfl

lemma deliver_fits (h : s.Wf) {v : Event} {consumed : ℕ} (hcredit : s.credit = 0) (hc : consumed ≤ s.buffer.length)
    (hb : v.bytes ≤ s.options.maxRetainedBytes - (s.buffer.length - consumed)) :
    (s.deliver v consumed).2 = .event v := by
  have hr := h.retained
  rcases deliver_cases (v := v) (h.eventExact hc) with ⟨hlt, -⟩ | ⟨hlt, -⟩ | ⟨-, heq⟩
  · omega
  · omega
  · rw [heq]

lemma conclude_not_blocked (h : s.Wf) {exit : Exit} (hf : exit.Fits s) (hcredit : s.credit = 0)
    (hevent : exit.isEvent = true) : (s.conclude exit).2 ≠ .error .wouldBlock := by
  have hr := h.retained
  have hi := h.input
  cases exit with
  | data count =>
    have hc := (hf.data count rfl).2
    simp only [State.conclude, State.data]
    split
    · simp
    rw [apply_ite Prod.snd, ite_self, deliver_fits h hcredit (by omega)]
    · simp
    · simp only [Event.bytes, List.length_take, List.length_nil, Option.getD_none, List.map_nil, List.sum_nil]
      omega
  | partBegin event consumed =>
    obtain ⟨hc, hm, hb⟩ := hf.partBegin event consumed rfl
    simp only [State.conclude]
    rw [apply_ite Prod.snd, ite_self, deliver_fits h hcredit hc (by omega)]
    simp
  | partEnd final consumed =>
    have hc := (hf.partEnd final consumed rfl).2
    simp only [State.conclude]
    rw [apply_ite Prod.snd, ite_self, deliver_fits h hcredit hc (by simp [Event.bytes])]
    simp
  | null | wait | more | fail code => cases hevent

lemma read_not_blocked (h : s.Wf) (hcredit : s.credit = 0) (he : s.error = none) (hevent : s.scan.2.isEvent = true) :
    s.read.2 ≠ .error .wouldBlock := by
  obtain ⟨⟨_, _, _, -, heq⟩, hf⟩ := scan_fits h
  simp only [State.read, he]
  refine conclude_not_blocked (scan_wf h he) hf ?_ hevent
  rw [heq]
  exact hcredit

lemma feed_accepts (h : s.Wf) (hcredit : s.credit = 0) (heof : s.eof = false)
    (hblocked : s.read.2 = .error .wouldBlock) {bytes : Bytes} (hne : bytes ≠ [])
    (htotal : bytes.length ≤ s.options.maxTotalBytes - s.total) :
    ∃ n, 0 < n ∧ (s.read.1.feed bytes).2 = .ok n := by
  cases he : s.error with
  | some code =>
    simp only [State.read, he, ReadResult.error.injEq] at hblocked
    exact absurd (he.trans (by rw [hblocked])) h.error
  | none =>
    have hevent : s.scan.2.isEvent = false := by
      cases hb : s.scan.2.isEvent with
      | false => rfl
      | true => exact absurd hblocked (read_not_blocked h hcredit he hb)
    obtain ⟨⟨buffer, start, phase, -, heq⟩, hf⟩ := scan_fits h
    have hwf := scan_wf h he
    have hlen : s.scan.1.buffer.length ≤ s.delimiter.length + s.options.maxHeaderBytes + 1 := by
      have hwait : s.scan.2 = .wait ∨ s.scan.2 = .more := by
        simp only [State.read, he] at hblocked
        cases hexit : s.scan.2 with
        | wait => exact .inl rfl
        | more => exact .inr rfl
        | null => simp [hexit, State.conclude] at hblocked
        | fail code =>
          simp only [hexit, State.conclude, ReadResult.error.injEq] at hblocked
          exact absurd hblocked (hf.fail code hexit)
        | _ => simp [hexit, Exit.isEvent] at hevent
      have := hf.wait hwait
      rw [heq] at this ⊢
      exact this
    have hread : s.read.1 = s.scan.1 := by
      have heof' : s.scan.1.eof = false := by
        rw [heq]
        exact heof
      simp only [State.read, he] at hblocked ⊢
      cases hexit : s.scan.2 with
      | null | wait => rfl
      | more => simp [State.conclude, heof']
      | fail code =>
        simp only [hexit, State.conclude, ReadResult.error.injEq] at hblocked
        exact absurd hblocked (hf.fail code hexit)
      | _ => simp [hexit, Exit.isEvent] at hevent
    rw [hread]
    obtain ⟨ht, hh, hret, hinput⟩ := hwf.feedExact
    have hdelim := h.delimiter_length
    have hoptions := Options.valid_bounds h.valid
    have hpos : 0 < bytes.length := List.length_pos_iff.mpr hne
    rw [State.inputLimit, sizeSub_eq hh] at hinput
    simp only [State.feed, State.inputLimit, sizeSub_eq ht, sizeSub_eq hh, sizeSub_eq hret, sizeSub_eq hinput]
    rw [heq] at hlen hret hinput ⊢
    simp only [State.retained, hcredit] at hlen hret hinput ⊢
    simp only [he, heof, hne, List.isEmpty_iff, Bool.false_eq_true, ↓reduceIte]
    rw [if_neg (by omega), if_neg (by omega)]
    exact ⟨_, by omega, rfl⟩

/-- Memory is bounded, no subtraction wraps, and neither a full buffer nor a large event stops
the parser. -/
theorem multipart_memory (h : Reachable Session.step Session.opened t) :
    t.parser.buffer.length + t.held.sum ≤ t.parser.options.maxRetainedBytes ∧
      t.parser.FeedExact ∧ (t.parser.error = none → t.parser.scan.1.ExitExact t.parser.scan.2) ∧
      (t.held = [] → t.parser.eof = false → t.parser.read.2 = .error .wouldBlock →
        ∀ bytes, bytes ≠ [] → bytes.length ≤ t.parser.options.maxTotalBytes - t.parser.total →
          ∃ n, 0 < n ∧ (t.parser.read.1.feed bytes).2 = .ok n) ∧
      (t.held = [] → t.parser.error = none → t.parser.scan.2.isEvent = true →
        t.parser.read.2 ≠ .error .wouldBlock) := by
  have ha := reachable_accounted h
  have hzero (hheld : t.held = []) : t.parser.credit = 0 := by
    rw [ha.credit, hheld]
    rfl
  refine ⟨?_, ha.wf.feedExact, fun he => ?_, fun hheld heof hb bytes hne ht => ?_, fun hheld he hevent => ?_⟩
  · rw [← ha.credit]
    exact ha.wf.retained
  · exact exitExact_of_fits (scan_wf ha.wf he) (scan_fits ha.wf).2
  · exact feed_accepts ha.wf (hzero hheld) heof hb hne ht
  · exact read_not_blocked ha.wf (hzero hheld) he hevent

def smallOptions : Options where
  maxParts := 4
  maxFiles := 4
  maxHeaders := 8
  maxHeaderBytes := 64
  maxPartBytes := 100
  maxFileBytes := 100
  maxTotalBytes := 1000
  maxRetainedBytes := 300
  maxEventBytes := 40

def smallBody : Bytes := ascii "--b\r\nContent-Disposition: form-data; name=a\r\n\r\nx\r\n--b--"

theorem multipart_memory_held :
    ∃ t, Reachable Session.step Session.opened t ∧ t.held = [37] ∧
      t.parser.buffer.length + t.held.sum ≤ t.parser.options.maxRetainedBytes := by
  have hrun : (run Session.step ⟨.fresh (ascii "b") smallOptions, []⟩ [.feed smallBody, .read]).map (·.held) =
      some [37] := by
    rw [smallBody, @ascii_eq "--b\r\nContent-Disposition: form-data; name=a\r\n\r\nx\r\n--b--" _ rfl, @ascii_eq "b" _ rfl]
    decide +kernel
  obtain ⟨t, ht, hheld⟩ := Option.map_eq_some_iff.mp hrun
  have hcreate : create (ascii "multipart/form-data; boundary=b") smallOptions = .ok (.fresh (ascii "b") smallOptions) := by
    rw [@ascii_eq "multipart/form-data; boundary=b" _ rfl]
    decide +kernel
  have hreach : Reachable Session.step Session.opened t :=
    ⟨_, ⟨ascii "multipart/form-data; boundary=b", smallOptions, hcreate, rfl⟩, _, ht⟩
  exact ⟨t, hreach, hheld, (multipart_memory hreach).1⟩

end Sessions

end ServerCore.Web.Multipart
