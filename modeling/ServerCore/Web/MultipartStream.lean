import ServerCore.Foundations.StreamDecoder
import ServerCore.Web.MultipartMemory

/-! What a multipart text means, byte by byte and without a buffer, and that the parser reads
just that from any buffered front of the text. -/

namespace ServerCore.Web.Multipart

open ServerCore.Core ServerCore.Foundations WholeDecoder

inductive Atom
  | partBegin (event : Event)
  | byte (part : ℕ) (value : Byte)
  | partEnd (part : ℕ)
  deriving DecidableEq, Repr

def Event.atoms (event : Event) : List Atom :=
  match event.kind with
  | .partBegin => [.partBegin event]
  | .data => event.data.map (.byte event.partIndex)
  | .partEnd => [.partEnd event.partIndex]

def State.whole (s : State) (rest : Bytes) : State :=
  { s with buffer := s.buffer ++ rest, credit := 0, error := none, eof := true, initialStart := true, total := 0 }

def State.beginPart (s : State) (event : Event) (consumed : ℕ) : State :=
  let file := event.filename.isSome
  { s with
    buffer := s.buffer.drop consumed, part := s.part + 1, file := file
    files := if file then s.files + 1 else s.files, partBytes := 0, phase := .body }

def State.passDelimiter (s : State) (final : Bool) (consumed : ℕ) : State :=
  { s with buffer := s.buffer.drop consumed, phase := afterDelimiter final }

def State.passBytes (s : State) (count : ℕ) : State :=
  { s with buffer := s.buffer.drop count, partBytes := s.partBytes + count }

def State.nextByte (s : State) : Next State Atom :=
  match s.buffer with
  | [] => .fail
  | b :: _ => if s.limit < s.partBytes + 1 then .fail else .go [.byte s.part b] (s.passBytes 1)

def State.next (s : State) : Next State Atom :=
  match s.phase with
  | .initial =>
    match opening s.options.maxHeaderBytes true s.marker s.buffer with
    | .normal length => .go [] (s.passDelimiter false (s.marker.length + length))
    | .final length => .go [] (s.passDelimiter true (s.marker.length + length))
    | _ => .fail
  | .headers =>
    match s.scanHeaders.2 with
    | .partBegin event consumed => .go [.partBegin event] (s.beginPart event consumed)
    | _ => .fail
  | .body =>
    match opening s.options.maxHeaderBytes true s.delimiter s.buffer with
    | .normal length => .go [.partEnd s.part] (s.passDelimiter false (s.delimiter.length + length))
    | .final length => .go [.partEnd s.part] (s.passDelimiter true (s.delimiter.length + length))
    | .more => .fail
    | .invalid => s.nextByte
  | .epilogue => .done
  | .done => .done

def State.decode (s : State) : Option (List Atom) := WholeDecoder.decode State.next (fun s => s.buffer.length) s

section Whole

variable (s : State) (rest : Bytes)

@[simp] lemma whole_options : (s.whole rest).options = s.options := rfl

@[simp] lemma whole_marker : (s.whole rest).marker = s.marker := rfl

@[simp] lemma whole_delimiter : (s.whole rest).delimiter = s.delimiter := rfl

@[simp] lemma whole_phase : (s.whole rest).phase = s.phase := rfl

@[simp] lemma whole_buffer : (s.whole rest).buffer = s.buffer ++ rest := rfl

end Whole

section Decode

variable {s s' : State} {events : List Atom}

lemma next_shorter (h : s.next = .go events s') : s'.buffer.length < s.buffer.length := by
  have hpass (final : Bool) {pattern : Bytes} {length : ℕ} (he : 0 < length ∧ pattern.length + length ≤ s.buffer.length) :
      (s.passDelimiter final (pattern.length + length)).buffer.length < s.buffer.length := by
    simp only [State.passDelimiter, List.length_drop]
    omega
  cases hp : s.phase with
  | initial =>
    simp only [State.next, hp] at h
    split at h <;> simp only [Next.go.injEq, reduceCtorEq] at h
    · rename_i ho
      rw [← h.2]
      exact hpass false (opening_end (.inl ho))
    · rename_i ho
      rw [← h.2]
      exact hpass true (opening_end (.inr ho))
  | headers =>
    simp only [State.next, hp] at h
    split at h <;> simp only [Next.go.injEq, reduceCtorEq] at h
    rename_i event consumed he
    obtain ⟨hc, -, hb⟩ := (scanHeaders_fits (s := s)).2.partBegin event consumed he
    rw [← h.2]
    simp only [State.beginPart, List.length_drop]
    omega
  | body =>
    simp only [State.next, hp] at h
    split at h <;> try simp only [Next.go.injEq, reduceCtorEq] at h
    · rename_i ho
      rw [← h.2]
      exact hpass false (opening_end (.inl ho))
    · rename_i ho
      rw [← h.2]
      exact hpass true (opening_end (.inr ho))
    · simp only [State.nextByte] at h
      split at h
      · cases h
      rename_i b rest hb
      split at h
      · cases h
      simp only [Next.go.injEq] at h
      rw [← h.2]
      simp [State.passBytes, hb]
  | epilogue | done => simp [State.next, hp] at h

lemma decode_next (h : s.next = .go events s') : s.decode = s'.decode.map (events ++ ·) :=
  decode_go (fun _ _ _ => next_shorter) h

lemma decode_byte {b : Byte} {rest : Bytes} (hp : s.phase = .body) (hb : s.buffer = b :: rest)
    (ho : opening s.options.maxHeaderBytes true s.delimiter s.buffer = .invalid) :
    s.decode = if s.limit < s.partBytes + 1 then none else (s.passBytes 1).decode.map ([.byte s.part b] ++ ·) := by
  have hn : s.next = if s.limit < s.partBytes + 1 then .fail else .go [.byte s.part b] (s.passBytes 1) := by
    simp only [State.next, hp, ho]
    simp only [State.nextByte, hb]
  split
  · rename_i hl
    rw [if_pos hl] at hn
    exact decode_fail hn
  · rename_i hl
    rw [if_neg hl] at hn
    exact decode_next hn

lemma decode_bytes {c : ℕ} (hp : s.phase = .body) (hc : c ≤ s.buffer.length)
    (ho : ∀ j < c, opening s.options.maxHeaderBytes true s.delimiter (s.buffer.drop j) = .invalid) :
    (s.partBytes + c ≤ s.limit →
      s.decode = (s.passBytes c).decode.map ((s.buffer.take c).map (.byte s.part) ++ ·)) ∧
    (s.partBytes ≤ s.limit → s.limit < s.partBytes + c → s.decode = none) := by
  induction c generalizing s with
  | zero => exact ⟨fun _ => by simp [State.passBytes], fun h h' => by omega⟩
  | succ c ih =>
    cases hb : s.buffer with
    | nil => simp [hb] at hc
    | cons b rest =>
      have hstep := decode_byte hp hb (by simpa using ho 0 (by omega))
      obtain ⟨hin, hout⟩ := ih (s := s.passBytes 1) hp (by simp [State.passBytes, hb] at hc ⊢; exact hc) (by
        intro j hj
        have := ho (j + 1) (by omega)
        simpa [State.passBytes, List.drop_drop] using this)
      have hlimit : (s.passBytes 1).limit = s.limit := rfl
      have hbytes : (s.passBytes 1).partBytes = s.partBytes + 1 := rfl
      have hpass : (s.passBytes 1).passBytes c = s.passBytes (c + 1) := by
        simp only [State.passBytes, List.drop_drop, Nat.add_assoc, Nat.add_comm 1]
      rw [hlimit, hbytes] at hin hout
      refine ⟨fun h => ?_, fun h h' => ?_⟩
      · rw [hstep, if_neg (by omega), hin (by omega), hpass, Option.map_map]
        congr 1
        funext atoms
        simp [State.passBytes, hb]
      · rw [hstep]
        split
        · rfl
        · rw [hout (by omega) (by omega)]
          rfl

lemma decode_unclosed (hp : s.phase = .body)
    (ho : ∀ j, opening s.options.maxHeaderBytes true s.delimiter (s.buffer.drop j) = .invalid) : s.decode = none := by
  generalize hn : s.buffer.length = n
  induction n generalizing s with
  | zero =>
    have hb : s.buffer = [] := List.length_eq_zero_iff.mp hn
    apply decode_fail
    have := ho 0
    simp only [List.drop_zero] at this
    simp only [State.next, hp, this]
    simp only [State.nextByte, hb]
  | succ n ih =>
    cases hb : s.buffer with
    | nil => simp [hb] at hn
    | cons b rest =>
      rw [decode_byte hp hb (by simpa using ho 0)]
      split
      · rfl
      · rw [ih (s := s.passBytes 1) hp]
        · rfl
        · intro j
          simpa [State.passBytes, List.drop_drop] using ho (j + 1)
        · simp only [State.passBytes, List.length_drop, hn]
          omega

end Decode

section Reading

variable {s s' : State} {rest : Bytes}

-- What a call of `Read` says about the meaning of the input still ahead.
def ReadResult.Tells (rest : Bytes) (s s' : State) : ReadResult → Prop
  | .event e => s'.error = none ∧ s'.phase ≠ .initial ∧ s'.phase ≠ .done ∧
      (s.whole rest).decode = (s'.whole rest).decode.map (e.atoms ++ ·) ∧
      (e.kind = .data → 0 < e.data.length ∧ e.data.length ≤ s.options.maxEventBytes)
  | .null => s.eof = true ∧ (s.whole rest).decode = some []
  | .error .wouldBlock => s.eof = false ∧ s'.error = none ∧ s'.phase = s.phase ∧
      (s'.whole rest).decode = (s.whole rest).decode
  | .error _ => (s.whole rest).decode = none

structure State.Ready (s : State) (rest : Bytes) : Prop where
  wf : s.Wf
  credit : s.credit = 0
  error : s.error = none
  eof : s.eof = true → rest = []

lemma tells_error {code : ErrorCode} (hc : code ≠ .wouldBlock) (h : (s.whole rest).decode = none) :
    (ReadResult.error code).Tells rest s s' := by
  cases code <;> first | exact h | exact absurd rfl hc

lemma whole_opening {j : ℕ} (hj : j + s.delimiter.length ≤ s.buffer.length)
    (ho : opening s.options.maxHeaderBytes s.eof s.delimiter (s.buffer.drop j) ≠ .more) (heof : s.eof = true → rest = []) :
    opening s.options.maxHeaderBytes true s.delimiter ((s.whole rest).buffer.drop j) =
      opening s.options.maxHeaderBytes s.eof s.delimiter (s.buffer.drop j) := by
  have hdrop : (s.whole rest).buffer.drop j = s.buffer.drop j ++ rest := by
    simp only [State.whole]
    rw [List.drop_append_of_le_length (by omega)]
  rw [hdrop]
  exact opening_append ho (by simp only [List.length_drop]; omega) heof

lemma drop_append_rest {count : ℕ} (h : count ≤ s.buffer.length) :
    (s.buffer ++ rest).drop count = s.buffer.drop count ++ rest :=
  List.drop_append_of_le_length h

lemma data_tells (h : s.Ready rest) (hp : s.phase = .body) {count : ℕ} (hpos : 0 < count)
    (hc : count ≤ s.buffer.length)
    (ho : ∀ j < count, j + s.delimiter.length ≤ s.buffer.length ∧
      opening s.options.maxHeaderBytes s.eof s.delimiter (s.buffer.drop j) = .invalid) :
    (s.data count).2.Tells rest s (s.data count).1 := by
  have hevent := (Options.valid_bounds h.wf.valid).2.1
  set n := min count s.options.maxEventBytes with hn
  have hbytes := decode_bytes (s := s.whole rest) (c := n) hp
    (by simp only [State.whole, List.length_append]; omega) (by
      intro j hj
      obtain ⟨hlen, hinv⟩ := ho j (by omega)
      exact (whole_opening hlen (by simp [hinv]) h.eof).trans hinv)
  have hlimit : (s.whole rest).limit = s.limit := rfl
  have hpart : (s.whole rest).partBytes = s.partBytes := rfl
  rw [hlimit, hpart] at hbytes
  have hp' := h.wf.partBytes
  simp only [State.data, ← hn, sizeSub_eq hp']
  split
  · exact hbytes.2 hp' (by omega)
  · set event : Event := { kind := .data, partIndex := s.part, data := s.buffer.take n } with hevent
    have hfit : event.bytes ≤ s.options.maxRetainedBytes - (s.buffer.length - n) := by
      have := h.wf.retained
      simp only [hevent, Event.bytes, List.length_take, List.length_nil, Option.getD_none, List.map_nil, List.sum_nil]
      omega
    have hdel := deliver_fits h.wf h.credit (show n ≤ s.buffer.length by omega) hfit
    rcases deliver_cases (v := event) (h.wf.eventExact (show n ≤ s.buffer.length by omega)) with
      ⟨-, heq⟩ | ⟨-, heq⟩ | ⟨-, heq⟩
    · simp [heq] at hdel
    · simp [heq] at hdel
    · simp only [heq, ReadResult.isOk, ↓reduceIte]
      refine ⟨h.error, by simp [hp], by simp [hp], ?_, fun _ => ?_⟩
      · rw [hbytes.1 (by omega)]
        have hwhole : (s.whole rest).passBytes n = State.whole
            { s with credit := s.credit + event.bytes, buffer := s.buffer.drop n, partBytes := s.partBytes + n } rest := by
          simp only [State.whole, State.passBytes, drop_append_rest (show n ≤ s.buffer.length by omega)]
        have htake : (s.whole rest).buffer.take n = s.buffer.take n := by
          simp only [State.whole]
          rw [List.take_append_of_le_length (by omega)]
        rw [hwhole, htake]
        rfl
      · simp only [hevent, List.length_take]
        omega

lemma partEnd_tells (h : s.Ready rest) (hp : s.phase = .body) {final : Bool} {length : ℕ}
    (ho : opening s.options.maxHeaderBytes s.eof s.delimiter s.buffer = if final then .final length else .normal length) :
    (s.conclude (.partEnd final (s.delimiter.length + length))).2.Tells rest s
      (s.conclude (.partEnd final (s.delimiter.length + length))).1 := by
  have hend := opening_end (n := length) (by rw [ho]; cases final <;> simp)
  have hwhole := whole_opening (s := s) (j := 0) (by omega)
    (by rw [List.drop_zero, ho]; cases final <;> simp) h.eof
  simp only [List.drop_zero, ho] at hwhole
  have hdel := deliver_fits h.wf (v := { kind := .partEnd, partIndex := s.part }) h.credit hend.2 (by simp [Event.bytes])
  rcases deliver_cases (v := { kind := .partEnd, partIndex := s.part }) (h.wf.eventExact hend.2) with
    ⟨-, heq⟩ | ⟨-, heq⟩ | ⟨-, heq⟩
  · simp [heq] at hdel
  · simp [heq] at hdel
  · simp only [State.conclude, heq, ReadResult.isOk, ↓reduceIte]
    refine ⟨h.error, by cases final <;> simp [afterDelimiter], by cases final <;> simp [afterDelimiter], ?_, by simp⟩
    have hnext : (s.whole rest).next =
        .go [.partEnd s.part] ((s.whole rest).passDelimiter final (s.delimiter.length + length)) := by
      have hp' : (s.whole rest).phase = .body := hp
      simp only [State.next, hp']
      have hwhole' : opening (s.whole rest).options.maxHeaderBytes true (s.whole rest).delimiter (s.whole rest).buffer =
        if final then .final length else .normal length := hwhole
      rw [hwhole']
      cases final <;> rfl
    rw [decode_next hnext]
    simp only [State.whole, State.passDelimiter, drop_append_rest hend.2]
    rfl

lemma body_tells (h : s.Ready rest) (hp : s.phase = .body) : s.read.2.Tells rest s s.read.1 := by
  have hs := searchFuel_enough false (s := s) h.wf.delimiter_ne_nil
  have hsame := hs.frame.2 rfl
  have hfit := hs.fits h.wf.delimiter_ne_nil (by have := h.wf.delimiter_length; omega)
    (Options.valid_bounds h.wf.valid).1
  have htell := hs.tells h.wf.delimiter_ne_nil rfl
  simp only [State.read, h.error, State.scan, hp, State.scanBody]
  generalize s.search false s.searchFuel 0 = r at hsame hfit htell
  obtain ⟨s', found⟩ := r
  obtain rfl : s' = s := hsame
  cases found with
  | stop =>
    simp only [State.conclude]
    split
    · rename_i heof
      have hrest := h.eof heof
      subst hrest
      have hp' : (s'.whole []).phase = .body := hp
      rcases htell with hall | hmore
      · apply decode_unclosed hp'
        intro j
        simpa [heof] using hall j (Nat.zero_le j)
      · apply decode_fail
        have ho : opening (s'.whole []).options.maxHeaderBytes true (s'.whole []).delimiter (s'.whole []).buffer = .more := by
          simpa [heof] using hmore
        simp only [State.next, hp', ho]
    · rename_i heof
      exact ⟨by simpa using heof, h.error, rfl, rfl⟩
  | data count => exact data_tells h hp hfit.1 hfit.2 fun j hj => htell j (Nat.zero_le j) hj
  | delimiter final consumed =>
    cases final <;>
    · obtain ⟨length, rfl, ho⟩ := htell
      exact partEnd_tells h hp ho

lemma headers_whole (block : Bytes) : (s.whole rest).headers block = s.headers block := rfl

lemma scanHeaders_whole_some {length : ℕ} (rest : Bytes) (hf : find (crlf ++ crlf) s.buffer = some length) :
    (s.whole rest).scanHeaders.2 = s.scanHeaders.2 := by
  have hb := find_bound hf
  have hfour : (crlf ++ crlf).length = 4 := rfl
  have hfind : find (crlf ++ crlf) (s.whole rest).buffer = some length := find_append rest hf
  have htake : (s.whole rest).buffer.take length = s.buffer.take length := by
    rw [whole_buffer, List.take_append_of_le_length (by omega)]
  simp only [State.scanHeaders, hf, hfind, htake, headers_whole, whole_options]
  have hpart : (s.whole rest).part = s.part := rfl
  have hfiles : (s.whole rest).files = s.files := rfl
  simp only [hpart, hfiles]
  split_ifs
  · rfl
  · rfl
  split
  · rfl
  split_ifs <;> rfl

lemma scanHeaders_whole_large (hf : find (crlf ++ crlf) s.buffer = none)
    (hlen : s.options.maxHeaderBytes < s.buffer.length) : (s.whole rest).scanHeaders.2 = .fail .tooLarge := by
  simp only [State.scanHeaders]
  cases hfind : find (crlf ++ crlf) (s.whole rest).buffer with
  | none =>
    simp only
    rw [if_pos (by simp only [whole_options, whole_buffer, List.length_append]; omega)]
  | some length =>
    have := find_append_none hf hfind
    have hfour : (crlf ++ crlf).length = 4 := rfl
    simp only
    rw [if_pos (by simp only [whole_options]; omega)]

lemma partBegin_tells (h : s.Ready rest) (hp : s.phase = .headers) {event : Event} {consumed : ℕ}
    (he : s.scanHeaders.2 = .partBegin event consumed) (hk : event.kind = .partBegin)
    (hw : (s.whole rest).scanHeaders.2 = .partBegin event consumed) :
    (s.conclude (.partBegin event consumed)).2.Tells rest s (s.conclude (.partBegin event consumed)).1 := by
  obtain ⟨hc, hm, hb⟩ := (scanHeaders_fits (s := s)).2.partBegin event consumed he
  have hr := h.wf.input
  have hdel := deliver_fits h.wf (v := event) h.credit hc (by omega)
  rcases deliver_cases (v := event) (h.wf.eventExact hc) with ⟨-, heq⟩ | ⟨-, heq⟩ | ⟨-, heq⟩
  · simp [heq] at hdel
  · simp [heq] at hdel
  · simp only [State.conclude, heq, ReadResult.isOk, ↓reduceIte]
    refine ⟨h.error, by simp, by simp, ?_, by simp [hk]⟩
    have hnext : (s.whole rest).next = .go [.partBegin event] ((s.whole rest).beginPart event consumed) := by
      simp only [State.next, whole_phase, hp, hw]
    rw [decode_next hnext, Event.atoms, hk]
    simp only [State.whole, State.beginPart, drop_append_rest hc]

lemma scanHeaders_kind {event : Event} {consumed : ℕ} (h : s.scanHeaders.2 = .partBegin event consumed) :
    event.kind = .partBegin := by
  simp only [State.scanHeaders] at h
  split at h
  · split at h <;> cases h
  split at h
  · cases h
  split at h
  · cases h
  split at h
  · cases h
  rename_i event' he
  split at h
  · cases h
  · obtain ⟨rfl, -⟩ : event' = event ∧ _ := by simpa using h
    exact (headers_bytes he).1

lemma headers_tells (h : s.Ready rest) (hp : s.phase = .headers) : s.read.2.Tells rest s s.read.1 := by
  have hsame := (scanHeaders_fits (s := s)).1
  simp only [State.read, h.error, State.scan, hp, hsame]
  have hfail (hw : ∀ event consumed, (s.whole rest).scanHeaders.2 ≠ .partBegin event consumed) :
      (s.whole rest).decode = none := by
    apply decode_fail
    simp only [State.next, whole_phase, hp]
  have hcode := (scanHeaders_fits (s := s)).2.fail
  cases hf : find (crlf ++ crlf) s.buffer with
  | some length =>
    have hw := scanHeaders_whole_some rest hf
    cases he : s.scanHeaders.2 with
    | partBegin event consumed => exact partBegin_tells h hp he (scanHeaders_kind he) (hw.trans he)
    | fail code =>
      refine tells_error (hcode code he) (hfail ?_)
      rw [hw, he]
      simp
    | _ =>
      simp only [State.scanHeaders, hf] at he
      split_ifs at he
      split at he
      · cases he
      · split_ifs at he
  | none =>
    simp only [State.scanHeaders, hf]
    by_cases hlen : s.buffer.length > s.options.maxHeaderBytes
    · simp only [hlen, ↓reduceIte]
      refine tells_error (by simp) (hfail ?_)
      rw [scanHeaders_whole_large hf hlen]
      simp
    · simp only [hlen, ↓reduceIte, State.conclude]
      split
      · rename_i heof
        obtain rfl := h.eof heof
        refine hfail ?_
        have hfind : find (crlf ++ crlf) (s.whole []).buffer = none := by simpa using hf
        simp only [State.scanHeaders, hfind]
        split <;> simp
      · rename_i heof
        exact ⟨by simpa using heof, h.error, rfl, rfl⟩

lemma epilogue_tells (h : s.Ready rest) (hp : s.phase = .epilogue) : s.read.2.Tells rest s s.read.1 := by
  have hdone {s : State} (hp : s.phase = .epilogue) : (s.whole rest).decode = some [] :=
    decode_done (by simp only [State.next, whole_phase, hp])
  cases heof : s.eof with
  | true =>
    have hread : s.read = ({ s with buffer := [], phase := .done }, .null) := by
      simp [State.read, h.error, State.scan, hp, State.scanEpilogue, heof, State.conclude]
    rw [hread]
    exact ⟨heof, hdone hp⟩
  | false =>
    have hread : s.read = ({ s with buffer := [] }, .error .wouldBlock) := by
      simp [State.read, h.error, State.scan, hp, State.scanEpilogue, heof, State.conclude]
    rw [hread]
    exact ⟨heof, h.error, rfl, (hdone (s := { s with buffer := [] }) hp).trans (hdone hp).symm⟩

lemma read_tells (h : s.Ready rest) (hi : s.phase ≠ .initial) (hd : s.phase ≠ .done) : s.read.2.Tells rest s s.read.1 := by
  cases hp : s.phase with
  | initial => exact absurd hp hi
  | headers => exact headers_tells h hp
  | body => exact body_tells h hp
  | epilogue => exact epilogue_tells h hp
  | done => exact absurd hp hd

end Reading

end ServerCore.Web.Multipart
