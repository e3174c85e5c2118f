import ServerCore.Web.HttpSteps

/-! The buffered parser is a resumable stream decoder whose steps make progress. -/

namespace ServerCore.Web.HttpParser

open ServerCore.Core ServerCore.Foundations.StreamDecoder

section Invariants

variable {p q : HttpParser} {x rest : Bytes} {event : Option Event}

structure SameLimits (p q : HttpParser) : Prop where
  separateHeaders : q.separateHeaders = p.separateHeaders
  streaming : q.streaming = p.streaming
  maxHeaders : q.maxHeaders = p.maxHeaders

lemma SameLimits.trans {p q r : HttpParser} (h : SameLimits p q) (h' : SameLimits q r) : SameLimits p r :=
  ⟨h'.separateHeaders.trans h.separateHeaders, h'.streaming.trans h.streaming, h'.maxHeaders.trans h.maxHeaders⟩

def rank (p : HttpParser) : ℕ :=
  (match p.stage with
    | .headers => 0
    | .failed => 0
    | .fixedBody => 1
    | .chunkSize => 1
    | .chunkData => 2
    | .chunkEnd => 1
    | .trailers => 1) + if p.expectsContinue then 1 else 0

def potential (p : HttpParser) (input : Bytes) : ℕ := 3 * input.length + rank p

lemma rank_le (p : HttpParser) : rank p ≤ 3 := by
  unfold rank
  cases p.stage <;> cases p.expectsContinue <;> decide

lemma chunkSizeLine_ok {line : Bytes} (h : chunkSizeLine p line = .ok q) :
    SameLimits p q ∧ q.stage ≠ .headers ∧ q.expectsContinue = p.expectsContinue := by
  unfold chunkSizeLine at h
  repeat' split at h
  all_goals first
    | cases h; done
    | (obtain rfl := Except.ok.inj h; exact ⟨⟨rfl, rfl, rfl⟩, by simp, rfl⟩)

/-- The parser once the bytes `taken` have left it as a `Body` event. -/
def emitted (p : HttpParser) (taken : Bytes) : HttpParser :=
  { withBody p taken with request := { p.request with body := [] } }

inductive Goes (p : HttpParser) (x : Bytes) : Option Event → HttpParser → Bytes → Prop
  | head {z : Bytes} {blank : ℕ} {h : Head} (hs : p.stage = .headers)
      (hz : z = if p.headerSearch = 0 then skipEmptyLines x else x)
      (hf : scanHeaders z p.headerSearch (z.length - p.headerSearch) = .found blank)
      (hm : blank + 4 ≤ p.maxHeaders)
      (hp : parseHeaders p.maxBody p.head (z.take (blank + 2)) = .ok h) :
      Goes p x (if p.separateHeaders then some (.headers h.request) else none)
        (if p.separateHeaders then { entered p z h with request := {} } else entered p z h)
        (z.drop (blank + 4))
  | continue100 (hh : p.stage ≠ .headers) (hf : p.stage ≠ .failed) (hc : p.expectsContinue = true) :
      Goes p x (some .continue100) { p with expectsContinue := false } x
  | fixedPart (hs : p.stage = .fixedBody) (hc : p.expectsContinue = false) (hb : p.streaming = true)
      (ht : takeCount p x ≠ 0) :
      Goes p x (some (.body (p.request.body ++ x.take (takeCount p x))))
        (emitted p (x.take (takeCount p x))) (x.drop (takeCount p x))
  | fixedDone (hs : p.stage = .fixedBody) (hc : p.expectsContinue = false)
      (hb : p.streaming = true → takeCount p x = 0) (hr : p.remaining ≤ takeCount p x) :
      Goes p x (some (.complete (withBody p (x.take (takeCount p x))).request))
        (withBody p (x.take (takeCount p x))).completed (x.drop (takeCount p x))
  | sizeLine {n : ℕ} {p' : HttpParser} (hs : p.stage = .chunkSize) (hc : p.expectsContinue = false)
      (hl : readLine (sizeSub p.maxHeaders p.chunkOverhead) x = .line n)
      (hr : chunkSizeLine p (x.take n) = .ok p') : Goes p x none p' (x.drop (n + 2))
  | dataPart (hs : p.stage = .chunkData) (hc : p.expectsContinue = false) (hb : p.streaming = true)
      (ht : takeCount p x ≠ 0) :
      Goes p x (some (.body (p.request.body ++ x.take (takeCount p x))))
        { emitted p (x.take (takeCount p x)) with
          stage := if p.remaining ≤ takeCount p x then .chunkEnd else .chunkData }
        (x.drop (takeCount p x))
  | dataDone (hs : p.stage = .chunkData) (hc : p.expectsContinue = false)
      (hb : p.streaming = true → takeCount p x = 0) (hr : p.remaining ≤ takeCount p x) :
      Goes p x none { withBody p (x.take (takeCount p x)) with stage := .chunkEnd }
        (x.drop (takeCount p x))
  | dataEnd (hs : p.stage = .chunkEnd) (hc : p.expectsContinue = false) (hx : startsWith x crlf = true)
      (hl : 2 ≤ x.length) (ho : p.chunkOverhead ≤ sizeSub p.maxHeaders 2) :
      Goes p x none
        { p with
          chunkOverhead := if p.streaming then 0 else p.chunkOverhead + 2
          stage := .chunkSize } (x.drop 2)
  | trailer {n : ℕ} (hs : p.stage = .trailers) (hc : p.expectsContinue = false)
      (hl : readLine (sizeSub p.maxHeaders p.trailerBytes) x = .line n) (hn : n ≠ 0)
      (hv : validTrailer (x.take n) = true) :
      Goes p x none { p with trailerBytes := p.trailerBytes + (n + 2) } (x.drop (n + 2))
  | trailersDone (hs : p.stage = .trailers) (hc : p.expectsContinue = false)
      (hl : readLine (sizeSub p.maxHeaders p.trailerBytes) x = .line 0) :
      Goes p x (some (.complete p.request)) p.completed (x.drop 2)

lemma takeCount_le (p : HttpParser) (x : Bytes) : takeCount p x ≤ x.length ∧ takeCount p x ≤ p.remaining := by
  unfold takeCount
  omega

lemma takeBody_eq (p : HttpParser) (x : Bytes) (output : HttpRequest) :
    takeBody ⟨p, x, output⟩ = ⟨withBody p (x.take (takeCount p x)), x.drop (takeCount p x), output⟩ := by
  have hl : (x.take (takeCount p x)).length = takeCount p x := by
    rw [List.length_take]
    have := (takeCount_le p x).1
    omega
  simp only [takeBody, withBody, hl]

lemma withBody_remaining (p : HttpParser) (x : Bytes) :
    (withBody p (x.take (takeCount p x))).remaining = p.remaining - takeCount p x := by
  have := (takeCount_le p x).1
  simp only [withBody, List.length_take]
  omega

lemma scanStep_goes {z : Bytes} (hs : p.stage = .headers)
    (hz : z = if p.headerSearch = 0 then skipEmptyLines x else x)
    (h : scanStep p z = .go event q rest) : Goes p x event q rest := by
  unfold scanStep headersScanned at h
  dsimp only at h
  cases hf : scanHeaders z p.headerSearch (z.length - p.headerSearch) with
  | bad => simp [hf, fail, outcome] at h
  | none =>
    simp only [hf] at h
    split at h <;> simp [fail, outcome] at h
  | found blank =>
    simp only [hf] at h
    split at h
    · simp [fail, outcome] at h
    rename_i hm
    have hh : ({ p with headRequest := startsWith z (ascii "HEAD ") } : HttpParser).head = p.head := rfl
    rw [hh] at h
    cases hp : parseHeaders p.maxBody p.head (z.take (blank + 2)) with
    | error e => simp [hp, fail, outcome] at h
    | ok head =>
      have hg := Goes.head (x := x) hs hz hf (by omega) hp
      cases hb : p.separateHeaders <;>
        simp [hp, hb, withHead, outcome, HttpParser.event] at h <;>
        obtain ⟨rfl, rfl, rfl⟩ := h <;>
        simpa [hb, entered, withHead] using hg

lemma fixedBody_goes (hs : p.stage = .fixedBody) (hc : p.expectsContinue = false)
    (h : stageStep p x = .go event q rest) : Goes p x event q rest := by
  simp only [stageStep, stageFlow, hs, hc, Bool.false_eq_true, if_false, fixedBodyBlock, takeBody_eq,
    withBody_remaining, ne_eq, not_true_eq_false] at h
  split at h
  · rename_i hb
    simp only [Bool.and_eq_true, bne_iff_ne, ne_eq] at hb
    simp only [emitBody, outcome, HttpParser.event, Outcome.go.injEq] at h
    obtain ⟨rfl, rfl, rfl⟩ := h
    exact .fixedPart hs hc hb.1 hb.2
  · rename_i hb
    have hb' : p.streaming = true → takeCount p x = 0 := by simpa using hb
    split at h
    · simp only [complete, outcome, HttpParser.event, Outcome.go.injEq] at h
      obtain ⟨rfl, rfl, rfl⟩ := h
      exact .fixedDone hs hc hb' (by omega)
    · simp [outcome] at h

lemma chunkData_goes (hs : p.stage = .chunkData) (hc : p.expectsContinue = false)
    (h : stageStep p x = .go event q rest) : Goes p x event q rest := by
  simp only [stageStep, stageFlow, hs, hc, Bool.false_eq_true, if_false, chunkDataBlock, takeBody_eq,
    ne_eq, not_true_eq_false] at h
  split at h
  · rename_i hb
    simp only [Bool.and_eq_true, bne_iff_ne, ne_eq] at hb
    have hg := Goes.dataPart hs hc hb.1 hb.2
    split at h <;> rename_i hr <;> rw [withBody_remaining] at hr <;>
      simp only [emitBody, outcome, HttpParser.event, Outcome.go.injEq] at h <;>
      obtain ⟨rfl, rfl, rfl⟩ := h
    · rwa [if_pos (by omega)] at hg
    · rw [if_neg (by omega), ← hs] at hg
      exact hg
  · rename_i hb
    have hb' : p.streaming = true → takeCount p x = 0 := by simpa using hb
    split at h
    · simp [outcome] at h
    · rename_i hr
      rw [withBody_remaining] at hr
      simp only [outcome, Outcome.go.injEq] at h
      obtain ⟨rfl, rfl, rfl⟩ := h
      exact .dataDone hs hc hb' (by omega)

lemma chunkSize_goes (hs : p.stage = .chunkSize) (hc : p.expectsContinue = false)
    (h : stageStep p x = .go event q rest) : Goes p x event q rest := by
  rw [step_chunkSize x hs hc] at h
  cases hl : readLine (sizeSub p.maxHeaders p.chunkOverhead) x with
  | wait => simp [chunkSizeBlock, hs, hl, outcome] at h
  | tooLong => simp [chunkSizeBlock, hs, hl, fail, outcome] at h
  | line n =>
    cases hr : chunkSizeLine p (x.take n) with
    | error e => simp [chunkSizeBlock, hs, hl, hr, fail, outcome] at h
    | ok p' =>
      simp only [chunkSizeBlock, hs, hl, hr, outcome, ne_eq, not_true_eq_false, if_false,
        Outcome.go.injEq] at h
      obtain ⟨rfl, rfl, rfl⟩ := h
      exact .sizeLine hs hc hl hr

lemma chunkEnd_goes (hs : p.stage = .chunkEnd) (hc : p.expectsContinue = false)
    (h : stageStep p x = .go event q rest) : Goes p x event q rest := by
  rw [step_chunkEnd x hs hc] at h
  simp only [chunkEndBlock, hs, ne_eq, not_true_eq_false, if_false] at h
  split at h
  · simp [outcome] at h
  split at h
  · simp [fail, outcome] at h
  split at h
  · simp [fail, outcome] at h
  rename_i hlen hx ho
  simp only [outcome, Outcome.go.injEq] at h
  obtain ⟨rfl, rfl, rfl⟩ := h
  exact .dataEnd hs hc (by simpa using hx) (by omega) (by omega)

lemma trailers_goes (hs : p.stage = .trailers) (hc : p.expectsContinue = false)
    (h : stageStep p x = .go event q rest) : Goes p x event q rest := by
  rw [step_trailers x hs hc] at h
  cases hl : readLine (sizeSub p.maxHeaders p.trailerBytes) x with
  | wait => simp [trailersBlock, hs, hl, outcome] at h
  | tooLong => simp [trailersBlock, hs, hl, fail, outcome] at h
  | line n =>
    simp only [trailersBlock, hl, if_neg (not_not_intro hs)] at h
    split at h
    · rename_i hn
      simp only [complete, outcome, HttpParser.event, Outcome.go.injEq] at h
      obtain ⟨rfl, rfl, rfl⟩ := h
      exact .trailersDone hs hc (hn ▸ hl)
    split at h
    · simp [fail, outcome] at h
    · rename_i hn hv
      simp only [outcome, Outcome.go.injEq] at h
      obtain ⟨rfl, rfl, rfl⟩ := h
      exact .trailer hs hc hl hn (by simpa using hv)

lemma step_goes (h : stageStep p x = .go event q rest) : Goes p x event q rest := by
  by_cases hh : p.stage = .headers
  · rw [step_headers x hh] at h
    split at h
    · rename_i h0
      split at h
      · cases h
      · exact scanStep_goes hh (by rw [if_pos h0]) h
    · rename_i h0
      exact scanStep_goes hh (by rw [if_neg h0]) h
  by_cases hf : p.stage = .failed
  · simp [stageStep, stageFlow, hf, failedBlock, outcome] at h
  cases hc : p.expectsContinue with
  | true =>
    rw [step_continue p x hh hf hc] at h
    obtain ⟨rfl, rfl, rfl⟩ : _ ∧ _ ∧ _ := by simpa using h
    exact .continue100 hh hf hc
  | false =>
    cases hs : p.stage with
    | headers => exact absurd hs hh
    | failed => exact absurd hs hf
    | fixedBody => exact fixedBody_goes hs hc h
    | chunkSize => exact chunkSize_goes hs hc h
    | chunkData => exact chunkData_goes hs hc h
    | chunkEnd => exact chunkEnd_goes hs hc h
    | trailers => exact trailers_goes hs hc h

lemma descends_of_read (h : rest.length + 2 ≤ x.length) : potential q rest < potential p x := by
  have := rank_le q
  simp only [potential]
  omega

lemma Goes.descends (h : Goes p x event q rest) : potential q rest < potential p x := by
  have hcount := (takeCount_le p x).1
  cases h with
  | @head z blank head hs hz hf hm hp =>
    have hb := scanHeaders_found hf
    have hlen : z.length ≤ x.length := by
      rw [hz]
      split
      · exact skipEmptyLines_length_le x
      · exact le_rfl
    apply descends_of_read
    simp only [List.length_drop]
    omega
  | continue100 hh hf hc => simp [potential, rank, hc]
  | fixedPart hs hc hb ht =>
    have hrank : rank (emitted p (x.take (takeCount p x))) = rank p := rfl
    simp only [potential, hrank, List.length_drop]
    omega
  | fixedDone hs hc hb hr =>
    simp only [potential, rank, completed, hs, hc, List.length_drop, Bool.false_eq_true, if_false]
    omega
  | dataPart hs hc hb ht =>
    have hexp : (emitted p (x.take (takeCount p x))).expectsContinue = p.expectsContinue := rfl
    simp only [potential, rank, hs, hc, hexp, List.length_drop, Bool.false_eq_true, if_false]
    split <;> omega
  | dataDone hs hc hb hr =>
    have hexp : (withBody p (x.take (takeCount p x))).expectsContinue = p.expectsContinue := rfl
    simp only [potential, rank, hs, hc, hexp, List.length_drop, Bool.false_eq_true, if_false]
    omega
  | dataEnd hs hc hx hl ho =>
    apply descends_of_read
    simp only [List.length_drop]
    omega
  | sizeLine hs hc hl hr | trailer hs hc hl hn hv | trailersDone hs hc hl =>
    have hn := (readLine_line [] hl).2
    apply descends_of_read
    simp only [List.length_drop]
    omega

lemma Goes.limits (h : Goes p x event q rest) : SameLimits p q := by
  cases h with
  | head hs hz hf hm hp => split <;> exact ⟨rfl, rfl, rfl⟩
  | sizeLine hs hc hl hr => exact (chunkSizeLine_ok hr).1
  | _ => exact ⟨rfl, rfl, rfl⟩

lemma Goes.fresh (h : Goes p x event q rest) (hq : q.stage = .headers) :
    q.headerSearch = 0 ∧ q.headRequest = false := by
  cases h with
  | head hs hz hf hm hp =>
    have hst : (if p.separateHeaders = true then { entered p _ _ with request := {} } else entered p _ _).stage =
        _ := hq
    rcases parseHeaders_stage hp with h' | h' <;> split at hst <;> simp [entered, withHead, h'] at hst
  | continue100 hh hf hc => exact absurd hq hh
  | fixedPart hs hc hb ht => simp [emitted, withBody, hs] at hq
  | fixedDone hs hc hb hr => exact ⟨rfl, rfl⟩
  | sizeLine hs hc hl hr => exact absurd hq (chunkSizeLine_ok hr).2.1
  | dataPart hs hc hb ht =>
    dsimp only at hq
    split at hq <;> cases hq
  | dataDone hs hc hb hr => cases hq
  | dataEnd hs hc hx hl ho => cases hq
  | trailer hs hc hl hn hv => simp [hs] at hq
  | trailersDone hs hc hl => exact ⟨rfl, rfl⟩

lemma Goes.of_headers (h : Goes p x event q rest) (hs : p.stage = .headers) :
    ∃ z blank head, (z = if p.headerSearch = 0 then skipEmptyLines x else x) ∧
      scanHeaders z p.headerSearch (z.length - p.headerSearch) = .found blank ∧
      blank + 4 ≤ p.maxHeaders ∧ parseHeaders p.maxBody p.head (z.take (blank + 2)) = .ok head ∧
      (event = if p.separateHeaders then some (.headers head.request) else none) ∧
      (q = if p.separateHeaders then { entered p z head with request := {} } else entered p z head) ∧
      rest = z.drop (blank + 4) := by
  cases h with
  | head _ hz hf hm hp => exact ⟨_, _, _, hz, hf, hm, hp, rfl, rfl, rfl⟩
  | continue100 hh => exact absurd hs hh
  | fixedPart hs' | fixedDone hs' | sizeLine hs' | dataPart hs' | dataDone hs' | dataEnd hs' | trailer hs'
    | trailersDone hs' =>
    rw [hs] at hs'
    cases hs'

lemma scanStep_need (hb : p.separateHeaders = false) (h : scanStep p x = .need q rest) :
    q = waiting p x ∧ rest = x := by
  rw [scanStep_eq _ hb] at h
  split at h
  · cases h
  · split at h
    · cases h
    · obtain ⟨rfl, rfl⟩ : _ ∧ _ := by simpa using h
      exact ⟨rfl, rfl⟩
  · split at h
    · cases h
    split at h <;> cases h

lemma waiting_buffered (hi : Buffered p x) (z : Bytes) : Buffered (waiting p z) z where
  whole := hi.whole
  stored := hi.stored
  limit := hi.limit
  scanned _ := le_refl _
  fresh _ h := by
    obtain rfl : z = [] := by simpa [waiting] using h
    rfl

lemma step_need_stage (hi : Buffered p x) (hh : p.stage ≠ .headers)
    (h : stageStep p x = .need q rest) : SameLimits p q ∧ q.stage = p.stage := by
  by_cases hf : p.stage = .failed
  · simp [stageStep, stageFlow, hf, failedBlock, outcome] at h
  cases hc : p.expectsContinue with
  | true =>
    rw [step_continue p x hh hf hc] at h
    cases h
  | false =>
    cases hs : p.stage with
    | headers => exact absurd hs hh
    | failed => exact absurd hs hf
    | fixedBody =>
      rw [step_fixedBody x hs hc hi.stored] at h
      split at h <;> cases h
      exact ⟨⟨rfl, rfl, rfl⟩, hs⟩
    | chunkData =>
      rw [step_chunkData x hs hc hi.stored] at h
      split at h <;> cases h
      exact ⟨⟨rfl, rfl, rfl⟩, hs⟩
    | chunkSize =>
      cases hl : readLine (sizeSub p.maxHeaders p.chunkOverhead) x with
      | wait =>
        simp [step_chunkSize x hs hc, chunkSizeBlock, hs, hl, outcome] at h
        obtain ⟨rfl, rfl⟩ := h
        exact ⟨⟨rfl, rfl, rfl⟩, hs⟩
      | tooLong => simp [step_chunkSize x hs hc, chunkSizeBlock, hs, hl, fail, outcome] at h
      | line n =>
        cases hr : chunkSizeLine p (x.take n) <;>
          simp [step_chunkSize x hs hc, chunkSizeBlock, hs, hl, hr, fail, outcome] at h
    | chunkEnd =>
      by_cases hlen : x.length < 2
      · simp [step_chunkEnd x hs hc, chunkEndBlock, hs, hlen, outcome] at h
        obtain ⟨rfl, rfl⟩ := h
        exact ⟨⟨rfl, rfl, rfl⟩, hs⟩
      by_cases hx : startsWith x crlf = true
      · by_cases ho : p.chunkOverhead > sizeSub p.maxHeaders 2 <;>
          simp [step_chunkEnd x hs hc, chunkEndBlock, hs, hlen, hx, ho, fail, outcome] at h
      · simp [step_chunkEnd x hs hc, chunkEndBlock, hs, hlen, hx, fail, outcome] at h
    | trailers =>
      cases hl : readLine (sizeSub p.maxHeaders p.trailerBytes) x with
      | wait =>
        simp [step_trailers x hs hc, trailersBlock, hs, hl, outcome] at h
        obtain ⟨rfl, rfl⟩ := h
        exact ⟨⟨rfl, rfl, rfl⟩, hs⟩
      | tooLong => simp [step_trailers x hs hc, trailersBlock, hs, hl, fail, outcome] at h
      | line n =>
        rw [step_trailers x hs hc] at h
        unfold trailersBlock at h
        simp only [hs, hl, ne_eq, not_true_eq_false, if_false] at h
        repeat' split at h
        all_goals simp [fail, complete, outcome, event] at h

lemma chunkSizeLine_headerSearch (p : HttpParser) (n : ℕ) (line : Bytes) :
    chunkSizeLine (p.withSearch n) line =
      match chunkSizeLine p line with
      | .error (status, q) => .error (status, q.withSearch n)
      | .ok q => .ok (q.withSearch n) := by
  unfold chunkSizeLine
  cases chunkLength line with
  | error status => rfl
  | ok m =>
    by_cases hm : m > sizeSub p.maxBody p.bodyBytes
    · simp only [withSearch_maxBody, withSearch_bodyBytes, hm, ↓reduceIte]
      rfl
    · simp only [withSearch_maxBody, withSearch_bodyBytes, hm, ↓reduceIte]
      rfl

lemma agree_withSearch (n : ℕ) (h : p.stage ≠ .headers) : Agree p (p.withSearch n) :=
  ⟨rfl, fun h' => absurd h' h⟩

lemma step_withSearch (n : ℕ) (hi : Buffered p x) (hh : p.stage ≠ .headers) :
    Outcome.Rel Agree (stageStep p x) (stageStep (p.withSearch n) x) := by
  by_cases hf : p.stage = .failed
  · simp only [stageStep, stageFlow, withSearch_stage, hf, failedBlock, outcome, if_true]
    exact .fail
  cases hc : p.expectsContinue with
  | true =>
    rw [step_continue p x hh hf hc, step_continue (p.withSearch n) x hh hf hc]
    exact .go ⟨rfl, fun h => absurd h hh⟩
  | false =>
    cases hs : p.stage with
    | headers => exact absurd hs hh
    | failed => exact absurd hs hf
    | fixedBody =>
      rw [step_fixedBody x hs hc hi.stored,
        step_fixedBody (p := p.withSearch n) x hs hc hi.stored, withSearch_remaining]
      split
      · exact rel_refl _
      · exact .need ⟨rfl, fun h => absurd h hh⟩
    | chunkData =>
      rw [step_chunkData x hs hc hi.stored,
        step_chunkData (p := p.withSearch n) x hs hc hi.stored, withSearch_remaining]
      split
      · exact .go ⟨rfl, by simp⟩
      · exact .need ⟨rfl, fun h => absurd h hh⟩
    | chunkSize =>
      rw [step_chunkSize x hs hc, step_chunkSize (p := p.withSearch n) x hs hc]
      simp only [chunkSizeBlock, withSearch_stage, withSearch_maxHeaders, withSearch_chunkOverhead, hs,
        ne_eq, not_true_eq_false, if_false, chunkSizeLine_headerSearch]
      split
      · exact .need ⟨rfl, fun h => absurd h hh⟩
      · exact .fail
      · cases hr : chunkSizeLine p (x.take _) with
        | error e => exact .fail
        | ok r => exact .go (agree_withSearch n (chunkSizeLine_ok hr).2.1)
    | chunkEnd =>
      rw [step_chunkEnd x hs hc, step_chunkEnd (p := p.withSearch n) x hs hc]
      simp only [chunkEndBlock, withSearch_stage, withSearch_maxHeaders, withSearch_chunkOverhead, hs,
        ne_eq, not_true_eq_false, if_false]
      by_cases hlen : x.length < 2
      · simp only [hlen, ↓reduceIte]
        exact .need ⟨rfl, fun h => absurd h hh⟩
      by_cases hx : (!startsWith x crlf) = true
      · simp only [hlen, hx, ↓reduceIte]
        exact .fail
      by_cases ho : p.chunkOverhead > sizeSub p.maxHeaders 2
      · simp only [hlen, hx, ho, ↓reduceIte]
        exact .fail
      · simp only [hlen, hx, ho, ↓reduceIte]
        exact .go ⟨rfl, by simp⟩
    | trailers =>
      rw [step_trailers x hs hc, step_trailers (p := p.withSearch n) x hs hc]
      simp only [trailersBlock, withSearch_stage, withSearch_maxHeaders, withSearch_trailerBytes, hs,
        ne_eq, not_true_eq_false, if_false]
      cases readLine (sizeSub p.maxHeaders p.trailerBytes) x with
      | wait => exact .need ⟨rfl, fun h => absurd h hh⟩
      | tooLong => exact .fail
      | line m =>
        by_cases h0 : m = 0
        · simp only [h0, ↓reduceIte]
          exact rel_refl _
        by_cases hv : (!validTrailer (x.take m)) = true
        · simp only [h0, hv, ↓reduceIte]
          exact .fail
        · simp only [h0, hv, ↓reduceIte]
          exact .go ⟨rfl, by simp⟩

lemma step_congr (hi : Buffered p x) (h : Agree p q) :
    Outcome.Rel Agree (stageStep p x) (stageStep q x) := by
  obtain ⟨hq, hsame⟩ := h
  by_cases hh : p.stage = .headers
  · obtain rfl : p = q := by rw [hq, ← hsame hh]; rfl
    exact rel_refl _
  · rw [hq]
    exact step_withSearch _ hi hh

lemma buffered_need (hi : Buffered p x) (h : stageStep p x = .need q rest) : Buffered q rest := by
  by_cases hh : p.stage = .headers
  · rw [step_headers x hh] at h
    split at h
    · split at h
      · rename_i h0 _
        obtain ⟨rfl, rfl⟩ : _ ∧ _ := by simpa using h
        exact ⟨hi.whole, hi.stored, hi.limit, fun _ => by simp [h0], hi.fresh⟩
      · obtain ⟨rfl, rfl⟩ := scanStep_need hi.whole h
        exact waiting_buffered hi _
    · obtain ⟨rfl, rfl⟩ := scanStep_need hi.whole h
      exact waiting_buffered hi _
  · obtain ⟨hl, hs⟩ := step_need_stage hi hh h
    have hh' : q.stage ≠ .headers := hs ▸ hh
    exact ⟨hl.separateHeaders ▸ hi.whole, hl.streaming ▸ hi.stored, hl.maxHeaders ▸ hi.limit,
      fun h' => absurd h' hh', fun h' => absurd h' hh'⟩

lemma buffered_go (hi : Buffered p x) (h : stageStep p x = .go event q rest) : Buffered q rest := by
  have hg := step_goes h
  have hl := hg.limits
  exact ⟨hl.separateHeaders ▸ hi.whole, hl.streaming ▸ hi.stored, hl.maxHeaders ▸ hi.limit,
    fun h' => by simp [(hg.fresh h').1], fun h' _ => (hg.fresh h').2⟩

end Invariants

theorem resumable : Resumable stageStep Buffered Agree where
  refl := Agree.refl
  trans _ _ _ := Agree.trans
  inv_mono p x y hi := ⟨hi.whole, hi.stored, hi.limit,
    fun h => (hi.scanned h).trans (by simp), hi.fresh⟩
  inv_need _ _ _ _ := buffered_need
  inv_go _ _ _ _ _ := buffered_go
  congr _ _ _ h hi := step_congr hi h
  need_append p x q rest y hi h := by
    have he := stage_extends x y hi
    simpa only [Extends, h] using he
  go_append p x event q rest y hi h := by
    have he := stage_extends x y hi
    simpa only [Extends, h] using he
  fail_append p x y hi h := by
    have he := stage_extends x y hi
    simpa only [Extends, h] using he

end ServerCore.Web.HttpParser
