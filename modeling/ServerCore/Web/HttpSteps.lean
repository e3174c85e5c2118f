import ServerCore.Foundations.StreamDecoder
import ServerCore.Web.HttpStages

/-! One stage of the parser as a step of a stream decoder, and what the step on
some input becomes when more input stands behind it. -/

namespace ServerCore.Web.HttpParser

open ServerCore.Core ServerCore.Foundations.StreamDecoder

/-- What a caller of `Parse` sees besides `NeedMore` and `Error`. -/
inductive Event
  | headers (request : HttpRequest)
  | continue100
  | body (bytes : Bytes)
  | complete (request : HttpRequest)
  deriving DecidableEq, Repr

def event (c : Cursor) : HttpParseKind → Option Event
  | .needMore => none
  | .continue100 => some .continue100
  | .complete => some (.complete c.output)
  | .error => none
  | .headers => some (.headers c.output)
  | .body => some (.body c.output.body)

def outcome : Flow → Outcome HttpParser Byte Event
  | .ret ⟨.needMore, _⟩ c => .need c.parser c.input
  | .ret ⟨.error, _⟩ _ => .fail
  | .ret ⟨kind, _⟩ c => .go (event c kind) c.parser c.input
  | .next c => .go none c.parser c.input
  | .again c => .go none c.parser c.input

def stageStep (p : HttpParser) (input : Bytes) : Outcome HttpParser Byte Event :=
  outcome (stageFlow ⟨p, input, {}⟩)

/-- Buffered mode with a usable header limit; the scan offset never runs ahead of the bytes that
have arrived. -/
structure Buffered (p : HttpParser) (input : Bytes) : Prop where
  whole : p.separateHeaders = false
  stored : p.streaming = false
  limit : 0 < p.maxHeaders
  scanned : p.stage = .headers → p.headerSearch ≤ input.length
  fresh : p.stage = .headers → p.headerSearch = 0 → p.headRequest = false

@[simps] def withSearch (p : HttpParser) (n : ℕ) : HttpParser := { p with headerSearch := n }

def Agree (p q : HttpParser) : Prop :=
  q = p.withSearch q.headerSearch ∧ (p.stage = .headers → p.headerSearch = q.headerSearch)

lemma Agree.refl (p : HttpParser) : Agree p p := ⟨rfl, fun _ => rfl⟩

lemma Agree.trans {p q r : HttpParser} (h : Agree p q) (h' : Agree q r) : Agree p r := by
  obtain ⟨hq, hs⟩ := h
  obtain ⟨hr, ht⟩ := h'
  have hst : q.stage = p.stage := by rw [hq]; rfl
  refine ⟨by rw [hr, hq]; rfl, fun hp => ?_⟩
  rw [hs hp, ht (hst.trans hp)]

section Steps

variable (p : HttpParser) (x y : Bytes)

lemma takeCount_buffered (hb : p.streaming = false) : takeCount p x = min x.length p.remaining := by
  simp [takeCount, hb]

def withBody (p : HttpParser) (taken : Bytes) : HttpParser :=
  { p with
    request := { p.request with body := p.request.body ++ taken }
    remaining := p.remaining - taken.length
    bodyBytes := p.bodyBytes + taken.length }

lemma takeBody_buffered (hb : p.streaming = false) (output : HttpRequest) :
    takeBody ⟨p, x, output⟩ = ⟨withBody p (x.take p.remaining), x.drop p.remaining, output⟩ := by
  rcases Nat.le_total p.remaining x.length with h | h
  · simp [takeBody, takeCount_buffered p x hb, withBody, h]
  · simp [takeBody, takeCount_buffered p x hb, withBody, h, List.take_of_length_le h]

lemma withBody_append (taken : Bytes) :
    withBody (withBody p x) taken = withBody p (x ++ taken) := by
  simp only [withBody, List.append_assoc, List.length_append]
  congr 1 <;> omega

lemma step_continue (hs : p.stage ≠ .headers) (hf : p.stage ≠ .failed)
    (hc : p.expectsContinue = true) :
    stageStep p x = .go (some .continue100) { p with expectsContinue := false } x := by
  cases h : p.stage <;>
    simp_all [stageStep, stageFlow, continueBlock, outcome, event]

variable {p}

lemma step_fixedBody (hs : p.stage = .fixedBody) (hc : p.expectsContinue = false)
    (hb : p.streaming = false) :
    stageStep p x = if p.remaining ≤ x.length
      then .go (some (.complete (withBody p (x.take p.remaining)).request))
        (withBody p (x.take p.remaining)).completed (x.drop p.remaining)
      else .need (withBody p x) [] := by
  by_cases h : p.remaining ≤ x.length
  · simp [stageStep, stageFlow, hs, hc, fixedBodyBlock, takeBody_buffered p x hb, hb, withBody,
      complete, outcome, event, completed, h]
  · have ht : x.take p.remaining = x := List.take_of_length_le (by omega)
    have hd : x.drop p.remaining = [] := List.drop_of_length_le (by omega)
    have hr : p.remaining - x.length ≠ 0 := by omega
    simp [stageStep, stageFlow, hs, hc, fixedBodyBlock, takeBody_buffered p x hb, hb, withBody,
      outcome, ht, hd, hr, h]

lemma step_chunkData (hs : p.stage = .chunkData) (hc : p.expectsContinue = false)
    (hb : p.streaming = false) :
    stageStep p x = if p.remaining ≤ x.length
      then .go none { withBody p (x.take p.remaining) with stage := .chunkEnd } (x.drop p.remaining)
      else .need (withBody p x) [] := by
  by_cases h : p.remaining ≤ x.length
  · simp [stageStep, stageFlow, hs, hc, chunkDataBlock, takeBody_buffered p x hb, hb, withBody,
      outcome, h]
  · have ht : x.take p.remaining = x := List.take_of_length_le (by omega)
    have hd : x.drop p.remaining = [] := List.drop_of_length_le (by omega)
    have hr : p.remaining - x.length ≠ 0 := by omega
    simp [stageStep, stageFlow, hs, hc, chunkDataBlock, takeBody_buffered p x hb, hb, withBody,
      outcome, ht, hd, hr, h]

lemma step_chunkEnd (hs : p.stage = .chunkEnd) (hc : p.expectsContinue = false) :
    stageStep p x = outcome (chunkEndBlock ⟨p, x, {}⟩) := by
  simp [stageStep, stageFlow, hs, hc]

lemma step_chunkSize (hs : p.stage = .chunkSize) (hc : p.expectsContinue = false) :
    stageStep p x = outcome (chunkSizeBlock ⟨p, x, {}⟩) := by
  simp [stageStep, stageFlow, hs, hc]

lemma step_trailers (hs : p.stage = .trailers) (hc : p.expectsContinue = false) :
    stageStep p x = outcome (trailersBlock ⟨p, x, {}⟩) := by
  simp [stageStep, stageFlow, hs, hc]

end Steps

/-- What more input behind `x` changes in the step on `x`: nothing, unless the step was blocked,
and then the whole step is the resumed one. -/
def Extends (p : HttpParser) (x y : Bytes) : Prop :=
  match stageStep p x with
  | .need q rest => Outcome.Rel Agree (stageStep q (rest ++ y)) (stageStep p (x ++ y))
  | .go event q rest => stageStep p (x ++ y) = .go event q (rest ++ y)
  | .fail => stageStep p (x ++ y) = .fail

lemma rel_refl (o : Outcome HttpParser Byte Event) : Outcome.Rel Agree o o := by
  cases o with
  | need p => exact .need (.refl p)
  | go _ p => exact .go (.refl p)
  | fail => exact .fail

section Extension

variable {p : HttpParser} (x y : Bytes)

lemma extends_of_unread (h : stageStep p x = .need p x) : Extends p x y := by
  simp only [Extends, h]
  exact rel_refl _

lemma extends_body (e : HttpParser → Option Event) (next : HttpParser → HttpParser)
    (hc : p.expectsContinue = false) (hb : p.streaming = false)
    (hstep : ∀ q z, q.stage = p.stage → q.expectsContinue = false → q.streaming = false →
      stageStep q z = if q.remaining ≤ z.length
        then .go (e (withBody q (z.take q.remaining))) (next (withBody q (z.take q.remaining)))
          (z.drop q.remaining)
        else .need (withBody q z) []) : Extends p x y := by
  by_cases h : p.remaining ≤ x.length
  · have h' : p.remaining ≤ (x ++ y).length := by rw [List.length_append]; omega
    simp only [Extends, hstep p _ rfl hc hb, if_pos h, if_pos h',
      List.take_append_of_le_length h, List.drop_append_of_le_length h]
  · have hx : x.length ≤ p.remaining := by omega
    have ht : (x ++ y).take p.remaining = x ++ y.take (p.remaining - x.length) := by
      rw [List.take_append, List.take_of_length_le hx]
    have hd : (x ++ y).drop p.remaining = y.drop (p.remaining - x.length) := by
      rw [List.drop_append, List.drop_of_length_le hx, List.nil_append]
    have hw : stageStep (withBody p x) ([] ++ y) = stageStep p (x ++ y) := by
      rw [List.nil_append, hstep (withBody p x) _ rfl hc hb, hstep p _ rfl hc hb, ht, hd,
        ← withBody_append, ← withBody_append]
      simp only [List.length_append, withBody, Nat.sub_le_iff_le_add, Nat.add_comm]
    simp only [Extends, hstep p x rfl hc hb, if_neg h, hw]
    exact rel_refl _

lemma extends_chunkSize (hs : p.stage = .chunkSize) (hc : p.expectsContinue = false) :
    Extends p x y := by
  cases hl : readLine (sizeSub p.maxHeaders p.chunkOverhead) x with
  | wait =>
    apply extends_of_unread
    simp [step_chunkSize x hs hc, chunkSizeBlock, hs, hl, outcome]
  | tooLong =>
    simp [Extends, step_chunkSize _ hs hc, chunkSizeBlock, hs, hl, readLine_tooLong y hl, fail, outcome]
  | line n =>
    obtain ⟨hy, hn⟩ := readLine_line y hl
    have ht : (x ++ y).take n = x.take n := List.take_append_of_le_length (by omega)
    have hd : (x ++ y).drop (n + 2) = x.drop (n + 2) ++ y := List.drop_append_of_le_length hn
    cases hr : chunkSizeLine p (x.take n) with
    | error e => simp [Extends, step_chunkSize _ hs hc, chunkSizeBlock, hs, hl, hy, ht, hr, fail, outcome]
    | ok q => simp [Extends, step_chunkSize _ hs hc, chunkSizeBlock, hs, hl, hy, ht, hd, hr, outcome]

lemma extends_trailers (hs : p.stage = .trailers) (hc : p.expectsContinue = false) :
    Extends p x y := by
  cases hl : readLine (sizeSub p.maxHeaders p.trailerBytes) x with
  | wait =>
    apply extends_of_unread
    simp [step_trailers x hs hc, trailersBlock, hs, hl, outcome]
  | tooLong =>
    simp [Extends, step_trailers _ hs hc, trailersBlock, hs, hl, readLine_tooLong y hl, fail, outcome]
  | line n =>
    obtain ⟨hy, hn⟩ := readLine_line y hl
    have ht : (x ++ y).take n = x.take n := List.take_append_of_le_length (by omega)
    have hd : (x ++ y).drop (n + 2) = x.drop (n + 2) ++ y := List.drop_append_of_le_length hn
    have hd₂ : (x ++ y).drop 2 = x.drop 2 ++ y := List.drop_append_of_le_length (by omega)
    by_cases h0 : n = 0
    · simp [Extends, step_trailers _ hs hc, trailersBlock, hs, hl, hy, h0, hd₂, complete, outcome, event]
    · cases hv : validTrailer (x.take n) with
      | false => simp [Extends, step_trailers _ hs hc, trailersBlock, hs, hl, hy, h0, ht, hv, fail, outcome]
      | true => simp [Extends, step_trailers _ hs hc, trailersBlock, hs, hl, hy, h0, ht, hd, hv, outcome]

lemma extends_chunkEnd (hs : p.stage = .chunkEnd) (hc : p.expectsContinue = false) :
    Extends p x y := by
  by_cases hl : x.length < 2
  · apply extends_of_unread
    simp [step_chunkEnd x hs hc, chunkEndBlock, hs, hl, outcome]
  · have hl' : ¬ (x ++ y).length < 2 := by rw [List.length_append]; omega
    have hp : startsWith (x ++ y) crlf = startsWith x crlf := isPrefixOf_append (by simp [crlf]; omega)
    have hd : (x ++ y).drop 2 = x.drop 2 ++ y := List.drop_append_of_le_length (by omega)
    simp only [Extends, step_chunkEnd _ hs hc, chunkEndBlock, hs, hl, hl', hp, hd, if_false, ne_eq,
      not_true_eq_false]
    by_cases hx : startsWith x crlf = true
    · by_cases ho : p.chunkOverhead > sizeSub p.maxHeaders 2
      · simp [hx, ho, fail, outcome]
      · simp [hx, ho, outcome]
    · simp [hx, fail, outcome]

def scanStep (p : HttpParser) (input : Bytes) : Outcome HttpParser Byte Event :=
  outcome (headersScanned ⟨p, input, {}⟩)

def waiting (p : HttpParser) (input : Bytes) : HttpParser :=
  { p with headRequest := startsWith input (ascii "HEAD "), headerSearch := input.length }

def entered (p : HttpParser) (input : Bytes) (h : Head) : HttpParser :=
  { p with headRequest := startsWith input (ascii "HEAD ") }.withHead h

lemma scanStep_eq (hb : p.separateHeaders = false) :
    scanStep p x = match scanHeaders x p.headerSearch (x.length - p.headerSearch) with
      | .bad => .fail
      | .none => if x.length ≥ p.maxHeaders then .fail else .need (waiting p x) x
      | .found blank =>
        if blank + 4 > p.maxHeaders then .fail
        else
          match parseHeaders p.maxBody p.head (x.take (blank + 2)) with
          | .error _ => .fail
          | .ok h => .go none (entered p x h) (x.drop (blank + 4)) := by
  unfold scanStep headersScanned
  dsimp only
  cases hs : scanHeaders x p.headerSearch (x.length - p.headerSearch) with
  | bad => rfl
  | none =>
    dsimp only
    split <;> rfl
  | found blank =>
    dsimp only
    split
    · rfl
    · have hh : ({ p with headRequest := startsWith x (ascii "HEAD ") } : HttpParser).head = p.head := rfl
      rw [hh]
      cases parseHeaders p.maxBody p.head (x.take (blank + 2)) with
      | error e => rfl
      | ok h =>
        have hw : (entered p x h).separateHeaders = false := hb
        simp only [entered] at hw
        simp [hw, outcome, entered]

lemma scanHeaders_extend (hl : p.headerSearch ≤ x.length) :
    scanHeaders (x ++ y) p.headerSearch ((x ++ y).length - p.headerSearch) =
      match scanHeaders x p.headerSearch (x.length - p.headerSearch) with
      | .none => scanHeaders (x ++ y) x.length ((x ++ y).length - x.length)
      | scan => scan := by
  have h := scanHeaders_append x y p.headerSearch (x.length - p.headerSearch) y.length (by omega)
  have h₁ : p.headerSearch + (x.length - p.headerSearch) = x.length := by omega
  have h₂ : x.length - p.headerSearch + y.length = (x ++ y).length - p.headerSearch := by
    rw [List.length_append]; omega
  have h₃ : (x ++ y).length - x.length = y.length := by rw [List.length_append]; omega
  rw [h₁, h₂] at h
  rw [h₃]
  exact h

lemma extends_scan_found {blank : ℕ} (hb : p.separateHeaders = false) (hl : p.headerSearch ≤ x.length)
    (hs : scanHeaders x p.headerSearch (x.length - p.headerSearch) = .found blank) :
    match scanStep p x with
    | .need _ _ => False
    | .go event q rest => scanStep p (x ++ y) = .go event q (rest ++ y)
    | .fail => scanStep p (x ++ y) = .fail := by
  have hn : blank + 4 ≤ x.length := by
    have := scanHeaders_found hs
    omega
  have ht : (x ++ y).take (blank + 2) = x.take (blank + 2) := List.take_append_of_le_length (by omega)
  have hd : (x ++ y).drop (blank + 4) = x.drop (blank + 4) ++ y := List.drop_append_of_le_length hn
  simp only [scanStep_eq _ hb, scanHeaders_extend x y hl, hs, ht, hd]
  by_cases hlong : blank + 4 > p.maxHeaders
  · simp only [if_pos hlong]
  · simp only [if_neg hlong]
    cases hp : parseHeaders p.maxBody p.head (x.take (blank + 2)) with
    | error e => rfl
    | ok h =>
      have hx := parseHeaders_length hp
      have hh : startsWith (x ++ y) (ascii "HEAD ") = startsWith x (ascii "HEAD ") := by
        apply isPrefixOf_append
        rw [List.length_take] at hx
        exact le_trans (by decide : (ascii "HEAD ").length ≤ 8) (by omega)
      simp only [entered, hh]

lemma extends_scan_none (hb : p.separateHeaders = false) (hl : p.headerSearch ≤ x.length)
    (hs : scanHeaders x p.headerSearch (x.length - p.headerSearch) = .none) :
    Outcome.Rel Agree (scanStep (waiting p x) (x ++ y)) (scanStep p (x ++ y)) := by
  have hw : (waiting p x).separateHeaders = false := hb
  have hh : (waiting p x).head = p.head := rfl
  have hn : (waiting p x).headerSearch = x.length := rfl
  have hm : (waiting p x).maxHeaders = p.maxHeaders := rfl
  have hm' : (waiting p x).maxBody = p.maxBody := rfl
  simp only [scanStep_eq _ hb, scanStep_eq _ hw, scanHeaders_extend x y hl, hs, hh, hn, hm, hm']
  cases scanHeaders (x ++ y) x.length ((x ++ y).length - x.length) with
  | bad => exact .fail
  | none =>
    dsimp only
    split
    · exact .fail
    · exact .need (.refl _)
  | found blank =>
    dsimp only
    by_cases hlong : blank + 4 > p.maxHeaders
    · simp only [if_pos hlong]
      exact .fail
    · simp only [if_neg hlong]
      cases hp : parseHeaders p.maxBody p.head ((x ++ y).take (blank + 2)) with
      | error e => exact .fail
      | ok h =>
        refine .go ⟨rfl, fun hst => ?_⟩
        rcases parseHeaders_stage hp with h' | h' <;> simp [entered, withHead, h'] at hst

lemma step_headers (hs : p.stage = .headers) :
    stageStep p x = if p.headerSearch = 0
      then if skipEmptyLines x = [13] then .need p [13] else scanStep p (skipEmptyLines x)
      else scanStep p x := by
  simp only [stageStep, stageFlow, hs, headersBlock, scanStep, ne_eq, not_true_eq_false, if_false]
  split
  · split
    · rename_i h13
      simp [outcome, h13]
    · rfl
  · rfl

lemma extends_scan (hb : p.separateHeaders = false) (hl : p.headerSearch ≤ x.length) :
    match scanStep p x with
    | .need q rest => q = waiting p x ∧ rest = x ∧
        Outcome.Rel Agree (scanStep q (x ++ y)) (scanStep p (x ++ y))
    | .go event q rest => scanStep p (x ++ y) = .go event q (rest ++ y)
    | .fail => scanStep p (x ++ y) = .fail := by
  cases hs : scanHeaders x p.headerSearch (x.length - p.headerSearch) with
  | bad => simp only [scanStep_eq _ hb, scanHeaders_extend x y hl, hs]
  | none =>
    by_cases hlong : x.length ≥ p.maxHeaders
    · have hlong' : (x ++ y).length ≥ p.maxHeaders := by rw [List.length_append]; omega
      have hx : scanStep p x = .fail := by simp [scanStep_eq _ hb, hs, hlong]
      simp only [hx, scanStep_eq _ hb, scanHeaders_extend x y hl, hs]
      cases hy : scanHeaders (x ++ y) x.length ((x ++ y).length - x.length) with
      | bad => rfl
      | none => simp only [if_pos hlong']
      | found blank =>
        have hf := scanHeaders_found hy
        simp only [if_pos (show blank + 4 > p.maxHeaders by omega)]
    · have hx : scanStep p x = .need (waiting p x) x := by simp [scanStep_eq _ hb, hs, hlong]
      simp only [hx, true_and]
      exact extends_scan_none x y hb hl hs
  | found blank =>
    have hf := extends_scan_found x y hb hl hs
    cases hx : scanStep p x with
    | need q rest => simp only [hx] at hf
    | go event q rest => simpa only [hx] using hf
    | fail => simpa only [hx] using hf

lemma extends_of_scan {z : Bytes} (hb : p.separateHeaders = false) (hs : p.stage = .headers)
    (hz : z ≠ []) (hl : p.headerSearch ≤ z.length) (hx : stageStep p x = scanStep p z)
    (hy : stageStep p (x ++ y) = scanStep p (z ++ y)) : Extends p x y := by
  have he := extends_scan z y hb hl
  simp only [Extends, hx, hy]
  cases ho : scanStep p z with
  | need q rest =>
    simp only [ho] at he
    obtain ⟨rfl, rfl, hr⟩ := he
    have hw : stageStep (waiting p rest) (rest ++ y) = scanStep (waiting p rest) (rest ++ y) := by
      rw [step_headers _ (p := waiting p rest) hs, if_neg]
      simpa [waiting] using hz
    simpa only [hw] using hr
  | go event q rest => simpa only [ho] using he
  | fail => simpa only [ho] using he

lemma extends_headers (hi : Buffered p x) (hs : p.stage = .headers) : Extends p x y := by
  have hl := hi.scanned hs
  by_cases h0 : p.headerSearch = 0
  · by_cases h13 : skipEmptyLines x = [13]
    · have hx : stageStep p x = .need p [13] := by simp [step_headers x hs, h0, h13]
      have hk : skipEmptyLines ([13] ++ y) = skipEmptyLines (x ++ y) := by
        rw [← h13, skipEmptyLines_skip]
      simp only [Extends, hx, step_headers _ hs, h0, hk]
      exact rel_refl _
    by_cases hnil : skipEmptyLines x = []
    · have hk : skipEmptyLines y = skipEmptyLines (x ++ y) := by
        rw [← skipEmptyLines_skip, hnil, List.nil_append]
      have hw : waiting p [] = p := by
        have hh : startsWith [] (ascii "HEAD ") = p.headRequest := by
          rw [hi.fresh hs h0]
          rfl
        simp only [waiting, hh, List.length_nil, ← h0]
      have hx : stageStep p x = .need p [] := by
        have hm : ¬ p.maxHeaders = 0 := by
          have := hi.limit
          omega
        simp [step_headers x hs, h0, hnil, scanStep_eq _ hi.whole, scanHeaders, hw, hm]
      simp only [Extends, hx, List.nil_append, step_headers _ hs, h0, hk]
      exact rel_refl _
    · have hk := skipEmptyLines_append x y hnil h13
      apply extends_of_scan x y hi.whole hs hnil (by omega)
      · simp [step_headers x hs, h0, h13]
      · have h13' : skipEmptyLines x ++ y ≠ [13] := by
          cases hz : skipEmptyLines x with
          | nil => exact absurd hz hnil
          | cons b rest =>
            intro h
            simp only [List.cons_append, List.cons.injEq, List.append_eq_nil_iff] at h
            exact h13 (by rw [hz, h.1, h.2.1])
        simp [step_headers _ hs, h0, hk, h13']
  · have hz : x ≠ [] := by
      rintro rfl
      simp at hl
      exact h0 hl
    apply extends_of_scan x y hi.whole hs hz hl
    · simp [step_headers x hs, h0]
    · simp [step_headers _ hs, h0]

lemma stage_extends (hi : Buffered p x) : Extends p x y := by
  by_cases hh : p.stage = .headers
  · exact extends_headers x y hi hh
  by_cases hf : p.stage = .failed
  · simp [Extends, stageStep, stageFlow, hf, failedBlock, outcome]
  cases hc : p.expectsContinue with
  | true => simp only [Extends, step_continue p _ hh hf hc]
  | false =>
    cases hs : p.stage with
    | headers => exact absurd hs hh
    | failed => exact absurd hs hf
    | fixedBody =>
      exact extends_body x y (fun q => some (.complete q.request)) completed hc hi.stored
        fun q z h h' h'' => step_fixedBody z (h.trans hs) h' h''
    | chunkSize => exact extends_chunkSize x y hs hc
    | chunkData =>
      exact extends_body x y (fun _ => none) (fun q => { q with stage := .chunkEnd }) hc hi.stored
        fun q z h h' h'' => step_chunkData z (h.trans hs) h' h''
    | chunkEnd => exact extends_chunkEnd x y hs hc
    | trailers => exact extends_trailers x y hs hc

end Extension

end ServerCore.Web.HttpParser
