import ServerCore.Web.HttpDelivery

/-! One request read in streaming mode and in buffered mode, from any state between
two requests and for any two cuts of the stream. -/

namespace ServerCore.Web.HttpParser

open ServerCore.Core ServerCore.Foundations.StreamDecoder

section Headers

variable {p q : HttpParser} {x rest : Bytes}

lemma headers_need (hst : p.stage = .headers) (h : stageStep p x = .need q rest) :
    q = p ∨ ∃ z, q = waiting p z := by
  have key : ∀ z, scanStep p z = .need q rest → ∃ z, q = waiting p z := by
    intro z h
    unfold scanStep headersScanned at h
    dsimp only at h
    split at h
    · simp [fail, outcome] at h
    · split at h
      · simp [fail, outcome] at h
      · simp only [outcome, Outcome.need.injEq] at h
        exact ⟨z, h.1.symm⟩
    · split at h
      · simp [fail, outcome] at h
      split at h
      · simp [fail, outcome] at h
      split at h <;> simp [outcome] at h
  rw [step_headers x hst] at h
  split at h
  · split at h
    · simp only [Outcome.need.injEq] at h
      exact .inl h.1.symm
    · exact .inr (key _ h)
  · exact .inr (key _ h)

lemma trace_no_room {onHeaders : HttpParser → HttpParser} {pieces : List Bytes} {events : List Event}
    {result : Option ((HttpParser × Bool) × Bytes)} (hst : p.stage = .headers) (hm : p.maxHeaders = 0)
    (h : Trace (requestStep onHeaders) (p, false) x pieces events result) : Unfinished result := by
  generalize hs : (p, false) = s at h
  induction h generalizing p with
  | @done _ x s' rest h =>
    subst hs
    obtain ⟨q, b⟩ := s'
    obtain ⟨rfl, -⟩ := request_need h
    exact unfinished_waiting _ _
  | @piece _ x s' rest piece pieces events _ h _ ih =>
    subst hs
    obtain ⟨q, b⟩ := s'
    obtain ⟨rfl, hn⟩ := request_need h
    rcases headers_need hst hn with rfl | ⟨z, rfl⟩
    · exact ih hst hm rfl
    · exact ih (p := waiting p z) hst hm rfl
  | fail _ => exact unfinished_none
  | @go _ x e s' rest pieces events _ h _ _ =>
    subst hs
    obtain ⟨q, b⟩ := s'
    obtain ⟨q₀, hstep, -⟩ := request_go h
    obtain ⟨_, _, _, _, _, hroom, _⟩ := (step_goes hstep).of_headers hst
    omega

lemma scanStep_separate (hb : p.separateHeaders = true) :
    scanStep p x = match scanHeaders x p.headerSearch (x.length - p.headerSearch) with
      | .bad => .fail
      | .none => if x.length ≥ p.maxHeaders then .fail else .need (waiting p x) x
      | .found blank =>
        if blank + 4 > p.maxHeaders then .fail
        else
          match parseHeaders p.maxBody p.head (x.take (blank + 2)) with
          | .error _ => .fail
          | .ok h => .go (some (.headers h.request)) { entered p x h with request := {} } (x.drop (blank + 4)) := by
  unfold scanStep headersScanned
  dsimp only
  cases hs : scanHeaders x p.headerSearch (x.length - p.headerSearch) with
  | bad => rfl
  | none =>
    dsimp only
    split <;> rfl
  | found blank =>
    dsimp only
    split
    · rfl
    · have hh : ({ p with headRequest := startsWith x (ascii "HEAD ") } : HttpParser).head = p.head := rfl
      rw [hh]
      cases parseHeaders p.maxBody p.head (x.take (blank + 2)) with
      | error e => rfl
      | ok h =>
        have hw : (entered p x h).separateHeaders = true := hb
        simp only [entered] at hw
        simp only [hw, if_true, outcome, event, entered]
        rfl

inductive SameHead (p : HttpParser) (x : Bytes) (q : HttpParser) : Prop
  | need {p' q' : HttpParser} {rest : Bytes} (hp : stageStep p x = .need p' rest) (hq : stageStep q x = .need q' rest)
      (hpair : Paired p' q')
  | fail (hp : stageStep p x = .fail) (hq : stageStep q x = .fail)
  | go {p' q' : HttpParser} {rest : Bytes} (hp : stageStep p x = .go none p' rest)
      (hq : stageStep q x = .go (some (.headers p'.request)) q' rest)
      (htwin : ∀ maxChunk, streamBody p.maxBody maxChunk q' = twin maxChunk p.chunkOverhead p')

lemma same_head (hst : p.stage = .headers) (hpair : Paired p q) : SameHead p x q := by
  obtain ⟨b, k, rfl⟩ : ∃ b k, q = { p with separateHeaders := true, streaming := b, maxChunk := k } :=
    ⟨_, _, hpair.twin⟩
  have key : ∀ z, stageStep p x = scanStep p z →
      stageStep { p with separateHeaders := true, streaming := b, maxChunk := k } x =
        scanStep { p with separateHeaders := true, streaming := b, maxChunk := k } z →
      SameHead p x { p with separateHeaders := true, streaming := b, maxChunk := k } := by
    intro z hp hq
    rw [scanStep_eq z hpair.whole] at hp
    rw [scanStep_separate (p := { p with separateHeaders := true, streaming := b, maxChunk := k }) rfl] at hq
    dsimp only at hq
    cases hs : scanHeaders z p.headerSearch (z.length - p.headerSearch) with
    | bad =>
      simp only [hs] at hp hq
      exact .fail hp hq
    | none =>
      simp only [hs] at hp hq
      split at hp
      · rename_i hlong
        rw [if_pos hlong] at hq
        exact .fail hp hq
      · rename_i hlong
        rw [if_neg hlong] at hq
        exact .need hp hq ⟨hpair.whole, hpair.stored, rfl⟩
    | found blank =>
      simp only [hs] at hp hq
      split at hp
      · rename_i hlong
        rw [if_pos hlong] at hq
        exact .fail hp hq
      · rename_i hlong
        rw [if_neg hlong] at hq
        have hhead : ({ p with separateHeaders := true, streaming := b, maxChunk := k } : HttpParser).head = p.head := rfl
        rw [hhead] at hq
        cases hok : parseHeaders p.maxBody p.head (z.take (blank + 2)) with
        | error e =>
          simp only [hok] at hp hq
          exact .fail hp hq
        | ok h =>
          simp only [hok] at hp hq
          exact .go hp hq fun maxChunk => rfl
  have hp := step_headers x hst
  have hq := step_headers (p := { p with separateHeaders := true, streaming := b, maxChunk := k }) x hst
  dsimp only at hq
  split at hp
  · rename_i h0
    rw [if_pos h0] at hq
    split at hp
    · rename_i h13
      rw [if_pos h13] at hq
      exact .need hp hq hpair
    · rename_i h13
      rw [if_neg h13] at hq
      exact key _ hp hq
  · rename_i h0
    rw [if_neg h0] at hq
    exact key _ hp hq

lemma idle_need {p' : HttpParser} (hi : Idle p) (h : stageStep p x = .need p' rest) : Idle p' ∧ p'.maxBody = p.maxBody := by
  rcases headers_need hi.stage h with rfl | ⟨z, rfl⟩
  · exact ⟨hi, rfl⟩
  · exact ⟨⟨hi.stage, hi.request, hi.remaining, hi.bodyBytes, hi.chunkOverhead, hi.trailerBytes⟩, rfl⟩

lemma idle_go {p' : HttpParser} (hi : Idle p) (hw : p.separateHeaders = false) (hb : p.streaming = false)
    (h : stageStep p x = .go none p' rest) : Sync p' [] p.chunkOverhead ∧ p'.request.body = [] := by
  obtain ⟨z, blank, head, -, -, hroom, hp, -, hq, -⟩ := (step_goes h).of_headers hi.stage
  obtain ⟨m, hres, -⟩ := parseHeaders_framed (h := p.head) hi.request hi.remaining hp
  simp only [hw, Bool.false_eq_true, if_false] at hq
  subst hq
  have hover : (entered p z head).chunkOverhead = 0 := hi.chunkOverhead
  have htrail : (entered p z head).trailerBytes = 0 := hi.trailerBytes
  refine ⟨⟨hb, hw, entered_inBody hi hb hres, ?_, ?_, ?_, ?_⟩, hres.body⟩
  · rw [hi.chunkOverhead]
    exact Nat.zero_le _
  · rw [hover]
    exact Nat.zero_le _
  · rw [htrail]
    exact Nat.zero_le _
  · have hmax : (entered p z head).maxHeaders = p.maxHeaders := rfl
    omega

end Headers

lemma trace_request {maxChunk : ℕ} {p q : HttpParser} {x : Bytes} {pieces : List Bytes} {events : List Event}
    {result : Option ((HttpParser × Bool) × Bytes)} (hmax : 0 < maxChunk) (hi : Idle p) (hb : Buffered p x)
    (hpair : Paired p q) {maxBody : ℕ} (hmb : maxBody = p.maxBody)
    (h : Trace (requestStep (streamBody maxBody maxChunk)) (q, false) x pieces events result) :
    (∀ q' u, result = some ((q', true), u) → ∃ p₁ p₂ s₁ events' wire body overhead,
      stageStep p (x ++ pieces.flatten) = .go none p₂ s₁ ∧ Agree p₁ p₂ ∧ Buffered p₁ s₁ ∧
      p₁.chunkOverhead = 0 ∧ p₁.request.body = [] ∧ p₁.maxHeaders = p.maxHeaders ∧
      events = .headers p₁.request :: events' ∧
      Completes maxChunk p₁ [] s₁ u events' q' wire body overhead) ∧
    (Unfinished result → ∃ events' result', Reads p (x ++ pieces.flatten) events' result' ∧ Unfinished result') := by
  generalize hs : (q, false) = s at h
  induction h generalizing p q with
  | @done _ x s' rest h =>
    subst hs
    obtain ⟨q₁, b⟩ := s'
    obtain ⟨rfl, hn⟩ := request_need h
    refine ⟨by simp, fun _ => ?_⟩
    rw [List.flatten_nil, List.append_nil]
    cases same_head hi.stage hpair (x := x) with
    | need hp hq => exact ⟨[], _, Reads.need hp, unfinished_waiting _ _⟩
    | fail hp hq =>
      rw [hq] at hn
      cases hn
    | go hp hq =>
      rw [hq] at hn
      cases hn
  | @piece _ x s' rest piece pieces events _ h _ ih =>
    subst hs
    obtain ⟨q₁, b⟩ := s'
    obtain ⟨rfl, hn⟩ := request_need h
    cases same_head hi.stage hpair (x := x) with
    | fail hp hq =>
      rw [hq] at hn
      cases hn
    | go hp hq =>
      rw [hq] at hn
      cases hn
    | @need p' q' rest' hp hq hpair' =>
      rw [hq] at hn
      obtain ⟨rfl, rfl⟩ : q' = q₁ ∧ rest' = rest := by simpa using hn
      obtain ⟨hi', hmb'⟩ := idle_need hi hp
      have hb' := resumable.inv_mono _ _ piece (resumable.inv_need _ _ _ _ hb hp)
      have hrel := resumable.need_append _ _ _ _ (piece ++ pieces.flatten) hb hp
      rw [← List.append_assoc] at hrel
      rw [List.flatten_cons]
      obtain ⟨hyes, hno⟩ := ih hi' hb' hpair' (hmb.trans hmb'.symm) rfl
      refine ⟨fun q'' u hu => ?_, fun hu => ?_⟩
      · obtain ⟨p₁, p₂, s₁, events', wire, body, overhead, hstep, hagree, hb₁, hover, hbody, hroom, hev, hc⟩ := hyes q'' u hu
        rw [hstep] at hrel
        generalize ho : stageStep p (x ++ (piece ++ pieces.flatten)) = o at hrel
        have hmh : p'.maxHeaders = p.maxHeaders := by
          rcases headers_need hi.stage hp with rfl | ⟨z, rfl⟩ <;> rfl
        cases hrel with
        | @go _ _ p₃ _ hagree' =>
          exact ⟨p₁, p₃, s₁, events', wire, body, overhead, rfl, hagree.trans hagree', hb₁, hover, hbody,
            hroom.trans hmh, hev, hc⟩
      · obtain ⟨events', result', hr, hu'⟩ := hno hu
        have hj : Buffered p' (rest' ++ piece ++ pieces.flatten) := resumable.inv_mono _ _ _ hb'
        have hrel' := halting_rel (f := isComplete) hrel
        rw [← configuredStep_id] at hrel'
        obtain ⟨f, hd, he⟩ := resumable_request.drain_of_rel (s := (p', false)) hj hrel' hr
        refine ⟨events', f, hd, ?_⟩
        rintro p'' u rfl
        cases he with
        | @blocked s t rest hst =>
          obtain ⟨s, flag⟩ := s
          obtain rfl : flag = true := hst.2
          exact hu' _ _ rfl
  | @fail _ x pieces h =>
    subst hs
    have hf := request_fail h
    refine ⟨by simp, fun _ => ⟨[], none, Reads.fail ?_, unfinished_none⟩⟩
    cases same_head hi.stage hpair (x := x) with
    | fail hp hq => exact resumable.fail_append _ _ _ hb hp
    | need hp hq =>
      rw [hq] at hf
      cases hf
    | go hp hq =>
      rw [hq] at hf
      cases hf
  | @go _ x e s' rest pieces events result h ht ih =>
    subst hs
    obtain ⟨q₁, b⟩ := s'
    obtain ⟨q₀, hstep, hflag, -, hconf⟩ := request_go h
    cases same_head hi.stage hpair (x := x) with
    | fail hp hq =>
      rw [hq] at hstep
      cases hstep
    | need hp hq =>
      rw [hq] at hstep
      cases hstep
    | @go p' q' rest' hp hq htwin =>
      rw [hq] at hstep
      simp only [Outcome.go.injEq] at hstep
      obtain ⟨rfl, rfl, rfl⟩ := hstep
      obtain rfl : b = false := hflag
      obtain rfl := hconf _ rfl
      rw [hmb, htwin maxChunk] at ht
      obtain ⟨hsync, hbody⟩ := idle_go hi hpair.whole hpair.stored hp
      have hwhole := resumable.go_append _ _ _ _ _ pieces.flatten hb hp
      have hb' := resumable.inv_mono _ _ pieces.flatten (resumable.inv_go _ _ _ _ _ hb hp)
      obtain ⟨hyes, hno⟩ := trace_agrees hmax hsync ht
      refine ⟨fun q'' u hu => ?_, fun hu => ?_⟩
      · obtain ⟨wire, body, overhead, hc⟩ := hyes q'' u hu
        refine ⟨p', p', rest' ++ pieces.flatten, events, wire, body, overhead, hwhole, Agree.refl _, hb', ?_, hbody,
          (step_goes hp).limits.maxHeaders, rfl, hc⟩
        obtain ⟨z, blank, head, -, -, -, -, -, hq', -⟩ := (step_goes hp).of_headers hi.stage
        simp only [hpair.whole, Bool.false_eq_true, if_false] at hq'
        rw [hq']
        exact hi.chunkOverhead
      · obtain ⟨events', result', hr, hu'⟩ := hno hu
        exact ⟨_, _, Reads.go hwhole (by simp) hr, hu'⟩

/-- The events of a request handed out in streaming mode: its head, the optional `Continue`, the
body in pieces of at most `maxChunk` bytes, and the end. -/
structure Streamed (maxChunk : ℕ) (r : HttpRequest) (conts streamed : List Event) : Prop where
  continues : conts = [] ∨ conts = [.continue100]
  events : ∃ bodies : List Bytes,
    streamed = .headers { r with body := [] } :: (conts ++ (bodies.map .body ++ [.complete {}])) ∧
    bodies.flatten = r.body ∧ ∀ b ∈ bodies, 1 ≤ b.length ∧ b.length ≤ maxChunk

section Modes

variable {p q : HttpParser} {maxChunk : ℕ} {pieces : List Bytes}

lemma agree_fresh {p p' : HttpParser} (h : Agree p p') (hs : p'.stage = .headers) : p = p' := by
  have hst : p'.stage = p.stage := by rw [h.1]; rfl
  rw [h.1, ← h.2 (hst ▸ hs)]
  rfl

lemma buffered_reads {events : List Event} {result : Option ((HttpParser × Bool) × Bytes)} (hf : Fresh p)
    (hb : Buffered p []) (h : Feed (requestStep id) (p, false) [] pieces events result) :
    ∃ whole, Reads p pieces.flatten events whole ∧ (whole = none → result = none) ∧
      (Unfinished whole → Unfinished result) ∧
      ∀ p' u, p'.stage = .headers → whole = some ((p', true), u) → result = some ((p', true), u) := by
  cases pieces with
  | nil =>
    cases h
    exact ⟨_, Reads.need (step_empty hb hf.stage hf.search), by simp, fun _ => unfinished_waiting _ _, by simp⟩
  | cons piece pieces =>
    obtain ⟨whole, hd, he⟩ := resumable_request.feed_drain hb (by simp) h
    refine ⟨whole, hd, ?_, ?_, ?_⟩
    · rintro rfl
      cases he
      rfl
    · intro hu
      cases he with
      | failed => exact unfinished_none
      | @blocked s t rest hst =>
        obtain ⟨s, flag⟩ := s
        obtain ⟨t, flag'⟩ := t
        obtain rfl : flag = flag' := hst.2
        cases flag with
        | true => exact absurd rfl (hu _ _)
        | false => exact unfinished_waiting _ _
    · rintro p' u hs rfl
      cases he with
      | @blocked s t rest hst =>
        obtain ⟨s, flag⟩ := s
        obtain rfl : flag = true := hst.2
        obtain rfl : s = p' := agree_fresh hst.1 hs
        rfl

lemma ending_completed {result : Option ((HttpParser × Bool) × Bytes)} {p : HttpParser} {u : Bytes}
    (h : ending result = .completed p u) : result = some ((p, true), u) := by
  match result, h with
  | some ((_, true), _), h =>
    obtain ⟨rfl, rfl⟩ := Ending.completed.inj h
    rfl

lemma streamed_message {events : List Event} {q' : HttpParser} {u : Bytes} (hmax : 0 < maxChunk) (hf : Fresh p)
    (hb : Buffered p []) (hpair : Paired p q)
    (h : Feed (requestStep (streamBody p.maxBody maxChunk)) (q, false) [] pieces events (some ((q', true), u))) :
    ∃ m r conts, pieces.flatten = m.encode ++ u ∧ Framed p.maxBody m r ∧ Streamed maxChunk r conts events ∧
      ((m.payload.overhead ≤ p.maxHeaders ∧
          ∃ p', Reads p pieces.flatten (conts ++ [.complete r]) (some ((p', true), u)) ∧ Fresh p' ∧ Paired p' q') ∨
        (p.maxHeaders < m.payload.overhead ∧ Reads p pieces.flatten conts none)) := by
  cases pieces with
  | nil =>
    generalize hr : some ((q', true), u) = result at h
    cases h
    simp at hr
  | cons piece pieces =>
    have ht := h.trace
    rw [List.nil_append] at ht
    have hb' : Buffered p piece := resumable.inv_mono p [] piece hb
    obtain ⟨p₁, p₂, s₁, events', wire, body, overhead, hstep, hagree, hb₁, hover, hbody, hroom, rfl, hc⟩ :=
      (trace_request hmax hf.toIdle hb' hpair rfl ht).1 q' u rfl
    obtain ⟨z, blank, head, hz, hscan, -, hp, -, hq, hs₁⟩ := (step_goes hstep).of_headers hf.stage
    rw [if_pos hf.search] at hz
    rw [hf.search] at hscan
    simp only [hpair.whole, Bool.false_eq_true, if_false] at hq
    obtain ⟨hend, hsplit⟩ := scanHeaders_split hscan
    obtain ⟨n, hn⟩ := skipEmptyLines_split (piece ++ pieces.flatten)
    obtain ⟨m, hres, hblock⟩ := parseHeaders_framed (h := p.head) hf.request hf.remaining hp
    obtain ⟨k, hk⟩ : ∃ k, p₁ = (entered p z head).withSearch k := by
      refine ⟨p₁.headerSearch, ?_⟩
      rw [← hq, hagree.1]
      rfl
    have hrest : Rest head.stage head.remaining wire body overhead := by
      have hr := hc.delivery.rest
      rw [hk] at hr
      exact hr
    have hreq : p₁.request = head.request := by
      rw [hk]
      rfl
    have hmb : p₁.maxBody = p.maxBody := by
      rw [hk]
      rfl
    have hlimit : body.length ≤ p.maxBody := by
      rw [← hmb]
      exact hc.limit
    obtain ⟨payload, henc, hpo, hframed⟩ := framed_of_rest n hres rfl hrest hlimit
    obtain ⟨bodies, rfl, hflat, hsizes⟩ := hc.delivery.bodies
    have hlift : ∀ ev f, Reads p₁ s₁ ev f → ∃ f', Reads p (piece ++ pieces.flatten) ev f' ∧
        EndRel (fun s t => Agree s.1 t.1 ∧ s.2 = t.2) f f' := by
      intro ev f hr
      have hrel := halting_rel (f := isComplete) (resumable.congr _ _ _ hagree hb₁)
      rw [← configuredStep_id] at hrel
      obtain ⟨f', hd, he⟩ := resumable_request.drain_of_rel (s := (p₁, false)) hb₁ hrel hr
      exact ⟨f', Reads.go hstep (by simp) hd, he⟩
    refine ⟨_, _, continues p₁, ?_, hframed, ⟨?_, bodies, ?_, hflat, hsizes⟩, ?_⟩
    · calc (piece :: pieces).flatten = encodeLines (List.replicate n []) ++ z := by
            rw [List.flatten_cons, hz]
            exact hn
        _ = encodeLines (List.replicate n []) ++ (m.block ++ (crlf ++ (wire ++ u))) := by
          rw [hsplit, hblock hend, ← hs₁, hc.delivery.split]
        _ = _ := by
          simp only [Message.encode, henc, List.append_assoc]
          rfl
    · unfold continues
      split
      · exact .inr rfl
      · exact .inl rfl
    · have hheld : ({ head.request with body := [] } : HttpRequest) = p₁.request := by
        rw [← hreq, ← hbody]
      rw [hheld]
    · rw [hpo, List.flatten_cons]
      by_cases hfits : overhead ≤ p.maxHeaders
      · obtain ⟨p', hr, hfresh, hpair'⟩ := hc.fits (by omega)
        obtain ⟨f', hd, he⟩ := hlift _ _ hr
        refine .inl ⟨hfits, p', ?_, hfresh, hpair'⟩
        cases he with
        | @blocked s t rest hst =>
          obtain ⟨t, flag⟩ := t
          obtain rfl : true = flag := hst.2
          have hagree' : Agree p' t := hst.1
          have hts : t.stage = .headers := by
            rw [hagree'.1]
            exact hfresh.stage
          obtain rfl : p' = t := agree_fresh hagree' hts
          rw [hreq] at hd
          exact hd
      · obtain ⟨f', hd, he⟩ := hlift _ _ (hc.overflows (by omega))
        cases he
        exact .inr ⟨by omega, hd⟩

end Modes

/-- Streaming and buffered reading of a request agree, between requests of a connection and for any
cuts of one stream; a streamed request that the buffered parser refuses has more chunk framing than
the header limit allows. -/
theorem streaming_agrees {p q : HttpParser} (hf : Fresh p) (hpair : Paired p q) {maxChunk : ℕ} (hmax : 0 < maxChunk)
    {pieces pieces' : List Bytes} (hflat : pieces.flatten = pieces'.flatten) :
    ∃ whole wholeEnd streamed streamedEnd, readRequest id p [] pieces = some (whole, wholeEnd) ∧
      readRequest (streamBody p.maxBody maxChunk) q [] pieces' = some (streamed, streamedEnd) ∧
      (∀ p' unread, wholeEnd = .completed p' unread → ∃ r conts q', whole = conts ++ [.complete r] ∧
        Streamed maxChunk r conts streamed ∧ streamedEnd = .completed q' unread ∧ Fresh p' ∧ Paired p' q') ∧
      (∀ q' unread, streamedEnd = .completed q' unread → ∃ m r conts, pieces.flatten = m.encode ++ unread ∧
        Framed p.maxBody m r ∧ Streamed maxChunk r conts streamed ∧ r.body.length ≤ p.maxBody ∧
        ((m.payload.overhead ≤ p.maxHeaders ∧ whole = conts ++ [.complete r] ∧
            ∃ p', wholeEnd = .completed p' unread ∧ Fresh p' ∧ Paired p' q') ∨
          (p.maxHeaders < m.payload.overhead ∧ whole = conts ∧ wholeEnd = .failed))) := by
  obtain ⟨whole, result, hwhole, hfeed⟩ := readRequest_feed (p := p) (x := []) (fun _ => rfl) pieces
  obtain ⟨streamed, result', hstreamed, hfeed'⟩ :=
    readRequest_feed (p := q) (x := []) (rank_streamBody _ _) pieces'
  refine ⟨whole, ending result, streamed, ending result', hwhole, hstreamed, ?_⟩
  have hstage : q.stage = .headers := by
    rw [hpair.twin]
    exact hf.stage
  by_cases h0 : p.maxHeaders = 0
  · have hq0 : q.maxHeaders = 0 := by
      rw [hpair.twin]
      exact h0
    have hu : Unfinished result := by
      cases pieces with
      | nil => cases hfeed; exact unfinished_waiting _ _
      | cons piece pieces => exact trace_no_room hf.stage h0 hfeed.trace
    have hu' : Unfinished result' := by
      cases pieces' with
      | nil => cases hfeed'; exact unfinished_waiting _ _
      | cons piece pieces => exact trace_no_room hstage hq0 hfeed'.trace
    exact ⟨fun p' u he => absurd (ending_completed he) (hu _ _), fun q' u he => absurd (ending_completed he) (hu' _ _)⟩
  · have hb : Buffered p [] := ⟨hpair.whole, hpair.stored, Nat.pos_of_ne_zero h0,
      fun _ => by rw [hf.search]; exact Nat.zero_le _, fun _ _ => hf.headRequest⟩
    obtain ⟨f, hreads, hnone, hunfinished, hdone⟩ := buffered_reads hf hb hfeed
    have hconverse : ∀ q' u, result' = some ((q', true), u) → ∃ m r conts, pieces.flatten = m.encode ++ u ∧
        Framed p.maxBody m r ∧ Streamed maxChunk r conts streamed ∧ r.body.length ≤ p.maxBody ∧
        ((m.payload.overhead ≤ p.maxHeaders ∧ whole = conts ++ [.complete r] ∧
            ∃ p', ending result = .completed p' u ∧ Fresh p' ∧ Paired p' q') ∨
          (p.maxHeaders < m.payload.overhead ∧ whole = conts ∧ ending result = .failed)) := by
      rintro q' u rfl
      obtain ⟨m, r, conts, hs, hframed, hst, hverdict⟩ := streamed_message hmax hf hb hpair hfeed'
      rw [← hflat] at hs hverdict
      refine ⟨m, r, conts, hs, hframed, hst, hframed.limit, ?_⟩
      rcases hverdict with ⟨hfits, p', hr, hfresh, hpair'⟩ | ⟨hover, hr⟩
      · obtain ⟨rfl, rfl⟩ := Drain.unique hr hreads
        refine .inl ⟨hfits, rfl, p', ?_, hfresh, hpair'⟩
        rw [hdone p' u hfresh.stage rfl]
        rfl
      · obtain ⟨rfl, rfl⟩ := Drain.unique hr hreads
        refine .inr ⟨hover, rfl, ?_⟩
        rw [hnone rfl]
        rfl
    refine ⟨fun p' u he => ?_, fun q' u he => hconverse q' u (ending_completed he)⟩
    have hcompleted := ending_completed he
    by_cases hu' : Unfinished result'
    · -- A streaming run that does not complete rules out a completed buffered one.
      exfalso
      have hr : ∃ events' result'', Reads p pieces.flatten events' result'' ∧ Unfinished result'' := by
        cases pieces' with
        | nil =>
          rw [hflat]
          exact ⟨[], _, Reads.need (step_empty hb hf.stage hf.search), unfinished_waiting _ _⟩
        | cons piece pieces' =>
          rw [hflat]
          exact (trace_request hmax hf.toIdle (resumable.inv_mono p [] piece hb) hpair rfl hfeed'.trace).2 hu'
      obtain ⟨events', result'', hr, hu''⟩ := hr
      obtain ⟨-, rfl⟩ := Drain.unique hr hreads
      exact hunfinished hu'' _ _ hcompleted
    · obtain ⟨q', u', hq'⟩ : ∃ q' u', result' = some ((q', true), u') := by
        simpa [Unfinished] using hu'
      obtain ⟨m, r, conts, -, -, hst, -, hverdict⟩ := hconverse q' u' hq'
      rcases hverdict with ⟨-, rfl, p'', hend, hfresh, hpair'⟩ | ⟨-, -, hend⟩
      · rw [he] at hend
        obtain ⟨rfl, rfl⟩ := Ending.completed.inj hend
        refine ⟨r, conts, q', rfl, hst, ?_, hfresh, hpair'⟩
        rw [hq']
        rfl
      · rw [he] at hend
        cases hend

/-- A request cut in its header block and read in pieces of two bytes. -/
theorem streaming_agrees_abc : ∃ streamed q',
    readRequest (streamBody 64 2) (create 256 64 true) []
      [ascii "PUT / HTTP/1.1\r\nHost: a\r\nContent-Le", ascii "ngth: 3\r\n\r\nabcGET"] =
      some (streamed, .completed q' (ascii "GET")) := by
  have hwhole := @ascii_eq "PUT / HTTP/1.1\r\nHost: a\r\nContent-Length: 3\r\n\r\nabcGET" _ rfl
  have hpieces : [ascii "PUT / HTTP/1.1\r\nHost: a\r\nContent-Length: 3\r\n\r\nabcGET"].flatten =
      [ascii "PUT / HTTP/1.1\r\nHost: a\r\nContent-Le", ascii "ngth: 3\r\n\r\nabcGET"].flatten := by
    rw [hwhole, @ascii_eq "PUT / HTTP/1.1\r\nHost: a\r\nContent-Le" _ rfl, @ascii_eq "ngth: 3\r\n\r\nabcGET" _ rfl]
    decide +kernel
  obtain ⟨whole, wholeEnd, streamed, streamedEnd, hw, hs, hforward, -⟩ :=
    streaming_agrees (create_fresh 256 64 false) (q := create 256 64 true) ⟨rfl, rfl, rfl⟩ (by decide : 0 < 2) hpieces
  have hdone : (readRequest id (create 256 64 false) []
      [ascii "PUT / HTTP/1.1\r\nHost: a\r\nContent-Length: 3\r\n\r\nabcGET"]).map Prod.snd =
      some (.completed (create 256 64 false) (ascii "GET")) := by
    rw [hwhole, @ascii_eq "GET" _ rfl]
    decide +kernel
  obtain ⟨⟨events, ended⟩, hdone, rfl⟩ := Option.map_eq_some_iff.mp hdone
  obtain ⟨rfl, rfl⟩ := Prod.mk.inj (Option.some.inj (hw.symm.trans hdone))
  obtain ⟨r, conts, q', -, -, hend, -⟩ := hforward _ _ rfl
  exact ⟨streamed, q', by rw [← hend]; exact hs⟩

end ServerCore.Web.HttpParser
