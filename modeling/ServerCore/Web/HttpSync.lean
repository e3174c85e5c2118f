import ServerCore.Web.HttpStreaming

/-! A streaming parser inside a body and the buffered one beside it, step by step. -/

namespace ServerCore.Web.HttpParser

open ServerCore.Core ServerCore.Foundations.StreamDecoder

def Reads (p : HttpParser) (s : Bytes) (events : List Event) (result : Option ((HttpParser × Bool) × Bytes)) :
    Prop := Drain (requestStep id) (p, false) s events result

section Reads

variable {p q : HttpParser} {s t rest : Bytes} {e : Option Event} {events : List Event}
  {result : Option ((HttpParser × Bool) × Bytes)}

lemma Reads.go (hs : stageStep p s = .go e q rest) (he : ∀ r, e ≠ some (.complete r))
    (h : Reads q rest events result) : Reads p s (e.toList ++ events) result := by
  have hflag : e.any isComplete = false := by
    cases e with
    | none => rfl
    | some e =>
      cases e with
      | complete r => exact absurd rfl (he r)
      | _ => rfl
  refine Drain.go ?_ h
  simp only [requestStep, configuredStep_id, halting, hs, hflag]

lemma Reads.complete {r : HttpRequest} (hs : stageStep p s = .go (some (.complete r)) q rest) :
    Reads p s [.complete r] (some ((q, true), rest)) := by
  have ho : requestStep id (p, false) s = .go (some (.complete r)) (q, true) rest := by
    simp only [requestStep, configuredStep_id, halting, hs, Option.any, isComplete]
  exact Drain.go ho (.need rfl)

lemma Reads.fail (hs : stageStep p s = .fail) : Reads p s [] none :=
  Drain.fail (by simp only [requestStep, configuredStep_id, halting, hs])

lemma Reads.need {r : Bytes} (hs : stageStep p s = .need q r) : Reads p s [] (some ((q, false), r)) :=
  Drain.need (by simp only [requestStep, configuredStep_id, halting, hs])

lemma Reads.congr (hs : stageStep p s = stageStep q t) (h : Reads q t events result) :
    Reads p s events result := by
  have ho : requestStep id (p, false) s = requestStep id (q, false) t := by
    simp only [requestStep, configuredStep_id, halting, hs]
  cases h with
  | need h => exact Drain.need (ho.trans h)
  | fail h => exact Drain.fail (ho.trans h)
  | go h hd => exact Drain.go (ho.trans h) hd

end Reads

/-- The streaming parser beside `p`, with its own count of chunk framing. -/
def twin (maxChunk overhead : ℕ) (p : HttpParser) : HttpParser :=
  { p with
    separateHeaders := true, streaming := true, maxChunk := maxChunk, chunkOverhead := overhead, request := {} }

/-- The buffered parser in a body, whose data so far is `acc`, against a twin that has counted less
chunk framing. -/
structure Sync (p : HttpParser) (acc : Bytes) (overhead : ℕ) : Prop where
  stored : p.streaming = false
  whole : p.separateHeaders = false
  body : InBody p acc
  spent : overhead ≤ p.chunkOverhead
  framing : p.chunkOverhead ≤ p.maxHeaders
  trailers : p.trailerBytes ≤ p.maxHeaders
  limit : 4 ≤ p.maxHeaders

def continues (p : HttpParser) : List Event := if p.expectsContinue then [.continue100] else []

lemma continues_of_false {p : HttpParser} (h : p.expectsContinue = false) : continues p = [] := by
  rw [continues, h]
  rfl

def Keeps (maxChunk : ℕ) (p : HttpParser) (acc x y : Bytes) (q : HttpParser) (rest moved : Bytes) (overhead : ℕ) :
    Prop :=
  (∃ p' count, q = twin maxChunk count p' ∧ Sync p' (acc ++ moved) count ∧
      p'.chunkOverhead = p.chunkOverhead + overhead ∧ p'.maxHeaders = p.maxHeaders ∧ p'.maxBody = p.maxBody ∧
      p'.request = { p.request with body := acc ++ moved } ∧ p'.expectsContinue = false ∧
      ∀ events result, Reads p' (rest ++ y) events result → Reads p (x ++ y) (continues p ++ events) result) ∨
    (Reads p (x ++ y) [] none ∧ p.maxHeaders < p.chunkOverhead + overhead ∧ p.expectsContinue = false)

section Steps

variable {maxChunk count : ℕ} {p : HttpParser} {acc x : Bytes} (y : Bytes)

lemma Sync.held (hs : Sync p acc count) : p.request = { p.request with body := acc } := by
  have h : p.request.body = acc := by rw [hs.body.held, hs.stored]; rfl
  rw [← h]

lemma Sync.twin_body (maxChunk : ℕ) (hs : Sync p acc count) : InBody (twin maxChunk count p) acc :=
  ⟨hs.body.count, hs.body.limit, hs.body.room, rfl, hs.body.begun⟩

lemma step_withBody {t : Bytes} (hst : p.stage = .fixedBody ∨ p.stage = .chunkData)
    (hc : p.expectsContinue = false) (hb : p.streaming = false) (ht : t.length ≤ p.remaining) :
    stageStep (withBody p t) y = stageStep p (t ++ y) := by
  have htake : (t ++ y).take p.remaining = t ++ y.take (p.remaining - t.length) := by
    rw [List.take_append, List.take_of_length_le ht]
  have hdrop : (t ++ y).drop p.remaining = y.drop (p.remaining - t.length) := by
    rw [List.drop_append, List.drop_of_length_le ht, List.nil_append]
  have hif : p.remaining - t.length ≤ y.length ↔ p.remaining ≤ (t ++ y).length := by
    rw [List.length_append]
    omega
  have hrem : (withBody p t).remaining = p.remaining - t.length := rfl
  rcases hst with hs | hs
  · rw [step_fixedBody y (p := withBody p t) hs hc hb, step_fixedBody (t ++ y) hs hc hb, htake, hdrop, hrem,
      withBody_append, withBody_append]
    exact if_congr hif rfl rfl
  · rw [step_chunkData y (p := withBody p t) hs hc hb, step_chunkData (t ++ y) hs hc hb, htake, hdrop, hrem,
      withBody_append, withBody_append]
    exact if_congr hif rfl rfl

lemma Sync.withBody {t : Bytes} (hs : Sync p acc count) (hst : p.stage = .fixedBody ∨ p.stage = .chunkData)
    (ht : t.length ≤ p.remaining) : Sync (withBody p t) (acc ++ t) count := by
  have hroom := hs.body.room hst
  have hcount := hs.body.count
  have hheld : p.request.body = acc := by rw [hs.body.held, hs.stored]; rfl
  refine ⟨hs.stored, hs.whole, ⟨?_, ?_, fun _ => ?_, ?_, hs.body.begun⟩, hs.spent, hs.framing, hs.trailers, hs.limit⟩
  · simp only [HttpParser.withBody, List.length_append, hcount]
  · simp only [HttpParser.withBody]
    omega
  · simp only [HttpParser.withBody]
    omega
  · simp only [HttpParser.withBody, hs.stored, hheld]
    rfl

lemma Sync.setStage {stage : Stage} (hs : Sync p acc count) (h₁ : stage ≠ .headers) (h₂ : stage ≠ .fixedBody)
    (h₃ : stage ≠ .chunkData) : Sync { p with stage := stage } acc count :=
  ⟨hs.stored, hs.whole, ⟨hs.body.count, hs.body.limit, fun h => absurd h (not_or.mpr ⟨h₂, h₃⟩), hs.body.held, h₁⟩, hs.spent,
    hs.framing, hs.trailers, hs.limit⟩

lemma continue_keeps (hs : Sync p acc count) (hf : p.stage ≠ .failed) (hc : p.expectsContinue = true) :
    Keeps maxChunk p acc x y { twin maxChunk count p with expectsContinue := false } x [] 0 := by
  left
  refine ⟨{ p with expectsContinue := false }, count, rfl, ?_, rfl, rfl, rfl, ?_, rfl, fun events result h => ?_⟩
  · rw [List.append_nil]
    exact ⟨hs.stored, hs.whole, ⟨hs.body.count, hs.body.limit, hs.body.room, hs.body.held, hs.body.begun⟩, hs.spent,
      hs.framing, hs.trailers, hs.limit⟩
  · rw [List.append_nil]
    exact hs.held
  · have hgo := Reads.go (step_continue p (x ++ y) hs.body.begun hf hc) (by simp) h
    rw [continues, hc]
    exact hgo

lemma twin_takeCount (maxChunk count : ℕ) (p : HttpParser) (x : Bytes) :
    (x.take (takeCount (twin maxChunk count p) x)).length ≤ p.remaining := by
  have hle := (takeCount_le (twin maxChunk count p) x).2
  rw [List.length_take]
  exact le_trans (min_le_left _ _) hle

lemma fixedPart_keeps (hs : Sync p acc count) (hst : p.stage = .fixedBody) (hc : p.expectsContinue = false) (n : ℕ)
    (hn : (x.take n).length ≤ p.remaining) :
    Keeps maxChunk p acc x y (emitted (twin maxChunk count p) (x.take n)) (x.drop n) (x.take n) 0 := by
  left
  refine ⟨HttpParser.withBody p (x.take n), count, rfl, hs.withBody (.inl hst) hn, rfl, rfl, rfl, ?_, hc,
    fun events result h => ?_⟩
  · have hheld : p.request.body = acc := by rw [hs.body.held, hs.stored]; rfl
    simp only [HttpParser.withBody, hheld]
  · rw [continues_of_false hc]
    apply Reads.congr _ h
    rw [step_withBody _ (.inl hst) hc hs.stored hn, ← List.append_assoc, List.take_append_drop]

lemma data_keeps (maxChunk : ℕ) (hs : Sync p acc count) (hst : p.stage = .chunkData) (hc : p.expectsContinue = false) (n : ℕ)
    (hn : (x.take n).length ≤ p.remaining) :
    Keeps maxChunk p acc x y
      { emitted (twin maxChunk count p) (x.take n) with
        stage := if p.remaining ≤ (x.take n).length then .chunkEnd else .chunkData }
      (x.drop n) (x.take n) 0 := by
  left
  have hheld : p.request.body = acc := by rw [hs.body.held, hs.stored]; rfl
  have hx : x.take n ++ (x.drop n ++ y) = x ++ y := by rw [← List.append_assoc, List.take_append_drop]
  by_cases hall : p.remaining ≤ (x.take n).length
  · rw [if_pos hall]
    refine ⟨{ HttpParser.withBody p (x.take n) with stage := .chunkEnd }, count, rfl,
      (hs.withBody (.inr hst) hn).setStage (by simp) (by simp) (by simp), rfl, rfl, rfl, ?_, hc,
      fun events result h => ?_⟩
    · simp only [HttpParser.withBody, hheld]
    · have hlen : p.remaining = (x.take n).length := by omega
      have hstep : stageStep p (x ++ y) =
          .go none { HttpParser.withBody p (x.take n) with stage := .chunkEnd } (x.drop n ++ y) := by
        rw [← hx, step_chunkData _ hst hc hs.stored, if_pos (by rw [List.length_append]; omega), hlen,
          List.take_left, List.drop_left]
      rw [continues_of_false hc]
      exact Reads.go hstep (by simp) h
  · rw [if_neg hall]
    refine ⟨HttpParser.withBody p (x.take n), count, ?_, hs.withBody (.inr hst) hn, rfl, rfl, rfl, ?_, hc,
      fun events result h => ?_⟩
    · rw [← hst]
      rfl
    · simp only [HttpParser.withBody, hheld]
    · rw [continues_of_false hc]
      apply Reads.congr _ h
      rw [step_withBody _ (.inr hst) hc hs.stored hn, hx]

lemma readLine_limit {limit l n : ℕ} (h : readLine limit x = .line n) :
    readLine l (x ++ y) = if n + 2 ≤ l then .line n else .tooLong := by
  cases hf : find crlf x with
  | none =>
    simp only [readLine, hf] at h
    split at h <;> cases h
  | some m =>
    simp only [readLine, hf] at h
    split at h
    · cases h
    obtain rfl : m = n := by simpa using h
    simp only [readLine, find_append y hf]
    by_cases hm : m + 2 ≤ l
    · rw [if_neg (by omega), if_pos hm]
    · rw [if_pos (by omega), if_neg hm]

lemma sizeLine_keeps {n : ℕ} {q : HttpParser} (hs : Sync p acc count) (hst : p.stage = .chunkSize)
    (hc : p.expectsContinue = false)
    (hl : readLine (sizeSub p.maxHeaders count) x = .line n)
    (hr : chunkSizeLine (twin maxChunk count p) (x.take n) = .ok q) :
    Keeps maxChunk p acc x y q (x.drop (n + 2)) [] (n + 2) := by
  obtain ⟨k, hk, hroom, rfl⟩ := chunkSizeLine_spec hr
  obtain ⟨-, hlen, hlimit⟩ := readLine_split hl
  have hbound := (readLine_line y hl).2
  have htake : (x ++ y).take n = x.take n := List.take_append_of_le_length (by omega)
  have hdrop : (x ++ y).drop (n + 2) = x.drop (n + 2) ++ y := List.drop_append_of_le_length hbound
  have hline := readLine_limit (l := sizeSub p.maxHeaders p.chunkOverhead) y hl
  have hspent := hs.spent
  rw [sizeSub_eq hs.framing] at hline
  rw [sizeSub_eq (le_trans hspent hs.framing)] at hlimit
  by_cases hfits : n + 2 ≤ p.maxHeaders - p.chunkOverhead
  · left
    have hok : chunkSizeLine p (x.take n) = .ok { p with
        remaining := k
        chunkOverhead := p.chunkOverhead + ((x.take n).length + 2)
        stage := if k = 0 then .trailers else .chunkData } := by
      have hroom' : ¬ k > sizeSub p.maxBody p.bodyBytes := not_lt.mpr hroom
      simp only [chunkSizeLine, hk, if_neg hroom']
    have hstep : stageStep p (x ++ y) = .go none { p with
        remaining := k
        chunkOverhead := p.chunkOverhead + ((x.take n).length + 2)
        stage := if k = 0 then .trailers else .chunkData } (x.drop (n + 2) ++ y) := by
      rw [step_chunkSize _ hst hc]
      simp only [chunkSizeBlock, if_neg (not_not_intro hst), sizeSub_eq hs.framing, hline, if_pos hfits, htake, hok,
        hdrop, outcome]
    have hroom' : k ≤ p.maxBody - p.bodyBytes := by
      rw [← sizeSub_eq hs.body.limit]
      exact hroom
    refine ⟨{ p with
      remaining := k
      chunkOverhead := p.chunkOverhead + ((x.take n).length + 2)
      stage := if k = 0 then .trailers else .chunkData }, count + ((x.take n).length + 2), rfl, ?_, ?_, rfl, rfl, ?_, hc,
      fun events result h => ?_⟩
    · rw [List.append_nil]
      refine ⟨hs.stored, hs.whole, ⟨hs.body.count, hs.body.limit, fun _ => ?_, hs.body.held, ?_⟩, ?_, ?_, hs.trailers, hs.limit⟩
      · have := hs.body.limit
        dsimp only
        omega
      · dsimp only
        split <;> simp
      · dsimp only
        omega
      · dsimp only
        rw [hlen]
        omega
    · rw [hlen]
    · rw [List.append_nil]
      exact hs.held
    · rw [continues_of_false hc]
      exact Reads.go hstep (by simp) h
  · right
    refine ⟨Reads.fail ?_, by omega, hc⟩
    rw [step_chunkSize _ hst hc]
    simp only [chunkSizeBlock, if_neg (not_not_intro hst), sizeSub_eq hs.framing, hline, if_neg hfits]
    rfl

lemma dataEnd_keeps (hs : Sync p acc count) (hst : p.stage = .chunkEnd) (hc : p.expectsContinue = false)
    (hx : startsWith x crlf = true) (hl : 2 ≤ x.length) :
    Keeps maxChunk p acc x y { twin maxChunk count p with chunkOverhead := 0, stage := .chunkSize } (x.drop 2) [] 2 := by
  have hlen : ¬ (x ++ y).length < 2 := by
    rw [List.length_append]
    omega
  have hx' : startsWith (x ++ y) crlf = true := isPrefixOf_append_of_true y hx
  have hdrop : (x ++ y).drop 2 = x.drop 2 ++ y := List.drop_append_of_le_length hl
  have hlimit := hs.limit
  have hsub : sizeSub p.maxHeaders 2 = p.maxHeaders - 2 := sizeSub_eq (by omega)
  by_cases hfits : p.chunkOverhead > p.maxHeaders - 2
  · right
    refine ⟨Reads.fail ?_, by omega, hc⟩
    rw [step_chunkEnd _ hst hc]
    simp only [chunkEndBlock, if_neg (not_not_intro hst), if_neg hlen, hx', Bool.not_true, Bool.false_eq_true,
      if_false, hsub, if_pos hfits]
    rfl
  · left
    have hstep : stageStep p (x ++ y) = .go none
        { p with chunkOverhead := p.chunkOverhead + 2, stage := .chunkSize } (x.drop 2 ++ y) := by
      rw [step_chunkEnd _ hst hc]
      simp only [chunkEndBlock, if_neg (not_not_intro hst), if_neg hlen, hx', Bool.not_true, Bool.false_eq_true,
        if_false, hsub, if_neg hfits, hs.stored, hdrop, outcome]
    refine ⟨{ p with chunkOverhead := p.chunkOverhead + 2, stage := .chunkSize }, 0, rfl, ?_, rfl, rfl, rfl, ?_, hc,
      fun events result h => ?_⟩
    · rw [List.append_nil]
      refine ⟨hs.stored, hs.whole, ⟨hs.body.count, hs.body.limit, by simp, hs.body.held, by simp⟩, Nat.zero_le _, ?_,
        hs.trailers, hs.limit⟩
      dsimp only
      omega
    · rw [List.append_nil]
      exact hs.held
    · rw [continues_of_false hc]
      exact Reads.go hstep (by simp) h

lemma trailer_keeps {n : ℕ} (hs : Sync p acc count) (hst : p.stage = .trailers) (hc : p.expectsContinue = false)
    (hl : readLine (sizeSub p.maxHeaders p.trailerBytes) x = .line n) (hn : n ≠ 0)
    (hv : validTrailer (x.take n) = true) :
    Keeps maxChunk p acc x y { twin maxChunk count p with trailerBytes := p.trailerBytes + (n + 2) }
      (x.drop (n + 2)) [] 0 := by
  left
  obtain ⟨-, -, hlimit⟩ := readLine_split hl
  rw [sizeSub_eq hs.trailers] at hlimit
  obtain ⟨hline, hbound⟩ := readLine_line y hl
  have htake : (x ++ y).take n = x.take n := List.take_append_of_le_length (by omega)
  have hdrop : (x ++ y).drop (n + 2) = x.drop (n + 2) ++ y := List.drop_append_of_le_length hbound
  have hstep : stageStep p (x ++ y) = .go none { p with trailerBytes := p.trailerBytes + (n + 2) }
      (x.drop (n + 2) ++ y) := by
    rw [step_trailers _ hst hc]
    simp only [trailersBlock, if_neg (not_not_intro hst), hline, if_neg hn, htake, hv, Bool.not_true,
      Bool.false_eq_true, if_false, hdrop, outcome]
  have htrailers := hs.trailers
  refine ⟨{ p with trailerBytes := p.trailerBytes + (n + 2) }, count, rfl, ?_, rfl, rfl, rfl, ?_, hc,
    fun events result h => ?_⟩
  · rw [List.append_nil]
    refine ⟨hs.stored, hs.whole, ⟨hs.body.count, hs.body.limit, hs.body.room, hs.body.held, hs.body.begun⟩, hs.spent, hs.framing,
      ?_, hs.limit⟩
    dsimp only
    omega
  · rw [List.append_nil]
    exact hs.held
  · rw [continues_of_false hc]
    exact Reads.go hstep (by simp) h

lemma step_keeps {q : HttpParser} {e : Option Event} {rest : Bytes} (hs : Sync p acc count)
    (hg : Goes (twin maxChunk count p) x e q rest) (hne : ∀ r, e ≠ some (.complete r)) :
    ∃ taken moved overhead, x = taken ++ rest ∧ InBody q (acc ++ moved) ∧
      Moved (twin maxChunk count p) e q taken moved overhead ∧ Keeps maxChunk p acc x y q rest moved overhead := by
  have hi := hs.twin_body maxChunk
  cases hg with
  | head hst => exact absurd hst hs.body.begun
  | continue100 hh hf hc =>
    obtain ⟨hi', hm⟩ := continue_moved hi hc
    exact ⟨[], [], 0, rfl, by rwa [List.append_nil], hm, continue_keeps y hs hf hc⟩
  | fixedPart hst hc hb ht =>
    obtain ⟨hi', hm⟩ := fixedPart_moved hi hst hc hb ht
    exact ⟨_, _, 0, (List.take_append_drop _ x).symm, hi', hm, fixedPart_keeps y hs hst hc _ (twin_takeCount maxChunk count p x)⟩
  | fixedDone => exact absurd rfl (hne _)
  | sizeLine hst hc hl hr =>
    obtain ⟨hi', hm⟩ := sizeLine_moved hi hst hc hl hr
    refine ⟨_, [], _, ?_, by rwa [List.append_nil], hm, sizeLine_keeps y hs hst hc hl hr⟩
    rw [List.append_assoc]
    exact (readLine_split hl).1
  | dataPart hst hc hb ht =>
    obtain ⟨hi', hm⟩ := dataPart_moved hi hst hc hb ht
    refine ⟨_, _, 0, (List.take_append_drop _ x).symm, hi', hm, ?_⟩
    have hk := data_keeps y maxChunk hs hst hc _ (twin_takeCount maxChunk count p x)
    rwa [length_takeCount] at hk
  | dataDone hst hc hb hr =>
    obtain ⟨hi', hm⟩ := dataDone_moved hi hst hc hb hr
    refine ⟨_, _, 0, (List.take_append_drop _ x).symm, hi', hm, ?_⟩
    have hk := data_keeps y maxChunk hs hst hc _ (twin_takeCount maxChunk count p x)
    have hnone : x.take (takeCount (twin maxChunk count p) x) = [] := by rw [hb rfl, List.take_zero]
    have hrem : p.remaining ≤ takeCount (twin maxChunk count p) x := hr
    rw [length_takeCount, if_pos hrem] at hk
    rw [hnone] at hk ⊢
    exact hk
  | dataEnd hst hc hx hl ho =>
    obtain ⟨hi', hm⟩ := dataEnd_moved hi hst hc 0
    exact ⟨crlf, [], 2, startsWith_split hx, by rwa [List.append_nil], hm, dataEnd_keeps y hs hst hc hx hl⟩
  | @trailer n hst hc hl hn hv =>
    obtain ⟨hi', hm⟩ := trailer_moved hi hst hc hv (p.trailerBytes + (n + 2))
    refine ⟨x.take n ++ crlf, [], 0, ?_, by rwa [List.append_nil], hm, trailer_keeps y hs hst hc hl hn hv⟩
    rw [List.append_assoc]
    exact (readLine_split hl).1
  | trailersDone => exact absurd rfl (hne _)

end Steps

end ServerCore.Web.HttpParser
