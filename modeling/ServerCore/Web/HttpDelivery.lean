import ServerCore.Web.HttpAgreement

/-! Whole bodies: what a streaming run delivers, and the buffered run beside it. -/

namespace ServerCore.Web.HttpParser

open ServerCore.Core ServerCore.Foundations.StreamDecoder

/-- From `p` on, a streaming run reads `wire` off the stream and hands out `body` in pieces of at
most `maxChunk` bytes. -/
structure Delivery (maxChunk : ℕ) (p : HttpParser) (s u : Bytes) (events : List Event) (wire body : Bytes)
    (overhead : ℕ) : Prop where
  split : s = wire ++ u
  rest : Rest p.stage p.remaining wire body overhead
  bodies : ∃ bodies : List Bytes, events = continues p ++ (bodies.map .body ++ [.complete {}]) ∧ bodies.flatten = body ∧
    ∀ b ∈ bodies, 1 ≤ b.length ∧ b.length ≤ maxChunk

section Delivery

variable {maxChunk overhead more : ℕ} {p q : HttpParser} {e : Option Event} {events : List Event}
  {x y u rest taken moved wire body acc : Bytes}

lemma Moved.not_headers (hm : Moved p e q taken moved overhead) (r : HttpRequest) : e ≠ some (.headers r) := by
  rcases hm.event with ⟨rfl, -⟩ | ⟨rfl, -⟩ | ⟨rfl, -⟩ <;> simp

lemma Delivery.step (hm : Moved p e q taken moved overhead) (hb : p.streaming = true) (hmax : p.maxChunk = maxChunk)
    (hx : x = taken ++ rest) (h : Delivery maxChunk q (rest ++ y) u events wire body more) :
    Delivery maxChunk p (x ++ y) u (e.toList ++ events) (taken ++ wire) (moved ++ body) (overhead + more) := by
  obtain ⟨bodies, rfl, hflat, hsizes⟩ := h.bodies
  refine ⟨?_, hm.rest _ _ _ h.rest, ?_⟩
  · rw [hx, List.append_assoc, h.split, List.append_assoc]
  rw [continues_of_false hm.continued.1, List.nil_append]
  rcases hm.event with ⟨rfl, hnone⟩ | ⟨rfl, hnone⟩ | ⟨rfl, -, hne, hle⟩
  · have hc : p.expectsContinue = false := by simpa using hm.continued.2
    rw [hnone hb, continues_of_false hc]
    exact ⟨bodies, rfl, hflat, hsizes⟩
  · have hc : p.expectsContinue = true := hm.continued.2.mpr rfl
    rw [hnone, continues, hc]
    exact ⟨bodies, rfl, hflat, hsizes⟩
  · have hc : p.expectsContinue = false := by simpa using hm.continued.2
    rw [continues_of_false hc]
    refine ⟨moved :: bodies, rfl, by rw [List.flatten_cons, hflat], fun b hmem => ?_⟩
    rcases List.mem_cons.mp hmem with rfl | hmem
    · exact ⟨List.length_pos_iff.mpr hne, hmax ▸ hle⟩
    · exact hsizes b hmem

lemma trace_delivery {onHeaders : HttpParser → HttpParser} {q' : HttpParser} {pieces : List Bytes}
    (hi : InBody q acc) (hb : q.streaming = true) (hreq : q.request = {}) (hmax : q.maxChunk = maxChunk)
    (h : Trace (requestStep onHeaders) (q, false) x pieces events (some ((q', true), u))) :
    ∃ wire body overhead, Delivery maxChunk q (x ++ pieces.flatten) u events wire body overhead ∧
      (acc ++ body).length ≤ q.maxBody := by
  generalize hs : (q, false) = s at h
  generalize hf : some ((q', true), u) = result at h
  induction h generalizing q acc with
  | done h =>
    subst hs
    obtain ⟨⟨rfl, rfl⟩, rfl⟩ : _ ∧ _ := by simpa using hf
    exact absurd (request_need h).1 (by simp)
  | @piece _ x s' rest piece pieces events _ h _ ih =>
    subst hs
    obtain ⟨q₁, b⟩ := s'
    obtain ⟨rfl, hn⟩ := request_need h
    obtain ⟨rfl, rfl⟩ := (step_need_waits hi.begun hn).1.unchanged hb
    obtain ⟨wire, body, overhead, hd, hlimit⟩ := ih hi hb hreq hmax rfl hf
    refine ⟨wire, body, overhead, ?_, hlimit⟩
    rwa [List.append_assoc, ← List.flatten_cons] at hd
  | fail h => simp at hf
  | @go _ x e s' rest pieces events _ h ht ih =>
    subst hs hf
    obtain ⟨q₁, b⟩ := s'
    obtain ⟨q₀, hstep, hflag, hsame, -⟩ := request_go h
    have hg := step_goes hstep
    by_cases hdone : ∃ r, e = some (.complete r)
    · obtain ⟨r, rfl⟩ := hdone
      obtain rfl := hsame (by simp)
      obtain rfl : b = true := hflag
      obtain ⟨rfl, hu⟩ := trace_halted ht
      obtain ⟨rfl, rfl⟩ : q' = q₁ ∧ u = rest ++ pieces.flatten := by simpa using hu
      obtain ⟨taken, moved, hx, hrest, hr, hlimit, hnone, hc, -⟩ := hg.done hi
      obtain rfl := hnone hb
      refine ⟨taken, [], 0, ⟨?_, hrest, [], ?_, rfl, by simp⟩, hlimit⟩
      · rw [hx, List.append_assoc]
      · have hr' : r = {} := by rw [hr, hreq]; rfl
        rw [continues_of_false hc, hr']
        rfl
    · have hne : ∀ r, e ≠ some (.complete r) := fun r hr => hdone ⟨r, hr⟩
      obtain ⟨taken, moved, overhead, hx, hi', hm⟩ := hg.moved hi hne
      obtain rfl := hsame hm.not_headers
      have hflag' : e.any isComplete = false := by
        cases e with
        | none => rfl
        | some e =>
          cases e with
          | complete r => exact absurd rfl (hne r)
          | _ => rfl
      obtain rfl : b = false := hflag.trans hflag'
      obtain ⟨hmb, hmc, hst⟩ := hm.limits
      have hb' : q₁.streaming = true := hst.trans hb
      have hreq' : q₁.request = {} := by
        have hheld := hi'.held
        rw [hb'] at hheld
        rw [hm.request, hreq, hheld]
        rfl
      obtain ⟨wire, body, more, hd, hlimit⟩ := ih hi' hb' hreq' (hmc.trans hmax) rfl rfl
      refine ⟨_, _, _, hd.step hm hb hmax hx, ?_⟩
      rw [← List.append_assoc, ← hmb]
      exact hlimit

end Delivery

structure Paired (p q : HttpParser) : Prop where
  whole : p.separateHeaders = false
  stored : p.streaming = false
  twin : q = { p with separateHeaders := true, streaming := q.streaming, maxChunk := q.maxChunk }

structure Completes (maxChunk : ℕ) (p : HttpParser) (acc s u : Bytes) (events : List Event) (q' : HttpParser)
    (wire body : Bytes) (overhead : ℕ) : Prop where
  delivery : Delivery maxChunk p s u events wire body overhead
  limit : (acc ++ body).length ≤ p.maxBody
  fits : p.chunkOverhead + overhead ≤ p.maxHeaders →
    ∃ p', Reads p s (continues p ++ [.complete { p.request with body := acc ++ body }]) (some ((p', true), u)) ∧
      Fresh p' ∧ Paired p' q'
  overflows : p.maxHeaders < p.chunkOverhead + overhead → Reads p s (continues p) none

section Simulation

variable {maxChunk count : ℕ} {p : HttpParser} {acc x : Bytes} {onHeaders : HttpParser → HttpParser}
  {pieces : List Bytes} {events : List Event} {result : Option ((HttpParser × Bool) × Bytes)}

lemma Delivery.of_twin {s u wire body : Bytes} {overhead : ℕ}
    (h : Delivery maxChunk (twin maxChunk count p) s u events wire body overhead) :
    Delivery maxChunk p s u events wire body overhead := ⟨h.split, h.rest, h.bodies⟩

lemma Delivery.to_twin {s u wire body : Bytes} {overhead : ℕ}
    (h : Delivery maxChunk p s u events wire body overhead) :
    Delivery maxChunk (twin maxChunk count p) s u events wire body overhead := ⟨h.split, h.rest, h.bodies⟩

lemma trace_agrees (hmax : 0 < maxChunk) (hs : Sync p acc count)
    (h : Trace (requestStep onHeaders) (twin maxChunk count p, false) x pieces events result) :
    (∀ q' u, result = some ((q', true), u) → ∃ wire body overhead,
      Completes maxChunk p acc (x ++ pieces.flatten) u events q' wire body overhead) ∧
    (Unfinished result → ∃ events' result', Reads p (x ++ pieces.flatten) events' result' ∧ Unfinished result') := by
  generalize hst : (twin maxChunk count p, false) = s at h
  induction h generalizing p acc count with
  | @done _ x s' rest h =>
    subst hst
    obtain ⟨q₁, b⟩ := s'
    obtain ⟨rfl, hn⟩ := request_need h
    obtain ⟨hw, hc⟩ := step_need_waits (p := twin maxChunk count p) hs.body.begun hn
    refine ⟨by simp, fun _ => ?_⟩
    rw [List.flatten_nil, List.append_nil]
    obtain ⟨result', hr, hu⟩ := waits_unfinished hmax hs hc hw
    exact ⟨[], result', hr, hu⟩
  | @piece _ x s' rest piece pieces events _ h _ ih =>
    subst hst
    obtain ⟨q₁, b⟩ := s'
    obtain ⟨rfl, hn⟩ := request_need h
    obtain ⟨hw, hc⟩ := step_need_waits (p := twin maxChunk count p) hs.body.begun hn
    obtain ⟨rfl, rfl⟩ := hw.unchanged rfl
    have hih := ih hs rfl
    rwa [List.append_assoc, ← List.flatten_cons] at hih
  | @fail _ x pieces h =>
    subst hst
    refine ⟨by simp, fun _ => ⟨[], none, Reads.fail ?_, unfinished_none⟩⟩
    exact step_fails _ hs (request_fail h)
  | @go _ x e s' rest pieces events result h ht ih =>
    subst hst
    obtain ⟨q₁, b⟩ := s'
    obtain ⟨q₀, hstep, hflag, hsame, -⟩ := request_go h
    have hg := step_goes hstep
    by_cases hdone : ∃ r, e = some (.complete r)
    · obtain ⟨r, rfl⟩ := hdone
      obtain rfl := hsame (by simp)
      obtain rfl : b = true := hflag
      obtain ⟨rfl, rfl⟩ := trace_halted ht
      obtain ⟨rfl, hc, ⟨taken, hx, hrest⟩, rfl, hbuf⟩ := step_done pieces.flatten hs hg
      refine ⟨fun q' u hu => ?_, fun hu => absurd rfl (hu _ _)⟩
      simp only [Option.some.injEq, Prod.mk.injEq, and_true] at hu
      obtain ⟨rfl, rfl⟩ := hu
      have hlen : acc.length ≤ p.maxBody := by
        have := hs.body.limit
        rw [hs.body.count] at this
        exact this
      have hheld : ({ p.request with body := acc ++ [] } : HttpRequest) = p.request := by
        rw [List.append_nil]
        exact hs.held.symm
      have hframing := hs.framing
      refine ⟨taken, [], 0, ⟨⟨?_, hrest, [], ?_, rfl, by simp⟩, by rwa [List.append_nil], fun _ => ?_, fun hover => ?_⟩⟩
      · rw [hx, List.append_assoc]
      · rw [continues_of_false hc]
        rfl
      · rw [continues_of_false hc, hheld]
        refine ⟨_, Reads.complete hbuf, completed_fresh p, ⟨hs.whole, hs.stored, rfl⟩⟩
      · omega
    · have hne : ∀ r, e ≠ some (.complete r) := fun r hr => hdone ⟨r, hr⟩
      obtain ⟨taken, moved, overhead, hx, hi', hm, hk⟩ := step_keeps pieces.flatten hs hg hne
      obtain rfl := hsame hm.not_headers
      have hflag' : e.any isComplete = false := by
        cases e with
        | none => rfl
        | some e =>
          cases e with
          | complete r => exact absurd rfl (hne r)
          | _ => rfl
      obtain rfl : b = false := hflag.trans hflag'
      rcases hk with ⟨p', count', rfl, hs', hover, hmh, hmb, hreq, hc', hlift⟩ | ⟨hfail, hover, hc⟩
      · obtain ⟨hyes, hno⟩ := ih hs' rfl
        refine ⟨fun q' u hu => ?_, fun hu => ?_⟩
        · obtain ⟨wire, body, more, hd⟩ := hyes q' u hu
          refine ⟨taken ++ wire, moved ++ body, overhead + more, ?_, ?_, fun hfits => ?_, fun hbig => ?_⟩
          · exact (hd.delivery.to_twin.step hm rfl rfl hx).of_twin
          · rw [← List.append_assoc, ← hmb]
            exact hd.limit
          · obtain ⟨p'', hr, hfresh, hpair⟩ := hd.fits (by omega)
            refine ⟨p'', ?_, hfresh, hpair⟩
            have hl := hlift _ _ hr
            rw [continues_of_false hc', List.nil_append, hreq, List.append_assoc] at hl
            exact hl
          · have hl := hlift _ _ (hd.overflows (by omega))
            rwa [continues_of_false hc', List.append_nil] at hl
        · obtain ⟨events', result', hr, hu'⟩ := hno hu
          exact ⟨_, _, hlift _ _ hr, hu'⟩
      · refine ⟨fun q' u hu => ?_, fun hu => ⟨[], none, hfail, unfinished_none⟩⟩
        subst hu
        have hmc : q₁.maxChunk = maxChunk := hm.limits.2.1
        have hb' : q₁.streaming = true := hm.limits.2.2
        have hreq' : q₁.request = {} := by
          have hheld := hi'.held
          rw [hb'] at hheld
          rw [hm.request, hheld]
          rfl
        obtain ⟨wire, body, more, hd, hlimit⟩ := trace_delivery hi' hb' hreq' hmc ht
        refine ⟨taken ++ wire, moved ++ body, overhead + more, (hd.step hm rfl rfl hx).of_twin, ?_, fun hfits => ?_, fun _ => ?_⟩
        · rw [← List.append_assoc]
          exact hm.limits.1 ▸ hlimit
        · omega
        · rw [continues_of_false hc]
          exact hfail

end Simulation

end ServerCore.Web.HttpParser
