import ServerCore.Web.HttpHead

/-! The body stages: what they read from the stream until a request is complete. -/

namespace ServerCore.Web.HttpParser

open ServerCore.Core

/-- What is still to come of a request: its bytes, the data in them and the chunk framing. -/
inductive Rest : Stage → ℕ → Bytes → Bytes → ℕ → Prop
  | fixed {data : Bytes} : Rest .fixedBody data.length data data 0
  | size {line wire body : Bytes} {n k overhead : ℕ} (hl : SizeLine line n) (hn : n ≠ 0)
      (h : Rest .chunkData n wire body overhead) :
      Rest .chunkSize k (line ++ (crlf ++ wire)) body (line.length + 2 + overhead)
  | last {line wire : Bytes} {k : ℕ} (hl : SizeLine line 0) (h : Rest .trailers 0 wire [] 0) :
      Rest .chunkSize k (line ++ (crlf ++ wire)) [] (line.length + 2)
  | data {data wire body : Bytes} {k overhead : ℕ} (h : Rest .chunkEnd k wire body overhead) :
      Rest .chunkData data.length (data ++ wire) (data ++ body) overhead
  | ended {wire body : Bytes} {k j overhead : ℕ} (h : Rest .chunkSize k wire body overhead) :
      Rest .chunkEnd j (crlf ++ wire) body (2 + overhead)
  | trailer {line wire : Bytes} {k : ℕ} (hv : validTrailer line = true) (h : Rest .trailers k wire [] 0) :
      Rest .trailers k (line ++ (crlf ++ wire)) [] 0
  | blank {k : ℕ} : Rest .trailers k crlf [] 0

structure PayloadOk (payload : Payload) : Prop where
  chunks : ∀ chunks last trailers, payload = .chunked chunks last trailers →
    (∀ c ∈ chunks, SizeLine c.line c.data.length ∧ c.data ≠ []) ∧ SizeLine last 0 ∧
      ∀ t ∈ trailers, validTrailer t = true

section Shape

def Shape (stage : Stage) (remaining : ℕ) (wire body : Bytes) (overhead : ℕ) : Prop :=
  match stage with
  | .fixedBody => wire = body ∧ body.length = remaining ∧ overhead = 0
  | .chunkSize => ∃ chunks last trailers, wire = (Payload.chunked chunks last trailers).encode ∧
      body = (Payload.chunked chunks last trailers).body ∧
      overhead = (Payload.chunked chunks last trailers).overhead ∧
      PayloadOk (.chunked chunks last trailers)
  | .chunkData => ∃ data chunks last trailers,
      wire = data ++ (crlf ++ (Payload.chunked chunks last trailers).encode) ∧ data.length = remaining ∧
      body = data ++ (Payload.chunked chunks last trailers).body ∧
      overhead = 2 + (Payload.chunked chunks last trailers).overhead ∧
      PayloadOk (.chunked chunks last trailers)
  | .chunkEnd => ∃ chunks last trailers, wire = crlf ++ (Payload.chunked chunks last trailers).encode ∧
      body = (Payload.chunked chunks last trailers).body ∧
      overhead = 2 + (Payload.chunked chunks last trailers).overhead ∧
      PayloadOk (.chunked chunks last trailers)
  | .trailers => ∃ trailers, wire = encodeLines trailers ++ crlf ∧ body = [] ∧ overhead = 0 ∧
      ∀ t ∈ trailers, validTrailer t = true
  | .headers => False
  | .failed => False

lemma PayloadOk.cons {c : Chunk} {chunks : List Chunk} {last : Bytes} {trailers : List Bytes}
    (hl : SizeLine c.line c.data.length) (hd : c.data ≠ []) (h : PayloadOk (.chunked chunks last trailers)) :
    PayloadOk (.chunked (c :: chunks) last trailers) := by
  constructor
  rintro _ _ _ ⟨⟩
  obtain ⟨h₁, h₂, h₃⟩ := h.chunks chunks last trailers rfl
  refine ⟨fun c' hc => ?_, h₂, h₃⟩
  rcases List.mem_cons.mp hc with rfl | hc
  · exact ⟨hl, hd⟩
  · exact h₁ c' hc

lemma Rest.shape {stage : Stage} {remaining overhead : ℕ} {wire body : Bytes}
    (h : Rest stage remaining wire body overhead) : Shape stage remaining wire body overhead := by
  induction h with
  | fixed => exact ⟨rfl, rfl, rfl⟩
  | @size line wire body n k overhead hl hn h ih =>
    obtain ⟨data, chunks, last, trailers, rfl, rfl, rfl, rfl, hok⟩ := ih
    refine ⟨⟨line, data⟩ :: chunks, last, trailers, ?_, ?_, ?_, hok.cons hl ?_⟩
    · simp [Payload.encode, Chunk.encode]
    · simp [Payload.body]
    · simp only [Payload.overhead, List.map_cons, List.sum_cons]
      omega
    · intro he
      simp only at he
      exact hn (by rw [he]; rfl)
  | @last line wire k hl h ih =>
    obtain ⟨trailers, rfl, -, -, ht⟩ := ih
    refine ⟨[], line, trailers, ?_, rfl, ?_, ?_⟩
    · simp [Payload.encode]
    · simp [Payload.overhead]
    · constructor
      rintro _ _ _ ⟨⟩
      exact ⟨by simp, hl, ht⟩
  | @data data wire body k overhead h ih =>
    obtain ⟨chunks, last, trailers, rfl, rfl, rfl, hok⟩ := ih
    exact ⟨data, chunks, last, trailers, rfl, rfl, rfl, rfl, hok⟩
  | @ended wire body k j overhead h ih =>
    obtain ⟨chunks, last, trailers, rfl, rfl, rfl, hok⟩ := ih
    exact ⟨chunks, last, trailers, rfl, rfl, rfl, hok⟩
  | @trailer line wire k hv h ih =>
    obtain ⟨trailers, rfl, -, -, ht⟩ := ih
    refine ⟨line :: trailers, ?_, rfl, rfl, ?_⟩
    · simp [encodeLines]
    · intro t hmem
      rcases List.mem_cons.mp hmem with rfl | hmem
      · exact hv
      · exact ht t hmem
  | blank => exact ⟨[], rfl, rfl, rfl, by simp⟩

end Shape

lemma chunkLength_ok {line : Bytes} {n : ℕ} (h : chunkLength line = .ok n) : SizeLine line n := by
  unfold chunkLength findFirst at h
  have hvalue : ∀ digits, fromCharsSize 16 hexDigit digits = some n → n = numeral 16 digits := by
    intro digits hd
    simp only [fromCharsSize, Option.ite_none_right_eq_some, Option.some.injEq] at hd
    exact hd.2.symm
  cases hf : List.findIdx? (fun b => !isHexDigit b) line with
  | none =>
    simp only [hf, upTo, Bool.not_true, Bool.or_false] at h
    split at h
    · cases h
    rename_i hne
    split at h
    · cases h
    rename_i m hm
    obtain rfl := Except.ok.inj h
    refine ⟨line, [], by simp, by simpa using hne, ?_, by simp, by simp, hvalue _ hm⟩
    simpa using List.findIdx?_eq_none_iff.mp hf
  | some k =>
    obtain ⟨hk, hat, hbefore⟩ := List.findIdx?_eq_some_iff_getElem.mp hf
    simp only [hf, upTo] at h
    split at h
    · cases h
    rename_i hbad
    split at h
    · cases h
    rename_i m hm
    obtain rfl := Except.ok.inj h
    simp only [Bool.or_eq_true, not_or, Bool.not_eq_true, Bool.not_eq_false'] at hbad
    refine ⟨line.take k, line.drop k, (List.take_append_drop k line).symm, ?_, fun b hb => ?_, ?_, ?_, hvalue _ hm⟩
    · intro he
      simp [he] at hbad
    · obtain ⟨i, hi, rfl⟩ := List.mem_iff_getElem.mp hb
      have hi' : i < k := by
        rw [List.length_take] at hi
        omega
      simpa using hbefore i hi'
    · rw [List.drop_eq_getElem_cons hk, List.head?_cons]
      intro b hb
      obtain rfl := Option.some.inj hb
      simpa using hat
    · intro _
      exact hbad.2

lemma chunkSizeLine_spec {p q : HttpParser} {line : Bytes} (h : chunkSizeLine p line = .ok q) :
    ∃ n, chunkLength line = .ok n ∧ n ≤ sizeSub p.maxBody p.bodyBytes ∧
      q = { p with
        remaining := n
        chunkOverhead := p.chunkOverhead + (line.length + 2)
        stage := if n = 0 then .trailers else .chunkData } := by
  unfold chunkSizeLine at h
  split at h
  · cases h
  rename_i n hn
  split at h
  · cases h
  obtain rfl := Except.ok.inj h
  exact ⟨n, hn, by omega, rfl⟩

lemma readLine_split {limit n : ℕ} {x : Bytes} (h : readLine limit x = .line n) :
    x = x.take n ++ (crlf ++ x.drop (n + 2)) ∧ (x.take n).length = n ∧ n + 2 ≤ limit := by
  unfold readLine at h
  split at h
  · split at h <;> cases h
  rename_i m hm
  split at h
  · cases h
  obtain rfl : m = n := by simpa using h
  have hb := find_bound hm
  refine ⟨find_split hm, ?_, by omega⟩
  rw [List.length_take]
  omega

lemma startsWith_split {x : Bytes} (h : startsWith x crlf = true) : x = crlf ++ x.drop 2 := by
  obtain ⟨rest, rfl⟩ := List.isPrefixOf_iff_prefix.mp h
  rfl

/-- The body so far is `acc`; in streaming mode none of it is held back. -/
structure InBody (p : HttpParser) (acc : Bytes) : Prop where
  count : p.bodyBytes = acc.length
  limit : p.bodyBytes ≤ p.maxBody
  room : p.stage = .fixedBody ∨ p.stage = .chunkData → p.bodyBytes + p.remaining ≤ p.maxBody
  held : p.request.body = if p.streaming then [] else acc
  begun : p.stage ≠ .headers

structure Moved (p : HttpParser) (e : Option Event) (q : HttpParser) (taken moved : Bytes) (overhead : ℕ) :
    Prop where
  request : q.request = { p.request with body := q.request.body }
  limits : q.maxBody = p.maxBody ∧ q.maxChunk = p.maxChunk ∧ q.streaming = p.streaming
  rest : ∀ wire body more, Rest q.stage q.remaining wire body more →
    Rest p.stage p.remaining (taken ++ wire) (moved ++ body) (overhead + more)
  event : (e = none ∧ (p.streaming = true → moved = [])) ∨ (e = some .continue100 ∧ moved = []) ∨
    (e = some (.body moved) ∧ p.streaming = true ∧ moved ≠ [] ∧ moved.length ≤ p.maxChunk)
  continued : q.expectsContinue = false ∧ (p.expectsContinue = true ↔ e = some .continue100)

section Moves

variable {p q : HttpParser} {x rest acc : Bytes} {e : Option Event}

lemma takeCount_maxChunk (hb : p.streaming = true) : takeCount p x ≤ p.maxChunk := by
  simp only [takeCount, hb, if_true]
  omega

lemma length_takeCount (p : HttpParser) (x : Bytes) : (x.take (takeCount p x)).length = takeCount p x := by
  rw [List.length_take]
  have := (takeCount_le p x).1
  omega

lemma fixedPart_moved (hi : InBody p acc) (hs : p.stage = .fixedBody) (hc : p.expectsContinue = false)
    (hb : p.streaming = true) (ht : takeCount p x ≠ 0) :
    InBody (emitted p (x.take (takeCount p x))) (acc ++ x.take (takeCount p x)) ∧
      Moved p (some (.body (p.request.body ++ x.take (takeCount p x)))) (emitted p (x.take (takeCount p x)))
        (x.take (takeCount p x)) (x.take (takeCount p x)) 0 := by
  have hlen := length_takeCount p x
  have hle := (takeCount_le p x).2
  have hroom := hi.room (.inl hs)
  have hempty : p.request.body = [] := by rw [hi.held, hb]; rfl
  have hcount := hi.count
  constructor
  · refine ⟨?_, ?_, fun _ => ?_, ?_, hi.begun⟩
    · simp only [emitted, withBody, List.length_append, hi.count]
    · simp only [emitted, withBody, hlen]
      omega
    · simp only [emitted, withBody, hlen]
      omega
    · simp [emitted, withBody, hb]
  · refine ⟨rfl, ⟨rfl, rfl, rfl⟩, fun wire body more h => ?_, .inr (.inr ⟨?_, hb, ?_, ?_⟩), ?_⟩
    · have hstage : (emitted p (x.take (takeCount p x))).stage = .fixedBody := hs
      have hrem : (emitted p (x.take (takeCount p x))).remaining = p.remaining - takeCount p x := by
        simp only [emitted, withBody, hlen]
      rw [hstage, hrem] at h
      rw [hs]
      generalize hn : p.remaining - takeCount p x = n at h
      cases h
      have hr : p.remaining = (x.take (takeCount p x) ++ wire).length := by
        rw [List.length_append, hlen]
        omega
      rw [hr]
      exact .fixed
    · rw [hempty, List.nil_append]
    · intro he
      rw [he] at hlen
      exact ht hlen.symm
    · rw [hlen]
      exact takeCount_maxChunk hb
    · exact ⟨hc, by simp [hc]⟩

lemma dataPart_moved (hi : InBody p acc) (hs : p.stage = .chunkData) (hc : p.expectsContinue = false)
    (hb : p.streaming = true) (ht : takeCount p x ≠ 0) :
    InBody { emitted p (x.take (takeCount p x)) with
        stage := if p.remaining ≤ takeCount p x then .chunkEnd else .chunkData } (acc ++ x.take (takeCount p x)) ∧
      Moved p (some (.body (p.request.body ++ x.take (takeCount p x))))
        { emitted p (x.take (takeCount p x)) with
          stage := if p.remaining ≤ takeCount p x then .chunkEnd else .chunkData }
        (x.take (takeCount p x)) (x.take (takeCount p x)) 0 := by
  have hlen := length_takeCount p x
  have hle := (takeCount_le p x).2
  have hroom := hi.room (.inr hs)
  have hempty : p.request.body = [] := by rw [hi.held, hb]; rfl
  have hcount := hi.count
  constructor
  · refine ⟨?_, ?_, fun _ => ?_, ?_, ?_⟩
    · simp only [emitted, withBody, List.length_append, hi.count]
    · simp only [emitted, withBody, hlen]
      omega
    · simp only [emitted, withBody, hlen]
      omega
    · simp [emitted, withBody, hb]
    · dsimp only
      split <;> simp
  · refine ⟨rfl, ⟨rfl, rfl, rfl⟩, fun wire body more h => ?_, .inr (.inr ⟨?_, hb, ?_, ?_⟩), ?_⟩
    · have hrem : (emitted p (x.take (takeCount p x))).remaining = p.remaining - takeCount p x := by
        simp only [emitted, withBody, hlen]
      rw [hs, Nat.zero_add]
      dsimp only at h
      split at h
      · have hr : p.remaining = (x.take (takeCount p x)).length := by omega
        rw [hr]
        exact .data h
      · rw [hrem] at h
        generalize hn : p.remaining - takeCount p x = n at h
        cases h with
        | @data data wire body k _ h =>
          have hr : p.remaining = (x.take (takeCount p x) ++ data).length := by
            rw [List.length_append, hlen]
            omega
          rw [hr, ← List.append_assoc, ← List.append_assoc]
          exact .data h
    · rw [hempty, List.nil_append]
    · intro he
      rw [he] at hlen
      exact ht hlen.symm
    · rw [hlen]
      exact takeCount_maxChunk hb
    · exact ⟨hc, by simp [hc]⟩

lemma dataDone_moved (hi : InBody p acc) (hs : p.stage = .chunkData) (hc : p.expectsContinue = false)
    (hb : p.streaming = true → takeCount p x = 0) (hr : p.remaining ≤ takeCount p x) :
    InBody { withBody p (x.take (takeCount p x)) with stage := .chunkEnd } (acc ++ x.take (takeCount p x)) ∧
      Moved p none { withBody p (x.take (takeCount p x)) with stage := .chunkEnd }
        (x.take (takeCount p x)) (x.take (takeCount p x)) 0 := by
  have hlen := length_takeCount p x
  have hle := (takeCount_le p x).2
  have hroom := hi.room (.inr hs)
  have hnone : p.streaming = true → x.take (takeCount p x) = [] := by
    intro h
    rw [hb h, List.take_zero]
  constructor
  · refine ⟨?_, ?_, fun h => ?_, ?_, by simp⟩
    · simp only [withBody, List.length_append, hi.count]
    · simp only [withBody, hlen]
      omega
    · simp at h
    · simp only [withBody, hi.held]
      split
      · rename_i hstream
        rw [hnone hstream]
        rfl
      · rfl
  · refine ⟨rfl, ⟨rfl, rfl, rfl⟩, fun wire body more h => ?_, .inl ⟨rfl, hnone⟩, ?_⟩
    · have hr : p.remaining = (x.take (takeCount p x)).length := by omega
      rw [hs, hr, Nat.zero_add]
      exact .data h
    · exact ⟨hc, by simp [hc]⟩

lemma sizeLine_moved {n : ℕ} (hi : InBody p acc) (hs : p.stage = .chunkSize) (hc : p.expectsContinue = false)
    (hl : readLine (sizeSub p.maxHeaders p.chunkOverhead) x = .line n)
    (hr : chunkSizeLine p (x.take n) = .ok q) :
    InBody q acc ∧ Moved p none q (x.take n ++ crlf) [] (n + 2) := by
  obtain ⟨k, hk, hroom, rfl⟩ := chunkSizeLine_spec hr
  obtain ⟨-, hn, -⟩ := readLine_split hl
  rw [sizeSub_eq hi.limit] at hroom
  have hline := chunkLength_ok hk
  constructor
  · refine ⟨hi.count, hi.limit, fun _ => ?_, hi.held, ?_⟩
    · have := hi.limit
      simp only
      omega
    · dsimp only
      split <;> simp
  · refine ⟨rfl, ⟨rfl, rfl, rfl⟩, fun wire body more h => ?_, .inl ⟨rfl, fun _ => rfl⟩, ?_⟩
    · rw [hs, List.append_assoc]
      nth_rewrite 2 [← hn]
      dsimp only at h
      split at h
      · rename_i h0
        subst h0
        cases h with
        | trailer hv h => exact .last hline (.trailer hv h)
        | blank => exact .last hline .blank
      · rename_i h0
        exact .size hline h0 h
    · exact ⟨hc, by simp [hc]⟩

lemma continue_moved (hi : InBody p acc) (hc : p.expectsContinue = true) :
    InBody { p with expectsContinue := false } acc ∧
      Moved p (some .continue100) { p with expectsContinue := false } [] [] 0 := by
  refine ⟨⟨hi.count, hi.limit, hi.room, hi.held, hi.begun⟩, rfl, ⟨rfl, rfl, rfl⟩, fun wire body more h => ?_,
    .inr (.inl ⟨rfl, rfl⟩), rfl, by simp [hc]⟩
  rw [Nat.zero_add]
  exact h

lemma dataEnd_moved (hi : InBody p acc) (hs : p.stage = .chunkEnd) (hc : p.expectsContinue = false) (n : ℕ) :
    InBody { p with chunkOverhead := n, stage := .chunkSize } acc ∧
      Moved p none { p with chunkOverhead := n, stage := .chunkSize } crlf [] 2 := by
  refine ⟨⟨hi.count, hi.limit, by simp, hi.held, by simp⟩, rfl, ⟨rfl, rfl, rfl⟩, fun wire body more h => ?_,
    .inl ⟨rfl, fun _ => rfl⟩, hc, by simp [hc]⟩
  rw [hs]
  exact .ended h

lemma trailer_moved {line : Bytes} (hi : InBody p acc) (hs : p.stage = .trailers)
    (hc : p.expectsContinue = false) (hv : validTrailer line = true) (n : ℕ) :
    InBody { p with trailerBytes := n } acc ∧ Moved p none { p with trailerBytes := n } (line ++ crlf) [] 0 := by
  refine ⟨⟨hi.count, hi.limit, hi.room, hi.held, hi.begun⟩, rfl, ⟨rfl, rfl, rfl⟩, fun wire body more h => ?_,
    .inl ⟨rfl, fun _ => rfl⟩, hc, by simp [hc]⟩
  dsimp only at h
  rw [hs] at h ⊢
  rw [List.append_assoc, Nat.zero_add]
  cases h with
  | trailer hv' h => exact .trailer hv (.trailer hv' h)
  | blank => exact .trailer hv .blank

lemma Goes.moved (hi : InBody p acc) (h : Goes p x e q rest) (hne : ∀ r, e ≠ some (.complete r)) :
    ∃ taken moved overhead, x = taken ++ rest ∧ InBody q (acc ++ moved) ∧ Moved p e q taken moved overhead := by
  cases h with
  | head hs => exact absurd hs hi.begun
  | continue100 hh hf hc => exact ⟨[], [], 0, rfl, (List.append_nil acc).symm ▸ continue_moved hi hc⟩
  | fixedPart hs hc hb ht =>
    exact ⟨_, _, 0, (List.take_append_drop _ x).symm, fixedPart_moved hi hs hc hb ht⟩
  | fixedDone => exact absurd rfl (hne _)
  | sizeLine hs hc hl hr =>
    refine ⟨_, [], _, ?_, (List.append_nil acc).symm ▸ sizeLine_moved hi hs hc hl hr⟩
    rw [List.append_assoc]
    exact (readLine_split hl).1
  | dataPart hs hc hb ht =>
    exact ⟨_, _, 0, (List.take_append_drop _ x).symm, dataPart_moved hi hs hc hb ht⟩
  | dataDone hs hc hb hr =>
    exact ⟨_, _, 0, (List.take_append_drop _ x).symm, dataDone_moved hi hs hc hb hr⟩
  | dataEnd hs hc hx hl ho =>
    exact ⟨crlf, [], 2, startsWith_split hx, (List.append_nil acc).symm ▸ dataEnd_moved hi hs hc _⟩
  | @trailer n hs hc hl hn hv =>
    refine ⟨x.take n ++ crlf, [], 0, ?_, (List.append_nil acc).symm ▸ trailer_moved hi hs hc hv _⟩
    rw [List.append_assoc]
    exact (readLine_split hl).1
  | trailersDone => exact absurd rfl (hne _)

lemma Goes.done {r : HttpRequest} (hi : InBody p acc) (h : Goes p x (some (.complete r)) q rest) :
    ∃ taken moved, x = taken ++ rest ∧ Rest p.stage p.remaining taken moved 0 ∧
      r = { p.request with body := p.request.body ++ moved } ∧ (acc ++ moved).length ≤ p.maxBody ∧
      (p.streaming = true → moved = []) ∧ p.expectsContinue = false ∧
      q = { p.completed with request := {} } := by
  generalize he : some (Event.complete r) = e at h
  have hcount := hi.count
  have hlimit := hi.limit
  cases h with
  | head hs => exact absurd hs hi.begun
  | continue100 => simp at he
  | fixedPart => simp at he
  | fixedDone hs hc hb hr =>
    have hlen := length_takeCount p x
    have hle := (takeCount_le p x).2
    have hroom := hi.room (.inl hs)
    obtain rfl := Event.complete.inj (Option.some.inj he)
    refine ⟨_, _, (List.take_append_drop _ x).symm, ?_, rfl, ?_, ?_, hc, rfl⟩
    · have hr' : p.remaining = (x.take (takeCount p x)).length := by omega
      rw [hs, hr']
      exact .fixed
    · rw [List.length_append, hlen]
      omega
    · intro h
      rw [hb h, List.take_zero]
  | sizeLine => simp at he
  | dataPart => simp at he
  | dataDone => simp at he
  | dataEnd => simp at he
  | trailer => simp at he
  | trailersDone hs hc hl =>
    obtain rfl := Event.complete.inj (Option.some.inj he)
    refine ⟨crlf, [], ?_, ?_, ?_, ?_, fun _ => rfl, hc, rfl⟩
    · have hsplit := (readLine_split hl).1
      rwa [List.take_zero, List.nil_append] at hsplit
    · rw [hs]
      exact .blank
    · rw [List.append_nil]
    · rw [List.append_nil]
      omega

end Moves

end ServerCore.Web.HttpParser
