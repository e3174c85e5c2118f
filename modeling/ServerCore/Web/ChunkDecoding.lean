import ServerCore.Web.ChunkEncoding

/-! The chunk stages of the parser on what `EncodeChunk` wrote. -/

namespace ServerCore.Web.HttpParser

open ServerCore.Core ServerCore.Foundations.StreamDecoder

def encoded (strings : List Bytes) : Bytes :=
  strings.flatMap (fun s => (chunkOf s).encode) ++ (toChars 16 0 ++ (crlf ++ crlf))

def framing (s : Bytes) : ℕ := (toChars 16 s.length).length + 4

def Framing (streaming : Bool) (maxHeaders : ℕ) : ℕ → List Bytes → Prop
  | overhead, [] => overhead + 3 ≤ maxHeaders
  | overhead, s :: strings => overhead + framing s ≤ maxHeaders ∧
      Framing streaming maxHeaders (if streaming then 0 else overhead + framing s) strings

def Sendable (strings : List Bytes) : Prop := ∀ s ∈ strings, s ≠ [] ∧ s.length < sizeModulus

inductive Ahead (p : HttpParser) : Bytes → Bytes → Prop
  | size {strings : List Bytes} (hs : p.stage = .chunkSize) (hsend : Sendable strings)
      (hf : Framing p.streaming p.maxHeaders p.chunkOverhead strings) : Ahead p (encoded strings) strings.flatten
  | data {data : Bytes} {strings : List Bytes} (hs : p.stage = .chunkData) (hlen : data.length = p.remaining)
      (hne : data ≠ []) (hsend : Sendable strings) (ho : p.chunkOverhead + 2 ≤ p.maxHeaders)
      (hf : Framing p.streaming p.maxHeaders (if p.streaming then 0 else p.chunkOverhead + 2) strings) :
      Ahead p (data ++ (crlf ++ encoded strings)) (data ++ strings.flatten)
  | ended {strings : List Bytes} (hs : p.stage = .chunkEnd) (hsend : Sendable strings)
      (ho : p.chunkOverhead + 2 ≤ p.maxHeaders)
      (hf : Framing p.streaming p.maxHeaders (if p.streaming then 0 else p.chunkOverhead + 2) strings) :
      Ahead p (crlf ++ encoded strings) strings.flatten
  | trailers (hs : p.stage = .trailers) : Ahead p crlf []

structure Ready (p : HttpParser) (wire body : Bytes) : Prop where
  ahead : Ahead p wire body
  limit : p.bodyBytes + body.length ≤ p.maxBody
  trailerBytes : p.trailerBytes = 0
  room : 4 ≤ p.maxHeaders
  piece : p.streaming = true → 0 < p.maxChunk
  held : p.streaming = true → p.request.body = []

def Decoded (p : HttpParser) (body : Bytes) (events : List Event) : Prop :=
  match p.streaming with
  | true => ∃ bodies : List Bytes, events = continues p ++ (bodies.map .body ++ [.complete p.request]) ∧
      bodies.flatten = body ∧ ∀ b ∈ bodies, 1 ≤ b.length ∧ b.length ≤ p.maxChunk
  | false => events = continues p ++ [.complete { p.request with body := p.request.body ++ body }]

/-- A step on the front `x` of the encoded strings: it waits for the rest, goes on or is done. -/
inductive Turn (p : HttpParser) (x y body more : Bytes) : Prop
  | need {q : HttpParser} {rest wire' body' : Bytes} (h : stageStep p x = .need q rest) (hr : Ready q wire' body')
      (hx : rest ++ y = wire' ++ more) (hy : y ≠ [])
      (lift : ∀ events, Decoded q body' events → Decoded p body events)
  | go {e : Option Event} {q : HttpParser} {rest wire' body' : Bytes} (h : stageStep p x = .go e q rest)
      (he : ∀ r, e ≠ some (.complete r) ∧ e ≠ some (.headers r)) (hr : Ready q wire' body')
      (hx : rest ++ y = wire' ++ more) (lift : ∀ events, Decoded q body' events → Decoded p body (e.toList ++ events))
  | done {r : HttpRequest} {q : HttpParser} {rest : Bytes} (h : stageStep p x = .go (some (.complete r)) q rest)
      (hx : rest ++ y = more) (hq : Fresh q) (hd : Decoded p body [.complete r])

section Encoded

lemma encoded_nil : encoded [] = toChars 16 0 ++ (crlf ++ crlf) := rfl

lemma encoded_cons (s : Bytes) (strings : List Bytes) :
    encoded (s :: strings) = toChars 16 s.length ++ (crlf ++ (s ++ (crlf ++ encoded strings))) := by
  simp only [encoded, List.flatMap_cons, Chunk.encode, chunkOf, List.append_assoc]

lemma toChars_zero : toChars 16 0 = [48] := rfl

lemma Sendable.tail {s : Bytes} {strings : List Bytes} (h : Sendable (s :: strings)) : Sendable strings :=
  fun t ht => h t (List.mem_cons_of_mem s ht)

lemma framing_of_total {maxHeaders overhead : ℕ} {strings : List Bytes}
    (h : overhead + ((strings.map framing).sum + 3) ≤ maxHeaders) : Framing false maxHeaders overhead strings := by
  induction strings generalizing overhead with
  | nil => simpa [Framing] using h
  | cons s strings ih =>
    rw [List.map_cons, List.sum_cons] at h
    refine ⟨by omega, ih ?_⟩
    simp only [Bool.false_eq_true, if_false]
    omega

lemma framing_of_each {maxHeaders : ℕ} {strings : List Bytes} (h : 3 ≤ maxHeaders)
    (heach : ∀ s ∈ strings, framing s ≤ maxHeaders) : Framing true maxHeaders 0 strings := by
  induction strings with
  | nil => simpa [Framing] using h
  | cons s strings ih =>
    refine ⟨by simpa using heach s List.mem_cons_self, ?_⟩
    apply ih
    intro t ht
    exact heach t (List.mem_cons_of_mem s ht)

end Encoded

section Lift

variable {p q : HttpParser} {body body' : Bytes} {events : List Event}

lemma decoded_quiet (h : Decoded q body' events) (hst : q.streaming = p.streaming) (hmax : q.maxChunk = p.maxChunk)
    (hc : p.expectsContinue = false) (hc' : q.expectsContinue = false)
    (hreq : q.streaming = true → q.request = p.request ∧ body' = body)
    (hbuf : ({ q.request with body := q.request.body ++ body' } : HttpRequest) =
      { p.request with body := p.request.body ++ body }) : Decoded p body events := by
  have hcont : continues q = continues p := by rw [continues_of_false hc, continues_of_false hc']
  unfold Decoded at h ⊢
  rw [← hst, ← hmax, ← hcont]
  cases hs : q.streaming with
  | true =>
    obtain ⟨hr, rfl⟩ := hreq hs
    rw [hs] at h
    rw [← hr]
    exact h
  | false =>
    rw [hs] at h
    rw [← hbuf]
    exact h

lemma decoded_body {taken : Bytes} (h : Decoded q body' events) (hst : q.streaming = p.streaming)
    (hb : p.streaming = true) (hmax : q.maxChunk = p.maxChunk) (hc : p.expectsContinue = false)
    (hc' : q.expectsContinue = false) (hreq : q.request = p.request) (hne : taken ≠ [])
    (hle : taken.length ≤ p.maxChunk) : Decoded p (taken ++ body') (.body taken :: events) := by
  unfold Decoded at h ⊢
  rw [hst, hb] at h
  rw [hb]
  obtain ⟨bodies, rfl, rfl, hsizes⟩ := h
  rw [continues_of_false hc, continues_of_false hc', hreq, hmax] at *
  refine ⟨taken :: bodies, rfl, List.flatten_cons, ?_⟩
  intro b hmem
  rcases List.mem_cons.mp hmem with rfl | hmem
  · exact ⟨List.length_pos_iff.mpr hne, hle⟩
  · exact hsizes b hmem

lemma decoded_continue (hc : p.expectsContinue = true)
    (h : Decoded { p with expectsContinue := false } body events) : Decoded p body (.continue100 :: events) := by
  have hcont : continues p = [.continue100] := by simp [continues, hc]
  unfold Decoded at h ⊢
  rw [hcont]
  cases hs : p.streaming with
  | true =>
    simp only [hs] at h ⊢
    obtain ⟨bodies, rfl, hflat, hsizes⟩ := h
    exact ⟨bodies, rfl, hflat, hsizes⟩
  | false =>
    simp only [hs] at h ⊢
    rw [h]
    rfl

end Lift

section Turns

variable {p : HttpParser} {x y wire body more : Bytes}

lemma size_line {n : ℕ} {tail : Bytes} (hs : p.stage = .chunkSize) (hc : p.expectsContinue = false)
    (hn : n < sizeModulus) (hroom : p.chunkOverhead + ((toChars 16 n).length + 2) ≤ p.maxHeaders)
    (hlimit : p.bodyBytes + n ≤ p.maxBody) (hx : x ++ y = toChars 16 n ++ (crlf ++ tail)) :
    (stageStep p x = .need p x ∧ y ≠ []) ∨ ∃ x', x' ++ y = tail ∧ stageStep p x = .go none
      { p with
        remaining := n
        chunkOverhead := p.chunkOverhead + ((toChars 16 n).length + 2)
        stage := if n = 0 then .trailers else .chunkData } x' := by
  have hsub : sizeSub p.maxHeaders p.chunkOverhead = p.maxHeaders - p.chunkOverhead := sizeSub_eq (by omega)
  have hbody : sizeSub p.maxBody p.bodyBytes = p.maxBody - p.bodyBytes := sizeSub_eq (by omega)
  have hfits : (toChars 16 n).length + 2 ≤ p.maxHeaders - p.chunkOverhead := by omega
  have hline := readLine_line_or_wait (toChars_no_cr n) hfits hx
  rw [step_chunkSize x hs hc]
  simp only [chunkSizeBlock, if_neg (not_not_intro hs), hsub]
  rcases hline with ⟨hwait, hy⟩ | ⟨x', rfl, hx', hread⟩
  · left
    rw [hwait]
    exact ⟨rfl, hy⟩
  · right
    refine ⟨x', hx', ?_⟩
    have hdrop : (toChars 16 n ++ (crlf ++ x')).drop ((toChars 16 n).length + 2) = x' := by
      rw [← List.drop_drop, List.drop_left]
      rfl
    have hok : chunkSizeLine p (toChars 16 n) = .ok { p with
        remaining := n
        chunkOverhead := p.chunkOverhead + ((toChars 16 n).length + 2)
        stage := if n = 0 then .trailers else .chunkData } := by
      unfold chunkSizeLine
      rw [chunkLength_toChars hn]
      dsimp only
      rw [if_neg (by omega)]
    simp only [hread, List.take_left, hok, hdrop, outcome]

lemma size_turn {strings : List Bytes} (hr : Ready p wire strings.flatten) (hs : p.stage = .chunkSize)
    (hc : p.expectsContinue = false) (hsend : Sendable strings)
    (hf : Framing p.streaming p.maxHeaders p.chunkOverhead strings) (hx : x ++ y = encoded strings ++ more) :
    Turn p x y strings.flatten more := by
  have hlimit := hr.limit
  have hstay : Ready p (encoded strings) strings.flatten :=
    ⟨.size hs hsend hf, hr.limit, hr.trailerBytes, hr.room, hr.piece, hr.held⟩
  cases strings with
  | nil =>
    have hzero : (toChars 16 0).length = 1 := by rw [toChars_zero]; rfl
    have hx' : x ++ y = toChars 16 0 ++ (crlf ++ (crlf ++ more)) := by
      rw [hx, encoded_nil]
      simp only [List.append_assoc]
    simp only [Framing] at hf
    rcases size_line hs hc (by decide) (by omega) (by simpa using hlimit) hx' with ⟨hneed, hy⟩ | ⟨x', hx'', hgo⟩
    · exact .need hneed hstay hx hy fun _ h => h
    · have hready : Ready { p with
          remaining := 0
          chunkOverhead := p.chunkOverhead + ((toChars 16 0).length + 2)
          stage := .trailers } crlf [] :=
        ⟨.trailers rfl, hlimit, hr.trailerBytes, hr.room, hr.piece, hr.held⟩
      refine .go hgo (by simp) hready hx'' ?_
      intro events h
      exact decoded_quiet h rfl rfl hc hc (fun _ => ⟨rfl, rfl⟩) rfl
  | cons s strings =>
    obtain ⟨hne, hsize⟩ := hsend s List.mem_cons_self
    obtain ⟨hroom, hf⟩ := hf
    have hx' : x ++ y = toChars 16 s.length ++ (crlf ++ (s ++ (crlf ++ encoded strings) ++ more)) := by
      rw [hx, encoded_cons]
      simp only [List.append_assoc]
    have hzero : s.length ≠ 0 := fun h => hne (List.length_eq_zero_iff.mp h)
    rw [List.flatten_cons, List.length_append] at hlimit
    unfold framing at hroom hf
    rcases size_line hs hc hsize (by omega) (by omega) hx' with ⟨hneed, hy⟩ | ⟨x', hx'', hgo⟩
    · exact .need hneed hstay hx hy fun _ h => h
    · rw [if_neg hzero] at hgo
      have hready : Ready { p with
          remaining := s.length
          chunkOverhead := p.chunkOverhead + ((toChars 16 s.length).length + 2)
          stage := .chunkData } (s ++ (crlf ++ encoded strings)) (s ++ strings.flatten) := by
        refine ⟨.data rfl rfl hne hsend.tail ?_ hf, ?_, hr.trailerBytes, hr.room, hr.piece, hr.held⟩
        · dsimp only
          omega
        · rw [List.length_append]
          exact hlimit
      refine .go hgo (by simp) hready hx'' ?_
      intro events h
      exact decoded_quiet h rfl rfl hc hc (fun _ => ⟨rfl, rfl⟩) rfl

lemma data_split {data tail : Bytes} (hx : x ++ y = data ++ tail) (hlt : x.length < data.length) :
    ∃ data', data = x ++ data' ∧ data' ≠ [] ∧ y = data' ++ tail := by
  obtain ⟨data', rfl⟩ : x <+: data :=
    List.prefix_of_prefix_length_le (hx ▸ List.prefix_append x y) (List.prefix_append data tail) hlt.le
  refine ⟨data', rfl, ?_, ?_⟩
  · rintro rfl
    simp at hlt
  · rw [List.append_assoc] at hx
    exact List.append_cancel_left hx

lemma data_rest {data tail : Bytes} (hx : x ++ y = data ++ tail) (hle : data.length ≤ x.length) :
    ∃ x', x = data ++ x' ∧ x' ++ y = tail := by
  obtain ⟨x', rfl⟩ : data <+: x :=
    List.prefix_of_prefix_length_le (hx ▸ List.prefix_append data tail) (List.prefix_append x y) hle
  rw [List.append_assoc] at hx
  exact ⟨x', rfl, List.append_cancel_left hx⟩

lemma stored_turn {data : Bytes} {strings : List Bytes} (hr : Ready p wire (data ++ strings.flatten))
    (hs : p.stage = .chunkData) (hc : p.expectsContinue = false) (hb : p.streaming = false)
    (hlen : data.length = p.remaining) (hsend : Sendable strings) (ho : p.chunkOverhead + 2 ≤ p.maxHeaders)
    (hf : Framing p.streaming p.maxHeaders (if p.streaming then 0 else p.chunkOverhead + 2) strings)
    (hx : x ++ y = data ++ (crlf ++ encoded strings) ++ more) : Turn p x y (data ++ strings.flatten) more := by
  have hlimit := hr.limit
  rw [List.length_append] at hlimit
  rw [List.append_assoc] at hx
  have hheld : ∀ q : HttpParser, q.streaming = p.streaming → q.streaming = true → q.request.body = [] := by
    intro q hq htrue
    rw [hq, hb] at htrue
    cases htrue
  have hstep := step_chunkData x hs hc hb
  rcases Nat.lt_or_ge x.length data.length with hlt | hge
  · obtain ⟨data', rfl, hne, rfl⟩ := data_split hx hlt
    rw [List.length_append] at hlen hlimit hlt
    have hready : Ready (withBody p x) (data' ++ (crlf ++ encoded strings)) (data' ++ strings.flatten) := by
      refine ⟨.data hs ?_ hne hsend ho hf, ?_, hr.trailerBytes, hr.room, hr.piece, hheld _ rfl⟩
      · simp only [withBody]
        omega
      · simp only [withBody, List.length_append]
        omega
    rw [if_neg (by omega)] at hstep
    refine .need hstep hready ?_ ?_ ?_
    · rw [List.nil_append]
      simp only [List.append_assoc]
    · simp [hne]
    · intro events h
      refine decoded_quiet h rfl rfl hc hc (fun ht => ?_) ?_
      · cases hb.symm.trans ht
      · simp only [withBody, List.append_assoc]
  · obtain ⟨x', rfl, hx'⟩ := data_rest hx hge
    have htake : (data ++ x').take p.remaining = data := by rw [← hlen, List.take_left]
    have hdrop : (data ++ x').drop p.remaining = x' := by rw [← hlen, List.drop_left]
    rw [if_pos (by omega), htake, hdrop] at hstep
    have hready : Ready { withBody p data with stage := .chunkEnd } (crlf ++ encoded strings) strings.flatten := by
      refine ⟨.ended rfl hsend ho hf, ?_, hr.trailerBytes, hr.room, hr.piece, hheld _ rfl⟩
      simp only [withBody]
      omega
    refine .go hstep (by simp) hready ?_ ?_
    · rw [hx', List.append_assoc]
    · intro events h
      refine decoded_quiet h rfl rfl hc hc (fun ht => ?_) ?_
      · cases hb.symm.trans ht
      · simp only [withBody, List.append_assoc]

lemma step_streamData (hs : p.stage = .chunkData) (hc : p.expectsContinue = false) (hb : p.streaming = true)
    (ht : takeCount p x ≠ 0) : stageStep p x = .go (some (.body (p.request.body ++ x.take (takeCount p x))))
      { emitted p (x.take (takeCount p x)) with
        stage := if p.remaining ≤ takeCount p x then .chunkEnd else .chunkData } (x.drop (takeCount p x)) := by
  have hcond : (p.streaming && takeCount p x != 0) = true := by simp [hb, ht]
  have hrem := withBody_remaining p x
  simp only [stageStep, stageFlow, hs, hc, Bool.false_eq_true, if_false, chunkDataBlock, takeBody_eq, ne_eq,
    not_true_eq_false, hcond, if_true]
  by_cases hr : p.remaining ≤ takeCount p x
  · rw [if_pos (by omega), if_pos hr]
    rfl
  · rw [if_neg (by omega), if_neg hr]
    simp only [emitBody, outcome, event, emitted]
    rw [← hs]
    rfl

lemma streamed_turn {data : Bytes} {strings : List Bytes} (hr : Ready p wire (data ++ strings.flatten))
    (hs : p.stage = .chunkData) (hc : p.expectsContinue = false) (hb : p.streaming = true)
    (hlen : data.length = p.remaining) (hne : data ≠ []) (hsend : Sendable strings)
    (ho : p.chunkOverhead + 2 ≤ p.maxHeaders)
    (hf : Framing p.streaming p.maxHeaders (if p.streaming then 0 else p.chunkOverhead + 2) strings)
    (hx : x ++ y = data ++ (crlf ++ encoded strings) ++ more) : Turn p x y (data ++ strings.flatten) more := by
  have hlimit := hr.limit
  have hpiece := hr.piece hb
  have hempty := hr.held hb
  rw [List.length_append] at hlimit
  have hpos : 0 < data.length := List.length_pos_iff.mpr hne
  by_cases ht : takeCount p x = 0
  · obtain rfl : x = [] := by
      apply List.length_eq_zero_iff.mp
      simp only [takeCount, hb, if_true] at ht
      omega
    have hneed : stageStep p [] = .need p [] := by
      have hcond : (p.streaming && takeCount p [] != 0) = false := by simp [ht]
      have hrem : ¬ (withBody p (([] : Bytes).take (takeCount p []))).remaining = 0 := by
        rw [withBody_remaining]
        omega
      simp only [stageStep, stageFlow, hs, hc, Bool.false_eq_true, if_false, chunkDataBlock, takeBody_eq, ne_eq,
        not_true_eq_false, hcond, hrem, not_false_eq_true, if_true]
      simp only [List.take_nil, List.drop_nil, withBody_nil, outcome]
    have hstay : Ready p (data ++ (crlf ++ encoded strings)) (data ++ strings.flatten) :=
      ⟨.data hs hlen hne hsend ho hf, hr.limit, hr.trailerBytes, hr.room, hr.piece, hr.held⟩
    refine .need hneed hstay hx ?_ fun _ h => h
    rw [List.nil_append] at hx
    rw [hx]
    simp [hne]
  · have hstep := step_streamData hs hc hb ht
    have hcount := length_takeCount p x
    obtain ⟨hle, hle'⟩ := takeCount_le p x
    have hmax := takeCount_maxChunk hb (x := x)
    generalize hn : takeCount p x = n at *
    generalize htaken : x.take n = taken at *
    have hx' : taken ++ (x.drop n ++ y) = data ++ (crlf ++ encoded strings ++ more) := by
      rw [← htaken, ← List.append_assoc, List.take_append_drop, hx]
      simp only [List.append_assoc]
    have htne : taken ≠ [] := by
      rintro rfl
      exact ht hcount.symm
    rw [hempty, List.nil_append] at hstep
    have hrequest : (emitted p taken).request = p.request := by
      simp only [emitted, withBody]
      rw [← hempty]
    by_cases hlast : p.remaining ≤ n
    · obtain ⟨rest, rfl, hrest⟩ := data_rest hx' (by omega)
      obtain rfl : rest = [] := by
        rw [List.length_append] at hcount
        apply List.length_eq_zero_iff.mp
        omega
      rw [List.append_nil] at *
      rw [if_pos hlast] at hstep
      have hready : Ready { emitted p data with stage := .chunkEnd } (crlf ++ encoded strings) strings.flatten := by
        refine ⟨.ended rfl hsend ho hf, ?_, hr.trailerBytes, hr.room, hr.piece, fun _ => rfl⟩
        simp only [emitted, withBody]
        omega
      refine .go hstep (by simp) hready hrest fun events h => ?_
      exact decoded_body h rfl hb rfl hc hc hrequest htne (by omega)
    · obtain ⟨data', rfl, hne', hrest⟩ := data_split hx' (by omega)
      rw [List.length_append] at hlen hlimit
      rw [if_neg hlast, ← hs] at hstep
      have hready : Ready (emitted p taken) (data' ++ (crlf ++ encoded strings)) (data' ++ strings.flatten) := by
        refine ⟨.data hs ?_ hne' hsend ho hf, ?_, hr.trailerBytes, hr.room, hr.piece, fun _ => rfl⟩
        · simp only [emitted, withBody]
          omega
        · simp only [emitted, withBody, List.length_append]
          omega
      refine .go hstep (by simp) hready ?_ fun events h => ?_
      · rw [hrest]
        simp only [List.append_assoc]
      · rw [List.append_assoc]
        exact decoded_body h rfl hb rfl hc hc hrequest htne (by omega)

lemma ended_turn {strings : List Bytes} (hr : Ready p wire strings.flatten) (hs : p.stage = .chunkEnd)
    (hc : p.expectsContinue = false) (hsend : Sendable strings) (ho : p.chunkOverhead + 2 ≤ p.maxHeaders)
    (hf : Framing p.streaming p.maxHeaders (if p.streaming then 0 else p.chunkOverhead + 2) strings)
    (hx : x ++ y = crlf ++ encoded strings ++ more) : Turn p x y strings.flatten more := by
  have hroom := hr.room
  have hstep := step_chunkEnd x hs hc
  rw [List.append_assoc] at hx
  simp only [chunkEndBlock, if_neg (not_not_intro hs)] at hstep
  rcases Nat.lt_or_ge x.length 2 with hlt | hge
  · rw [if_pos hlt] at hstep
    have hstay : Ready p (crlf ++ encoded strings) strings.flatten :=
      ⟨.ended hs hsend ho hf, hr.limit, hr.trailerBytes, hr.room, hr.piece, hr.held⟩
    obtain ⟨rest, -, hne, rfl⟩ := data_split hx hlt
    refine .need hstep hstay ?_ ?_ fun _ h => h
    · rw [hx, List.append_assoc]
    · simp [hne]
  · obtain ⟨x', rfl, hx'⟩ := data_rest hx hge
    have hstart : startsWith (crlf ++ x') crlf = true :=
      List.isPrefixOf_iff_prefix.mpr (List.prefix_append crlf x')
    have hover : ¬ p.chunkOverhead > sizeSub p.maxHeaders 2 := by
      rw [sizeSub_eq (by omega)]
      omega
    rw [if_neg (by omega), hstart, if_neg (by simp), if_neg hover] at hstep
    have hready : Ready { p with
        chunkOverhead := if p.streaming then 0 else p.chunkOverhead + 2
        stage := .chunkSize } (encoded strings) strings.flatten :=
      ⟨.size rfl hsend hf, hr.limit, hr.trailerBytes, hr.room, hr.piece, hr.held⟩
    refine .go hstep (by simp) hready hx' fun events h => ?_
    exact decoded_quiet h rfl rfl hc hc (fun _ => ⟨rfl, rfl⟩) rfl

lemma trailers_turn (hr : Ready p crlf []) (hs : p.stage = .trailers) (hc : p.expectsContinue = false)
    (hx : x ++ y = crlf ++ more) : Turn p x y [] more := by
  have hroom := hr.room
  have hstep := step_trailers x hs hc
  have hlimit : sizeSub p.maxHeaders p.trailerBytes = p.maxHeaders := by rw [hr.trailerBytes]; rfl
  simp only [trailersBlock, if_neg (not_not_intro hs), hlimit] at hstep
  have hfits : ([] : Bytes).length + 2 ≤ p.maxHeaders := by
    rw [List.length_nil]
    omega
  rcases readLine_line_or_wait (by simp) hfits hx with ⟨hwait, hy⟩ | ⟨x', rfl, hx', hread⟩
  · rw [hwait] at hstep
    exact .need hstep hr hx hy fun _ h => h
  · simp only [hread, List.length_nil, if_true] at hstep
    refine .done hstep hx' (completed_fresh p) ?_
    unfold Decoded
    rw [continues_of_false hc]
    cases p.streaming with
    | true => exact ⟨[], rfl, rfl, by simp⟩
    | false =>
      dsimp only
      rw [List.append_nil]
      rfl

lemma ready_turn (hr : Ready p wire body) (hx : x ++ y = wire ++ more) : Turn p x y body more := by
  cases hc : p.expectsContinue with
  | true =>
    have hstages : p.stage ≠ .headers ∧ p.stage ≠ .failed := by
      cases hr.ahead with
      | size hs => simp [hs]
      | data hs => simp [hs]
      | ended hs => simp [hs]
      | trailers hs => simp [hs]
    have hready : Ready { p with expectsContinue := false } wire body := by
      refine ⟨?_, hr.limit, hr.trailerBytes, hr.room, hr.piece, hr.held⟩
      cases hr.ahead with
      | size hs hsend hf => exact .size hs hsend hf
      | data hs hlen hne hsend ho hf => exact .data hs hlen hne hsend ho hf
      | ended hs hsend ho hf => exact .ended hs hsend ho hf
      | trailers hs => exact .trailers hs
    exact .go (step_continue p x hstages.1 hstages.2 hc) (by simp) hready hx fun _ h => decoded_continue hc h
  | false =>
    cases hr.ahead with
    | size hs hsend hf => exact size_turn hr hs hc hsend hf hx
    | data hs hlen hne hsend ho hf =>
      cases hb : p.streaming with
      | true => exact streamed_turn hr hs hc hb hlen hne hsend ho hf hx
      | false => exact stored_turn hr hs hc hb hlen hsend ho hf hx
    | ended hs hsend ho hf => exact ended_turn hr hs hc hsend ho hf hx
    | trailers hs => exact trailers_turn hr hs hc hx

end Turns

lemma trace_encoded {onHeaders : HttpParser → HttpParser} {p : HttpParser} {x wire body more : Bytes}
    {pieces : List Bytes} {events : List Event} {result : Option ((HttpParser × Bool) × Bytes)}
    (hr : Ready p wire body) (hx : x ++ pieces.flatten = wire ++ more)
    (h : Trace (requestStep onHeaders) (p, false) x pieces events result) :
    Decoded p body events ∧ ∃ q, result = some ((q, true), more) ∧ Fresh q := by
  generalize hs : (p, false) = s at h
  induction h generalizing p wire body with
  | @done _ x s' rest h =>
    subst hs
    obtain ⟨q, b⟩ := s'
    obtain ⟨rfl, hn⟩ := request_need h
    cases ready_turn hr hx with
    | need _ _ _ hy => exact absurd rfl hy
    | go hgo =>
      rw [hgo] at hn
      cases hn
    | done hgo =>
      rw [hgo] at hn
      cases hn
  | @piece _ x s' rest piece pieces events result h _ ih =>
    subst hs
    obtain ⟨q, b⟩ := s'
    obtain ⟨rfl, hn⟩ := request_need h
    cases ready_turn hr hx with
    | need hneed hr' hx' _ lift =>
      rw [hneed] at hn
      obtain ⟨rfl, rfl⟩ := Outcome.need.inj hn
      rw [List.flatten_cons, ← List.append_assoc] at hx'
      obtain ⟨hd, hend⟩ := ih hr' hx' rfl
      exact ⟨lift _ hd, hend⟩
    | go hgo =>
      rw [hgo] at hn
      cases hn
    | done hgo =>
      rw [hgo] at hn
      cases hn
  | @fail _ x pieces h =>
    subst hs
    have hn := request_fail h
    cases ready_turn hr hx with
    | need hneed =>
      rw [hneed] at hn
      cases hn
    | go hgo =>
      rw [hgo] at hn
      cases hn
    | done hgo =>
      rw [hgo] at hn
      cases hn
  | @go _ x e s' rest pieces events result h ht ih =>
    subst hs
    obtain ⟨q, b⟩ := s'
    obtain ⟨q₀, hn, hflag, hsame, -⟩ := request_go h
    cases ready_turn hr hx with
    | need hneed =>
      rw [hneed] at hn
      cases hn
    | @go e' _ _ _ _ hgo he hr' hx' lift =>
      rw [hgo] at hn
      obtain ⟨rfl, rfl, rfl⟩ := Outcome.go.inj hn
      obtain rfl := hsame fun r => (he r).2
      have hflag' : e'.any isComplete = false := by
        cases e' with
        | none => rfl
        | some e =>
          cases e with
          | complete r => exact absurd rfl (he r).1
          | _ => rfl
      obtain rfl : b = false := hflag.trans hflag'
      obtain ⟨hd, hend⟩ := ih hr' hx' rfl
      exact ⟨lift _ hd, hend⟩
    | done hgo hx' hq hd =>
      rw [hgo] at hn
      obtain ⟨rfl, rfl, rfl⟩ := Outcome.go.inj hn
      obtain rfl := hsame (by simp)
      obtain rfl : b = true := hflag
      obtain ⟨rfl, rfl⟩ := trace_halted ht
      exact ⟨hd, q, by rw [hx'], hq⟩

def configured (streaming : Bool) (maxBody maxChunk : ℕ) (p : HttpParser) : HttpParser :=
  (p.configureBody streaming maxBody maxChunk).2

section Head

variable {p q : HttpParser} {x head : Bytes}

def chunkReader (p : HttpParser) (search : ℕ) (streaming : Bool) (maxBody maxChunk : ℕ) : HttpParser :=
  { p.withSearch search with
    separateHeaders := true, streaming := streaming, maxBody := maxBody, maxChunk := maxChunk, request := {} }

lemma trace_head {streaming : Bool} {maxBody maxChunk : ℕ} {p₁ : HttpParser} {wire : Bytes} {pieces : List Bytes}
    {events : List Event} {result : Option ((HttpParser × Bool) × Bytes)} (hi : Idle p) (hb : Buffered p x)
    (hpair : Paired p q) (hgo : stageStep p (x ++ pieces.flatten) = .go none p₁ wire)
    (h : Trace (requestStep (configured streaming maxBody maxChunk)) (q, false) x pieces events result) :
    ∃ search x' pieces' events', events = .headers p₁.request :: events' ∧ x' ++ pieces'.flatten = wire ∧
      Trace (requestStep (configured streaming maxBody maxChunk))
        (chunkReader p₁ search streaming maxBody maxChunk, false) x' pieces' events' result := by
  generalize hs : (q, false) = s at h
  induction h generalizing p q p₁ with
  | @done _ x s' rest h =>
    subst hs
    obtain ⟨q₁, b⟩ := s'
    obtain ⟨rfl, hn⟩ := request_need h
    rw [List.flatten_nil, List.append_nil] at hgo
    cases same_head hi.stage hpair (x := x) with
    | need hp =>
      rw [hp] at hgo
      cases hgo
    | fail hp =>
      rw [hp] at hgo
      cases hgo
    | go _ hq =>
      rw [hq] at hn
      cases hn
  | @piece _ x s' rest piece pieces events _ h _ ih =>
    subst hs
    obtain ⟨q₁, b⟩ := s'
    obtain ⟨rfl, hn⟩ := request_need h
    cases same_head hi.stage hpair (x := x) with
    | fail _ hq =>
      rw [hq] at hn
      cases hn
    | go _ hq =>
      rw [hq] at hn
      cases hn
    | @need p' q' rest' hp hq hpair' =>
      rw [hq] at hn
      obtain ⟨rfl, rfl⟩ := Outcome.need.inj hn
      have hb' := resumable.inv_mono _ _ piece (resumable.inv_need _ _ _ _ hb hp)
      have hrel := resumable.need_append _ _ _ _ (piece ++ pieces.flatten) hb hp
      rw [List.flatten_cons] at hgo
      rw [hgo, ← List.append_assoc] at hrel
      generalize ho : stageStep p' (rest' ++ piece ++ pieces.flatten) = o at hrel
      cases hrel with
      | @go _ p₂ _ _ hagree =>
        obtain ⟨search, x', pieces', events', hev, hx', ht⟩ := ih (idle_need hi hp).1 hb' hpair' ho rfl
        have hreq : p₁.request = p₂.request := by rw [hagree.1]; rfl
        have hreader : chunkReader p₂ search streaming maxBody maxChunk =
            chunkReader p₁ search streaming maxBody maxChunk := by rw [hagree.1]; rfl
        rw [hreader] at ht
        exact ⟨search, x', pieces', events', by rw [hev, hreq], hx', ht⟩
  | @fail _ x pieces h =>
    subst hs
    have hn := request_fail h
    cases same_head hi.stage hpair (x := x) with
    | fail hp =>
      have hf := resumable.fail_append _ _ pieces.flatten hb hp
      rw [hf] at hgo
      cases hgo
    | need _ hq =>
      rw [hq] at hn
      cases hn
    | go _ hq =>
      rw [hq] at hn
      cases hn
  | @go _ x e s' rest pieces events result h ht _ =>
    subst hs
    obtain ⟨q₁, b⟩ := s'
    obtain ⟨q₀, hn, hflag, -, hconf⟩ := request_go h
    cases same_head hi.stage hpair (x := x) with
    | fail _ hq =>
      rw [hq] at hn
      cases hn
    | need _ hq =>
      rw [hq] at hn
      cases hn
    | @go p' q' rest' hp hq htwin =>
      rw [hq] at hn
      obtain ⟨rfl, rfl, rfl⟩ := Outcome.go.inj hn
      obtain rfl : b = false := hflag
      obtain rfl := hconf _ rfl
      have hwhole := resumable.go_append _ _ _ _ _ pieces.flatten hb hp
      rw [hwhole] at hgo
      obtain ⟨-, rfl, rfl⟩ := Outcome.go.inj hgo
      have hover : p'.chunkOverhead = p.chunkOverhead := by
        obtain ⟨z, blank, h₁, -, -, -, -, -, hp', -⟩ := (step_goes hp).of_headers hi.stage
        simp only [hpair.whole, Bool.false_eq_true, if_false] at hp'
        rw [hp']
        rfl
      have hreader : configured streaming maxBody maxChunk q' =
          chunkReader p' p'.headerSearch streaming maxBody maxChunk := by
        have ht := congrArg (fun z : HttpParser => (configured streaming maxBody maxChunk z)) (htwin maxChunk)
        rw [← hover] at ht
        exact ht
      rw [hreader] at ht
      exact ⟨p'.headerSearch, rest', pieces, events, rfl, rfl, ht⟩

structure Chunked (p₁ : HttpParser) (p : HttpParser) : Prop where
  stage : p₁.stage = .chunkSize
  stored : p₁.streaming = false
  empty : p₁.request.body = []
  counts : p₁.bodyBytes = 0 ∧ p₁.chunkOverhead = 0 ∧ p₁.trailerBytes = 0
  limits : p₁.maxHeaders = p.maxHeaders ∧ p₁.maxBody = p.maxBody
  room : 4 ≤ p.maxHeaders

lemma chunked_head {s : HttpParser} {r : HttpRequest} (hf : Fresh p) (hpair : Paired p q)
    (hhead : parse q head {} = some (⟨.headers, 200⟩, ⟨s, [], r⟩)) (hstage : s.stage = .chunkSize) :
    ∃ p₁, stageStep p head = .go none p₁ [] ∧ p₁.request = r ∧ Chunked p₁ p := by
  have hq : q.stage = .headers := by rw [hpair.twin]; exact hf.stage
  have hsep : q.separateHeaders = true := by rw [hpair.twin]
  obtain ⟨q₁, y, hsilent, hstep⟩ := parses_of_parse hhead
  rw [outcome_event (by simp) (by simp)] at hstep
  cases hsilent with
  | go hs =>
    obtain ⟨z, blank, h₁, -, -, -, -, he, -⟩ := (step_goes hs).of_headers hq
    rw [hsep] at he
    cases he
  | refl =>
    cases same_head hf.stage hpair (x := head) with
    | need _ hq' =>
      rw [hq'] at hstep
      cases hstep
    | fail _ hq' =>
      rw [hq'] at hstep
      cases hstep
    | @go p₁ q' rest' hp hq' htwin =>
      rw [hq'] at hstep
      simp only [event, Outcome.go.injEq, Option.some.injEq, Event.headers.injEq] at hstep
      obtain ⟨rfl, rfl, rfl⟩ := hstep
      obtain ⟨hsync, hbody⟩ := idle_go hf.toIdle hpair.whole hpair.stored hp
      obtain ⟨z, blank, h₁, -, -, hroom, -, -, hp', -⟩ := (step_goes hp).of_headers hf.stage
      simp only [hpair.whole, Bool.false_eq_true, if_false] at hp'
      have hst : p₁.stage = .chunkSize := (congrArg HttpParser.stage (htwin 0)).symm.trans hstage
      refine ⟨p₁, hp, rfl, hst, hsync.stored, hbody, ⟨hsync.body.count, ?_, ?_⟩, ⟨?_, ?_⟩, by omega⟩
      · rw [hp']
        exact hf.chunkOverhead
      · rw [hp']
        exact hf.trailerBytes
      · rw [hp']
        rfl
      · rw [hp']
        rfl

variable {p₁ : HttpParser} {strings : List Bytes}

lemma Chunked.ready (hc : Chunked p₁ p) (hsend : Sendable strings) (hbody : strings.flatten.length ≤ p.maxBody)
    (hf : (strings.map framing).sum + 3 ≤ p.maxHeaders) : Ready p₁ (encoded strings) strings.flatten := by
  obtain ⟨hbytes, hover, htrail⟩ := hc.counts
  obtain ⟨hmh, hmb⟩ := hc.limits
  have hroom := hc.room
  have hbuffered : p₁.streaming = true → False := by simp [hc.stored]
  refine ⟨.size hc.stage hsend ?_, by omega, htrail, by omega, fun h => (hbuffered h).elim, fun h => (hbuffered h).elim⟩
  rw [hc.stored, hmh, hover]
  apply framing_of_total
  omega

lemma Chunked.reader_ready {search maxBody maxChunk : ℕ} {streaming : Bool} (hc : Chunked p₁ p)
    (hsend : Sendable strings) (hbody : strings.flatten.length ≤ maxBody)
    (hpiece : streaming = true → 0 < maxChunk) (hf : Framing streaming p.maxHeaders 0 strings) :
    Ready (chunkReader p₁ search streaming maxBody maxChunk) (encoded strings) strings.flatten := by
  obtain ⟨hbytes, hover, htrail⟩ := hc.counts
  refine ⟨.size hc.stage hsend ?_, ?_, htrail, ?_, hpiece, fun _ => rfl⟩
  · have hover' : (chunkReader p₁ search streaming maxBody maxChunk).chunkOverhead = 0 := hover
    have hmh : (chunkReader p₁ search streaming maxBody maxChunk).maxHeaders = p.maxHeaders := hc.limits.1
    rw [hover', hmh]
    exact hf
  · have hbytes' : (chunkReader p₁ search streaming maxBody maxChunk).bodyBytes = 0 := hbytes
    rw [hbytes', Nat.zero_add]
    exact hbody
  · exact hc.limits.1 ▸ hc.room

end Head

lemma encoded_wires {maxChunkBytes : ℕ} {strings wires : List Bytes}
    (h : List.Forall₂ (fun bytes wire => encodeChunk bytes maxChunkBytes = .ok wire) strings wires) :
    Sendable strings ∧ wires.flatten ++ ascii "0\r\n\r\n" = encoded strings := by
  have hlast : ascii "0\r\n\r\n" = toChars 16 0 ++ (crlf ++ crlf) := by
    rw [toChars_zero]
    decide
  induction h with
  | nil => exact ⟨by simp [Sendable], hlast⟩
  | @cons s wire strings wires hs _ ih =>
    obtain ⟨rfl, hne, hsize⟩ := encodeChunk_ok hs
    refine ⟨fun t ht => ?_, ?_⟩
    · rcases List.mem_cons.mp ht with rfl | ht
      · exact ⟨hne, hsize⟩
      · exact ih.1 t ht
    · rw [List.flatten_cons, List.append_assoc, ih.2, encoded_cons]
      simp only [Chunk.encode, chunkOf, List.append_assoc]

lemma continues_cases (p : HttpParser) : continues p = [] ∨ continues p = [.continue100] := by
  unfold continues
  split
  · exact .inr rfl
  · exact .inl rfl

/-- What `EncodeChunk` wrote for some strings, up to the last chunk, is read back as their
concatenation and not beyond, in every mode of the parser and for any cuts of the request. -/
theorem chunks_decoded {p q : HttpParser} (hf : Fresh p) (hpair : Paired p q) {head : Bytes} {s : HttpParser}
    {r : HttpRequest} (hhead : parse q head {} = some (⟨.headers, 200⟩, ⟨s, [], r⟩)) (hstage : s.stage = .chunkSize)
    {maxChunkBytes : ℕ} {strings wires : List Bytes}
    (henc : List.Forall₂ (fun bytes wire => encodeChunk bytes maxChunkBytes = .ok wire) strings wires)
    {pieces : List Bytes} {more : Bytes}
    (hpieces : pieces.flatten = head ++ (wires.flatten ++ ascii "0\r\n\r\n") ++ more) :
    (strings.flatten.length ≤ p.maxBody → (strings.map framing).sum + 3 ≤ p.maxHeaders →
      ∃ conts p', (conts = [] ∨ conts = [.continue100]) ∧ Fresh p' ∧ readRequest id p [] pieces =
        some (conts ++ [.complete { r with body := strings.flatten }], .completed p' more)) ∧
    (∀ maxBody maxChunk, strings.flatten.length ≤ maxBody → (strings.map framing).sum + 3 ≤ p.maxHeaders →
      ∃ conts q', (conts = [] ∨ conts = [.continue100]) ∧ Fresh q' ∧
        readRequest (configured false maxBody maxChunk) q [] pieces =
          some (.headers r :: (conts ++ [.complete { body := strings.flatten }]), .completed q' more)) ∧
    ∀ maxBody maxChunk, 0 < maxChunk → strings.flatten.length ≤ maxBody → (∀ s ∈ strings, framing s ≤ p.maxHeaders) →
      ∃ conts events q', Streamed maxChunk { r with body := strings.flatten } conts events ∧ Fresh q' ∧
        readRequest (configured true maxBody maxChunk) q [] pieces = some (events, .completed q' more) := by
  obtain ⟨hsend, hwire⟩ := encoded_wires henc
  obtain ⟨p₁, hgo, rfl, hc⟩ := chunked_head hf hpair hhead hstage
  rw [hwire, List.append_assoc] at hpieces
  have hroom := hc.room
  have hb : Buffered p [] := ⟨hpair.whole, hpair.stored, by omega,
    fun _ => by rw [hf.search]; exact Nat.zero_le _, fun _ _ => hf.headRequest⟩
  have hwhole := resumable.go_append _ _ _ _ _ (encoded strings ++ more) (resumable.inv_mono _ _ head hb) hgo
  rw [List.nil_append, List.nil_append, ← hpieces] at hwhole
  have hfirst : ∃ piece rest, pieces = piece :: rest := by
    cases pieces with
    | nil =>
      have hneed := step_empty hb hf.stage hf.search
      rw [List.flatten_nil, hneed] at hwhole
      cases hwhole
    | cons piece rest => exact ⟨piece, rest, rfl⟩
  have hreader : ∀ (streaming : Bool) (maxBody maxChunk : ℕ), (streaming = true → 0 < maxChunk) →
      strings.flatten.length ≤ maxBody → Framing streaming p.maxHeaders 0 strings →
      ∃ search events q', Decoded (chunkReader p₁ search streaming maxBody maxChunk) strings.flatten events ∧
        Fresh q' ∧ readRequest (configured streaming maxBody maxChunk) q [] pieces =
          some (.headers p₁.request :: events, .completed q' more) := by
    intro streaming maxBody maxChunk hpiece hbody hframing
    obtain ⟨piece, rest, rfl⟩ := hfirst
    obtain ⟨events, result, hread, hfeed⟩ :=
      @readRequest_feed (configured streaming maxBody maxChunk) q [] (fun _ => rfl) (piece :: rest)
    have ht := hfeed.trace
    rw [List.nil_append] at ht
    obtain ⟨search, x', pieces', events', rfl, hx', ht'⟩ :=
      trace_head hf.toIdle (resumable.inv_mono _ _ piece hb) hpair hwhole ht
    obtain ⟨hd, q', rfl, hq⟩ := trace_encoded (hc.reader_ready hsend hbody hpiece hframing) hx' ht'
    exact ⟨search, events', q', hd, hq, hread⟩
  refine ⟨fun hbody hframing => ?_, fun maxBody maxChunk hbody hframing => ?_,
    fun maxBody maxChunk hmax hbody hframing => ?_⟩
  · obtain ⟨events, result, hread, hfeed⟩ := @readRequest_feed id p [] (fun _ => rfl) pieces
    obtain ⟨whole, hreads, -, -, hdone⟩ := buffered_reads hf hb hfeed
    cases hreads with
    | need hn =>
      have := (request_need hn).2
      rw [hwhole] at this
      cases this
    | fail hn =>
      have := request_fail hn
      rw [hwhole] at this
      cases this
    | @go _ _ e s' rest events' _ hn hd =>
      obtain ⟨p₂, b⟩ := s'
      obtain ⟨q₀, hn', hflag, hsame, -⟩ := request_go hn
      rw [hwhole] at hn'
      obtain ⟨rfl, rfl, rfl⟩ := Outcome.go.inj hn'
      obtain rfl := hsame (by simp)
      obtain rfl : b = false := hflag
      have hcut : encoded strings ++ more ++ ([] : List Bytes).flatten = encoded strings ++ more := by simp
      obtain ⟨hdec, q', hend, hq⟩ := trace_encoded (hc.ready hsend hbody hframing) hcut hd.trace_last
      unfold Decoded at hdec
      rw [hc.stored] at hdec
      dsimp only at hdec
      rw [hc.empty, List.nil_append] at hdec
      refine ⟨continues p₂, q', continues_cases p₂, hq, ?_⟩
      rw [hread, hdone q' more hq.stage hend, ← hdec]
      rfl
  · obtain ⟨search, events, q', hd, hq, hread⟩ :=
      hreader false maxBody maxChunk (by simp) hbody (framing_of_total (by omega))
    exact ⟨_, q', continues_cases _, hq, hd ▸ hread⟩
  · obtain ⟨search, events, q', ⟨bodies, rfl, hflat, hsizes⟩, hq, hread⟩ :=
      hreader true maxBody maxChunk (fun _ => hmax) hbody (framing_of_each (by omega) hframing)
    refine ⟨_, _, q', ⟨continues_cases (chunkReader p₁ search true maxBody maxChunk), bodies, ?_, hflat, hsizes⟩, hq, hread⟩
    have hheld : ({ p₁.request with body := [] } : HttpRequest) = p₁.request := by rw [← hc.empty]
    rw [hheld]
    rfl

/-- A chunked upload cut in its head and in its only chunk. -/
theorem chunks_decoded_abc : ∃ events q', Fresh q' ∧ readRequest (configured true 64 2) (create 256 64 true) []
    [ascii "PUT / HTTP/1.1\r\nHost: a\r\nTransfer-Enc", ascii "oding: chunked\r\n\r\n3\r\nab", ascii "c\r\n0\r\n\r\nGET"] =
    some (events, .completed q' (ascii "GET")) := by
  have hhead : ∃ s r, parse (create 256 64 true) (ascii "PUT / HTTP/1.1\r\nHost: a\r\nTransfer-Encoding: chunked\r\n\r\n") {} =
      some (⟨.headers, 200⟩, ⟨s, [], r⟩) ∧ s.stage = .chunkSize := by
    rw [@ascii_eq "PUT / HTTP/1.1\r\nHost: a\r\nTransfer-Encoding: chunked\r\n\r\n" _ rfl]
    refine ⟨_, _, rfl, ?_⟩
    rfl
  obtain ⟨s, r, hhead, hstage⟩ := hhead
  have henc : encodeChunk (ascii "abc") 16 = .ok (ascii "3\r\nabc\r\n") := by
    rw [encodeChunk_fits (by decide) (by decide) (by decide)]
    have hthree : toChars 16 (ascii "abc").length = [51] := rfl
    rw [chunkOf, hthree]
    rfl
  have hpieces : [ascii "PUT / HTTP/1.1\r\nHost: a\r\nTransfer-Enc", ascii "oding: chunked\r\n\r\n3\r\nab",
      ascii "c\r\n0\r\n\r\nGET"].flatten = ascii "PUT / HTTP/1.1\r\nHost: a\r\nTransfer-Encoding: chunked\r\n\r\n" ++
        ([ascii "3\r\nabc\r\n"].flatten ++ ascii "0\r\n\r\n") ++ ascii "GET" := by decide +kernel
  obtain ⟨-, -, hstream⟩ := chunks_decoded (create_fresh 256 64 false) (q := create 256 64 true) ⟨rfl, rfl, rfl⟩ hhead
    hstage (.cons henc .nil) hpieces
  have hframing : ∀ s ∈ [ascii "abc"], framing s ≤ (create 256 64 false).maxHeaders := by
    intro s hs
    obtain rfl := List.mem_singleton.mp hs
    decide
  obtain ⟨-, events, q', -, hq, hread⟩ := hstream 64 2 (by decide) (by decide) hframing
  exact ⟨events, q', hq, hread⟩

end ServerCore.Web.HttpParser
