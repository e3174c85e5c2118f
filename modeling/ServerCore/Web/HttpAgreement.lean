import ServerCore.Web.HttpSync

/-! Streaming and buffered reading of one request agree, up to the bound on chunk framing. -/

namespace ServerCore.Web.HttpParser

open ServerCore.Core ServerCore.Foundations.StreamDecoder

lemma withBody_nil (p : HttpParser) : withBody p [] = p := by
  simp only [withBody, List.append_nil, List.length_nil, Nat.sub_zero, Nat.add_zero]

section Ends

variable {maxChunk count : ℕ} {p q : HttpParser} {acc x rest : Bytes} (y : Bytes)

lemma step_done {r : HttpRequest} (hs : Sync p acc count)
    (hg : Goes (twin maxChunk count p) x (some (.complete r)) q rest) :
    r = {} ∧ p.expectsContinue = false ∧ (∃ taken, x = taken ++ rest ∧ Rest p.stage p.remaining taken [] 0) ∧
      q = { (twin maxChunk count p).completed with request := {} } ∧
      stageStep p (x ++ y) = .go (some (.complete p.request)) { p.completed with request := {} } (rest ++ y) := by
  obtain ⟨taken, moved, hx, hrest, hr, -, hnone, hc, hq⟩ := hg.done (hs.twin_body _)
  obtain rfl := hnone rfl
  refine ⟨hr, hc, ⟨taken, hx, hrest⟩, hq, ?_⟩
  have hc' : p.expectsContinue = false := hc
  generalize he : some (Event.complete r) = e at hg
  cases hg with
  | head hst => exact absurd hst hs.body.begun
  | continue100 => simp at he
  | fixedPart => simp at he
  | fixedDone hst _ hb hrem =>
    have hzero := hb rfl
    have hrem' : p.remaining ≤ takeCount (twin maxChunk count p) x := hrem
    have hz : p.remaining = 0 := by omega
    have hst' : p.stage = .fixedBody := hst
    rw [step_fixedBody _ hst' hc' hs.stored, hz, if_pos (Nat.zero_le _), List.take_zero, List.drop_zero,
      withBody_nil, hzero, List.drop_zero]
    rfl
  | sizeLine => simp at he
  | dataPart => simp at he
  | dataDone => simp at he
  | dataEnd => simp at he
  | trailer => simp at he
  | trailersDone hst _ hl =>
    have hst' : p.stage = .trailers := hst
    obtain ⟨hline, hbound⟩ := readLine_line y hl
    have hline' : readLine (sizeSub p.maxHeaders p.trailerBytes) (x ++ y) = .line 0 := hline
    have hdrop : (x ++ y).drop 2 = x.drop 2 ++ y := List.drop_append_of_le_length hbound
    rw [step_trailers _ hst' hc']
    simp only [trailersBlock, if_neg (not_not_intro hst'), hline', if_true, complete, hdrop, outcome, event]
    rfl

lemma fixedBody_need (hst : p.stage = .fixedBody) (hc : p.expectsContinue = false)
    (h : stageStep p x = .need q rest) :
    takeCount p x < p.remaining ∧ (p.streaming = true → takeCount p x = 0) ∧
      q = withBody p (x.take (takeCount p x)) ∧ rest = x.drop (takeCount p x) := by
  simp only [stageStep, stageFlow, hst, hc, Bool.false_eq_true, if_false, fixedBodyBlock, takeBody_eq,
    withBody_remaining, ne_eq, not_true_eq_false] at h
  split at h
  · simp [emitBody, outcome] at h
  rename_i hb
  split at h
  · simp [complete, outcome] at h
  rename_i hr
  simp only [outcome, Outcome.need.injEq] at h
  exact ⟨by omega, by simpa using hb, h.1.symm, h.2.symm⟩

lemma chunkData_need (hst : p.stage = .chunkData) (hc : p.expectsContinue = false)
    (h : stageStep p x = .need q rest) :
    takeCount p x < p.remaining ∧ (p.streaming = true → takeCount p x = 0) ∧
      q = withBody p (x.take (takeCount p x)) ∧ rest = x.drop (takeCount p x) := by
  simp only [stageStep, stageFlow, hst, hc, Bool.false_eq_true, if_false, chunkDataBlock, takeBody_eq,
    ne_eq, not_true_eq_false] at h
  split at h
  · simp [emitBody, outcome] at h
  rename_i hb
  split at h
  · rename_i hr
    rw [withBody_remaining] at hr
    simp only [outcome, Outcome.need.injEq] at h
    exact ⟨by omega, by simpa using hb, h.1.symm, h.2.symm⟩
  · simp [outcome] at h

lemma fixedBody_fail (hst : p.stage = .fixedBody) (hc : p.expectsContinue = false) : stageStep p x ≠ .fail := by
  intro h
  simp only [stageStep, stageFlow, hst, hc, Bool.false_eq_true, if_false, fixedBodyBlock, ne_eq,
    not_true_eq_false] at h
  repeat' split at h
  all_goals simp [emitBody, complete, outcome] at h

lemma chunkData_fail (hst : p.stage = .chunkData) (hc : p.expectsContinue = false) : stageStep p x ≠ .fail := by
  intro h
  simp only [stageStep, stageFlow, hst, hc, Bool.false_eq_true, if_false, chunkDataBlock, ne_eq,
    not_true_eq_false] at h
  repeat' split at h
  all_goals simp [emitBody, outcome] at h

inductive Waits (p : HttpParser) (x : Bytes) : HttpParser → Bytes → Prop
  | body (hs : p.stage = .fixedBody ∨ p.stage = .chunkData) (hlt : takeCount p x < p.remaining)
      (hb : p.streaming = true → takeCount p x = 0) :
      Waits p x (withBody p (x.take (takeCount p x))) (x.drop (takeCount p x))
  | size (hs : p.stage = .chunkSize) (hl : readLine (sizeSub p.maxHeaders p.chunkOverhead) x = .wait) : Waits p x p x
  | dataEnd (hs : p.stage = .chunkEnd) (hl : x.length < 2) : Waits p x p x
  | trailers (hs : p.stage = .trailers) (hl : readLine (sizeSub p.maxHeaders p.trailerBytes) x = .wait) : Waits p x p x

lemma step_need_waits (hh : p.stage ≠ .headers) (h : stageStep p x = .need q rest) :
    Waits p x q rest ∧ p.expectsContinue = false := by
  by_cases hf : p.stage = .failed
  · simp [stageStep, stageFlow, hf, failedBlock, outcome] at h
  cases hc : p.expectsContinue with
  | true =>
    rw [step_continue p x hh hf hc] at h
    cases h
  | false =>
    refine ⟨?_, rfl⟩
    cases hst : p.stage with
    | headers => exact absurd hst hh
    | failed => exact absurd hst hf
    | fixedBody =>
      obtain ⟨hlt, hb, rfl, rfl⟩ := fixedBody_need hst hc h
      exact .body (.inl hst) hlt hb
    | chunkData =>
      obtain ⟨hlt, hb, rfl, rfl⟩ := chunkData_need hst hc h
      exact .body (.inr hst) hlt hb
    | chunkSize =>
      rw [step_chunkSize _ hst hc] at h
      simp only [chunkSizeBlock, if_neg (not_not_intro hst)] at h
      split at h
      · rename_i hwait
        simp only [outcome, Outcome.need.injEq] at h
        obtain ⟨rfl, rfl⟩ := h
        exact .size hst hwait
      · simp [fail, outcome] at h
      · split at h <;> simp [fail, outcome] at h
    | chunkEnd =>
      rw [step_chunkEnd _ hst hc] at h
      simp only [chunkEndBlock, if_neg (not_not_intro hst)] at h
      split at h
      · rename_i hlen
        simp only [outcome, Outcome.need.injEq] at h
        obtain ⟨rfl, rfl⟩ := h
        exact .dataEnd hst hlen
      split at h
      · simp [fail, outcome] at h
      · split at h <;> simp [fail, outcome] at h
    | trailers =>
      rw [step_trailers _ hst hc] at h
      simp only [trailersBlock, if_neg (not_not_intro hst)] at h
      split at h
      · rename_i hwait
        simp only [outcome, Outcome.need.injEq] at h
        obtain ⟨rfl, rfl⟩ := h
        exact .trailers hst hwait
      · simp [fail, outcome] at h
      split at h
      · simp [complete, outcome] at h
      · split at h <;> simp [fail, outcome] at h

lemma Waits.unchanged (h : Waits p x q rest) (hb : p.streaming = true) : q = p ∧ rest = x := by
  cases h with
  | body hs hlt hz =>
    rw [hz hb, List.take_zero, List.drop_zero, withBody_nil]
    exact ⟨rfl, rfl⟩
  | size => exact ⟨rfl, rfl⟩
  | dataEnd => exact ⟨rfl, rfl⟩
  | trailers => exact ⟨rfl, rfl⟩

def Unfinished (result : Option ((HttpParser × Bool) × Bytes)) : Prop := ∀ p u, result ≠ some ((p, true), u)

lemma unfinished_none : Unfinished none := by simp [Unfinished]

lemma unfinished_waiting (p : HttpParser) (u : Bytes) : Unfinished (some ((p, false), u)) := by simp [Unfinished]

lemma readLine_wait {limit : ℕ} (h : readLine limit x = .wait) : find crlf x = none := by
  cases hfind : find crlf x with
  | none => rfl
  | some m =>
    simp only [readLine, hfind] at h
    split at h <;> cases h

lemma waits_unfinished (hmax : 0 < maxChunk) (hs : Sync p acc count) (hc : p.expectsContinue = false)
    (h : Waits (twin maxChunk count p) x q rest) : ∃ result, Reads p x [] result ∧ Unfinished result := by
  cases h with
  | body hst hlt hz =>
    have hmin : min (min x.length p.remaining) maxChunk = 0 := hz rfl
    have hlt' : takeCount (twin maxChunk count p) x < p.remaining := hlt
    have hx : x = [] := by
      apply List.length_eq_zero_iff.mp
      omega
    subst hx
    have hne : ¬ p.remaining ≤ ([] : Bytes).length := by
      simp only [List.length_nil]
      omega
    refine ⟨_, Reads.need (q := withBody p []) (r := []) ?_, unfinished_waiting _ _⟩
    rcases hst with hst | hst
    · rw [step_fixedBody (p := p) _ hst hc hs.stored, if_neg hne]
    · rw [step_chunkData (p := p) _ hst hc hs.stored, if_neg hne]
  | size hst hl =>
    have hst' : p.stage = .chunkSize := hst
    have hfind := readLine_wait hl
    cases hl' : readLine (sizeSub p.maxHeaders p.chunkOverhead) x with
    | wait =>
      refine ⟨_, Reads.need (q := p) (r := x) ?_, unfinished_waiting _ _⟩
      rw [step_chunkSize _ hst' hc]
      simp only [chunkSizeBlock, if_neg (not_not_intro hst'), hl', outcome]
    | tooLong =>
      refine ⟨_, Reads.fail ?_, unfinished_none⟩
      rw [step_chunkSize _ hst' hc]
      simp only [chunkSizeBlock, if_neg (not_not_intro hst'), hl', fail, outcome]
    | line n =>
      simp only [readLine, hfind] at hl'
      split at hl' <;> cases hl'
  | dataEnd hst hl =>
    have hst' : p.stage = .chunkEnd := hst
    refine ⟨_, Reads.need (q := p) (r := x) ?_, unfinished_waiting _ _⟩
    rw [step_chunkEnd _ hst' hc]
    simp only [chunkEndBlock, if_neg (not_not_intro hst'), if_pos hl, outcome]
  | trailers hst hl =>
    have hst' : p.stage = .trailers := hst
    have hl' : readLine (sizeSub p.maxHeaders p.trailerBytes) x = .wait := hl
    refine ⟨_, Reads.need (q := p) (r := x) ?_, unfinished_waiting _ _⟩
    rw [step_trailers _ hst' hc]
    simp only [trailersBlock, if_neg (not_not_intro hst'), hl', outcome]

lemma readLine_tooLong_le {limit limit' : ℕ} (h : readLine limit x = .tooLong) (hle : limit' ≤ limit) :
    readLine limit' x = .tooLong := by
  unfold readLine at h ⊢
  cases hfind : find crlf x with
  | none =>
    simp only [hfind] at h ⊢
    split at h
    · rw [if_pos (by omega)]
    · cases h
  | some n =>
    simp only [hfind] at h ⊢
    split at h
    · rw [if_pos (by omega)]
    · cases h

lemma step_fails (hs : Sync p acc count) (h : stageStep (twin maxChunk count p) x = .fail) :
    stageStep p (x ++ y) = .fail := by
  by_cases hf : p.stage = .failed
  · simp [stageStep, stageFlow, hf, failedBlock, outcome]
  cases hc : p.expectsContinue with
  | true =>
    rw [step_continue (twin maxChunk count p) x hs.body.begun hf hc] at h
    cases h
  | false =>
    cases hst : p.stage with
    | headers => exact absurd hst hs.body.begun
    | failed => exact absurd hst hf
    | fixedBody => exact absurd h (fixedBody_fail (p := twin maxChunk count p) hst hc)
    | chunkData => exact absurd h (chunkData_fail (p := twin maxChunk count p) hst hc)
    | chunkSize =>
      have hst' : (twin maxChunk count p).stage = .chunkSize := hst
      have hle : sizeSub p.maxHeaders p.chunkOverhead ≤ sizeSub p.maxHeaders count := by
        have := hs.spent
        rw [sizeSub_eq hs.framing, sizeSub_eq (le_trans hs.spent hs.framing)]
        omega
      rw [step_chunkSize _ hst' hc] at h
      rw [step_chunkSize _ hst hc]
      simp only [chunkSizeBlock, if_neg (not_not_intro hst')] at h
      simp only [chunkSizeBlock, if_neg (not_not_intro hst)]
      cases hl : readLine (sizeSub p.maxHeaders count) x with
      | wait =>
        have hl' : readLine (sizeSub (twin maxChunk count p).maxHeaders (twin maxChunk count p).chunkOverhead) x =
            .wait := hl
        simp [hl', outcome] at h
      | tooLong =>
        rw [readLine_tooLong y (readLine_tooLong_le hl hle)]
        rfl
      | line n =>
        have hl' : readLine (sizeSub (twin maxChunk count p).maxHeaders (twin maxChunk count p).chunkOverhead) x =
            .line n := hl
        have hbound := (readLine_line y hl).2
        have htake : (x ++ y).take n = x.take n := List.take_append_of_le_length (by omega)
        rw [readLine_limit y hl]
        by_cases hfits : n + 2 ≤ sizeSub p.maxHeaders p.chunkOverhead
        · rw [if_pos hfits]
          simp only [hl'] at h
          simp only [htake]
          cases hr : chunkSizeLine p (x.take n) with
          | error e => rfl
          | ok q =>
            obtain ⟨k, hk, hroom, -⟩ := chunkSizeLine_spec hr
            have hroom' : ¬ k > sizeSub p.maxBody p.bodyBytes := not_lt.mpr hroom
            have hok : ∃ q', chunkSizeLine (twin maxChunk count p) (x.take n) = .ok q' := by
              unfold chunkSizeLine
              simp only [hk]
              exact ⟨_, if_neg hroom'⟩
            obtain ⟨q', hok⟩ := hok
            simp [hok, outcome] at h
        · rw [if_neg hfits]
          rfl
    | chunkEnd =>
      have hst' : (twin maxChunk count p).stage = .chunkEnd := hst
      rw [step_chunkEnd _ hst' hc] at h
      rw [step_chunkEnd _ hst hc]
      simp only [chunkEndBlock, if_neg (not_not_intro hst')] at h
      simp only [chunkEndBlock, if_neg (not_not_intro hst)]
      split at h
      · simp [outcome] at h
      rename_i hlen
      have hlen' : ¬ (x ++ y).length < 2 := by
        rw [List.length_append]
        omega
      have hx : startsWith (x ++ y) crlf = startsWith x crlf := isPrefixOf_append (by simp [crlf]; omega)
      rw [if_neg hlen', hx]
      split at h
      · rename_i hbad
        rw [if_pos hbad]
        rfl
      rename_i hok
      rw [if_neg hok]
      split at h
      · rename_i hover
        have hover' : count > sizeSub p.maxHeaders 2 := hover
        have := hs.spent
        rw [if_pos (by omega)]
        rfl
      · simp [outcome] at h
    | trailers =>
      have hst' : (twin maxChunk count p).stage = .trailers := hst
      rw [step_trailers _ hst' hc] at h
      rw [step_trailers _ hst hc]
      simp only [trailersBlock, if_neg (not_not_intro hst')] at h
      simp only [trailersBlock, if_neg (not_not_intro hst)]
      cases hl : readLine (sizeSub p.maxHeaders p.trailerBytes) x with
      | wait =>
        have hl' : readLine (sizeSub (twin maxChunk count p).maxHeaders (twin maxChunk count p).trailerBytes) x =
            .wait := hl
        simp [hl', outcome] at h
      | tooLong =>
        rw [readLine_tooLong y hl]
        rfl
      | line n =>
        have hl' : readLine (sizeSub (twin maxChunk count p).maxHeaders (twin maxChunk count p).trailerBytes) x =
            .line n := hl
        obtain ⟨hline, hbound⟩ := readLine_line y hl
        have htake : (x ++ y).take n = x.take n := List.take_append_of_le_length (by omega)
        rw [hline]
        simp only [hl'] at h
        split at h
        · simp [complete, outcome] at h
        rename_i hn
        simp only [if_neg hn, htake]
        split at h
        · rename_i hbad
          rw [if_pos hbad]
          rfl
        · simp [outcome] at h

end Ends

section Request

variable {onHeaders : HttpParser → HttpParser} {p q : HttpParser} {x rest : Bytes} {b : Bool} {e : Option Event}

lemma request_go (h : requestStep onHeaders (p, false) x = .go e (q, b) rest) :
    ∃ q₀, stageStep p x = .go e q₀ rest ∧ b = e.any isComplete ∧
      ((∀ r, e ≠ some (.headers r)) → q = q₀) ∧ (∀ r, e = some (.headers r) → q = onHeaders q₀) := by
  simp only [requestStep, halting, configuredStep] at h
  cases hs : stageStep p x with
  | need q' rest' => simp [hs] at h
  | fail => simp [hs] at h
  | go e' q' rest' =>
    simp only [hs] at h
    split at h
    · rename_i ho
      split at ho <;> cases ho
    · rename_i ho
      simp only [Outcome.go.injEq, Prod.mk.injEq] at h
      obtain ⟨rfl, ⟨rfl, rfl⟩, rfl⟩ := h
      split at ho
      · rename_i r heq
        simp only [Outcome.go.injEq] at heq ho
        obtain ⟨rfl, rfl, rfl⟩ := heq
        obtain ⟨rfl, rfl, rfl⟩ := ho
        exact ⟨q', rfl, rfl, fun hne => absurd rfl (hne _), fun _ _ => rfl⟩
      · rename_i hne
        simp only [Outcome.go.injEq] at ho
        obtain ⟨rfl, rfl, rfl⟩ := ho
        exact ⟨q', rfl, rfl, fun _ => rfl, fun r hr => (hne r q' rest' (by rw [hr])).elim⟩
    · rename_i ho
      split at ho <;> cases ho

lemma request_need (h : requestStep onHeaders (p, false) x = .need (q, b) rest) :
    b = false ∧ stageStep p x = .need q rest := by
  simp only [requestStep, halting, configuredStep] at h
  cases hs : stageStep p x with
  | need q' rest' =>
    simp only [hs, Outcome.need.injEq, Prod.mk.injEq] at h
    obtain ⟨⟨rfl, rfl⟩, rfl⟩ := h
    exact ⟨rfl, rfl⟩
  | fail => simp [hs] at h
  | go e' q' rest' =>
    simp only [hs] at h
    split at h
    · rename_i ho
      split at ho <;> cases ho
    · cases h
    · cases h

lemma request_fail (h : requestStep onHeaders (p, false) x = .fail) : stageStep p x = .fail := by
  simp only [requestStep, halting, configuredStep] at h
  cases hs : stageStep p x with
  | need q' rest' => simp [hs] at h
  | fail => rfl
  | go e' q' rest' =>
    simp only [hs] at h
    split at h
    · cases h
    · cases h
    · rename_i ho
      split at ho <;> cases ho

lemma trace_halted {pieces : List Bytes} {events : List Event} {result : Option ((HttpParser × Bool) × Bytes)}
    (h : Trace (requestStep onHeaders) (p, true) x pieces events result) :
    events = [] ∧ result = some ((p, true), x ++ pieces.flatten) := by
  generalize hs : (p, true) = s at h
  induction h with
  | done h =>
    subst hs
    obtain ⟨rfl, rfl⟩ : _ ∧ _ := by simpa [requestStep, halting] using h
    simp
  | piece h _ ih =>
    subst hs
    obtain ⟨rfl, rfl⟩ : _ ∧ _ := by simpa [requestStep, halting] using h
    obtain ⟨rfl, rfl⟩ := ih rfl
    simp
  | fail h =>
    subst hs
    simp [requestStep, halting] at h
  | go h _ _ =>
    subst hs
    simp [requestStep, halting] at h

end Request

end ServerCore.Web.HttpParser
