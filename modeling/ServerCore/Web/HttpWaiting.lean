import ServerCore.Web.HttpFragmentation
import ServerCore.Web.HttpModes

/-! What a parser that waits has left unread, and how much of new input its next event leaves. -/

namespace ServerCore.Web.HttpParser

open ServerCore.Core ServerCore.Foundations.StreamDecoder

/-- The unread input of a buffered parser that has answered `NeedMore`. -/
inductive Waiting (p : HttpParser) (x : Bytes) : Prop
  | headers (hs : p.stage = .headers) (hx : x.length ≤ p.headerSearch ∨ x = [13])
  | body (hs : p.stage = .fixedBody ∨ p.stage = .chunkData) (hc : p.expectsContinue = false) (hx : x = [])
  | line (hs : p.stage = .chunkSize ∨ p.stage = .trailers) (hc : p.expectsContinue = false) (hx : find crlf x = none)
  | chunkEnd (hs : p.stage = .chunkEnd) (hc : p.expectsContinue = false) (hx : x.length < 2)

section Rest

variable {p q : HttpParser} {x y rest : Bytes} {e : Option Event}

lemma scan_need {z : Bytes} (hs : p.stage = .headers) (h : scanStep p z = .need q rest) : Waiting q rest := by
  unfold scanStep headersScanned at h
  dsimp only at h
  split at h
  · simp [fail, outcome] at h
  · split at h
    · simp [fail, outcome] at h
    · simp only [outcome, Outcome.need.injEq] at h
      obtain ⟨rfl, rfl⟩ := h
      exact .headers hs (.inl le_rfl)
  · split at h
    · simp [fail, outcome] at h
    split at h
    · simp [fail, outcome] at h
    split at h <;> simp [outcome] at h

lemma waiting_of_need (hb : p.stage = .headers ∨ p.streaming = false) (h : stageStep p x = .need q rest) :
    Waiting q rest := by
  by_cases hs : p.stage = .headers
  · rw [step_headers x hs] at h
    split at h
    · split at h
      · simp only [Outcome.need.injEq] at h
        obtain ⟨rfl, rfl⟩ := h
        exact .headers hs (.inr rfl)
      · exact scan_need hs h
    · exact scan_need hs h
  have hb' : p.streaming = false := hb.resolve_left hs
  obtain ⟨hw, hc⟩ := step_need_waits hs h
  cases hw with
  | body hst hlt _ =>
    have hx : x.drop (takeCount p x) = [] := by
      rw [takeCount_buffered p x hb'] at hlt ⊢
      apply List.drop_of_length_le
      omega
    exact .body hst hc hx
  | size hst hl => exact .line (.inl hst) hc (readLine_wait hl)
  | dataEnd hst hl => exact .chunkEnd hst hc hl
  | trailers hst hl => exact .line (.inr hst) hc (readLine_wait hl)

lemma line_rest {limit n : ℕ} (hx : find crlf x = none) (hl : readLine limit (x ++ y) = .line n) :
    ((x ++ y).drop (n + 2)).length ≤ y.length := by
  have hn : x.length < n + 2 := by
    cases hf : find crlf (x ++ y) with
    | none =>
      simp only [readLine, hf] at hl
      split at hl <;> cases hl
    | some m =>
      have hm := find_append_none hx hf
      simp only [readLine, hf] at hl
      split at hl
      · cases hl
      · simp only [LineRead.line.injEq] at hl
        subst hl
        simpa [crlf] using hm
  simp only [List.length_drop, List.length_append]
  omega

lemma Waiting.step_rest (hw : Waiting p x) (hg : Goes p (x ++ y) e q rest) : rest.length ≤ y.length := by
  cases hw with
  | headers hs hx =>
    obtain ⟨z, blank, head, hz, hf, -, -, -, -, rfl⟩ := hg.of_headers hs
    have hfound := scanHeaders_found hf
    have hskip := skipEmptyLines_length_le (x ++ y)
    simp only [List.length_append] at hskip
    simp only [List.length_drop]
    rcases hx with hx | hx
    · by_cases h0 : p.headerSearch = 0
      · rw [if_pos h0] at hz
        subst hz
        omega
      · rw [if_neg h0] at hz
        subst hz
        rw [List.length_append]
        omega
    · have hlen : z.length ≤ x.length + y.length := by
        rw [hz]
        split
        · exact hskip
        · rw [List.length_append]
      subst hx
      simp only [List.length_cons, List.length_nil] at hlen
      omega
  | body hs hc hx =>
    subst hx
    cases hg with
    | head hst => simp [hst] at hs
    | continue100 _ _ hcont => simp [hc] at hcont
    | sizeLine hst => simp [hst] at hs
    | dataEnd hst => simp [hst] at hs
    | trailer hst => simp [hst] at hs
    | trailersDone hst => simp [hst] at hs
    | _ => simp
  | line hs hc hx =>
    cases hg with
    | head hst => simp [hst] at hs
    | continue100 _ _ hcont => simp [hc] at hcont
    | sizeLine _ _ hl => exact line_rest hx hl
    | trailer _ _ hl => exact line_rest hx hl
    | trailersDone _ _ hl => exact line_rest hx hl
    | fixedPart hst => simp [hst] at hs
    | fixedDone hst => simp [hst] at hs
    | dataPart hst => simp [hst] at hs
    | dataDone hst => simp [hst] at hs
    | dataEnd hst => simp [hst] at hs
  | chunkEnd hs hc hx =>
    cases hg with
    | head hst => simp [hst] at hs
    | continue100 _ _ hcont => simp [hc] at hcont
    | dataEnd =>
      simp only [List.length_drop, List.length_append]
      omega
    | sizeLine hst => simp [hst] at hs
    | trailer hst => simp [hst] at hs
    | trailersDone hst => simp [hst] at hs
    | fixedPart hst => simp [hst] at hs
    | fixedDone hst => simp [hst] at hs
    | dataPart hst => simp [hst] at hs
    | dataDone hst => simp [hst] at hs

lemma Goes.rest_le (hg : Goes p x e q rest) : rest.length ≤ x.length := by
  cases hg with
  | @head z blank head hs hz =>
    have hlen : z.length ≤ x.length := by
      rw [hz]
      split
      · exact skipEmptyLines_length_le x
      · exact le_rfl
    simp only [List.length_drop]
    omega
  | continue100 => exact le_rfl
  | _ => simp

end Rest

/-- What `Parse` has done when it returns: stages without an event, and then the one that returns. -/
def Parses (p : HttpParser) (x : Bytes) (result : HttpParseResult) (c : Cursor) : Prop :=
  ∃ q y, Silent stageStep p x q y ∧ stageStep q y = outcome (.ret result c)

section Parse

variable {p q : HttpParser} {x y : Bytes} {result : HttpParseResult} {c : Cursor}

lemma parse_returns (p : HttpParser) (x : Bytes) :
    ∃ result c, parse p x {} = some (result, c) ∧ Parses p x result c := by
  obtain ⟨result, c, hp, hr⟩ := @advance_reaches ⟨p, x, {}⟩ _ (potential_le p x)
  exact ⟨result, c, hp, reaches_silent hr⟩

lemma parses_of_parse (h : parse p x {} = some (result, c)) : Parses p x result c := by
  obtain ⟨result', c', hp, hr⟩ := parse_returns p x
  rw [h] at hp
  obtain ⟨rfl, rfl⟩ := Prod.mk.inj (Option.some.inj hp)
  exact hr

lemma silent_rest (h : Silent stageStep p x q y) : y.length ≤ x.length := by
  induction h with
  | refl => exact le_rfl
  | go hs _ ih => exact ih.trans (step_goes hs).rest_le

lemma silent_limits (h : Silent stageStep p x q y) : SameLimits p q := by
  induction h with
  | refl => exact ⟨rfl, rfl, rfl⟩
  | go hs _ ih => exact (step_goes hs).limits.trans ih

lemma outcome_event (h : result.kind ≠ .needMore) (h' : result.kind ≠ .error) :
    outcome (.ret result c) = .go (event c result.kind) c.parser c.input := by
  obtain ⟨kind, status⟩ := result
  cases kind <;> simp_all [outcome]

lemma Parses.needs (h : Parses p x result c) (hk : result.kind = .needMore) :
    ∃ q y, Silent stageStep p x q y ∧ stageStep q y = .need c.parser c.input := by
  obtain ⟨q, y, hq, hy⟩ := h
  obtain ⟨kind, status⟩ := result
  subst hk
  exact ⟨q, y, hq, hy⟩

lemma Parses.rest_le (h : Parses p x result c) (hk : result.kind ≠ .error) : c.input.length ≤ x.length := by
  by_cases hn : result.kind = .needMore
  · obtain ⟨q, y, hq, hy⟩ := h.needs hn
    refine le_trans ?_ (silent_rest hq)
    by_cases hs : q.stage = .headers
    · have key (z : Bytes) (hz : z.length ≤ y.length) (h : scanStep q z = .need c.parser c.input) :
          c.input.length ≤ y.length := by
        unfold scanStep headersScanned at h
        dsimp only at h
        split at h
        · simp [fail, outcome] at h
        · split at h
          · simp [fail, outcome] at h
          · simp only [outcome, Outcome.need.injEq] at h
            rw [← h.2]
            exact hz
        · split at h
          · simp [fail, outcome] at h
          split at h
          · simp [fail, outcome] at h
          split at h <;> simp [outcome] at h
      rw [step_headers y hs] at hy
      split at hy
      · split at hy
        · rename_i hskip
          simp only [Outcome.need.injEq] at hy
          rw [← hy.2, ← hskip]
          exact skipEmptyLines_length_le y
        · exact key _ (skipEmptyLines_length_le y) hy
      · exact key _ le_rfl hy
    · obtain ⟨hw, -⟩ := step_need_waits hs hy
      generalize c.parser = q', c.input = rest at hw
      cases hw with
      | body => simp
      | _ => exact le_rfl
  · obtain ⟨q, y, hq, hy⟩ := h
    rw [outcome_event hn hk] at hy
    exact (step_goes hy).rest_le.trans (silent_rest hq)

lemma need_keeps {rest : Bytes} (h : stageStep p x = .need q rest) : q.stage = p.stage ∧ q.streaming = p.streaming := by
  by_cases hs : p.stage = .headers
  · rcases headers_need hs h with rfl | ⟨z, rfl⟩ <;> exact ⟨rfl, rfl⟩
  · cases (step_need_waits hs h).1 <;> exact ⟨rfl, rfl⟩

lemma Parses.streaming (h : Parses p x result c) (hk : result.kind ≠ .error) : c.parser.streaming = p.streaming := by
  by_cases hn : result.kind = .needMore
  · obtain ⟨q, y, hq, hy⟩ := h.needs hn
    exact (need_keeps hy).2.trans (silent_limits hq).streaming
  · obtain ⟨q, y, hq, hy⟩ := h
    rw [outcome_event hn hk] at hy
    exact (step_goes hy).limits.streaming.trans (silent_limits hq).streaming

lemma Goes.maxChunk {e : Option Event} {rest : Bytes} (hg : Goes p x e q rest) : q.maxChunk = p.maxChunk := by
  cases hg with
  | head => split <;> rfl
  | sizeLine _ _ _ hr =>
    unfold chunkSizeLine at hr
    repeat' split at hr
    all_goals cases hr
    all_goals rfl
  | _ => rfl

lemma silent_maxChunk (h : Silent stageStep p x q y) : q.maxChunk = p.maxChunk := by
  induction h with
  | refl => rfl
  | go hs _ ih => exact ih.trans (step_goes hs).maxChunk

lemma Parses.maxChunk (h : Parses p x result c) (hk : result.kind = .needMore) : c.parser.maxChunk = p.maxChunk := by
  obtain ⟨q, y, hq, hy⟩ := h.needs hk
  refine Eq.trans ?_ (silent_maxChunk hq)
  by_cases hs : q.stage = .headers
  · rcases headers_need hs hy with hc | ⟨z, hc⟩ <;> rw [hc]
    rfl
  · obtain ⟨hw, -⟩ := step_need_waits hs hy
    generalize c.parser = q', c.input = rest at hw
    cases hw <;> rfl

lemma Goes.begins {e : Option Event} {rest : Bytes} (hg : Goes p x e q rest) (hp : p.stage = .headers) : q.stage ≠ .headers := by
  obtain ⟨z, blank, head, -, -, -, hh, -, rfl, -⟩ := hg.of_headers hp
  rcases parseHeaders_stage hh with h | h <;> split <;> simp [entered, withHead, h]

lemma Goes.begun {e : Option Event} {rest : Bytes} (hg : Goes p x e q rest) (hq : q.stage = .headers) :
    ∃ r, e = some (.complete r) := by
  by_cases hp : p.stage = .headers
  · exact absurd hq (hg.begins hp)
  cases hg with
  | head hs => exact absurd hs hp
  | continue100 => exact absurd hq hp
  | fixedPart => exact absurd hq hp
  | fixedDone => exact ⟨_, rfl⟩
  | sizeLine _ _ _ hr => exact absurd hq (chunkSizeLine_ok hr).2.1
  | dataPart =>
    dsimp only at hq
    split at hq <;> cases hq
  | dataDone => cases hq
  | dataEnd => cases hq
  | trailer => exact absurd hq hp
  | trailersDone => exact ⟨_, rfl⟩

lemma Goes.headers {e : Option Event} {rest : Bytes} {r : HttpRequest} (hg : Goes p x e q rest)
    (he : e = some (.headers r)) : p.stage = .headers := by
  cases hg with
  | head hs => exact hs
  | continue100 => cases he
  | fixedPart => cases he
  | fixedDone => cases he
  | sizeLine => cases he
  | dataPart => cases he
  | dataDone => cases he
  | dataEnd => cases he
  | trailer => cases he
  | trailersDone => cases he

lemma silent_begun (h : Silent stageStep p x q y) (hq : q.stage = .headers) : p.stage = .headers := by
  induction h with
  | refl => exact hq
  | go hs _ ih =>
    obtain ⟨r, hr⟩ := (step_goes hs).begun (ih hq)
    cases hr

lemma Parses.begun (h : Parses p x result c) (hk : result.kind ≠ .complete) (hk' : result.kind ≠ .error)
    (hc : c.parser.stage = .headers) : p.stage = .headers := by
  by_cases hn : result.kind = .needMore
  · obtain ⟨q, y, hq, hy⟩ := h.needs hn
    exact silent_begun hq ((need_keeps hy).1.symm.trans hc)
  · obtain ⟨q, y, hq, hy⟩ := h
    rw [outcome_event hn hk'] at hy
    obtain ⟨r, hr⟩ := (step_goes hy).begun hc
    obtain ⟨kind, status⟩ := result
    cases kind <;> simp_all [event]

lemma Parses.headers (h : Parses p x result c) (hk : result.kind = .headers) :
    p.stage = .headers ∧ c.parser.stage ≠ .headers := by
  obtain ⟨q, y, hq, hy⟩ := h
  rw [outcome_event (by simp [hk]) (by simp [hk]), hk] at hy
  have hg := step_goes hy
  have hs := hg.headers rfl
  exact ⟨silent_begun hq hs, hg.begins hs⟩

lemma Waiting.parse_rest (hw : Waiting p x) (h : Parses p (x ++ y) result c) (hk : result.kind ≠ .needMore)
    (hk' : result.kind ≠ .error) : c.input.length ≤ y.length := by
  obtain ⟨q, z, hq, hz⟩ := h
  rw [outcome_event hk hk'] at hz
  have hg := step_goes hz
  cases hq with
  | refl => exact hw.step_rest hg
  | go hs hq => exact (hg.rest_le.trans (silent_rest hq)).trans (hw.step_rest (step_goes hs))

lemma Parses.waiting (h : Parses p x result c) (hb : p.streaming = false) (hk : result.kind = .needMore) :
    Waiting c.parser c.input := by
  obtain ⟨q, y, hq, hy⟩ := h.needs hk
  exact waiting_of_need (.inr ((silent_limits hq).streaming.trans hb)) hy

end Parse

end ServerCore.Web.HttpParser
