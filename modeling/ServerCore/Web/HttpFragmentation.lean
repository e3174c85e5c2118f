import ServerCore.Web.HttpLoop

/-! In buffered mode the requests read from a connection do not depend on how
their bytes arrive. -/

namespace ServerCore.Web.HttpParser

open ServerCore.Core ServerCore.Foundations.StreamDecoder

/-- `Parse` called on the unread rest until it returns `NeedMore`, which leaves the parser and
the rest, or `Error`, which leaves nothing. -/
def parseUntilBlocked : ℕ → HttpParser → Bytes → Option (List Event × Option (HttpParser × Bytes))
  | 0, _, _ => none
  | fuel + 1, p, input =>
    match parse p input {} with
    | none => none
    | some (⟨.needMore, _⟩, c) => some ([], some (c.parser, c.input))
    | some (⟨.error, _⟩, _) => some ([], none)
    | some (⟨kind, _⟩, c) =>
      (parseUntilBlocked fuel c.parser c.input).map fun (events, result) =>
        ((event c kind).toList ++ events, result)

def feed : HttpParser → Bytes → List Bytes → Option (List Event × Option (HttpParser × Bytes))
  | p, rest, [] => some ([], some (p, rest))
  | p, rest, piece :: pieces =>
    let input := rest ++ piece
    match parseUntilBlocked (3 * input.length + 4) p input with
    | none => none
    | some (events, none) => some (events, none)
    | some (events, some (p, rest)) =>
      (feed p rest pieces).map fun (events', result) => (events ++ events', result)

def run (maxHeaders maxBody : UInt64) (pieces : List Bytes) :
    Option (List Event × Option (HttpParser × Bytes)) :=
  feed (create maxHeaders maxBody false) [] pieces

lemma headersScanned_output {c c₁ : Cursor}
    (h : headersScanned c = .next c₁ ∨ headersScanned c = .again c₁) : c₁.output = c.output := by
  unfold headersScanned at h
  dsimp only at h
  repeat' split at h
  all_goals rcases h with h | h <;> cases h
  rfl

lemma stageFlow_output {c c₁ : Cursor} (h : stageFlow c = .next c₁ ∨ stageFlow c = .again c₁) :
    c₁.output = c.output := by
  unfold stageFlow at h
  split at h
  · unfold failedBlock at h
    split at h <;> rcases h with h | h <;> cases h
  · unfold headersBlock at h
    split at h
    · rcases h with h | h <;> cases h
      rfl
    split at h
    · dsimp only at h
      split at h
      · rcases h with h | h <;> cases h
      · exact headersScanned_output (c := { c with input := skipEmptyLines c.input }) h
    · exact headersScanned_output h
  all_goals
    split at h
    · unfold continueBlock at h
      split at h <;> rcases h with h | h <;> cases h
  · unfold fixedBodyBlock emitBody complete at h
    dsimp only at h
    repeat' split at h
    all_goals rcases h with h | h <;> cases h
    rfl
  · unfold chunkSizeBlock fail at h
    dsimp only at h
    repeat' split at h
    all_goals rcases h with h | h <;> cases h
    all_goals rfl
  · unfold chunkDataBlock emitBody at h
    dsimp only at h
    repeat' split at h
    all_goals rcases h with h | h <;> cases h
    all_goals rfl
  · unfold chunkEndBlock fail at h
    dsimp only at h
    repeat' split at h
    all_goals rcases h with h | h <;> cases h
    all_goals rfl
  · unfold trailersBlock fail complete at h
    dsimp only at h
    repeat' split at h
    all_goals rcases h with h | h <;> cases h
    all_goals rfl

lemma outcome_ret (c : Cursor) (kind : HttpParseKind) (status : ℕ) {e : Event}
    (h : event c kind = some e) : outcome (.ret ⟨kind, status⟩ c) = .go (some e) c.parser c.input := by
  cases kind <;> simp_all [event, outcome]

lemma reaches_silent {p : HttpParser} {x : Bytes} {result : HttpParseResult} {c : Cursor}
    (h : Reaches ⟨p, x, {}⟩ result c) :
    ∃ q y, Silent stageStep p x q y ∧ stageStep q y = outcome (.ret result c) := by
  generalize hc : (⟨p, x, {}⟩ : Cursor) = c₀ at h
  induction h generalizing p x with
  | @ret c₀ result c hs =>
    subst hc
    exact ⟨p, x, .refl, by rw [stageStep, hs]⟩
  | @next c₀ c₁ result c hs _ ih =>
    subst hc
    have hout : c₁.output = {} := stageFlow_output hs
    have ho : stageStep p x = .go none c₁.parser c₁.input := by
      rcases hs with hs | hs <;> simp [stageStep, hs, outcome]
    obtain ⟨q, y, hq, hy⟩ := ih (by rw [← hout])
    exact ⟨q, y, .go ho hq, hy⟩

lemma silent_potential {p q : HttpParser} {x y : Bytes} (h : Silent stageStep p x q y) :
    potential q y ≤ potential p x := by
  induction h with
  | refl => exact le_rfl
  | go hs _ ih => exact ih.trans (step_goes hs).descends.le

lemma potential_le (p : HttpParser) (x : Bytes) : potential p x < 3 * x.length + 4 := by
  have := rank_le p
  simp only [potential]
  omega

lemma parseUntilBlocked_drain {fuel : ℕ} {p : HttpParser} {x : Bytes}
    (hf : potential p x < fuel) :
    ∃ events result, parseUntilBlocked fuel p x = some (events, result) ∧
      Drain stageStep p x events result := by
  induction fuel generalizing p x with
  | zero => omega
  | succ fuel ih =>
    obtain ⟨⟨kind, status⟩, c, hp, hr⟩ := @advance_reaches ⟨p, x, {}⟩ _ (potential_le p x)
    obtain ⟨q, y, hq, hy⟩ := reaches_silent hr
    have hparse : parse p x {} = some (⟨kind, status⟩, c) := hp
    cases he : event c kind with
    | none =>
      cases kind with
      | needMore => exact ⟨[], some (c.parser, c.input), by simp [parseUntilBlocked, hparse], hq.drain (.need hy)⟩
      | error => exact ⟨[], none, by simp [parseUntilBlocked, hparse], hq.drain (.fail hy)⟩
      | continue100 => simp [event] at he
      | complete => simp [event] at he
      | headers => simp [event] at he
      | body => simp [event] at he
    | some e =>
      rw [outcome_ret c kind status he] at hy
      have hd := (step_goes hy).descends
      have hle := silent_potential hq
      obtain ⟨events, result, hu, hdr⟩ := ih (show potential c.parser c.input < fuel by omega)
      refine ⟨e :: events, result, ?_, hq.drain (.go hy hdr)⟩
      cases kind <;> simp_all [parseUntilBlocked, event]

lemma feed_spec (p : HttpParser) (rest : Bytes) (pieces : List Bytes) :
    ∃ events result, feed p rest pieces = some (events, result) ∧
      Feed stageStep p rest pieces events result := by
  induction pieces generalizing p rest with
  | nil => exact ⟨[], some (p, rest), rfl, .done⟩
  | cons piece pieces ih =>
    obtain ⟨events, result, hu, hd⟩ := parseUntilBlocked_drain (potential_le p (rest ++ piece))
    cases result with
    | none => exact ⟨events, none, by simp only [feed, hu], .failed hd⟩
    | some state =>
      obtain ⟨q, rest'⟩ := state
      obtain ⟨events', result', hf, hfeed⟩ := ih q rest'
      exact ⟨events ++ events', result', by simp only [feed, hu, hf, Option.map_some], .piece hd hfeed⟩

section NoHeaders

variable {p : HttpParser}

lemma headersBlock_zero (c : Cursor) (hs : c.parser.stage = .headers) (hm : c.parser.maxHeaders = 0)
    (h0 : c.parser.headerSearch = 0) :
    headersBlock c = .ret {} { c with input := [13] } ∨
      ∃ status c', headersBlock c = .ret ⟨.error, status⟩ c' := by
  simp only [headersBlock, hs, h0, ne_eq, not_true_eq_false, if_false, if_true]
  split
  · rename_i h13
    exact .inl (by rw [h13])
  · right
    simp only [headersScanned, hm, fail]
    split
    · exact ⟨_, _, rfl⟩
    · simp
    · simp

lemma parseUntilBlocked_zero (x : Bytes) (hs : p.stage = .headers) (hm : p.maxHeaders = 0)
    (h0 : p.headerSearch = 0) (fuel : ℕ) :
    parseUntilBlocked (fuel + 1) p x = some ([], some (p, [13])) ∨
      parseUntilBlocked (fuel + 1) p x = some ([], none) := by
  have hb : advanceBody ⟨p, x, {}⟩ = (headersBlock ⟨p, x, {}⟩).andThen fun c =>
      (continueBlock c).andThen fun c => (fixedBodyBlock c).andThen fun c =>
        (chunkSizeBlock c).andThen fun c => (chunkDataBlock c).andThen fun c =>
          (chunkEndBlock c).andThen trailersBlock := by
    simp [advanceBody, failedBlock, hs, Flow.andThen]
  rcases headersBlock_zero ⟨p, x, {}⟩ hs hm h0 with h | ⟨status, c', h⟩
  · left
    have hp : parse p x {} = some ({}, ⟨p, [13], {}⟩) := by simp [parse, advance, hb, h, Flow.andThen]
    simp [parseUntilBlocked, hp]
  · right
    have hp : parse p x {} = some (⟨.error, status⟩, c') := by simp [parse, advance, hb, h, Flow.andThen]
    simp [parseUntilBlocked, hp]

lemma feed_zero (rest : Bytes) (pieces : List Bytes) (hs : p.stage = .headers)
    (hm : p.maxHeaders = 0) (h0 : p.headerSearch = 0) :
    ∃ result, feed p rest pieces = some ([], result) := by
  induction pieces generalizing rest with
  | nil => exact ⟨_, rfl⟩
  | cons piece pieces ih =>
    rcases parseUntilBlocked_zero (rest ++ piece) hs hm h0 (3 * (rest ++ piece).length + 3) with h | h
    · obtain ⟨result, hr⟩ := ih [13]
      exact ⟨result, by simp only [feed, h, hr, Option.map_some, List.nil_append]⟩
    · exact ⟨none, by simp only [feed, h]⟩

end NoHeaders

lemma step_empty {p : HttpParser} (hi : Buffered p []) (hs : p.stage = .headers)
    (h0 : p.headerSearch = 0) : stageStep p [] = .need (waiting p []) [] := by
  have hm : ¬ p.maxHeaders = 0 := Nat.pos_iff_ne_zero.mp hi.limit
  simp [step_headers [] hs, h0, skipEmptyLines, scanStep_eq _ hi.whole, scanHeaders, hm]

lemma create_buffered (maxHeaders maxBody : UInt64) (h : maxHeaders ≠ 0) :
    Buffered (create maxHeaders maxBody false) [] where
  whole := rfl
  stored := rfl
  limit := Nat.pos_of_ne_zero fun h' => h (UInt64.toNat_inj.mp h')
  scanned _ := le_refl _
  fresh _ _ := rfl

/-- The events of a connection are the same for every cut of its input, whatever the limits; and
unless the header limit is zero, a run ends in an error if and only if the uncut one does. -/
theorem requests_independent_of_cut (maxHeaders maxBody : UInt64) (pieces : List Bytes) :
    ∃ events cut whole, run maxHeaders maxBody pieces = some (events, cut) ∧
      run maxHeaders maxBody [pieces.flatten] = some (events, whole) ∧
      (maxHeaders = 0 ∨ (cut = none ↔ whole = none)) := by
  by_cases h0 : maxHeaders = 0
  · subst h0
    obtain ⟨cut, hc⟩ := feed_zero (p := create 0 maxBody false) [] pieces rfl rfl rfl
    obtain ⟨whole, hw⟩ := feed_zero (p := create 0 maxBody false) [] [pieces.flatten] rfl rfl rfl
    exact ⟨[], cut, whole, hc, hw, .inl rfl⟩
  · have hi := create_buffered maxHeaders maxBody h0
    obtain ⟨events', whole, hw, hfw⟩ := feed_spec (create maxHeaders maxBody false) [] [pieces.flatten]
    cases pieces with
    | nil =>
      have hd : Drain stageStep (create maxHeaders maxBody false) [] [] (some _) :=
        .need (step_empty hi rfl rfl)
      obtain ⟨rfl, rfl⟩ := hfw.unique (.piece hd .done)
      exact ⟨[], _, _, rfl, hw, .inr (by simp)⟩
    | cons piece pieces =>
      obtain ⟨events, cut, hc, hfc⟩ := feed_spec (create maxHeaders maxBody false) [] (piece :: pieces)
      obtain ⟨rfl, hn⟩ := resumable.feed_cut hi (by simp) (by simp) (by simp) hfc hfw
      refine ⟨events, cut, whole, hc, hw, .inr ?_⟩
      rw [← Option.isNone_iff_eq_none, ← Option.isNone_iff_eq_none, hn]

/-- A zero header limit: cut behind the CRLF the run fails, whole it waits for the LF. -/
theorem cut_before_lone_cr_differs :
    ¬ ∃ events cut whole, run 0 0 [[13, 10], [13]] = some (events, cut) ∧
      run 0 0 [[[13, 10], [13]].flatten] = some (events, whole) ∧ (cut = none ↔ whole = none) := by
  rintro ⟨events, cut, whole, hc, hw, hiff⟩
  have hc' : run 0 0 [[13, 10], [13]] = some ([], none) := by decide +kernel
  have hw' : run 0 0 [[[13, 10], [13]].flatten] = some ([], some (create 0 0 false, [13])) := by
    decide +kernel
  obtain ⟨-, rfl⟩ : _ ∧ none = cut := by simpa [hc'] using hc
  obtain ⟨-, rfl⟩ : _ ∧ some _ = whole := by simpa only [hw', Option.some.injEq, Prod.mk.injEq] using hw
  simp at hiff

end ServerCore.Web.HttpParser
