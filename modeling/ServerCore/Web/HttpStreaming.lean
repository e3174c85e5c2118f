import ServerCore.Web.HttpFraming

/-! Reading one request in either mode: the caller's loop around `Parse`, and the
decoder it runs. -/

namespace ServerCore.Web.HttpParser

open ServerCore.Core ServerCore.Foundations.StreamDecoder

inductive Ending
  | completed (p : HttpParser) (unread : Bytes)
  | waiting (p : HttpParser) (unread : Bytes)
  | failed
  deriving DecidableEq, Repr

/-- `Parse` on the unread rest until the request is complete or the parser blocks or fails;
`onHeaders` is what the caller does to the parser after a `Headers` event. -/
def readBuffer (onHeaders : HttpParser → HttpParser) :
    ℕ → HttpParser → Bytes → Option (List Event × Ending)
  | 0, _, _ => none
  | fuel + 1, p, input =>
    match parse p input {} with
    | none => none
    | some (⟨.needMore, _⟩, c) => some ([], .waiting c.parser c.input)
    | some (⟨.error, _⟩, _) => some ([], .failed)
    | some (⟨.complete, _⟩, c) => some ([.complete c.output], .completed c.parser c.input)
    | some (⟨.headers, _⟩, c) =>
      (readBuffer onHeaders fuel (onHeaders c.parser) c.input).map fun (events, ending) =>
        (.headers c.output :: events, ending)
    | some (⟨kind, _⟩, c) =>
      (readBuffer onHeaders fuel c.parser c.input).map fun (events, ending) =>
        ((event c kind).toList ++ events, ending)

def readRequest (onHeaders : HttpParser → HttpParser) :
    HttpParser → Bytes → List Bytes → Option (List Event × Ending)
  | p, unread, [] => some ([], .waiting p unread)
  | p, unread, piece :: pieces =>
    let input := unread ++ piece
    match readBuffer onHeaders (3 * input.length + 4) p input with
    | none => none
    | some (events, .waiting p unread) =>
      (readRequest onHeaders p unread pieces).map fun (events', ending) => (events ++ events', ending)
    | some (events, .completed p unread) => some (events, .completed p (unread ++ pieces.flatten))
    | some (events, .failed) => some (events, .failed)

def streamBody (maxBody maxChunk : ℕ) (p : HttpParser) : HttpParser := (p.configureBody true maxBody maxChunk).2

def isComplete : Event → Bool
  | .complete _ => true
  | _ => false

def configuredStep (onHeaders : HttpParser → HttpParser) (p : HttpParser) (x : Bytes) :
    Outcome HttpParser Byte Event :=
  match stageStep p x with
  | .go (some (.headers r)) q rest => .go (some (.headers r)) (onHeaders q) rest
  | o => o

lemma configuredStep_id : configuredStep id = stageStep := by
  funext p x
  unfold configuredStep
  split
  · rename_i h
    exact h.symm
  · rfl

def requestStep (onHeaders : HttpParser → HttpParser) : HttpParser × Bool → Bytes → Outcome (HttpParser × Bool) Byte Event :=
  halting (configuredStep onHeaders) isComplete

def ending : Option ((HttpParser × Bool) × Bytes) → Ending
  | none => .failed
  | some ((p, true), unread) => .completed p unread
  | some ((p, false), unread) => .waiting p unread

section Driver

variable {onHeaders : HttpParser → HttpParser} {p q : HttpParser} {x y : Bytes}

lemma silent_request (onHeaders : HttpParser → HttpParser) (h : Silent stageStep p x q y) :
    Silent (requestStep onHeaders) (p, false) x (q, false) y := by
  induction h with
  | refl => exact .refl
  | go hs _ ih => exact .go (by simp [requestStep, halting, configuredStep, hs]) ih

lemma readBuffer_drain {fuel : ℕ} (hrank : ∀ q, rank (onHeaders q) = rank q) (hf : potential p x < fuel) :
    ∃ events result, readBuffer onHeaders fuel p x = some (events, ending result) ∧
      Drain (requestStep onHeaders) (p, false) x events result := by
  induction fuel generalizing p x with
  | zero => omega
  | succ fuel ih =>
    obtain ⟨⟨kind, status⟩, c, hp, hr⟩ := @advance_reaches ⟨p, x, {}⟩ _ (potential_le p x)
    obtain ⟨q, y, hq, hy⟩ := reaches_silent hr
    have hparse : parse p x {} = some (⟨kind, status⟩, c) := hp
    have hle := silent_potential hq
    have hs := silent_request onHeaders hq
    have hlt : ∀ e, event c kind = some e → potential c.parser c.input < fuel := by
      intro e he
      rw [outcome_ret c kind status he] at hy
      have := (step_goes hy).descends
      omega
    cases kind with
    | needMore =>
      refine ⟨[], some ((c.parser, false), c.input), by simp [readBuffer, hparse, ending], hs.drain (.need ?_)⟩
      simp [requestStep, halting, configuredStep, hy, outcome]
    | error =>
      refine ⟨[], none, by simp [readBuffer, hparse, ending], hs.drain (.fail ?_)⟩
      simp [requestStep, halting, configuredStep, hy, outcome]
    | complete =>
      refine ⟨[.complete c.output], some ((c.parser, true), c.input), by simp [readBuffer, hparse, ending], hs.drain ?_⟩
      have ho : requestStep onHeaders (q, false) y = .go (some (.complete c.output)) (c.parser, true) c.input := by
        simp [requestStep, halting, configuredStep, hy, outcome, event, isComplete]
      exact .go ho (.need rfl)
    | headers =>
      have hpot : potential (onHeaders c.parser) c.input < fuel := by
        rw [potential, hrank]
        exact hlt _ rfl
      obtain ⟨events, result, hu, hd⟩ := ih hpot
      refine ⟨.headers c.output :: events, result, by simp [readBuffer, hparse, hu], hs.drain ?_⟩
      have ho : requestStep onHeaders (q, false) y =
          .go (some (.headers c.output)) (onHeaders c.parser, false) c.input := by
        simp [requestStep, halting, configuredStep, hy, outcome, event, isComplete]
      exact .go ho hd
    | continue100 =>
      obtain ⟨events, result, hu, hd⟩ := ih (hlt _ rfl)
      refine ⟨.continue100 :: events, result, by simp [readBuffer, hparse, hu, event], hs.drain ?_⟩
      have ho : requestStep onHeaders (q, false) y = .go (some .continue100) (c.parser, false) c.input := by
        simp [requestStep, halting, configuredStep, hy, outcome, event, isComplete]
      exact .go ho hd
    | body =>
      obtain ⟨events, result, hu, hd⟩ := ih (hlt _ rfl)
      refine ⟨.body c.output.body :: events, result, by simp [readBuffer, hparse, hu, event], hs.drain ?_⟩
      have ho : requestStep onHeaders (q, false) y = .go (some (.body c.output.body)) (c.parser, false) c.input := by
        simp [requestStep, halting, configuredStep, hy, outcome, event, isComplete]
      exact .go ho hd

lemma feed_halted (pieces : List Bytes) :
    Feed (requestStep onHeaders) (p, true) x pieces [] (some ((p, true), x ++ pieces.flatten)) := by
  induction pieces generalizing x with
  | nil =>
    rw [List.flatten_nil, List.append_nil]
    exact .done
  | cons piece pieces ih =>
    have h := ih (x := x ++ piece)
    rw [List.append_assoc] at h
    have hs : requestStep onHeaders (p, true) (x ++ piece) = .need (p, true) (x ++ piece) := rfl
    exact .piece (.need hs) h

lemma readRequest_feed (hrank : ∀ q, rank (onHeaders q) = rank q) (pieces : List Bytes) :
    ∃ events result, readRequest onHeaders p x pieces = some (events, ending result) ∧
      Feed (requestStep onHeaders) (p, false) x pieces events result := by
  induction pieces generalizing p x with
  | nil => exact ⟨[], some ((p, false), x), rfl, .done⟩
  | cons piece pieces ih =>
    obtain ⟨events, result, hu, hd⟩ := readBuffer_drain hrank (potential_le p (x ++ piece))
    match result with
    | none => exact ⟨events, none, by simp only [readRequest, hu, ending], .failed hd⟩
    | some ((q, true), rest) =>
      refine ⟨events, some ((q, true), rest ++ pieces.flatten), by simp only [readRequest, hu, ending], ?_⟩
      have hf := Feed.piece hd (feed_halted pieces)
      rwa [List.append_nil] at hf
    | some ((q, false), rest) =>
      obtain ⟨events', result', hr, hf⟩ := ih (p := q) (x := rest)
      exact ⟨events ++ events', result', by simp only [readRequest, hu, ending, hr, Option.map_some], .piece hd hf⟩

end Driver

lemma rank_streamBody (maxBody maxChunk : ℕ) (q : HttpParser) : rank (streamBody maxBody maxChunk q) = rank q := rfl

lemma resumable_request :
    Resumable (requestStep id) (fun s x => Buffered s.1 x) (fun s t => Agree s.1 t.1 ∧ s.2 = t.2) := by
  rw [requestStep, configuredStep_id]
  exact resumable.halting isComplete

end ServerCore.Web.HttpParser
