import Mathlib.Data.List.Basic

/-! Resumable stream decoders: machines that read the front of a buffer, keep
what they could not use yet, and give the same events however the stream is cut. -/

namespace ServerCore.Foundations.StreamDecoder

variable {S α E : Type*}

/-- One step of a decoder on the unread part of its buffer: it asks for more
input, makes progress with at most one event, or fails for good. -/
inductive Outcome (S α E : Type*)
  | need (s : S) (rest : List α)
  | go (event : Option E) (s : S) (rest : List α)
  | fail

inductive Outcome.Rel (R : S → S → Prop) : Outcome S α E → Outcome S α E → Prop
  | need {s t rest} : R s t → Rel R (.need s rest) (.need t rest)
  | go {event s t rest} : R s t → Rel R (.go event s rest) (.go event t rest)
  | fail : Rel R .fail .fail

inductive EndRel (R : S → S → Prop) : Option (S × List α) → Option (S × List α) → Prop
  | blocked {s t rest} : R s t → EndRel R (some (s, rest)) (some (t, rest))
  | failed : EndRel R none none

/-- Steps repeated until the machine blocks (`some` state and unread rest) or fails (`none`). -/
inductive Drain (step : S → List α → Outcome S α E) :
    S → List α → List E → Option (S × List α) → Prop
  | need {s x s' rest} : step s x = .need s' rest → Drain step s x [] (some (s', rest))
  | fail {s x} : step s x = .fail → Drain step s x [] none
  | go {s x event s' rest events result} : step s x = .go event s' rest →
      Drain step s' rest events result → Drain step s x (event.toList ++ events) result

/-- Pieces arriving one after the other, each appended to the unread rest and drained. -/
inductive Feed (step : S → List α → Outcome S α E) :
    S → List α → List (List α) → List E → Option (S × List α) → Prop
  | done {s rest} : Feed step s rest [] [] (some (s, rest))
  | failed {s rest piece pieces events} : Drain step s (rest ++ piece) events none →
      Feed step s rest (piece :: pieces) events none
  | piece {s rest piece pieces events s' rest' events' result} :
      Drain step s (rest ++ piece) events (some (s', rest')) →
      Feed step s' rest' pieces events' result →
      Feed step s rest (piece :: pieces) (events ++ events') result

/-- What makes a decoder indifferent to cuts. `R` relates states that differ only in what the
machine no longer reads, `I` is the invariant between a state and its unread input. -/
structure Resumable (step : S → List α → Outcome S α E) (I : S → List α → Prop)
    (R : S → S → Prop) : Prop where
  refl : ∀ s, R s s
  trans : ∀ s t u, R s t → R t u → R s u
  inv_mono : ∀ s x y, I s x → I s (x ++ y)
  inv_need : ∀ s x s' rest, I s x → step s x = .need s' rest → I s' rest
  inv_go : ∀ s x event s' rest, I s x → step s x = .go event s' rest → I s' rest
  congr : ∀ s t x, R s t → I s x → Outcome.Rel R (step s x) (step t x)
  need_append : ∀ s x s' rest y, I s x → step s x = .need s' rest →
    Outcome.Rel R (step s' (rest ++ y)) (step s (x ++ y))
  go_append : ∀ s x event s' rest y, I s x → step s x = .go event s' rest →
    step s (x ++ y) = .go event s' (rest ++ y)
  fail_append : ∀ s x y, I s x → step s x = .fail → step s (x ++ y) = .fail

lemma EndRel.trans {R : S → S → Prop} (ht : ∀ s t u, R s t → R t u → R s u)
    {a b c : Option (S × List α)} (hab : EndRel R a b) (hbc : EndRel R b c) : EndRel R a c := by
  cases hab with
  | blocked h => cases hbc with
    | blocked h' => exact .blocked (ht _ _ _ h h')
  | failed => exact hbc

lemma EndRel.isNone_eq {R : S → S → Prop} {a b : Option (S × List α)} (h : EndRel R a b) :
    a.isNone = b.isNone := by
  cases h <;> rfl

variable {step : S → List α → Outcome S α E}

/-- Steps without an event. -/
inductive Silent (step : S → List α → Outcome S α E) : S → List α → S → List α → Prop
  | refl {s x} : Silent step s x s x
  | go {s x s' rest t y} : step s x = .go none s' rest → Silent step s' rest t y → Silent step s x t y

lemma Silent.drain {s t : S} {x y : List α} {events : List E} {result : Option (S × List α)}
    (h : Silent step s x t y) (hd : Drain step t y events result) : Drain step s x events result := by
  induction h with
  | refl => exact hd
  | go hs _ ih => exact .go hs (ih hd)

/-- A feed step by step: a machine that blocks goes on with the next piece. -/
inductive Trace (step : S → List α → Outcome S α E) :
    S → List α → List (List α) → List E → Option (S × List α) → Prop
  | done {s x s' rest} : step s x = .need s' rest → Trace step s x [] [] (some (s', rest))
  | piece {s x s' rest piece pieces events result} : step s x = .need s' rest →
      Trace step s' (rest ++ piece) pieces events result → Trace step s x (piece :: pieces) events result
  | fail {s x pieces} : step s x = .fail → Trace step s x pieces [] none
  | go {s x event s' rest pieces events result} : step s x = .go event s' rest →
      Trace step s' rest pieces events result → Trace step s x pieces (event.toList ++ events) result

lemma Drain.trace {s s' : S} {x rest piece : List α} {pieces : List (List α)} {events events' : List E}
    {result : Option (S × List α)} (h : Drain step s x events (some (s', rest)))
    (ht : Trace step s' (rest ++ piece) pieces events' result) :
    Trace step s x (piece :: pieces) (events ++ events') result := by
  generalize hf : some (s', rest) = f at h
  induction h with
  | need hs =>
    obtain ⟨rfl, rfl⟩ : _ ∧ _ := by simpa using hf
    exact .piece hs ht
  | fail _ => simp at hf
  | go hs _ ih =>
    rw [List.append_assoc]
    exact .go hs (ih hf)

lemma Drain.trace_last {s : S} {x : List α} {events : List E} {result : Option (S × List α)}
    (h : Drain step s x events result) : Trace step s x [] events result := by
  induction h with
  | need hs => exact .done hs
  | fail hs => exact .fail hs
  | go hs _ ih => exact .go hs ih

lemma Drain.trace_fail {s : S} {x : List α} {events : List E} {pieces : List (List α)}
    (h : Drain step s x events none) : Trace step s x pieces events none := by
  generalize hf : (none : Option (S × List α)) = f at h
  induction h with
  | need _ => simp at hf
  | fail hs => exact .fail hs
  | go hs _ ih => exact .go hs (ih hf)

lemma Feed.trace {s : S} {rest piece : List α} {pieces : List (List α)} {events : List E}
    {result : Option (S × List α)} (h : Feed step s rest (piece :: pieces) events result) :
    Trace step s (rest ++ piece) pieces events result := by
  induction pieces generalizing s rest piece events with
  | nil =>
    cases h with
    | failed hd => exact hd.trace_fail
    | piece hd hf =>
      cases hf
      rw [List.append_nil]
      exact hd.trace_last
  | cons next pieces ih =>
    cases h with
    | failed hd => exact hd.trace_fail
    | piece hd hf => exact hd.trace (ih hf)

lemma Drain.unique {s : S} {x : List α} {e e' : List E} {f f' : Option (S × List α)}
    (h : Drain step s x e f) (h' : Drain step s x e' f') : e = e' ∧ f = f' := by
  induction h generalizing e' f' with
  | need hs =>
    cases h' with
    | need hs' => simp_all
    | fail hs' => simp_all
    | go hs' _ => simp_all
  | fail hs =>
    cases h' with
    | need hs' => simp_all
    | fail hs' => exact ⟨rfl, rfl⟩
    | go hs' _ => simp_all
  | go hs _ ih =>
    cases h' with
    | need hs' => simp_all
    | fail hs' => simp_all
    | go hs' hd =>
      obtain ⟨rfl, rfl, rfl⟩ : _ ∧ _ ∧ _ := by simpa [hs] using hs'
      obtain ⟨rfl, rfl⟩ := ih hd
      exact ⟨rfl, rfl⟩

lemma Feed.unique {s : S} {x : List α} {pieces : List (List α)} {e e' : List E}
    {f f' : Option (S × List α)} (h : Feed step s x pieces e f) (h' : Feed step s x pieces e' f') :
    e = e' ∧ f = f' := by
  induction h generalizing e' f' with
  | done => cases h'; exact ⟨rfl, rfl⟩
  | failed hd =>
    cases h' with
    | failed hd' => exact ⟨(hd.unique hd').1, rfl⟩
    | piece hd' _ => exact absurd (hd.unique hd').2 (by simp)
  | piece hd _ ih =>
    cases h' with
    | failed hd' => exact absurd (hd.unique hd').2 (by simp)
    | piece hd' hf =>
      obtain ⟨rfl, hs⟩ := hd.unique hd'
      obtain ⟨rfl, rfl⟩ : _ ∧ _ := by simpa using hs
      obtain ⟨rfl, rfl⟩ := ih hf
      exact ⟨rfl, rfl⟩

namespace Resumable

variable {I : S → List α → Prop} {R : S → S → Prop} (hr : Resumable step I R)

include hr

lemma drain_inv {s : S} {x : List α} {events : List E} {s' : S} {rest : List α} (hi : I s x)
    (h : Drain step s x events (some (s', rest))) : I s' rest := by
  generalize hf : some (s', rest) = f at h
  induction h with
  | need hs =>
    obtain ⟨rfl, rfl⟩ : _ ∧ _ := by simpa using hf
    exact hr.inv_need _ _ _ _ hi hs
  | fail _ => simp at hf
  | go hs _ ih => exact ih (hr.inv_go _ _ _ _ _ hi hs) hf

/-- Related first outcomes lead to the same events and related ends. -/
lemma drain_of_rel {s t : S} {x y : List α} {events : List E} {f : Option (S × List α)}
    (hi : I s x) (ho : Outcome.Rel R (step s x) (step t y)) (h : Drain step s x events f) :
    ∃ f', Drain step t y events f' ∧ EndRel R f f' := by
  induction h generalizing t y with
  | need hs =>
    rw [hs] at ho
    generalize hu : step t y = o at ho
    cases ho with
    | need hst => exact ⟨_, .need hu, .blocked hst⟩
  | fail hs =>
    rw [hs] at ho
    generalize hu : step t y = o at ho
    cases ho
    exact ⟨none, .fail hu, .failed⟩
  | go hs _ ih =>
    rw [hs] at ho
    generalize hu : step t y = o at ho
    cases ho with
    | go hst =>
      have hi' := hr.inv_go _ _ _ _ _ hi hs
      obtain ⟨f', hd, he⟩ := ih hi' (hr.congr _ _ _ hst hi')
      exact ⟨f', .go hu hd, he⟩

/-- Draining a prefix and then the rest behind what it left unread is draining the whole. -/
lemma drain_append {s s' : S} {x y rest : List α} {events events' : List E}
    {f : Option (S × List α)} (hi : I s x) (h : Drain step s x events (some (s', rest)))
    (h' : Drain step s' (rest ++ y) events' f) :
    ∃ f', Drain step s (x ++ y) (events ++ events') f' ∧ EndRel R f f' := by
  generalize hb : some (s', rest) = b at h
  induction h with
  | need hs =>
    obtain ⟨rfl, rfl⟩ : _ ∧ _ := by simpa using hb
    have hj := hr.inv_mono _ _ y (hr.inv_need _ _ _ _ hi hs)
    exact hr.drain_of_rel hj (hr.need_append _ _ _ _ y hi hs) h'
  | fail _ => simp at hb
  | go hs _ ih =>
    obtain ⟨f', hd, he⟩ := ih (hr.inv_go _ _ _ _ _ hi hs) hb
    rw [List.append_assoc]
    exact ⟨f', .go (hr.go_append _ _ _ _ _ y hi hs) hd, he⟩

lemma drain_append_fail {s : S} {x y : List α} {events : List E} (hi : I s x)
    (h : Drain step s x events none) : Drain step s (x ++ y) events none := by
  generalize hb : (none : Option (S × List α)) = b at h
  induction h with
  | need _ => simp at hb
  | fail hs => exact .fail (hr.fail_append _ _ y hi hs)
  | go hs _ ih => exact .go (hr.go_append _ _ _ _ _ y hi hs) (ih (hr.inv_go _ _ _ _ _ hi hs) hb)

/-- Any cut of the arriving stream drains to what the whole stream drains to. -/
lemma feed_drain {s : S} {rest : List α} {pieces : List (List α)} {events : List E}
    {f : Option (S × List α)} (hi : I s rest) (hp : pieces ≠ [])
    (h : Feed step s rest pieces events f) :
    ∃ f', Drain step s (rest ++ pieces.flatten) events f' ∧ EndRel R f f' := by
  induction h with
  | done => exact absurd rfl hp
  | @failed s rest piece pieces events hd =>
    refine ⟨none, ?_, .failed⟩
    rw [List.flatten_cons, ← List.append_assoc]
    exact hr.drain_append_fail (hr.inv_mono _ _ _ hi) hd
  | @piece s rest piece pieces events s' rest' events' result hd hf ih =>
    have hj := hr.inv_mono _ _ piece hi
    cases pieces with
    | nil =>
      cases hf
      refine ⟨some (s', rest'), by simpa using hd, .blocked (hr.refl _)⟩
    | cons next more =>
      obtain ⟨f', hd', he'⟩ := ih (hr.drain_inv hj hd) (by simp)
      obtain ⟨f'', hd'', he''⟩ := hr.drain_append hj hd hd'
      rw [List.flatten_cons, ← List.append_assoc]
      exact ⟨f'', hd'', he'.trans hr.trans he''⟩

/-- Two cuts of one stream give the same events, and both fail or neither does. -/
lemma feed_cut {s : S} {rest : List α} {pieces pieces' : List (List α)} {events events' : List E}
    {f f' : Option (S × List α)} (hi : I s rest) (hp : pieces ≠ []) (hp' : pieces' ≠ [])
    (hflat : pieces.flatten = pieces'.flatten) (h : Feed step s rest pieces events f)
    (h' : Feed step s rest pieces' events' f') : events = events' ∧ f.isNone = f'.isNone := by
  obtain ⟨g, hd, he⟩ := hr.feed_drain hi hp h
  obtain ⟨g', hd', he'⟩ := hr.feed_drain hi hp' h'
  rw [hflat] at hd
  obtain ⟨rfl, rfl⟩ := hd.unique hd'
  exact ⟨rfl, he.isNone_eq.trans he'.isNone_eq.symm⟩

end Resumable

/-- A decoder that blocks for good behind the first event that `stop` accepts. -/
def halting (step : S → List α → Outcome S α E) (stop : E → Bool) : S × Bool → List α → Outcome (S × Bool) α E
  | (s, true), x => .need (s, true) x
  | (s, false), x =>
    match step s x with
    | .need t rest => .need (t, false) rest
    | .go event t rest => .go event (t, event.any stop) rest
    | .fail => .fail

lemma halting_rel {R : S → S → Prop} {f : E → Bool} {s t : S} {x y : List α}
    (h : Outcome.Rel R (step s x) (step t y)) :
    Outcome.Rel (fun s t => R s.1 t.1 ∧ s.2 = t.2) (halting step f (s, false) x) (halting step f (t, false) y) := by
  simp only [halting]
  generalize step s x = a at h
  generalize step t y = b at h
  cases h with
  | need h => exact .need ⟨h, rfl⟩
  | go h => exact .go ⟨h, rfl⟩
  | fail => exact .fail

lemma Resumable.halting {I : S → List α → Prop} {R : S → S → Prop} (hr : Resumable step I R) (stop : E → Bool) :
    Resumable (halting step stop) (fun s x => I s.1 x) (fun s t => R s.1 t.1 ∧ s.2 = t.2) where
  refl s := ⟨hr.refl s.1, rfl⟩
  trans s t u h h' := ⟨hr.trans _ _ _ h.1 h'.1, h.2.trans h'.2⟩
  inv_mono s x y hi := hr.inv_mono _ _ _ hi
  inv_need := by
    rintro ⟨s, b⟩ x ⟨s', b'⟩ rest hi h
    cases b with
    | true =>
      simp only [StreamDecoder.halting, Outcome.need.injEq, Prod.mk.injEq] at h
      obtain ⟨⟨rfl, -⟩, rfl⟩ := h
      exact hi
    | false =>
      simp only [StreamDecoder.halting] at h
      cases hs : step s x <;> simp only [hs, reduceCtorEq, Outcome.need.injEq, Prod.mk.injEq] at h
      obtain ⟨⟨rfl, -⟩, rfl⟩ := h
      exact hr.inv_need _ _ _ _ hi hs
  inv_go := by
    rintro ⟨s, b⟩ x event ⟨s', b'⟩ rest hi h
    cases b with
    | true => simp [StreamDecoder.halting] at h
    | false =>
      simp only [StreamDecoder.halting] at h
      cases hs : step s x <;> simp only [hs, reduceCtorEq, Outcome.go.injEq, Prod.mk.injEq] at h
      obtain ⟨rfl, ⟨rfl, -⟩, rfl⟩ := h
      exact hr.inv_go _ _ _ _ _ hi hs
  congr := by
    rintro ⟨s, b⟩ ⟨t, b'⟩ x ⟨hst, hb⟩ hi
    dsimp only at hb
    subst hb
    cases b with
    | true => exact .need ⟨hst, rfl⟩
    | false => exact halting_rel (hr.congr _ _ _ hst hi)
  need_append := by
    rintro ⟨s, b⟩ x ⟨s', b'⟩ rest y hi h
    cases b with
    | true =>
      simp only [StreamDecoder.halting, Outcome.need.injEq, Prod.mk.injEq] at h
      obtain ⟨⟨rfl, rfl⟩, rfl⟩ := h
      exact .need ⟨hr.refl _, rfl⟩
    | false =>
      simp only [StreamDecoder.halting] at h
      cases hs : step s x <;> simp only [hs, reduceCtorEq, Outcome.need.injEq, Prod.mk.injEq] at h
      obtain ⟨⟨rfl, rfl⟩, rfl⟩ := h
      exact halting_rel (hr.need_append _ _ _ _ y hi hs)
  go_append := by
    rintro ⟨s, b⟩ x event ⟨s', b'⟩ rest y hi h
    cases b with
    | true => simp [StreamDecoder.halting] at h
    | false =>
      simp only [StreamDecoder.halting] at h ⊢
      cases hs : step s x <;> simp only [hs, reduceCtorEq, Outcome.go.injEq, Prod.mk.injEq] at h
      obtain ⟨rfl, ⟨rfl, rfl⟩, rfl⟩ := h
      rw [hr.go_append _ _ _ _ _ y hi hs]
  fail_append := by
    rintro ⟨s, b⟩ x y hi h
    cases b with
    | true => simp [StreamDecoder.halting] at h
    | false =>
      simp only [StreamDecoder.halting] at h ⊢
      cases hs : step s x <;> simp only [hs, reduceCtorEq] at h
      rw [hr.fail_append _ _ y hi hs]

end ServerCore.Foundations.StreamDecoder

namespace ServerCore.Foundations.WholeDecoder

variable {S E : Type*}

-- One step of a decoder that has its whole input before it.
inductive Next (S E : Type*)
  | fail
  | done
  | go (events : List E) (s : S)

def decodeWithin (next : S → Next S E) : ℕ → S → Option (List E)
  | 0, _ => none
  | fuel + 1, s =>
    match next s with
    | .fail => none
    | .done => some []
    | .go events s' => (decodeWithin next fuel s').map (events ++ ·)

/-- The events of the whole input, `none` where the decoder fails; `size` bounds its steps. -/
def decode (next : S → Next S E) (size : S → ℕ) (s : S) : Option (List E) := decodeWithin next (size s + 1) s

variable {next : S → Next S E} {size : S → ℕ}

lemma decodeWithin_fuel (hsize : ∀ s events s', next s = .go events s' → size s' < size s) {s : S} {fuel fuel' : ℕ}
    (h : size s < fuel) (h' : size s < fuel') : decodeWithin next fuel s = decodeWithin next fuel' s := by
  induction fuel generalizing s fuel' with
  | zero => omega
  | succ fuel ih =>
    cases fuel' with
    | zero => omega
    | succ fuel' =>
      simp only [decodeWithin]
      cases hn : next s with
      | fail => rfl
      | done => rfl
      | go events s' =>
        have := hsize s events s' hn
        have heq : decodeWithin next fuel s' = decodeWithin next fuel' s' := ih (by omega) (by omega)
        simp only [heq]

lemma decode_go (hsize : ∀ s events s', next s = .go events s' → size s' < size s) {s s' : S} {events : List E}
    (h : next s = .go events s') : decode next size s = (decode next size s').map (events ++ ·) := by
  have := hsize s events s' h
  rw [decode, decodeWithin, h]
  simp only [decode]
  rw [decodeWithin_fuel hsize this (Nat.lt_succ_self _)]

lemma decode_fail {s : S} (h : next s = .fail) : decode next size s = none := by
  rw [decode, decodeWithin, h]

lemma decode_done {s : S} (h : next s = .done) : decode next size s = some [] := by
  rw [decode, decodeWithin, h]

end ServerCore.Foundations.WholeDecoder
