import ServerCore.Foundations.StreamDecoder
import ServerCore.Protocol.FrameCodec

/-! Length-prefixed streams as such, and the reader as a decoder of them: the bytes
between `start` and `stop` are what the abstract decoder has left unread. -/

namespace ServerCore.Protocol.FrameCodec

open ServerCore.Core ServerCore.Foundations.StreamDecoder

def lengthHeader (n : ℕ) : Bytes :=
  [UInt8.ofNat n, UInt8.ofNat (n / 2 ^ 8), UInt8.ofNat (n / 2 ^ 16), UInt8.ofNat (n / 2 ^ 24)]

def frame (body : Bytes) : Bytes := lengthHeader body.length ++ body

def announced : Bytes → Option ℕ
  | b0 :: b1 :: b2 :: b3 :: _ =>
    some (b0.toNat + b1.toNat * 2 ^ 8 + b2.toNat * 2 ^ 16 + b3.toNat * 2 ^ 24)
  | _ => none

def frameStep (limit : ℕ) (s : Unit) (x : Bytes) : Outcome Unit Byte Bytes :=
  match announced x with
  | none => .need s x
  | some n =>
    if limit < n then .fail
    else if x.length < headerSize + n then .need s x
    else .go (some ((x.drop headerSize).take n)) s (x.drop (headerSize + n))

lemma announced_eq_none_iff (x : Bytes) : announced x = none ↔ x.length < headerSize := by
  rcases x with _ | ⟨_, _ | ⟨_, _ | ⟨_, _ | ⟨_, _⟩⟩⟩⟩ <;> simp [announced, headerSize]

lemma announced_append {x : Bytes} {n : ℕ} (y : Bytes) (h : announced x = some n) :
    announced (x ++ y) = some n := by
  rcases x with _ | ⟨_, _ | ⟨_, _ | ⟨_, _ | ⟨_, _⟩⟩⟩⟩ <;> simp_all [announced]

lemma headerSize_le_of_announced {x : Bytes} {n : ℕ} (h : announced x = some n) :
    headerSize ≤ x.length := by
  by_contra hl
  rw [(announced_eq_none_iff x).mpr (by omega)] at h
  cases h

lemma announced_frame {body : Bytes} (tail : Bytes) (h : body.length < 2 ^ 32) :
    announced (frame body ++ tail) = some body.length := by
  simp only [frame, lengthHeader, announced, List.cons_append, UInt8.toNat_ofNat', Option.some.injEq]
  omega

lemma lengthHeader_length (n : ℕ) : (lengthHeader n).length = headerSize := rfl

lemma frame_length (body : Bytes) : (frame body).length = headerSize + body.length := by
  rw [frame, List.length_append, lengthHeader_length]

lemma lengthHeader_of_announced {x : Bytes} {n : ℕ} (h : announced x = some n) :
    lengthHeader n = x.take headerSize := by
  rcases x with _ | ⟨b0, _ | ⟨b1, _ | ⟨b2, _ | ⟨b3, _⟩⟩⟩⟩ <;> simp only [announced, reduceCtorEq] at h
  obtain rfl := Option.some.inj h
  have h0 := b0.toNat_lt
  have h1 := b1.toNat_lt
  have h2 := b2.toNat_lt
  have h3 := b3.toNat_lt
  simp only [lengthHeader, headerSize, List.take_succ_cons, List.take_zero, List.cons.injEq, and_true]
  refine ⟨?_, ?_, ?_, ?_⟩ <;> apply UInt8.toNat_inj.mp <;> simp only [UInt8.toNat_ofNat'] <;> omega

lemma frame_of_announced {x : Bytes} {n : ℕ} (h : announced x = some n)
    (hl : headerSize + n ≤ x.length) :
    x = frame ((x.drop headerSize).take n) ++ x.drop (headerSize + n) := by
  have hb : ((x.drop headerSize).take n).length = n := by
    rw [List.length_take, List.length_drop]
    omega
  rw [frame, hb, lengthHeader_of_announced h, List.append_assoc, ← List.drop_drop,
    List.take_append_drop, List.take_append_drop]

lemma frameStep_need_iff {limit : ℕ} {s s' : Unit} {x rest : Bytes} :
    frameStep limit s x = .need s' rest ↔
      rest = x ∧ ∀ n, announced x = some n → n ≤ limit ∧ x.length < headerSize + n := by
  simp only [frameStep]
  cases announced x with
  | none => simp [eq_comm]
  | some n => grind

lemma frameStep_fail_iff {limit : ℕ} {s : Unit} {x : Bytes} :
    frameStep limit s x = .fail ↔ ∃ n, announced x = some n ∧ limit < n := by
  simp only [frameStep]
  cases announced x with
  | none => simp
  | some n => grind

lemma frameStep_go_iff {limit : ℕ} {s s' : Unit} {x rest : Bytes} {event : Option Bytes} :
    frameStep limit s x = .go event s' rest ↔
      ∃ n, announced x = some n ∧ n ≤ limit ∧ headerSize + n ≤ x.length ∧
        event = some ((x.drop headerSize).take n) ∧ rest = x.drop (headerSize + n) := by
  simp only [frameStep]
  cases announced x with
  | none => simp
  | some n => grind

lemma frameStep_frame {limit : ℕ} {body : Bytes} (tail : Bytes) (hb : body.length ≤ limit)
    (hl : limit < 2 ^ 32) (s : Unit) :
    frameStep limit s (frame body ++ tail) = .go (some body) s tail := by
  have hf : frame body ++ tail = lengthHeader body.length ++ (body ++ tail) := by
    rw [frame, List.append_assoc]
  refine frameStep_go_iff.mpr ⟨body.length, announced_frame tail (by omega), hb, ?_, ?_, ?_⟩
  · rw [List.length_append, frame_length]
    omega
  · rw [hf, List.drop_left' (lengthHeader_length _), List.take_left]
  · rw [List.drop_left' (frame_length body)]

lemma frameStep_resumable (limit : ℕ) : Resumable (frameStep limit) (fun _ _ => True) Eq where
  refl _ := rfl
  trans _ _ _ := Eq.trans
  inv_mono _ _ _ _ := trivial
  inv_need _ _ _ _ _ _ := trivial
  inv_go _ _ _ _ _ _ _ := trivial
  congr s t x h _ := by
    obtain rfl := h
    cases frameStep limit s x with
    | need s' rest => exact .need rfl
    | go event s' rest => exact .go rfl
    | fail => exact .fail
  need_append s x s' rest y _ h := by
    obtain ⟨rfl, -⟩ := frameStep_need_iff.mp h
    cases frameStep limit s (rest ++ y) with
    | need s' rest => exact .need rfl
    | go event s' rest => exact .go rfl
    | fail => exact .fail
  go_append s x event s' rest y _ h := by
    obtain ⟨n, hn, hle, hlen, rfl, rfl⟩ := frameStep_go_iff.mp h
    refine frameStep_go_iff.mpr ⟨n, announced_append y hn, hle, ?_, ?_, ?_⟩
    · rw [List.length_append]
      omega
    · rw [List.drop_append_of_le_length (by omega), List.take_append_of_le_length]
      rw [List.length_drop]
      omega
    · rw [List.drop_append_of_le_length hlen]
  fail_append s x y _ h := by
    obtain ⟨n, hn, hlt⟩ := frameStep_fail_iff.mp h
    exact frameStep_fail_iff.mpr ⟨n, announced_append y hn, hlt⟩

/-- `x` is the frames of `bodies` followed by `rest`, which does not start with a complete frame. -/
structure Splits (limit : ℕ) (x : Bytes) (bodies : List Bytes) (rest : Bytes) : Prop where
  stream : x = (bodies.map frame).flatten ++ rest
  bounded : ∀ body ∈ bodies, body.length ≤ limit
  maximal : ¬ ∃ body tail, body.length ≤ limit ∧ rest = frame body ++ tail

lemma splits_of_need {limit : ℕ} {x : Bytes} (hl : limit < 2 ^ 32)
    (h : ∀ n, announced x = some n → limit < n ∨ x.length < headerSize + n) : Splits limit x [] x where
  stream := rfl
  bounded := by simp
  maximal := by
    rintro ⟨body, tail, hb, rfl⟩
    have := h _ (announced_frame tail (by omega))
    rw [List.length_append, frame_length] at this
    omega

lemma drain_splits {limit : ℕ} (hl : limit < 2 ^ 32) {s : Unit} {x : Bytes} {bodies : List Bytes}
    {result : Option (Unit × Bytes)} (h : Drain (frameStep limit) s x bodies result) :
    ∃ rest, Splits limit x bodies rest ∧
      (result = none ↔ ∃ n, announced rest = some n ∧ limit < n) ∧
      ∀ s' rest', result = some (s', rest') → rest' = rest := by
  induction h with
  | need hs =>
    obtain ⟨rfl, hn⟩ := frameStep_need_iff.mp hs
    refine ⟨_, splits_of_need hl fun n hx => .inr (hn n hx).2, ?_, by simp⟩
    simp only [reduceCtorEq, false_iff, not_exists, not_and, not_lt]
    exact fun n hx => (hn n hx).1
  | fail hs =>
    obtain ⟨n, hx, hlt⟩ := frameStep_fail_iff.mp hs
    refine ⟨_, splits_of_need hl fun m hm => .inl ?_, ?_, by simp⟩
    · obtain rfl : n = m := Option.some.inj (hx.symm.trans hm)
      exact hlt
    · simpa using ⟨n, hx, hlt⟩
  | @go s x event s' rest events result hs _ ih =>
    obtain ⟨n, hx, hle, hlen, rfl, rfl⟩ := frameStep_go_iff.mp hs
    obtain ⟨rest', hsp, hnone, hsome⟩ := ih
    refine ⟨rest', ⟨?_, ?_, hsp.maximal⟩, hnone, hsome⟩
    · simp only [Option.toList_some, List.cons_append, List.nil_append, List.map_cons,
        List.flatten_cons, List.append_assoc]
      rw [← hsp.stream, ← frame_of_announced hx hlen]
    · intro body hb
      rcases List.mem_cons.mp hb with rfl | hb
      · exact (List.length_take_le _ _).trans hle
      · exact hsp.bounded body hb

lemma drain_frames {limit : ℕ} (hl : limit < 2 ^ 32) {bodies : List Bytes}
    (hb : ∀ body ∈ bodies, body.length ≤ limit) (s : Unit) :
    Drain (frameStep limit) s (bodies.map frame).flatten bodies (some (s, [])) := by
  induction bodies with
  | nil => exact .need (frameStep_need_iff.mpr ⟨rfl, by simp [announced]⟩)
  | cons body bodies ih =>
    have hs := frameStep_frame (bodies.map frame).flatten (hb body (by simp)) hl s
    exact .go hs (ih fun b h => hb b (by simp [h]))

end ServerCore.Protocol.FrameCodec
