import ServerCore.Web.HttpParser

/-! The `Advance` loop as single stage steps, their progress measure, and what
each of them does when more input stands behind what it reads. -/

namespace ServerCore.Web.HttpParser

open ServerCore.Core

def stageFlow (c : Cursor) : Flow :=
  match c.parser.stage with
  | .failed => failedBlock c
  | .headers => headersBlock c
  | .fixedBody => if c.parser.expectsContinue then continueBlock c else fixedBodyBlock c
  | .chunkSize => if c.parser.expectsContinue then continueBlock c else chunkSizeBlock c
  | .chunkData => if c.parser.expectsContinue then continueBlock c else chunkDataBlock c
  | .chunkEnd => if c.parser.expectsContinue then continueBlock c else chunkEndBlock c
  | .trailers => if c.parser.expectsContinue then continueBlock c else trailersBlock c

lemma parseHeaders_ok {maxBody : ℕ} {h h' : Head} {block : Bytes}
    (ho : parseHeaders maxBody h block = .ok h') :
    ∃ lineEnd h₁ authority h₂ flags, find crlf block = some lineEnd ∧
      parseRequestLine h (block.take lineEnd) = .ok (h₁, authority) ∧
      parseHeaderLines maxBody h₁ {} (headerLines [] (block.drop (lineEnd + 2))) = .ok (h₂, flags) ∧
      finishHeaders h₂ flags authority = .ok h' := by
  unfold parseHeaders at ho
  split at ho
  · cases ho
  rename_i lineEnd hf
  split at ho
  · cases ho
  rename_i h₁ authority hr
  split at ho
  · cases ho
  rename_i h₂ flags hl
  exact ⟨lineEnd, h₁, authority, h₂, flags, hf, hr, hl, ho⟩

lemma finishHeaders_stage {h h' : Head} {flags : HeaderFlags} {authority : Bytes}
    (ho : finishHeaders h flags authority = .ok h') :
    h'.stage = .fixedBody ∨ h'.stage = .chunkSize := by
  unfold finishHeaders at ho
  split at ho
  · cases ho
  split at ho
  · cases ho
  obtain rfl := Except.ok.inj ho
  cases flags.haveTransfer <;> simp

lemma parseHeaders_stage {maxBody : ℕ} {h h' : Head} {block : Bytes}
    (ho : parseHeaders maxBody h block = .ok h') :
    h'.stage = .fixedBody ∨ h'.stage = .chunkSize := by
  obtain ⟨_, _, _, _, _, _, _, _, hf⟩ := parseHeaders_ok ho
  exact finishHeaders_stage hf

lemma parseRequestLine_length {h h' : Head} {line authority : Bytes}
    (ho : parseRequestLine h line = .ok (h', authority)) : 8 ≤ line.length := by
  unfold parseRequestLine at ho
  split at ho
  · cases ho
  split at ho
  · cases ho
  rename_i n _
  dsimp only at ho
  split at ho
  · cases ho
  split at ho
  · cases ho
  rename_i hv
  have hl : (line.drop (n + 1)).length = 8 := by
    by_cases h₁ : line.drop (n + 1) = ascii "HTTP/1.1"
    · rw [h₁]; rfl
    · have h₀ : line.drop (n + 1) = ascii "HTTP/1.0" := by
        by_contra h₀
        exact hv ⟨h₁, h₀⟩
      rw [h₀]; rfl
  rw [List.length_drop] at hl
  omega

lemma parseHeaders_length {maxBody : ℕ} {h h' : Head} {block : Bytes}
    (ho : parseHeaders maxBody h block = .ok h') : 8 ≤ block.length := by
  obtain ⟨lineEnd, _, _, _, _, _, hr, _, _⟩ := parseHeaders_ok ho
  have hl := parseRequestLine_length hr
  rw [List.length_take] at hl
  omega

lemma scanHeaders_append (x y : Bytes) (index count more : ℕ) (h : index + count ≤ x.length) :
    scanHeaders (x ++ y) index (count + more) =
      match scanHeaders x index count with
      | .none => scanHeaders (x ++ y) (index + count) more
      | scan => scan := by
  induction count generalizing index with
  | zero => simp [scanHeaders]
  | succ count ih =>
    have hi : (x ++ y)[index]? = x[index]? := List.getElem?_append_left (by omega)
    have hi₁ : (x ++ y)[index - 1]? = x[index - 1]? := List.getElem?_append_left (by omega)
    have hi₂ : (x ++ y)[index - 2]? = x[index - 2]? := List.getElem?_append_left (by omega)
    have hn : count + 1 + more = (count + more) + 1 := by omega
    have hm : index + (count + 1) = index + 1 + count := by omega
    rw [hn, hm]
    simp only [scanHeaders, hi, hi₁, hi₂]
    have ih' := ih (index + 1) (by omega)
    repeat' split
    all_goals simp_all

lemma scanHeaders_found {x : Bytes} {index count blank : ℕ}
    (h : scanHeaders x index count = .found blank) :
    index < blank + 4 ∧ blank + 4 ≤ index + count := by
  induction count generalizing index with
  | zero => simp [scanHeaders] at h
  | succ count ih =>
    simp only [scanHeaders] at h
    split at h
    · split at h
      · cases h
      · split at h
        · rename_i hb
          simp only [Bool.and_eq_true, decide_eq_true_eq] at hb
          simp only [Scan.found.injEq] at h
          omega
        · have := ih h
          omega
    · split at h
      · cases h
      · have := ih h
        omega

lemma skipEmptyLines_append (x y : Bytes) (h : skipEmptyLines x ≠ []) (h' : skipEmptyLines x ≠ [13]) :
    skipEmptyLines (x ++ y) = skipEmptyLines x ++ y := by
  fun_induction skipEmptyLines x with
  | case1 rest ih => exact ih h h'
  | case2 x hx =>
    match x, hx, h, h' with
    | [b], _, _, h' =>
      have hb : b ≠ 13 := by rintro rfl; exact h' rfl
      rw [List.singleton_append, skipEmptyLines]
      intro rest hr
      simp_all
    | b :: b' :: rest, hx, _, _ =>
      rw [List.cons_append, List.cons_append, skipEmptyLines]
      intro rest' hr
      simp only [List.cons.injEq] at hr
      obtain ⟨rfl, rfl, -⟩ := hr
      exact hx rest rfl

lemma skipEmptyLines_skip (x y : Bytes) : skipEmptyLines (skipEmptyLines x ++ y) = skipEmptyLines (x ++ y) := by
  fun_induction skipEmptyLines x with
  | case1 rest ih => exact ih
  | case2 x hx => rfl

lemma skipEmptyLines_length_le (x : Bytes) : (skipEmptyLines x).length ≤ x.length := by
  fun_induction skipEmptyLines x with
  | case1 rest ih => simp only [List.length_cons]; omega
  | case2 x hx => rfl

lemma readLine_line {limit n : ℕ} {x : Bytes} (y : Bytes) (h : readLine limit x = .line n) :
    readLine limit (x ++ y) = .line n ∧ n + 2 ≤ x.length := by
  cases hf : find crlf x with
  | none =>
    simp only [readLine, hf] at h
    split at h <;> cases h
  | some m =>
    simp only [readLine, hf] at h
    split at h
    · cases h
    · rename_i hm
      obtain rfl : m = n := by simpa using h
      exact ⟨by simp only [readLine, find_append y hf, if_neg hm], find_bound hf⟩

lemma readLine_tooLong {limit : ℕ} {x : Bytes} (y : Bytes) (h : readLine limit x = .tooLong) :
    readLine limit (x ++ y) = .tooLong := by
  cases hf : find crlf x with
  | none =>
    have hl : x.length > limit := by
      by_contra hl
      simp [readLine, hf, hl] at h
    cases hf' : find crlf (x ++ y) with
    | none =>
      have hl' : (x ++ y).length > limit := by rw [List.length_append]; omega
      simp only [readLine, hf', if_pos hl']
    | some n =>
      have hn := find_append_none hf hf'
      simp only [crlf, List.length_cons, List.length_nil] at hn
      have hl' : n + 2 > limit := by omega
      simp only [readLine, hf', if_pos hl']
  | some m =>
    simp only [readLine, hf, find_append y hf] at h ⊢
    exact h

end ServerCore.Web.HttpParser
