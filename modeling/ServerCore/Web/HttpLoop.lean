import ServerCore.Web.HttpResumption

/-! The turns of the `Advance` loop, with their fall-through from block to block,
are sequences of single stage steps. -/

namespace ServerCore.Web.HttpParser

open ServerCore.Core

inductive Reaches : Cursor → HttpParseResult → Cursor → Prop
  | ret {c result c'} : stageFlow c = .ret result c' → Reaches c result c'
  | next {c c₁ result c'} : stageFlow c = .next c₁ ∨ stageFlow c = .again c₁ →
      Reaches c₁ result c' → Reaches c result c'

inductive Passes : Cursor → Cursor → Prop
  | refl {c} : Passes c c
  | next {c c₁ c'} : stageFlow c = .next c₁ ∨ stageFlow c = .again c₁ → Passes c₁ c' → Passes c c'

lemma Passes.reaches {c c₁ c' : Cursor} {result : HttpParseResult} (h : Passes c c₁)
    (hr : Reaches c₁ result c') : Reaches c result c' := by
  induction h with
  | refl => exact hr
  | next hs _ ih => exact .next hs (ih hr)

lemma Passes.trans {c c₁ c' : Cursor} (h : Passes c c₁) (h' : Passes c₁ c') : Passes c c' := by
  induction h with
  | refl => exact h'
  | next hs _ ih => exact .next hs (ih h')

def Follows (c : Cursor) : Flow → Prop
  | .ret result c' => Reaches c result c'
  | .next c' => Passes c c'
  | .again c' => Passes c c'

lemma Passes.follows {c c₁ : Cursor} {flow : Flow} (h : Passes c c₁) (hf : Follows c₁ flow) :
    Follows c flow := by
  cases flow with
  | ret => exact h.reaches hf
  | next => exact h.trans hf
  | again => exact h.trans hf

lemma follows_andThen {c : Cursor} {flow : Flow} {f : Cursor → Flow} (h : Follows c flow)
    (hf : ∀ c₁, flow = .next c₁ → Follows c₁ (f c₁)) : Follows c (flow.andThen f) := by
  cases flow with
  | ret => exact h
  | again => exact h
  | next c₁ => exact Passes.follows h (hf c₁ rfl)

lemma stageFlow_follows (c : Cursor) : Follows c (stageFlow c) := by
  cases h : stageFlow c with
  | ret => exact .ret h
  | next => exact .next (.inl h) .refl
  | again => exact .next (.inr h) .refl

lemma follows_block {c : Cursor} {block : Cursor → Flow}
    (h : stageFlow c = block c ∨ block c = .next c) : Follows c (block c) := by
  rcases h with h | h
  · exact h ▸ stageFlow_follows c
  · rw [h]
    exact .refl

section Turn

variable {c c₁ : Cursor}

lemma trailersBlock_follows (hc : c.parser.expectsContinue = false) : Follows c (trailersBlock c) := by
  apply follows_block
  by_cases hs : c.parser.stage = .trailers
  · exact .inl (by simp [stageFlow, hs, hc])
  · exact .inr (by simp [trailersBlock, hs])

lemma chunkEndBlock_next (h : chunkEndBlock c = .next c₁) : c₁ = c := by
  unfold chunkEndBlock at h
  dsimp only at h
  split at h
  · simpa using h.symm
  · repeat' split at h
    all_goals cases h

lemma chunkEnd_follows (hc : c.parser.expectsContinue = false) :
    Follows c ((chunkEndBlock c).andThen trailersBlock) := by
  apply follows_andThen
  · apply follows_block
    by_cases hs : c.parser.stage = .chunkEnd
    · exact .inl (by simp [stageFlow, hs, hc])
    · exact .inr (by simp [chunkEndBlock, hs])
  · intro c₁ h
    exact trailersBlock_follows (chunkEndBlock_next h ▸ hc)

lemma chunkDataBlock_next (h : chunkDataBlock c = .next c₁) :
    c₁.parser.expectsContinue = c.parser.expectsContinue := by
  unfold chunkDataBlock at h
  dsimp only at h
  repeat' split at h
  all_goals first
    | cases h; done
    | (obtain rfl := Flow.next.inj h; rfl)

lemma chunkData_follows (hc : c.parser.expectsContinue = false) :
    Follows c ((chunkDataBlock c).andThen fun c => (chunkEndBlock c).andThen trailersBlock) := by
  apply follows_andThen
  · apply follows_block
    by_cases hs : c.parser.stage = .chunkData
    · exact .inl (by simp [stageFlow, hs, hc])
    · exact .inr (by simp [chunkDataBlock, hs])
  · intro c₁ h
    exact chunkEnd_follows (chunkDataBlock_next h ▸ hc)

lemma chunkSizeBlock_next (h : chunkSizeBlock c = .next c₁) :
    c₁.parser.expectsContinue = c.parser.expectsContinue := by
  unfold chunkSizeBlock at h
  dsimp only at h
  split at h
  · obtain rfl := Flow.next.inj h
    rfl
  split at h
  · cases h
  · cases h
  split at h
  · cases h
  · rename_i hl
    obtain rfl := Flow.next.inj h
    exact (chunkSizeLine_ok hl).2.2

lemma chunkSize_follows (hc : c.parser.expectsContinue = false) :
    Follows c ((chunkSizeBlock c).andThen fun c => (chunkDataBlock c).andThen fun c =>
      (chunkEndBlock c).andThen trailersBlock) := by
  apply follows_andThen
  · apply follows_block
    by_cases hs : c.parser.stage = .chunkSize
    · exact .inl (by simp [stageFlow, hs, hc])
    · exact .inr (by simp [chunkSizeBlock, hs])
  · intro c₁ h
    exact chunkData_follows (chunkSizeBlock_next h ▸ hc)

lemma fixedBodyBlock_next (h : fixedBodyBlock c = .next c₁) : c₁ = c := by
  unfold fixedBodyBlock at h
  dsimp only at h
  split at h
  · simpa using h.symm
  · repeat' split at h
    all_goals cases h

lemma fixedBody_follows (hc : c.parser.expectsContinue = false) :
    Follows c ((fixedBodyBlock c).andThen fun c => (chunkSizeBlock c).andThen fun c =>
      (chunkDataBlock c).andThen fun c => (chunkEndBlock c).andThen trailersBlock) := by
  apply follows_andThen
  · apply follows_block
    by_cases hs : c.parser.stage = .fixedBody
    · exact .inl (by simp [stageFlow, hs, hc])
    · exact .inr (by simp [fixedBodyBlock, hs])
  · intro c₁ h
    exact chunkSize_follows (fixedBodyBlock_next h ▸ hc)

lemma continue_follows (hh : c.parser.stage ≠ .headers) (hf : c.parser.stage ≠ .failed) :
    Follows c ((continueBlock c).andThen fun c => (fixedBodyBlock c).andThen fun c =>
      (chunkSizeBlock c).andThen fun c => (chunkDataBlock c).andThen fun c =>
        (chunkEndBlock c).andThen trailersBlock) := by
  cases hc : c.parser.expectsContinue with
  | true =>
    apply follows_andThen
    · apply follows_block
      left
      cases hs : c.parser.stage <;> simp_all [stageFlow]
    · intro c₁ h
      simp [continueBlock, hc] at h
  | false =>
    have h : continueBlock c = .next c := by simp [continueBlock, hc]
    rw [h]
    exact fixedBody_follows hc

lemma headersBlock_next (hh : c.parser.stage = .headers) (h : headersBlock c = .next c₁) :
    c₁.parser.stage ≠ .headers ∧ c₁.parser.stage ≠ .failed := by
  have key : ∀ c : Cursor, headersScanned c = .next c₁ →
      c₁.parser.stage ≠ .headers ∧ c₁.parser.stage ≠ .failed := by
    intro c h
    unfold headersScanned at h
    dsimp only at h
    split at h
    · cases h
    · split at h <;> cases h
    split at h
    · cases h
    split at h
    · cases h
    rename_i head hp
    split at h
    · cases h
    obtain rfl := Flow.next.inj h
    rcases parseHeaders_stage hp with hs | hs <;> simp [withHead, hs]
  unfold headersBlock at h
  simp only [hh, ne_eq, not_true_eq_false, if_false] at h
  split at h
  · split at h
    · cases h
    · exact key _ h
  · exact key _ h

lemma advanceBody_eq (c : Cursor) : ∃ tail, advanceBody c = (stageFlow c).andThen tail ∧
    ∀ c₁, stageFlow c = .next c₁ → Follows c₁ (tail c₁) := by
  unfold advanceBody
  by_cases hf : c.parser.stage = .failed
  · refine ⟨Flow.next, ?_, ?_⟩ <;> simp [stageFlow, hf, failedBlock, Flow.andThen]
  have h₁ : failedBlock c = .next c := by simp [failedBlock, hf]
  by_cases hh : c.parser.stage = .headers
  · have hs : stageFlow c = headersBlock c := by simp [stageFlow, hh]
    rw [h₁, hs]
    refine ⟨_, rfl, fun c₁ h => ?_⟩
    obtain ⟨hh', hf'⟩ := headersBlock_next hh h
    exact continue_follows hh' hf'
  have h₂ : headersBlock c = .next c := by simp [headersBlock, hh]
  cases hc : c.parser.expectsContinue with
  | true =>
    have hs : stageFlow c = continueBlock c := by cases h : c.parser.stage <;> simp_all [stageFlow]
    rw [h₁, hs]
    simp only [Flow.andThen, h₂]
    exact ⟨_, rfl, fun c₁ h => by simp [continueBlock, hc] at h⟩
  | false =>
    have h₃ : continueBlock c = .next c := by simp [continueBlock, hc]
    simp only [h₁, h₂, h₃, Flow.andThen]
    cases hs : c.parser.stage with
    | failed => exact absurd hs hf
    | headers => exact absurd hs hh
    | fixedBody =>
      have h : stageFlow c = fixedBodyBlock c := by simp [stageFlow, hs, hc]
      rw [h]
      exact ⟨_, rfl, fun c₁ h' => chunkSize_follows (fixedBodyBlock_next h' ▸ hc)⟩
    | chunkSize =>
      have h : stageFlow c = chunkSizeBlock c := by simp [stageFlow, hs, hc]
      have h₄ : fixedBodyBlock c = .next c := by simp [fixedBodyBlock, hs]
      rw [h, h₄]
      exact ⟨_, rfl, fun c₁ h' => chunkData_follows (chunkSizeBlock_next h' ▸ hc)⟩
    | chunkData =>
      have h : stageFlow c = chunkDataBlock c := by simp [stageFlow, hs, hc]
      have h₄ : fixedBodyBlock c = .next c := by simp [fixedBodyBlock, hs]
      have h₅ : chunkSizeBlock c = .next c := by simp [chunkSizeBlock, hs]
      simp only [h, h₄, h₅]
      exact ⟨_, rfl, fun c₁ h' => chunkEnd_follows (chunkDataBlock_next h' ▸ hc)⟩
    | chunkEnd =>
      have h : stageFlow c = chunkEndBlock c := by simp [stageFlow, hs, hc]
      have h₄ : fixedBodyBlock c = .next c := by simp [fixedBodyBlock, hs]
      have h₅ : chunkSizeBlock c = .next c := by simp [chunkSizeBlock, hs]
      have h₆ : chunkDataBlock c = .next c := by simp [chunkDataBlock, hs]
      simp only [h, h₄, h₅, h₆]
      exact ⟨_, rfl, fun c₁ h' => trailersBlock_follows (chunkEndBlock_next h' ▸ hc)⟩
    | trailers =>
      have h : stageFlow c = trailersBlock c := by simp [stageFlow, hs, hc]
      have h₄ : fixedBodyBlock c = .next c := by simp [fixedBodyBlock, hs]
      have h₅ : chunkSizeBlock c = .next c := by simp [chunkSizeBlock, hs]
      have h₆ : chunkDataBlock c = .next c := by simp [chunkDataBlock, hs]
      have h₇ : chunkEndBlock c = .next c := by simp [chunkEndBlock, hs]
      simp only [h, h₄, h₅, h₆, h₇]
      refine ⟨Flow.next, ?_, fun c₁ _ => .refl⟩
      cases trailersBlock c <;> rfl

end Turn

def Advances (c c' : Cursor) : Prop :=
  (c'.input <:+ c.input ∧ c'.input.length < c.input.length) ∨
    (c'.input = c.input ∧ rank c'.parser < rank c.parser)

section Progress

variable {c c₁ : Cursor}

lemma Advances.drop {n : ℕ} (h : c₁.input = c.input.drop (n + 1)) (hn : n < c.input.length) : Advances c c₁ := by
  left
  rw [h]
  refine ⟨List.drop_suffix _ _, ?_⟩
  rw [List.length_drop]
  omega

lemma Advances.suffix (h : Advances c c₁) : c₁.input <:+ c.input := by
  rcases h with ⟨hs, -⟩ | ⟨heq, -⟩
  · exact hs
  · rw [heq]

lemma Advances.trans {c₂ : Cursor} (h : Advances c c₁) (h' : Advances c₁ c₂) : Advances c c₂ := by
  rcases h with ⟨hs, hl⟩ | ⟨heq, hr⟩
  · have hle := h'.suffix.length_le
    exact .inl ⟨h'.suffix.trans hs, by omega⟩
  · rcases h' with ⟨hs', hl'⟩ | ⟨heq', hr'⟩
    · exact .inl ⟨heq ▸ hs', heq ▸ hl'⟩
    · exact .inr ⟨heq'.trans heq, hr'.trans hr⟩

lemma Advances.potential_lt (h : Advances c c₁) (hh : c.parser.stage ≠ .headers) (hf : c.parser.stage ≠ .failed) :
    potential c₁.parser c₁.input < potential c.parser c.input := by
  rcases h with ⟨-, hl⟩ | ⟨heq, hr⟩
  · have hle := rank_le c₁.parser
    have hpos : 1 ≤ rank c.parser := by
      unfold rank
      cases hs : c.parser.stage <;> simp_all
      omega
    simp only [potential]
    omega
  · rw [potential, potential, heq]
    omega

lemma skipEmptyLines_suffix (x : Bytes) : skipEmptyLines x <:+ x := by
  fun_induction skipEmptyLines x with
  | case1 rest ih => exact ih.trans ((List.suffix_cons _ _).trans (List.suffix_cons _ _))
  | case2 x hx => exact List.suffix_rfl

lemma headersScanned_advances (h : headersScanned c = .next c₁ ∨ headersScanned c = .again c₁) :
    c₁.input <:+ c.input ∧ c₁.input.length + 2 ≤ c.input.length := by
  unfold headersScanned at h
  dsimp only at h
  split at h
  · rcases h with h | h <;> cases h
  · split at h <;> rcases h with h | h <;> cases h
  rename_i blank hf
  have hb := scanHeaders_found hf
  split at h
  · rcases h with h | h <;> cases h
  split at h
  · rcases h with h | h <;> cases h
  split at h <;> rcases h with h | h <;> cases h
  refine ⟨List.drop_suffix _ _, ?_⟩
  rw [List.length_drop]
  omega

lemma headersBlock_advances (hs : c.parser.stage = .headers)
    (h : headersBlock c = .next c₁ ∨ headersBlock c = .again c₁) :
    c₁.input <:+ c.input ∧ c₁.input.length + 2 ≤ c.input.length := by
  simp only [headersBlock, hs, ne_eq, not_true_eq_false, if_false] at h
  split at h
  · split at h
    · rcases h with h | h <;> cases h
    · obtain ⟨hs, hl⟩ := headersScanned_advances h
      have hle := skipEmptyLines_length_le c.input
      exact ⟨hs.trans (skipEmptyLines_suffix c.input), hl.trans hle⟩
  · exact headersScanned_advances h

lemma chunkSizeBlock_advances (hs : c.parser.stage = .chunkSize)
    (h : chunkSizeBlock c = .next c₁ ∨ chunkSizeBlock c = .again c₁) : Advances c c₁ := by
  simp only [chunkSizeBlock, hs, ne_eq, not_true_eq_false, if_false] at h
  split at h
  · rcases h with h | h <;> cases h
  · rcases h with h | h <;> cases h
  rename_i n hl
  have hn := (readLine_line [] hl).2
  split at h <;> rcases h with h | h <;> cases h
  apply Advances.drop (n := n + 1)
  · rfl
  · omega

lemma chunkDataBlock_advances (hs : c.parser.stage = .chunkData) (hc : c.parser.expectsContinue = false)
    (h : chunkDataBlock c = .next c₁ ∨ chunkDataBlock c = .again c₁) : Advances c c₁ := by
  obtain ⟨p, x, output⟩ := c
  have hcount := (takeCount_le p x).1
  rw [chunkDataBlock, if_neg (not_not_intro hs), takeBody_eq] at h
  dsimp only at h
  split at h
  · split at h <;> rcases h with h | h <;> cases h
  split at h <;> rcases h with h | h <;> cases h
  rcases Nat.eq_zero_or_pos (takeCount p x) with h0 | hpos
  · right
    refine ⟨by simp [h0], ?_⟩
    simp only at hs hc
    simp [rank, hs, hc, withBody]
  · obtain ⟨n, hn⟩ : ∃ n, takeCount p x = n + 1 := ⟨takeCount p x - 1, by omega⟩
    apply Advances.drop (n := n)
    · simp only [hn]
    · simp only
      omega

lemma chunkEndBlock_advances (hs : c.parser.stage = .chunkEnd)
    (h : chunkEndBlock c = .next c₁ ∨ chunkEndBlock c = .again c₁) : Advances c c₁ := by
  simp only [chunkEndBlock, hs, ne_eq, not_true_eq_false, if_false] at h
  split at h
  · rcases h with h | h <;> cases h
  rename_i hl
  split at h
  · rcases h with h | h <;> cases h
  split at h <;> rcases h with h | h <;> cases h
  apply Advances.drop (n := 1)
  · rfl
  · omega

lemma trailersBlock_advances (hs : c.parser.stage = .trailers)
    (h : trailersBlock c = .next c₁ ∨ trailersBlock c = .again c₁) : Advances c c₁ := by
  simp only [trailersBlock, hs, ne_eq, not_true_eq_false, if_false] at h
  split at h
  · rcases h with h | h <;> cases h
  · rcases h with h | h <;> cases h
  rename_i n hl
  have hn := (readLine_line [] hl).2
  split at h
  · rcases h with h | h <;> cases h
  split at h <;> rcases h with h | h <;> cases h
  apply Advances.drop (n := n + 1)
  · rfl
  · omega

lemma stageFlow_advances (h : stageFlow c = .next c₁ ∨ stageFlow c = .again c₁) : Advances c c₁ := by
  unfold stageFlow at h
  split at h
  · rename_i hs
    simp [failedBlock, hs] at h
  · rename_i hs
    obtain ⟨hsuffix, hlen⟩ := headersBlock_advances hs h
    exact .inl ⟨hsuffix, by omega⟩
  all_goals
    rename_i hs
    split at h
    · rename_i hc
      simp [continueBlock, hc] at h
    rename_i hc
    rw [Bool.not_eq_true] at hc
  · rcases h with h | h
    · unfold fixedBodyBlock emitBody complete at h
      dsimp only at h
      repeat' split at h
      all_goals cases h
      exact absurd hs ‹_›
    · unfold fixedBodyBlock emitBody complete at h
      dsimp only at h
      repeat' split at h
      all_goals cases h
  · exact chunkSizeBlock_advances hs h
  · exact chunkDataBlock_advances hs hc h
  · exact chunkEndBlock_advances hs h
  · exact trailersBlock_advances hs h

lemma stageFlow_potential (h : stageFlow c = .next c₁ ∨ stageFlow c = .again c₁) :
    potential c₁.parser c₁.input < potential c.parser c.input := by
  by_cases hh : c.parser.stage = .headers
  · apply descends_of_read
    exact (headersBlock_advances hh (by simpa [stageFlow, hh] using h)).2
  · apply (stageFlow_advances h).potential_lt hh
    intro hf
    simp [stageFlow, hf, failedBlock] at h

lemma Passes.advances {c c' : Cursor} (h : Passes c c') : c' = c ∨ Advances c c' := by
  induction h with
  | refl => exact .inl rfl
  | next hs _ ih =>
    have ha := stageFlow_advances hs
    rcases ih with rfl | ih
    · exact .inr ha
    · exact .inr (ha.trans ih)

lemma Passes.potential_le {c c' : Cursor} (h : Passes c c') :
    potential c'.parser c'.input ≤ potential c.parser c.input := by
  induction h with
  | refl => exact le_rfl
  | next hs _ ih => exact ih.trans (stageFlow_potential hs).le

lemma advanceBody_advances (h : advanceBody c = .next c₁ ∨ advanceBody c = .again c₁) : Advances c c₁ := by
  obtain ⟨tail, hb, ht⟩ := advanceBody_eq c
  rw [hb] at h
  cases hs : stageFlow c with
  | ret result c' => simp [hs, Flow.andThen] at h
  | again c' =>
    obtain rfl : c' = c₁ := by simpa [hs, Flow.andThen] using h
    exact stageFlow_advances (.inr hs)
  | next c' =>
    have ha := stageFlow_advances (.inl hs)
    have hf := ht c' hs
    simp only [hs, Flow.andThen] at h
    have hp : Passes c' c₁ := by rcases h with h | h <;> rw [h] at hf <;> exact hf
    rcases hp.advances with rfl | hp
    · exact ha
    · exact ha.trans hp

lemma advance_reaches {fuel : ℕ} (hf : potential c.parser c.input < fuel) :
    ∃ result c', advance fuel c = some (result, c') ∧ Reaches c result c' := by
  induction fuel generalizing c with
  | zero => omega
  | succ fuel ih =>
    have turn : ∀ c₁ c₂, stageFlow c = .next c₁ ∨ stageFlow c = .again c₁ → Passes c₁ c₂ →
        ∃ result c', advance fuel c₂ = some (result, c') ∧ Reaches c result c' := by
      intro c₁ c₂ hs hp
      have hd := stageFlow_potential hs
      have hle := hp.potential_le
      obtain ⟨result, c', ha, hr⟩ := ih (show potential c₂.parser c₂.input < fuel by omega)
      exact ⟨result, c', ha, .next hs (hp.reaches hr)⟩
    obtain ⟨tail, hb, ht⟩ := advanceBody_eq c
    simp only [advance, hb]
    cases hs : stageFlow c with
    | ret result c' => exact ⟨result, c', rfl, .ret hs⟩
    | again c₁ => exact turn c₁ c₁ (.inr hs) .refl
    | next c₁ =>
      have hf₁ := ht c₁ hs
      simp only [Flow.andThen]
      cases htl : tail c₁ with
      | ret result c' =>
        rw [htl] at hf₁
        exact ⟨result, c', rfl, .next (.inl hs) hf₁⟩
      | next c₂ =>
        rw [htl] at hf₁
        exact turn c₁ c₂ (.inl hs) hf₁
      | again c₂ =>
        rw [htl] at hf₁
        exact turn c₁ c₂ (.inl hs) hf₁

end Progress

end ServerCore.Web.HttpParser
