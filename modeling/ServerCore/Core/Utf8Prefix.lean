import ServerCore.Core.Utf8

/-! Texts that can still become UTF-8: whole characters and the beginning of one more. -/

namespace ServerCore.Core

def isContinuation (b : Byte) : Bool := b.toNat &&& 0xC0 == 0x80

lemma isContinuation_iff (b : Byte) : isContinuation b = true ↔ 0x80 ≤ b.toNat ∧ b.toNat < 0xC0 := by
  rw [isContinuation, beq_iff_eq, continuation_iff]

def utf8Width (lead : Byte) : ℕ :=
  if lead.toNat < 0x80 then 1
  else if 0xC2 ≤ lead.toNat ∧ lead.toNat ≤ 0xDF then 2
  else if 0xE0 ≤ lead.toNat ∧ lead.toNat ≤ 0xEF then 3
  else if 0xF0 ≤ lead.toNat ∧ lead.toNat ≤ 0xF4 then 4
  else 0

lemma byte_toNat {m : ℕ} (h : m < 256) : (UInt8.ofNat m).toNat = m := by
  rw [UInt8.toNat_ofNat']
  omega

lemma appendUtf8_cons (c : Char) : ∃ lead tail, appendUtf8 c.toNat = lead :: tail ∧ utf8Width lead = tail.length + 1 ∧
    isContinuation lead = false ∧ ∀ b ∈ tail, isContinuation b = true := by
  have hr := char_toNat_range c
  generalize c.toNat = n at hr
  have hlead (m : ℕ) (h : m < 256) (hm : m < 0x80 ∨ 0xC0 ≤ m) : isContinuation (UInt8.ofNat m) = false := by
    rw [← Bool.not_eq_true, isContinuation_iff, byte_toNat h]
    omega
  have htail (m : ℕ) (h : m < 64) : isContinuation (UInt8.ofNat (0x80 + m)) = true := by
    rw [isContinuation_iff, byte_toNat (by omega)]
    omega
  rw [appendUtf8_eq (by omega)]
  split_ifs with h1 h2 h3
  · refine ⟨_, _, rfl, ?_, hlead _ (by omega) (by omega), nofun⟩
    rw [utf8Width, byte_toNat (by omega), if_pos (by omega), List.length_nil]
  · refine ⟨_, _, rfl, ?_, hlead _ (by omega) (by omega), ?_⟩
    · rw [utf8Width, byte_toNat (by omega), if_neg (by omega), if_pos (by omega)]
      rfl
    · simp only [List.forall_mem_cons]
      exact ⟨htail _ (by omega), nofun⟩
  · refine ⟨_, _, rfl, ?_, hlead _ (by omega) (by omega), ?_⟩
    · rw [utf8Width, byte_toNat (by omega), if_neg (by omega), if_neg (by omega), if_pos (by omega)]
      rfl
    · simp only [List.forall_mem_cons]
      exact ⟨htail _ (by omega), htail _ (by omega), nofun⟩
  · refine ⟨_, _, rfl, ?_, hlead _ (by omega) (by omega), ?_⟩
    · rw [utf8Width, byte_toNat (by omega), if_neg (by omega), if_neg (by omega), if_neg (by omega), if_pos (by omega)]
      rfl
    · simp only [List.forall_mem_cons]
      exact ⟨htail _ (by omega), htail _ (by omega), htail _ (by omega), nofun⟩

def Begun (q : Bytes) : Prop := q ≠ [] ∧ ∃ c : Char, q <+: appendUtf8 c.toNat ∧ q.length < (appendUtf8 c.toNat).length

lemma width_eq {c : Char} {lead : Byte} {q z : Bytes} (h : lead :: q <+: appendUtf8 c.toNat ++ z) :
    utf8Width lead = (appendUtf8 c.toNat).length := by
  obtain ⟨lead', tail, henc, hwidth, -⟩ := appendUtf8_cons c
  rw [henc, List.cons_append, List.cons_prefix_cons] at h
  rw [henc, h.1, hwidth, List.length_cons]

lemma Begun.width {lead : Byte} {q : Bytes} (h : Begun (lead :: q)) : q.length + 1 < utf8Width lead := by
  obtain ⟨-, c, hpre, hlength⟩ := h
  rw [width_eq (hpre.trans (List.prefix_append _ []))]
  exact hlength

lemma Begun.cons {q : Bytes} (h : Begun q) : ∃ lead tail, q = lead :: tail ∧ isContinuation lead = false ∧
    ∀ b ∈ tail, isContinuation b = true := by
  obtain ⟨hne, c, hpre, -⟩ := h
  obtain ⟨lead', tail', henc, -, hlead, htail⟩ := appendUtf8_cons c
  rw [henc] at hpre
  cases q with
  | nil => exact absurd rfl hne
  | cons lead tail =>
    rw [List.cons_prefix_cons] at hpre
    obtain ⟨rfl, hpre⟩ := hpre
    exact ⟨lead, tail, rfl, hlead, fun b hb => htail b (hpre.subset hb)⟩

lemma Utf8.split {x y : Bytes} (h : Utf8 (x ++ y)) : ∃ v q, x = v ++ q ∧ Utf8 v ∧ (q = [] ∨ Begun q) := by
  obtain ⟨chars, h⟩ := h
  induction chars generalizing x with
  | nil =>
    rw [List.flatMap_nil, List.append_eq_nil_iff] at h
    exact ⟨[], [], h.1, ⟨[], rfl⟩, .inl rfl⟩
  | cons c chars ih =>
    rw [List.flatMap_cons] at h
    rcases List.append_eq_append_iff.mp h with ⟨z, hz, -⟩ | ⟨z, rfl, hrest⟩
    · by_cases hwhole : z = []
      · rw [hwhole, List.append_nil] at hz
        exact ⟨x, [], (List.append_nil x).symm, hz ▸ .char c, .inl rfl⟩
      · refine ⟨[], x, rfl, ⟨[], rfl⟩, ?_⟩
        by_cases hx : x = []
        · exact .inl hx
        · refine .inr ⟨hx, c, ⟨z, hz.symm⟩, ?_⟩
          rw [hz, List.length_append]
          have := List.length_pos_of_ne_nil hwhole
          omega
    · obtain ⟨v, q, hvq, hv, hq⟩ := ih hrest.symm
      exact ⟨appendUtf8 c.toNat ++ v, q, by rw [hvq, List.append_assoc], (Utf8.char c).append hv, hq⟩

def Viable (x : Bytes) : Prop := ∃ y, Utf8 (x ++ y)

lemma viable_iff {x : Bytes} : Viable x ↔ ∃ v q, x = v ++ q ∧ Utf8 v ∧ (q = [] ∨ Begun q) := by
  refine ⟨fun ⟨y, h⟩ => h.split, ?_⟩
  rintro ⟨v, q, rfl, hv, rfl | ⟨-, c, ⟨y, hy⟩, -⟩⟩
  · exact ⟨[], by rwa [List.append_nil, List.append_nil]⟩
  · refine ⟨y, ?_⟩
    rw [List.append_assoc, hy]
    exact hv.append (.char c)

lemma Utf8.of_append {v z : Bytes} (hv : Utf8 v) (h : Utf8 (v ++ z)) : Utf8 z := by
  obtain ⟨chars, rfl⟩ := hv
  rw [← isValidUtf8_iff] at h ⊢
  rwa [isValidUtf8_chars_append] at h

lemma Utf8.first {lead : Byte} {q : Bytes} (h : Utf8 (lead :: q)) :
    ∃ (c : Char) (z : Bytes), lead :: q = appendUtf8 c.toNat ++ z ∧ (appendUtf8 c.toNat).length = utf8Width lead ∧ Utf8 z := by
  obtain ⟨chars, h⟩ := h
  cases chars with
  | nil => cases h
  | cons c chars =>
    rw [List.flatMap_cons] at h
    exact ⟨c, _, h, (width_eq ⟨[], (List.append_nil _).trans h⟩).symm, chars, rfl⟩

end ServerCore.Core
