import ServerCore.Core.Utf8

/-! `IsValidUtf8` as a loop over positions, and the language it decides. -/

namespace ServerCore.Core

/-- The loop over the continuation bytes from `position` on. The outer `none` is a read behind the end of the text, the
inner one the answer `false`. -/
def readContinuations (text : Bytes) : ℕ → ℕ → ℕ → Option (Option ℕ)
  | 0, _, codePoint => some (some codePoint)
  | count + 1, position, codePoint =>
    text[position]?.bind fun continuation =>
      if continuation.toNat &&& 0xC0 ≠ 0x80 then some none
      else readContinuations text count (position + 1) ((codePoint <<< 6) ||| (continuation.toNat &&& 0x3F))

/-- `IsValidUtf8` from `index` on; `none` is a read behind the end of the text. -/
def validFrom (text : Bytes) (index : ℕ) : Option Bool :=
  if index < text.length then
    text[index]?.bind fun lead =>
      match utf8Lead lead.toNat with
      | none => some false
      | some (continuationCount, bits, smallest) =>
        if continuationCount > 0 ∧ index + continuationCount ≥ text.length then some false
        else
          (readContinuations text continuationCount (index + 1) bits).bind fun
            | none => some false
            | some codePoint =>
              if codePoint < smallest ∨ (0xD800 ≤ codePoint ∧ codePoint ≤ 0xDFFF) ∨ 0x10FFFF < codePoint then some false
              else validFrom text (index + continuationCount + 1)
  else some true
termination_by text.length - index

def IsScalar (codePoint : ℕ) : Prop := codePoint ≤ 0xD7FF ∨ (0xE000 ≤ codePoint ∧ codePoint ≤ 0x10FFFF)

lemma readContinuations_eq (text : Bytes) (count position codePoint : ℕ) (h : position + count ≤ text.length) :
    readContinuations text count position codePoint =
      some (utf8Continue codePoint ((text.drop position).take count)) := by
  induction count generalizing position codePoint with
  | zero => rfl
  | succ count ih =>
    have hlt : position < text.length := by omega
    rw [readContinuations, List.getElem?_eq_getElem hlt, Option.bind_some, List.drop_eq_getElem_cons hlt,
      List.take_succ_cons, utf8Continue, ih (position + 1) _ (by omega)]
    split_ifs
    · rfl
    · rfl

lemma validFrom_eq (text : Bytes) (index : ℕ) : validFrom text index = some (isValidUtf8 (text.drop index)) := by
  induction hn : text.length - index using Nat.strong_induction_on generalizing index with
  | _ n ih =>
    rw [validFrom]
    by_cases hlt : index < text.length
    · rw [if_pos hlt, List.getElem?_eq_getElem hlt, Option.bind_some, List.drop_eq_getElem_cons hlt, isValidUtf8]
      cases hlead : utf8Lead text[index].toNat with
      | none => rfl
      | some announced =>
        obtain ⟨count, bits, smallest⟩ := announced
        dsimp only
        rw [List.length_drop]
        by_cases hshort : count > 0 ∧ index + count ≥ text.length
        · rw [if_pos hshort, if_pos (by omega)]
        rw [if_neg hshort, if_neg (by omega), readContinuations_eq text count (index + 1) bits (by omega),
          Option.bind_some]
        cases utf8Continue bits ((text.drop (index + 1)).take count) with
        | none => rfl
        | some codePoint =>
          dsimp only
          have hnext := ih (text.length - (index + count + 1)) (by omega) (index + count + 1) rfl
          rw [hnext, List.drop_drop]
          split_ifs
          · rfl
          · congr 3
            omega
    · rw [if_neg hlt, List.drop_eq_nil_of_le (not_lt.mp hlt), isValidUtf8]

lemma appendUtf8_append_inj {m n : ℕ} {x y : Bytes} (hm : m ≤ 0x10FFFF) (hn : n ≤ 0x10FFFF)
    (h : appendUtf8 m ++ x = appendUtf8 n ++ y) : m = n ∧ x = y := by
  obtain ⟨lead, tail, bits, smallest, happend, hlead, hcontinue, -⟩ := appendUtf8_announced hm
  obtain ⟨lead', tail', bits', smallest', happend', hlead', hcontinue', -⟩ := appendUtf8_announced hn
  rw [happend, happend', List.cons_append, List.cons_append] at h
  obtain ⟨rfl, htails⟩ := List.cons.inj h
  rw [hlead] at hlead'
  obtain ⟨hlength, rfl, -⟩ : tail.length = tail'.length ∧ bits = bits' ∧ smallest = smallest' := by
    simpa using hlead'
  obtain ⟨rfl, rfl⟩ := List.append_inj htails hlength
  rw [hcontinue] at hcontinue'
  exact ⟨Option.some.inj hcontinue', rfl⟩

lemma IsScalar.le {n : ℕ} (h : IsScalar n) : n ≤ 0x10FFFF := by
  rcases h with h | h <;> omega

lemma codePoints_unique {points others : List ℕ} (hpoints : ∀ n ∈ points, IsScalar n) (hothers : ∀ n ∈ others, IsScalar n)
    (h : points.flatMap appendUtf8 = others.flatMap appendUtf8) : points = others := by
  have hne {n : ℕ} (hn : IsScalar n) : appendUtf8 n ≠ [] := by
    obtain ⟨lead, tail, -, -, happend, -⟩ := appendUtf8_announced hn.le
    rw [happend]
    exact List.cons_ne_nil lead tail
  induction points generalizing others with
  | nil =>
    cases others with
    | nil => rfl
    | cons n others =>
      rw [List.flatMap_nil, List.flatMap_cons, eq_comm, List.append_eq_nil_iff] at h
      exact absurd h.1 (hne (hothers n (by simp)))
  | cons m points ih =>
    cases others with
    | nil =>
      rw [List.flatMap_nil, List.flatMap_cons, List.append_eq_nil_iff] at h
      exact absurd h.1 (hne (hpoints m (by simp)))
    | cons n others =>
      rw [List.forall_mem_cons] at hpoints hothers
      rw [List.flatMap_cons, List.flatMap_cons] at h
      obtain ⟨rfl, hrest⟩ := appendUtf8_append_inj hpoints.1.le hothers.1.le h
      rw [ih hpoints.2 hothers.2 hrest]

lemma Utf8.iff_codePoints (text : Bytes) :
    Utf8 text ↔ ∃ points : List ℕ, (∀ n ∈ points, IsScalar n) ∧ points.flatMap appendUtf8 = text := by
  constructor
  · rintro ⟨chars, rfl⟩
    refine ⟨chars.map Char.toNat, ?_, List.flatMap_map ..⟩
    intro n hn
    obtain ⟨c, -, rfl⟩ := List.mem_map.mp hn
    have := char_toNat_range c
    rw [IsScalar]
    omega
  · rintro ⟨points, hpoints, rfl⟩
    induction points with
    | nil => exact ⟨[], rfl⟩
    | cons n points ih =>
      rw [List.forall_mem_cons] at hpoints
      have hscalar := hpoints.1
      obtain ⟨c, rfl⟩ := exists_char (n := n) (by rw [IsScalar] at hscalar; rw [Nat.isValidChar]; omega)
      rw [List.flatMap_cons]
      exact (Utf8.char c).append (ih hpoints.2)

/-- The validator decides the UTF-8 language and reads nothing outside its text. -/
theorem isValidUtf8_decides (text : Bytes) :
    (isValidUtf8 text = true ↔ ∃! points : List ℕ, (∀ n ∈ points, IsScalar n) ∧ points.flatMap appendUtf8 = text) ∧
    (isValidUtf8 text = true ↔ ∃ points : List ℕ, (∀ n ∈ points, IsScalar n) ∧ points.flatMap appendUtf8 = text) ∧
    validFrom text 0 = some (isValidUtf8 text) := by
  refine ⟨?_, by rw [isValidUtf8_iff, Utf8.iff_codePoints], by rw [validFrom_eq, List.drop_zero]⟩
  rw [isValidUtf8_iff, Utf8.iff_codePoints]
  constructor
  · rintro ⟨points, hpoints, rfl⟩
    refine ⟨points, ⟨hpoints, rfl⟩, ?_⟩
    rintro others ⟨hothers, heq⟩
    exact codePoints_unique hothers hpoints heq
  · rintro ⟨points, hpoints, -⟩
    exact ⟨points, hpoints⟩

end ServerCore.Core
