import ServerCore.Core.Charconv
import ServerCore.Core.Status
import ServerCore.Web.HttpWaiting

/-! `EncodeChunk`: the size line it writes is the one the parser reads. -/

namespace ServerCore.Web

open ServerCore.Core HttpParser

def encodeChunk (bytes : Bytes) (maxChunkBytes : ℕ) : Except Status Bytes :=
  let digits := toChars 16 bytes.length
  if bytes.isEmpty then .error (.failWithoutMessage .invalidArgument)
  else if bytes.length > maxChunkBytes then .error (.failWithoutMessage .tooLarge)
  else if digits.length > 16 || bytes.length > sizeModulus - 1 - digits.length - 4 then
    .error (.failWithoutMessage .tooLarge)
  else .ok (digits ++ crlf ++ bytes ++ crlf)

def chunkOf (bytes : Bytes) : Chunk := ⟨toChars 16 bytes.length, bytes⟩

lemma encodeChunk_ok {bytes wire : Bytes} {maxChunkBytes : ℕ} (h : encodeChunk bytes maxChunkBytes = .ok wire) :
    wire = (chunkOf bytes).encode ∧ bytes ≠ [] ∧ bytes.length < sizeModulus := by
  unfold encodeChunk at h
  dsimp only at h
  split at h
  · cases h
  rename_i hempty
  split at h
  · cases h
  split at h
  · cases h
  rename_i hfits
  simp only [Bool.or_eq_true, decide_eq_true_eq, not_or, not_lt] at hfits
  refine ⟨(Except.ok.inj h).symm, fun he => hempty (List.isEmpty_iff.mpr he), ?_⟩
  unfold sizeModulus at hfits ⊢
  omega

section Digits

variable {n : ℕ}

lemma numeral_toChars (n : ℕ) : numeral 16 (toChars 16 n) = n :=
  foldl_toChars (by decide) hexDigit (fun d hd => (digitChar_hex d hd).2) n

lemma encodeChunk_fits {bytes : Bytes} {maxChunkBytes : ℕ} (hne : bytes ≠ []) (hmax : bytes.length ≤ maxChunkBytes)
    (hsize : bytes.length + 20 < sizeModulus) : encodeChunk bytes maxChunkBytes = .ok (chunkOf bytes).encode := by
  have hdigits : (toChars 16 bytes.length).length ≤ 16 := by
    apply @toChars_length_le 16 (by decide) _ 15
    unfold sizeModulus at hsize
    omega
  unfold encodeChunk
  dsimp only
  rw [if_neg (by simpa using hne), if_neg (by omega), if_neg]
  · rfl
  · simp only [Bool.or_eq_true, decide_eq_true_eq, not_or, not_lt]
    unfold sizeModulus at hsize ⊢
    omega

lemma hexDigit_not_cr {b : Byte} (h : isHexDigit b = true) : b ≠ 13 := by
  rintro rfl
  exact absurd h (by decide)

lemma toChars_no_cr (n : ℕ) : 13 ∉ toChars 16 n :=
  fun h => hexDigit_not_cr (isHexDigit_toChars h) rfl

lemma chunkLength_toChars (h : n < sizeModulus) : chunkLength (toChars 16 n) = .ok n := by
  have hnone : findFirst (fun b => !isHexDigit b) (toChars 16 n) = none := by
    rw [findFirst, List.findIdx?_eq_none_iff]
    intro b hb
    rw [isHexDigit_toChars hb]
    rfl
  have hsize : fromCharsSize 16 hexDigit (toChars 16 n) = some n := by
    have hv := numeral_toChars n
    unfold numeral at hv
    simp only [fromCharsSize, hv, if_pos h]
  have hempty : (toChars 16 n).isEmpty = false := List.isEmpty_eq_false_iff.mpr (toChars_ne_nil (by decide) n)
  unfold chunkLength
  simp only [hnone, upTo, hempty, Bool.not_true, Bool.or_self, Bool.false_eq_true, if_false, hsize]

end Digits

lemma readLine_line_or_wait {line tail x y : Bytes} {limit : ℕ} (hcr : 13 ∉ line) (hlimit : line.length + 2 ≤ limit)
    (hx : x ++ y = line ++ (crlf ++ tail)) :
    (readLine limit x = .wait ∧ y ≠ []) ∨
      ∃ x', x = line ++ (crlf ++ x') ∧ x' ++ y = tail ∧ readLine limit x = .line line.length := by
  have hfirst : ∀ n, crlf <+: (line ++ (crlf ++ tail)).drop n → line.length ≤ n := by
    intro n hn
    by_contra hlt
    apply hcr
    rw [List.drop_append_of_le_length (by omega), List.drop_eq_getElem_cons (by omega), List.cons_append] at hn
    have hhead := (List.cons_prefix_cons.mp hn).1
    rw [hhead]
    exact List.getElem_mem _
  rcases Nat.lt_or_ge x.length (line.length + 2) with hlt | hge
  · left
    have hnone : find crlf x = none := by
      cases hf : find crlf x with
      | none => rfl
      | some n =>
        have hb := find_bound hf
        have hs := find_starts (find_append y hf)
        rw [hx] at hs
        have := hfirst n hs
        simp only [crlf, List.length_cons, List.length_nil] at hb
        omega
    refine ⟨?_, ?_⟩
    · simp only [readLine, hnone]
      rw [if_neg (by omega)]
    · rintro rfl
      rw [List.append_nil] at hx
      have hlen := congrArg List.length hx
      simp only [List.length_append, crlf, List.length_cons, List.length_nil] at hlen
      omega
  · right
    obtain ⟨x', rfl⟩ : line ++ crlf <+: x := by
      have hline : line ++ crlf <+: x ++ y := by
        rw [hx, ← List.append_assoc]
        exact List.prefix_append _ _
      apply List.prefix_of_prefix_length_le hline (List.prefix_append x y)
      simpa [crlf] using hge
    have htail : x' ++ y = tail := by simpa using hx
    refine ⟨x', List.append_assoc .., htail, ?_⟩
    have hf : find crlf (line ++ crlf ++ x') = some line.length := by
      apply find_eq_some
      · simp
      · rw [List.append_assoc, List.drop_left]
        exact List.prefix_append _ _
      · intro j hj hp
        have := hfirst j (by
          rw [← hx, List.drop_append_of_le_length (by simp; omega)]
          exact hp.trans (List.prefix_append _ _))
        omega
    simp only [readLine, hf]
    rw [if_neg (by omega)]

end ServerCore.Web
