import ServerCore.Protocol.FrameStream

/-! The reader decodes length-prefixed streams: every `Append` drains the abstract
decoder on what the storage holds followed by the piece. -/

namespace ServerCore.Protocol.FrameCodec

open ServerCore.Core ServerCore.Foundations.StreamDecoder

section Bits

lemma or_shiftLeft {x y : ℕ} (k : ℕ) (h : x < 2 ^ k) : x ||| (y <<< k) = x + y * 2 ^ k := by
  rw [Nat.or_comm, Nat.shiftLeft_eq, Nat.mul_comm, ← Nat.two_pow_add_eq_or_of_lt h, Nat.add_comm]

lemma littleEndian_toNat (b0 b1 b2 b3 : Byte) :
    (b0.toUInt32 ||| (b1.toUInt32 <<< 8) ||| (b2.toUInt32 <<< 16) ||| (b3.toUInt32 <<< 24)).toNat =
      b0.toNat + b1.toNat * 2 ^ 8 + b2.toNat * 2 ^ 16 + b3.toNat * 2 ^ 24 := by
  have h0 := b0.toNat_lt
  have h1 := b1.toNat_lt
  have h2 := b2.toNat_lt
  have h3 := b3.toNat_lt
  have e1 : b1.toNat <<< (UInt32.toNat 8 % 32) % 2 ^ 32 = b1.toNat <<< 8 := by
    simp [Nat.shiftLeft_eq]
    omega
  have e2 : b2.toNat <<< (UInt32.toNat 16 % 32) % 2 ^ 32 = b2.toNat <<< 16 := by
    simp [Nat.shiftLeft_eq]
    omega
  have e3 : b3.toNat <<< (UInt32.toNat 24 % 32) % 2 ^ 32 = b3.toNat <<< 24 := by
    simp [Nat.shiftLeft_eq]
    omega
  simp only [UInt32.toNat_or, UInt32.toNat_shiftLeft, UInt8.toNat_toUInt32]
  rw [e1, e2, e3, or_shiftLeft 8 h0, or_shiftLeft 16 (by omega), or_shiftLeft 24 (by omega)]

lemma lengthByte_eq {n : ℕ} (h : n < 2 ^ 32) (k : UInt32) (hk : k.toNat < 32) :
    ((UInt32.ofNat n >>> k) &&& 0xFF).toUInt8 = UInt8.ofNat (n / 2 ^ k.toNat) := by
  apply UInt8.toNat_inj.mp
  have hand (m : ℕ) : m &&& 255 = m % 2 ^ 8 := Nat.and_two_pow_sub_one_eq_mod m 8
  simp only [UInt32.toNat_toUInt8, UInt32.toNat_and, UInt32.toNat_shiftRight, UInt32.toNat_ofNat',
    UInt8.toNat_ofNat', Nat.shiftRight_eq_div_pow, Nat.mod_eq_of_lt h, Nat.mod_eq_of_lt hk]
  rw [show UInt32.toNat 0xFF = 255 from rfl, hand, Nat.mod_mod]

end Bits

lemma set_headers (output : Bytes) (a b c d : Byte) (h : headerSize ≤ output.length) :
    (((output.set 0 a).set 1 b).set 2 c).set 3 d = [a, b, c, d] ++ output.drop headerSize := by
  rcases output with _ | ⟨_, _ | ⟨_, _ | ⟨_, _ | ⟨_, _⟩⟩⟩⟩ <;> simp_all [headerSize]

lemma encodeTo_ok {body output : Bytes} {maxBodySize : UInt32} (hb : body.length ≤ maxBodySize.toNat)
    (ho : headerSize + body.length ≤ output.length) :
    encodeTo body output maxBodySize =
      (⟨.none, headerSize + body.length, headerSize + body.length⟩,
        frame body ++ output.drop (headerSize + body.length)) := by
  have hm := maxBodySize.toNat_lt
  have hsize : sizeModulus = 2 ^ 64 := rfl
  have hhead : headerSize = 4 := rfl
  simp only [encodeTo]
  rw [if_neg (by omega), if_neg (by omega), if_neg (by omega)]
  have hmoved : (if body.isEmpty then output else overwrite output headerSize body) =
      output.take headerSize ++ body ++ output.drop (headerSize + body.length) := by
    split_ifs with he
    · simp [List.isEmpty_iff.mp he]
    · rfl
  have h0 := lengthByte_eq (n := body.length) (by omega) 0 (by decide)
  have h1 := lengthByte_eq (n := body.length) (by omega) 8 (by decide)
  have h2 := lengthByte_eq (n := body.length) (by omega) 16 (by decide)
  have h3 := lengthByte_eq (n := body.length) (by omega) 24 (by decide)
  simp only [UInt32.shiftRight_zero] at h0
  rw [hmoved, h0, h1, h2, h3, set_headers]
  · rw [List.append_assoc, List.drop_left' (by rw [List.length_take]; omega), frame,
      lengthHeader, List.append_assoc]
    simp
  · simp only [List.length_append, List.length_take, List.length_drop]
    omega

namespace Reader

def unread (r : Reader) : Bytes := (r.storage.drop r.start).take (r.stop - r.start)

lemma unread_length (r : Reader) : r.unread.length = r.stop - r.start := by
  have := r.stop_le_size
  rw [unread, List.length_take, List.length_drop]
  omega

lemma announced_unread (r : Reader) (h : headerSize ≤ r.stop - r.start) :
    announced r.unread = some r.readLittleEndianLength.toNat := by
  have hs := r.stop_le_size
  have hh : headerSize = 4 := rfl
  have hx : r.storage.drop r.start = r.storage.getD r.start 0 :: r.storage.getD (r.start + 1) 0 ::
      r.storage.getD (r.start + 2) 0 :: r.storage.getD (r.start + 3) 0 ::
      r.storage.drop (r.start + 4) := by
    have hget (i : ℕ) (hi : r.start + i < r.storage.length) :
        r.storage.drop (r.start + i) =
          r.storage.getD (r.start + i) 0 :: r.storage.drop (r.start + i + 1) := by
      rw [List.drop_eq_getElem_cons hi, List.getD_eq_getElem?_getD, List.getElem?_eq_getElem hi,
        Option.getD_some]
    rw [← hget 3 (by omega), ← hget 2 (by omega), ← hget 1 (by omega)]
    exact hget 0 (by omega)
  obtain ⟨m, hm⟩ : ∃ m, r.stop - r.start = m + 4 := ⟨r.stop - r.start - 4, by omega⟩
  simp only [unread, hx, hm, List.take_succ_cons, announced, readLittleEndianLength,
    littleEndian_toNat, Nat.add_zero]

lemma invoke_plain {σ : Type*} (r : Reader) (run : σ → Bytes → σ) (context : σ) (body : Bytes)
    (h : r.invokingCallback = false) : r.invoke (.plain run) context body = r := by
  cases r
  simp only [invoke, FrameCallback.plain_reenters, Bool.false_eq_true, ↓reduceIte] at h ⊢
  rw [h]

lemma unread_advance (r : Reader) (n : ℕ) (h : n ≤ r.stop - r.start) :
    (r.advance n h).unread = r.unread.drop n := by
  simp only [unread, advance, List.drop_take, List.drop_drop]
  congr 1
  omega

lemma body_eq (r : Reader) (n : ℕ) (h : headerSize + n ≤ r.stop - r.start) :
    (r.storage.drop (r.start + headerSize)).take n = (r.unread.drop headerSize).take n := by
  rw [unread, List.drop_take, List.take_take, List.drop_drop]
  congr 1
  omega

structure SameStore (r r' : Reader) : Prop where
  size : r'.storage.length = r.storage.length
  max : r'.maxBodySize = r.maxBodySize
  idle : r'.invokingCallback = r.invokingCallback

lemma SameStore.trans {r s t : Reader} (h : SameStore r s) (h' : SameStore s t) : SameStore r t :=
  ⟨h'.size.trans h.size, h'.max.trans h.max, h'.idle.trans h.idle⟩

/-- `(error, reader)` stands for the end of a drain: blocked on the reader's unread bytes, or
failed for good on an oversized header. -/
inductive Ends (error : Error) (r : Reader) : Option (Unit × Bytes) → Prop
  | blocked : error = .none → r.terminalError = .none → Ends error r (some ((), r.unread))
  | failed : error = .tooLarge → r.terminalError = .tooLarge → Ends error r none

lemma pump_none {σ : Type*} (callback : FrameCallback σ) (r : Reader) (context : σ) :
    ∀ r' context', pumpCompletedFrames callback r context = (.none, r', context') →
      r'.storage = r.storage ∧ r'.maxBodySize = r.maxBodySize ∧
        r'.stop - r'.start < headerSize + r'.maxBodySize.toNat := by
  fun_induction pumpCompletedFrames callback r context with
  | case1 r context hh bodyLength hbig => simp
  | case2 r context hh bodyLength hbig frameSize hf =>
    rintro r' context' h
    obtain ⟨rfl, -⟩ : _ ∧ _ := by simpa using h
    have hle : bodyLength.toNat ≤ r.maxBodySize.toNat :=
      not_lt.mp fun h => hbig (UInt32.lt_iff_toNat_lt.mpr h)
    exact ⟨rfl, rfl, by omega⟩
  | case3 r context hh bodyLength hbig frameSize hf body called hterm =>
    rintro r' context' h
    exact absurd (Prod.mk.inj h).1 hterm
  | case4 r context hh bodyLength hbig frameSize hf body called hterm hc ih =>
    rintro r' context' h
    obtain ⟨hs, hm, hlt⟩ := ih r' context' h
    obtain ⟨hs', hm', -, -⟩ := r.invoke_fields callback context body
    exact ⟨hs.trans hs', hm.trans hm', hlt⟩
  | case5 r context hh =>
    rintro r' context' h
    obtain ⟨rfl, -⟩ : _ ∧ _ := by simpa using h
    exact ⟨rfl, rfl, by omega⟩

lemma compact_storage_length (r : Reader) :
    r.compactUnreadBytes.storage.length = r.storage.length := by
  have hs := r.stop_le_size
  simp only [compactUnreadBytes]
  split_ifs
  · rfl
  · exact overwrite_length (by simp only [List.length_take, List.length_drop]; omega)

lemma makeRoom_storage_length (r : Reader) : r.makeRoom.storage.length = r.storage.length := by
  rw [makeRoom]
  split_ifs
  · exact r.compact_storage_length
  · rfl

lemma makeRoom_unread (r : Reader) : r.makeRoom.unread = r.unread := by
  have hs := r.stop_le_size
  simp only [makeRoom, compactUnreadBytes]
  split_ifs
  · rfl
  · have hl : (List.take (r.stop - r.start) (r.storage.drop r.start)).length = r.stop - r.start :=
      r.unread_length
    simp only [unread, overwrite, List.take_zero, List.nil_append, List.drop_zero, Nat.sub_zero]
    rw [List.take_left' hl]
  · rfl

lemma makeRoom_fields (r : Reader) :
    SameStore r r.makeRoom ∧ r.makeRoom.terminalError = r.terminalError := by
  refine ⟨⟨r.makeRoom_storage_length, ?_, ?_⟩, ?_⟩ <;> simp only [makeRoom, compactUnreadBytes] <;>
    split_ifs <;> rfl

lemma makeRoom_stop_lt (r : Reader) (h : r.stop - r.start < r.storage.length) :
    r.makeRoom.stop < r.makeRoom.storage.length := by
  have hs := r.stop_le_size
  rw [makeRoom_storage_length]
  simp only [makeRoom, compactUnreadBytes]
  split_ifs with he h0
  · omega
  · exact h
  · omega

lemma store_same (r : Reader) (bytes : Bytes) (h : bytes.length ≤ r.storage.length - r.stop) :
    SameStore r (r.store bytes h) :=
  ⟨overwrite_length (by have := r.stop_le_size; omega), rfl, rfl⟩

lemma store_unread (r : Reader) (bytes : Bytes) (h : bytes.length ≤ r.storage.length - r.stop) :
    (r.store bytes h).unread = r.unread ++ bytes := by
  have hs := r.stop_le_size
  have ho := r.start_le_stop
  have hl : (r.storage.take r.stop).length = r.stop := by
    rw [List.length_take]
    omega
  have he : r.stop + bytes.length - r.start = (r.stop - r.start) + bytes.length := by omega
  simp only [unread, store, overwrite, List.append_assoc, he]
  rw [List.drop_append_of_le_length (by omega), List.drop_take, List.take_append,
    List.take_append]
  have hl' : (List.take (r.stop - r.start) (r.storage.drop r.start)).length = r.stop - r.start :=
    r.unread_length
  rw [hl', List.take_of_length_le (by omega), Nat.add_sub_cancel_left, List.take_length, Nat.sub_self,
    List.take_zero, List.append_nil]

section Plain

variable {σ : Type*} (run : σ → Bytes → σ)

lemma pump_drain (r : Reader) (context : σ) (ht : r.terminalError = .none)
    (hi : r.invokingCallback = false) :
    ∃ error r' bodies result,
      pumpCompletedFrames (.plain run) r context = (error, r', bodies.foldl run context) ∧
      SameStore r r' ∧ Drain (frameStep r.maxBodySize.toNat) () r.unread bodies result ∧
      Ends error r' result := by
  induction hn : r.stop - r.start using Nat.strong_induction_on generalizing r context with
  | _ n ih =>
    rw [pumpCompletedFrames]
    by_cases hh : headerSize ≤ r.stop - r.start
    · have ha := r.announced_unread hh
      simp only [hh, ↓reduceDIte]
      by_cases hbig : r.readLittleEndianLength > r.maxBodySize
      · simp only [hbig, ↓reduceIte]
        refine ⟨_, _, [], none, rfl, ⟨rfl, rfl, rfl⟩, .fail ?_, .failed rfl rfl⟩
        exact frameStep_fail_iff.mpr ⟨_, ha, UInt32.lt_iff_toNat_lt.mp hbig⟩
      · have hle : r.readLittleEndianLength.toNat ≤ r.maxBodySize.toNat :=
          not_lt.mp fun h => hbig (UInt32.lt_iff_toNat_lt.mpr h)
        simp only [hbig, ↓reduceIte]
        by_cases hf : r.stop - r.start < headerSize + r.readLittleEndianLength.toNat
        · simp only [hf, ↓reduceDIte]
          refine ⟨_, _, [], _, rfl, ⟨rfl, rfl, rfl⟩, .need ?_, .blocked rfl ht⟩
          refine frameStep_need_iff.mpr ⟨rfl, fun m hm => ?_⟩
          obtain rfl := Option.some.inj (ha.symm.trans hm)
          exact ⟨hle, by rwa [unread_length]⟩
        · simp only [hf, ↓reduceDIte, invoke_plain _ _ _ _ hi, ht, ne_eq, not_true_eq_false,
            ↓reduceIte, FrameCallback.plain_run]
          have hfit : headerSize + r.readLittleEndianLength.toNat ≤ r.stop - r.start := by omega
          obtain ⟨error, r', bodies, result, hp, hsame, hd, he⟩ := ih _
            (by simp only [advance, headerSize] at *; omega) (r.advance _ hfit)
            (run context ((r.storage.drop (r.start + headerSize)).take r.readLittleEndianLength.toNat))
            ht hi rfl
          refine ⟨error, r', _ :: bodies, result, hp, ⟨hsame.size, hsame.max, hsame.idle⟩, ?_, he⟩
          have hstep : frameStep r.maxBodySize.toNat () r.unread =
              .go (some ((r.storage.drop (r.start + headerSize)).take r.readLittleEndianLength.toNat))
                () (r.advance _ hfit).unread := by
            refine frameStep_go_iff.mpr ⟨_, ha, hle, by rwa [unread_length], ?_, unread_advance ..⟩
            rw [body_eq _ _ hfit]
          exact .go hstep hd
    · simp only [hh, ↓reduceDIte]
      refine ⟨_, _, [], _, rfl, ⟨rfl, rfl, rfl⟩, .need ?_, .blocked rfl ht⟩
      refine frameStep_need_iff.mpr ⟨rfl, fun m hm => ?_⟩
      have := headerSize_le_of_announced hm
      rw [unread_length] at this
      omega


lemma appendLoop_drain (r : Reader) (context : σ) (bytes : Bytes) (consumed : ℕ)
    (hsize : headerSize + r.maxBodySize.toNat ≤ r.storage.length) (ht : r.terminalError = .none)
    (hi : r.invokingCallback = false) :
    ∃ outcome r' bodies result,
      appendLoop (.plain run) r context bytes consumed = (outcome, r', bodies.foldl run context) ∧
      SameStore r r' ∧ Drain (frameStep r.maxBodySize.toNat) () (r.unread ++ bytes) bodies result ∧
      Ends outcome.error r' result ∧ (outcome.error = .none → outcome.consumed = consumed + bytes.length) := by
  induction hn : bytes.length using Nat.strong_induction_on generalizing r context bytes consumed with
  | _ n ih =>
    have hr := frameStep_resumable r.maxBodySize.toNat
    obtain ⟨error, r', bodies, result, hp, hsame, hd, he⟩ := pump_drain run r context ht hi
    rw [appendLoop, hp]
    dsimp only
    cases he with
    | failed herr hterm =>
      subst herr
      exact ⟨⟨.tooLarge, consumed⟩, r', bodies, none, rfl, hsame, hr.drain_append_fail trivial hd,
        .failed rfl hterm, by simp⟩
    | blocked herr hterm =>
      subst herr
      simp only [ne_eq, not_true_eq_false, ↓reduceIte]
      by_cases hb : bytes = []
      · subst hb
        exact ⟨⟨.none, consumed⟩, r', bodies, _, by simp, hsame, by simpa using hd,
          .blocked rfl hterm, by simp [← hn]⟩
      · have hpos : 0 < bytes.length := List.length_pos_iff.mpr hb
        obtain ⟨hs, hm, hlt⟩ := pump_none _ r context _ _ hp
        have hroom := r'.makeRoom_stop_lt (by rw [hs] at *; rw [hm] at hlt; omega)
        have hne : r'.makeRoom.stop ≠ r'.makeRoom.storage.length := hroom.ne
        have hemp : bytes.isEmpty = false := by simpa using hb
        simp only [hemp, Bool.false_eq_true, ↓reduceDIte, hne]
        set room := r'.makeRoom with hroomdef
        set count := if room.storage.length - room.stop < bytes.length
          then room.storage.length - room.stop else bytes.length with hcountdef
        have hbounds : 0 < count ∧ count ≤ bytes.length ∧ count ≤ room.storage.length - room.stop := by
          rw [hcountdef]
          split_ifs <;> omega
        have hfit : (bytes.take count).length ≤ room.storage.length - room.stop := by
          rw [List.length_take]
          omega
        obtain ⟨hsame₁, hterm₁⟩ := r'.makeRoom_fields
        have hsame₂ := (hsame.trans hsame₁).trans (room.store_same _ hfit)
        obtain ⟨outcome, r'', bodies', result', ha, hsame', hd', he', hc'⟩ := ih (bytes.length - count)
          (by omega) (room.store (bytes.take count) hfit) (bodies.foldl run context) (bytes.drop count)
          (consumed + count) (by rw [hsame₂.size, hsame₂.max]; exact hsize) (hterm₁.trans hterm)
          (hsame₂.idle.trans hi) (List.length_drop ..)
        rw [hsame₂.max, store_unread, makeRoom_unread, List.append_assoc, List.take_append_drop] at hd'
        obtain ⟨result'', hd'', hrel⟩ := hr.drain_append trivial hd hd'
        refine ⟨outcome, r'', bodies ++ bodies', result', ?_, hsame₂.trans hsame', ?_, he', fun h => ?_⟩
        · rw [List.foldl_append]
          exact ha
        · cases hrel with
          | blocked h => exact h ▸ hd''
          | failed => exact hd''
        · rw [hc' h]
          omega

lemma append_drain (r : Reader) (context : σ) (bytes : Bytes)
    (hsize : headerSize + r.maxBodySize.toNat ≤ r.storage.length) (ht : r.terminalError = .none)
    (hi : r.invokingCallback = false) :
    ∃ outcome r' bodies result,
      r.append bytes context (some (.plain run)) = (outcome, r', bodies.foldl run context) ∧
      SameStore r r' ∧ Drain (frameStep r.maxBodySize.toNat) () (r.unread ++ bytes) bodies result ∧
      Ends outcome.error r' result ∧ (outcome.error = .none → outcome.consumed = bytes.length) := by
  obtain ⟨outcome, r', bodies, result, ha, h⟩ := appendLoop_drain run r context bytes 0 hsize ht hi
  refine ⟨outcome, r', bodies, result, ?_, by simpa using h⟩
  simpa [append, refuse, ht, hi] using ha

/-- The calls of `Append` for the pieces of a stream, with what each returns. -/
def appendAll (callback : FrameCallback σ) :
    Reader → σ → List Bytes → List AppendResult × Reader × σ
  | r, context, [] => ([], r, context)
  | r, context, piece :: pieces =>
    let (outcome, r', context') := r.append piece context (some callback)
    let (outcomes, r'', context'') := appendAll callback r' context' pieces
    (outcome :: outcomes, r'', context'')

lemma appendAll_terminal (callback : FrameCallback σ) {r : Reader} (context : σ) (pieces : List Bytes)
    (ht : r.terminalError ≠ .none) :
    appendAll callback r context pieces = (pieces.map fun _ => ⟨r.terminalError, 0⟩, r, context) := by
  induction pieces with
  | nil => rfl
  | cons piece pieces ih => simp [appendAll, append, refuse, ht, ih]

lemma appendAll_feed (r : Reader) (context : σ) (pieces : List Bytes)
    (hsize : headerSize + r.maxBodySize.toNat ≤ r.storage.length) (ht : r.terminalError = .none)
    (hi : r.invokingCallback = false) :
    ∃ outcomes r' bodies result,
      appendAll (.plain run) r context pieces = (outcomes, r', bodies.foldl run context) ∧
      Feed (frameStep r.maxBodySize.toNat) () r.unread pieces bodies result ∧
      Ends r'.terminalError r' result ∧
      (∀ outcome ∈ outcomes, outcome.error = .none ∨ outcome.error = .tooLarge) ∧
      (r'.terminalError = .none → outcomes = pieces.map fun piece => ⟨.none, piece.length⟩) := by
  induction pieces generalizing r context with
  | nil => exact ⟨[], r, [], _, rfl, .done, .blocked ht ht, by simp, by simp⟩
  | cons piece pieces ih =>
    obtain ⟨⟨error, consumed⟩, r', bodies, result, ha, hsame, hd, he, hc⟩ :=
      append_drain run r context piece hsize ht hi
    simp only [appendAll, ha]
    cases he with
    | failed herr hterm =>
      refine ⟨_, r', bodies, none, by rw [appendAll_terminal _ _ _ (by simp [hterm])], .failed hd,
        .failed hterm hterm, ?_, by simp [hterm]⟩
      simpa [hterm] using .inr herr
    | blocked herr hterm =>
      obtain rfl : error = .none := herr
      obtain rfl : consumed = piece.length := hc rfl
      obtain ⟨outcomes, r'', bodies', result', hall, hf, he', herrs, hok⟩ :=
        ih r' (bodies.foldl run context) (by rw [hsame.size, hsame.max]; exact hsize) hterm
          (hsame.idle.trans hi)
      rw [hsame.max] at hf
      simp only [hall]
      refine ⟨_, r'', bodies ++ bodies', result', by rw [List.foldl_append], .piece hd hf, he', ?_, ?_⟩
      · simpa using herrs
      · intro h
        rw [hok h, List.map_cons]

end Plain

lemma create_terminalError {storage : Bytes} {maxBodySize : UInt32}
    (hsize : headerSize + maxBodySize.toNat ≤ storage.length) :
    (create storage maxBodySize).terminalError = .none := by
  have hm := maxBodySize.toNat_lt
  have hmod : sizeModulus = 2 ^ 64 := rfl
  have hh : headerSize = 4 := rfl
  have hreq : requiredStorageSize maxBodySize = headerSize + maxBodySize.toNat := by
    rw [requiredStorageSize, if_neg (by omega)]
  simp only [create, hreq]
  rw [if_neg (by omega)]

lemma create_unread (storage : Bytes) (maxBodySize : UInt32) : (create storage maxBodySize).unread = [] := by
  simp [unread, create]

lemma finish_none_iff (r : Reader) : r.finish = .none ↔ r.terminalError = .none ∧ r.unread = [] := by
  rw [← List.length_eq_zero_iff, unread_length, finish]
  have := r.start_le_stop
  split_ifs with ht he
  · simp [ht]
  · simpa using ⟨not_not.mp ht, by omega⟩
  · simp only [false_iff, not_and]
    omega

lemma create_drain {σ : Type*} (run : σ → Bytes → σ) (context : σ) (storage : Bytes)
    (maxBodySize : UInt32) (hsize : headerSize + maxBodySize.toNat ≤ storage.length)
    (pieces : List Bytes) :
    ∃ outcomes r' bodies result,
      appendAll (.plain run) (create storage maxBodySize) context pieces =
        (outcomes, r', bodies.foldl run context) ∧
      Drain (frameStep maxBodySize.toNat) () pieces.flatten bodies result ∧
      Ends r'.terminalError r' result ∧
      (∀ outcome ∈ outcomes, outcome.error = .none ∨ outcome.error = .tooLarge) ∧
      (r'.terminalError = .none → outcomes = pieces.map fun piece => ⟨.none, piece.length⟩) := by
  obtain ⟨outcomes, r', bodies, result, ha, hf, he, h⟩ :=
    appendAll_feed run (create storage maxBodySize) context pieces hsize (create_terminalError hsize) rfl
  refine ⟨outcomes, r', bodies, result, ha, ?_, he, h⟩
  rw [create_unread] at hf
  cases pieces with
  | nil =>
    cases hf
    exact .need (frameStep_need_iff.mpr ⟨rfl, by simp [announced]⟩)
  | cons piece pieces =>
    obtain ⟨result', hd, hrel⟩ := (frameStep_resumable _).feed_drain trivial (by simp) hf
    cases hrel with
    | blocked h => exact h ▸ hd
    | failed => exact hd

end Reader

def encoding (maxBodySize : UInt32) (body output : Bytes) : Bytes :=
  let (result, output') := encodeTo body output maxBodySize
  output'.take result.written

lemma encoding_eq {body output : Bytes} {maxBodySize : UInt32} (hb : body.length ≤ maxBodySize.toNat)
    (ho : headerSize + body.length ≤ output.length) : encoding maxBodySize body output = frame body := by
  simp only [encoding, encodeTo_ok hb ho]
  exact List.take_left' (frame_length body)

open Reader in
/-- The reader decodes every cut of encoded bodies back, splits an arbitrary stream at its last
complete frame, and its storage is never full behind an incomplete frame. -/
theorem reader_decodes_stream {σ : Type*} (run : σ → Bytes → σ) (context : σ) (storage : Bytes)
    (maxBodySize : UInt32) (hsize : headerSize + maxBodySize.toNat ≤ storage.length) :
    (∀ slots : List (Bytes × Bytes),
      (∀ slot ∈ slots, slot.1.length ≤ maxBodySize.toNat ∧
        headerSize + slot.1.length ≤ slot.2.length) →
      ∀ pieces : List Bytes,
        pieces.flatten = (slots.map fun slot => encoding maxBodySize slot.1 slot.2).flatten →
        ∃ r', appendAll (.plain run) (create storage maxBodySize) context pieces =
            (pieces.map fun piece => ⟨.none, piece.length⟩, r', (slots.map Prod.fst).foldl run context) ∧
          r'.finish = .none) ∧
    (∀ pieces : List Bytes, ∃ (outcomes : List AppendResult) (r' : Reader) (bodies : List Bytes)
        (rest : Bytes),
      appendAll (.plain run) (create storage maxBodySize) context pieces =
        (outcomes, r', bodies.foldl run context) ∧
      pieces.flatten = (bodies.map frame).flatten ++ rest ∧
      (∀ body ∈ bodies, body.length ≤ maxBodySize.toNat) ∧
      (¬ ∃ body tail, body.length ≤ maxBodySize.toNat ∧ rest = frame body ++ tail) ∧
      (r'.terminalError = .tooLarge ↔ ∃ n, announced rest = some n ∧ maxBodySize.toNat < n) ∧
      (r'.terminalError = .none ∨ r'.terminalError = .tooLarge) ∧
      ∀ outcome ∈ outcomes, outcome.error = .none ∨ outcome.error = .tooLarge) ∧
    (∀ (callback : FrameCallback σ) (r r' : Reader) (c c' : σ), r.storage.length = storage.length →
      r.maxBodySize = maxBodySize → pumpCompletedFrames callback r c = (.none, r', c') →
      r'.makeRoom.stop ≠ r'.makeRoom.storage.length) := by
  have hm : maxBodySize.toNat < 2 ^ 32 := maxBodySize.toNat_lt
  refine ⟨fun slots hslots pieces hp => ?_, fun pieces => ?_, fun callback r r' c c' hr hmax hpump => ?_⟩
  · have henc : (slots.map fun slot => encoding maxBodySize slot.1 slot.2) =
        (slots.map Prod.fst).map frame := by
      rw [List.map_map]
      exact List.map_congr_left fun slot h => encoding_eq (hslots slot h).1 (hslots slot h).2
    have hbound : ∀ body ∈ slots.map Prod.fst, body.length ≤ maxBodySize.toNat := by
      simp only [List.mem_map]
      rintro body ⟨slot, h, rfl⟩
      exact (hslots slot h).1
    obtain ⟨outcomes, r', bodies, result, ha, hd, he, -, hok⟩ :=
      create_drain run context storage maxBodySize hsize pieces
    rw [hp, henc] at hd
    obtain ⟨rfl, rfl⟩ := hd.unique (drain_frames hm hbound ())
    generalize hrest : some ((), ([] : Bytes)) = result at he
    cases he with
    | blocked herr hterm =>
      have hunread : r'.unread = [] := by simpa using hrest
      rw [hok hterm] at ha
      exact ⟨r', ha, (finish_none_iff r').mpr ⟨hterm, hunread⟩⟩
    | failed => cases hrest
  · obtain ⟨outcomes, r', bodies, result, ha, hd, he, herrs, -⟩ :=
      create_drain run context storage maxBodySize hsize pieces
    obtain ⟨rest, hsp, hnone, -⟩ := drain_splits hm hd
    refine ⟨outcomes, r', bodies, rest, ha, hsp.stream, hsp.bounded, hsp.maximal, ?_, ?_, herrs⟩
    · rw [← hnone]
      cases he with
      | blocked _ hterm => simp [hterm]
      | failed _ hterm => simp [hterm]
    · cases he with
      | blocked _ hterm => exact .inl hterm
      | failed _ hterm => exact .inr hterm
  · obtain ⟨hs, hm', hlt⟩ := pump_none callback r c r' c' hpump
    refine (r'.makeRoom_stop_lt ?_).ne
    rw [hs]
    rw [hm', hmax] at hlt
    omega

/-- Two encoded bodies cut inside the second header, delivered through storage of six bytes. -/
theorem reader_decodes_two_bodies :
    headerSize + (2 : UInt32).toNat ≤ (List.replicate 6 (0 : Byte)).length ∧
      ∃ r', Reader.appendAll (.plain fun bodies body => bodies ++ [body])
          (.create (List.replicate 6 0) 2) [] [[1, 0, 0, 0, 7, 2, 0], [0, 0, 8, 9]] =
          ([⟨.none, 7⟩, ⟨.none, 4⟩], r', [[7], [8, 9]]) ∧ r'.finish = .none := by
  refine ⟨by decide, ?_⟩
  have h := (reader_decodes_stream (fun bodies body => bodies ++ [body]) ([] : List Bytes)
    (List.replicate 6 0) 2 (by decide)).1 [([7], List.replicate 5 0), ([8, 9], List.replicate 6 1)]
    (by decide) [[1, 0, 0, 0, 7, 2, 0], [0, 0, 8, 9]] (by decide)
  simpa using h

end ServerCore.Protocol.FrameCodec
