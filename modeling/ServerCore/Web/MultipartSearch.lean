import ServerCore.Web.Multipart

/-! The search for delimiters: what follows a marker, and the ways the search loop ends. -/

namespace ServerCore.Web.Multipart

open ServerCore.Core

section Suffix

variable {limit pos n : ℕ} {eof final : Bool} {x y : Bytes}

lemma takeWhile_length_add_dropWhile (x : Bytes) :
    (x.takeWhile isBlank).length + (x.dropWhile isBlank).length = x.length := by
  rw [← List.length_append, List.takeWhile_append_dropWhile]

lemma takeWhile_append_of_dropWhile {b : Byte} {rest : Bytes} (h : x.dropWhile isBlank = b :: rest) (y : Bytes) :
    (x ++ y).takeWhile isBlank = x.takeWhile isBlank ∧ (x ++ y).dropWhile isBlank = b :: (rest ++ y) := by
  have hne : (x.takeWhile isBlank).length ≠ x.length := by
    have := takeWhile_length_add_dropWhile x
    rw [h, List.length_cons] at this
    omega
  refine ⟨?_, ?_⟩
  · rw [List.takeWhile_append, if_neg hne]
  · rw [List.dropWhile_append, h]
    simp

lemma paddingSuffix_resume {eof' : Bool} (h : paddingSuffix limit eof final pos x ≠ .more)
    (hy : eof = true → eof' = true ∧ y = []) :
    paddingSuffix limit eof' final pos (x ++ y) = paddingSuffix limit eof final pos x := by
  cases hd : x.dropWhile isBlank with
  | nil =>
    have hlen := takeWhile_length_add_dropWhile x
    simp only [hd, List.length_nil, Nat.add_zero] at hlen
    by_cases hlim : limit < pos + x.length
    · have hle : (x.takeWhile isBlank).length ≤ ((x ++ y).takeWhile isBlank).length := by
        rw [List.takeWhile_append, if_pos hlen]
        simp [hlen]
      simp only [paddingSuffix, hlen, hlim, ↓reduceIte]
      rw [if_pos (by omega)]
    · simp only [paddingSuffix, hd, hlen, hlim, ↓reduceIte] at h
      cases heof : eof <;> simp [heof] at h hy
      rw [hy.1, hy.2, List.append_nil]
  | cons b rest =>
    obtain ⟨ht, hd'⟩ := takeWhile_append_of_dropWhile hd y
    simp only [paddingSuffix, hd, ht, hd'] at h ⊢
    by_cases hlim : limit < pos + (x.takeWhile isBlank).length
    · simp only [hlim, ↓reduceIte]
    by_cases hb : (b != 13) = true
    · simp only [hlim, hb, ↓reduceIte]
    cases rest with
    | nil => simp [hlim, hb] at h
    | cons c rest => rfl

lemma delimiterSuffix_resume {eof' : Bool} (h : delimiterSuffix limit eof x ≠ .more)
    (hy : eof = true → eof' = true ∧ y = []) :
    delimiterSuffix limit eof' (x ++ y) = delimiterSuffix limit eof x := by
  cases x with
  | nil =>
    cases eof
    · simp [delimiterSuffix, paddingSuffix] at h
    · rw [(hy rfl).1, (hy rfl).2, List.append_nil]
  | cons b rest =>
    simp only [delimiterSuffix, List.cons_append] at h ⊢
    split at h
    · cases rest with
      | nil => exact absurd rfl h
      | cons c rest =>
        simp only [List.cons_append] at h ⊢
        split at h
        · simp_all
        · simp only [*, ↓reduceIte]
          exact paddingSuffix_resume h hy
    · simp only [*]
      rw [← List.cons_append]
      exact paddingSuffix_resume h hy

lemma delimiterSuffix_append (h : delimiterSuffix limit eof x ≠ .more) (hy : eof = true → y = []) :
    delimiterSuffix limit true (x ++ y) = delimiterSuffix limit eof x :=
  delimiterSuffix_resume h fun he => ⟨rfl, hy he⟩

lemma paddingSuffix_more (h : paddingSuffix limit eof final pos x = .more) : pos + x.length ≤ limit + 1 := by
  have hlen := takeWhile_length_add_dropWhile x
  simp only [paddingSuffix] at h
  split at h
  · cases h
  rename_i hlim
  cases hd : x.dropWhile isBlank with
  | nil =>
    simp only [hd, List.length_nil] at hlen
    omega
  | cons b rest =>
    simp only [hd] at h
    split at h
    · cases h
    cases rest with
    | nil =>
      simp only [hd, List.length_cons, List.length_nil] at hlen
      omega
    | cons c rest =>
      simp only at h
      split_ifs at h

lemma delimiterSuffix_more (h : delimiterSuffix limit eof x = .more) : x.length ≤ limit + 1 := by
  cases x with
  | nil => simp
  | cons b rest =>
    simp only [delimiterSuffix] at h
    split at h
    · cases rest with
      | nil => simp
      | cons c rest =>
        simp only at h
        split at h
        · cases h
        · have := paddingSuffix_more h
          simp only [List.length_cons]
          omega
    · simpa using paddingSuffix_more h

lemma paddingSuffix_end (h : paddingSuffix limit eof final pos x = .normal n ∨
    paddingSuffix limit eof final pos x = .final n) : (final = true → 0 < pos) → 0 < n ∧ n ≤ pos + x.length := by
  intro hpos
  have hlen := takeWhile_length_add_dropWhile x
  simp only [paddingSuffix] at h
  split at h
  · simp at h
  cases hd : x.dropWhile isBlank with
  | nil =>
    simp only [hd] at h
    split at h <;> simp at h
    rename_i hf
    simp only [Bool.and_eq_true] at hf
    have := hpos hf.1
    omega
  | cons b rest =>
    simp only [hd] at h
    split at h
    · simp at h
    cases rest with
    | nil => simp at h
    | cons c rest =>
      simp only [hd, List.length_cons] at hlen
      simp only at h
      split_ifs at h <;> simp at h <;> omega

lemma delimiterSuffix_end (h : delimiterSuffix limit eof x = .normal n ∨ delimiterSuffix limit eof x = .final n) :
    0 < n ∧ n ≤ x.length := by
  cases x with
  | nil =>
    simp only [delimiterSuffix] at h
    simpa using paddingSuffix_end h (by simp)
  | cons b rest =>
    simp only [delimiterSuffix] at h
    split at h
    · cases rest with
      | nil => simp at h
      | cons c rest =>
        simp only at h
        split at h
        · simp at h
        · have := paddingSuffix_end h (by simp)
          simp only [List.length_cons]
          omega
    · simpa using paddingSuffix_end h (by simp)

end Suffix

section Opening

def opening (limit : ℕ) (eof : Bool) (pattern text : Bytes) : Suffix :=
  if startsWith text pattern then delimiterSuffix limit eof (text.drop pattern.length) else .invalid

variable {limit n : ℕ} {eof : Bool} {pattern x y : Bytes}

lemma startsWith_iff : startsWith x pattern = true ↔ pattern <+: x := List.isPrefixOf_iff_prefix

lemma opening_append (h : opening limit eof pattern x ≠ .more) (hlen : pattern.length ≤ x.length)
    (hy : eof = true → y = []) : opening limit true pattern (x ++ y) = opening limit eof pattern x := by
  have hs : startsWith (x ++ y) pattern = startsWith x pattern := isPrefixOf_append hlen
  simp only [opening, hs] at h ⊢
  split at h
  · simp only [*, ↓reduceIte]
    rw [List.drop_append_of_le_length hlen]
    exact delimiterSuffix_append h hy
  · rename_i hno
    rw [if_neg hno, if_neg hno]

lemma opening_end (h : opening limit eof pattern x = .normal n ∨ opening limit eof pattern x = .final n) :
    0 < n ∧ pattern.length + n ≤ x.length := by
  simp only [opening] at h
  split at h
  · rename_i hs
    have hp := (startsWith_iff.mp hs).length_le
    have := delimiterSuffix_end h
    simp only [List.length_drop] at this
    omega
  · simp at h

lemma opening_of_not_starts (h : ¬ pattern <+: x) : opening limit eof pattern x = .invalid := by
  rw [opening, if_neg]
  rwa [startsWith_iff]

lemma opening_of_starts (h : pattern <+: x) :
    opening limit eof pattern x = delimiterSuffix limit eof (x.drop pattern.length) := by
  rw [opening, if_pos (startsWith_iff.mpr h)]

end Opening

section Search

inductive Searches (initial : Bool) : State → ℕ → State × Found → Prop
  | wait {s position} : s.waits initial = true → Searches initial s position (s, .stop)
  | absent {s position} : s.waits initial = false → s.candidate initial position = none →
      s.buffer.length ≤ s.keep → Searches initial s position (s, .stop)
  | discard {s position} : s.waits initial = false → s.candidate initial position = none →
      s.keep < s.buffer.length → initial = true →
      Searches initial s position (s.skipPreamble (s.buffer.length - s.keep), .stop)
  | tail {s position} : s.waits initial = false → s.candidate initial position = none →
      s.keep < s.buffer.length → initial = false →
      Searches initial s position (s, .data (s.buffer.length - s.keep))
  | lookalike {s position offset size s' result} : s.waits initial = false →
      s.candidate initial position = some (offset, size) → s.suffixAt (offset + size) = .invalid →
      s' = (if initial && s.initialStart && offset == 0 then { s with initialStart := false } else s) →
      Searches initial s' (offset + 1) result → Searches initial s position result
  | erase {s position offset size result} : s.waits initial = false →
      s.candidate initial position = some (offset, size) → s.suffixAt (offset + size) ≠ .invalid → offset ≠ 0 →
      initial = true → Searches initial (s.skipPreamble offset) position result → Searches initial s position result
  | data {s position offset size} : s.waits initial = false → s.candidate initial position = some (offset, size) →
      s.suffixAt (offset + size) ≠ .invalid → offset ≠ 0 → initial = false →
      Searches initial s position (s, .data offset)
  | more {s position size} : s.waits initial = false → s.candidate initial position = some (0, size) →
      s.suffixAt size = .more → Searches initial s position (s, .stop)
  | normal {s position size length} : s.waits initial = false → s.candidate initial position = some (0, size) →
      s.suffixAt size = .normal length → Searches initial s position (s, .delimiter false (size + length))
  | final {s position size length} : s.waits initial = false → s.candidate initial position = some (0, size) →
      s.suffixAt size = .final length → Searches initial s position (s, .delimiter true (size + length))

variable {initial : Bool} {s : State} {position offset : ℕ}

def State.turns (s : State) (position : ℕ) : ℕ :=
  s.buffer.length + (s.buffer.length + 1 - position) + (if s.initialStart then s.buffer.length + 2 else 0)

lemma findFrom_bound {pattern text : Bytes} (hp : pattern ≠ []) (h : findFrom pattern text position = some offset) :
    position ≤ offset ∧ offset + pattern.length ≤ text.length := by
  obtain ⟨n, hn, rfl⟩ := Option.map_eq_some_iff.mp h
  have hb := find_bound hn
  have hpos : 0 < pattern.length := List.length_pos_iff.mpr hp
  simp only [List.length_drop] at hb
  omega

lemma findFrom_some {pattern text : Bytes} (h : findFrom pattern text position = some offset) :
    pattern <+: text.drop offset ∧ ∀ j, position ≤ j → j < offset → ¬ pattern <+: text.drop j := by
  obtain ⟨n, hn, rfl⟩ := Option.map_eq_some_iff.mp h
  have hp := find_starts hn
  rw [List.drop_drop, Nat.add_comm] at hp
  refine ⟨hp, fun j hj hlt hpre => ?_⟩
  have hb := find_bound hn
  have hsub : pattern <+: (text.drop position).drop (j - position) := by
    rw [List.drop_drop, show position + (j - position) = j by omega]
    exact hpre
  obtain ⟨m, hm, hfind⟩ := find_le (by omega) hsub
  rw [hn, Option.some.injEq] at hfind
  omega

lemma findFrom_none {pattern text : Bytes} (hp : pattern ≠ []) (h : findFrom pattern text position = none) :
    ∀ j, position ≤ j → ¬ pattern <+: text.drop j := by
  intro j hj hpre
  have hn : find pattern (text.drop position) = none := by simpa [findFrom] using h
  have hlen := hpre.length_le
  have hpos : 0 < pattern.length := List.length_pos_iff.mpr hp
  have hsub : pattern <+: (text.drop position).drop (j - position) := by
    rw [List.drop_drop, show position + (j - position) = j by omega]
    exact hpre
  simp only [List.length_drop] at hlen
  obtain ⟨m, -, hfind⟩ := find_le (by simp only [List.length_drop]; omega) hsub
  rw [hn] at hfind
  cases hfind

lemma candidate_bound {size : ℕ} (hd : s.delimiter ≠ []) (h : s.candidate initial position = some (offset, size)) :
    offset + size ≤ s.buffer.length ∧
      (position ≤ offset ∨ initial = true ∧ s.initialStart = true ∧ offset = 0) := by
  simp only [State.candidate] at h
  split at h
  · rename_i hc
    simp only [Bool.and_eq_true] at hc
    obtain ⟨rfl, rfl⟩ : 0 = offset ∧ s.marker.length = size := by simpa using h
    have hp : s.marker <+: s.buffer := List.isPrefixOf_iff_prefix.mp hc.2
    exact ⟨by simpa using hp.length_le, .inr ⟨hc.1.1, hc.1.2, rfl⟩⟩
  · obtain ⟨n, hn, heq⟩ := Option.map_eq_some_iff.mp h
    obtain ⟨rfl, rfl⟩ : n = offset ∧ s.delimiter.length = size := by simpa using heq
    have hb := findFrom_bound hd hn
    exact ⟨hb.2, .inl hb.1⟩

lemma search_searches {fuel : ℕ} (hd : s.delimiter ≠ []) (hfuel : s.turns position < fuel) :
    Searches initial s position (s.search initial fuel position) := by
  induction fuel generalizing s position with
  | zero => omega
  | succ fuel ih =>
    rw [State.search]
    cases hw : s.waits initial with
    | true => exact .wait hw
    | false =>
      cases hc : s.candidate initial position with
      | none =>
        simp only [Bool.false_eq_true, ↓reduceIte]
        split
        · rename_i hlen
          cases hi : initial with
          | true => exact .discard (hi ▸ hw) (hi ▸ hc) hlen rfl
          | false => exact .tail (hi ▸ hw) (hi ▸ hc) hlen rfl
        · exact .absent hw hc (by omega)
      | some found =>
        obtain ⟨offset, size⟩ := found
        obtain ⟨hle, hpos⟩ := candidate_bound hd hc
        simp only [Bool.false_eq_true, ↓reduceIte]
        cases hs : s.suffixAt (offset + size) with
        | invalid =>
          refine .lookalike hw hc hs rfl (ih (by split <;> exact hd) ?_)
          split
          · rename_i hstart
            simp only [Bool.and_eq_true, beq_iff_eq] at hstart
            simp only [State.turns, hstart, ↓reduceIte] at hfuel ⊢
            simp only [Bool.false_eq_true, ↓reduceIte]
            omega
          · rename_i hstart
            have hlt : position ≤ offset := by
              rcases hpos with h | ⟨h₁, h₂, h₃⟩
              · exact h
              · simp [h₁, h₂, h₃] at hstart
            simp only [State.turns] at hfuel ⊢
            omega
        | more | normal length | final length =>
          rcases eq_or_ne offset 0 with rfl | hne
          · rw [Nat.zero_add] at hs
            first
            | exact .more hw hc hs
            | exact .normal hw hc hs
            | exact .final hw hc hs
          · simp only [bne_iff_ne, ne_eq, hne, not_false_eq_true, ↓reduceIte]
            cases initial with
            | true =>
              refine .erase hw hc (by simp [hs]) hne rfl (ih hd ?_)
              simp only [State.turns, State.skipPreamble, List.length_drop, Bool.false_eq_true, ↓reduceIte] at hfuel ⊢
              omega
            | false => exact .data hw hc (by simp [hs]) hne rfl

lemma Searches.frame {r : State × Found} (h : Searches initial s position r) :
    (∃ count start, r.1 = { s with buffer := s.buffer.drop count, initialStart := start }) ∧
      (initial = false → r.1 = s) := by
  have hrefl (s : State) : ∃ count start, s = { s with buffer := s.buffer.drop count, initialStart := start } :=
    ⟨0, s.initialStart, by simp⟩
  induction h with
  | wait | absent | tail | data | more | normal | final => exact ⟨hrefl _, fun _ => rfl⟩
  | discard _ _ _ hi => exact ⟨⟨_, _, rfl⟩, fun hf => absurd hi (by simp [hf])⟩
  | lookalike _ _ _ hs _ ih =>
    obtain ⟨⟨count, start, heq⟩, hsame⟩ := ih
    subst hs
    refine ⟨⟨count, start, ?_⟩, fun hi => ?_⟩
    · rw [heq]
      split <;> rfl
    · rw [hsame hi]
      simp [hi]
  | @erase _ _ offset _ _ _ _ _ _ hi _ ih =>
    obtain ⟨⟨count, start, heq⟩, -⟩ := ih
    refine ⟨⟨offset + count, start, ?_⟩, fun hf => absurd hi (by simp [hf])⟩
    rw [heq]
    simp only [State.skipPreamble, List.drop_drop]

lemma Searches.data_body {r : State × Found} {c : ℕ} (h : Searches initial s position r) (hr : r.2 = .data c) :
    initial = false := by
  induction h with
  | tail _ _ _ hi | data _ _ _ _ hi => exact hi
  | lookalike _ _ _ _ _ ih | erase _ _ _ _ _ _ ih => exact ih hr
  | _ => cases hr

lemma suffixAt_end {length : ℕ} (h : s.suffixAt offset = .normal length ∨ s.suffixAt offset = .final length)
    (hoff : offset ≤ s.buffer.length) : 0 < offset + length ∧ offset + length ≤ s.buffer.length := by
  have := delimiterSuffix_end h
  simp only [List.length_drop] at this
  omega

def Found.Fits (s : State) : Found → Prop
  | .stop => s.buffer.length ≤ s.delimiter.length + s.options.maxHeaderBytes + 1
  | .data count => 0 < count ∧ count ≤ s.buffer.length
  | .delimiter _ consumed => 0 < consumed ∧ consumed ≤ s.buffer.length

lemma Searches.fits {r : State × Found} (h : Searches initial s position r) (hd : s.delimiter ≠ [])
    (hm : s.marker.length ≤ s.delimiter.length) (hl : 0 < s.options.maxHeaderBytes) : r.2.Fits r.1 := by
  induction h with
  | wait hw =>
    simp only [State.waits, Bool.and_eq_true, decide_eq_true_eq] at hw
    simp only [Found.Fits]
    omega
  | absent _ _ hlen =>
    simp only [State.keep] at hlen
    simp only [Found.Fits]
    omega
  | discard _ _ hlen _ =>
    simp only [State.keep] at hlen
    simp only [Found.Fits, State.skipPreamble, State.keep, List.length_drop]
    omega
  | tail _ _ hlen _ =>
    simp only [State.keep] at hlen
    simp only [Found.Fits, State.keep]
    omega
  | lookalike _ _ _ hs _ ih =>
    subst hs
    apply ih
    all_goals split <;> assumption
  | erase _ _ _ _ _ _ ih => exact ih hd hm hl
  | data _ hc _ hne _ =>
    have := (candidate_bound hd hc).1
    simp only [Found.Fits]
    omega
  | @more s position size _ hc hs =>
    have hlen := delimiterSuffix_more hs
    have hsize : size ≤ s.delimiter.length := by
      simp only [State.candidate] at hc
      split at hc
      · simp only [Option.some.injEq, Prod.mk.injEq, true_and] at hc
        omega
      · obtain ⟨n, _, heq⟩ := Option.map_eq_some_iff.mp hc
        simp only [Prod.mk.injEq] at heq
        omega
    simp only [List.length_drop] at hlen
    simp only [Found.Fits]
    omega
  | normal _ hc hs => exact suffixAt_end (.inl hs) (by simpa using (candidate_bound hd hc).1)
  | final _ hc hs => exact suffixAt_end (.inr hs) (by simpa using (candidate_bound hd hc).1)

def Found.Tells (s : State) (position : ℕ) : Found → Prop
  | .stop => (∀ j, position ≤ j → opening s.options.maxHeaderBytes s.eof s.delimiter (s.buffer.drop j) = .invalid) ∨
      opening s.options.maxHeaderBytes s.eof s.delimiter s.buffer = .more
  | .data count => ∀ j, position ≤ j → j < count →
      j + s.delimiter.length ≤ s.buffer.length ∧
        opening s.options.maxHeaderBytes s.eof s.delimiter (s.buffer.drop j) = .invalid
  | .delimiter false consumed => ∃ length, consumed = s.delimiter.length + length ∧
      opening s.options.maxHeaderBytes s.eof s.delimiter s.buffer = .normal length
  | .delimiter true consumed => ∃ length, consumed = s.delimiter.length + length ∧
      opening s.options.maxHeaderBytes s.eof s.delimiter s.buffer = .final length

lemma candidate_body {size : ℕ} (h : s.candidate false position = some (offset, size)) :
    size = s.delimiter.length ∧ findFrom s.delimiter s.buffer position = some offset := by
  simp only [State.candidate, Bool.false_and, Bool.false_eq_true, ↓reduceIte] at h
  obtain ⟨n, hn, heq⟩ := Option.map_eq_some_iff.mp h
  obtain ⟨rfl, rfl⟩ : n = offset ∧ s.delimiter.length = size := by simpa using heq
  exact ⟨rfl, hn⟩

lemma suffixAt_opening (h : s.delimiter <+: s.buffer.drop offset) :
    s.suffixAt (offset + s.delimiter.length) =
      opening s.options.maxHeaderBytes s.eof s.delimiter (s.buffer.drop offset) := by
  rw [opening_of_starts h, List.drop_drop]
  rfl

lemma Searches.tells {r : State × Found} (h : Searches initial s position r) (hd : s.delimiter ≠ [])
    (hi : initial = false) : r.2.Tells s position := by
  subst hi
  have hnone {s : State} {position : ℕ} (hd : s.delimiter ≠ []) (hc : s.candidate false position = none) (j : ℕ)
      (hj : position ≤ j) : opening s.options.maxHeaderBytes s.eof s.delimiter (s.buffer.drop j) = .invalid := by
    refine opening_of_not_starts (findFrom_none hd ?_ j hj)
    simpa [State.candidate] using hc
  have hfront {s : State} {position size : ℕ} (hc : s.candidate false position = some (0, size)) :
      s.suffixAt size = opening s.options.maxHeaderBytes s.eof s.delimiter s.buffer ∧ size = s.delimiter.length := by
    obtain ⟨rfl, hf⟩ := candidate_body hc
    have := suffixAt_opening (findFrom_some hf).1
    simp only [Nat.zero_add, List.drop_zero] at this
    exact ⟨this, rfl⟩
  induction h with
  | wait hw => simp [State.waits] at hw
  | absent _ hc _ => exact .inl (hnone hd hc)
  | discard _ _ _ hi => cases hi
  | @tail s position _ hc hlen _ =>
    intro j hj hlt
    simp only [State.keep] at hlen hlt
    exact ⟨by omega, hnone hd hc j hj⟩
  | @lookalike s position offset size s' result _ hc hs hs' _ ih =>
    obtain ⟨rfl, hf⟩ := candidate_body hc
    obtain ⟨hp, hbefore⟩ := findFrom_some hf
    have hb := findFrom_bound hd hf
    have hinvalid := suffixAt_opening hp ▸ hs
    simp only [Bool.false_and, Bool.false_eq_true, ↓reduceIte] at hs'
    subst hs'
    have hskip (j : ℕ) (hj : position ≤ j) (hlt : j < offset + 1) :
        opening s'.options.maxHeaderBytes s'.eof s'.delimiter (s'.buffer.drop j) = .invalid := by
      rcases Nat.lt_succ_iff_lt_or_eq.mp hlt with hlt | rfl
      · exact opening_of_not_starts (hbefore j hj hlt)
      · exact hinvalid
    have ih := ih hd
    generalize result.2 = found at ih
    match found with
    | .stop =>
      refine ih.imp_left fun h j hj => ?_
      rcases Nat.lt_or_ge j (offset + 1) with hlt | hge
      · exact hskip j hj hlt
      · exact h j hge
    | .data count =>
      intro j hj hlt
      rcases Nat.lt_or_ge j (offset + 1) with hlt' | hge
      · exact ⟨by omega, hskip j hj hlt'⟩
      · exact ih j hge hlt
    | .delimiter false consumed => exact ih
    | .delimiter true consumed => exact ih
  | erase _ _ _ _ hi => cases hi
  | data _ hc _ _ _ =>
    obtain ⟨rfl, hf⟩ := candidate_body hc
    have hb := findFrom_bound hd hf
    intro j hj hlt
    exact ⟨by omega, opening_of_not_starts ((findFrom_some hf).2 j hj hlt)⟩
  | more _ hc hs =>
    obtain ⟨heq, -⟩ := hfront hc
    exact .inr (heq ▸ hs)
  | normal _ hc hs =>
    obtain ⟨heq, rfl⟩ := hfront hc
    exact ⟨_, rfl, heq ▸ hs⟩
  | final _ hc hs =>
    obtain ⟨heq, rfl⟩ := hfront hc
    exact ⟨_, rfl, heq ▸ hs⟩

lemma Searches.start_same {r : State × Found} (h : Searches initial s position r) (hr : r.1.initialStart = true) :
    r.1 = s := by
  induction h with
  | wait | absent | tail | data | more | normal | final => rfl
  | discard => cases hr
  | lookalike _ _ _ hs' _ ih =>
    have heq := ih hr
    subst hs'
    split at heq
    · rw [heq] at hr
      cases hr
    · exact heq
  | erase _ _ _ _ _ _ ih =>
    rw [ih hr] at hr
    cases hr

lemma Searches.front {r : State × Found} {final : Bool} {consumed : ℕ} (h : Searches initial s position r)
    (hr : r.2 = .delimiter final consumed) :
    ∃ pattern length, (r.1.initialStart = true ∧ pattern = r.1.marker ∨ pattern = r.1.delimiter) ∧
      consumed = pattern.length + length ∧ opening r.1.options.maxHeaderBytes r.1.eof pattern r.1.buffer =
        if final then .final length else .normal length := by
  have hcandidate {s : State} {position size : ℕ} (hc : s.candidate initial position = some (0, size)) :
      ∃ pattern, (s.initialStart = true ∧ pattern = s.marker ∨ pattern = s.delimiter) ∧ size = pattern.length ∧
        s.suffixAt size = opening s.options.maxHeaderBytes s.eof pattern s.buffer := by
    simp only [State.candidate] at hc
    split at hc
    · rename_i hcond
      simp only [Bool.and_eq_true] at hcond
      obtain rfl : s.marker.length = size := by simpa using hc
      exact ⟨s.marker, .inl ⟨hcond.1.2, rfl⟩, rfl, (opening_of_starts (startsWith_iff.mp hcond.2)).symm⟩
    · obtain ⟨n, hn, heq⟩ := Option.map_eq_some_iff.mp hc
      obtain ⟨rfl, rfl⟩ : n = 0 ∧ s.delimiter.length = size := by simpa using heq
      have hp := (findFrom_some hn).1
      rw [List.drop_zero] at hp
      exact ⟨s.delimiter, .inr rfl, rfl, (opening_of_starts hp).symm⟩
  induction h with
  | lookalike _ _ _ _ _ ih | erase _ _ _ _ _ _ ih => exact ih hr
  | @normal s position size length _ hc hs =>
    obtain ⟨pattern, hpattern, rfl, heq⟩ := hcandidate hc
    obtain ⟨rfl, rfl⟩ : false = final ∧ pattern.length + length = consumed := by simpa using hr
    exact ⟨pattern, length, hpattern, rfl, heq ▸ hs⟩
  | @final s position size length _ hc hs =>
    obtain ⟨pattern, hpattern, rfl, heq⟩ := hcandidate hc
    obtain ⟨rfl, rfl⟩ : true = final ∧ pattern.length + length = consumed := by simpa using hr
    exact ⟨pattern, length, hpattern, rfl, heq ▸ hs⟩
  | _ => cases hr

lemma searchFuel_enough (initial : Bool) (hd : s.delimiter ≠ []) :
    Searches initial s 0 (s.search initial s.searchFuel 0) := by
  apply search_searches hd
  simp only [State.turns, State.searchFuel]
  split <;> omega

end Search

end ServerCore.Web.Multipart
