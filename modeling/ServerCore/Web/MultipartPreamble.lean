import ServerCore.Web.MultipartRoundTrip

/-! Preambles: when the parser passes over them unseen. -/

namespace ServerCore.Web.Multipart

open ServerCore.Core ServerCore.Foundations

def marker (value : Bytes) : Bytes := ascii "--" ++ value

def DelimiterLine (value line : Bytes) : Prop :=
  ∃ dashes pad, (dashes = [] ∨ dashes = ascii "--") ∧ Blanks pad ∧ line = marker value ++ (dashes ++ pad)

def LineOf (text line : Bytes) : Prop :=
  ∃ before after, text = before ++ (line ++ after) ∧ (before = [] ∨ crlf <:+ before) ∧ (after = [] ∨ crlf <+: after)

def NoDelimiterLine (value p : Bytes) : Prop := ∀ line, LineOf p line → ¬ DelimiterLine value line

def LookAlike (value p : Bytes) : Prop := marker value <+: p ∨ crlf ++ marker value <:+: p

def Accepted (value : Bytes) (options : Options) (m : Bytes) : Prop :=
  ∃ t, Steps Transfer.step (.start value options m) t ∧ t.ended = some none

/-- The preamble `p` changes nothing: every transfer of `p` and the body can be completed, none
fails, and the events are those of the body alone. -/
def Transparent (value p : Bytes) : Prop :=
  ∀ options m, options.valid = true → StartsWithDelimiter value options m → Accepted value options m →
    (p ++ (crlf ++ m)).length ≤ options.maxTotalBytes →
    ∀ t, Steps Transfer.step (.start value options (p ++ (crlf ++ m))) t →
      (∀ code, t.ended ≠ some (some code)) ∧
      (t.ended = some none → ∀ t', Steps Transfer.step (.start value options m) t' → t'.ended = some none →
        atoms t.events = atoms t'.events) ∧
      ∃ t', Steps Transfer.step t t' ∧ t'.ended = some none

section Plain

variable {value p m : Bytes} {options : Options} {s : State} {rest : Bytes}

-- A suffix of the preamble is ahead, all of it while `initialStart` stands.
def PreambleLead (p m : Bytes) (start : Bool) (buffer rest : Bytes) : Prop :=
  ∃ q, q <:+ p ∧ buffer ++ rest = q ++ (crlf ++ m) ∧ (start = true → q = p)

lemma marker_not_front (hb : boundary value = true) (hl : ¬ marker value <+: p) : ¬ marker value <+: p ++ (crlf ++ m) := by
  intro hp
  rcases Nat.lt_or_ge p.length (marker value).length with hlt | hge
  · -- The line break would stand inside the marker.
    obtain ⟨tail, htail⟩ := hp
    have hget : (marker value ++ tail)[p.length]? = some 13 := by
      rw [htail, List.getElem?_append_right (le_refl _)]
      simp [crlf]
    rw [List.getElem?_append_left hlt] at hget
    exact marker_no_cr hb (List.mem_of_getElem? hget)
  · exact hl (List.prefix_of_prefix_length_le hp (List.prefix_append _ _) hge)

lemma first_delimiter {q : Bytes} (hb : boundary value = true) (hq : ¬ crlf ++ marker value <:+: q)
    (hm : marker value <+: m) {j : ℕ} (hj : j < q.length) : ¬ crlf ++ marker value <+: (q ++ (crlf ++ m)).drop j := by
  intro hp
  obtain ⟨after, rfl⟩ := hm
  have hin := delimiter_within hb hj (by simpa [marker] using hp)
  rw [List.drop_append_of_le_length hj.le] at hp
  have hpre : crlf ++ marker value <+: q.drop j :=
    List.prefix_of_prefix_length_le hp (List.prefix_append _ _) (by
      simp only [List.length_drop, marker]
      omega)
  exact hq (hpre.isInfix.trans (List.drop_suffix j q).isInfix)

lemma body_opening (ho : StartsWithDelimiter value options m) :
    marker value <+: m ∧ ∃ (final : Bool) (length : ℕ),
      opening options.maxHeaderBytes true (marker value) m = (if final then .final length else .normal length) ∧
      opening options.maxHeaderBytes true (crlf ++ marker value) (crlf ++ m) =
        if final then .final length else .normal length := by
  obtain ⟨final, length, hopen⟩ := Suffix.delimits_iff.mp ho
  have hp : marker value <+: m := by
    by_contra hno
    rw [show ascii "--" ++ value = marker value from rfl, opening_of_not_starts hno] at hopen
    cases final <;> cases hopen
  refine ⟨hp, final, length, hopen, ?_⟩
  rw [opening_of_starts ((List.prefix_append_right_inj crlf).mpr hp), ← hopen,
    show ascii "--" ++ value = marker value from rfl, opening_of_starts hp]
  congr 1

lemma lead_opening {q : Bytes} {final : Bool} {length : ℕ} (heof : s.eof = true → rest = [])
    (htext : s.buffer ++ rest = q ++ (crlf ++ m)) (hlen : q.length + (crlf ++ marker value).length ≤ s.buffer.length)
    (ho : opening options.maxHeaderBytes true (crlf ++ marker value) (crlf ++ m) =
      if final then .final length else .normal length) :
    opening options.maxHeaderBytes s.eof (crlf ++ marker value) (s.buffer.drop q.length) = .more ∧ s.eof = false ∨
      opening options.maxHeaderBytes s.eof (crlf ++ marker value) (s.buffer.drop q.length) =
        if final then .final length else .normal length := by
  have hdrop : s.buffer.drop q.length ++ rest = crlf ++ m := by
    rw [← List.drop_append_of_le_length (by omega), htext, List.drop_left]
  by_cases hmore : opening options.maxHeaderBytes s.eof (crlf ++ marker value) (s.buffer.drop q.length) = .more
  · refine .inl ⟨hmore, ?_⟩
    cases he : s.eof with
    | false => rfl
    | true =>
      rw [heof he, List.append_nil] at hdrop
      rw [he, hdrop, ho] at hmore
      cases final <;> cases hmore
  · refine .inr ?_
    rw [← ho, ← hdrop]
    exact (opening_append hmore (by simp only [List.length_drop]; omega) heof).symm

lemma candidate_plain (hb : boundary value = true) (hplain : ¬ LookAlike value p) (hu : s.Untouched value options)
    {q : Bytes} (htext : s.buffer ++ rest = q ++ (crlf ++ m)) (hstart : s.initialStart = true → q = p) :
    s.candidate true 0 = (findFrom (crlf ++ marker value) s.buffer 0).map fun offset =>
      (offset, (crlf ++ marker value).length) := by
  have hnot : (true && s.initialStart && startsWith s.buffer s.marker) = false := by
    rw [Bool.true_and, Bool.and_eq_false_iff]
    by_cases hs : s.initialStart = true
    · right
      by_contra hpre
      have hpre : s.marker <+: s.buffer := startsWith_iff.mp (by simpa using hpre)
      rw [hu.marker] at hpre
      have hfront := hpre.trans (List.prefix_append s.buffer rest)
      rw [htext, hstart hs] at hfront
      exact marker_not_front hb (fun h => hplain (.inl h)) hfront
    · exact .inl (by simpa using hs)
  simp only [State.candidate, hnot, Bool.false_eq_true, ↓reduceIte, hu.delimiter]
  rfl

lemma found_plain (hb : boundary value = true) (hplain : ¬ LookAlike value p) (hm : marker value <+: m) {q : Bytes}
    (hq : q <:+ p) (htext : s.buffer ++ rest = q ++ (crlf ++ m)) {offset : ℕ}
    (hf : findFrom (crlf ++ marker value) s.buffer 0 = some offset) :
    offset = q.length ∧ offset + (crlf ++ marker value).length ≤ s.buffer.length := by
  have hb' := (findFrom_bound (by simp [crlf]) hf).2
  obtain ⟨hp, hbefore⟩ := findFrom_some hf
  refine ⟨?_, hb'⟩
  rcases Nat.lt_trichotomy offset q.length with hlt | heq | hgt
  · have hwhole : crlf ++ marker value <+: (q ++ (crlf ++ m)).drop offset := by
      rw [← htext, List.drop_append_of_le_length (by omega)]
      exact hp.trans (List.prefix_append _ _)
    have hin : ¬ crlf ++ marker value <:+: q := fun h => hplain (.inr (h.trans hq.isInfix))
    exact absurd hwhole (first_delimiter hb hin hm hlt)
  · exact heq
  · have hdrop : s.buffer.drop q.length ++ rest = crlf ++ m := by
      rw [← List.drop_append_of_le_length (by omega), htext, List.drop_left]
    refine absurd ?_ (hbefore q.length (Nat.zero_le _) hgt)
    exact List.prefix_of_prefix_length_le ((List.prefix_append_right_inj crlf).mpr hm)
      (hdrop ▸ List.prefix_append _ _) (by simp only [List.length_drop]; omega)

lemma absent_plain (hm : marker value <+: m) {q : Bytes} (htext : s.buffer ++ rest = q ++ (crlf ++ m))
    (hf : findFrom (crlf ++ marker value) s.buffer 0 = none) :
    s.buffer.length < q.length + (crlf ++ marker value).length := by
  by_contra hge
  have hdrop : s.buffer.drop q.length ++ rest = crlf ++ m := by
    rw [← List.drop_append_of_le_length (by omega), htext, List.drop_left]
  refine findFrom_none (by simp [crlf]) hf q.length (Nat.zero_le _) ?_
  exact List.prefix_of_prefix_length_le ((List.prefix_append_right_inj crlf).mpr hm)
    (hdrop ▸ List.prefix_append _ _) (by simp only [List.length_drop]; omega)

lemma candidate_body_marker (hb : boundary value = true) (hplain : ¬ LookAlike value p) (hm : marker value <+: m)
    (hu : s.Untouched value options) (heof : s.eof = true → rest = []) {q : Bytes} (hq : q <:+ p)
    (htext : s.buffer ++ rest = q ++ (crlf ++ m)) (hstart : s.initialStart = true → q = p) {final : Bool} {length : ℕ}
    (ho : opening options.maxHeaderBytes true (crlf ++ marker value) (crlf ++ m) =
      if final then .final length else .normal length)
    {offset size : ℕ} (hc : s.candidate true 0 = some (offset, size)) :
    offset = q.length ∧ size = (crlf ++ marker value).length ∧ offset + size ≤ s.buffer.length ∧
      (s.suffixAt (offset + size) = .more ∧ s.eof = false ∨
        s.suffixAt (offset + size) = if final then .final length else .normal length) := by
  rw [candidate_plain hb hplain hu htext hstart] at hc
  obtain ⟨n, hn, heq⟩ := Option.map_eq_some_iff.mp hc
  obtain ⟨rfl, rfl⟩ : n = offset ∧ (crlf ++ marker value).length = size := by simpa using heq
  obtain ⟨rfl, hlen⟩ := found_plain hb hplain hm hq htext hn
  have hsuffix := suffixAt_opening (s := s) (by
    rw [hu.delimiter]
    exact (findFrom_some hn).1)
  rw [hu.delimiter, hu.options] at hsuffix
  refine ⟨rfl, rfl, hlen, ?_⟩
  rw [show (crlf ++ marker value).length = (crlf ++ (ascii "--" ++ value)).length from rfl, hsuffix]
  exact lead_opening heof htext hlen ho

def Found.Plain (value p m : Bytes) (options : Options) (rest : Bytes) (s : State) (eof : Bool) : Found → Prop
  | .stop => PreambleLead p m s.initialStart s.buffer rest ∧ eof = false
  | .data _ => False
  | .delimiter final consumed =>
    (({ s.skipPreamble consumed with phase := afterDelimiter final } : State).whole rest).decode = meaning value options m

lemma passed_plain (hu : s.Untouched value options) (htext : s.buffer ++ rest = crlf ++ m) {final : Bool} {length : ℕ}
    (ho : opening options.maxHeaderBytes true (marker value) m = if final then .final length else .normal length)
    (hlen : (crlf ++ marker value).length + length ≤ s.buffer.length) :
    (({ s.skipPreamble ((crlf ++ marker value).length + length) with phase := afterDelimiter final } : State).whole
      rest).decode = meaning value options m := by
  rw [meaning_of_delimiter ho]
  have hbuf : s.buffer.drop ((crlf ++ marker value).length + length) ++ rest =
      m.drop ((ascii "--" ++ value).length + length) := by
    rw [← List.drop_append_of_le_length hlen, htext]
    rw [List.length_append, Nat.add_assoc, ← List.drop_drop, List.drop_left]
    rfl
  simp only [State.whole, State.skipPreamble, State.passDelimiter, State.fresh, hu.options, hu.marker, hu.delimiter,
    hu.file, hu.partBytes, hu.part, hu.files, List.nil_append, hbuf]

lemma search_plain (hb : boundary value = true) (hplain : ¬ LookAlike value p) (ho : StartsWithDelimiter value options m)
    {initial : Bool} {position : ℕ} {r : State × Found} (h : Searches initial s position r) (hi : initial = true)
    (hpos : position = 0) (hu : s.Untouched value options) (heof : s.eof = true → rest = [])
    (hlead : PreambleLead p m s.initialStart s.buffer rest) : r.2.Plain value p m options rest r.1 s.eof := by
  obtain ⟨hm, final, length, hopen, hopen'⟩ := body_opening ho
  have hmarker : (marker value).length ≤ m.length := hm.length_le
  have hfull {s : State} {q : Bytes} (heof : s.eof = true → rest = []) (htext : s.buffer ++ rest = q ++ (crlf ++ m))
      (hshort : s.buffer.length < q.length + (crlf ++ marker value).length) : s.eof = false := by
    cases he : s.eof with
    | false => rfl
    | true =>
      rw [heof he, List.append_nil] at htext
      simp only [htext, List.length_append] at hshort
      omega
  induction h with
  | @wait s position hw =>
    refine ⟨hlead, ?_⟩
    obtain ⟨q, -, htext, -⟩ := hlead
    simp only [State.waits, Bool.and_eq_true, decide_eq_true_eq, hu.marker] at hw
    refine hfull heof htext ?_
    have := hw.1.2
    simp only [marker, List.length_append] at this ⊢
    omega
  | @absent s position _ hc _ =>
    refine ⟨hlead, ?_⟩
    obtain ⟨q, hq, htext, hstart⟩ := hlead
    subst hi hpos
    rw [candidate_plain hb hplain hu htext hstart, Option.map_eq_none_iff] at hc
    exact hfull heof htext (absent_plain hm htext hc)
  | @discard s position _ hc hkeep _ =>
    obtain ⟨q, hq, htext, hstart⟩ := hlead
    subst hi hpos
    rw [candidate_plain hb hplain hu htext hstart, Option.map_eq_none_iff] at hc
    have hshort := absent_plain hm htext hc
    refine ⟨⟨q.drop (s.buffer.length - s.keep), (List.drop_suffix _ _).trans hq, ?_, by simp [State.skipPreamble]⟩,
      hfull heof htext hshort⟩
    have hle : s.buffer.length - s.keep ≤ q.length := by
      simp only [State.keep, hu.delimiter]
      simp only [marker] at hshort
      omega
    simp only [State.skipPreamble]
    rw [← List.drop_append_of_le_length (by omega), htext, List.drop_append_of_le_length hle]
  | tail _ _ _ hf => rw [hi] at hf; cases hf
  | lookalike _ hc hs _ _ _ =>
    obtain ⟨q, hq, htext, hstart⟩ := hlead
    subst hi hpos
    obtain ⟨-, -, -, ⟨hmore, -⟩ | hdecided⟩ := candidate_body_marker hb hplain hm hu heof hq htext hstart hopen' hc
    · rw [hmore] at hs
      cases hs
    · rw [hdecided] at hs
      cases final <;> cases hs
  | erase _ hc _ _ _ _ ih =>
    obtain ⟨q, hq, htext, hstart⟩ := hlead
    subst hi hpos
    obtain ⟨rfl, rfl, hlen, -⟩ := candidate_body_marker hb hplain hm hu heof hq htext hstart hopen' hc
    refine ih rfl { hu with } heof ⟨[], List.nil_suffix, ?_, by simp [State.skipPreamble]⟩
    simp only [State.skipPreamble]
    rw [← List.drop_append_of_le_length (by omega), htext, List.drop_left]
    rfl
  | data _ _ _ _ hf => rw [hi] at hf; cases hf
  | more _ hc hs =>
    refine ⟨hlead, ?_⟩
    obtain ⟨q, hq, htext, hstart⟩ := hlead
    subst hi hpos
    obtain ⟨-, -, -, ⟨-, he⟩ | hdecided⟩ := candidate_body_marker hb hplain hm hu heof hq htext hstart hopen' hc
    · exact he
    · rw [Nat.zero_add, hs] at hdecided
      cases final <;> cases hdecided
  | normal _ hc hs =>
    obtain ⟨q, hq, htext, hstart⟩ := hlead
    subst hi hpos
    obtain ⟨hzero, rfl, hlen, ⟨hmore, -⟩ | hdecided⟩ :=
      candidate_body_marker hb hplain hm hu heof hq htext hstart hopen' hc
    · rw [Nat.zero_add, hs] at hmore
      cases hmore
    · rw [Nat.zero_add, hs] at hdecided
      have hq : q = [] := List.length_eq_zero_iff.mp hzero.symm
      cases final with
      | true => cases hdecided
      | false =>
        obtain rfl := Suffix.normal.inj hdecided
        exact passed_plain hu (by rw [htext, hq]; rfl) hopen (suffixAt_end (.inl hs) (by omega)).2
  | final _ hc hs =>
    obtain ⟨q, hq, htext, hstart⟩ := hlead
    subst hi hpos
    obtain ⟨hzero, rfl, hlen, ⟨hmore, -⟩ | hdecided⟩ :=
      candidate_body_marker hb hplain hm hu heof hq htext hstart hopen' hc
    · rw [Nat.zero_add, hs] at hmore
      cases hmore
    · rw [Nat.zero_add, hs] at hdecided
      have hq : q = [] := List.length_eq_zero_iff.mp hzero.symm
      cases final with
      | false => cases hdecided
      | true =>
        obtain rfl := Suffix.final.inj hdecided
        exact passed_plain hu (by rw [htext, hq]; rfl) hopen (suffixAt_end (.inr hs) (by omega)).2

lemma plain_leads (hb : boundary value = true) (hplain : ¬ LookAlike value p) (ho : StartsWithDelimiter value options m) :
    Leads value options (meaning value options m) (PreambleLead p m) where
  feed := by
    rintro start buffer x rest ⟨q, hq, htext, hstart⟩
    exact ⟨q, hq, by rw [List.append_assoc, htext], hstart⟩
  stop := by
    intro s rest s' hwf hu heof hlead hs
    have hsearch := search_plain hb hplain ho (searchFuel_enough _ hwf.delimiter_ne_nil) rfl rfl hu heof hlead
    rw [hs] at hsearch
    refine ⟨hsearch.1, fun he => ?_⟩
    rw [hsearch.2] at he
    cases he
  delimiter := by
    intro s rest s' final consumed hwf hu heof hlead hs
    have hsearch := search_plain hb hplain ho (searchFuel_enough _ hwf.delimiter_ne_nil) rfl rfl hu heof hlead
    rw [hs] at hsearch
    exact hsearch

lemma transparent_of_plain (hb : boundary value = true) (hplain : ¬ LookAlike value p) : Transparent value p := by
  intro options m hv ho ⟨t₀, ht₀, hend₀⟩ htotal t ht
  have hl := plain_leads hb hplain ho
  have hbody (t' : Transfer) (ht' : Steps Transfer.step (.start value options m) t') (hend : t'.ended = some none) :
      meaning value options m = some (atoms t'.events) :=
    ((steps_follows (open_leads ho) (follows_start hv hb ⟨rfl, rfl⟩) ht').outcome hend).2 rfl
  have hf := steps_follows hl (follows_start hv hb ⟨p, List.suffix_refl p, rfl, fun _ => rfl⟩) ht
  have hgood {t' : Transfer} (hf' : t'.Follows value options (meaning value options m) (PreambleLead p m)
      (p ++ (crlf ++ m)).length) (code : ErrorCode) : t'.ended ≠ some (some code) := by
    intro hend
    have hbad := (hf'.outcome hend).1.mp rfl
    rw [hbody t₀ ht₀ hend₀] at hbad
    rcases hbad with hbad | hbad
    · cases hbad
    · omega
  refine ⟨hgood hf, fun hend t' ht' hend' => ?_, ?_⟩
  · have := (hf.outcome hend).2 rfl
    rw [hbody t' ht' hend', Option.some.injEq] at this
    exact this.symm
  · obtain ⟨t', hs, hend⟩ := transfer_progress hl hf
    refine ⟨t', hs, ?_⟩
    obtain ⟨result, hresult⟩ := Option.isSome_iff_exists.mp hend
    cases result with
    | none => exact hresult
    | some code => exact absurd hresult (hgood (steps_follows hl hf hs) code)

end Plain

section Stale

def closing : Bytes := ascii "--" ++ crlf

variable {value p : Bytes}

lemma suffix_of_no_line {w : Bytes} (before : Bytes) (hp : p = before ++ (marker value ++ w))
    (hbefore : before = [] ∨ crlf <:+ before) (hno : NoDelimiterLine value p) (limit : ℕ) (tail : Bytes) :
    delimiterSuffix limit false (w ++ (crlf ++ tail)) = .invalid := by
  have hline := delimiterSuffix_line limit w
  rw [← List.append_assoc, delimiterSuffix_resume hline (by simp)]
  cases hs : delimiterSuffix limit false (w ++ crlf) with
  | invalid => rfl
  | more => exact absurd hs hline
  | normal n | final n =>
    exfalso
    have hfound : delimiterSuffix limit false (w ++ crlf) = .normal n ∨ delimiterSuffix limit false (w ++ crlf) = .final n := by
      rw [hs]
      simp
    obtain ⟨dashes, pad, rest, hd, hpad, heq⟩ := delimiterSuffix_grammar hfound
    have hcr : (13 : Byte) ∉ dashes ++ pad := by
      simp only [List.mem_append, not_or]
      refine ⟨?_, blanks_not_mem hpad (by decide)⟩
      rcases hd with rfl | rfl <;> decide
    rw [← List.append_assoc] at heq
    have hle : (dashes ++ pad).length ≤ w.length := by
      by_contra hlt
      have hget : (w ++ crlf)[w.length]? = some 13 := by
        rw [List.getElem?_append_right (le_refl _)]
        simp [crlf]
      rw [heq, List.getElem?_append_left (by omega)] at hget
      exact hcr (List.mem_of_getElem? hget)
    have hpre : dashes ++ pad <+: w ++ crlf := by
      rw [heq]
      exact List.prefix_append _ _
    obtain ⟨after, hafter⟩ : dashes ++ pad <+: w :=
      List.prefix_of_prefix_length_le hpre (List.prefix_append _ _) hle
    have hrest : after ++ crlf = crlf ++ rest := by
      rw [← hafter, List.append_assoc] at heq
      exact List.append_cancel_left heq
    refine hno (marker value ++ (dashes ++ pad)) ⟨before, after, ?_, hbefore, ?_⟩ ⟨dashes, pad, hd, hpad, rfl⟩
    · rw [hp, ← hafter]
      simp
    · rcases after with _ | ⟨b, _ | ⟨c, after⟩⟩
      · exact .inl rfl
      · simp [crlf] at hrest
      · obtain ⟨rfl, rfl, -⟩ : b = 13 ∧ c = 10 ∧ _ := by simpa [crlf] using hrest
        exact .inr ⟨after, rfl⟩

def OnlyLookAlikes (value : Bytes) (limit : ℕ) (q : Bytes) : Prop :=
  ∀ j < q.length, crlf ++ marker value <+: (q ++ (crlf ++ (marker value ++ closing))).drop j →
    delimiterSuffix limit false ((q ++ (crlf ++ (marker value ++ closing))).drop (j + (crlf ++ marker value).length)) =
      .invalid

lemma onlyLookAlikes_nil (limit : ℕ) : OnlyLookAlikes value limit [] := fun j hj => by simp at hj

lemma onlyLookAlikes_preamble (hb : boundary value = true) (hno : NoDelimiterLine value p) (limit : ℕ) :
    OnlyLookAlikes value limit p := by
  intro j hj hp
  have hin := delimiter_within hb hj (by simpa [marker] using hp)
  have hin' : j + (crlf ++ marker value).length ≤ p.length := hin
  rw [List.drop_append_of_le_length hj.le] at hp
  obtain ⟨w, hw⟩ : crlf ++ marker value <+: p.drop j :=
    List.prefix_of_prefix_length_le hp (List.prefix_append _ _) (by simp only [List.length_drop]; omega)
  have hsplit : p = (p.take j ++ crlf) ++ (marker value ++ w) := by
    calc p = p.take j ++ p.drop j := (List.take_append_drop j p).symm
      _ = p.take j ++ (crlf ++ marker value ++ w) := by rw [hw]
      _ = _ := by simp
  have hdrop : p.drop (j + (crlf ++ marker value).length) = w := by
    rw [← List.drop_drop, ← hw, List.drop_left]
  rw [List.drop_append_of_le_length hin', hdrop]
  exact suffix_of_no_line (p.take j ++ crlf) hsplit (.inr (List.suffix_append _ _)) hno limit _

lemma no_later_delimiter {q : Bytes} (hb : boundary value = true) {j : ℕ} (hj : q.length < j) :
    ¬ crlf ++ marker value <+: (q ++ (crlf ++ (marker value ++ closing))).drop j := by
  intro hp
  have hdash : (ascii "--").length = 2 := by decide
  have hlen := hp.length_le
  obtain ⟨k, rfl⟩ : ∃ k, j = q.length + (k + 1) := ⟨j - q.length - 1, by omega⟩
  rw [List.drop_append, Nat.add_sub_cancel_left, List.drop_eq_nil_of_le (by omega), List.nil_append] at hp hlen
  simp only [closing, crlf, marker, List.length_drop, List.length_append, List.length_cons, List.length_nil, hdash] at hlen
  have hget : ((crlf ++ (marker value ++ closing)).drop (k + 1))[0]? = some 13 := by
    obtain ⟨tail, htail⟩ := hp
    rw [← htail]
    rfl
  rw [List.getElem?_drop] at hget
  have hshort : (crlf ++ (marker value ++ closing)) = 13 :: ((10 :: (marker value ++ ascii "--")) ++ crlf) := by
    simp [crlf, closing]
  rw [hshort, Nat.add_zero, List.getElem?_cons_succ, List.getElem?_append_left (by
    simp only [List.length_cons, List.length_append, marker, hdash]
    omega)] at hget
  have hmem := List.mem_of_getElem? hget
  simp only [List.mem_cons, List.mem_append] at hmem
  rcases hmem with h | h | h
  · exact absurd h (by decide)
  · exact marker_no_cr hb h
  · exact absurd h (by decide)

lemma search_stale (hb : boundary value = true) {options : Options} {s : State} {initial : Bool} {position : ℕ}
    {r : State × Found} (h : Searches initial s position r) (hi : initial = true) (hpos : 0 < position)
    (hu : s.Untouched value options) (heof : s.eof = false) {q : Bytes}
    (hq : OnlyLookAlikes value options.maxHeaderBytes q)
    (hbuf : s.buffer = q ++ (crlf ++ (marker value ++ closing)))
    (hstart : s.initialStart = true → ¬ s.marker <+: s.buffer) :
    r.2 = .stop ∧ r.1 = { s with buffer := marker value ++ closing, initialStart := false } := by
  have hdash : (ascii "--").length = 2 := by decide
  have hdelim {s : State} (hu : s.Untouched value options) : s.delimiter = crlf ++ marker value := hu.delimiter
  have hfind {s : State} {position offset size : ℕ} (hu : s.Untouched value options)
      (hstart : s.initialStart = true → ¬ s.marker <+: s.buffer)
      (hc : s.candidate true position = some (offset, size)) :
      size = s.delimiter.length ∧ findFrom s.delimiter s.buffer position = some offset := by
    have hnot : (true && s.initialStart && startsWith s.buffer s.marker) = false := by
      rw [Bool.true_and, Bool.and_eq_false_iff]
      by_cases hs : s.initialStart = true
      · right
        by_contra hpre
        exact hstart hs (startsWith_iff.mp (by simpa using hpre))
      · exact .inl (by simpa using hs)
    simp only [State.candidate, hnot, Bool.false_eq_true, ↓reduceIte] at hc
    obtain ⟨n, hn, heq⟩ := Option.map_eq_some_iff.mp hc
    obtain ⟨rfl, rfl⟩ : n = offset ∧ s.delimiter.length = size := by simpa using heq
    exact ⟨rfl, hn⟩
  have hzero {s : State} {position size : ℕ} (hpos : 0 < position) (hu : s.Untouched value options)
      (hstart : s.initialStart = true → ¬ s.marker <+: s.buffer) : s.candidate true position ≠ some (0, size) := by
    intro hc
    have := (findFrom_bound (by rw [hdelim hu]; simp [crlf]) (hfind hu hstart hc).2).1
    omega
  induction h generalizing q with
  | wait hw =>
    simp only [State.waits, Bool.and_eq_true, decide_eq_true_eq, hu.marker, hbuf, List.length_append, marker] at hw
    omega
  | absent _ _ hlen =>
    simp only [State.keep, hdelim hu, hbuf, closing, crlf, List.length_append, List.length_cons, List.length_nil, hdash] at hlen
    omega
  | @discard s position _ _ _ _ =>
    refine ⟨rfl, ?_⟩
    have hdrop : s.buffer.drop (s.buffer.length - s.keep) = marker value ++ closing := by
      have hlen : s.buffer.length - s.keep = (q ++ crlf).length := by
        simp only [State.keep, hdelim hu, hbuf, closing, crlf, List.length_append, List.length_cons, List.length_nil, hdash]
        omega
      rw [hlen, hbuf, ← List.append_assoc, List.drop_left]
    simp only [State.skipPreamble, hdrop]
  | tail _ _ _ hf => rw [hi] at hf; cases hf
  | @lookalike s position offset size s' result _ hc hs hs' _ ih =>
    subst hi
    have hkeep : s' = s ∨ s' = { s with initialStart := false } := by
      rw [hs']
      split
      · exact .inr rfl
      · exact .inl rfl
    rcases hkeep with rfl | rfl
    · exact ih (Nat.succ_pos _) hu heof hq hbuf hstart
    · obtain ⟨h₁, h₂⟩ := ih (Nat.succ_pos _) { hu with } heof hq hbuf (by simp)
      exact ⟨h₁, h₂⟩
  | @erase s position offset size result _ hc hs hne _ _ ih =>
    subst hi
    obtain ⟨rfl, hf⟩ := hfind hu hstart hc
    obtain ⟨hp, -⟩ := findFrom_some hf
    have hb' := (findFrom_bound (by rw [hdelim hu]; simp [crlf]) hf).2
    have hoffset : offset = q.length := by
      rw [hdelim hu, hbuf] at hp
      rcases Nat.lt_trichotomy offset q.length with hlt | heq | hgt
      · have hinv := hq offset hlt hp
        rw [State.suffixAt, hu.options, heof, hdelim hu, hbuf, hinv] at hs
        exact absurd rfl hs
      · exact heq
      · exact absurd hp (no_later_delimiter hb hgt)
    have hdrop : (s.skipPreamble offset).buffer = [] ++ (crlf ++ (marker value ++ closing)) := by
      simp only [State.skipPreamble, hbuf, hoffset, List.drop_left, List.nil_append]
    obtain ⟨h₁, h₂⟩ := ih hpos { hu with } heof (onlyLookAlikes_nil _) hdrop (by simp [State.skipPreamble])
    exact ⟨h₁, h₂⟩
  | data _ _ _ _ hf => rw [hi] at hf; cases hf
  | more _ hc _ | normal _ hc _ | final _ hc _ =>
    subst hi
    exact absurd hc (hzero hpos hu hstart)

lemma first_lookalike (hb : boundary value = true) {options : Options} {s : State} (hu : s.Untouched value options)
    (heof : s.eof = false) (hstart : s.initialStart = true) (hbuf : s.buffer = p ++ (crlf ++ (marker value ++ closing)))
    (hlook : LookAlike value p) (hno : NoDelimiterLine value p) {offset size : ℕ}
    (hc : s.candidate true 0 = some (offset, size)) : s.suffixAt (offset + size) = .invalid := by
  rw [State.suffixAt, hu.options, heof]
  simp only [State.candidate, hstart, Bool.and_self, Bool.true_and] at hc
  split at hc
  · rename_i hfront
    obtain ⟨rfl, rfl⟩ : 0 = offset ∧ s.marker.length = size := by simpa using hc
    have hp : marker value <+: p := by
      by_contra hnot
      have := startsWith_iff.mp hfront
      rw [hu.marker, hbuf] at this
      exact marker_not_front hb hnot this
    obtain ⟨w, rfl⟩ := hp
    rw [Nat.zero_add, hu.marker, hbuf, show ascii "--" ++ value = marker value from rfl, List.append_assoc, List.drop_left]
    exact suffix_of_no_line [] rfl (.inl rfl) hno _ _
  · rename_i hfront
    obtain ⟨n, hn, heq⟩ := Option.map_eq_some_iff.mp hc
    obtain ⟨rfl, rfl⟩ : n = offset ∧ s.delimiter.length = size := by simpa using heq
    have hnot : ¬ marker value <+: p := by
      rintro ⟨w, rfl⟩
      apply hfront
      rw [startsWith_iff, hu.marker, hbuf, List.append_assoc]
      exact List.prefix_append _ _
    obtain ⟨a, c, hac⟩ := hlook.resolve_left hnot
    obtain ⟨hpre, hbefore⟩ := findFrom_some hn
    rw [hu.delimiter, hbuf] at hpre hbefore
    have hlt : n < p.length := by
      by_contra hge
      have hlen : a.length < p.length := by
        rw [← hac]
        simp only [List.length_append, crlf, List.length_cons, List.length_nil]
        omega
      refine hbefore a.length (Nat.zero_le _) (by omega) ?_
      rw [← hac, List.append_assoc, List.append_assoc, List.drop_left]
      exact List.prefix_append _ _
    have hinv := onlyLookAlikes_preamble hb hno options.maxHeaderBytes n hlt hpre
    rw [hu.delimiter, hbuf]
    exact hinv

lemma search_lookalike (hb : boundary value = true) {options : Options} {s : State} (hu : s.Untouched value options)
    (heof : s.eof = false) (hstart : s.initialStart = true) (hbuf : s.buffer = p ++ (crlf ++ (marker value ++ closing)))
    (hlook : LookAlike value p) (hno : NoDelimiterLine value p) :
    s.search true s.searchFuel 0 = ({ s with buffer := marker value ++ closing, initialStart := false }, .stop) := by
  have hdash : (ascii "--").length = 2 := by decide
  have hd : s.delimiter ≠ [] := by
    rw [hu.delimiter]
    simp [crlf]
  have hfirst {offset size : ℕ} (hc : s.candidate true 0 = some (offset, size)) :
      s.suffixAt (offset + size) = .invalid := first_lookalike hb hu heof hstart hbuf hlook hno hc
  have hsearches := searchFuel_enough true (s := s) hd
  generalize s.search true s.searchFuel 0 = r at hsearches
  cases hsearches with
  | wait hw =>
    simp only [State.waits, Bool.and_eq_true, decide_eq_true_eq, hu.marker, hbuf, List.length_append, marker] at hw
    omega
  | absent _ _ hlen =>
    simp only [State.keep, hu.delimiter, hbuf, closing, marker, crlf, List.length_append, List.length_cons, List.length_nil,
      hdash] at hlen
    omega
  | discard _ _ _ _ =>
    have hdrop : s.buffer.drop (s.buffer.length - s.keep) = marker value ++ closing := by
      have hlen : s.buffer.length - s.keep = (p ++ crlf).length := by
        simp only [State.keep, hu.delimiter, hbuf, closing, marker, crlf, List.length_append, List.length_cons,
          List.length_nil, hdash]
        omega
      rw [hlen, hbuf, ← List.append_assoc, List.drop_left]
    simp only [State.skipPreamble, hdrop]
  | tail _ _ _ hf => cases hf
  | @lookalike _ _ offset size s' _ _ hc hs hs' hrest =>
    have hq := onlyLookAlikes_preamble hb hno options.maxHeaderBytes
    by_cases hzero : offset = 0
    · simp only [hzero, hstart, Bool.and_self, beq_self_eq_true, ↓reduceIte] at hs'
      subst hs'
      obtain ⟨h₁, h₂⟩ := search_stale hb hrest rfl (Nat.succ_pos _) { hu with } heof hq hbuf (by simp)
      exact Prod.ext h₂ h₁
    · have hcond : (true && s.initialStart && offset == 0) = false := by simp [hzero]
      simp only [hcond, Bool.false_eq_true, ↓reduceIte] at hs'
      subst hs'
      obtain ⟨h₁, h₂⟩ := search_stale hb hrest rfl (Nat.succ_pos _) hu heof hq hbuf (by
        intro _ hp
        have : s'.candidate true 0 = some (0, s'.marker.length) := by
          simp [State.candidate, hstart, startsWith_iff.mpr hp]
        rw [this] at hc
        simp only [Option.some.injEq, Prod.mk.injEq] at hc
        exact hzero hc.1.symm)
      exact Prod.ext h₂ h₁
  | erase _ hc hs _ _ _ => exact absurd (hfirst hc) hs
  | data _ _ _ _ hf => cases hf
  | more _ hc hs | normal _ hc hs | final _ hc hs =>
    have := hfirst hc
    rw [Nat.zero_add, hs] at this
    cases this

def roomy (n : ℕ) : Options where
  maxParts := 1
  maxFiles := 1
  maxHeaders := 1
  maxHeaderBytes := 200
  maxPartBytes := 1
  maxFileBytes := 1
  maxTotalBytes := n + 1
  maxRetainedBytes := n + 1000
  maxEventBytes := 1

lemma roomy_valid (n : ℕ) : (roomy n).valid = true := by
  have hmodulus : 200 ≤ (sizeModulus - 1 - 80) / 2 := by
    rw [sizeModulus]
    omega
  simp only [Options.valid, Bool.not_eq_true', Bool.or_eq_false_iff, decide_eq_false_iff_not]
  simp only [roomy]
  omega

lemma closing_opens (n : ℕ) : opening (roomy n).maxHeaderBytes true (marker value) (marker value ++ closing) = .final 4 := by
  rw [opening_of_starts (List.prefix_append _ _), List.drop_left]
  have : closing = [45, 45, 13, 10] := by decide
  rw [this]
  simp [delimiterSuffix, paddingSuffix, roomy, isBlank, List.takeWhile, List.dropWhile]

lemma closing_accepted (hb : boundary value = true) (n : ℕ) (hn : (marker value ++ closing).length ≤ n) :
    StartsWithDelimiter value (roomy n) (marker value ++ closing) ∧ Accepted value (roomy n) (marker value ++ closing) := by
  have ho : StartsWithDelimiter value (roomy n) (marker value ++ closing) :=
    Suffix.delimits_iff.mpr ⟨true, 4, closing_opens n⟩
  refine ⟨ho, ?_⟩
  have hf : (Transfer.start value (roomy n) (marker value ++ closing)).Follows value (roomy n)
      (meaning value (roomy n) (marker value ++ closing)) (OpenLead (marker value ++ closing))
      (marker value ++ closing).length :=
    follows_start (roomy_valid n) hb ⟨rfl, rfl⟩
  obtain ⟨t, hs, hend⟩ := transfer_progress (open_leads ho) hf
  refine ⟨t, hs, ?_⟩
  obtain ⟨result, hresult⟩ := Option.isSome_iff_exists.mp hend
  have hout := ((steps_follows (open_leads ho) hf hs).outcome hresult).1
  have hm : meaning value (roomy n) (marker value ++ closing) = some [] := by
    rw [meaning_of_delimiter (b := true) (closing_opens n)]
    exact WholeDecoder.decode_done rfl
  rw [hm] at hout
  cases result with
  | none => exact hresult
  | some code =>
    have htotal : (roomy n).maxTotalBytes = n + 1 := rfl
    simp only [Option.isSome_some, reduceCtorEq, htotal, false_or, true_iff] at hout
    omega

lemma lookalike_fails (hb : boundary value = true) (hlook : LookAlike value p) (hno : NoDelimiterLine value p) :
    ∃ t, Steps Transfer.step
      (.start value (roomy (p ++ (crlf ++ (marker value ++ closing))).length) (p ++ (crlf ++ (marker value ++ closing)))) t ∧
        t.ended = some (some .invalidFormat) := by
  set text := p ++ (crlf ++ (marker value ++ closing)) with htext
  set options := roomy text.length with hoptions
  have hdash : (ascii "--").length = 2 := by decide
  have hne : text.isEmpty = false := by simp [htext, crlf]
  set s₀ : State := .fresh value options with hs₀
  have hwf : s₀.Wf := .fresh (roomy_valid _) hb
  have hfeed : s₀.feed (text.take text.length) = ({ s₀ with buffer := text, total := text.length }, .ok text.length) := by
    obtain ⟨h₁, h₂, h₃, h₄⟩ := hwf.feedExact
    simp only [State.feed, sizeSub_eq h₁, sizeSub_eq h₃, sizeSub_eq h₄, List.take_length]
    rw [State.inputLimit, sizeSub_eq h₂]
    simp only [hs₀, State.fresh, hoptions, roomy, State.retained, hne, List.length_nil, Bool.false_eq_true, ↓reduceIte,
      List.nil_append]
    have hmin : min (min text.length (text.length + 1000 - (0 + 0))) (text.length + 1000 - 200 - 0) = text.length := by omega
    have hpos : text.length ≠ 0 := by simpa using hne
    rw [if_neg (by omega), hmin, if_neg hpos, List.take_length, Nat.zero_add]
  set s₁ : State := { s₀ with buffer := text, total := text.length } with hs₁
  have hu₁ : s₁.Untouched value options := by constructor <;> rfl
  have hsearch₁ := search_lookalike hb hu₁ rfl rfl (p := p) htext hlook hno
  set s₂ : State := { s₁ with buffer := marker value ++ closing, initialStart := false } with hs₂
  have hread₁ : s₁.read = (s₂, .error .wouldBlock) := by
    rw [read_initial_stop rfl rfl hsearch₁]
    rfl
  set s₃ : State := { s₂ with eof := true } with hs₃
  have hu₃ : s₃.Untouched value options := by constructor <;> rfl
  have hsearch₂ : s₃.search true s₃.searchFuel 0 = (s₃, .stop) := by
    have hwaits : s₃.waits true = false := rfl
    have hcand : s₃.candidate true 0 = none := by
      have hnone : findFrom s₃.delimiter s₃.buffer 0 = none := by
        simp only [findFrom, List.drop_zero, Option.map_eq_none_iff]
        apply find_eq_none
        intro j _ hp
        exact no_later_delimiter (q := []) (j := j + 2) hb (by simp) (by
          have hp' : crlf ++ marker value <+: (marker value ++ closing).drop j := hp
          simpa [crlf] using hp')
      have hc : s₃.candidate true 0 = (findFrom s₃.delimiter s₃.buffer 0).map fun offset => (offset, s₃.delimiter.length) := rfl
      rw [hc, hnone]
      rfl
    have hlen : ¬ s₃.buffer.length > s₃.keep := by
      simp only [State.keep, hu₃.delimiter]
      simp only [hs₃, hs₂, marker, closing, crlf, List.length_append, List.length_cons, List.length_nil, hdash]
      omega
    rw [State.searchFuel, State.search]
    simp only [hwaits, hcand, hlen, Bool.false_eq_true, ↓reduceIte]
  have hread₂ : s₃.read = (s₃.failWith .invalidFormat, .error .invalidFormat) := by
    rw [read_initial_stop rfl rfl hsearch₂]
    rfl
  refine ⟨{ parser := s₃.failWith .invalidFormat, input := [], ended := some (some .invalidFormat) },
    .trans (.single (e := .feed text.length) (t := { parser := s₁, input := [] }) ?_)
      (.trans (.single (e := .read) (t := { parser := s₂, input := [] }) ?_)
        (.trans (.single (e := .finish) (t := { parser := s₃, input := [] }) ?_) (.single (e := .read) ?_))), rfl⟩
  · have heof : s₀.eof = false := rfl
    simp only [Transfer.step, Transfer.start, Transfer.feed, ← hs₀, heof, hfeed]
    simp
  · simp only [Transfer.step, Transfer.read, hread₁]
    rfl
  · rfl
  · simp only [Transfer.step, Transfer.read, hread₂]
    rfl

end Stale

/-- A preamble without delimiter lines is passed over unseen exactly when nothing in it looks
like a marker. -/
theorem preamble_transparent_iff {value p : Bytes} (hb : boundary value = true) (hno : NoDelimiterLine value p) :
    Transparent value p ↔ ¬ LookAlike value p := by
  refine ⟨fun ht hlook => ?_, transparent_of_plain hb⟩
  obtain ⟨ho, ha⟩ := closing_accepted hb (p ++ (crlf ++ (marker value ++ closing))).length (by
    simp only [List.length_append]
    omega)
  obtain ⟨t, hs, hend⟩ := lookalike_fails hb hlook hno
  exact (ht _ _ (roomy_valid _) ho ha (Nat.le_succ _) t hs).1 _ hend

lemma noDelimiterLine_of_plain {value p : Bytes} (h : ¬ LookAlike value p) : NoDelimiterLine value p := by
  rintro line ⟨before, after, rfl, hbefore, -⟩ ⟨dashes, pad, -, -, rfl⟩
  apply h
  rcases hbefore with rfl | ⟨front, rfl⟩
  · exact .inl ⟨(dashes ++ pad) ++ after, by simp⟩
  · exact .inr ⟨front, (dashes ++ pad) ++ after, by simp⟩

theorem preamble_transparent_hello : Transparent (ascii "b") (ascii "hello --b") := by
  have hb : boundary (ascii "b") = true := by decide
  have hlook : ¬ LookAlike (ascii "b") (ascii "hello --b") := by
    rintro (h | h)
    · exact absurd h (by decide)
    · exact absurd h (by decide)
  exact (preamble_transparent_iff hb (noDelimiterLine_of_plain hlook)).mpr hlook

def plainBody : Bytes := ascii "--b\r\nContent-Disposition: form-data; name=\"a\"\r\n\r\nx\r\n--b--\r\n"

lemma noDelimiterLine_lookalike : NoDelimiterLine (ascii "b") (ascii "--bX") := by
  rintro line ⟨before, after, heq, hbefore, hafter⟩ ⟨dashes, pad, hd, hpad, rfl⟩
  have htext : ascii "--bX" = [45, 45, 98, 88] := by decide
  have hmarker : marker (ascii "b") = [45, 45, 98] := by decide
  have hcr : (13 : Byte) ∉ ascii "--bX" := by decide
  rcases hbefore with rfl | ⟨front, rfl⟩
  · rw [htext, hmarker] at heq
    simp only [List.nil_append, List.cons_append, List.cons.injEq, true_and] at heq
    rcases hd with rfl | rfl
    · cases pad with
      | nil =>
        rcases hafter with rfl | ⟨tail, rfl⟩
        · simp at heq
        · simp [crlf] at heq
      | cons c pad =>
        simp only [List.nil_append, List.cons_append, List.cons.injEq] at heq
        exact absurd (hpad c (by simp)) (by rw [← heq.1]; decide)
    · rw [show ascii "--" = [45, 45] by decide] at heq
      simp at heq
  · apply hcr
    rw [heq]
    simp [crlf]

/-- Behind the look-alike `--bX` the delimiter of the body is lost with its part. -/
theorem preamble_lost :
    NoDelimiterLine (ascii "b") (ascii "--bX") ∧ StartsWithDelimiter (ascii "b") (roomy 200) plainBody ∧
      (∃ t, Steps Transfer.step (.start (ascii "b") (roomy 200) plainBody) t ∧ t.ended = some none ∧
        t.events.length = 3) ∧
      ∃ t, Steps Transfer.step (.start (ascii "b") (roomy 200) (ascii "--bX" ++ (crlf ++ plainBody))) t ∧
        t.ended = some (some .invalidFormat) ∧ t.events.length = 0 := by
  have halone : (run Transfer.step (.start (ascii "b") (roomy 200) plainBody)
      [.feed 200, .read, .release, .read, .release, .read, .release, .finish, .read]).map
        (fun t => (t.ended, t.events.length)) = some (some none, 3) := by
    decide +kernel
  have hlost : (run Transfer.step (.start (ascii "b") (roomy 200) (ascii "--bX" ++ (crlf ++ plainBody)))
      [.feed 200, .read, .finish, .read]).map (fun t => (t.ended, t.events.length)) =
        some (some (some .invalidFormat), 0) := by
    decide +kernel
  obtain ⟨t, ht, heq⟩ := Option.map_eq_some_iff.mp halone
  obtain ⟨t', ht', heq'⟩ := Option.map_eq_some_iff.mp hlost
  have hopen : StartsWithDelimiter (ascii "b") (roomy 200) plainBody := by
    unfold StartsWithDelimiter
    decide +kernel
  simp only [Prod.mk.injEq] at heq heq'
  exact ⟨noDelimiterLine_lookalike, hopen, ⟨t, ⟨_, ht⟩, heq.1, heq.2⟩, t', ⟨_, ht'⟩, heq'.1, heq'.2⟩

end ServerCore.Web.Multipart
