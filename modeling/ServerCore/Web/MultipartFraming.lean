import ServerCore.Web.MultipartTransfer

/-! Texts without preamble: however they are cut, their transfers end alike. -/

namespace ServerCore.Web.Multipart

open ServerCore.Core ServerCore.Foundations

def Suffix.delimits : Suffix → Bool
  | .normal _ => true
  | .final _ => true
  | _ => false

def StartsWithDelimiter (value : Bytes) (options : Options) (text : Bytes) : Prop :=
  (opening options.maxHeaderBytes true (ascii "--" ++ value) text).delimits = true

def ContainsDelimiter (value : Bytes) (options : Options) (text : Bytes) : Prop :=
  ∃ j, (opening options.maxHeaderBytes true (crlf ++ (ascii "--" ++ value)) (text.drop j)).delimits = true

def NoPreamble (value : Bytes) (options : Options) (text : Bytes) : Prop :=
  StartsWithDelimiter value options text ∨ ¬ ContainsDelimiter value options text

def meaning (value : Bytes) (options : Options) (text : Bytes) : Option (List Atom) :=
  ((State.fresh value options).whole text).decode

variable {value : Bytes} {options : Options} {text : Bytes} {s s' : State} {rest : Bytes}

lemma Suffix.delimits_iff {suffix : Suffix} :
    suffix.delimits = true ↔ ∃ (final : Bool) (length : ℕ), suffix = if final then .final length else .normal length := by
  constructor
  · intro h
    cases suffix with
    | normal length => exact ⟨false, length, rfl⟩
    | final length => exact ⟨true, length, rfl⟩
    | more => cases h
    | invalid => cases h
  · rintro ⟨final, length, rfl⟩
    cases final <;> rfl

lemma passDelimiter_whole (hu : s.Untouched value options) (htext : s.buffer ++ rest = text) {final : Bool}
    {consumed : ℕ} (hc : consumed ≤ s.buffer.length) :
    ({ s.skipPreamble consumed with phase := afterDelimiter final } : State).whole rest =
      ((State.fresh value options).whole text).passDelimiter final consumed := by
  simp only [State.whole, State.skipPreamble, State.passDelimiter, State.fresh, hu.options, hu.marker, hu.delimiter,
    hu.file, hu.partBytes, hu.part, hu.files, ← htext, List.nil_append, drop_append_rest hc]

lemma meaning_of_delimiter {b : Bool} {length : ℕ}
    (ho : opening options.maxHeaderBytes true (ascii "--" ++ value) text = if b then .final length else .normal length) :
    meaning value options text = (((State.fresh value options).whole text).passDelimiter b
      ((ascii "--" ++ value).length + length)).decode := by
  have hnext : ((State.fresh value options).whole text).next =
      .go [] (((State.fresh value options).whole text).passDelimiter b ((ascii "--" ++ value).length + length)) := by
    have hp : ((State.fresh value options).whole text).phase = .initial := rfl
    have ho' : opening ((State.fresh value options).whole text).options.maxHeaderBytes true
        ((State.fresh value options).whole text).marker ((State.fresh value options).whole text).buffer =
        if b then .final length else .normal length := ho
    simp only [State.next, hp, ho']
    cases b <;> rfl
  rw [meaning, decode_next hnext]
  simp

section Open

def OpenLead (text : Bytes) (start : Bool) (buffer rest : Bytes) : Prop := start = true ∧ buffer ++ rest = text

lemma waits_of_short (hstart : s.initialStart = true) (hlen : s.buffer.length < s.marker.length)
    (hp : s.buffer <+: s.marker) : s.waits true = true := by
  simp only [State.waits, hstart, hlen, Bool.and_self, decide_true, Bool.true_and]
  exact startsWith_iff.mpr hp

lemma search_start (hw : s.waits true = false) (hstart : s.initialStart = true) (hp : s.marker <+: s.buffer) :
    s.search true s.searchFuel 0 =
      match s.suffixAt s.marker.length with
      | .invalid => State.search true (3 * s.buffer.length + 3) { s with initialStart := false } 1
      | .normal length => (s, .delimiter false (s.marker.length + length))
      | .final length => (s, .delimiter true (s.marker.length + length))
      | .more => (s, .stop) := by
  have hc : s.candidate true 0 = some (0, s.marker.length) := by
    simp [State.candidate, hstart, startsWith_iff.mpr hp]
  rw [State.searchFuel, State.search]
  simp only [hw, hc, Nat.zero_add, Bool.false_eq_true, ↓reduceIte]
  cases s.suffixAt s.marker.length <;> simp [hstart]

lemma search_open (hu : s.Untouched value options) (hstart : s.initialStart = true) (htext : s.buffer ++ rest = text)
    (heof : s.eof = true → rest = []) (ho : StartsWithDelimiter value options text) :
    s.search true s.searchFuel 0 = (s, .stop) ∧ s.eof = false ∨
    ∃ (final : Bool) (length : ℕ), s.search true s.searchFuel 0 = (s, .delimiter final (s.marker.length + length)) ∧
      opening options.maxHeaderBytes true (ascii "--" ++ value) text = (if final then .final length else .normal length) ∧
      s.marker.length + length ≤ s.buffer.length := by
  obtain ⟨final, length, hopen⟩ := Suffix.delimits_iff.mp ho
  have hpre : s.marker <+: text := by
    rw [hu.marker]
    by_contra hno
    rw [opening_of_not_starts hno] at hopen
    cases final <;> cases hopen
  have hend := opening_end (n := length) (by rw [hopen]; cases final <;> simp)
  rw [← hu.marker] at hend
  rcases Nat.lt_or_ge s.buffer.length s.marker.length with hlen | hlen
  · -- The marker is not complete yet.
    refine .inl ⟨?_, ?_⟩
    · have hp : s.buffer <+: s.marker :=
        List.prefix_of_prefix_length_le (htext ▸ List.prefix_append _ _) hpre hlen.le
      rw [State.searchFuel, State.search]
      simp only [waits_of_short hstart hlen hp, ↓reduceIte]
    · cases he : s.eof with
      | false => rfl
      | true =>
        rw [heof he, List.append_nil] at htext
        rw [htext] at hlen
        omega
  · have hp : s.marker <+: s.buffer :=
      List.prefix_of_prefix_length_le hpre (htext ▸ List.prefix_append _ _) hlen
    have hw : s.waits true = false := by
      simp only [State.waits]
      rw [decide_eq_false (by omega)]
      simp
    rw [search_start hw hstart hp]
    have hsuffix : s.suffixAt s.marker.length = opening options.maxHeaderBytes s.eof (ascii "--" ++ value) s.buffer := by
      rw [← hu.marker, opening_of_starts hp, State.suffixAt, hu.options]
    rw [hsuffix]
    have hagree (hne : opening options.maxHeaderBytes s.eof (ascii "--" ++ value) s.buffer ≠ .more) :
        opening options.maxHeaderBytes s.eof (ascii "--" ++ value) s.buffer =
          if final then .final length else .normal length := by
      rw [← hopen, ← htext]
      exact (opening_append hne (by rw [← hu.marker]; exact hlen) heof).symm
    have hin (h : opening options.maxHeaderBytes s.eof (ascii "--" ++ value) s.buffer ≠ .more) :
        s.marker.length + length ≤ s.buffer.length := by
      have := opening_end (n := length) (by rw [hagree h]; cases final <;> simp)
      rw [hu.marker]
      exact this.2
    cases hs : opening options.maxHeaderBytes s.eof (ascii "--" ++ value) s.buffer with
    | more =>
      refine .inl ⟨rfl, ?_⟩
      cases he : s.eof with
      | false => rfl
      | true =>
        rw [heof he, List.append_nil] at htext
        rw [he, htext, hopen] at hs
        cases final <;> cases hs
    | invalid =>
      rw [hagree (by simp [hs])] at hs
      cases final <;> cases hs
    | normal m =>
      have hag := hagree (by simp [hs])
      rw [hs] at hag
      cases final with
      | true => cases hag
      | false =>
        obtain rfl : m = length := by simpa using hag
        exact .inr ⟨false, m, rfl, hopen, hin (by simp [hs])⟩
    | final m =>
      have hag := hagree (by simp [hs])
      rw [hs] at hag
      cases final with
      | false => cases hag
      | true =>
        obtain rfl : m = length := by simpa using hag
        exact .inr ⟨true, m, rfl, hopen, hin (by simp [hs])⟩

lemma open_leads (ho : StartsWithDelimiter value options text) :
    Leads value options (meaning value options text) (OpenLead text) where
  feed := by
    rintro start buffer x rest ⟨hstart, htext⟩
    exact ⟨hstart, by rw [List.append_assoc, htext]⟩
  stop := by
    rintro s rest s' hwf hu heof ⟨hstart, htext⟩ hs
    rcases search_open hu hstart htext heof ho with ⟨heq, hfalse⟩ | ⟨final, length, heq, -⟩
    · rw [heq] at hs
      obtain rfl : s = s' := by simpa using hs
      exact ⟨⟨hstart, htext⟩, fun h => by rw [hfalse] at h; cases h⟩
    · rw [heq] at hs
      simp at hs
  delimiter := by
    rintro s rest s' final consumed hwf hu heof ⟨hstart, htext⟩ hs
    rcases search_open hu hstart htext heof ho with ⟨heq, -⟩ | ⟨final', length, heq, hopen, hle⟩
    · rw [heq] at hs
      simp at hs
    · rw [heq] at hs
      obtain ⟨rfl, rfl, rfl⟩ : s = s' ∧ final' = final ∧ s.marker.length + length = consumed := by simpa using hs
      rw [passDelimiter_whole hu htext hle, meaning_of_delimiter hopen, hu.marker]

end Open

section Closed

-- The search forgets the front of the text, but not while `initialStart` stands.
def ClosedLead (text : Bytes) (start : Bool) (buffer rest : Bytes) : Prop :=
  (start = true → buffer ++ rest = text) ∧ buffer ++ rest <:+ text

lemma closed_leads (hs : ¬ StartsWithDelimiter value options text) (hc : ¬ ContainsDelimiter value options text) :
    Leads value options none (ClosedLead text) where
  feed := by
    rintro start buffer x rest ⟨hstart, htext⟩
    rw [← List.append_assoc] at hstart htext
    exact ⟨hstart, htext⟩
  stop := by
    rintro s rest s' hwf hu heof ⟨hstart, htext⟩ hsearch
    have hsearches := searchFuel_enough true (s := s) hwf.delimiter_ne_nil
    rw [hsearch] at hsearches
    obtain ⟨⟨count, start, hframe⟩, -⟩ := hsearches.frame
    refine ⟨⟨fun h => ?_, ?_⟩, fun _ => rfl⟩
    · have hsame : s' = s := hsearches.start_same h
      rw [hsame] at h ⊢
      exact hstart h
    · have hsuffix : s'.buffer <:+ s.buffer := by
        rw [show s'.buffer = s.buffer.drop count by rw [show s' = _ from hframe]]
        exact List.drop_suffix _ _
      obtain ⟨front, hfront⟩ := hsuffix
      refine List.IsSuffix.trans ⟨front, ?_⟩ htext
      rw [← List.append_assoc, hfront]
  delimiter := by
    rintro s rest s' final consumed hwf hu heof ⟨hstart, htext⟩ hsearch
    exfalso
    have hsearches := searchFuel_enough true (s := s) hwf.delimiter_ne_nil
    rw [hsearch] at hsearches
    obtain ⟨⟨count, start, hframe⟩, -⟩ := hsearches.frame
    have hframe : s' = { s with buffer := s.buffer.drop count, initialStart := start } := hframe
    obtain ⟨pattern, length, hpattern, -, hopen⟩ := hsearches.front rfl
    simp only at hpattern hopen
    have hend := opening_end (n := length) (by rw [hopen]; cases final <;> simp)
    have heof' : s'.eof = true → rest = [] := by rw [hframe]; exact heof
    have hmore : opening s'.options.maxHeaderBytes s'.eof pattern s'.buffer ≠ .more := by
      rw [hopen]
      cases final <;> simp
    have hwhole := opening_append hmore (by omega) heof'
    have hopt : s'.options = options := by rw [hframe]; exact hu.options
    rw [hopen, hopt] at hwhole
    have hdelimits := Suffix.delimits_iff.mpr ⟨final, length, hwhole⟩
    rcases hpattern with ⟨hst, rfl⟩ | rfl
    · have hsame : s' = s := hsearches.start_same hst
      subst hsame
      apply hs
      rw [hu.marker, hstart hst] at hdelimits
      exact hdelimits
    · have hd : s'.delimiter = crlf ++ (ascii "--" ++ value) := by rw [hframe]; exact hu.delimiter
      rw [hd] at hdelimits
      have hsuffix : s'.buffer ++ rest <:+ text := by
        refine List.IsSuffix.trans ⟨s.buffer.take count, ?_⟩ htext
        rw [show s'.buffer = s.buffer.drop count by rw [hframe], ← List.append_assoc, List.take_append_drop]
      obtain ⟨front, hfront⟩ := hsuffix
      refine hc ⟨front.length, ?_⟩
      rw [← hfront, List.drop_left]
      exact hdelimits

end Closed

lemma noPreamble_follows (hv : options.valid = true) (hb : boundary value = true) (hn : NoPreamble value options text) :
    ∃ result Lead, Leads value options result Lead ∧
      (Transfer.start value options text).Follows value options result Lead text.length := by
  by_cases hs : StartsWithDelimiter value options text
  · exact ⟨_, _, open_leads hs, follows_start hv hb ⟨rfl, rfl⟩⟩
  · have hc := hn.resolve_left hs
    exact ⟨_, _, closed_leads hs hc, follows_start hv hb ⟨fun _ => rfl, List.suffix_refl _⟩⟩

end ServerCore.Web.Multipart
