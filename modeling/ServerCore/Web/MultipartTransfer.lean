import ServerCore.Web.MultipartStream

/-! A caller that moves a whole body through the parser, in pieces of any size and with calls
of `Read` at any time. -/

namespace ServerCore.Web.Multipart

open ServerCore.Core ServerCore.Foundations

-- `input` is what the parser has not accepted yet; `ended` holds the failure, if any.
structure Transfer where
  parser : State
  input : Bytes
  held : Option ℕ := none
  events : List Event := []
  ended : Option (Option ErrorCode) := none
  deriving DecidableEq

def Transfer.start (value : Bytes) (options : Options) (input : Bytes) : Transfer where
  parser := .fresh value options
  input := input

inductive Act
  | feed (count : ℕ)
  | read
  | release
  | finish
  deriving DecidableEq, Repr

def Transfer.feed (t : Transfer) (count : ℕ) : Option Transfer :=
  if t.parser.eof then none
  else
    match t.parser.feed (t.input.take count) with
    | (parser, .ok n) => some { t with parser := parser, input := t.input.drop n }
    | (parser, .error .wouldBlock) => some { t with parser := parser }
    | (parser, .error code) => some { t with parser := parser, ended := some (some code) }

def Transfer.read (t : Transfer) : Option Transfer :=
  if t.held.isSome then none
  else
    match t.parser.read with
    | (parser, .event event) =>
      some { t with parser := parser, held := some event.bytes, events := t.events ++ [event] }
    | (parser, .null) => some { t with parser := parser, ended := some none }
    | (parser, .error .wouldBlock) => some { t with parser := parser }
    | (parser, .error code) => some { t with parser := parser, ended := some (some code) }

def Transfer.step (t : Transfer) (act : Act) : Option Transfer :=
  if t.ended.isSome then none
  else
    match act with
    | .feed count => t.feed count
    | .read => t.read
    | .release => t.held.map fun bytes => { t with parser := t.parser.release bytes, held := none }
    | .finish => if t.input.isEmpty then some { t with parser := t.parser.finish.1 } else none

def atoms (events : List Event) : List Atom := events.flatMap Event.atoms

section Frame

variable {s : State}

lemma deliver_frame (event : Event) (consumed : ℕ) :
    (s.deliver event consumed).1.options = s.options ∧ (s.deliver event consumed).1.total = s.total ∧
      (s.deliver event consumed).1.eof = s.eof := by
  simp only [State.deliver]
  split_ifs <;> exact ⟨rfl, rfl, rfl⟩

lemma conclude_frame (exit : Exit) :
    (s.conclude exit).1.options = s.options ∧ (s.conclude exit).1.total = s.total ∧
      (s.conclude exit).1.eof = s.eof := by
  cases exit with
  | null | wait | fail code => exact ⟨rfl, rfl, rfl⟩
  | more =>
    simp only [State.conclude]
    split <;> exact ⟨rfl, rfl, rfl⟩
  | data count =>
    simp only [State.conclude, State.data]
    split
    · exact ⟨rfl, rfl, rfl⟩
    split <;> exact deliver_frame _ _
  | partBegin event consumed | partEnd final consumed =>
    simp only [State.conclude]
    split <;> exact deliver_frame _ _

lemma read_frame (h : s.Wf) :
    s.read.1.options = s.options ∧ s.read.1.total = s.total ∧ s.read.1.eof = s.eof := by
  simp only [State.read]
  split
  · exact ⟨rfl, rfl, rfl⟩
  · obtain ⟨⟨_, _, _, -, heq⟩, -⟩ := scan_fits h
    have hc := conclude_frame (s := s.scan.1) s.scan.2
    rw [heq] at hc ⊢
    exact hc

lemma feed_cases (h : s.Wf) (he : s.error = none) (heof : s.eof = false) (bytes : Bytes) :
    (s.options.maxTotalBytes < s.total + bytes.length ∧ s.feed bytes = (s.failWith .tooLarge, .error .tooLarge)) ∨
    s.feed bytes = (s, .error .wouldBlock) ∨
    ∃ k ≤ bytes.length, s.feed bytes = ({ s with buffer := s.buffer ++ bytes.take k, total := s.total + k }, .ok k) := by
  simp only [State.feed, he, heof, Bool.false_eq_true, ↓reduceIte, sizeSub_eq h.total]
  split
  · refine .inr (.inr ⟨0, Nat.zero_le _, ?_⟩)
    cases s
    simp_all
  split
  · exact .inl ⟨by omega, rfl⟩
  split
  · exact .inr (.inl rfl)
  · exact .inr (.inr ⟨_, by omega, rfl⟩)

end Frame

section Leading

structure State.Untouched (s : State) (value : Bytes) (options : Options) : Prop where
  options : s.options = options
  marker : s.marker = ascii "--" ++ value
  delimiter : s.delimiter = crlf ++ (ascii "--" ++ value)
  phase : s.phase = .initial
  file : s.file = false
  partBytes : s.partBytes = 0
  part : s.part = 0
  files : s.files = 0

/-- What holds of `initialStart`, the buffer and the input ahead until the first delimiter is
found, and makes the text behind that delimiter mean `meaning`. -/
structure Leads (value : Bytes) (options : Options) (meaning : Option (List Atom)) (Lead : Bool → Bytes → Bytes → Prop) :
    Prop where
  feed : ∀ start buffer x rest, Lead start buffer (x ++ rest) → Lead start (buffer ++ x) rest
  stop : ∀ (s : State) rest s', s.Wf → s.Untouched value options → (s.eof = true → rest = []) →
    Lead s.initialStart s.buffer rest → s.search true s.searchFuel 0 = (s', .stop) →
    Lead s'.initialStart s'.buffer rest ∧ (s.eof = true → meaning = none)
  delimiter : ∀ (s : State) rest s' final consumed, s.Wf → s.Untouched value options → (s.eof = true → rest = []) →
    Lead s.initialStart s.buffer rest → s.search true s.searchFuel 0 = (s', .delimiter final consumed) →
    (({ s'.skipPreamble consumed with phase := afterDelimiter final } : State).whole rest).decode = meaning

variable {value : Bytes} {options : Options} {meaning : Option (List Atom)} {Lead : Bool → Bytes → Bytes → Prop} {n : ℕ}
  {t t' : Transfer}

def Transfer.Status (value : Bytes) (options : Options) (meaning : Option (List Atom)) (Lead : Bool → Bytes → Bytes → Prop)
    (n : ℕ) (t : Transfer) : Prop :=
  match t.ended with
  | none => t.parser.error = none ∧ t.parser.phase ≠ .done ∧
      (t.events = [] ∧ t.parser.Untouched value options ∧ Lead t.parser.initialStart t.parser.buffer t.input ∨
        t.parser.phase ≠ .initial ∧ meaning = (t.parser.whole t.input).decode.map (atoms t.events ++ ·))
  | some none => t.parser.eof = true ∧ meaning = some (atoms t.events)
  | some (some _) => meaning = none ∨ options.maxTotalBytes < n

structure Transfer.Follows (value : Bytes) (options : Options) (meaning : Option (List Atom))
    (Lead : Bool → Bytes → Bytes → Prop) (n : ℕ) (t : Transfer) : Prop where
  wf : t.parser.Wf
  same : t.parser.options = options
  credit : t.parser.credit = t.held.getD 0
  length : t.parser.total + t.input.length = n
  eof : t.parser.eof = true → t.input = []
  sizes : ∀ event ∈ t.events, event.kind = .data → 0 < event.data.length ∧ event.data.length ≤ options.maxEventBytes
  status : t.Status value options meaning Lead n

lemma follows_start (hv : options.valid = true) (hb : boundary value = true) {input : Bytes}
    (hl : Lead true [] input) : (Transfer.start value options input).Follows value options meaning Lead input.length where
  wf := .fresh hv hb
  same := rfl
  credit := rfl
  length := by simp [Transfer.start, State.fresh]
  eof := by simp [Transfer.start, State.fresh]
  sizes := by simp [Transfer.start]
  status := ⟨rfl, by simp [Transfer.start, State.fresh], .inl ⟨rfl, by constructor <;> rfl, hl⟩⟩

lemma feed_follows (hl : Leads value options meaning Lead) (h : t.Follows value options meaning Lead n)
    (hend : t.ended = none) {count : ℕ} (hs : t.feed count = some t') : t'.Follows value options meaning Lead n := by
  have hst := h.status
  simp only [Transfer.Status, hend] at hst
  obtain ⟨he, hdone, hphase⟩ := hst
  simp only [Transfer.feed] at hs
  split at hs
  · cases hs
  rename_i heof
  have heof : t.parser.eof = false := by simpa using heof
  have hwf := feed_wf h.wf (t.input.take count)
  have hlen := h.length
  rcases feed_cases h.wf he heof (t.input.take count) with ⟨hlt, heq⟩ | heq | ⟨k, hk, heq⟩
  · simp only [heq, Option.some.injEq] at hs hwf
    subst hs
    refine { h with wf := hwf, same := h.same, credit := h.credit, length := hlen, eof := h.eof, status := .inr ?_ }
    rw [h.same] at hlt
    simp only [List.length_take] at hlt
    omega
  · simp only [heq, Option.some.injEq] at hs hwf
    subst hs
    exact { h with }
  · simp only [heq, Option.some.injEq] at hs hwf
    subst hs
    simp only [List.length_take] at hk
    have htake : (t.input.take count).take k = t.input.take k := by
      rw [List.take_take, Nat.min_eq_left (by omega)]
    have hbuf : t.parser.buffer ++ t.input.take k ++ t.input.drop k = t.parser.buffer ++ t.input := by simp
    refine { h with
      wf := hwf, same := h.same, credit := h.credit
      length := by simp only [List.length_drop]; omega
      eof := by simp [heof], status := ?_ }
    simp only [Transfer.Status, hend]
    refine ⟨he, hdone, hphase.imp ?_ ?_⟩
    · rintro ⟨hev, hu, hlead⟩
      refine ⟨hev, { hu with }, ?_⟩
      rw [htake]
      apply hl.feed
      rwa [List.take_append_drop]
    · rintro ⟨hp, hm⟩
      refine ⟨hp, hm.trans ?_⟩
      simp only [State.whole, htake, hbuf]

lemma read_initial {s s' : State} (hp : s.phase = .initial) (he : s.error = none) {final : Bool} {consumed : ℕ}
    (hs : s.search true s.searchFuel 0 = (s', .delimiter final consumed)) (he' : s'.error = none) :
    s.read = ({ s'.skipPreamble consumed with phase := afterDelimiter final } : State).read := by
  simp only [State.read, he, State.scan, hp, hs, State.skipPreamble, he']
  cases final <;> rfl

lemma read_initial_stop {s s' : State} (hp : s.phase = .initial) (he : s.error = none)
    (hs : s.search true s.searchFuel 0 = (s', .stop)) : s.read = s'.conclude .more := by
  simp only [State.read, he, State.scan, hp, hs]

lemma tells_follows (h : t.Follows value options meaning Lead n) (hend : t.ended = none) (hheld : t.held = none)
    {s : State} (hread : t.parser.read = s.read) (hframe : s.options = options)
    (hm : meaning = (s.whole t.input).decode.map (atoms t.events ++ ·)) (heof : s.eof = t.parser.eof)
    (hinit : s.phase ≠ .initial) (hdone : s.phase ≠ .done) (htell : s.read.2.Tells t.input s s.read.1) (hs : t.read = some t') :
    t'.Follows value options meaning Lead n := by
  have hwf := read_wf h.wf
  have hcharge := read_charge h.wf
  obtain ⟨hopt, htotal, heof'⟩ := read_frame h.wf
  rw [h.credit, hheld] at hcharge
  simp only [Transfer.read, hheld] at hs
  rw [hread] at hwf hcharge hopt htotal heof' hs
  generalize s.read = r at hwf hcharge hopt htotal heof' hs htell
  obtain ⟨p, result⟩ := r
  simp only at hwf hcharge hopt htotal heof' htell
  have hlen := h.length
  have hbase : p.options = options ∧ p.total + t.input.length = n ∧ (p.eof = true → t.input = []) :=
    ⟨hopt.trans h.same, by omega, fun hp => h.eof (by rw [← heof', hp])⟩
  cases result with
  | event e =>
    obtain ⟨he, hi, hd, hdec, hsize⟩ := htell
    obtain rfl := Option.some.inj hs
    refine ⟨hwf, hbase.1, by simpa [ReadResult.charge] using hcharge, hbase.2.1, hbase.2.2, ?_, ?_⟩
    · intro event hmem
      rcases List.mem_append.mp hmem with hmem | hmem
      · exact h.sizes event hmem
      · obtain rfl : event = e := by simpa using hmem
        rw [← hframe]
        exact hsize
    · simp only [Transfer.Status, hend]
      refine ⟨he, hd, .inr ⟨hi, ?_⟩⟩
      rw [hm, hdec, Option.map_map]
      congr 1
      funext tail
      simp [atoms]
  | null =>
    obtain rfl := Option.some.inj hs
    refine ⟨hwf, hbase.1, by simpa [ReadResult.charge, hheld] using hcharge, hbase.2.1, hbase.2.2, h.sizes, ?_⟩
    refine ⟨by rw [heof', ← heof]; exact htell.1, ?_⟩
    rw [hm, htell.2]
    simp
  | error code =>
    cases code with
    | wouldBlock =>
      obtain ⟨-, he, hp, hdec⟩ := htell
      obtain rfl := Option.some.inj hs
      refine ⟨hwf, hbase.1, by simpa [ReadResult.charge, hheld] using hcharge, hbase.2.1, hbase.2.2, h.sizes, ?_⟩
      simp only [Transfer.Status, hend]
      refine ⟨he, by rwa [hp], .inr ⟨by rwa [hp], ?_⟩⟩
      rw [hm, hdec]
    | _ =>
      obtain rfl := Option.some.inj hs
      refine ⟨hwf, hbase.1, by simpa [ReadResult.charge, hheld] using hcharge, hbase.2.1, hbase.2.2, h.sizes, .inl ?_⟩
      rw [hm, show (s.whole t.input).decode = none from htell]
      rfl

lemma read_follows_stop (hl : Leads value options meaning Lead) (h : t.Follows value options meaning Lead n)
    (hend : t.ended = none) (hheld : t.held = none) (he : t.parser.error = none) (hev : t.events = [])
    (hu : t.parser.Untouched value options) (hlead : Lead t.parser.initialStart t.parser.buffer t.input) {s' : State}
    (hsearch : t.parser.search true t.parser.searchFuel 0 = (s', .stop)) (hs : t.read = some t') :
    t'.Follows value options meaning Lead n := by
  have hframe := (searchFuel_enough true (s := t.parser) h.wf.delimiter_ne_nil).frame.1
  rw [hsearch] at hframe
  obtain ⟨count, start, hs'⟩ := hframe
  simp only at hs'
  obtain ⟨hlead', hnone⟩ := hl.stop _ _ _ h.wf hu h.eof hlead hsearch
  have hread := read_initial_stop hu.phase he hsearch
  have hwf := read_wf h.wf
  simp only [Transfer.read, hheld, Option.isSome_none, Bool.false_eq_true, ↓reduceIte, hread] at hs
  rw [hread] at hwf
  have hlen := h.length
  have hcredit := h.credit
  rw [hheld] at hcredit
  cases heof : t.parser.eof with
  | true =>
    have heof' : s'.eof = true := by rw [hs', heof]
    simp only [State.conclude, heof', ↓reduceIte] at hs hwf
    obtain rfl := Option.some.inj hs
    subst hs'
    exact ⟨hwf, h.same, hcredit, hlen, h.eof, h.sizes, .inl (hnone heof)⟩
  | false =>
    have heof' : s'.eof = false := by rw [hs', heof]
    simp only [State.conclude, heof', Bool.false_eq_true, ↓reduceIte] at hs hwf
    obtain rfl := Option.some.inj hs
    subst hs'
    refine ⟨hwf, h.same, hcredit, hlen, h.eof, h.sizes, ?_⟩
    simp only [Transfer.Status, hend]
    refine ⟨he, ?_, .inl ⟨hev, { hu with }, hlead'⟩⟩
    simp [hu.phase]

lemma read_follows (hl : Leads value options meaning Lead) (h : t.Follows value options meaning Lead n)
    (hend : t.ended = none) (hs : t.read = some t') : t'.Follows value options meaning Lead n := by
  have hst := h.status
  simp only [Transfer.Status, hend] at hst
  obtain ⟨he, hdone, hphase⟩ := hst
  have hheld : t.held = none := by
    cases hh : t.held with
    | none => rfl
    | some bytes => simp [Transfer.read, hh] at hs
  have hcredit : t.parser.credit = 0 := by rw [h.credit, hheld]; rfl
  rcases hphase with ⟨hev, hu, hlead⟩ | ⟨hi, hm⟩
  · have hsearches := searchFuel_enough true (s := t.parser) h.wf.delimiter_ne_nil
    obtain ⟨⟨count, start, hframe⟩, -⟩ := hsearches.frame
    have hdata := fun count => hsearches.data_body (c := count)
    cases hsearch : t.parser.search true t.parser.searchFuel 0 with
    | mk s' found =>
      rw [hsearch] at hframe hdata
      simp only at hframe
      cases found with
      | stop => exact read_follows_stop hl h hend hheld he hev hu hlead hsearch hs
      | data count' => exact absurd (hdata count' rfl) (by simp)
      | delimiter final consumed =>
        have hmeaning := hl.delimiter _ _ _ _ _ h.wf hu h.eof hlead hsearch
        have herr : s'.error = none := by rw [hframe]; exact he
        have hread := read_initial hu.phase he hsearch herr
        set s : State := { s'.skipPreamble consumed with phase := afterDelimiter final } with hsdef
        have hs₁ : s = { t.parser with
            buffer := (t.parser.buffer.drop count).drop consumed, initialStart := false
            phase := afterDelimiter final } := by
          rw [hsdef, hframe]
          rfl
        have hready : s.Ready t.input := by
          refine ⟨?_, ?_, ?_, ?_⟩ <;> rw [hs₁]
          · have := h.wf.shrink (b := (t.parser.buffer.drop count).drop consumed)
              (by simp only [List.length_drop]; omega) false (afterDelimiter final) t.parser.error h.wf.error
            exact this
          · exact hcredit
          · exact he
          · exact h.eof
        have hp : s.phase ≠ .initial ∧ s.phase ≠ .done := by
          rw [hs₁]
          cases final <;> simp [afterDelimiter]
        exact tells_follows h hend hheld hread (by rw [hs₁]; exact h.same)
          (by rw [hmeaning, hev]; simp [atoms]) (by rw [hs₁]) hp.1 hp.2 (read_tells hready hp.1 hp.2) hs
  · exact tells_follows h hend hheld rfl h.same hm rfl hi hdone (read_tells ⟨h.wf, hcredit, he, h.eof⟩ hi hdone) hs

lemma step_follows (hl : Leads value options meaning Lead) (h : t.Follows value options meaning Lead n) {act : Act}
    (hs : t.step act = some t') : t'.Follows value options meaning Lead n := by
  simp only [Transfer.step] at hs
  split at hs
  · cases hs
  rename_i hend
  have hend : t.ended = none := by simpa using hend
  have hst := h.status
  simp only [Transfer.Status, hend] at hst
  cases act with
  | feed count => exact feed_follows hl h hend hs
  | read => exact read_follows hl h hend hs
  | release =>
    obtain ⟨bytes, hb, rfl⟩ := Option.map_eq_some_iff.mp hs
    have hc := h.credit
    rw [hb] at hc
    refine { h with wf := release_wf h.wf bytes, same := h.same, length := h.length, eof := h.eof, credit := ?_, status := ?_ }
    · simp only [Option.getD_some] at hc
      simp only [State.release, hc, Nat.sub_self, Option.getD_none]
    · simp only [Transfer.Status, hend]
      refine ⟨hst.1, hst.2.1, hst.2.2.imp ?_ id⟩
      rintro ⟨hev, hu, hlead⟩
      exact ⟨hev, { hu with }, hlead⟩
  | finish =>
    simp only at hs
    split at hs
    · rename_i hin
      have hfinish : t.parser.finish.1 = { t.parser with eof := true } := by simp [State.finish, hst.1]
      have hwf := finish_wf h.wf
      rw [hfinish] at hs hwf
      obtain rfl := Option.some.inj hs
      refine { h with
        wf := hwf, same := h.same, length := h.length, eof := fun _ => by simpa using hin, credit := h.credit, status := ?_ }
      simp only [Transfer.Status, hend]
      refine ⟨hst.1, hst.2.1, hst.2.2.imp ?_ id⟩
      rintro ⟨hev, hu, hlead⟩
      exact ⟨hev, { hu with }, hlead⟩
    · cases hs

lemma steps_follows (hl : Leads value options meaning Lead) (h : t.Follows value options meaning Lead n)
    (hs : Steps Transfer.step t t') : t'.Follows value options meaning Lead n :=
  hs.invariant h fun _ _ _ ht hstep => step_follows hl ht hstep

lemma Transfer.Follows.outcome (h : t.Follows value options meaning Lead n) {result : Option ErrorCode}
    (hend : t.ended = some result) :
    (result.isSome = true ↔ meaning = none ∨ options.maxTotalBytes < n) ∧
      (result = none → meaning = some (atoms t.events)) := by
  have hst := h.status
  simp only [Transfer.Status, hend] at hst
  cases result with
  | none =>
    obtain ⟨heof, hm⟩ := hst
    have hin := h.eof heof
    have htotal := h.wf.total
    have hlen := h.length
    rw [h.same] at htotal
    rw [hin, List.length_nil] at hlen
    refine ⟨?_, fun _ => hm⟩
    rw [hm]
    simp only [Option.isSome_none, Bool.false_eq_true, reduceCtorEq, false_or, false_iff]
    omega
  | some code => exact ⟨by simpa using hst, by simp⟩

end Leading

section Progress

variable {s : State} {t t' : Transfer}

lemma conclude_event_shorter (h : s.Wf) {exit : Exit} (hf : exit.Fits s) {event : Event}
    (he : (s.conclude exit).2 = .event event) : (s.conclude exit).1.buffer.length < s.buffer.length := by
  have hdel {event : Event} {consumed : ℕ} (hpos : 0 < consumed) (hle : consumed ≤ s.buffer.length)
      (hok : (s.deliver event consumed).2.isOk = true) :
      (s.deliver event consumed).1.buffer.length < s.buffer.length := by
    rcases deliver_cases (v := event) (h.eventExact hle) with ⟨-, heq⟩ | ⟨-, heq⟩ | ⟨-, heq⟩
    · simp [heq, ReadResult.isOk] at hok
    · simp [heq, ReadResult.isOk] at hok
    · simp only [heq, List.length_drop]
      omega
  cases exit with
  | null | wait | fail code => simp [State.conclude] at he
  | more =>
    simp only [State.conclude] at he
    split at he <;> cases he
  | data count =>
    obtain ⟨hpos, hle⟩ := hf.data count rfl
    have hevent := (Options.valid_bounds h.valid).2.1
    simp only [State.conclude, State.data] at he ⊢
    split at he
    · cases he
    rename_i hlim
    simp only [hlim, ↓reduceIte]
    split
    · rename_i hok
      exact hdel (by omega) (by omega) hok
    · rename_i hok
      simp only [hok, Bool.false_eq_true, ↓reduceIte] at he
      simp [he, ReadResult.isOk] at hok
  | partBegin e consumed =>
    obtain ⟨hle, -, hpos⟩ := hf.partBegin e consumed rfl
    simp only [State.conclude] at he ⊢
    split
    · rename_i hok
      exact hdel (by omega) hle hok
    · rename_i hok
      simp only [hok, Bool.false_eq_true, ↓reduceIte] at he
      simp [he, ReadResult.isOk] at hok
  | partEnd final consumed =>
    obtain ⟨hpos, hle⟩ := hf.partEnd final consumed rfl
    simp only [State.conclude] at he ⊢
    split
    · rename_i hok
      exact hdel hpos hle hok
    · rename_i hok
      simp only [hok, Bool.false_eq_true, ↓reduceIte] at he
      simp [he, ReadResult.isOk] at hok

lemma read_event_shorter (h : s.Wf) {event : Event} (he : s.read.2 = .event event) :
    s.read.1.buffer.length < s.buffer.length := by
  simp only [State.read] at he ⊢
  split at he
  · cases he
  rename_i herr
  obtain ⟨⟨buffer, _, _, hle, heq⟩, hf⟩ := scan_fits h
  have := conclude_event_shorter (scan_wf h herr) hf he
  rw [heq] at this ⊢
  simp only at this ⊢
  omega

lemma read_blocked (h : s.Wf) (hcredit : s.credit = 0) (he : s.error = none) (hb : s.read.2 = .error .wouldBlock) :
    s.eof = false ∧ s.read.1.error = none ∧ s.read.1.buffer.length ≤ s.buffer.length ∧ s.read.1.credit = 0 := by
  obtain ⟨⟨buffer, start, phase, hle, heq⟩, hf⟩ := scan_fits h
  have hnot : s.scan.2.isEvent = false := by
    cases hev : s.scan.2.isEvent with
    | false => rfl
    | true => exact absurd hb (read_not_blocked h hcredit he hev)
  simp only [State.read, he] at hb ⊢
  cases hexit : s.scan.2 with
  | wait =>
    have := hf.idle hexit
    simp only [State.conclude]
    rw [heq] at this ⊢
    exact ⟨this, he, hle, hcredit⟩
  | more =>
    simp only [hexit, State.conclude] at hb ⊢
    split at hb
    · cases hb
    · rename_i heof
      rw [if_neg heof]
      rw [heq] at heof ⊢
      exact ⟨by simpa using heof, he, hle, hcredit⟩
  | null => simp [hexit, State.conclude] at hb
  | fail code =>
    simp only [hexit, State.conclude, ReadResult.error.injEq] at hb
    exact absurd hb (hf.fail code hexit)
  | _ => simp [hexit, Exit.isEvent] at hnot

def Transfer.remaining (t : Transfer) : ℕ :=
  2 * t.input.length + t.parser.buffer.length + if t.parser.eof then 0 else 1

variable {value : Bytes} {options : Options} {meaning : Option (List Atom)} {Lead : Bool → Bytes → Bytes → Prop} {n : ℕ}

lemma feed_progress (h : t.Follows value options meaning Lead n) (hend : t.ended = none)
    (hheld : t.held = none) (he : t.parser.error = none) (hb : t.parser.read.2 = .error .wouldBlock) :
    ∃ t', Steps Transfer.step { t with parser := t.parser.read.1 } t' ∧
      (t'.ended.isSome = true ∨ t'.remaining < t.remaining) := by
  have hcredit : t.parser.credit = 0 := by rw [h.credit, hheld]; rfl
  obtain ⟨heof, he', hle, -⟩ := read_blocked h.wf hcredit he hb
  obtain ⟨hopt, htotal, heof'⟩ := read_frame h.wf
  have heof₁ : t.parser.read.1.eof = false := heof'.trans heof
  rcases eq_or_ne t.input [] with hin | hin
  · refine ⟨{ t with parser := t.parser.read.1.finish.1 }, .single (e := .finish) ?_, .inr ?_⟩
    · simp [Transfer.step, hend, hin]
    · simp only [Transfer.remaining, State.finish, he', heof, hin, Bool.false_eq_true, ↓reduceIte]
      omega
  · have hfeed (t' : Transfer) (hs : Transfer.feed { t with parser := t.parser.read.1 } t.input.length = some t') :
        Steps Transfer.step { t with parser := t.parser.read.1 } t' := by
      refine .single (e := .feed t.input.length) ?_
      simpa [Transfer.step, hend] using hs
    have htake : t.input.take t.input.length = t.input := List.take_length
    rcases feed_cases (read_wf h.wf) he' heof₁ t.input with ⟨-, heq⟩ | heq | ⟨k, hk, heq⟩
    · refine ⟨_, hfeed _ (by simp only [Transfer.feed, heof₁, htake, heq]; rfl), .inl rfl⟩
    · by_cases hfit : t.input.length ≤ t.parser.options.maxTotalBytes - t.parser.total
      · obtain ⟨m, -, hacc⟩ := feed_accepts h.wf hcredit heof hb hin hfit
        rw [heq] at hacc
        cases hacc
      · -- A span beyond the total limit is refused, never put off.
        have hwf := (read_wf h.wf).total
        simp only [State.feed, he', heof₁, Bool.false_eq_true, ↓reduceIte, hopt, htotal, List.isEmpty_iff, hin,
          sizeSub_eq h.wf.total] at heq
        rw [if_pos (by omega)] at heq
        simp at heq
    · refine ⟨_, hfeed _ (by simp only [Transfer.feed, heof₁, htake, heq]; rfl), .inr ?_⟩
      have hpos : 0 < k := by
        by_contra hzero
        obtain rfl : k = 0 := by omega
        by_cases hfit : t.input.length ≤ t.parser.options.maxTotalBytes - t.parser.total
        · obtain ⟨m, hm, hacc⟩ := feed_accepts h.wf hcredit heof hb hin hfit
          rw [heq, Except.ok.injEq] at hacc
          omega
        · simp only [State.feed, he', heof₁, Bool.false_eq_true, ↓reduceIte, hopt, htotal, List.isEmpty_iff, hin,
            sizeSub_eq h.wf.total] at heq
          rw [if_pos (by omega)] at heq
          simp at heq
      simp only [Transfer.remaining, heof, List.length_append, List.length_take, List.length_drop]
      omega

lemma read_progress (h : t.Follows value options meaning Lead n) (hend : t.ended = none) (hheld : t.held = none) :
    ∃ t', Steps Transfer.step t t' ∧ (t'.ended.isSome = true ∨ t'.remaining < t.remaining) := by
  have hst := h.status
  simp only [Transfer.Status, hend] at hst
  have hstep (t' : Transfer) (hs : t.read = some t') : Steps Transfer.step t t' := by
    refine .single (e := .read) ?_
    simpa [Transfer.step, hend] using hs
  have heof := (read_frame h.wf).2.2
  cases hr : t.parser.read with
  | mk p result =>
    simp only [Transfer.read, hheld, hr] at hstep
    cases result with
    | null => exact ⟨_, hstep _ rfl, .inl rfl⟩
    | event event =>
      have hlt := read_event_shorter h.wf (by rw [hr])
      refine ⟨_, hstep _ rfl, .inr ?_⟩
      rw [hr] at heof hlt
      simp only at heof hlt
      simp only [Transfer.remaining, heof]
      omega
    | error code =>
      cases code with
      | wouldBlock =>
        have hfeed := feed_progress h hend hheld hst.1 (by rw [hr])
        simp only [hr, hheld] at hfeed
        obtain ⟨t', hs, hd⟩ := hfeed
        exact ⟨t', (hstep _ rfl).trans hs, hd⟩
      | _ => exact ⟨_, hstep _ rfl, .inl rfl⟩

lemma transfer_progress (hl : Leads value options meaning Lead) (h : t.Follows value options meaning Lead n) :
    ∃ t', Steps Transfer.step t t' ∧ t'.ended.isSome = true := by
  generalize hm : t.remaining = m
  induction m using Nat.strong_induction_on generalizing t with
  | _ m ih =>
    have hgo {t' : Transfer} (hs : Steps Transfer.step t t') (hd : t'.ended.isSome = true ∨ t'.remaining < t.remaining) :
        ∃ t', Steps Transfer.step t t' ∧ t'.ended.isSome = true := by
      rcases hd with hd | hd
      · exact ⟨t', hs, hd⟩
      · obtain ⟨t'', hs', hd'⟩ := ih _ (hm ▸ hd) (steps_follows hl h hs) rfl
        exact ⟨t'', hs.trans hs', hd'⟩
    cases hend : t.ended with
    | some result => exact ⟨t, .refl t, by simp [hend]⟩
    | none =>
      cases hheld : t.held with
      | none =>
        obtain ⟨t', hs, hd⟩ := read_progress h hend hheld
        exact hgo hs hd
      | some bytes =>
        have hrelease : Steps Transfer.step t { t with parser := t.parser.release bytes, held := none } := by
          refine .single (e := .release) ?_
          simp [Transfer.step, hend, hheld]
        obtain ⟨t', hs, hd⟩ := read_progress (steps_follows hl h hrelease) hend rfl
        exact hgo (hrelease.trans hs) hd

end Progress

end ServerCore.Web.Multipart
