import ServerCore.Web.HttpResponseRuns

/-! Repeating what would block, and what a response does once when it is over. -/

namespace ServerCore.Web.HttpResponseState

open ServerCore.Core Foundations

section Capacity

variable {c : Context} {s s' : System} {t : Transaction}

def Call.bytes : Call → ℕ
  | .write bytes => bytes.length
  | _ => 0

lemma encode_length {bytes wire : Bytes} {maxChunkBytes : ℕ} (h : encodeChunk bytes maxChunkBytes = .ok wire) :
    wire.length ≤ bytes.length + 20 := by
  obtain ⟨rfl, -, hsize⟩ := encodeChunk_ok h
  have hdigits : (toChars 16 bytes.length).length ≤ 16 := by
    apply @toChars_length_le 16 (by decide) _ 15
    unfold sizeModulus at hsize
    omega
  simp only [Chunk.encode, chunkOf, List.length_append, crlf, List.length_cons, List.length_nil]
  omega

lemma write_fits {x : State} {bytes : Bytes} (h : write c bytes x = .ok (some t)) :
    t.wire.length ≤ bytes.length + (if x.progress.mode = .chunked then 32 else 0) := by
  obtain ⟨-, -, -, -, -, wire, hwire, rfl⟩ := write_ok h
  rw [encodeWrite] at hwire
  by_cases hchunked : x.progress.mode = .chunked
  · rw [if_pos hchunked] at hwire ⊢
    exact (encode_length hwire).trans (Nat.add_le_add_left (by decide) _)
  · rw [if_neg hchunked] at hwire ⊢
    obtain rfl := Except.ok.inj hwire
    exact le_rfl

lemma requiredCapacity_ok {x : State} {bytes n : ℕ} (h : requiredCapacity c bytes x = .ok n) :
    ((x.progress.phase = .new ∨ bytes = 0) ∧ x.blockedWireBytes ≠ 0 → n = x.blockedWireBytes) ∧
      (x.progress.phase ≠ .new → bytes ≠ 0 → n = bytes + if x.progress.mode = .chunked then 32 else 0) := by
  rw [requiredCapacity] at h
  split at h
  · cases h
  split at h
  · cases h
  split at h
  · cases h
  split at h
  · rename_i hblocked
    refine ⟨fun _ => (Except.ok.inj h).symm, fun hnew hbytes => ?_⟩
    rcases hblocked.1 with hphase | hzero
    · exact absurd hphase hnew
    · exact absurd hzero hbytes
  · rename_i hblocked
    refine ⟨fun hb => absurd hb hblocked, fun hnew hbytes => ?_⟩
    rw [if_neg hnew, if_neg hbytes] at h
    exact (Except.ok.inj h).symm

/-- The date in the bytes of a call. -/
def Call.date : Call → Bytes
  | .start now _ => httpDate now
  | .complete now _ => httpDate now
  | _ => []

/-- The same call at another time. -/
def Call.at (now : ℤ) : Call → Call
  | .start _ value => .start now value
  | .complete _ response => .complete now response
  | call => call

lemma start_redated {now later : ℤ} {value : HttpResponseHead} {x : State} (h : start c now value x = .ok t)
    (hdate : (httpDate later).length = (httpDate now).length) :
    ∃ wire, start c later value x = .ok { t with wire := wire } ∧ wire.length = t.wire.length := by
  obtain ⟨hrefusal, hconnect, prepared, hprepared, rfl⟩ := start_ok.mp h
  obtain ⟨wire, hwire, hlength⟩ := prepareResponseHead_redated hprepared hdate
  exact ⟨wire, start_ok.mpr ⟨hrefusal, hconnect, { prepared with wire := wire }, hwire, rfl⟩, hlength⟩

lemma complete_redated {now later : ℤ} {response : HttpResponse} {x : State} (h : complete c now response x = .ok t)
    (hdate : (httpDate later).length = (httpDate now).length) :
    ∃ wire, complete c later response x = .ok { t with wire := wire } ∧ wire.length = t.wire.length := by
  obtain ⟨hrefusal, hbody, hconnect, _, hwire, rfl⟩ := complete_ok.mp h
  obtain ⟨hfits, prepared, hprepared, rfl⟩ := serializeResponse_some.mp hwire
  obtain ⟨wire, hwire', hlength⟩ := prepareResponseHead_redated hprepared hdate
  have hlater := serializeResponse_some.mpr ⟨hfits, { prepared with wire := wire }, hwire', rfl⟩
  refine ⟨_, complete_ok.mpr ⟨hrefusal, hbody, hconnect, _, hlater, rfl⟩, ?_⟩
  simp only [List.length_append, hlength]

lemma select_redated {call : Call} {x : State} {later : ℤ} (h : select c x call = .ok (some t))
    (hdate : (call.at later).date.length = call.date.length) :
    ∃ wire, select c x (call.at later) = .ok (some { t with wire := wire }) ∧ wire.length = t.wire.length := by
  cases call with
  | start now value =>
    obtain ⟨t', ht', heq⟩ := map_ok h
    obtain rfl := Option.some.inj heq
    have hsame : (httpDate later).length = (httpDate now).length := hdate
    obtain ⟨wire, hwire, hlength⟩ := start_redated ht' hsame
    exact ⟨wire, congrArg (Except.map some) hwire, hlength⟩
  | write bytes => exact ⟨t.wire, h, rfl⟩
  | finish => exact ⟨t.wire, h, rfl⟩
  | complete now response =>
    obtain ⟨t', ht', heq⟩ := map_ok h
    obtain rfl := Option.some.inj heq
    have hsame : (httpDate later).length = (httpDate now).length := hdate
    obtain ⟨wire, hwire, hlength⟩ := complete_redated ht' hsame
    exact ⟨wire, congrArg (Except.map some) hwire, hlength⟩

/-- A call that would block changes nothing but the capacity that is asked for. Where the response is not aborted the
same call sends the same bytes again, at a later time with another date as long, and `WaitForWriteCapacity` waits for
room for all of them. -/
theorem blocked_call_repeats {call : Call} (h : Reachable (HttpResponseState.step c) Initial s)
    (hflight : s.flight = some ⟨call, t, some .wouldBlock⟩) (hs : s.settle = some s') :
    s'.wire = s.wire ∧ s'.accepted = s.accepted ∧ s'.state.progress = s.state.progress ∧ s'.flight = none ∧
      (s'.state.progress.phase ≠ .aborted →
        select c s'.state call = .ok (some t) ∧
        (∀ later, (call.at later).date.length = call.date.length →
          ∃ wire, select c s'.state (call.at later) = .ok (some { t with wire := wire }) ∧ wire.length = t.wire.length) ∧
        ∀ n, requiredCapacity c call.bytes s'.state = .ok n → t.wire.length ≤ n) := by
  have hinv := Inv.of_reachable h
  simp only [System.settle, hflight] at hs
  obtain rfl := Option.some.inj hs
  by_cases haborted : s.state.progress.phase = .aborted
  · rw [settle_aborted haborted]
    exact ⟨rfl, rfl, rfl, rfl, fun hlive => absurd haborted hlive⟩
  rw [settle_wouldBlock haborted]
  have hselect := hinv.selects haborted call t _ hflight
  have hagain : select c { s.state with sending := false, blockedWireBytes := t.wire.length } call = .ok (some t) := by
    rw [← hselect]
    exact select_congr rfl rfl call
  refine ⟨rfl, rfl, rfl, rfl, fun _ => ⟨hagain, fun later hdate => select_redated hagain hdate, fun n hn => ?_⟩⟩
  by_cases hblocked : t.wire.length = 0
  · omega
  obtain ⟨hsame, hmore⟩ := requiredCapacity_ok hn
  by_cases hnew : s.state.progress.phase = .new ∨ call.bytes = 0
  · exact (hsame ⟨hnew, hblocked⟩).ge
  rw [not_or] at hnew
  rw [hmore hnew.1 hnew.2]
  cases call with
  | write bytes => exact write_fits hselect
  | start now value => exact absurd rfl hnew.2
  | finish => exact absurd rfl hnew.2
  | complete now response => exact absurd rfl hnew.2

theorem blocked_call_repeats_hello : ∃ s s' t, Reachable (HttpResponseState.step {}) Initial s ∧
    s.flight = some ⟨.write [104, 105], t, some .wouldBlock⟩ ∧ s.settle = some s' ∧
    select {} s'.state (.write [104, 105]) = .ok (some t) := by
  have hrun : (run (HttpResponseState.step {}) {} (helloRun.take 5)).map
      (fun s => (s.flight.map fun f => (f.call, f.answer), s.state.progress.phase)) =
        some (some (.write [104, 105], some .wouldBlock), .streaming) := by decide +kernel
  obtain ⟨s, hs, heq⟩ := Option.map_eq_some_iff.mp hrun
  obtain ⟨hflight, hphase⟩ := Prod.mk.inj heq
  obtain ⟨⟨call, t, answer⟩, hf, heq⟩ := Option.map_eq_some_iff.mp hflight
  obtain ⟨rfl, rfl⟩ := Prod.mk.inj heq
  have hreach : Reachable (HttpResponseState.step {}) Initial s := ⟨{}, rfl, _, hs⟩
  have hsettle : s.settle = some (s.conclude (.write [104, 105]) (s.state.settle t .wouldBlock)) := by
    rw [System.settle, hf]
  have hlive : (s.conclude (.write [104, 105]) (s.state.settle t .wouldBlock)).state.progress.phase ≠ .aborted := by
    rw [settle_wouldBlock (by rw [hphase]; simp)]
    simp [System.conclude, hphase]
  exact ⟨s, _, t, hreach, hf, hsettle, ((blocked_call_repeats hreach hf hsettle).2.2.2.2 hlive).1⟩

end Capacity

def Quiet (tail : List Action) : Prop := tail = [] ∨ ∃ reason close, tail = [.markCancelled reason close]

def Whole (x : State) (whole : List Action) : Prop :=
  x.progress.phase = .finished ∧ whole = completion x.progress.close ∨
    x.progress.phase = .aborted ∧ ∃ reason close, whole = cancellation reason close

def AllQuiet (tails : List (List Action)) : Prop := ∀ (i : ℕ) (tail : List Action), tails[i]? = some tail → Quiet tail

def OthersQuiet (k : ℕ) (tails : List (List Action)) : Prop :=
  ∀ (i : ℕ) (tail : List Action), i ≠ k → tails[i]? = some tail → Quiet tail

/-- One thread still has to do `rest`, the others nothing that is logged. -/
def Owes (tails : List (List Action)) (rest : List Action) : Prop :=
  ∃ k : ℕ, tails[k]? = some rest ∧ OthersQuiet k tails

def Action.reported (status : ℕ) : Action → Option (ErrorCode × ℕ)
  | .report reason => some (reason, status)
  | _ => none

structure Tails (s : System) : Prop where
  early : ¬ s.state.terminal → s.log = [] ∧ s.state.reserved = true ∧ AllQuiet s.tails
  ended : s.state.terminal → s.state.reserved = false ∧ ∃ whole rest, Whole s.state whole ∧ s.log ++ rest = whole ∧ Owes s.tails rest
  waits : s.state.waitsRetired = true ↔ .retireWaits ∈ s.log
  reports : s.reports = s.log.filterMap (Action.reported s.state.status)

section Tails

variable {c : Context} {s s' : System} {tails : List (List Action)} {rest tail : List Action}

lemma Owes.append (h : Owes tails rest) (ht : Quiet tail) : Owes (tails ++ [tail]) rest := by
  obtain ⟨k, hk, hothers⟩ := h
  have hlt : k < tails.length := (List.getElem?_eq_some_iff.mp hk).1
  refine ⟨k, by rw [List.getElem?_append_left hlt, hk], fun i tail' hne hi => ?_⟩
  rcases lt_trichotomy i tails.length with hi' | hi' | hi'
  · rw [List.getElem?_append_left hi'] at hi
    exact hothers i tail' hne hi
  · rw [hi', List.getElem?_concat_length] at hi
    obtain rfl := Option.some.inj hi
    exact ht
  · rw [List.getElem?_eq_none (by simp; omega)] at hi
    cases hi

lemma quiet_append (h : AllQuiet tails) (ht : Quiet tail) : AllQuiet (tails ++ [tail]) := by
  intro i tail' hi
  have hmem := List.mem_of_getElem? hi
  rw [List.mem_append, List.mem_singleton] at hmem
  rcases hmem with hmem | rfl
  · obtain ⟨j, hj⟩ := List.mem_iff_getElem?.mp hmem
    exact h j tail' hj
  · exact ht

lemma owes_append (h : AllQuiet tails) (rest : List Action) : Owes (tails ++ [rest]) rest := by
  refine ⟨tails.length, List.getElem?_concat_length, fun i tail hne hi => ?_⟩
  have hlt := (List.getElem?_eq_some_iff.mp hi).1
  simp only [List.length_append, List.length_singleton] at hlt
  rw [List.getElem?_append_left (by omega)] at hi
  exact h i tail hi

lemma owes_set {thread : ℕ} (hlt : thread < tails.length) (h : OthersQuiet thread tails) (rest : List Action) : Owes (tails.set thread rest) rest := by
  refine ⟨thread, by rw [List.getElem?_set_self hlt], fun i tail hne hi => ?_⟩
  rw [List.getElem?_set_ne (Ne.symm hne)] at hi
  exact h i tail hne hi

lemma owes_set_ne {k thread : ℕ} (hk : tails[k]? = some rest) (h : OthersQuiet k tails) (hne : thread ≠ k)
    (hlt : thread < tails.length) : Owes (tails.set thread []) rest := by
  refine ⟨k, by rw [List.getElem?_set_ne hne, hk], fun i tail hik hi => ?_⟩
  by_cases hi' : i = thread
  · subst hi'
    rw [List.getElem?_set_self hlt] at hi
    obtain rfl := Option.some.inj hi
    exact .inl rfl
  · rw [List.getElem?_set_ne (Ne.symm hi')] at hi
    exact h i tail hik hi

lemma Tails.initial (h : Initial s) : Tails s := by
  obtain rfl := h
  refine ⟨fun _ => ⟨rfl, rfl, by simp [AllQuiet]⟩, fun h => ?_, by simp, rfl⟩
  rcases h with h | h <;> cases h

lemma Tails.joined (h : Tails s) (ht : Quiet tail) (hphase : s'.state.progress.phase = s.state.progress.phase)
    (hclose : s'.state.progress.close = s.state.progress.close) (hreserved : s'.state.reserved = s.state.reserved)
    (hwaits : s'.state.waitsRetired = s.state.waitsRetired) (hstatus : s'.state.status = s.state.status)
    (htails : s'.tails = s.tails ∨ s'.tails = s.tails ++ [tail]) (hlog : s'.log = s.log) (hreports : s'.reports = s.reports) :
    Tails s' := by
  have hterminal : s'.state.terminal ↔ s.state.terminal := by rw [State.terminal, State.terminal, hphase]
  refine ⟨fun hn => ?_, fun hover => ?_, by rw [hwaits, hlog]; exact h.waits, by rw [hreports, hlog, hstatus]; exact h.reports⟩
  · obtain ⟨hempty, hres, hquiet⟩ := h.early (hterminal.not.mp hn)
    refine ⟨hlog.trans hempty, hreserved.trans hres, ?_⟩
    rcases htails with heq | heq
    · rw [heq]
      exact hquiet
    · rw [heq]
      exact quiet_append hquiet ht
  · obtain ⟨hres, whole, rest, hwhole, hlogged, howes⟩ := h.ended (hterminal.mp hover)
    refine ⟨hreserved.trans hres, whole, rest, ?_, hlog ▸ hlogged, ?_⟩
    · rw [Whole, hphase, hclose]
      exact hwhole
    · rcases htails with heq | heq
      · rw [heq]
        exact howes
      · rw [heq]
        exact howes.append ht

lemma Tails.settle (h : Tails s) (hi : Inv c s) (hs : s.settle = some s') : Tails s' := by
  rw [System.settle] at hs
  split at hs
  · rename_i call t code hflight
    obtain rfl := Option.some.inj hs
    by_cases haborted : s.state.progress.phase = .aborted
    · rw [settle_aborted haborted]
      exact h.joined (.inl rfl) rfl rfl rfl rfl rfl (.inr rfl) rfl rfl
    have hopen : ¬ s.state.terminal := by
      rintro (hfinished | haborted')
      · rw [hi.idle hfinished] at hflight
        cases hflight
      · exact haborted haborted'
    obtain ⟨hempty, hres, hquiet⟩ := h.early hopen
    have hreports : s.reports = [] := by rw [h.reports, hempty]; rfl
    by_cases hcode : code = .ok
    · subst hcode
      obtain ⟨base, -, hvalid⟩ := hi.live haborted
      have hnext := (select_valid (hi.selects haborted _ _ _ hflight) hvalid).2
      rw [settle_ok haborted]
      by_cases hfinished : t.next.phase = .finished
      · rw [if_pos hfinished]
        refine ⟨fun hn => absurd (.inl hfinished) hn, fun _ => ⟨by simp [System.conclude, hfinished], _, _, .inl ⟨hfinished, rfl⟩, ?_, owes_append hquiet _⟩,
          h.waits, ?_⟩
        · simp [System.conclude, hempty]
        · simp [System.conclude, hempty, hreports]
      · have hlive := hnext.not_aborted
        rw [if_neg hfinished]
        refine ⟨fun _ => ⟨hempty, by simp [System.conclude, hfinished, hres], quiet_append hquiet (.inl rfl)⟩, fun hover => ?_,
          h.waits, ?_⟩
        · rcases hover with hover | hover
          · exact absurd hover hfinished
          · exact absurd hover hlive
        · simp [System.conclude, hempty, hreports]
    · by_cases hblock : code = .wouldBlock
      · subst hblock
        rw [settle_wouldBlock haborted]
        exact h.joined (.inl rfl) rfl rfl rfl rfl rfl (.inr rfl) rfl rfl
      · rw [settle_failed haborted hcode hblock]
        exact h.joined (.inr ⟨code, true, rfl⟩) rfl rfl rfl rfl rfl (.inr rfl) rfl rfl
  · cases hs

lemma Whole.unmarked {x : State} {whole : List Action} (h : Whole x whole) (reason : ErrorCode) (close : Bool) :
    .markCancelled reason close ∉ whole := by
  rcases h with ⟨-, rfl⟩ | ⟨-, reason', close', rfl⟩
  · cases x.progress.close <;> simp [completion]
  · cases close' <;> simp [cancellation]

lemma Tails.logged {thread : ℕ} {action : Action} (h : Tails s) (hover : s.state.terminal)
    (hthread : s.tails[thread]? = some (action :: rest)) (hothers : OthersQuiet thread s.tails) {whole : List Action}
    (hwhole : Whole s.state whole) (hlogged : s.log ++ action :: rest = whole) (hprogress : s'.state.progress = s.state.progress)
    (hreserved : s'.state.reserved = s.state.reserved) (hstatus : s'.state.status = s.state.status)
    (hwaits : s'.state.waitsRetired = true ↔ s.state.waitsRetired = true ∨ action = .retireWaits)
    (htails : s'.tails = s.tails.set thread rest) (hlog : s'.log = s.log ++ [action])
    (hreports : s'.reports = s.reports ++ (action.reported s.state.status).toList) : Tails s' := by
  have hterminal : s'.state.terminal := by
    rw [State.terminal, hprogress]
    exact hover
  refine ⟨fun hn => absurd hterminal hn, fun _ => ⟨hreserved.trans (h.ended hover).1, whole, rest, ?_, ?_, ?_⟩, ?_, ?_⟩
  · rw [Whole, hprogress]
    exact hwhole
  · rw [hlog, List.append_assoc, List.singleton_append, hlogged]
  · rw [htails]
    exact owes_set (List.getElem?_eq_some_iff.mp hthread).1 hothers rest
  · rw [hwaits, hlog, h.waits, List.mem_append, List.mem_singleton, eq_comm (a := action)]
  · rw [hreports, hlog, hstatus, List.filterMap_append, h.reports]
    cases action <;> rfl

lemma Tails.act {thread : ℕ} (h : Tails s) (hs : s.act thread = some s') : Tails s' := by
  rw [System.act] at hs
  split at hs
  · rename_i action rest hthread
    obtain rfl := Option.some.inj hs
    have hlt := (List.getElem?_eq_some_iff.mp hthread).1
    by_cases hover : s.state.terminal
    · obtain ⟨hres, whole, rest', hwhole, hlogged, k, hk, hothers⟩ := h.ended hover
      by_cases heq : thread = k
      · subst heq
        obtain rfl := Option.some.inj (hk.symm.trans hthread)
        cases action with
        | markCancelled reason close => exact absurd (hlogged ▸ by simp) (hwhole.unmarked reason close)
        | report reason => exact h.logged hover hthread hothers hwhole hlogged rfl rfl rfl (by simp [System.perform]) rfl rfl rfl
        | _ => exact h.logged hover hthread hothers hwhole hlogged rfl rfl rfl (by simp [System.perform]) rfl rfl (List.append_nil _).symm
      · rcases hothers thread _ heq hthread with hnil | ⟨reason, close, htail⟩
        · cases hnil
        · obtain ⟨rfl, rfl⟩ := List.cons.inj htail
          rw [System.perform, if_pos hover]
          exact ⟨fun hn => absurd hover hn, fun _ => ⟨hres, whole, rest', hwhole, hlogged, owes_set_ne hk hothers heq hlt⟩,
            h.waits, h.reports⟩
    · obtain ⟨hempty, -, hquiet⟩ := h.early hover
      rcases hquiet thread _ hthread with hnil | ⟨reason, close, htail⟩
      · cases hnil
      · -- the mark decides that the response is aborted, and its thread does what that takes
        obtain ⟨rfl, rfl⟩ := List.cons.inj htail
        rw [System.perform, if_neg hover]
        refine ⟨fun hn => absurd (.inr rfl) hn, fun _ => ⟨rfl, cancellation reason close, _, .inr ⟨rfl, reason, close, rfl⟩, ?_,
          owes_set hlt (fun i tail _ => hquiet i tail) _⟩, h.waits, h.reports⟩
        rw [hempty]
        simp
  · cases hs

lemma Tails.step {e : Step} (h : Tails s) (hi : Inv c s) (hs : HttpResponseState.step c s e = some s') : Tails s' := by
  cases e with
  | call call =>
    obtain rfl := Option.some.inj hs
    rw [System.call]
    split
    · exact h.joined (.inl rfl) rfl rfl rfl rfl rfl (.inl rfl) rfl rfl
    · exact h
  | send code =>
    simp only [HttpResponseState.step, System.send] at hs
    split at hs
    · split at hs
      · cases hs
      obtain rfl := Option.some.inj hs
      exact h.joined (.inl rfl) rfl rfl rfl rfl rfl (.inl rfl) rfl rfl
    · cases hs
  | settle => exact h.settle hi hs
  | abort =>
    obtain rfl := Option.some.inj hs
    exact h.joined (.inr ⟨_, _, rfl⟩) rfl rfl rfl rfl rfl (.inr rfl) rfl rfl
  | cancel reason =>
    obtain rfl := Option.some.inj hs
    exact h.joined (.inr ⟨_, _, rfl⟩) rfl rfl rfl rfl rfl (.inr rfl) rfl rfl
  | act thread => exact h.act hs

lemma Tails.of_reachable (h : Reachable (HttpResponseState.step c) Initial s) : Tails s := by
  have hboth := h.invariant (P := fun s => Inv c s ∧ Tails s) (fun _ h => ⟨.initial h, .initial h⟩)
    fun _ _ _ h hs => ⟨h.1.step hs, h.2.step h.1 hs⟩
  exact hboth.2

/-- A response is over once: as finished, with the report `Ok` before the waits are retired and `finished` is called
after, or as aborted, with the report of its reason, a stop for the user and a close. -/
theorem response_settles_once (h : Reachable (HttpResponseState.step c) Initial s) :
    (¬ s.state.terminal → s.log = [] ∧ s.reports = [] ∧ s.state.reserved = true) ∧
    (s.state.terminal → s.state.reserved = false ∧ ∃ whole, Whole s.state whole ∧ s.log <+: whole ∧
      ((∀ tail ∈ s.tails, tail = []) → s.log = whole)) ∧
    s.reports.length ≤ 1 ∧ (∀ report ∈ s.reports, report.2 = s.state.status) ∧
    (.finished ∈ s.log → s.state.isFinished = true ∧ Encodes c s.accepted s.state.status s.wire) := by
  have htails := Tails.of_reachable h
  have hreported : s.log.filterMap (Action.reported s.state.status) = s.reports := htails.reports.symm
  have hover (hterminal : s.state.terminal) : ∃ whole, Whole s.state whole ∧ s.log <+: whole ∧
      ((∀ tail ∈ s.tails, tail = []) → s.log = whole) := by
    obtain ⟨-, whole, rest, hwhole, hlogged, k, hk, -⟩ := htails.ended hterminal
    refine ⟨whole, hwhole, ⟨rest, hlogged⟩, fun hquiet => ?_⟩
    rw [← hlogged, hquiet rest (List.mem_of_getElem? hk), List.append_nil]
  refine ⟨fun hearly => ?_, fun hterminal => ⟨(htails.ended hterminal).1, hover hterminal⟩, ?_, ?_, fun hlog => ?_⟩
  · obtain ⟨hempty, hres, -⟩ := htails.early hearly
    exact ⟨hempty, by rw [← hreported, hempty]; rfl, hres⟩
  · by_cases hterminal : s.state.terminal
    · obtain ⟨whole, hwhole, hsub, -⟩ := hover hterminal
      rw [← hreported]
      refine (hsub.filterMap _).length_le.trans ?_
      rcases hwhole with ⟨-, rfl⟩ | ⟨-, reason, close, rfl⟩
      · cases s.state.progress.close <;> exact le_rfl
      · cases close <;> exact le_rfl
    · rw [← hreported, (htails.early hterminal).1]
      exact Nat.zero_le _
  · intro report hreport
    rw [← hreported, List.mem_filterMap] at hreport
    obtain ⟨action, -, heq⟩ := hreport
    cases action <;> cases heq
    rfl
  · have hterminal : s.state.terminal := by
      by_contra hearly
      rw [(htails.early hearly).1] at hlog
      cases hlog
    obtain ⟨whole, hwhole, ⟨rest, heq⟩, -⟩ := hover hterminal
    rcases hwhole with ⟨hphase, rfl⟩ | ⟨-, reason, close, rfl⟩
    · have hretired : .retireWaits ∈ s.log := by
        rcases hl : s.log with _ | ⟨x, _ | ⟨y, _ | ⟨z, log⟩⟩⟩
        all_goals
          rw [hl] at heq hlog
          simp_all [completion]
      refine ⟨?_, (Inv.of_reachable h).whole hphase⟩
      simp [State.isFinished, hphase, htails.waits.mpr hretired]
    · have : Action.finished ∈ cancellation reason close := heq ▸ List.mem_append_left _ hlog
      cases close <;> simp [cancellation] at this

theorem response_settles_once_hello : ∃ s, Reachable (HttpResponseState.step {}) Initial s ∧
    s.log = [.report .ok, .stopWaits, .retireWaits, .finished] ∧ s.reports = [(.ok, 200)] ∧ s.state.isFinished = true := by
  have hrun : (run (HttpResponseState.step {}) {} (helloRun ++ [.abort, .act 3, .act 3, .act 3, .act 3, .act 4])).map
      (fun s => (s.log, s.reports)) = some ([.report .ok, .stopWaits, .retireWaits, .finished], [(.ok, 200)]) := by decide +kernel
  obtain ⟨s, hs, heq⟩ := Option.map_eq_some_iff.mp hrun
  obtain ⟨hlog, hreports⟩ := Prod.mk.inj heq
  have hreach : Reachable (HttpResponseState.step {}) Initial s := ⟨{}, rfl, _, hs⟩
  have hfinished := ((response_settles_once hreach).2.2.2.2 (by rw [hlog]; simp)).1
  exact ⟨s, hreach, hlog, hreports, hfinished⟩

end Tails

end ServerCore.Web.HttpResponseState
