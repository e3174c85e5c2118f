import ServerCore.Web.HttpResponse

/-! What a response leaves on the wire in every run: the beginning of one encoding. -/

namespace ServerCore.Web.HttpResponseState

open ServerCore.Core Foundations

def encodeBody (mode : ResponseBodyMode) (parts : List Bytes) : Bytes :=
  match mode with
  | .none => []
  | .chunked => parts.flatMap fun part => (chunkOf part).encode
  | _ => parts.flatten

def ending (mode : ResponseBodyMode) : Bytes := if mode = .chunked then finalChunk else []

/-- The whole response that the calls make: one head with the body that it announces, or a response with its body at
once. -/
inductive Encodes (c : Context) : List Call → ℕ → Bytes → Prop
  | streamed (now : ℤ) (value : HttpResponseHead) (prepared : PreparedResponseHead) (parts : List Bytes) :
      prepare c now value = .ok prepared → [] ∉ parts → (prepared.mode = .none → parts = []) →
      (prepared.mode = .fixedLength → parts.flatten.length = prepared.length) →
      Encodes c (.start now value :: parts.map .write ++ [.finish]) value.status
        (prepared.wire ++ encodeBody prepared.mode parts ++ ending prepared.mode)
  | complete (now : ℤ) (response : HttpResponse) (prepared : PreparedResponseHead) :
      prepareResponseHead now response.status (mergePolicyHeaders response.headers c.policyHeaders) (some response.body.length)
        c.head (response.close || c.requestClose) c.options.maxHeaderBytes true = .ok prepared →
      Encodes c [.complete now response] response.status
        (prepared.wire ++ if prepared.mode = .none then [] else response.body)

/-- The bytes begin a response that begins with the calls. -/
def Within (c : Context) (accepted : List Call) (wire : Bytes) : Prop :=
  accepted = [] ∧ wire = [] ∨ ∃ calls status whole, Encodes c calls status whole ∧ accepted <+: calls ∧ wire <+: whole

structure Begun (c : Context) (p : Progress) (now : ℤ) (value : HttpResponseHead) (prepared : PreparedResponseHead)
    (parts : List Bytes) (status : ℕ) (wire : Bytes) : Prop where
  head : prepare c now value = .ok prepared
  status : status = value.status
  mode : p.mode = prepared.mode
  length : p.length = prepared.length
  pieces : [] ∉ parts
  bodiless : p.mode = .none → parts = []
  written : p.mode = .fixedLength → p.written = parts.flatten.length ∧ p.written ≤ p.length
  encoded : wire = prepared.wire ++ encodeBody p.mode parts

inductive Valid (c : Context) (p : Progress) (accepted : List Call) (status : ℕ) (wire : Bytes) : Prop
  | new : p.phase = .new → accepted = [] → wire = [] → Valid c p accepted status wire
  | streaming (now : ℤ) (value : HttpResponseHead) (prepared : PreparedResponseHead) (parts : List Bytes) :
      p.phase = .streaming → accepted = .start now value :: parts.map .write →
      Begun c p now value prepared parts status wire → Valid c p accepted status wire
  | finished : p.phase = .finished → Encodes c accepted status wire → Valid c p accepted status wire

section Encodings

variable {c : Context} {p : Progress} {wire x y : Bytes} {now : ℤ} {value : HttpResponseHead} {prepared : PreparedResponseHead}
  {parts : List Bytes} {accepted accepted' : List Call} {status : ℕ}

lemma Valid.not_aborted (h : Valid c p accepted status wire) : p.phase ≠ .aborted := by
  intro ha
  cases h with
  | new hphase _ _ => rw [ha] at hphase; cases hphase
  | streaming _ _ _ _ hphase _ _ => rw [ha] at hphase; cases hphase
  | finished hphase _ => rw [ha] at hphase; cases hphase

lemma encodeBody_append (mode : ResponseBodyMode) (x y : List Bytes) :
    encodeBody mode (x ++ y) = encodeBody mode x ++ encodeBody mode y := by
  cases mode with
  | none => rfl
  | chunked => exact List.flatMap_append
  | fixedLength => exact List.flatten_append
  | closeDelimited => exact List.flatten_append

lemma Within.of_isPrefix (h : Within c accepted wire) (hbegins : accepted' <+: accepted) : Within c accepted' wire := by
  rcases h with ⟨rfl, hwire⟩ | ⟨calls, status, whole, hwhole, haccepted, hwire⟩
  · exact .inl ⟨List.prefix_nil.mp hbegins, hwire⟩
  · exact .inr ⟨calls, status, whole, hwhole, hbegins.trans haccepted, hwire⟩

lemma Begun.within (h : Begun c p now value prepared parts status wire) :
    Within c (.start now value :: parts.map .write) wire := by
  refine .inr ?_
  by_cases hfixed : p.mode = .fixedLength
  · -- zeros make up for the bytes that are still owed
    obtain ⟨hwritten, hle⟩ := h.written hfixed
    obtain ⟨rest, hrest, hlength⟩ : ∃ rest : List Bytes, [] ∉ rest ∧ rest.flatten.length = p.length - p.written := by
      by_cases hzero : p.length - p.written = 0
      · exact ⟨[], by simp, by simp [hzero]⟩
      · refine ⟨[List.replicate (p.length - p.written) 0], ?_, by simp⟩
        rw [List.mem_singleton, eq_comm, List.replicate_eq_nil_iff]
        exact hzero
    have hwhole := @Encodes.streamed c now value prepared (parts ++ rest) h.head (by simp [h.pieces, hrest])
      (fun hnone => by rw [← h.mode, hfixed] at hnone; cases hnone)
      (fun _ => by rw [List.flatten_append, List.length_append, hlength, ← h.length]; omega)
    refine ⟨_, _, _, hwhole, ?_, ?_⟩
    · rw [List.map_append, ← List.cons_append, List.append_assoc]
      exact List.prefix_append _ _
    · rw [h.encoded, h.mode, encodeBody_append, ← List.append_assoc, List.append_assoc]
      exact List.prefix_append _ _
  · have hwhole := @Encodes.streamed c now value prepared parts h.head h.pieces (fun hnone => h.bodiless (h.mode.trans hnone))
      (fun hmode => absurd (h.mode.trans hmode) hfixed)
    refine ⟨_, _, _, hwhole, List.prefix_append _ _, ?_⟩
    rw [h.encoded, h.mode]
    exact List.prefix_append _ _

lemma Valid.within (h : Valid c p accepted status wire) : Within c accepted wire := by
  cases h with
  | new _ haccepted hwire => exact .inl ⟨haccepted, hwire⟩
  | streaming now value prepared parts _ haccepted h =>
    rw [haccepted]
    exact h.within
  | finished _ h => exact .inr ⟨accepted, status, wire, h, List.prefix_refl accepted, List.prefix_refl wire⟩

lemma prepareResponseHead_bounds {maxHeaders : ℕ} {headers : List (Bytes × Bytes)} {length : Option ℕ}
    {head close chunked : Bool}
    (h : prepareResponseHead now status headers length head close maxHeaders chunked = .ok prepared) :
    status ≠ 0 ∧ prepared.length ≤ length.getD 0 := by
  obtain ⟨hstatus, -, -, -, -, -, -, -, -, -, -, -, rfl⟩ := prepareResponseHead_steps.mp h
  simp only [Bool.or_eq_true, decide_eq_true_eq, not_or, not_lt] at hstatus
  refine ⟨by omega, ?_⟩
  dsimp only
  split
  · exact Nat.zero_le _
  · exact le_rfl

lemma prepare_bounds (h : prepare c now value = .ok prepared) :
    value.status ≠ 0 ∧ prepared.length < sizeModulus := by
  obtain ⟨hstatus, hlength⟩ := prepareResponseHead_bounds h
  refine ⟨hstatus, lt_of_le_of_lt hlength ?_⟩
  cases value.contentLength with
  | none => decide
  | some length => exact length.toNat_lt

end Encodings

section Transactions

variable {c : Context} {s : State} {t : Transaction} {wire : Bytes} {accepted : List Call} {status : ℕ}

def Transaction.statusAfter (t : Transaction) (status : ℕ) : ℕ := if t.status ≠ 0 then t.status else status

lemma refusal_none {wanted : Phase} {otherwise : ErrorCode} (h : s.refusal wanted otherwise = none) :
    s.sending = false ∧ s.progress.phase = wanted := by
  rw [State.refusal] at h
  split_ifs at h with hterminal hsending hphase
  exact ⟨by simpa using hsending, by simpa using hphase⟩

lemma Valid.of_new (h : Valid c s.progress accepted status wire) (hp : s.progress.phase = .new) :
    accepted = [] ∧ wire = [] := by
  cases h with
  | new _ haccepted hwire => exact ⟨haccepted, hwire⟩
  | streaming _ _ _ _ hphase _ _ => rw [hp] at hphase; cases hphase
  | finished hphase _ => rw [hp] at hphase; cases hphase

lemma Valid.of_streaming (h : Valid c s.progress accepted status wire) (hp : s.progress.phase = .streaming) :
    ∃ now value prepared parts, accepted = .start now value :: parts.map .write ∧
      Begun c s.progress now value prepared parts status wire := by
  cases h with
  | new hphase _ _ => rw [hp] at hphase; cases hphase
  | streaming now value prepared parts _ haccepted h => exact ⟨now, value, prepared, parts, haccepted, h⟩
  | finished hphase _ => rw [hp] at hphase; cases hphase

lemma Valid.of_finished (h : Valid c s.progress accepted status wire) (hp : s.progress.phase = .finished) :
    Encodes c accepted status wire := by
  cases h with
  | new hphase _ _ => rw [hp] at hphase; cases hphase
  | streaming _ _ _ _ hphase _ _ => rw [hp] at hphase; cases hphase
  | finished _ h => exact h

lemma start_ok {now : ℤ} {value : HttpResponseHead} : start c now value s = .ok t ↔
    s.refusal .new .alreadyExists = none ∧ ¬ (c.connect ∧ value.status ≥ 200 ∧ value.status < 300) ∧
      ∃ prepared, prepare c now value = .ok prepared ∧ t = ⟨prepared.wire, ⟨.streaming, prepared.mode, prepared.length, 0,
        value.close || c.requestClose || prepared.mode = .closeDelimited⟩, value.status⟩ := by
  rw [start]
  cases s.refusal .new .alreadyExists with
  | some code => simp [refused]
  | none =>
    dsimp only
    split
    · next hconnect => simp [refused, hconnect]
    · next hconnect =>
      cases prepare c now value with
      | error status => simp
      | ok prepared =>
        refine ⟨fun h => ⟨rfl, hconnect, prepared, rfl, (Except.ok.inj h).symm⟩, ?_⟩
        rintro ⟨-, -, _, ⟨⟩, rfl⟩
        rfl

lemma start_valid {now : ℤ} {value : HttpResponseHead} (h : start c now value s = .ok t)
    (hv : Valid c s.progress accepted status wire) :
    s.sending = false ∧ Valid c t.next (accepted ++ [.start now value]) (t.statusAfter status) (wire ++ t.wire) := by
  obtain ⟨hrefusal, -, prepared, hprepared, rfl⟩ := start_ok.mp h
  obtain ⟨hsending, hphase⟩ := refusal_none hrefusal
  obtain ⟨rfl, rfl⟩ := hv.of_new hphase
  refine ⟨hsending, .streaming now value prepared [] rfl rfl
    ⟨hprepared, ?_, rfl, rfl, by simp, fun _ => rfl, fun _ => ⟨rfl, Nat.zero_le _⟩, ?_⟩⟩
  · exact if_pos (prepare_bounds hprepared).1
  · cases hmode : prepared.mode <;> simp [encodeBody]

lemma encodeWrite_ok {mode : ResponseBodyMode} {bytes wire : Bytes} (h : encodeWrite c mode bytes = .ok wire) (hmode : mode ≠ .none) :
    wire = encodeBody mode [bytes] := by
  rw [encodeWrite] at h
  split at h
  · rename_i hchunked
    rw [hchunked, (encodeChunk_ok h).1]
    exact (List.append_nil _).symm
  · rename_i hchunked
    obtain rfl := Except.ok.inj h
    cases mode with
    | none => exact absurd rfl hmode
    | chunked => exact absurd rfl hchunked
    | fixedLength => exact (List.append_nil _).symm
    | closeDelimited => exact (List.append_nil _).symm

lemma write_ok {bytes : Bytes} (h : write c bytes s = .ok (some t)) :
    s.refusal .streaming .invalidArgument = none ∧ bytes ≠ [] ∧ s.progress.mode ≠ .none ∧ bytes.length ≤ maxWriteBytes c ∧
      (s.progress.mode = .fixedLength → bytes.length ≤ sizeSub s.progress.length s.progress.written) ∧
      ∃ wire, encodeWrite c s.progress.mode bytes = .ok wire ∧
        t = ⟨wire, { s.progress with written := (s.progress.written + bytes.length) % sizeModulus }, 0⟩ := by
  rw [write] at h
  split at h
  · cases h
  rename_i hrefusal
  split_ifs at h with hempty hmode hmax hfixed
  · cases h
  split at h
  · cases h
  rename_i wire hwire
  exact ⟨hrefusal, hempty, hmode, not_lt.mp hmax, fun hm => not_lt.mp fun hlt => hfixed ⟨hm, hlt⟩, wire, hwire,
    (Option.some.inj (Except.ok.inj h)).symm⟩

lemma write_valid {bytes : Bytes} (h : write c bytes s = .ok (some t)) (hv : Valid c s.progress accepted status wire) :
    s.sending = false ∧ Valid c t.next (accepted ++ [.write bytes]) (t.statusAfter status) (wire ++ t.wire) := by
  obtain ⟨hrefusal, hempty, hmode, -, hfixed, encoded, hwire, rfl⟩ := write_ok h
  obtain ⟨hsending, hphase⟩ := refusal_none hrefusal
  obtain ⟨now, value, prepared, parts, rfl, hb⟩ := hv.of_streaming hphase
  refine ⟨hsending, .streaming now value prepared (parts ++ [bytes]) hphase (by simp)
    ⟨hb.head, hb.status, hb.mode, hb.length, ?_, fun hnone => absurd hnone hmode, ?_, ?_⟩⟩
  · simp only [List.mem_append, List.mem_singleton, not_or]
    exact ⟨hb.pieces, hempty.symm⟩
  · intro hm
    obtain ⟨hwritten, hle⟩ := hb.written hm
    have hlength := (prepare_bounds hb.head).2
    rw [← hb.length] at hlength
    have hroom := hfixed hm
    rw [sizeSub_eq hle] at hroom
    simp only [List.flatten_append, List.flatten_singleton, List.length_append]
    rw [Nat.mod_eq_of_lt (by omega)]
    omega
  · simp only [encodeBody_append, hb.encoded, encodeWrite_ok hwire hmode, List.append_assoc]

lemma finish_valid (h : finish s = .ok t) (hv : Valid c s.progress accepted status wire) :
    s.sending = false ∧ Valid c t.next (accepted ++ [.finish]) (t.statusAfter status) (wire ++ t.wire) := by
  rw [finish] at h
  cases hrefusal : s.refusal .streaming .invalidArgument with
  | some code => rw [hrefusal] at h; cases h
  | none =>
    obtain ⟨hsending, hphase⟩ := refusal_none hrefusal
    obtain ⟨now, value, prepared, parts, rfl, hb⟩ := hv.of_streaming hphase
    simp only [hrefusal] at h
    split at h
    · cases h
    rename_i hwritten
    obtain rfl := Except.ok.inj h
    obtain rfl := hb.status
    have hwhole := @Encodes.streamed c now value prepared parts hb.head hb.pieces
      (fun hnone => hb.bodiless (hb.mode.trans hnone)) (fun hm => by
        have hm := hb.mode.trans hm
        rw [← (hb.written hm).1, ← hb.length]
        by_contra hne
        exact hwritten ⟨hm, hne⟩)
    refine ⟨hsending, .finished rfl ?_⟩
    rw [← hb.mode, ← hb.encoded] at hwhole
    exact hwhole

lemma serializeResponse_some {now : ℤ} {response : HttpResponse} {head close : Bool} {maxHeaders maxBody : ℕ} :
    serializeResponse now response head close maxHeaders maxBody = some wire ↔ response.body.length ≤ maxBody ∧
      ∃ prepared, prepareResponseHead now response.status response.headers (some response.body.length) head close maxHeaders true =
        .ok prepared ∧ wire = prepared.wire ++ if prepared.mode = .none then [] else response.body := by
  rw [serializeResponse]
  split
  · next hlarge => simp [hlarge]
  · next hfits =>
    cases prepareResponseHead now response.status response.headers (some response.body.length) head close maxHeaders true with
    | error status => simp
    | ok prepared =>
      by_cases hmode : prepared.mode = .none
      · simp [hmode, not_lt.mp hfits, @eq_comm Bytes wire]
      · simp [hmode, not_lt.mp hfits, @eq_comm Bytes wire]

lemma complete_ok {now : ℤ} {response : HttpResponse} : complete c now response s = .ok t ↔
    s.refusal .new .alreadyExists = none ∧ response.body.length ≤ c.options.maxResponseBodyBytes ∧
      ¬ (c.connect ∧ response.status ≥ 200 ∧ response.status < 300) ∧
      ∃ wire, serializeResponse now { response with headers := mergePolicyHeaders response.headers c.policyHeaders } c.head
          (response.close || c.requestClose) c.options.maxHeaderBytes c.options.maxResponseBodyBytes = some wire ∧
        t = ⟨wire, ⟨.finished, .none, 0, 0, response.close || c.requestClose⟩, response.status⟩ := by
  rw [complete]
  cases s.refusal .new .alreadyExists with
  | some code => simp [refused]
  | none =>
    dsimp only
    split
    · next hlarge => simp [refused, hlarge]
    next hfits =>
    split
    · next hconnect => simp [refused, hconnect]
    next hconnect =>
    split
    · next hnone => simp [refused, hnone]
    · next wire hwire =>
      refine ⟨fun h => ⟨rfl, not_lt.mp hfits, hconnect, wire, hwire, (Except.ok.inj h).symm⟩, ?_⟩
      rintro ⟨-, -, -, _, hwire', rfl⟩
      obtain rfl := Option.some.inj (hwire.symm.trans hwire')
      rfl

lemma complete_valid {now : ℤ} {response : HttpResponse} (h : complete c now response s = .ok t)
    (hv : Valid c s.progress accepted status wire) :
    s.sending = false ∧ Valid c t.next (accepted ++ [.complete now response]) (t.statusAfter status) (wire ++ t.wire) := by
  obtain ⟨hrefusal, -, -, _, hwire, rfl⟩ := complete_ok.mp h
  obtain ⟨-, prepared, hprepared, rfl⟩ := serializeResponse_some.mp hwire
  obtain ⟨hsending, hphase⟩ := refusal_none hrefusal
  obtain ⟨rfl, rfl⟩ := hv.of_new hphase
  refine ⟨hsending, .finished rfl ?_⟩
  rw [Transaction.statusAfter, if_pos (prepareResponseHead_bounds hprepared).1]
  exact .complete now response prepared hprepared

lemma map_ok {α β : Type} {f : α → β} {x : Except Status α} {b : β} (h : x.map f = .ok b) : ∃ a, x = .ok a ∧ f a = b := by
  cases x with
  | error status => cases h
  | ok a => exact ⟨a, rfl, Except.ok.inj h⟩

lemma select_valid {call : Call} (h : select c s call = .ok (some t)) (hv : Valid c s.progress accepted status wire) :
    s.sending = false ∧ Valid c t.next (accepted ++ [call]) (t.statusAfter status) (wire ++ t.wire) := by
  cases call with
  | start now value =>
    obtain ⟨t', ht', heq⟩ := map_ok h
    obtain rfl := Option.some.inj heq
    exact start_valid ht' hv
  | write bytes => exact write_valid h hv
  | finish =>
    obtain ⟨t', ht', heq⟩ := map_ok h
    obtain rfl := Option.some.inj heq
    exact finish_valid ht' hv
  | complete now response =>
    obtain ⟨t', ht', heq⟩ := map_ok h
    obtain rfl := Option.some.inj heq
    exact complete_valid ht' hv

end Transactions

def System.sent (s : System) : Bytes :=
  match s.flight with
  | some ⟨_, t, answer⟩ => if answer = some .ok then t.wire else []
  | none => []

structure Inv (c : Context) (s : System) : Prop where
  sending : s.state.sending = s.flight.isSome
  live : s.state.progress.phase ≠ .aborted → ∃ base, s.wire = base ++ s.sent ∧ Valid c s.state.progress s.accepted s.state.status base
  selects : s.state.progress.phase ≠ .aborted → ∀ call t answer, s.flight = some ⟨call, t, answer⟩ →
    select c { s.state with sending := false } call = .ok (some t)
  within : Within c s.accepted s.wire
  pending : ∀ call t, s.flight = some ⟨call, t, none⟩ → Within c s.accepted (s.wire ++ t.wire)

section Runs

variable {c : Context} {s s' : System} {t : Transaction} {code : ErrorCode}

lemma select_congr {x y : State} (hprogress : x.progress = y.progress) (hsending : x.sending = y.sending) (call : Call) :
    select c x call = select c y call := by
  obtain ⟨p, sending, _, _, _, _⟩ := x
  obtain ⟨q, sending', _, _, _, _⟩ := y
  obtain rfl : p = q := hprogress
  obtain rfl : sending = sending' := hsending
  cases call <;> rfl

lemma select_terminal {x : State} (h : x.terminal) (call : Call) :
    select c x call = .error (.failWithoutMessage .closed) := by
  have hrefusal (wanted : Phase) (otherwise : ErrorCode) : x.refusal wanted otherwise = some .closed := if_pos h
  cases call <;> simp only [select, start, write, finish, complete, hrefusal] <;> rfl

lemma Inv.initial (h : Initial s) : Inv c s := by
  obtain rfl := h
  exact ⟨rfl, fun _ => ⟨[], rfl, .new rfl rfl rfl⟩, by simp, .inl ⟨rfl, rfl⟩, by simp⟩

lemma Inv.same (h : Inv c s) (hprogress : s'.state.progress = s.state.progress) (hsending : s'.state.sending = s.state.sending)
    (hstatus : s'.state.status = s.state.status) (hflight : s'.flight = s.flight) (hwire : s'.wire = s.wire)
    (haccepted : s'.accepted = s.accepted) : Inv c s' := by
  have hsent : s'.sent = s.sent := by rw [System.sent, System.sent, hflight]
  refine ⟨by rw [hsending, hflight, h.sending], fun hp => ?_, fun hp call t answer hf => ?_, ?_, ?_⟩
  · rw [hprogress] at hp
    rw [hwire, hsent, hprogress, haccepted, hstatus]
    exact h.live hp
  · rw [hprogress] at hp
    rw [hflight] at hf
    rw [← h.selects hp call t answer hf]
    apply select_congr
    · exact hprogress
    · rfl
  · rw [hwire, haccepted]
    exact h.within
  · rw [hflight, hwire, haccepted]
    exact h.pending

lemma Inv.call (h : Inv c s) (call : Call) : Inv c (s.call c call) := by
  rw [System.call]
  split
  · rename_i t hselect
    have hlive : s.state.progress.phase ≠ .aborted := by
      intro haborted
      rw [select_terminal (.inr haborted)] at hselect
      cases hselect
    obtain ⟨base, hwire, hvalid⟩ := h.live hlive
    obtain ⟨hsending, hnext⟩ := select_valid hselect hvalid
    have hflight : s.flight = none := by
      have := h.sending
      rw [hsending] at this
      simpa using this.symm
    have hsent : s.sent = [] := by rw [System.sent, hflight]
    rw [hsent, List.append_nil] at hwire
    refine ⟨rfl, fun _ => ⟨base, ?_, hvalid⟩, fun _ call' t' answer hf => ?_, h.within, fun call' t' hf => ?_⟩
    · simp [System.sent, hwire]
    · simp only [Option.some.injEq, Flight.mk.injEq] at hf
      obtain ⟨rfl, rfl, -⟩ := hf
      rw [← hselect]
      apply select_congr
      · rfl
      · exact hsending.symm
    · simp only [Option.some.injEq, Flight.mk.injEq] at hf
      obtain ⟨rfl, rfl, -⟩ := hf
      rw [hwire]
      exact hnext.within.of_isPrefix (List.prefix_append _ _)
  · exact h

lemma Inv.send (h : Inv c s) (hs : s.send code = some s') : Inv c s' := by
  rw [System.send] at hs
  split at hs
  · rename_i call t hflight
    split at hs
    · cases hs
    obtain rfl := Option.some.inj hs
    have hsent : s.sent = [] := by rw [System.sent, hflight]; rfl
    have hsending : s.state.sending = true := by rw [h.sending, hflight]; rfl
    refine ⟨hsending, fun hp => ?_, fun hp call' t' answer hf => ?_, ?_, by simp⟩
    · obtain ⟨base, hwire, hvalid⟩ := h.live hp
      rw [hsent, List.append_nil] at hwire
      refine ⟨base, ?_, hvalid⟩
      simp only [System.sent, Option.some.injEq]
      split
      · rw [hwire]
      · rw [hwire, List.append_nil]
    · simp only [Option.some.injEq, Flight.mk.injEq] at hf
      obtain ⟨rfl, rfl, -⟩ := hf
      exact h.selects hp _ _ _ hflight
    · dsimp only
      split
      · exact h.pending _ _ hflight
      · exact h.within
  · cases hs

lemma settle_aborted {x : State} (h : x.progress.phase = .aborted) :
    x.settle t code = (.closed, { x with sending := false }, []) := if_pos h

lemma settle_ok {x : State} (h : x.progress.phase ≠ .aborted) :
    x.settle t .ok = (.ok, { x with
      progress := t.next
      sending := false
      blockedWireBytes := 0
      status := t.statusAfter x.status
      reserved := x.reserved && !(decide (t.next.phase = .finished)) },
      if t.next.phase = .finished then completion t.next.close else []) := if_neg h

lemma settle_wouldBlock {x : State} (h : x.progress.phase ≠ .aborted) :
    x.settle t .wouldBlock = (.wouldBlock, { x with sending := false, blockedWireBytes := t.wire.length }, []) := if_neg h

lemma settle_failed {x : State} (h : x.progress.phase ≠ .aborted) (hok : code ≠ .ok) (hblock : code ≠ .wouldBlock) :
    x.settle t code = (code, { x with sending := false }, [.markCancelled code true]) := by
  simp [State.settle, h, hok, hblock]

lemma Inv.settle (h : Inv c s) (hs : s.settle = some s') : Inv c s' := by
  rw [System.settle] at hs
  split at hs
  · rename_i call t code hflight
    obtain rfl := Option.some.inj hs
    by_cases haborted : s.state.progress.phase = .aborted
    · rw [settle_aborted haborted]
      exact ⟨rfl, fun hp => absurd haborted hp, by simp [System.conclude], h.within, by simp [System.conclude]⟩
    obtain ⟨base, hwire, hvalid⟩ := h.live haborted
    by_cases hcode : code = .ok
    · subst hcode
      have hsent : s.sent = t.wire := by rw [System.sent, hflight]; rfl
      have hnext := (select_valid (h.selects haborted _ _ _ hflight) hvalid).2
      rw [hsent] at hwire
      rw [settle_ok haborted]
      refine ⟨rfl, fun _ => ⟨base ++ t.wire, hwire.trans (List.append_nil _).symm, hnext⟩, by simp [System.conclude], ?_,
        by simp [System.conclude]⟩
      rw [System.conclude, hwire]
      exact hnext.within
    have hsent : s.sent = [] := by
      rw [System.sent, hflight]
      exact if_neg (by simpa using hcode)
    rw [hsent] at hwire
    by_cases hblock : code = .wouldBlock
    · subst hblock
      rw [settle_wouldBlock haborted]
      exact ⟨rfl, fun _ => ⟨base, hwire, hvalid⟩, by simp [System.conclude], h.within, by simp [System.conclude]⟩
    · rw [settle_failed haborted hcode hblock, System.conclude, if_neg hcode]
      exact ⟨rfl, fun _ => ⟨base, hwire, hvalid⟩, by simp, h.within, by simp⟩
  · cases hs

lemma Inv.perform (h : Inv c s) (thread : ℕ) (rest : List Action) (action : Action) : Inv c (s.perform thread rest action) := by
  cases action with
  | markCancelled reason close =>
    rw [System.perform]
    split
    · exact h.same rfl rfl rfl rfl rfl rfl
    · exact ⟨h.sending, fun hp => absurd rfl hp, fun hp => absurd rfl hp, h.within, h.pending⟩
  | report reason => exact h.same rfl rfl rfl rfl rfl rfl
  | stopWaits => exact h.same rfl rfl rfl rfl rfl rfl
  | retireWaits => exact h.same rfl rfl rfl rfl rfl rfl
  | finished => exact h.same rfl rfl rfl rfl rfl rfl
  | stopUser => exact h.same rfl rfl rfl rfl rfl rfl
  | closeAfterSend => exact h.same rfl rfl rfl rfl rfl rfl
  | close => exact h.same rfl rfl rfl rfl rfl rfl

lemma Inv.step {e : Step} (h : Inv c s) (hs : step c s e = some s') : Inv c s' := by
  cases e with
  | call call =>
    obtain rfl := Option.some.inj hs
    exact h.call call
  | send code => exact h.send hs
  | settle => exact h.settle hs
  | abort =>
    obtain rfl := Option.some.inj hs
    exact h.same rfl rfl rfl rfl rfl rfl
  | cancel reason =>
    obtain rfl := Option.some.inj hs
    exact h.same rfl rfl rfl rfl rfl rfl
  | act thread =>
    simp only [HttpResponseState.step, System.act] at hs
    split at hs
    · obtain rfl := Option.some.inj hs
      exact h.perform thread _ _
    · cases hs

lemma Inv.of_reachable (h : Reachable (HttpResponseState.step c) Initial s) : Inv c s :=
  h.invariant (fun _ h => Inv.initial h) fun _ _ _ h hs => h.step hs

lemma Inv.idle (h : Inv c s) (hp : s.state.progress.phase = .finished) : s.flight = none := by
  cases hflight : s.flight with
  | none => rfl
  | some flight =>
    obtain ⟨call, t, answer⟩ := flight
    have hselect := h.selects (by rw [hp]; simp) call t answer hflight
    rw [@select_terminal c { s.state with sending := false } (.inl hp)] at hselect
    cases hselect

/-- Once a response is over only the transaction that is on its way may still be queued. -/
structure Over (s s' : System) : Prop where
  terminal : s'.state.terminal
  idle : s'.state.progress.phase = .finished → s'.flight = none
  wire : s'.flight = s.flight ∧ s'.wire = s.wire ∨ (∀ call t, s'.flight ≠ some ⟨call, t, none⟩) ∧
    (s'.wire = s.wire ∨ ∃ call t, s.flight = some ⟨call, t, none⟩ ∧ s'.wire = s.wire ++ t.wire)

lemma Over.same {s'' : System} (h : Over s s') (hprogress : s''.state.progress.phase = s'.state.progress.phase)
    (hflight : s''.flight = s'.flight) (hwire : s''.wire = s'.wire) : Over s s'' := by
  refine ⟨?_, by rw [hprogress, hflight]; exact h.idle, by rw [hflight, hwire]; exact h.wire⟩
  rw [State.terminal, hprogress]
  exact h.terminal

lemma Over.settle {s'' : System} (h : Over s s') (hs : s'.settle = some s'') : Over s s'' := by
  rw [System.settle] at hs
  split at hs
  · rename_i call t code hflight
    obtain rfl := Option.some.inj hs
    rcases h.terminal with hfinished | haborted
    · rw [h.idle hfinished] at hflight
      cases hflight
    rw [settle_aborted haborted]
    refine ⟨.inr haborted, fun _ => rfl, .inr ⟨by simp [System.conclude], ?_⟩⟩
    rcases h.wire with ⟨-, hwire⟩ | ⟨-, hwire⟩
    · exact .inl hwire
    · exact hwire
  · cases hs

lemma Over.step {s'' : System} {e : Step} (h : Over s s') (hs : HttpResponseState.step c s' e = some s'') : Over s s'' := by
  cases e with
  | call call =>
    obtain rfl := Option.some.inj hs
    rw [System.call, select_terminal h.terminal]
    exact h
  | send code =>
    simp only [HttpResponseState.step, System.send] at hs
    split at hs
    · rename_i call t hflight
      split at hs
      · cases hs
      obtain rfl := Option.some.inj hs
      refine ⟨h.terminal, fun hp => ?_, .inr ⟨by simp, ?_⟩⟩
      · rw [h.idle hp] at hflight
        cases hflight
      · rcases h.wire with ⟨heq, hwire⟩ | ⟨hno, -⟩
        · dsimp only
          split
          · exact .inr ⟨call, t, heq ▸ hflight, by rw [hwire]⟩
          · exact .inl hwire
        · exact absurd hflight (hno call t)
    · cases hs
  | settle => exact h.settle hs
  | abort =>
    obtain rfl := Option.some.inj hs
    exact h.same rfl rfl rfl
  | cancel reason =>
    obtain rfl := Option.some.inj hs
    exact h.same rfl rfl rfl
  | act thread =>
    simp only [HttpResponseState.step, System.act] at hs
    split at hs
    · rename_i action rest _
      obtain rfl := Option.some.inj hs
      cases action with
      | markCancelled reason close =>
        rw [System.perform, if_pos h.terminal]
        exact h.same rfl rfl rfl
      | report reason => exact h.same rfl rfl rfl
      | stopWaits => exact h.same rfl rfl rfl
      | retireWaits => exact h.same rfl rfl rfl
      | finished => exact h.same rfl rfl rfl
      | stopUser => exact h.same rfl rfl rfl
      | closeAfterSend => exact h.same rfl rfl rfl
      | close => exact h.same rfl rfl rfl
    · cases hs

lemma Inv.over (h : Inv c s) (hterminal : s.state.terminal) (hsteps : Steps (HttpResponseState.step c) s s') : Over s s' :=
  hsteps.invariant ⟨hterminal, h.idle, .inl ⟨rfl, rfl⟩⟩ fun _ _ _ h hs => h.step hs

lemma Inv.rests (h : Inv c s) (hflight : s.flight = none) (hlive : s.state.progress.phase ≠ .aborted) :
    Valid c s.state.progress s.accepted s.state.status s.wire := by
  obtain ⟨base, hwire, hvalid⟩ := h.live hlive
  rw [System.sent, hflight, List.append_nil] at hwire
  rw [hwire]
  exact hvalid

lemma Inv.whole (h : Inv c s) (hp : s.state.progress.phase = .finished) : Encodes c s.accepted s.state.status s.wire :=
  (h.rests (h.idle hp) (by rw [hp]; simp)).of_finished hp

/-- Whatever the order of the calls and the answers of the connection, the queued bytes begin one response, which begins
with the calls that were accepted. They are all of it once it has finished, and nothing follows; behind an abort only
what was on its way to `Send` may follow. -/
theorem wire_is_one_response (h : Reachable (HttpResponseState.step c) Initial s) :
    Within c s.accepted s.wire ∧
    (s.state.progress.phase = .streaming → s.flight = none →
      ∃ now value prepared parts, s.accepted = .start now value :: parts.map .write ∧
        Begun c s.state.progress now value prepared parts s.state.status s.wire) ∧
    (s.state.progress.phase = .finished → Encodes c s.accepted s.state.status s.wire ∧
      ∀ s', Steps (HttpResponseState.step c) s s' → s'.wire = s.wire) ∧
    (s.state.progress.phase = .aborted → ∀ s', Steps (HttpResponseState.step c) s s' →
      s'.wire = s.wire ∨ ∃ call t, s.flight = some ⟨call, t, none⟩ ∧ s'.wire = s.wire ++ t.wire) := by
  have hinv := Inv.of_reachable h
  refine ⟨hinv.within, fun hp hflight => ?_, fun hp => ⟨hinv.whole hp, fun s' hsteps => ?_⟩, fun hp s' hsteps => ?_⟩
  · exact (hinv.rests hflight (by rw [hp]; simp)).of_streaming hp
  · rcases (hinv.over (.inl hp) hsteps).wire with ⟨-, hwire⟩ | ⟨-, hwire | ⟨call, t, hflight, -⟩⟩
    · exact hwire
    · exact hwire
    · rw [hinv.idle hp] at hflight
      cases hflight
  · rcases (hinv.over (.inr hp) hsteps).wire with ⟨-, hwire⟩ | ⟨-, hwire⟩
    · exact .inl hwire
    · exact hwire

def helloHead : HttpResponseHead := { contentLength := some 2 }

def helloRun : List Step :=
  [.call (.start 0 helloHead), .send .ok, .settle, .call (.write [104, 105]), .send .wouldBlock, .settle,
    .call (.write [104, 105]), .send .ok, .settle, .call .finish, .send .ok, .settle]

theorem wire_is_one_response_hello : ∃ s, Reachable (HttpResponseState.step {}) Initial s ∧
    s.state.progress.phase = .finished ∧ Encodes {} [.start 0 helloHead, .write [104, 105], .finish] s.state.status s.wire := by
  have hrun : (run (HttpResponseState.step {}) {} helloRun).map (fun s => (s.state.progress.phase, s.accepted)) =
      some (.finished, [.start 0 helloHead, .write [104, 105], .finish]) := by decide +kernel
  obtain ⟨s, hs, heq⟩ := Option.map_eq_some_iff.mp hrun
  obtain ⟨hphase, haccepted⟩ := Prod.mk.inj heq
  have hreach : Reachable (HttpResponseState.step {}) Initial s := ⟨{}, rfl, helloRun, hs⟩
  have hwire := ((wire_is_one_response hreach).2.2.1 hphase).1
  rw [haccepted] at hwire
  exact ⟨s, hreach, hphase, hwire⟩

end Runs

end ServerCore.Web.HttpResponseState
