import ServerCore.Foundations.Transition
import ServerCore.Web.HttpFragmentation
import ServerCore.Web.HttpHead

/-! The limits of the parser hold in every state a session reaches, so that none of its subtractions wraps,
and every turn of its loop makes progress. -/

namespace ServerCore.Web.HttpParser

open ServerCore.Core ServerCore.Foundations

structure Within (p : HttpParser) : Prop where
  overhead : p.chunkOverhead ≤ p.maxHeaders
  trailers : p.trailerBytes ≤ p.maxHeaders
  body : p.bodyBytes ≤ p.maxBody

def Exact (c : Cursor) : Prop :=
  match c.parser.stage with
  | .fixedBody => takeCount c.parser c.input ≤ c.parser.remaining
  | .chunkSize => c.parser.chunkOverhead ≤ c.parser.maxHeaders ∧ c.parser.bodyBytes ≤ c.parser.maxBody
  | .chunkData => takeCount c.parser c.input ≤ c.parser.remaining
  | .chunkEnd => 2 ≤ c.parser.maxHeaders
  | .trailers => c.parser.trailerBytes ≤ c.parser.maxHeaders
  | _ => True

def delivers (result : HttpParseResult) (c : Cursor) : ℕ :=
  match result.kind with
  | .body => c.output.body.length
  | .complete => c.output.body.length
  | _ => 0

/-- The counters and the body when `sent` bytes of the request in progress are out. -/
structure Accounts (sent : ℕ) (p : HttpParser) : Prop extends Within p where
  sent_le : sent ≤ p.maxBody
  fresh : p.stage = .headers → sent = 0 ∧ p.request = {} ∧ p.remaining = 0 ∧
    p.chunkOverhead = 0 ∧ p.trailerBytes = 0 ∧ p.bodyBytes = 0
  stored : p.stage ≠ .headers → p.stage ≠ .failed → sent + p.request.body.length = p.bodyBytes
  ahead : p.stage = .fixedBody ∨ p.stage = .chunkData → p.bodyBytes + p.remaining ≤ p.maxBody
  head : p.stage ≠ .headers → p.stage ≠ .failed → 4 ≤ p.maxHeaders

def pending (sent : ℕ) (p : HttpParser) : ℕ := if p.stage = .headers then 0 else sent

structure Returned (sent : ℕ) (result : HttpParseResult) (c : Cursor) : Prop where
  accounts : Accounts (pending (sent + delivers result c) c.parser) c.parser
  sent_le : sent + delivers result c ≤ c.parser.maxBody
  answered : result.kind = .headers → sent = 0 ∧ c.parser.bodyBytes = 0

def Accounted (sent : ℕ) : Flow → Prop
  | .ret result c => Returned sent result c
  | .next c => Accounts sent c.parser
  | .again c => Accounts sent c.parser

section Blocks

variable {sent : ℕ} {p : HttpParser} {c : Cursor}

lemma Accounts.failed {q : HttpParser} (ha : Accounts sent p) (hh : q.maxHeaders = p.maxHeaders)
    (hb : q.maxBody = p.maxBody) (ho : q.chunkOverhead ≤ p.maxHeaders) (ht : q.trailerBytes ≤ p.maxHeaders)
    (hd : q.bodyBytes ≤ p.maxBody) (hs : q.stage = .failed) : Accounts sent q where
  overhead := hh ▸ ho
  trailers := hh ▸ ht
  body := hb ▸ hd
  sent_le := hb ▸ ha.sent_le
  fresh h := by simp [hs] at h
  stored _ h := absurd hs h
  ahead h := by simp [hs] at h
  head _ h := absurd hs h

lemma Accounts.quiet {result : HttpParseResult} (ha : Accounts sent p) (hp : c.parser = p)
    (hd : delivers result c = 0) (hk : result.kind ≠ .headers) : Returned sent result c := by
  refine ⟨?_, ?_, fun h => absurd h hk⟩
  · rw [hd, hp, Nat.add_zero, pending]
    split
    · rename_i hs
      rwa [(ha.fresh hs).1] at ha
    · exact ha
  · rw [hd, hp]
    exact ha.sent_le

lemma accounted_fail {q : HttpParser} {status : ℕ} (ha : Accounts sent p) (hh : q.maxHeaders = p.maxHeaders)
    (hb : q.maxBody = p.maxBody) (ho : q.chunkOverhead ≤ p.maxHeaders) (ht : q.trailerBytes ≤ p.maxHeaders)
    (hd : q.bodyBytes ≤ p.maxBody) : Accounted sent (fail c q status) := by
  apply Accounts.quiet (p := { q with stage := .failed })
  · exact ha.failed hh hb ho ht hd rfl
  · rfl
  · rfl
  · exact nofun

lemma accounted_complete {input : Bytes} (ha : Within p) (hs : sent + p.request.body.length = p.bodyBytes) :
    Accounted sent (complete c p input) := by
  have hd : sent + p.request.body.length ≤ p.maxBody := hs ▸ ha.body
  refine ⟨?_, hd, nofun⟩
  constructor
  · constructor <;> simp [completed]
  · simp [pending, completed]
  · simp [pending, completed]
  all_goals simp [completed]

lemma parseHeaders_head {maxBody : ℕ} {h h' : Head} {block : Bytes} (hreq : h.request = {})
    (hrem : h.remaining = 0) (ho : parseHeaders maxBody h block = .ok h') :
    h'.request.body = [] ∧ (h'.stage = .fixedBody ∧ h'.remaining ≤ maxBody ∨ h'.stage = .chunkSize) := by
  obtain ⟨m, hr, -⟩ := parseHeaders_framed hreq hrem ho
  refine ⟨hr.body, ?_⟩
  rcases hr.stage with ⟨hs, -, -, hle⟩ | ⟨hs, -⟩
  · exact .inl ⟨hs, hle⟩
  · exact .inr hs

lemma failedBlock_accounted (ha : Accounts sent c.parser) : Accounted sent (failedBlock c) := by
  unfold failedBlock
  split
  · exact ha.quiet rfl rfl nofun
  · exact ha

lemma headersScanned_accounted (ha : Accounts sent c.parser) (hs : c.parser.stage = .headers) :
    Accounted sent (headersScanned c) := by
  obtain ⟨rfl, hreq, hrem, hover, htrail, hbytes⟩ := ha.fresh hs
  unfold headersScanned
  dsimp only
  split
  · exact accounted_fail ha rfl rfl ha.overhead ha.trailers ha.body
  · split
    · exact accounted_fail ha rfl rfl ha.overhead ha.trailers ha.body
    · refine Accounts.quiet (p := { c.parser with
        headRequest := startsWith c.input (ascii "HEAD ")
        headerSearch := c.input.length }) ?_ rfl rfl nofun
      exact ⟨⟨ha.overhead, ha.trailers, ha.body⟩, ha.sent_le, ha.fresh, ha.stored, ha.ahead, ha.head⟩
  · split
    · exact accounted_fail ha rfl rfl ha.overhead ha.trailers ha.body
    split
    · exact accounted_fail ha rfl rfl ha.overhead ha.trailers ha.body
    rename_i blank _ hm head hp
    obtain ⟨hbody, hstage⟩ := parseHeaders_head hreq hrem hp
    have hentered (r : HttpRequest) (hr : r.body = []) : Accounts 0 ({ HttpParser.withHead { c.parser with
        headRequest := startsWith c.input (ascii "HEAD ") } head with request := r }) := by
      refine ⟨⟨ha.overhead, ha.trailers, ha.body⟩, ha.sent_le, fun h => ?_, fun _ _ => ?_, fun h => ?_,
        fun _ _ => ?_⟩
      · rcases hstage with ⟨hstage, -⟩ | hstage <;> simp [withHead, hstage] at h
      · simp [withHead, hr, hbytes]
      · rcases hstage with ⟨-, hle⟩ | hstage
        · simpa [withHead, hbytes] using hle
        · simp [withHead, hstage] at h
      · simp only [withHead]
        omega
    have hnot : head.stage ≠ .headers := by rcases hstage with ⟨h, -⟩ | h <;> simp [h]
    split
    · refine ⟨?_, Nat.zero_le _, fun _ => ⟨rfl, hbytes⟩⟩
      have := hentered {} rfl
      simpa [pending, withHead, hnot, delivers] using this
    · exact hentered head.request hbody

lemma headersBlock_accounted (ha : Accounts sent c.parser) : Accounted sent (headersBlock c) := by
  unfold headersBlock
  split
  · exact ha
  rename_i hs
  have hs : c.parser.stage = .headers := by simpa using hs
  split
  · dsimp only
    split
    · exact ha.quiet rfl rfl nofun
    · exact headersScanned_accounted (c := { c with input := skipEmptyLines c.input }) ha hs
  · exact headersScanned_accounted ha hs

lemma continueBlock_accounted (ha : Accounts sent c.parser) : Accounted sent (continueBlock c) := by
  unfold continueBlock
  split
  · refine Accounts.quiet (p := { c.parser with expectsContinue := false }) ?_ rfl rfl nofun
    exact ⟨⟨ha.overhead, ha.trailers, ha.body⟩, ha.sent_le, ha.fresh, ha.stored, ha.ahead, ha.head⟩
  · exact ha

lemma Accounts.taken (ha : Accounts sent p) (hs : p.stage = .fixedBody ∨ p.stage = .chunkData) {x : Bytes} :
    Accounts sent (withBody p (x.take (takeCount p x))) := by
  have hh : p.stage ≠ .headers := by rcases hs with hs | hs <;> simp [hs]
  have hf : p.stage ≠ .failed := by rcases hs with hs | hs <;> simp [hs]
  have hahead := ha.ahead hs
  have hstored := ha.stored hh hf
  have hcount := takeCount_le p x
  have hlen : (x.take (takeCount p x)).length = takeCount p x := by
    rw [List.length_take]
    omega
  refine ⟨⟨ha.overhead, ha.trailers, ?_⟩, ha.sent_le, fun h => absurd h hh, fun _ _ => ?_, fun _ => ?_, ha.head⟩
  · simp only [withBody, hlen]
    omega
  · simp only [withBody, List.length_append]
    omega
  · simp only [withBody, hlen]
    omega

lemma accounted_emitBody (ha : Accounts sent c.parser) (hh : c.parser.stage ≠ .headers)
    (hf : c.parser.stage ≠ .failed) : Accounted sent (emitBody c) := by
  have hstored := ha.stored hh hf
  have hle : sent + c.parser.request.body.length ≤ c.parser.maxBody := hstored ▸ ha.body
  refine ⟨?_, hle, nofun⟩
  rw [pending, if_neg hh]
  exact ⟨⟨ha.overhead, ha.trailers, ha.body⟩, hle, fun h => absurd h hh,
    fun _ _ => by simpa [delivers] using hstored, ha.ahead, ha.head⟩

lemma fixedBodyBlock_accounted (ha : Accounts sent c.parser) : Accounted sent (fixedBodyBlock c) := by
  obtain ⟨p, x, output⟩ := c
  unfold fixedBodyBlock
  split
  · exact ha
  rename_i hs
  have hs : p.stage = .fixedBody := by simpa using hs
  have ht := ha.taken (.inl hs) (x := x)
  have hsw : (withBody p (x.take (takeCount p x))).stage = .fixedBody := hs
  rw [takeBody_eq]
  dsimp only
  split
  · exact accounted_emitBody ht (by simp [hsw]) (by simp [hsw])
  split
  · exact accounted_complete ht.toWithin (ht.stored (by simp [hsw]) (by simp [hsw]))
  · exact ht.quiet rfl rfl nofun

lemma chunkSizeLine_accounts {q : HttpParser} {line : Bytes} (ha : Accounts sent p) (hs : p.stage = .chunkSize)
    (hl : line.length + 2 ≤ p.maxHeaders - p.chunkOverhead) (hq : chunkSizeLine p line = .ok q) :
    Accounts sent q := by
  unfold chunkSizeLine at hq
  rw [sizeSub_eq ha.body] at hq
  have hstored := ha.stored (by simp [hs]) (by simp [hs])
  have hover := ha.overhead
  have hhead := ha.head (by simp [hs]) (by simp [hs])
  have hbody := ha.body
  split at hq
  · cases hq
  split at hq
  · cases hq
  rename_i n _ hn
  obtain rfl := Except.ok.inj hq
  refine ⟨⟨?_, ha.trailers, ha.body⟩, ha.sent_le, fun h => ?_, fun _ _ => hstored, fun _ => ?_, fun _ _ => hhead⟩
  · show p.chunkOverhead + (line.length + 2) ≤ p.maxHeaders
    omega
  · dsimp only at h
    split at h <;> cases h
  · show p.bodyBytes + n ≤ p.maxBody
    omega

lemma readLine_bound {limit n : ℕ} {x : Bytes} (h : readLine limit x = .line n) : n + 2 ≤ limit := by
  unfold readLine at h
  split at h
  · split at h <;> cases h
  · split at h
    · cases h
    · obtain rfl : _ = n := by simpa using h
      omega

lemma chunkSizeBlock_accounted (ha : Accounts sent c.parser) : Accounted sent (chunkSizeBlock c) := by
  unfold chunkSizeBlock
  dsimp only
  split
  · exact ha
  rename_i hs
  have hs : c.parser.stage = .chunkSize := by simpa using hs
  rw [sizeSub_eq ha.overhead]
  split
  · exact ha.quiet rfl rfl nofun
  · exact accounted_fail ha rfl rfl ha.overhead ha.trailers ha.body
  rename_i n hl
  have hn := readLine_bound hl
  have hlen : (c.input.take n).length ≤ n := List.length_take_le n c.input
  split
  · rename_i hq
    unfold chunkSizeLine at hq
    split at hq
    · obtain ⟨-, rfl⟩ := Prod.mk.inj (Except.error.inj hq)
      exact accounted_fail ha rfl rfl ha.overhead ha.trailers ha.body
    split at hq
    · obtain ⟨-, rfl⟩ := Prod.mk.inj (Except.error.inj hq)
      exact accounted_fail ha rfl rfl ha.overhead ha.trailers ha.body
    · cases hq
  · rename_i hq
    exact chunkSizeLine_accounts ha hs (by omega) hq

lemma chunkDataBlock_accounted (ha : Accounts sent c.parser) : Accounted sent (chunkDataBlock c) := by
  obtain ⟨p, x, output⟩ := c
  unfold chunkDataBlock
  split
  · exact ha
  rename_i hs
  have hs : p.stage = .chunkData := by simpa using hs
  have ht := ha.taken (.inr hs) (x := x)
  have hsw : (withBody p (x.take (takeCount p x))).stage = .chunkData := hs
  have hended : Accounts sent { withBody p (x.take (takeCount p x)) with stage := .chunkEnd } :=
    ⟨⟨ht.overhead, ht.trailers, ht.body⟩, ht.sent_le, nofun, fun _ _ => ht.stored (by simp [hsw]) (by simp [hsw]),
      by simp, fun _ _ => ht.head (by simp [hsw]) (by simp [hsw])⟩
  rw [takeBody_eq]
  dsimp only
  split
  · split
    · exact accounted_emitBody hended (by simp) (by simp)
    · exact accounted_emitBody ht (by simp [hsw]) (by simp [hsw])
  split
  · exact ht.quiet rfl rfl nofun
  · exact hended

lemma chunkEndBlock_accounted (ha : Accounts sent c.parser) : Accounted sent (chunkEndBlock c) := by
  unfold chunkEndBlock
  dsimp only
  split
  · exact ha
  rename_i hs
  have hs : c.parser.stage = .chunkEnd := by simpa using hs
  have hstored := ha.stored (by simp [hs]) (by simp [hs])
  have hhead := ha.head (by simp [hs]) (by simp [hs])
  rw [sizeSub_eq (show 2 ≤ c.parser.maxHeaders by omega)]
  split
  · exact ha.quiet rfl rfl nofun
  split
  · exact accounted_fail ha rfl rfl ha.overhead ha.trailers ha.body
  split
  · exact accounted_fail ha rfl rfl ha.overhead ha.trailers ha.body
  rename_i ho
  refine ⟨⟨?_, ha.trailers, ha.body⟩, ha.sent_le, nofun, fun _ _ => hstored, by simp, fun _ _ => hhead⟩
  dsimp only
  split <;> omega

lemma trailersBlock_accounted (ha : Accounts sent c.parser) : Accounted sent (trailersBlock c) := by
  unfold trailersBlock
  dsimp only
  split
  · exact ha
  rename_i hs
  have hs : c.parser.stage = .trailers := by simpa using hs
  have hstored := ha.stored (by simp [hs]) (by simp [hs])
  have hhead := ha.head (by simp [hs]) (by simp [hs])
  rw [sizeSub_eq ha.trailers]
  split
  · exact ha.quiet rfl rfl nofun
  · exact accounted_fail ha rfl rfl ha.overhead ha.trailers ha.body
  rename_i n hl
  have hn := readLine_bound hl
  have ht : c.parser.trailerBytes + (n + 2) ≤ c.parser.maxHeaders := by
    have := ha.trailers
    omega
  split
  · exact accounted_complete ⟨ha.overhead, ht, ha.body⟩ hstored
  split
  · exact accounted_fail ha rfl rfl ha.overhead ht ha.body
  · exact ⟨⟨ha.overhead, ht, ha.body⟩, ha.sent_le, by simp [hs], fun _ _ => hstored, by simp [hs],
      fun _ _ => hhead⟩

lemma stageFlow_accounted (ha : Accounts sent c.parser) : Accounted sent (stageFlow c) := by
  unfold stageFlow
  split
  · exact failedBlock_accounted ha
  · exact headersBlock_accounted ha
  all_goals split
  · exact continueBlock_accounted ha
  · exact fixedBodyBlock_accounted ha
  · exact continueBlock_accounted ha
  · exact chunkSizeBlock_accounted ha
  · exact continueBlock_accounted ha
  · exact chunkDataBlock_accounted ha
  · exact continueBlock_accounted ha
  · exact chunkEndBlock_accounted ha
  · exact continueBlock_accounted ha
  · exact trailersBlock_accounted ha

end Blocks

section Parse

variable {sent : ℕ} {c c' : Cursor} {result : HttpParseResult}

lemma Passes.accounts (h : Passes c c') (ha : Accounts sent c.parser) : Accounts sent c'.parser := by
  induction h with
  | refl => exact ha
  | next hs _ ih =>
    apply ih
    have hk := stageFlow_accounted ha
    rcases hs with hs | hs <;> rw [hs] at hk <;> exact hk

lemma Reaches.returned (h : Reaches c result c') (ha : Accounts sent c.parser) : Returned sent result c' := by
  induction h with
  | ret hs =>
    have hk := stageFlow_accounted ha
    rwa [hs] at hk
  | next hs _ ih => exact ih (Passes.accounts (.next hs .refl) ha)

lemma Accounts.exact (ha : Accounts sent c.parser) : Exact c := by
  have hcount := (takeCount_le c.parser c.input).2
  unfold Exact
  split
  · exact hcount
  · exact ⟨ha.overhead, ha.body⟩
  · exact hcount
  · rename_i hs
    have := ha.head (by simp [hs]) (by simp [hs])
    omega
  · exact ha.trailers
  · trivial

lemma parse_reaches (p : HttpParser) (input : Bytes) (output : HttpRequest) :
    ∃ result c', parse p input output = some (result, c') ∧ Reaches ⟨p, input, output⟩ result c' :=
  @advance_reaches ⟨p, input, output⟩ _ (potential_le p input)

lemma parse_returned {p : HttpParser} {input : Bytes} {output : HttpRequest} (ha : Accounts sent p)
    (h : parse p input output = some (result, c')) : Returned sent result c' := by
  obtain ⟨result', c'', h', hr⟩ := parse_reaches p input output
  obtain ⟨rfl, rfl⟩ := Prod.mk.inj (Option.some.inj (h.symm.trans h'))
  exact hr.returned ha

end Parse

/-- A caller of the parser: what it was handed of the request in progress, whether the head of a request was
its last result, whether a streamed body is under way, and whether it has given up. -/
structure Session where
  parser : HttpParser
  delivered : ℕ := 0
  answered : Bool := false
  streamed : Bool := false
  stopped : Bool := false

inductive Call
  | parse (input : Bytes) (output : HttpRequest)
  | configure (streaming : Bool) (maxBody maxChunk : UInt64)
  | credit (maxChunk : UInt64)

namespace Session

def start (maxHeaders maxBody : UInt64) (separateHeaders : Bool) : Session where
  parser := create maxHeaders maxBody separateHeaders

/-- `ConfigureBody` follows a `Headers` result, and its refusal ends the session; within a streamed body it may
change the chunk size. -/
def step (s : Session) : Call → Option Session
  | .parse input output =>
    if s.stopped then none
    else
      (HttpParser.parse s.parser input output).map fun (result, c) =>
        { s with
          parser := c.parser
          delivered := pending s.delivered s.parser + delivers result c
          answered := result.kind == .headers
          streamed := s.streamed && result.kind != .complete }
  | .configure streaming maxBody maxChunk =>
    if s.stopped || !s.answered then none
    else
      let (accepted, p) := s.parser.configureBody streaming maxBody.toNat maxChunk.toNat
      some { s with parser := p, answered := false, streamed := streaming, stopped := !accepted }
  | .credit maxChunk =>
    if s.stopped || !s.streamed then none
    else some { s with parser := (s.parser.configureBody true s.parser.maxBody maxChunk.toNat).2 }

structure Inv (s : Session) : Prop where
  within : s.parser.Within
  delivered : s.delivered ≤ s.parser.maxBody
  accounts : s.stopped = false → Accounts (pending s.delivered s.parser) s.parser
  answered : s.answered = true → s.delivered = 0 ∧ s.parser.bodyBytes = 0

lemma inv_start (maxHeaders maxBody : UInt64) (separateHeaders : Bool) :
    (start maxHeaders maxBody separateHeaders).Inv := by
  have ha : Accounts 0 (create maxHeaders maxBody separateHeaders) := by
    refine ⟨⟨?_, ?_, ?_⟩, ?_, ?_, ?_, ?_, ?_⟩ <;> simp [create]
  exact ⟨ha.toWithin, ha.sent_le, fun _ => ha, nofun⟩

lemma Inv.parse {s s' : Session} {input : Bytes} {output : HttpRequest} (hi : s.Inv)
    (h : s.step (.parse input output) = some s') : s'.Inv := by
  rw [step] at h
  split at h
  · cases h
  rename_i hstop
  obtain ⟨⟨result, c⟩, hp, rfl⟩ := Option.map_eq_some_iff.mp h
  have hr := parse_returned (hi.accounts (by simpa using hstop)) hp
  refine ⟨hr.accounts.toWithin, hr.sent_le, fun _ => hr.accounts, fun hk => ?_⟩
  obtain ⟨hsent, hbytes⟩ := hr.answered (by simpa using hk)
  refine ⟨?_, hbytes⟩
  have hkind : result.kind = .headers := by simpa using hk
  simp [hsent, delivers, hkind]

lemma Inv.configure {s s' : Session} {streaming : Bool} {maxBody maxChunk : UInt64} (hi : s.Inv)
    (h : s.step (.configure streaming maxBody maxChunk) = some s') : s'.Inv := by
  rw [step] at h
  split at h
  · cases h
  rename_i hs
  simp only [Bool.or_eq_true, Bool.not_eq_true', not_or, Bool.not_eq_true, Bool.not_eq_false] at hs
  obtain ⟨hsent, hbytes⟩ := hi.answered hs.2
  have ha := hi.accounts hs.1
  obtain rfl := Option.some.inj h
  have hw : ((s.parser.configureBody streaming maxBody.toNat maxChunk.toNat).2).Within :=
    ⟨ha.overhead, ha.trailers, by simp [configureBody, hbytes]⟩
  refine ⟨hw, by simp [hsent], fun haccept => ?_, nofun⟩
  have hremaining : s.parser.remaining ≤ maxBody.toNat := by
    simp only [Bool.not_eq_false', Bool.and_eq_true, decide_eq_true_eq] at haccept
    exact haccept.2
  refine ⟨hw, ?_, fun hh => ?_, fun hh hf => ?_, fun _ => ?_, fun hh hf => ha.head hh hf⟩
  · simp [pending, hsent]
  · obtain ⟨-, hrest⟩ := ha.fresh hh
    refine ⟨?_, hrest⟩
    simp [pending, hsent]
  · have hstored := ha.stored hh hf
    simpa [pending, hsent, configureBody] using hstored
  · simpa [configureBody, hbytes] using hremaining

lemma Inv.credit {s s' : Session} {maxChunk : UInt64} (hi : s.Inv)
    (h : s.step (.credit maxChunk) = some s') : s'.Inv := by
  rw [step] at h
  split at h
  · cases h
  obtain rfl := Option.some.inj h
  have hw := hi.within
  refine ⟨⟨hw.overhead, hw.trailers, hw.body⟩, hi.delivered, fun hstop => ?_, hi.answered⟩
  have ha := hi.accounts hstop
  exact ⟨⟨ha.overhead, ha.trailers, ha.body⟩, ha.sent_le, ha.fresh, ha.stored, ha.ahead, ha.head⟩

lemma Inv.step {s s' : Session} {call : Call} (hi : s.Inv) (h : s.step call = some s') : s'.Inv := by
  cases call with
  | parse => exact hi.parse h
  | configure => exact hi.configure h
  | credit => exact hi.credit h

end Session

/-- In every state a session reaches, and between any two stages of a call of `Parse` there, the counters are
within their limits and no subtraction wraps; the body bytes handed out of one request are at most the limit;
every call of `Parse` returns, every turn of its loop having read input or moved on. -/
theorem session_within_limits {maxHeaders maxBody : UInt64} {separateHeaders : Bool} {s : Session}
    (h : Reachable Session.step (· = Session.start maxHeaders maxBody separateHeaders) s) :
    s.parser.Within ∧ s.delivered ≤ s.parser.maxBody ∧
      (s.stopped = false → ∀ input output c, Passes ⟨s.parser, input, output⟩ c → c.parser.Within ∧ Exact c) ∧
      ∀ c, (parse c.parser c.input c.output).isSome ∧
        ∀ c', advanceBody c = .next c' ∨ advanceBody c = .again c' → Advances c c' := by
  have hi : s.Inv := by
    apply h.invariant
    · rintro _ rfl
      exact Session.inv_start maxHeaders maxBody separateHeaders
    · intro t call t' ht hstep
      exact ht.step hstep
  refine ⟨hi.within, hi.delivered, fun hstop input output c hp => ?_, fun c => ⟨?_, fun c' hc => ?_⟩⟩
  · have ha := hp.accounts (hi.accounts hstop)
    exact ⟨ha.toWithin, ha.exact⟩
  · obtain ⟨result, c', hp, -⟩ := parse_reaches c.parser c.input c.output
    rw [hp]
    rfl
  · exact advanceBody_advances hc

/-- A streamed body of three bytes, two of them taken, with no credit for the third. -/
theorem session_within_limits_streamed : ∃ s, Foundations.run Session.step (Session.start 128 8 true)
    [.parse (ascii "POST / HTTP/1.1\r\nHost: a\r\nTransfer-Encoding: chunked\r\n\r\n") {},
      .configure true 4 2, .parse (ascii "3\r\nabc") {}, .credit 0, .parse (ascii "c") {}] = some s ∧
    s.delivered = 2 ∧ s.parser.Within ∧ s.delivered ≤ s.parser.maxBody := by
  have hrun : (Foundations.run Session.step (Session.start 128 8 true)
      [.parse (ascii "POST / HTTP/1.1\r\nHost: a\r\nTransfer-Encoding: chunked\r\n\r\n") {},
        .configure true 4 2, .parse (ascii "3\r\nabc") {}, .credit 0, .parse (ascii "c") {}]).map (·.delivered) =
      some 2 := by
    rw [@ascii_eq "POST / HTTP/1.1\r\nHost: a\r\nTransfer-Encoding: chunked\r\n\r\n" _ rfl, @ascii_eq "3\r\nabc" _ rfl,
      @ascii_eq "c" _ rfl]
    decide +kernel
  obtain ⟨s, hs, hd⟩ := Option.map_eq_some_iff.mp hrun
  obtain ⟨hw, hle, -⟩ := session_within_limits ⟨_, rfl, _, hs⟩
  exact ⟨s, hs, hd, hw, hle⟩

end ServerCore.Web.HttpParser
