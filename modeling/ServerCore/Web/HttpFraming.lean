import ServerCore.Web.HttpBody
import ServerCore.Web.HttpFragmentation

/-! Every request that the buffered parser completes is framed in one way only. -/

namespace ServerCore.Web

open ServerCore.Core HttpParser

structure Framed (maxBody : ℕ) (m : Message) (r : HttpRequest) : Prop where
  head : HeadFramed m r
  body : r.body = m.payload.body
  limit : r.body.length ≤ maxBody
  payload : PayloadOk m.payload
  fixed : fieldValues "transfer-encoding" r.headers = [] →
    m.payload = .fixed r.body ∧ Announces r.headers r.body.length
  chunked : fieldValues "transfer-encoding" r.headers ≠ [] →
    ∃ chunks last trailers, m.payload = .chunked chunks last trailers ∧
      r.body.length = (chunks.map fun c => c.data.length).sum

namespace HttpParser

open Foundations.StreamDecoder

def requests (events : List Event) : List HttpRequest :=
  events.filterMap fun
    | .complete r => some r
    | _ => none

lemma requests_append (events events' : List Event) :
    requests (events ++ events') = requests events ++ requests events' := List.filterMap_append ..

structure Idle (p : HttpParser) : Prop where
  stage : p.stage = .headers
  request : p.request = {}
  remaining : p.remaining = 0
  bodyBytes : p.bodyBytes = 0
  chunkOverhead : p.chunkOverhead = 0
  trailerBytes : p.trailerBytes = 0

structure Fresh (p : HttpParser) : Prop extends Idle p where
  search : p.headerSearch = 0
  headRequest : p.headRequest = false

lemma create_fresh (maxHeaders maxBody : UInt64) (separateHeaders : Bool) :
    Fresh (create maxHeaders maxBody separateHeaders) :=
  ⟨⟨rfl, rfl, rfl, rfl, rfl, rfl⟩, rfl, rfl⟩

lemma completed_fresh (p : HttpParser) : Fresh { p.completed with request := {} } :=
  ⟨⟨rfl, rfl, rfl, rfl, rfl, rfl⟩, rfl, rfl⟩

section Whole

variable {p : HttpParser} {s acc : Bytes} {events : List Event} {result : Option (HttpParser × Bytes)}

lemma event_none {e : Option Event} (h : ∀ r, e ≠ some (.complete r)) : requests e.toList = [] := by
  cases e with
  | none => rfl
  | some e =>
    cases e with
    | complete r => exact absurd rfl (h r)
    | _ => rfl

lemma drain_body (hi : InBody p acc) (hb : p.streaming = false)
    (h : Drain stageStep p s events result) :
    requests events = [] ∨ ∃ wire body overhead u q events',
      s = wire ++ u ∧ Rest p.stage p.remaining wire body overhead ∧
      requests events = { p.request with body := acc ++ body } :: requests events' ∧
      (acc ++ body).length ≤ p.maxBody ∧ Drain stageStep q u events' result ∧
      Fresh q ∧ SameLimits p q ∧ q.maxBody = p.maxBody := by
  induction h generalizing acc with
  | need _ => exact .inl rfl
  | fail _ => exact .inl rfl
  | @go p x e q rest events result hs hd ih =>
    have hg := step_goes hs
    by_cases hdone : ∃ r, e = some (.complete r)
    · right
      obtain ⟨r, rfl⟩ := hdone
      obtain ⟨taken, moved, rfl, hrest, rfl, hlimit, -, -, rfl⟩ := hg.done hi
      refine ⟨taken, moved, 0, rest, _, events, rfl, hrest, ?_, hlimit, hd, completed_fresh p, ⟨rfl, rfl, rfl⟩, rfl⟩
      have hheld : p.request.body = acc := by rw [hi.held, hb]; rfl
      rw [requests_append, hheld]
      rfl
    · have hne : ∀ r, e ≠ some (.complete r) := fun r hr => hdone ⟨r, hr⟩
      obtain ⟨taken, moved, overhead, rfl, hi', hm⟩ := hg.moved hi hne
      have hlimits := hg.limits
      rw [requests_append, event_none hne, List.nil_append]
      rcases ih hi' (hlimits.streaming ▸ hb) with he | ⟨wire, body, more, u, q', events', rfl, hrest, hreq, hlimit, hd',
        hfresh, hlimits', hmax⟩
      · exact .inl he
      · refine .inr ⟨taken ++ wire, moved ++ body, overhead + more, u, q', events', ?_, hm.rest _ _ _ hrest, ?_, ?_, hd',
          hfresh, hlimits.trans hlimits', hmax.trans hm.limits.1⟩
        · rw [List.append_assoc]
        · rw [hreq, hm.request, List.append_assoc]
        · rw [← List.append_assoc, ← hm.limits.1]
          exact hlimit

lemma entered_inBody {z : Bytes} {h : Head} {m : Message} (hf : Idle p) (hb : p.streaming = false)
    (hr : HeadResult p.maxBody m h) : InBody (entered p z h) [] := by
  have hbytes : (entered p z h).bodyBytes = 0 := hf.bodyBytes
  refine ⟨hbytes, ?_, fun hs => ?_, ?_, ?_⟩
  · rw [hbytes]
    exact Nat.zero_le _
  · rw [hbytes, Nat.zero_add]
    rcases hr.stage with ⟨-, -, -, hle⟩ | ⟨hst, -⟩
    · exact hle
    · simp [entered, withHead, hst] at hs
  · have hs : (entered p z h).streaming = false := hb
    rw [hs]
    exact hr.body
  · rcases hr.stage with ⟨hst, -⟩ | ⟨hst, -⟩ <;> simp [entered, withHead, hst]

lemma headFramed_congr {m : Message} {r : HttpRequest} (h : HeadFramed m r) (n : ℕ) (payload : Payload)
    (body : Bytes) : HeadFramed { m with emptyLines := n, payload := payload } { r with body := body } :=
  ⟨h.method, h.version, h.target, h.headers, h.fields, h.lengthOnce, h.transferOnce, h.notBoth, h.transfer,
    h.host, h.authority⟩

lemma framed_of_rest {maxBody remaining overhead : ℕ} {m : Message} {h : Head} {wire body : Bytes} (n : ℕ)
    (hr : HeadResult maxBody m h) (hrem : remaining = h.remaining)
    (hrest : Rest h.stage remaining wire body overhead) (hlimit : body.length ≤ maxBody) :
    ∃ payload, payload.encode = wire ∧ payload.overhead = overhead ∧
      Framed maxBody { m with emptyLines := n, payload := payload } { h.request with body := body } := by
  have hshape := hrest.shape
  rcases hr.stage with ⟨hst, hte, hann, -⟩ | ⟨hst, hte⟩
  · rw [hst] at hshape
    obtain ⟨rfl, hlen, rfl⟩ := hshape
    refine ⟨.fixed wire, rfl, rfl, headFramed_congr hr.framed n _ _, rfl, hlimit, ⟨by simp⟩, fun _ => ⟨rfl, ?_⟩,
      fun h => absurd hte h⟩
    dsimp only
    rw [hlen, hrem]
    exact hann
  · rw [hst] at hshape
    obtain ⟨chunks, last, trailers, rfl, rfl, rfl, hok⟩ := hshape
    refine ⟨_, rfl, rfl, headFramed_congr hr.framed n _ _, rfl, hlimit, hok, fun h => absurd h hte, fun _ => ?_⟩
    refine ⟨chunks, last, trailers, rfl, ?_⟩
    simp [Payload.body, List.length_flatMap]

lemma drain_message (hf : Fresh p) (hw : p.separateHeaders = false) (hb : p.streaming = false)
    (h : Drain stageStep p s events result) :
    requests events = [] ∨ ∃ m r u q events', s = m.encode ++ u ∧ Framed p.maxBody m r ∧
      requests events = r :: requests events' ∧ Drain stageStep q u events' result ∧
      Fresh q ∧ SameLimits p q ∧ q.maxBody = p.maxBody := by
  cases h with
  | need _ => exact .inl rfl
  | fail _ => exact .inl rfl
  | @go _ _ e q rest events _ hs hd =>
    have hg := step_goes hs
    have hlimits := hg.limits
    obtain ⟨z, blank, head, hz, hscan, hm, hp, he, hq, rfl⟩ := hg.of_headers hf.stage
    rw [if_pos hf.search] at hz
    rw [hf.search] at hscan
    simp only [hw, Bool.false_eq_true, if_false] at he hq
    subst he hq
    obtain ⟨hend, hsplit⟩ := scanHeaders_split hscan
    obtain ⟨n, hn⟩ := skipEmptyLines_split s
    obtain ⟨m, hres, hblock⟩ := parseHeaders_framed (h := p.head) hf.request hf.remaining hp
    have hi := entered_inBody (z := z) hf.toIdle hb hres
    rcases drain_body hi hb hd with
      he | ⟨wire, body, overhead, u, q, events', hu, hrest, hreq, hlimit, hd', hfresh, hl, hmax⟩
    · exact .inl he
    · obtain ⟨payload, henc, -, hframed⟩ := framed_of_rest n hres rfl hrest hlimit
      refine .inr ⟨_, _, u, q, events', ?_, hframed, hreq, hd', hfresh, hlimits.trans hl, hmax⟩
      calc s = encodeLines (List.replicate n []) ++ z := by rw [hz]; exact hn
        _ = encodeLines (List.replicate n []) ++ (m.block ++ (crlf ++ (wire ++ u))) := by
          rw [hsplit, hblock hend, ← hu]
        _ = _ := by
          simp only [Message.encode, henc, List.append_assoc]
          rfl

lemma drain_messages (hf : Fresh p) (hw : p.separateHeaders = false) (hb : p.streaming = false)
    (h : Drain stageStep p s events result) :
    ∃ messages rest, s = messages.flatMap Message.encode ++ rest ∧
      List.Forall₂ (Framed p.maxBody) messages (requests events) := by
  generalize hn : (requests events).length = n
  induction n generalizing p s events with
  | zero =>
    rw [List.length_eq_zero_iff.mp hn]
    exact ⟨[], s, rfl, .nil⟩
  | succ n ih =>
    rcases drain_message hf hw hb h with he | ⟨m, r, u, q, events', rfl, hm, hreq, hd, hfresh, hl, hmax⟩
    · simp [he] at hn
    · have hn' : (requests events').length = n := by
        rw [hreq, List.length_cons] at hn
        omega
      obtain ⟨messages, rest, rfl, hall⟩ :=
        ih hfresh (hl.separateHeaders ▸ hw) (hl.streaming ▸ hb) hd hn'
      refine ⟨m :: messages, rest, by simp, ?_⟩
      rw [hreq]
      exact .cons hm (hmax ▸ hall)

end Whole

/-- Whatever the pieces and the limits, the stream is the completed requests' messages in order,
each with unambiguous framing, and what is left. -/
theorem requests_framed (maxHeaders maxBody : UInt64) (pieces : List Bytes) :
    ∃ events result messages rest, run maxHeaders maxBody pieces = some (events, result) ∧
      pieces.flatten = messages.flatMap Message.encode ++ rest ∧
      List.Forall₂ (Framed maxBody.toNat) messages (requests events) := by
  by_cases h0 : maxHeaders = 0
  · subst h0
    obtain ⟨result, hr⟩ := feed_zero (p := create 0 maxBody false) [] pieces rfl rfl rfl
    exact ⟨[], result, [], pieces.flatten, hr, rfl, .nil⟩
  · have hi := create_buffered maxHeaders maxBody h0
    obtain ⟨events, result, hr, hfeed⟩ := feed_spec (create maxHeaders maxBody false) [] pieces
    cases pieces with
    | nil =>
      cases hfeed
      exact ⟨[], _, [], [], hr, rfl, .nil⟩
    | cons piece pieces =>
      obtain ⟨whole, hd, -⟩ := resumable.feed_drain hi (by simp) hfeed
      obtain ⟨messages, rest, hs, hall⟩ :=
        drain_messages (create_fresh maxHeaders maxBody false) rfl rfl hd
      exact ⟨events, result, messages, rest, hr, hs, hall⟩

end HttpParser

end ServerCore.Web
