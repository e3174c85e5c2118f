import ServerCore.Web.WebSocketReassembly

/-! The messages of a whole run, in any order of what reaches the peer. -/

namespace ServerCore.Web.WebSocketInput

open ServerCore.Core WebSocketFrame WebSocketMessage

structure ClientFrame (maxPayload : ℕ) extends LegalFrame maxPayload where
  key : Bytes
  keyLength : key.length = 4

section Wires

variable {maxPayload : ℕ}

def ClientFrame.frame (f : ClientFrame maxPayload) : WebSocketFrame := ⟨f.final, f.opcode, f.payload⟩

def ClientFrame.wire (f : ClientFrame maxPayload) : Bytes := masked f.key (encodeServerFrame f.opcode f.payload f.final)

def wires (frames : List (ClientFrame maxPayload)) : Bytes := (frames.map (·.wire)).flatten

def received (inputs : List Input) : Bytes := inputs.flatMap fun | .receive bytes => bytes | _ => []

@[simp] lemma wires_cons (f : ClientFrame maxPayload) (frames : List (ClientFrame maxPayload)) :
    wires (f :: frames) = f.wire ++ wires frames := rfl

lemma parse_wire (f : ClientFrame maxPayload) (x : Bytes) :
    parseClientFrame (f.wire ++ x) maxPayload {} = (⟨.complete, f.wire.length, 1000⟩, f.frame) := by
  have hwhole : parseClientFrame f.wire maxPayload {} = (⟨.complete, f.wire.length, 1000⟩, f.frame) :=
    parse_masked f.toLegalFrame f.keyLength
  rw [parseClientFrame_append, hwhole]
  rw [hwhole]
  exact nofun

lemma needMore_length {input : Bytes} {frame : WebSocketFrame}
    (h : (parseClientFrame input maxPayload frame).1.kind = .needMore) : input.length < max maxPayload 125 + 14 := by
  rw [parseClientFrame] at h
  dsimp only at h
  split_ifs at h with hx hstart hcontrol
  · omega
  generalize hsecond : (input.getD 1 0).toNat &&& 127 = second at h hcontrol
  rw [readLength] at h
  split_ifs at h with h126 hshort hsmall h127 hlong hhigh hlow
  · omega
  · cases h
  · rw [takePayload] at h
    split_ifs at h
    omega
  · omega
  · cases h
  · cases h
  · rw [takePayload] at h
    split_ifs at h
    omega
  · rw [takePayload] at h
    split_ifs at h
    omega

end Wires

section Sound

variable {o : Options} {w : World} {s : Reader} {p q : Peer} {f : WebSocketFrame}

structure Sound (o : Options) (p : Peer) : Prop where
  ended : Ended p.trace → p.Finished
  last : ∀ x e y, p.trace = x ++ e :: y → e.Ends → messages y = []
  bounded : ∀ m ∈ messages p.trace, m.bytes.length ≤ o.maxWebSocketMessageBytes ∧ m.WellFormed
  fits : p.message.length ≤ o.maxWebSocketMessageBytes
  held : p.held = true → Paused p.trace

namespace Sound

lemma follows (h : Sound o p) (hf : p.Follows q) : Sound o q where
  ended := fun hended => by
    rcases hf.ended hended with hfinished | hp
    · exact hfinished
    · exact hf.finished (h.ended hp)
  last := fun x e y hxy he => by
    obtain ⟨es, hes, hnone⟩ := hf.trace
    rw [hes] at hxy
    rcases List.append_eq_append_iff.mp hxy with ⟨z, hx, hz⟩ | ⟨z, hx, hz⟩
    · rw [hz, messages_append] at hnone
      exact (List.append_eq_nil_iff.mp ((messages_append [e] y).symm.trans (List.append_eq_nil_iff.mp hnone).2)).2
    · cases z with
      | nil =>
        rw [List.nil_append] at hz
        rw [← hz] at hnone
        exact (List.append_eq_nil_iff.mp ((messages_append [e] y).symm.trans hnone)).2
      | cons e' z =>
        rw [List.cons_append, List.cons.injEq] at hz
        rw [hz.2, messages_append, hnone, List.append_nil]
        exact h.last x e' z hx (hz.1 ▸ he)
  bounded := by
    rw [hf.messages]
    exact h.bounded
  fits := by
    rw [hf.message]
    exact h.fits
  held := fun hq => by
    rcases hf.held hq with hp | hpaused
    · exact hf.paused (h.held hp)
    · exact hpaused

lemma collecting (h : Sound o p) (hlive : p.Live) (htrace : q.trace = p.trace) (hheld : q.held = p.held)
    (hfits : q.message.length ≤ o.maxWebSocketMessageBytes) : Sound o q where
  ended := fun hended => absurd (h.ended (htrace ▸ hended)) hlive.not_finished
  last := by
    rw [htrace]
    exact h.last
  bounded := by
    rw [htrace]
    exact h.bounded
  fits := hfits
  held := by
    rw [hheld, htrace]
    exact h.held

lemma deliver (h : Sound o p) (hlive : p.Live) {type : WebSocketMessageType} (hwf : (⟨type, p.message⟩ : WebSocketMessage).WellFormed) :
    Sound o (p.deliver w type).2 := by
  have hnone : ¬Ended (p.handed type).trace := by
    rintro ⟨e, he, hends⟩
    rcases List.mem_append.mp he with hmem | hmem
    · exact hlive.not_finished (h.ended ⟨e, hmem, hends⟩)
    · obtain rfl := List.mem_singleton.mp hmem
      exact hends
  have hhanded : Sound o (p.handed type) := by
    refine ⟨fun hended => absurd hended hnone, fun x e y hxy hends => absurd ⟨e, by simp [hxy], hends⟩ hnone, ?_, h.fits,
      fun hheld => List.mem_append_left _ (h.held hheld)⟩
    rw [messages_handed]
    intro m hm
    rcases List.mem_append.mp hm with hm | hm
    · exact h.bounded m hm
    · obtain rfl := List.mem_singleton.mp hm
      exact ⟨h.fits, hwf⟩
  obtain ⟨acted, hacted, -, heq | heq⟩ := deliver_cases (w := w) (p := p) type
  · have hsound := hhanded.follows hacted
    rw [heq]
    exact ⟨hsound.ended, hsound.last, hsound.bounded, Nat.zero_le _, hsound.held⟩
  · rw [heq]
    have hthrew : acted.Follows (acted.note .threw) := Peer.follows_note rfl (by simp [Event.Ends])
    exact ((hhanded.follows hacted).follows hthrew).follows (Peer.follows_webSocketError _)

lemma collect (h : Sound o p) (hlive : p.Live) : Sound o (p.collect o w f).2 := by
  rw [Peer.collect, sizeSub_eq h.fits]
  split
  · exact h.follows (Peer.follows_webSocketError _)
  next hroom =>
  have happend : Sound o (p.append f.payload) := by
    have hfits := h.fits
    refine h.collecting hlive rfl rfl ?_
    rw [Peer.append, List.length_append]
    omega
  split
  · exact happend
  rw [Peer.finishMessage]
  split
  · exact happend.follows (Peer.follows_webSocketError _)
  next hvalid =>
  refine happend.deliver ⟨hlive.phase, hlive.ignoreInput⟩ fun htype => ?_
  by_cases hone : (p.append f.payload).fragmentOpcode = 1
  · simpa [hone] using hvalid
  · rw [if_neg hone] at htype
    cases htype

lemma takeFrame (h : Sound o p) (hs : p.stopped = false) : Sound o (p.takeFrame o w f).2 := by
  rcases Peer.running hs with hlive | hclosing
  · rw [Peer.takeFrame]
    split
    · exact h.follows (Peer.follows_takeClose _)
    split
    · exact h.follows (Peer.follows_takePing _)
    split
    · exact h.follows (Peer.follows_takePong _)
    rw [Peer.takeData, if_neg (by rw [hlive.phase]; decide)]
    split
    · exact h.follows (Peer.follows_webSocketError _)
    rw [Peer.openMessage]
    split
    · exact h.collect hlive
    · exact (h.collecting (q := { p with fragmentOpcode := f.opcode }) hlive rfl rfl h.fits).collect
        ⟨hlive.phase, hlive.ignoreInput⟩
  · exact h.follows (Peer.takeFrame_closing hclosing)

lemma processInput (h : Sound o s.peer) : Sound o (s.processInput o w).peer :=
  Reader.processInput_peer (fun _ code hp => hp.follows (Peer.follows_webSocketError code)) (fun _ _ hs _ hp => hp.takeFrame hs) h

lemma receive (h : Sound o s.peer) (bytes : Bytes) : Sound o (s.onBytesReceived o w bytes).peer :=
  Reader.receive_peer (fun _ code hp => hp.follows (Peer.follows_webSocketError code)) (fun _ _ hs _ hp => hp.takeFrame hs) h bytes

lemma step (h : Sound o s.peer) (input : Input) : Sound o (step o w s input).peer := by
  cases input with
  | receive bytes => exact h.receive bytes
  | progress => exact h.processInput
  | act action => exact h.follows (Peer.follows_act action)
  | heartbeat payload =>
    rw [WebSocketInput.step]
    split
    · exact h.follows (Peer.follows_checkHeartbeat payload)
    · exact h
  | disconnected => exact h.follows Peer.follows_disconnect

lemma run (h : Sound o s.peer) (inputs : List Input) : Sound o (run o w s inputs).peer := by
  induction inputs generalizing s with
  | nil => exact h
  | cons input inputs ih => exact ih (h.step input)

end Sound

lemma sound_start (o : Options) : Sound o {} :=
  ⟨nofun, fun x e y h => by simp at h, nofun, Nat.zero_le _, nofun⟩

end Sound

section Reading

variable {o : Options} {w : World} {s : Reader} {p q : Peer} {frames : List (ClientFrame o.maxWebSocketFrameBytes)}
  {tail future : Bytes}

def carried (o : Options) (frames : List (ClientFrame o.maxWebSocketFrameBytes)) : List WebSocketMessage :=
  reassemble o.maxWebSocketMessageBytes none (frames.map (·.frame))

def Overflowed (trace : List Event) : Prop := Paused trace ∧ .violation 1009 ∈ trace

structure Told (o : Options) (frames : List (ClientFrame o.maxWebSocketFrameBytes)) (p : Peer) : Prop where
  finished : p.Finished
  prefixes : messages p.trace <+: carried o frames
  all : messages p.trace = carried o frames ∨ Interrupted p.trace ∨ Overflowed p.trace

lemma Told.follows (h : Told o frames p) (hf : p.Follows q) : Told o frames q := by
  refine ⟨hf.finished h.finished, by rw [hf.messages]; exact h.prefixes, ?_⟩
  rcases h.all with hall | hint | ⟨hpaused, hmem⟩
  · exact .inl (hf.messages.trans hall)
  · exact .inr (.inl (hf.interrupted hint))
  · obtain ⟨es, hes, -⟩ := hf.trace
    refine .inr (.inr ⟨hf.paused hpaused, ?_⟩)
    rw [hes]
    exact List.mem_append_left es hmem

/-- A peer in the middle of the frames: `todo` are those that it has not read, of which `future` has not arrived. -/
structure Going (o : Options) (frames : List (ClientFrame o.maxWebSocketFrameBytes)) (tail future : Bytes) (s : Reader)
    (todo : List (ClientFrame o.maxWebSocketFrameBytes)) (opened : Option WebSocketMessage) : Prop where
  live : s.peer.Live
  building : Building o s.peer opened
  bytes : s.input ++ future = wires todo ++ tail
  rest : carried o frames =
    messages s.peer.trace ++ reassemble o.maxWebSocketMessageBytes opened (todo.map (·.frame))

inductive Reading (o : Options) (frames : List (ClientFrame o.maxWebSocketFrameBytes)) (tail future : Bytes) (s : Reader) : Prop
  | going (todo : List (ClientFrame o.maxWebSocketFrameBytes)) (opened : Option WebSocketMessage) :
      Going o frames tail future s todo opened → Reading o frames tail future s
  | told : Told o frames s.peer → Reading o frames tail future s

lemma Going.prefixes {todo : List (ClientFrame o.maxWebSocketFrameBytes)} {opened : Option WebSocketMessage}
    (h : Going o frames tail future s todo opened) : messages s.peer.trace <+: carried o frames := by
  rw [h.rest]
  exact List.prefix_append _ _

lemma Reading.follows (h : Reading o frames tail future s) (hf : s.peer.Follows q) (hi : q.ignoreInput = s.peer.ignoreInput) :
    Reading o frames tail future ⟨q, s.input⟩ := by
  cases h with
  | told h => exact .told (h.follows hf)
  | going todo opened h =>
    rcases hf.live_or h.live hi with hlive | ⟨hfinished, hint⟩
    · exact .going todo opened ⟨hlive, h.building.follows hf, h.bytes, by rw [hf.messages]; exact h.rest⟩
    · exact .told ⟨hfinished, by rw [hf.messages]; exact h.prefixes, .inr (.inl hint)⟩

lemma Going.takeFrame {todo : List (ClientFrame o.maxWebSocketFrameBytes)} {opened : Option WebSocketMessage}
    {f : ClientFrame o.maxWebSocketFrameBytes} (h : Going o frames tail future s (f :: todo) opened)
    (hparse : parseClientFrame s.input o.maxWebSocketFrameBytes {} = (⟨.complete, f.wire.length, 1000⟩, f.frame)) :
    Reading o frames tail future ⟨(s.peer.takeFrame o w f.frame).2, s.input.drop f.wire.length⟩ := by
  have hle : f.wire.length ≤ s.input.length := by
    have := consumed_le (x := s.input) (congrArg (·.1.kind) hparse)
    rwa [hparse] at this
  have hbytes : s.input.drop f.wire.length ++ future = wires todo ++ tail := by
    have := congrArg (List.drop f.wire.length) h.bytes
    rwa [List.drop_append_of_le_length hle, wires_cons, List.append_assoc, List.drop_left] at this
  cases takeFrame_taken (w := w) (f := f.frame) h.live h.building f.isOpcode with
  | live ms opened' hms hlive hbuilding hnext =>
    refine .going todo opened' ⟨hlive, hbuilding, hbytes, ?_⟩
    rw [hms, List.append_assoc, ← hnext]
    exact h.rest
  | finished ms hms hfinished hle hend =>
    have hrest : carried o frames = messages s.peer.trace ++
        reassemble o.maxWebSocketMessageBytes opened (f.frame :: todo.map (·.frame)) := h.rest
    refine .told ⟨hfinished, ?_, ?_⟩
    · rw [hms, hrest]
      exact (List.prefix_append_right_inj _).mpr (hle _)
    · rcases hend with hend | hint
      · exact .inl (by rw [hms, hrest, hend])
      · exact .inr (.inl hint)

section Tail

variable {todo : List (ClientFrame o.maxWebSocketFrameBytes)} {opened : Option WebSocketMessage}

lemma Going.last_kind (h : Going o frames tail future s [] opened)
    (htail : (parseClientFrame tail o.maxWebSocketFrameBytes {}).1.kind ≠ .complete) :
    (parseClientFrame s.input o.maxWebSocketFrameBytes {}).1.kind ≠ .complete := by
  intro hkind
  have hbytes : s.input ++ future = tail := h.bytes
  rw [← hbytes, parseClientFrame_append (by rw [hkind]; exact nofun)] at htail
  exact htail hkind

lemma Going.next (h : Going o frames tail future s todo opened)
    (hkind : (parseClientFrame s.input o.maxWebSocketFrameBytes {}).1.kind ≠ .needMore) :
    todo = [] ∨ ∃ f todo', todo = f :: todo' ∧
      parseClientFrame s.input o.maxWebSocketFrameBytes {} = (⟨.complete, f.wire.length, 1000⟩, f.frame) := by
  cases todo with
  | nil => exact .inl rfl
  | cons f todo =>
    refine .inr ⟨f, todo, rfl, ?_⟩
    rw [← parseClientFrame_append (y := future) hkind, h.bytes, wires_cons, List.append_assoc, parse_wire]

end Tail

lemma Reading.turn (htail : (parseClientFrame tail o.maxWebSocketFrameBytes {}).1.kind ≠ .complete)
    (h : Reading o frames tail future s) : Reading o frames tail future (s.turn o w).2 := by
  cases h with
  | told h =>
    apply Reading.told
    rcases Reader.turn_peer (o := o) (w := w) s with hsame | ⟨code, heq⟩ | ⟨f, hs, hh, heq⟩
    · rwa [hsame]
    · rw [heq]
      exact h.follows (Peer.follows_webSocketError code)
    · rw [heq]
      rcases Peer.running hs with hlive | hclosing
      · exact absurd h.finished hlive.not_finished
      · exact h.follows (Peer.takeFrame_closing hclosing)
  | going todo opened h =>
    have hs : s.peer.stopped = false := by
      rw [Peer.stopped, h.live.phase, h.live.ignoreInput]
      rfl
    cases hh : s.peer.held with
    | true =>
      rw [Reader.turn_held hh]
      exact .going todo opened h
    | false =>
      rw [Reader.turn_running hs hh, Reader.processWebSocketFrame]
      dsimp only
      cases hkind : (parseClientFrame s.input o.maxWebSocketFrameBytes {}).1.kind with
      | needMore => exact .going todo opened h
      | error =>
        have hlast := h.next (by rw [hkind]; simp)
        rcases hlast with rfl | ⟨f, todo, rfl, hparse⟩
        · have hf : s.peer.Follows (s.peer.webSocketError w (parseClientFrame s.input o.maxWebSocketFrameBytes {}).1.closeCode) :=
            Peer.follows_webSocketError _
          refine .told ⟨.inl (Peer.webSocketError_ignoreInput _), ?_, .inl ?_⟩
          · rw [hf.messages]
            exact h.prefixes
          · rw [hf.messages, h.rest]
            exact (List.append_nil _).symm
        · rw [hparse] at hkind
          cases hkind
      | complete =>
        have hlast := h.next (by rw [hkind]; simp)
        rcases hlast with rfl | ⟨f, todo, rfl, hparse⟩
        · exact absurd hkind (h.last_kind htail)
        · rw [hparse]
          exact h.takeFrame hparse

lemma Reading.processInput (htail : (parseClientFrame tail o.maxWebSocketFrameBytes {}).1.kind ≠ .complete)
    (h : Reading o frames tail future s) : Reading o frames tail future (s.processInput o w) := by
  induction s using Reader.processInput_induction (o := o) (w := w) with
  | hwait s hlast => rwa [Reader.processInput_last hlast]
  | hlast s t hlast _ =>
    have := h.turn (w := w) htail
    rwa [hlast, ← Reader.processInput_last hlast] at this
  | hmore s t hmore ih =>
    have := h.turn (w := w) htail
    rw [hmore] at this
    rw [Reader.processInput_more hmore]
    exact ih this

def Rested (o : Options) (s : Reader) : Prop :=
  Paused s.peer.trace ∨ s.peer.Finished ∨ (parseClientFrame s.input o.maxWebSocketFrameBytes {}).1.kind = .needMore

lemma Rested.follows (h : Rested o s) (hf : s.peer.Follows q) : Rested o ⟨q, s.input⟩ := by
  rcases h with hpaused | hfinished | hkind
  · exact .inl (hf.paused hpaused)
  · exact .inr (.inl (hf.finished hfinished))
  · exact .inr (.inr hkind)

lemma needMore_of_turn (hlive : s.peer.Live) (hh : s.peer.held = false) (h : s.turn o w = (false, s)) :
    (parseClientFrame s.input o.maxWebSocketFrameBytes {}).1.kind = .needMore := by
  have hs : s.peer.stopped = false := by
    rw [Peer.stopped, hlive.phase, hlive.ignoreInput]
    rfl
  rw [Reader.turn_running hs hh, Reader.processWebSocketFrame] at h
  dsimp only at h
  cases hkind : (parseClientFrame s.input o.maxWebSocketFrameBytes {}).1.kind with
  | needMore => rfl
  | error =>
    rw [hkind] at h
    have hi : (s.peer.webSocketError w (parseClientFrame s.input o.maxWebSocketFrameBytes {}).1.closeCode).ignoreInput =
        s.peer.ignoreInput := congrArg (·.2.peer.ignoreInput) h
    rw [Peer.webSocketError_ignoreInput, hlive.ignoreInput] at hi
    cases hi
  | complete =>
    rw [hkind] at h
    have hdrop : (s.input.drop (parseClientFrame s.input o.maxWebSocketFrameBytes {}).1.consumed).length = s.input.length :=
      congrArg (·.2.input.length) h
    have hpos := consumed_pos hkind
    have hle := consumed_le hkind
    rw [List.length_drop] at hdrop
    omega

lemma rested_processInput (h : Sound o s.peer) : Rested o (s.processInput o w) := by
  rcases (s.processInput o w).peer.live_or_finished with hlive | hfinished
  · cases hh : (s.processInput o w).peer.held with
    | true => exact .inl (h.processInput.held hh)
    | false => exact .inr (.inr (needMore_of_turn hlive hh (Reader.processInput_rests s)))
  · exact .inr (.inl hfinished)

lemma Reading.overflow (h : Reading o frames tail future s) (hrest : Rested o s) (hl : s.peer.limit o ≤ s.input.length) :
    Told o frames (s.peer.webSocketError w 1009) := by
  have hf : s.peer.Follows (s.peer.webSocketError w 1009) := Peer.follows_webSocketError _
  cases h with
  | told h => exact h.follows hf
  | going todo opened h =>
    refine ⟨.inl (Peer.webSocketError_ignoreInput _), by rw [hf.messages]; exact h.prefixes, .inr (.inr ?_)⟩
    rcases hrest with hpaused | hfinished | hkind
    · have hmem : .violation 1009 ∈ (s.peer.fail 1009).trace := List.mem_append_right _ (List.mem_singleton_self _)
      have hfail : (s.peer.fail 1009).Follows (s.peer.webSocketError w 1009) :=
        (Peer.follows_close 1009 [] (.inr rfl)).trans (Peer.follows_call _)
      obtain ⟨es, hes, -⟩ := hfail.trace
      refine ⟨hf.paused hpaused, ?_⟩
      rw [hes]
      exact List.mem_append_left es hmem
    · exact absurd hfinished h.live.not_finished
    · have hshort := needMore_length hkind
      rw [Peer.limit] at hl
      omega

lemma Reading.receive (htail : (parseClientFrame tail o.maxWebSocketFrameBytes {}).1.kind ≠ .complete) {bytes : Bytes}
    (h : Reading o frames tail (bytes ++ future) s) (hsound : Sound o s.peer) (hrest : Rested o s) :
    Reading o frames tail future (s.onBytesReceived o w bytes) ∧ Rested o (s.onBytesReceived o w bytes) := by
  generalize hn : bytes.length = n
  induction n using Nat.strong_induction_on generalizing s bytes with
  | _ n ih =>
    by_cases hb : bytes = []
    · subst hb
      exact ⟨h, hrest⟩
    cases hs : s.peer.stopped with
    | true =>
      rw [Reader.receive_stopped hs]
      refine ⟨?_, hrest⟩
      cases h with
      | told h => exact .told h
      | going todo opened h =>
        rw [Peer.stopped, h.live.phase, h.live.ignoreInput] at hs
        cases hs
    | false =>
      by_cases hl : s.peer.limit o ≤ s.input.length
      · rw [Reader.receive_full hb hs hl]
        exact ⟨.told (h.overflow hrest hl), .inr (.inl (.inl (Peer.webSocketError_ignoreInput _)))⟩
      · have hpos := List.length_pos_iff.mpr hb
        generalize hk : s.peer.limit o - s.input.length = k
        have hfed : Reading o frames tail (bytes.drop k ++ future) (s.feed (bytes.take k)) := by
          cases h with
          | told h => exact .told h
          | going todo opened h =>
            refine .going todo opened ⟨h.live, h.building, ?_, h.rest⟩
            rw [Reader.feed_input, ← h.bytes, ← List.append_assoc, List.append_assoc s.input, List.take_append_drop,
              List.append_assoc]
        have hsoundFed : Sound o (s.feed (bytes.take k)).peer := hsound
        rw [Reader.receive_next hb hs (by omega), hk]
        exact ih _ (by rw [List.length_drop]; omega) (hfed.processInput htail) hsoundFed.processInput
          (rested_processInput hsoundFed) rfl

lemma Reading.step (htail : (parseClientFrame tail o.maxWebSocketFrameBytes {}).1.kind ≠ .complete) {input : Input}
    (h : Reading o frames tail (received [input] ++ future) s) (hsound : Sound o s.peer) (hrest : Rested o s) :
    Reading o frames tail future (step o w s input) ∧ Rested o (step o w s input) := by
  cases input with
  | receive bytes => exact Reading.receive htail (by rwa [received, List.flatMap_singleton] at h) hsound hrest
  | progress => exact ⟨Reading.processInput htail h, rested_processInput hsound⟩
  | act action =>
    exact ⟨Reading.follows h (Peer.follows_act action) (Peer.act_ignoreInput action), hrest.follows (Peer.follows_act action)⟩
  | heartbeat payload =>
    rw [WebSocketInput.step]
    split
    · exact ⟨Reading.follows h (Peer.follows_checkHeartbeat payload) (Peer.checkHeartbeat_ignoreInput payload),
        hrest.follows (Peer.follows_checkHeartbeat payload)⟩
    · exact ⟨h, hrest⟩
  | disconnected => exact ⟨Reading.follows h Peer.follows_disconnect rfl, hrest.follows Peer.follows_disconnect⟩

lemma Reading.run (htail : (parseClientFrame tail o.maxWebSocketFrameBytes {}).1.kind ≠ .complete) {inputs : List Input}
    (h : Reading o frames tail (received inputs ++ future) s) (hsound : Sound o s.peer) (hrest : Rested o s) :
    Reading o frames tail future (run o w s inputs) ∧ Rested o (run o w s inputs) := by
  induction inputs generalizing s with
  | nil => exact ⟨h, hrest⟩
  | cons input inputs ih =>
    have hreceived : received (input :: inputs) ++ future = received [input] ++ (received inputs ++ future) := by
      rw [← List.append_assoc]
      rw [received, List.flatMap_cons, received, List.flatMap_singleton]
      rfl
    rw [hreceived] at h
    obtain ⟨hread, hrested⟩ := h.step (w := w) htail hsound hrest
    exact ih hread (hsound.step input) hrested

lemma Reading.prefixes (h : Reading o frames tail future s) : messages s.peer.trace <+: carried o frames := by
  cases h with
  | told h => exact h.prefixes
  | going todo opened h => exact h.prefixes

lemma Reading.all (h : Reading o frames tail [] s) (hrest : Rested o s) : messages s.peer.trace = carried o frames ∨
      Interrupted s.peer.trace ∨ Paused s.peer.trace ∧ (s.peer.held = true ∨ s.turn o w ≠ (false, s) ∨
        .violation 1009 ∈ s.peer.trace) := by
  cases h with
  | told h =>
    rcases h.all with hall | hint | ⟨hpaused, hmem⟩
    · exact .inl hall
    · exact .inr (.inl hint)
    · exact .inr (.inr ⟨hpaused, .inr (.inr hmem)⟩)
  | going todo opened h =>
    have hwaits (hkind : (parseClientFrame s.input o.maxWebSocketFrameBytes {}).1.kind = .needMore) :
        messages s.peer.trace = carried o frames := by
      cases todo with
      | nil =>
        rw [h.rest]
        exact (List.append_nil _).symm
      | cons f todo =>
        have hbytes := h.bytes
        rw [List.append_nil, wires_cons, List.append_assoc] at hbytes
        rw [hbytes, parse_wire] at hkind
        cases hkind
    rcases hrest with hpaused | hfinished | hkind
    · cases hh : s.peer.held with
      | true => exact .inr (.inr ⟨hpaused, .inl rfl⟩)
      | false =>
        by_cases hturn : s.turn o w = (false, s)
        · exact .inl (hwaits (needMore_of_turn h.live hh hturn))
        · exact .inr (.inr ⟨hpaused, .inr (.inl hturn)⟩)
    · exact absurd hfinished h.live.not_finished
    · exact .inl (hwaits hkind)

end Reading

section Fragments

variable {limit : ℕ}

inductive Continues : Bytes → List WebSocketFrame → Prop
  | last (payload : Bytes) : Continues payload [⟨true, 0, payload⟩]
  | next (payload : Bytes) {bytes : Bytes} {frames : List WebSocketFrame} :
      Continues bytes frames → Continues (payload ++ bytes) (⟨false, 0, payload⟩ :: frames)
  | control (f : WebSocketFrame) {bytes : Bytes} {frames : List WebSocketFrame} :
      8 < f.opcode → Continues bytes frames → Continues bytes (f :: frames)

inductive Fragments : WebSocketMessage → List WebSocketFrame → Prop
  | whole (m : WebSocketMessage) : Fragments m [⟨true, m.type.opcode, m.bytes⟩]
  | first (type : WebSocketMessageType) (payload : Bytes) {bytes : Bytes} {frames : List WebSocketFrame} :
      Continues bytes frames → Fragments ⟨type, payload ++ bytes⟩ (⟨false, type.opcode, payload⟩ :: frames)
  | control (f : WebSocketFrame) {m : WebSocketMessage} {frames : List WebSocketFrame} :
      8 < f.opcode → Fragments m frames → Fragments m (f :: frames)

lemma reassemble_control {f : WebSocketFrame} (h : 8 < f.opcode) (opened : Option WebSocketMessage) (frames : List WebSocketFrame) :
    reassemble limit opened (f :: frames) = reassemble limit opened frames := by
  rw [reassemble, if_neg (by omega), if_pos h]

def finish (limit : ℕ) (m : WebSocketMessage) (rest : List WebSocketFrame) : List WebSocketMessage :=
  if m.bytes.length ≤ limit ∧ m.WellFormed then m :: reassemble limit none rest else []

lemma reassemble_last {opened : Option WebSocketMessage} {m : WebSocketMessage} {f : WebSocketFrame} (hf : f.opcode < 8)
    (hext : extend opened f = some m) (hfinal : f.final = true) (rest : List WebSocketFrame) :
    reassemble limit opened (f :: rest) = finish limit m rest := by
  have hdata := @reassemble_data ⟨0, limit⟩ opened f hf rest
  rw [hext] at hdata
  refine hdata.trans ?_
  dsimp only
  rw [finish]
  by_cases hlong : limit < m.bytes.length
  · rw [if_pos hlong, if_neg (by omega)]
  · rw [if_neg hlong, if_neg (by rw [hfinal]; decide)]
    exact if_congr (by simp [not_lt.mp hlong]) rfl rfl

lemma reassemble_more {opened : Option WebSocketMessage} {m : WebSocketMessage} {f : WebSocketFrame} (hf : f.opcode < 8)
    (hext : extend opened f = some m) (hfinal : f.final = false) (rest : List WebSocketFrame) :
    reassemble limit opened (f :: rest) = if limit < m.bytes.length then [] else reassemble limit (some m) rest := by
  have hdata := @reassemble_data ⟨0, limit⟩ opened f hf rest
  rw [hext] at hdata
  refine hdata.trans ?_
  dsimp only
  rw [if_pos hfinal]

lemma finish_long {m : WebSocketMessage} (h : limit < m.bytes.length) (rest : List WebSocketFrame) : finish limit m rest = [] :=
  if_neg (by omega)

lemma reassemble_continues {bytes : Bytes} {frames : List WebSocketFrame} (h : Continues bytes frames) (m : WebSocketMessage)
    (rest : List WebSocketFrame) :
    reassemble limit (some m) (frames ++ rest) = finish limit ⟨m.type, m.bytes ++ bytes⟩ rest := by
  induction h generalizing m with
  | last payload => exact reassemble_last (by decide : 0 < 8) rfl rfl rest
  | @next payload bytes frames _ ih =>
    rw [List.cons_append, reassemble_more (m := ⟨m.type, m.bytes ++ payload⟩) (by decide : 0 < 8) rfl rfl, ← List.append_assoc]
    split
    · next hlong =>
      refine (finish_long ?_ rest).symm
      rw [List.length_append]
      exact Nat.lt_add_right _ hlong
    · exact ih ⟨m.type, m.bytes ++ payload⟩
  | control f hf _ ih =>
    rw [List.cons_append, reassemble_control hf]
    exact ih m

lemma extend_first (type : WebSocketMessageType) (final : Bool) (payload : Bytes) :
    extend none ⟨final, type.opcode, payload⟩ = some ⟨type, payload⟩ := by
  cases type <;> rfl

lemma reassemble_fragments {m : WebSocketMessage} {frames : List WebSocketFrame} (h : Fragments m frames) (rest : List WebSocketFrame) :
    reassemble limit none (frames ++ rest) = finish limit m rest := by
  have hdata (type : WebSocketMessageType) : type.opcode < 8 := by
    cases type <;> decide
  induction h with
  | whole m => exact reassemble_last (hdata m.type) (extend_first m.type true m.bytes) rfl rest
  | @first type payload bytes frames hcontinues =>
    rw [List.cons_append, reassemble_more (hdata type) (extend_first type false payload) rfl]
    split
    · next hlong =>
      refine (finish_long ?_ rest).symm
      rw [List.length_append]
      exact Nat.lt_add_right _ hlong
    · exact reassemble_continues hcontinues ⟨type, payload⟩ rest
  | control f hf _ ih =>
    rw [List.cons_append, reassemble_control hf]
    exact ih

lemma reassemble_parts {parts : List (WebSocketMessage × List WebSocketFrame)} (h : ∀ part ∈ parts, Fragments part.1 part.2)
    {rest : List WebSocketFrame} (hrest : ∀ f ∈ rest.head?, f.opcode = 8 ∨ f.opcode = 0) :
    reassemble limit none (parts.flatMap (·.2) ++ rest) =
      (parts.map (·.1)).takeWhile fun m => m.bytes.length ≤ limit ∧ m.WellFormed := by
  induction parts with
  | nil =>
    cases rest with
    | nil => rfl
    | cons f rest =>
      rcases hrest f rfl with hf | hf
      · exact if_pos hf
      · rw [List.flatMap_nil, List.nil_append, reassemble, if_neg (by omega), if_neg (by omega), extend, if_pos hf]
        rfl
  | cons part parts ih =>
    rw [List.forall_mem_cons] at h
    rw [List.flatMap_cons, List.append_assoc, reassemble_fragments h.1, finish, ih h.2, List.map_cons, List.takeWhile_cons]
    exact if_congr (by simp) rfl rfl

end Fragments

def greeting : List (ClientFrame 65536) :=
  [⟨⟨false, 1, [72], rfl, by decide, by decide, by decide⟩, [1, 2, 3, 4], rfl⟩,
    ⟨⟨true, 9, [7], rfl, by decide, by decide, by decide⟩, [5, 6, 7, 8], rfl⟩,
    ⟨⟨true, 0, [105], rfl, by decide, by decide, by decide⟩, [9, 10, 11, 12], rfl⟩]

end ServerCore.Web.WebSocketInput
