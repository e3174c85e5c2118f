import ServerCore.Web.WebSocketCuts

/-! The messages of a WebSocket are those that its frames carry, up to the first violation or close. -/

namespace ServerCore.Web.WebSocketInput

open ServerCore.Core WebSocketFrame

def Event.Interrupts : Event → Prop
  | .disconnected => True
  | .closing own => own = true
  | .threw => True
  | _ => False

def Event.Ends : Event → Prop
  | .violation _ => True
  | .received _ => True
  | .closing _ => True
  | _ => False

def Interrupted (trace : List Event) : Prop := ∃ e ∈ trace, e.Interrupts

def Paused (trace : List Event) : Prop := .call .pauseReceive ∈ trace

def Ended (trace : List Event) : Prop := ∃ e ∈ trace, e.Ends

lemma Interrupted.append {x : List Event} (h : Interrupted x) (y : List Event) : Interrupted (x ++ y) := by
  obtain ⟨e, he, hi⟩ := h
  exact ⟨e, List.mem_append_left y he, hi⟩

lemma messages_append (x y : List Event) : messages (x ++ y) = messages x ++ messages y := List.filterMap_append

namespace Peer

variable {o : Options} {w : World} {p q r : Peer}

def Finished (p : Peer) : Prop := p.ignoreInput = true ∨ p.phase ≠ .webSocket

structure Follows (p q : Peer) : Prop where
  trace : ∃ es, q.trace = p.trace ++ es ∧ messages es = []
  message : q.message = p.message
  fragmentOpcode : q.fragmentOpcode = p.fragmentOpcode
  ignoreInput : p.ignoreInput = true → q.ignoreInput = true
  phase : q.phase = .webSocket → p.phase = .webSocket
  ended : Ended q.trace → q.Finished ∨ Ended p.trace
  live : q.ignoreInput = false → q.phase = p.phase ∨ Interrupted q.trace
  held : q.held = true → p.held = true ∨ Paused q.trace

namespace Follows

lemma refl (p : Peer) : p.Follows p :=
  ⟨⟨[], by simp, rfl⟩, rfl, rfl, id, id, .inr, fun _ => .inl rfl, .inl⟩

lemma finished (h : p.Follows q) (hp : p.Finished) : q.Finished := by
  rcases hp with hp | hp
  · exact .inl (h.ignoreInput hp)
  · exact .inr fun hq => hp (h.phase hq)

lemma messages (h : p.Follows q) : messages q.trace = WebSocketInput.messages p.trace := by
  obtain ⟨es, hes, hnone⟩ := h.trace
  rw [hes, messages_append, hnone, List.append_nil]

lemma interrupted (h : p.Follows q) (hp : Interrupted p.trace) : Interrupted q.trace := by
  obtain ⟨es, hes, -⟩ := h.trace
  rw [hes]
  exact hp.append es

lemma paused (h : p.Follows q) (hp : Paused p.trace) : Paused q.trace := by
  obtain ⟨es, hes, -⟩ := h.trace
  rw [hes]
  exact List.mem_append_left es hp

lemma trans (h : p.Follows q) (h' : q.Follows r) : p.Follows r where
  trace := by
    obtain ⟨es, hes, hnone⟩ := h.trace
    obtain ⟨es', hes', hnone'⟩ := h'.trace
    exact ⟨es ++ es', by rw [hes', hes, List.append_assoc], by rw [messages_append, hnone, hnone']; rfl⟩
  message := h'.message.trans h.message
  fragmentOpcode := h'.fragmentOpcode.trans h.fragmentOpcode
  ignoreInput := fun hp => h'.ignoreInput (h.ignoreInput hp)
  phase := fun hr => h.phase (h'.phase hr)
  ended := fun hr => by
    rcases h'.ended hr with hfinished | hq
    · exact .inl hfinished
    · rcases h.ended hq with hfinished | hp
      · exact .inl (h'.finished hfinished)
      · exact .inr hp
  live := fun hr => by
    rcases h'.live hr with hphase | hi
    · have hq : q.ignoreInput = false := by
        by_contra hq
        rw [Bool.not_eq_false] at hq
        rw [h'.ignoreInput hq] at hr
        cases hr
      rcases h.live hq with hphase' | hi
      · exact .inl (hphase.trans hphase')
      · exact .inr (h'.interrupted hi)
    · exact .inr hi
  held := fun hr => by
    rcases h'.held hr with hq | hpaused
    · rcases h.held hq with hp | hpaused
      · exact .inl hp
      · exact .inr (h'.paused hpaused)
    · exact .inr hpaused

end Follows

section Follows

lemma ended_note {e : Event} (he : ¬e.Ends) (h : Ended (p.trace ++ [e])) : Ended p.trace := by
  obtain ⟨e', he', hends⟩ := h
  rcases List.mem_append.mp he' with hmem | hmem
  · exact ⟨e', hmem, hends⟩
  · obtain rfl := List.mem_singleton.mp hmem
    exact absurd hends he

lemma follows_note {e : Event} (hm : messages [e] = []) (he : ¬e.Ends) : p.Follows (p.note e) :=
  ⟨⟨[e], rfl, hm⟩, rfl, rfl, id, id, fun h => .inr (ended_note he h), fun _ => .inl rfl, .inl⟩

lemma follows_setHeld : p.Follows (p.setHeld false) :=
  ⟨⟨[], by rw [List.append_nil]; rfl, rfl⟩, rfl, rfl, id, id, .inr, fun _ => .inl rfl, nofun⟩

lemma follows_disconnect : p.Follows p.disconnect :=
  ⟨⟨[.disconnected], rfl, rfl⟩, rfl, rfl, id, nofun, fun _ => .inl (.inr nofun),
    fun _ => .inr ⟨.disconnected, by simp [disconnect, note], trivial⟩, .inl⟩

lemma follows_beginClose {own : Bool} (h : own = true ∨ p.ignoreInput = true) : p.Follows (p.beginClose own) := by
  refine ⟨⟨[.closing own], rfl, rfl⟩, rfl, rfl, id, nofun, fun _ => .inl (.inr nofun), fun hq => .inr ?_, .inl⟩
  rcases h with rfl | hp
  · exact ⟨.closing true, by simp [beginClose, note], rfl⟩
  · rw [beginClose] at hq
    exact absurd (hp.symm.trans hq) (by decide)

lemma follows_fail (code : ℕ) : p.Follows (p.fail code) :=
  ⟨⟨[.violation code], rfl, rfl⟩, rfl, rfl, fun _ => rfl, id, fun _ => .inl (.inl rfl), nofun, .inl⟩

lemma follows_call (c : Call) : p.Follows (p.call w c).2 := by
  rw [call]
  dsimp only
  have hnote : p.Follows (p.note (.call c)) := follows_note rfl (by simp [Event.Ends])
  split
  · exact hnote.trans follows_disconnect
  · exact hnote

lemma follows_orClose {s : ErrorCode × Peer} (h : p.Follows s.2) : p.Follows (orClose w s) := by
  rw [orClose]
  split
  · exact h
  · exact h.trans (follows_call _)

lemma follows_resumeHeld : p.Follows (p.resumeHeld w) := by
  rw [resumeHeld]
  split
  · exact follows_setHeld.trans (follows_call _)
  · exact .refl p

lemma follows_sendControl (opcode : ℕ) (payload : Bytes) (closing : Bool) :
    p.Follows (p.sendControl w opcode payload closing).2 := by
  rw [sendControl]
  split_ifs
  · exact .refl p
  · exact .refl p
  · exact follows_call _

lemma follows_sendClose {own : Bool} (payload : Bytes) (h : own = true ∨ p.ignoreInput = true) :
    p.Follows (p.sendClose w own payload) := by
  rw [sendClose]
  split
  · exact .refl p
  · exact follows_orClose (((follows_beginClose h).trans follows_resumeHeld).trans (follows_call _))

lemma follows_close {own : Bool} (code : ℕ) (reason : Bytes) (h : own = true ∨ p.ignoreInput = true) :
    p.Follows (p.close w own code reason) := by
  rw [close]
  split_ifs
  · exact .refl p
  · exact .refl p
  · exact .refl p
  · exact .refl p
  · exact follows_sendClose _ h

lemma follows_webSocketError (code : ℕ) : p.Follows (p.webSocketError w code) := by
  rw [webSocketError]
  exact ((follows_fail code).trans (follows_close code [] (.inr rfl))).trans (follows_call _)

lemma follows_pauseReceive : p.Follows (p.pauseReceive w) := by
  have hpause : p.Follows ((p.setHeld true).call w .pauseReceive).2 := by
    have hcall : (p.setHeld true).Follows ((p.setHeld true).call w .pauseReceive).2 := follows_call _
    have hmem : Paused ((p.setHeld true).call w .pauseReceive).2.trace := by
      rw [call]
      dsimp only
      split <;> simp [Paused, disconnect, note]
    exact ⟨hcall.trace, hcall.message, hcall.fragmentOpcode, hcall.ignoreInput, hcall.phase, hcall.ended, hcall.live,
      fun _ => .inr hmem⟩
  rw [pauseReceive]
  dsimp only
  split
  · exact .refl p
  split
  · exact hpause.trans follows_resumeHeld
  · exact hpause

lemma follows_resumeReceive : p.Follows (p.resumeReceive w) := by
  rw [resumeReceive]
  split
  · exact .refl p
  · exact follows_setHeld.trans (follows_call _)

lemma follows_act (a : Action) : p.Follows (p.act w a) := by
  cases a with
  | close code reason => exact follows_close code reason (.inl rfl)
  | call c => exact follows_call c
  | pauseReceive => exact follows_pauseReceive
  | resumeReceive => exact follows_resumeReceive

lemma follows_acts (actions : List Action) : p.Follows (actions.foldl (act w) p) := by
  induction actions generalizing p with
  | nil => exact .refl p
  | cons a actions ih => exact (follows_act a).trans ih

lemma follows_acceptClose (code : ℕ) (reason payload : Bytes) : p.Follows (p.acceptClose w code reason payload) := by
  have hnote : p.Follows
      { p.note (.received code) with receivedCloseReason := reason, receivedCloseCode := code, ignoreInput := true } :=
    ⟨⟨[.received code], rfl, rfl⟩, rfl, rfl, fun _ => rfl, id, fun _ => .inl (.inl rfl), nofun, .inl⟩
  rw [acceptClose]
  exact (hnote.trans (follows_sendClose payload (.inr rfl))).trans (follows_call _)

lemma follows_takeClose (payload : Bytes) : p.Follows (p.takeClose w payload) := by
  rw [takeClose]
  split
  · exact follows_webSocketError _
  split
  · dsimp only
    split_ifs
    · exact follows_webSocketError _
    · exact follows_webSocketError _
    · exact follows_acceptClose _ _ _
    · exact follows_acceptClose _ _ _
  · exact follows_acceptClose _ _ _

lemma follows_takePing (payload : Bytes) : p.Follows (p.takePing w payload) :=
  follows_orClose (follows_sendControl _ _ _)

lemma follows_takePong (payload : Bytes) : p.Follows (p.takePong payload) := by
  rw [takePong]
  split
  · exact ⟨⟨[], by rw [List.append_nil], rfl⟩, rfl, rfl, id, id, .inr, fun _ => .inl rfl, .inl⟩
  · exact .refl p

lemma follows_checkHeartbeat (payload : Bytes) : p.Follows (p.checkHeartbeat w payload) := by
  rw [checkHeartbeat]
  split
  · exact .refl p
  split
  · exact follows_close _ _ (.inl rfl)
  · dsimp only
    have hsent : p.Follows (p.sendControl w 9 payload false).2 := follows_sendControl _ _ _
    split
    · exact ⟨hsent.trace, hsent.message, hsent.fragmentOpcode, hsent.ignoreInput, hsent.phase, hsent.ended, hsent.live,
        hsent.held⟩
    split
    · exact hsent.trans (follows_call _)
    · exact hsent

end Follows

structure Live (p : Peer) : Prop where
  phase : p.phase = .webSocket
  ignoreInput : p.ignoreInput = false

lemma live_or_finished (p : Peer) : p.Live ∨ p.Finished := by
  by_cases hphase : p.phase = .webSocket
  · cases hi : p.ignoreInput with
    | false => exact .inl ⟨hphase, hi⟩
    | true => exact .inr (.inl hi)
  · exact .inr (.inr hphase)

lemma Live.not_finished (hp : p.Live) : ¬p.Finished := by
  rintro (hi | hphase)
  · rw [hp.ignoreInput] at hi
    cases hi
  · exact hphase hp.phase

lemma Follows.live_or (h : p.Follows q) (hp : p.Live) (hi : q.ignoreInput = p.ignoreInput) :
    q.Live ∨ q.Finished ∧ Interrupted q.trace := by
  rw [hp.ignoreInput] at hi
  rcases q.live_or_finished with hlive | hfinished
  · exact .inl hlive
  · rcases h.live hi with hsame | hint
    · exact .inl ⟨hsame.trans hp.phase, hi⟩
    · exact .inr ⟨hfinished, hint⟩

end Peer

def WebSocketMessageType.opcode : WebSocketMessageType → ℕ
  | .text => 1
  | .binary => 2

namespace WebSocketMessage

def extend : Option WebSocketMessage → WebSocketFrame → Option WebSocketMessage
  | none, f => if f.opcode = 0 then none else some ⟨if f.opcode = 1 then .text else .binary, f.payload⟩
  | some m, f => if f.opcode = 0 then some ⟨m.type, m.bytes ++ f.payload⟩ else none

def WellFormed (m : WebSocketMessage) : Prop := m.type = .text → isValidUtf8 m.bytes = true

instance (m : WebSocketMessage) : Decidable m.WellFormed := inferInstanceAs (Decidable (_ → _))

end WebSocketMessage

open WebSocketMessage

/-- The messages that frames carry, up to the first violation or close. `opened` is the message that is not whole yet. -/
def reassemble (limit : ℕ) : Option WebSocketMessage → List WebSocketFrame → List WebSocketMessage
  | _, [] => []
  | opened, f :: frames =>
    if f.opcode = 8 then []
    else if 8 < f.opcode then reassemble limit opened frames
    else match extend opened f with
      | none => []
      | some m =>
        if limit < m.bytes.length then []
        else if f.final = false then reassemble limit (some m) frames
        else if m.WellFormed then m :: reassemble limit none frames
        else []

section Frames

variable {o : Options} {w : World} {p q : Peer} {opened : Option WebSocketMessage} {m : WebSocketMessage} {f : WebSocketFrame}

structure Building (o : Options) (p : Peer) (opened : Option WebSocketMessage) : Prop where
  fragmentOpcode : p.fragmentOpcode = (opened.map (·.type.opcode)).getD 0
  message : p.message = (opened.map (·.bytes)).getD []
  fits : p.message.length ≤ o.maxWebSocketMessageBytes

lemma Building.follows (h : Building o p opened) (hf : p.Follows q) : Building o q opened :=
  ⟨hf.fragmentOpcode.trans h.fragmentOpcode, hf.message.trans h.message, by rw [hf.message]; exact h.fits⟩

inductive Taken (o : Options) (opened : Option WebSocketMessage) (f : WebSocketFrame) (p q : Peer) : Prop
  | live (ms : List WebSocketMessage) (opened' : Option WebSocketMessage) :
      messages q.trace = messages p.trace ++ ms → q.Live → Building o q opened' →
      (∀ frames, reassemble o.maxWebSocketMessageBytes opened (f :: frames) =
        ms ++ reassemble o.maxWebSocketMessageBytes opened' frames) → Taken o opened f p q
  | finished (ms : List WebSocketMessage) : messages q.trace = messages p.trace ++ ms → q.Finished →
      (∀ frames, ms <+: reassemble o.maxWebSocketMessageBytes opened (f :: frames)) →
      (∀ frames, reassemble o.maxWebSocketMessageBytes opened (f :: frames) = ms) ∨ Interrupted q.trace → Taken o opened f p q

lemma taken_end (hm : messages q.trace = messages p.trace) (hi : q.ignoreInput = true)
    (h : ∀ frames, reassemble o.maxWebSocketMessageBytes opened (f :: frames) = []) : Taken o opened f p q :=
  .finished [] (by rw [hm, List.append_nil]) (.inl hi) (fun _ => List.nil_prefix) (.inl h)

lemma taken_control (hf : p.Follows q) (hp : p.Live) (hb : Building o p opened) (hi : q.ignoreInput = p.ignoreInput)
    (h8 : 8 < f.opcode) : Taken o opened f p q := by
  have hskip (frames : List WebSocketFrame) : reassemble o.maxWebSocketMessageBytes opened (f :: frames) =
      reassemble o.maxWebSocketMessageBytes opened frames := by
    rw [reassemble, if_neg (by omega), if_pos h8]
  rcases hf.live_or hp hi with hlive | ⟨hfinished, hint⟩
  · exact .live [] opened (by rw [hf.messages, List.append_nil]) hlive (hb.follows hf) hskip
  · exact .finished [] (by rw [hf.messages, List.append_nil]) hfinished (fun _ => List.nil_prefix) (.inr hint)

lemma reassemble_data (h : f.opcode < 8) (frames : List WebSocketFrame) :
    reassemble o.maxWebSocketMessageBytes opened (f :: frames) =
      match extend opened f with
      | none => []
      | some m =>
        if o.maxWebSocketMessageBytes < m.bytes.length then []
        else if f.final = false then reassemble o.maxWebSocketMessageBytes (some m) frames
        else if m.WellFormed then m :: reassemble o.maxWebSocketMessageBytes none frames
        else [] := by
  rw [reassemble, if_neg (by omega), if_neg (by omega)]

lemma opcode_ne_zero (type : WebSocketMessageType) : type.opcode ≠ 0 := by
  cases type <;> decide

lemma opcode_eq_one {type : WebSocketMessageType} : type.opcode = 1 ↔ type = .text := by
  cases type <;> decide

lemma extend_eq_none (hb : Building o p opened) :
    extend opened f = none ↔ f.opcode = 0 ∧ p.fragmentOpcode = 0 ∨ f.opcode ≠ 0 ∧ p.fragmentOpcode ≠ 0 := by
  rw [hb.fragmentOpcode]
  cases opened with
  | none => by_cases hf : f.opcode = 0 <;> simp [extend, hf]
  | some m => by_cases hf : f.opcode = 0 <;> simp [extend, hf, opcode_ne_zero]

lemma building_open (hb : Building o p opened) (hop : f.opcode ≤ 2) (h : extend opened f = some m) :
    (p.openMessage f.opcode).fragmentOpcode = m.type.opcode ∧ (p.openMessage f.opcode).message ++ f.payload = m.bytes := by
  rw [Peer.openMessage]
  cases opened with
  | none =>
    by_cases hf : f.opcode = 0
    · simp [extend, hf] at h
    · have hm := hb.message
      rw [extend, if_neg hf, Option.some.injEq] at h
      subst h
      rw [if_neg hf]
      refine ⟨?_, by simp only [hm, Option.map_none, Option.getD_none, List.nil_append]⟩
      by_cases hone : f.opcode = 1
      · rw [hone, if_pos rfl]
        rfl
      · rw [if_neg hone]
        exact (show f.opcode = 2 by omega)
  | some m' =>
    by_cases hf : f.opcode = 0
    · rw [extend, if_pos hf, Option.some.injEq] at h
      subst h
      rw [if_pos hf]
      exact ⟨hb.fragmentOpcode, congrArg (· ++ f.payload) hb.message⟩
    · simp [extend, hf] at h

def Peer.handed (type : WebSocketMessageType) (p : Peer) : Peer :=
  { p with fragmentOpcode := 0 }.note (.message ⟨type, p.message⟩)

lemma messages_handed (type : WebSocketMessageType) :
    messages (p.handed type).trace = messages p.trace ++ [⟨type, p.message⟩] := messages_append _ _

lemma acts_ignoreInput (actions : List Action) : (actions.foldl (Peer.act w) p).ignoreInput = p.ignoreInput := by
  induction actions generalizing p with
  | nil => rfl
  | cons a actions ih => exact ih.trans (Peer.act_ignoreInput a)

lemma deliver_cases (type : WebSocketMessageType) : ∃ acted : Peer, (p.handed type).Follows acted ∧
    acted.ignoreInput = p.ignoreInput ∧ ((p.deliver w type).2 = { acted with message := [] } ∨
      (p.deliver w type).2 = (acted.note .threw).webSocketError w 1011) := by
  refine ⟨(w.onMessage (p.handed type).trace).actions.foldl (Peer.act w) (p.handed type), Peer.follows_acts _,
    acts_ignoreInput _, ?_⟩
  have heq : p.deliver w type = if (w.onMessage (p.handed type).trace).throws then
      (false, (((w.onMessage (p.handed type).trace).actions.foldl (Peer.act w) (p.handed type)).note .threw).webSocketError w 1011)
      else (true, { (w.onMessage (p.handed type).trace).actions.foldl (Peer.act w) (p.handed type) with message := [] }) := rfl
  rw [heq]
  split
  · exact .inr rfl
  · exact .inl rfl

lemma taken_deliver (hp : p.Live) (hbytes : p.message = m.bytes)
    (htrace : messages p.trace = messages q.trace)
    (hnext : ∀ frames, reassemble o.maxWebSocketMessageBytes opened (f :: frames) =
      m :: reassemble o.maxWebSocketMessageBytes none frames) : Taken o opened f q (p.deliver w m.type).2 := by
  obtain ⟨acted, hacted, hi, hcases⟩ := deliver_cases (w := w) (p := p) m.type
  have hmessages : messages acted.trace = messages q.trace ++ [m] := by
    rw [hacted.messages, messages_handed, htrace, hbytes]
  have hle (frames : List WebSocketFrame) : [m] <+: reassemble o.maxWebSocketMessageBytes opened (f :: frames) := by
    rw [hnext]
    exact List.prefix_append [m] _
  have hhanded : (p.handed m.type).Live := ⟨hp.phase, hp.ignoreInput⟩
  rcases hcases with heq | heq <;> rw [heq]
  · rcases hacted.live_or hhanded hi with hlive | ⟨hfinished, hint⟩
    · exact .live [m] none hmessages ⟨hlive.phase, hlive.ignoreInput⟩ ⟨hacted.fragmentOpcode, rfl, Nat.zero_le _⟩ hnext
    · exact .finished [m] hmessages hfinished hle (.inr hint)
  · have hthrew : (acted.note .threw).Follows ((acted.note .threw).webSocketError w 1011) := Peer.follows_webSocketError _
    have hint : Interrupted (acted.note .threw).trace := ⟨.threw, by simp [Peer.note], trivial⟩
    refine .finished [m] ?_ (.inl (Peer.webSocketError_ignoreInput _)) hle (.inr (hthrew.interrupted hint))
    rw [hthrew.messages, Peer.note, messages_append, hmessages]
    exact List.append_nil _

lemma taken_collect {frame : WebSocketFrame} (hp : p.Live) (hfits : p.message.length ≤ o.maxWebSocketMessageBytes)
    (hop : p.fragmentOpcode = m.type.opcode) (hbytes : p.message ++ frame.payload = m.bytes) (h8 : frame.opcode < 8)
    (hext : extend opened frame = some m) : Taken o opened frame p (p.collect o w frame).2 := by
  have hdata := fun frames => (@reassemble_data o opened frame h8 frames).trans (by rw [hext])
  have hlength : m.bytes.length = p.message.length + frame.payload.length := by rw [← hbytes, List.length_append]
  rw [Peer.collect]
  rw [sizeSub_eq hfits]
  split
  · next hlong =>
    refine taken_end (Peer.follows_webSocketError _).messages (Peer.webSocketError_ignoreInput _) fun frames => ?_
    rw [hdata]
    exact if_pos (by omega)
  next hlong =>
  have hroom : ¬ o.maxWebSocketMessageBytes < m.bytes.length := by omega
  have happend : (p.append frame.payload).message = m.bytes := hbytes
  split
  · next hfinal =>
    rw [Bool.not_eq_true'] at hfinal
    refine .live [] (some m) (List.append_nil _).symm ⟨hp.phase, hp.ignoreInput⟩
      ⟨hop, happend, by rw [happend]; omega⟩ fun frames => ?_
    rw [hdata]
    exact (if_neg hroom).trans (if_pos hfinal)
  next hfinal =>
  rw [Bool.not_eq_true', Bool.not_eq_false] at hfinal
  have hwhole (frames : List WebSocketFrame) : reassemble o.maxWebSocketMessageBytes opened (frame :: frames) =
      if m.WellFormed then m :: reassemble o.maxWebSocketMessageBytes none frames else [] := by
    rw [hdata]
    exact (if_neg hroom).trans (if_neg (by rw [hfinal]; decide))
  have hwf : m.WellFormed ↔ ¬(m.type.opcode = 1 ∧ isValidUtf8 m.bytes = false) := by
    rw [opcode_eq_one, not_and, Bool.not_eq_false]
    rfl
  rw [Peer.finishMessage, happend, show (p.append frame.payload).fragmentOpcode = m.type.opcode from hop]
  split
  · next hbad =>
    refine taken_end (Peer.follows_webSocketError (p := p.append frame.payload) _).messages
      (Peer.webSocketError_ignoreInput _) fun frames => ?_
    rw [hwhole]
    exact if_neg fun hm => hwf.mp hm hbad
  next hgood =>
  have htype : (if m.type.opcode = 1 then .text else .binary) = m.type := by
    cases m.type <;> rfl
  have hm : m.WellFormed := hwf.mpr hgood
  have hnext (frames : List WebSocketFrame) : reassemble o.maxWebSocketMessageBytes opened (frame :: frames) =
      m :: reassemble o.maxWebSocketMessageBytes none frames := (hwhole frames).trans (if_pos hm)
  rw [htype]
  exact taken_deliver (p := p.append frame.payload) ⟨hp.phase, hp.ignoreInput⟩ happend rfl hnext

lemma takeFrame_taken (hp : p.Live) (hb : Building o p opened) (hop : isOpcode f.opcode = true) :
    Taken o opened f p (p.takeFrame o w f).2 := by
  have hcases : f.opcode ≤ 2 ∨ f.opcode = 8 ∨ f.opcode = 9 ∨ f.opcode = 10 := by
    simp only [isOpcode, Bool.or_eq_true, beq_iff_eq] at hop
    omega
  rw [Peer.takeFrame]
  split
  · next h8 =>
    refine taken_end (Peer.follows_takeClose _).messages (Peer.takeClose_ignoreInput _) fun frames => ?_
    rw [reassemble, if_pos h8]
  split
  · next h9 =>
    refine taken_control (Peer.follows_takePing _) hp hb ?_ (by omega)
    exact (Peer.orClose_ignoreInput _).trans (Peer.sendControl_ignoreInput _ _ _)
  split
  · next h10 =>
    refine taken_control (Peer.follows_takePong _) hp hb ?_ (by omega)
    rw [Peer.takePong]
    split
    · rfl
    · rfl
  have h2 : f.opcode ≤ 2 := by omega
  rw [Peer.takeData, if_neg (by rw [hp.phase]; decide)]
  cases hext : extend opened f with
  | none =>
    rw [if_pos ((extend_eq_none hb).mp hext)]
    refine taken_end (Peer.follows_webSocketError _).messages (Peer.webSocketError_ignoreInput _) fun frames => ?_
    rw [reassemble_data (by omega), hext]
  | some m =>
    have hplace : ¬(f.opcode = 0 ∧ p.fragmentOpcode = 0 ∨ f.opcode ≠ 0 ∧ p.fragmentOpcode ≠ 0) := by
      rw [← extend_eq_none hb, hext]
      simp
    rw [if_neg hplace]
    obtain ⟨hopcode, hbytes⟩ := building_open hb h2 hext
    have hsame : (p.openMessage f.opcode).trace = p.trace ∧ (p.openMessage f.opcode).message = p.message ∧
        (p.openMessage f.opcode).Live := by
      rw [Peer.openMessage]
      split
      · exact ⟨rfl, rfl, hp⟩
      · exact ⟨rfl, rfl, hp.phase, hp.ignoreInput⟩
    obtain ⟨htrace, hmessage, hlive⟩ := hsame
    have htaken := taken_collect (w := w) hlive (by rw [hmessage]; exact hb.fits) hopcode hbytes (by omega) hext
    cases htaken with
    | live ms opened' hms hl hb' hnext => exact .live ms opened' (by rw [hms, htrace]) hl hb' hnext
    | finished ms hms hfinished hle hend => exact .finished ms (by rw [hms, htrace]) hfinished hle hend

end Frames

namespace Reader

variable {o : Options} {w : World} {s : Reader} {P : Peer → Prop}

lemma turn_peer (s : Reader) : (s.turn o w).2.peer = s.peer ∨ (∃ code, (s.turn o w).2.peer = s.peer.webSocketError w code) ∨
    ∃ f, s.peer.stopped = false ∧ s.peer.held = false ∧ (s.turn o w).2.peer = (s.peer.takeFrame o w f).2 := by
  cases hs : s.peer.stopped with
  | true => exact .inl (by rw [turn_stopped hs])
  | false =>
    cases hh : s.peer.held with
    | true => exact .inl (by rw [turn_held hh])
    | false =>
      rw [turn_running hs hh, processWebSocketFrame]
      dsimp only
      cases (parseClientFrame s.input o.maxWebSocketFrameBytes {}).1.kind with
      | needMore => exact .inl rfl
      | error => exact .inr (.inl ⟨_, rfl⟩)
      | complete => exact .inr (.inr ⟨_, rfl, rfl, rfl⟩)

lemma processInput_peer (herror : ∀ p code, P p → P (p.webSocketError w code))
    (hframe : ∀ p f, p.stopped = false → p.held = false → P p → P (p.takeFrame o w f).2) (h : P s.peer) :
    P (s.processInput o w).peer := by
  have hturn (s : Reader) (h : P s.peer) : P (s.turn o w).2.peer := by
    rcases turn_peer (o := o) (w := w) s with hsame | ⟨code, heq⟩ | ⟨f, hs, hh, heq⟩
    · rwa [hsame]
    · rw [heq]
      exact herror _ _ h
    · rw [heq]
      exact hframe _ _ hs hh h
  induction s using processInput_induction (o := o) (w := w) with
  | hwait s hlast => rwa [processInput_last hlast]
  | hlast s t hlast _ =>
    have := hturn s h
    rwa [hlast, ← processInput_last hlast] at this
  | hmore s t hmore ih =>
    have := hturn s h
    rw [hmore] at this
    rw [processInput_more hmore]
    exact ih this

lemma receive_peer (herror : ∀ p code, P p → P (p.webSocketError w code))
    (hframe : ∀ p f, p.stopped = false → p.held = false → P p → P (p.takeFrame o w f).2) (h : P s.peer) (bytes : Bytes) :
    P (s.onBytesReceived o w bytes).peer := by
  generalize hn : bytes.length = n
  induction n using Nat.strong_induction_on generalizing s bytes with
  | _ n ih =>
    by_cases hb : bytes = []
    · rwa [hb, receive_nil]
    have hpos := List.length_pos_iff.mpr hb
    cases hs : s.peer.stopped with
    | true => rwa [receive_stopped hs]
    | false =>
      by_cases hl : s.peer.limit o ≤ s.input.length
      · rw [receive_full hb hs hl]
        exact herror _ _ h
      · rw [receive_next hb hs (by omega)]
        exact ih _ (by rw [List.length_drop]; omega)
          (processInput_peer (s := s.feed _) herror hframe h) _ rfl

end Reader

namespace Peer

variable {o : Options} {w : World} {p q : Peer} {f : WebSocketFrame}

lemma takeFrame_closing (h : p.phase = .wsClosing) : p.Follows (p.takeFrame o w f).2 := by
  rw [takeFrame]
  split
  · exact follows_takeClose _
  split
  · exact follows_takePing _
  split
  · exact follows_takePong _
  · rw [takeData, if_pos h]
    exact .refl p

lemma running (hs : p.stopped = false) : p.Live ∨ p.phase = .wsClosing := by
  rw [stopped, Bool.or_eq_false_iff, decide_eq_false_iff_not] at hs
  cases hphase : p.phase with
  | webSocket => exact .inl ⟨hphase, hs.2⟩
  | wsClosing => exact .inr rfl
  | closed => exact absurd hphase hs.1

end Peer

end ServerCore.Web.WebSocketInput
