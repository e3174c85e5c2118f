import ServerCore.Web.WebSocketInput

/-! The pieces that the bytes of a WebSocket arrive in make no difference. -/

namespace ServerCore.Web.WebSocketInput

open ServerCore.Core WebSocketFrame

section Lengths

variable {input : Bytes} {maxPayload : ℕ} {frame : WebSocketFrame}

lemma consumed_pos (h : (parseClientFrame input maxPayload frame).1.kind = .complete) :
    0 < (parseClientFrame input maxPayload frame).1.consumed := by
  have htake (first : ℕ) (header : Header) (h : (takePayload input maxPayload frame first header).1.kind = .complete) :
      0 < (takePayload input maxPayload frame first header).1.consumed := by
    cases header with
    | needMore => cases h
    | error => cases h
    | header length size =>
      rw [takePayload] at h ⊢
      split_ifs at h ⊢
      dsimp only
      omega
  rw [parseClientFrame] at h ⊢
  dsimp only at h ⊢
  split_ifs at h ⊢
  exact htake _ _ h

end Lengths

namespace Peer

variable {o : Options} {w : World} {p : Peer}

@[simp] lemma call_ignoreInput (c : Call) : (p.call w c).2.ignoreInput = p.ignoreInput := by
  rw [call]
  dsimp only
  split <;> rfl

@[simp] lemma orClose_ignoreInput (r : ErrorCode × Peer) : (orClose w r).ignoreInput = r.2.ignoreInput := by
  rw [orClose]
  split
  · rfl
  · exact call_ignoreInput _

@[simp] lemma resumeHeld_ignoreInput : (p.resumeHeld w).ignoreInput = p.ignoreInput := by
  rw [resumeHeld]
  split
  · exact call_ignoreInput _
  · rfl

@[simp] lemma sendClose_ignoreInput (own : Bool) (payload : Bytes) : (p.sendClose w own payload).ignoreInput = p.ignoreInput := by
  rw [sendClose]
  split
  · rfl
  · rw [orClose_ignoreInput, call_ignoreInput, resumeHeld_ignoreInput]
    rfl

@[simp] lemma close_ignoreInput (own : Bool) (code : ℕ) (reason : Bytes) :
    (p.close w own code reason).ignoreInput = p.ignoreInput := by
  rw [close]
  split_ifs
  · rfl
  · rfl
  · rfl
  · rfl
  · exact sendClose_ignoreInput own _

lemma webSocketError_ignoreInput (code : ℕ) : (p.webSocketError w code).ignoreInput = true := by
  rw [webSocketError, call_ignoreInput, close_ignoreInput]
  rfl

lemma act_ignoreInput (a : Action) : (p.act w a).ignoreInput = p.ignoreInput := by
  cases a with
  | close code reason => exact close_ignoreInput true code reason
  | call c => exact call_ignoreInput c
  | pauseReceive =>
    rw [act, pauseReceive]
    dsimp only
    split_ifs
    · rfl
    · exact resumeHeld_ignoreInput.trans (call_ignoreInput _)
    · exact call_ignoreInput _
  | resumeReceive =>
    rw [act, resumeReceive]
    split
    · rfl
    · exact call_ignoreInput _

lemma acceptClose_ignoreInput (code : ℕ) (reason payload : Bytes) : (p.acceptClose w code reason payload).ignoreInput = true := by
  rw [acceptClose]
  dsimp only
  rw [call_ignoreInput, sendClose_ignoreInput]

lemma takeClose_ignoreInput (payload : Bytes) : (p.takeClose w payload).ignoreInput = true := by
  rw [takeClose]
  split
  · exact webSocketError_ignoreInput _
  split
  · dsimp only
    split_ifs
    · exact webSocketError_ignoreInput _
    · exact webSocketError_ignoreInput _
    · exact acceptClose_ignoreInput _ _ _
    · exact acceptClose_ignoreInput _ _ _
  · exact acceptClose_ignoreInput _ _ _

lemma deliver_last {type : WebSocketMessageType} (h : (p.deliver w type).1 = false) :
    (p.deliver w type).2.ignoreInput = true := by
  simp only [deliver] at h ⊢
  split at h
  · next hthrows =>
    rw [if_pos hthrows]
    exact webSocketError_ignoreInput _
  · cases h

lemma finishMessage_last (h : (p.finishMessage w).1 = false) : (p.finishMessage w).2.ignoreInput = true := by
  by_cases hinvalid : p.fragmentOpcode = 1 ∧ isValidUtf8 p.message = false
  · rw [finishMessage, if_pos hinvalid]
    exact webSocketError_ignoreInput _
  · rw [finishMessage, if_neg hinvalid] at h ⊢
    exact deliver_last h

lemma takeFrame_last {frame : WebSocketFrame} (h : (p.takeFrame o w frame).1 = false) :
    (p.takeFrame o w frame).2.ignoreInput = true := by
  have hcollect (q : Peer) (h : (q.collect o w frame).1 = false) : (q.collect o w frame).2.ignoreInput = true := by
    rw [collect] at h ⊢
    split_ifs at h ⊢
    · exact webSocketError_ignoreInput _
    · exact finishMessage_last h
  rw [takeFrame] at h ⊢
  split_ifs at h ⊢
  · exact takeClose_ignoreInput _
  · rw [takeData] at h ⊢
    split_ifs at h ⊢
    · exact webSocketError_ignoreInput _
    · exact hcollect _ h

end Peer

namespace Reader

variable {o : Options} {w : World} {s t : Reader}

def feed (s : Reader) (x : Bytes) : Reader := ⟨s.peer, s.input ++ x⟩

@[simp] lemma feed_peer (x : Bytes) : (s.feed x).peer = s.peer := rfl
@[simp] lemma feed_input (x : Bytes) : (s.feed x).input = s.input ++ x := rfl

lemma feed_nil : s.feed [] = s := by rw [feed, List.append_nil]

lemma feed_feed (x y : Bytes) : (s.feed x).feed y = s.feed (x ++ y) := by
  rw [feed, feed, feed, List.append_assoc]

section Turns

lemma turn_stopped (h : s.peer.stopped = true) : s.turn o w = (false, s) := if_pos h

lemma turn_held (h : s.peer.held = true) : s.turn o w = (false, s) := by
  rw [turn, if_pos h, ite_self]

lemma turn_running (hs : s.peer.stopped = false) (hh : s.peer.held = false) : s.turn o w = s.processWebSocketFrame o w := by
  rw [turn, if_neg (by rw [hs]; decide), if_neg (by rw [hh]; decide)]

lemma processWebSocketFrame_cases (s : Reader) :
    s.processWebSocketFrame o w = (false, s) ∨ ∃ more peer n, n ≤ s.input.length ∧ (more = true → 0 < n) ∧ (more = false → peer.ignoreInput = true) ∧
      ∀ x, (s.feed x).processWebSocketFrame o w = (more, ⟨peer, (s.input ++ x).drop n⟩) := by
  cases hkind : (parseClientFrame s.input o.maxWebSocketFrameBytes {}).1.kind with
  | needMore =>
    apply Or.inl
    rw [processWebSocketFrame]
    dsimp only
    rw [hkind]
  | error =>
    refine .inr ⟨false, s.peer.webSocketError w (parseClientFrame s.input o.maxWebSocketFrameBytes {}).1.closeCode, 0,
      Nat.zero_le _, nofun, fun _ => Peer.webSocketError_ignoreInput _, fun x => ?_⟩
    rw [processWebSocketFrame, feed_input, parseClientFrame_append (by rw [hkind]; decide)]
    dsimp only
    rw [hkind, feed_peer, List.drop_zero]
  | complete =>
    refine .inr ⟨_, _, (parseClientFrame s.input o.maxWebSocketFrameBytes {}).1.consumed, consumed_le hkind,
      fun _ => consumed_pos hkind, @Peer.takeFrame_last o w s.peer (parseClientFrame s.input o.maxWebSocketFrameBytes {}).2,
      fun x => ?_⟩
    rw [processWebSocketFrame, feed_input, parseClientFrame_append (by rw [hkind]; decide)]
    dsimp only
    rw [hkind, feed_peer]

lemma turn_cases (s : Reader) : s.turn o w = (false, s) ∨
    ∃ more peer n, n ≤ s.input.length ∧ (more = true → 0 < n) ∧ (more = false → peer.stopped = true) ∧
      ∀ x, (s.feed x).turn o w = (more, ⟨peer, (s.input ++ x).drop n⟩) := by
  by_cases hs : s.peer.stopped = true
  · exact .inl (turn_stopped hs)
  by_cases hh : s.peer.held = true
  · exact .inl (turn_held hh)
  rw [Bool.not_eq_true] at hs hh
  rcases processWebSocketFrame_cases (o := o) (w := w) s with hwait | ⟨more, peer, n, hle, hpos, hlast, hturn⟩
  · exact .inl (by rw [turn_running hs hh, hwait])
  · refine .inr ⟨more, peer, n, hle, hpos, fun hmore => ?_, fun x => ?_⟩
    · rw [Peer.stopped, hlast hmore, Bool.or_true]
    · exact (turn_running (s := s.feed x) hs hh).trans (hturn x)

lemma turn_shorter (h : s.turn o w = (true, t)) : t.input.length < s.input.length := by
  rcases turn_cases (o := o) (w := w) s with hwait | ⟨more, peer, n, hle, hpos, -, hturn⟩
  · rw [hwait] at h
    cases h
  · have hsame := hturn []
    rw [feed_nil, h, List.append_nil, Prod.mk.injEq] at hsame
    obtain ⟨hmore, rfl⟩ := hsame
    have := hpos hmore.symm
    rw [List.length_drop]
    omega

lemma processLoop_enough {turns turns' : ℕ} (h : s.input.length < turns) (h' : s.input.length < turns') :
    s.processLoop o w turns = s.processLoop o w turns' := by
  induction turns generalizing s turns' with
  | zero => cases h
  | succ turns ih =>
    cases turns' with
    | zero => cases h'
    | succ turns' =>
      rw [processLoop, processLoop]
      cases hturn : s.turn o w with
      | mk more t =>
        cases more with
        | false => rfl
        | true =>
          have := turn_shorter hturn
          exact ih (by omega) (by omega)

lemma processInput_last (h : s.turn o w = (false, t)) : s.processInput o w = t := by
  rw [processInput, processLoop, h]

lemma processInput_more (h : s.turn o w = (true, t)) : s.processInput o w = t.processInput o w := by
  rw [processInput, processLoop, h]
  exact processLoop_enough (turn_shorter h) (Nat.lt_succ_self _)

lemma processInput_induction {P : Reader → Prop} (s : Reader) (hwait : ∀ s, s.turn o w = (false, s) → P s)
    (hlast : ∀ s t, s.turn o w = (false, t) → t.peer.stopped = true → P s)
    (hmore : ∀ s t, s.turn o w = (true, t) → P t → P s) : P s := by
  generalize hn : s.input.length = n
  induction n using Nat.strong_induction_on generalizing s with
  | _ n ih =>
    cases hturn : s.turn o w with
    | mk more t =>
      cases more with
      | true => exact hmore s t hturn (ih _ (by have := turn_shorter hturn; omega) t rfl)
      | false =>
        rcases turn_cases (o := o) (w := w) s with hsame | ⟨more, peer, n, -, -, hstop, hall⟩
        · exact hwait s hsame
        · have := hall []
          rw [feed_nil, hturn, Prod.mk.injEq] at this
          refine hlast s t hturn ?_
          rw [this.2]
          exact hstop this.1.symm

lemma turn_feed (h : s.turn o w = (true, t)) (x : Bytes) : (s.feed x).turn o w = (true, t.feed x) := by
  rcases turn_cases (o := o) (w := w) s with hwait | ⟨more, peer, n, hle, -, -, hturn⟩
  · rw [hwait] at h
    cases h
  · have hsame := hturn []
    rw [feed_nil, h, List.append_nil, Prod.mk.injEq] at hsame
    obtain ⟨rfl, rfl⟩ := hsame
    rw [hturn, List.drop_append_of_le_length hle]
    rfl

lemma turn_feed_last (h : s.turn o w = (false, t)) (hne : s.turn o w ≠ (false, s)) (x : Bytes) :
    (s.feed x).turn o w = (false, t.feed x) := by
  rcases turn_cases (o := o) (w := w) s with hwait | ⟨more, peer, n, hle, -, -, hturn⟩
  · exact absurd hwait hne
  · have hsame := hturn []
    rw [feed_nil, h, List.append_nil, Prod.mk.injEq] at hsame
    obtain ⟨rfl, rfl⟩ := hsame
    rw [hturn, List.drop_append_of_le_length hle]
    rfl

lemma processInput_rests (s : Reader) : (s.processInput o w).turn o w = (false, s.processInput o w) := by
  induction s using processInput_induction (o := o) (w := w) with
  | hwait s h => rw [processInput_last h, h]
  | hlast s t h hstop => rw [processInput_last h, turn_stopped hstop]
  | hmore s t h ih => rw [processInput_more h, ih]

lemma processInput_shorter (s : Reader) : (s.processInput o w).input.length ≤ s.input.length := by
  induction s using processInput_induction (o := o) (w := w) with
  | hwait s h => rw [processInput_last h]
  | hlast s t h _ =>
    rw [processInput_last h]
    rcases turn_cases (o := o) (w := w) s with hwait | ⟨more, peer, n, hle, -, -, hturn⟩
    · rw [hwait, Prod.mk.injEq] at h
      rw [h.2]
    · have hsame := hturn []
      rw [feed_nil, h, List.append_nil, Prod.mk.injEq] at hsame
      rw [hsame.2, List.length_drop]
      omega
  | hmore s t h ih =>
    rw [processInput_more h]
    have := turn_shorter h
    omega

lemma limit_le (s : Reader) : s.peer.limit o ≤ (s.processInput o w).peer.limit o := by
  cases hh : s.peer.held with
  | true => rw [processInput_last (turn_held hh)]
  | false =>
    rw [Peer.limit, Peer.limit, hh]
    exact Nat.le_add_right _ _

lemma processInput_feed (s : Reader) (x : Bytes) :
    ((s.processInput o w).feed x).processInput o w = (s.feed x).processInput o w := by
  induction s using processInput_induction (o := o) (w := w) with
  | hwait s h => rw [processInput_last h]
  | hlast s t h hstop =>
    rw [processInput_last h]
    by_cases hsame : s.turn o w = (false, s)
    · rw [hsame, Prod.mk.injEq] at h
      rw [h.2]
    · rw [processInput_last (turn_feed_last h hsame x), processInput_last (turn_stopped (s := t.feed x) hstop)]
  | hmore s t h ih => rw [processInput_more h, ih, processInput_more (turn_feed h x)]

end Turns

section Receive

lemma receiveLoop_enough {turns turns' : ℕ} {bytes : Bytes} (h : bytes.length < turns) (h' : bytes.length < turns') :
    s.receiveLoop o w turns bytes = s.receiveLoop o w turns' bytes := by
  induction turns generalizing s bytes turns' with
  | zero => cases h
  | succ turns ih =>
    cases turns' with
    | zero => cases h'
    | succ turns' =>
      rw [receiveLoop, receiveLoop]
      split_ifs with hb hs hl
      · rfl
      · rfl
      · rfl
      · have hpos := List.length_pos_iff.mpr hb
        apply ih
        · rw [List.length_drop]
          omega
        · rw [List.length_drop]
          omega

lemma receive_nil : s.onBytesReceived o w [] = s := rfl

lemma receive_stopped {bytes : Bytes} (h : s.peer.stopped = true) : s.onBytesReceived o w bytes = s := by
  by_cases hb : bytes = []
  · rw [hb, receive_nil]
  · rw [onBytesReceived, receiveLoop, if_neg hb, if_pos h]

lemma receive_full {bytes : Bytes} (hb : bytes ≠ []) (hs : s.peer.stopped = false) (hl : s.peer.limit o ≤ s.input.length) :
    s.onBytesReceived o w bytes = ⟨s.peer.webSocketError w 1009, s.input⟩ := by
  rw [onBytesReceived, receiveLoop, if_neg hb, if_neg (by rw [hs]; decide), if_pos hl]

lemma receive_next {bytes : Bytes} (hb : bytes ≠ []) (hs : s.peer.stopped = false) (hl : s.input.length < s.peer.limit o) :
    s.onBytesReceived o w bytes =
      ((s.feed (bytes.take (s.peer.limit o - s.input.length))).processInput o w).onBytesReceived o w
        (bytes.drop (s.peer.limit o - s.input.length)) := by
  have htake : bytes.take (min bytes.length (s.peer.limit o - s.input.length)) =
      bytes.take (s.peer.limit o - s.input.length) := by
    rw [Nat.min_comm, ← List.take_eq_take_min]
  have hdrop : bytes.drop (min bytes.length (s.peer.limit o - s.input.length)) =
      bytes.drop (s.peer.limit o - s.input.length) := by
    rw [Nat.min_comm, ← List.drop_eq_drop_min]
  have hpos := List.length_pos_iff.mpr hb
  rw [onBytesReceived, receiveLoop, if_neg hb, if_neg (by rw [hs]; decide), if_neg (by omega)]
  dsimp only
  rw [htake, hdrop]
  apply receiveLoop_enough
  · rw [List.length_drop]
    omega
  · exact Nat.lt_succ_self _

lemma receive_fits {bytes : Bytes} (hb : bytes ≠ []) (hs : s.peer.stopped = false)
    (hl : s.input.length + bytes.length ≤ s.peer.limit o) : s.onBytesReceived o w bytes = (s.feed bytes).processInput o w := by
  have hpos := List.length_pos_iff.mpr hb
  rw [receive_next hb hs (by omega), List.take_of_length_le (by omega), List.drop_of_length_le (by omega), receive_nil]

end Receive

def Same (s t : Reader) : Prop := s.peer = t.peer ∧ (s.peer.stopped = false → s.input = t.input)

lemma Same.refl (s : Reader) : s.Same s := ⟨rfl, fun _ => rfl⟩

lemma Same.symm (h : s.Same t) : t.Same s := ⟨h.1.symm, fun hs => (h.2 (by rwa [h.1])).symm⟩

lemma Same.trans {u : Reader} (h : s.Same t) (h' : t.Same u) : s.Same u :=
  ⟨h.1.trans h'.1, fun hs => (h.2 hs).trans (h'.2 (by rwa [← h.1]))⟩

lemma Same.receive (h : s.Same t) (bytes : Bytes) : (s.onBytesReceived o w bytes).Same (t.onBytesReceived o w bytes) := by
  cases hs : s.peer.stopped with
  | false =>
    obtain rfl : s = t := by
      cases s
      cases t
      exact congrArg₂ Reader.mk h.1 (h.2 hs)
    exact .refl _
  | true =>
    rw [receive_stopped hs, receive_stopped (by rwa [← h.1])]
    exact h

lemma receive_append (s : Reader) (x y : Bytes) :
    (s.onBytesReceived o w (x ++ y)).Same ((s.onBytesReceived o w x).onBytesReceived o w y) := by
  generalize hn : x.length + y.length = n
  induction n using Nat.strong_induction_on generalizing s x y with
  | _ n ih =>
    by_cases hx : x = []
    · rw [hx, receive_nil, List.nil_append]
      exact .refl _
    by_cases hy : y = []
    · rw [hy, receive_nil, List.append_nil]
      exact .refl _
    have hxy : x ++ y ≠ [] := by simp [hx]
    have hpos := List.length_pos_iff.mpr hx
    cases hs : s.peer.stopped with
    | true =>
      rw [receive_stopped hs, receive_stopped hs, receive_stopped hs]
      exact .refl _
    | false =>
      by_cases hl : s.peer.limit o ≤ s.input.length
      · rw [receive_full hxy hs hl, receive_full hx hs hl, receive_stopped]
        · exact .refl _
        · rw [Peer.stopped, Peer.webSocketError_ignoreInput, Bool.or_true]
      generalize hk : s.peer.limit o - s.input.length = k
      by_cases hlong : k ≤ x.length
      · -- the first turn of the loop is the same
        have hdrop := List.length_drop (i := k) (l := x)
        have hsame := ih _ (by omega) ((s.feed (x.take k)).processInput o w) (x.drop k) y rfl
        rw [receive_next hxy hs (by omega), receive_next hx hs (by omega), hk, List.take_append_of_le_length hlong,
          List.drop_append_of_le_length hlong]
        exact hsame
      · -- all of `x` and the first bytes of `y` make the first turn
        rw [receive_fits hx hs (by omega), receive_next hxy hs (by omega), hk, List.take_append, List.drop_append,
          List.take_of_length_le (by omega), List.drop_of_length_le (by omega), List.nil_append, ← feed_feed,
          ← processInput_feed (s.feed x)]
        have hshort := (s.feed x).processInput_shorter (o := o) (w := w)
        have hlimit := (s.feed x).limit_le (o := o) (w := w)
        rw [feed_peer] at hlimit
        rw [feed_input, List.length_append] at hshort
        generalize (s.feed x).processInput o w = t at hshort hlimit ⊢
        cases ht : t.peer.stopped with
        | true =>
          rw [processInput_last (turn_stopped (s := t.feed _) ht), receive_stopped (s := t.feed _) ht, receive_stopped ht]
          exact ⟨rfl, fun h => by rw [feed_peer, ht] at h; cases h⟩
        | false =>
          have htake := List.length_take_le (k - x.length) y
          have hne : y.take (k - x.length) ≠ [] := by
            rw [ne_eq, List.take_eq_nil_iff]
            rintro (h | h)
            · omega
            · exact hy h
          have hsum : (y.take (k - x.length)).length + (y.drop (k - x.length)).length = y.length := by
            rw [← List.length_append, List.take_append_drop]
          have hcut := ih _ (by omega) t (y.take (k - x.length)) (y.drop (k - x.length)) rfl
          rw [List.take_append_drop, receive_fits hne ht (by omega)] at hcut
          exact hcut.symm

lemma receive_pieces (s : Reader) (pieces : List Bytes) :
    (run o w s (pieces.map .receive)).Same (s.onBytesReceived o w pieces.flatten) := by
  induction pieces generalizing s with
  | nil => exact .refl _
  | cons piece pieces ih =>
    rw [List.flatten_cons]
    exact (ih (s.onBytesReceived o w piece)).trans (receive_append s piece pieces.flatten).symm

end Reader

namespace Peer

variable {o : Options} {w : World} {p : Peer}

section Closed

lemma call_closed (c : Call) (h : p.phase = .closed) : (p.call w c).2.phase = .closed := by
  rw [call]
  dsimp only
  split
  · rfl
  · exact h

lemma close_closed (own : Bool) (code : ℕ) (reason : Bytes) (h : p.phase = .closed) : p.close w own code reason = p := by
  rw [close, if_pos h]

lemma act_closed (a : Action) (h : p.phase = .closed) : (p.act w a).phase = .closed := by
  have hopen : p.isOpen w = false := by
    rw [isOpen, h]
    rfl
  cases a with
  | close code reason => rwa [act, close_closed _ _ _ h]
  | call c => exact call_closed c h
  | pauseReceive => rwa [act, pauseReceive, hopen]
  | resumeReceive => rwa [act, resumeReceive, hopen]

end Closed

lemma stopped_eq_true : p.stopped = true ↔ p.phase = .closed ∨ p.ignoreInput = true := by
  rw [stopped, Bool.or_eq_true, decide_eq_true_iff]

lemma act_stopped (a : Action) (h : p.stopped = true) : (p.act w a).stopped = true := by
  rw [stopped_eq_true] at h ⊢
  rcases h with h | h
  · exact .inl (act_closed a h)
  · exact .inr ((act_ignoreInput a).trans h)

lemma sendControl_ignoreInput (opcode : ℕ) (payload : Bytes) (closing : Bool) :
    (p.sendControl w opcode payload closing).2.ignoreInput = p.ignoreInput := by
  rw [sendControl]
  split_ifs
  · rfl
  · rfl
  · exact call_ignoreInput _

lemma checkHeartbeat_ignoreInput (payload : Bytes) : (p.checkHeartbeat w payload).ignoreInput = p.ignoreInput := by
  rw [checkHeartbeat]
  split
  · rfl
  split
  · exact close_ignoreInput _ _ _
  · dsimp only
    split
    · exact sendControl_ignoreInput _ _ _
    split
    · exact (call_ignoreInput _).trans (sendControl_ignoreInput _ _ _)
    · exact sendControl_ignoreInput _ _ _

end Peer

open Reader

variable {o : Options} {w : World} {s t : Reader}

lemma step_same (h : s.Same t) (input : Input) : (step o w s input).Same (step o w t input) := by
  have hpeer (f : Peer → Peer) (hf : s.peer.stopped = true → (f s.peer).stopped = true) :
      (⟨f s.peer, s.input⟩ : Reader).Same ⟨f t.peer, t.input⟩ := by
    refine ⟨congrArg f h.1, fun hs => h.2 ?_⟩
    by_contra hstop
    rw [Bool.not_eq_false] at hstop
    rw [hf hstop] at hs
    cases hs
  cases input with
  | receive bytes => exact h.receive bytes
  | progress =>
    cases hs : s.peer.stopped with
    | true =>
      rw [step, step, processInput_last (turn_stopped hs), processInput_last (turn_stopped (by rwa [← h.1]))]
      exact h
    | false =>
      obtain rfl : s = t := by
        cases s
        cases t
        exact congrArg₂ Reader.mk h.1 (h.2 hs)
      exact .refl _
  | act action => exact hpeer (·.act w action) (Peer.act_stopped action)
  | heartbeat payload =>
    rw [step, step, ← h.1]
    split
    · next hphase =>
      refine ⟨rfl, fun hs => h.2 ?_⟩
      rw [Peer.stopped, Peer.checkHeartbeat_ignoreInput] at hs
      rw [Peer.stopped, hphase]
      exact (Bool.or_eq_false_iff.mp hs).2
    · exact h
  | disconnected => exact hpeer Peer.disconnect fun _ => rfl

lemma run_same (h : s.Same t) (inputs : List Input) : (run o w s inputs).Same (run o w t inputs) := by
  induction inputs generalizing s t with
  | nil => exact h
  | cons input inputs ih => exact ih (step_same h input)

lemma run_cut {pieces pieces' : List Bytes} (h : pieces.flatten = pieces'.flatten) (s : Reader) (front back : List Input) :
    (run o w s (front ++ pieces.map .receive ++ back)).Same (run o w s (front ++ pieces'.map .receive ++ back)) := by
  rw [run, run, List.foldl_append, List.foldl_append, List.foldl_append, List.foldl_append]
  refine run_same ?_ back
  have hpieces := receive_pieces (o := o) (w := w) (run o w s front) pieces
  have hpieces' := receive_pieces (o := o) (w := w) (run o w s front) pieces'
  rw [h] at hpieces
  exact hpieces.trans hpieces'.symm

end ServerCore.Web.WebSocketInput
