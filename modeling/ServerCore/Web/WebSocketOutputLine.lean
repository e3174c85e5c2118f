import ServerCore.Web.WebSocketOutput

/-! The frames that a server may send one after the other, and what is known of a message that is still being written. -/

namespace ServerCore.Web.WebSocketOutput

open ServerCore.Core Foundations
open WebSocketInput (Options Phase WebSocketMessage WebSocketMessageType reassemble)
open WebSocketInput.WebSocketMessage

/-- What a client knows of the frames so far: a message that is not whole yet, the close, the messages that are whole. -/
structure Line where
  opened : Option WebSocketMessage := none
  closed : Bool := false
  messages : List WebSocketMessage := []

def follow (o : Options) (line : Line) (f : WebSocketFrame) : Option Line :=
  if f.opcode = 8 then
    if line.closed || !f.final || f.payload.length > 125 then none else some { line with closed := true }
  else if f.opcode = 9 ∨ f.opcode = 10 then
    if f.final && f.payload.length ≤ 125 then some line else none
  else if 2 < f.opcode || line.closed || f.payload.length > o.maxWebSocketFrameBytes then none
  else
    match extend line.opened f with
    | none => none
    | some m =>
      if (f.opcode = 0 || !f.final) && m.bytes.length > o.maxWebSocketMessageBytes then none
      else if !f.final then some { line with opened := some m }
      else if m.WellFormed then some { line with opened := none, messages := line.messages ++ [m] }
      else none

def Accepted.add : Bytes × List WebSocketMessage → Accepted → Bytes × List WebSocketMessage
  | (carry, messages), .message type bytes => (carry, messages ++ [⟨type, bytes⟩])
  | (carry, messages), .part type bytes final =>
    if final then ([], messages ++ [⟨type, carry ++ bytes⟩]) else (carry ++ bytes, messages)

def delivered (accepted : List Accepted) : Bytes × List WebSocketMessage := accepted.foldl Accepted.add ([], [])

section Lines

variable {o : Options} {line line' : Line} {frames : List WebSocketFrame} {f : WebSocketFrame} {m : WebSocketMessage}

lemma follow_data (hopcode : f.opcode ≤ 2) (hclosed : line.closed = false) (hframe : f.payload.length ≤ o.maxWebSocketFrameBytes)
    (hextend : extend line.opened f = some m)
    (hmessage : f.opcode = 0 ∨ f.final = false → m.bytes.length ≤ o.maxWebSocketMessageBytes) (hwell : f.final = true → m.WellFormed) :
    follow o line f = some (if f.final then { line with opened := none, messages := line.messages ++ [m] }
      else { line with opened := some m }) := by
  have hcontrol : ¬ (f.opcode = 9 ∨ f.opcode = 10) := by omega
  have hdata : ¬ (2 < f.opcode || line.closed || f.payload.length > o.maxWebSocketFrameBytes) = true := by
    simp only [Bool.or_eq_true, decide_eq_true_eq, not_or, not_lt, gt_iff_lt]
    exact ⟨⟨hopcode, by simp [hclosed]⟩, hframe⟩
  have hfits : ¬ ((f.opcode = 0 || !f.final) && m.bytes.length > o.maxWebSocketMessageBytes) = true := by
    simp only [Bool.and_eq_true, Bool.or_eq_true, decide_eq_true_eq, Bool.not_eq_true', not_and, not_lt, gt_iff_lt]
    exact hmessage
  rw [follow, if_neg (by omega), if_neg hcontrol, if_neg hdata]
  simp only [hextend]
  rw [if_neg hfits]
  cases hfinal : f.final with
  | false => simp
  | true => simp [hwell hfinal]

lemma follow_control (hopcode : f.opcode = 9 ∨ f.opcode = 10) (hfinal : f.final = true) (hlength : f.payload.length ≤ 125) :
    follow o line f = some line := by
  rw [follow, if_neg (by omega), if_pos hopcode, if_pos (by simp [hfinal, hlength])]

lemma follow_close (hopcode : f.opcode = 8) (hclosed : line.closed = false) (hfinal : f.final = true)
    (hlength : f.payload.length ≤ 125) : follow o line f = some { line with closed := true } := by
  rw [follow, if_pos hopcode, if_neg (by simp [hclosed, hfinal, hlength])]

lemma follow_closed (hclosed : line.closed = true) (h : follow o line f = some line') :
    line' = line ∧ (f.opcode = 9 ∨ f.opcode = 10) := by
  rw [follow] at h
  by_cases hclose : f.opcode = 8
  · rw [if_pos hclose, if_pos (by simp [hclosed])] at h
    cases h
  rw [if_neg hclose] at h
  by_cases hcontrol : f.opcode = 9 ∨ f.opcode = 10
  · rw [if_pos hcontrol] at h
    split at h
    · exact ⟨(Option.some.inj h).symm, hcontrol⟩
    · cases h
  · rw [if_neg hcontrol, if_pos (by simp [hclosed])] at h
    cases h

lemma follows_closed (hclosed : line.closed = true) (h : frames.foldlM (follow o) line = some line') : line' = line := by
  induction frames with
  | nil => exact (Option.some.inj h).symm
  | cons f frames ih =>
    obtain ⟨next, hnext, h⟩ := Option.bind_eq_some_iff.mp h
    rw [(follow_closed hclosed hnext).1] at h
    exact ih h

lemma reassemble_follows (hclosed : line.closed = false) (h : frames.foldlM (follow o) line = some line') :
    line'.messages = line.messages ++
      reassemble (max o.maxWebSocketFrameBytes o.maxWebSocketMessageBytes) line.opened frames := by
  induction frames generalizing line with
  | nil =>
    obtain rfl := Option.some.inj h
    rw [reassemble, List.append_nil]
  | cons f frames ih =>
    obtain ⟨next, hnext, h⟩ := Option.bind_eq_some_iff.mp h
    rw [follow] at hnext
    rw [reassemble]
    by_cases hclose : f.opcode = 8
    · rw [if_pos hclose] at hnext
      split at hnext
      · cases hnext
      obtain rfl := Option.some.inj hnext
      rw [if_pos hclose, follows_closed rfl h, List.append_nil]
    rw [if_neg hclose] at hnext
    rw [if_neg hclose]
    by_cases hcontrol : f.opcode = 9 ∨ f.opcode = 10
    · rw [if_pos hcontrol] at hnext
      split at hnext
      · obtain rfl := Option.some.inj hnext
        rw [if_pos (by omega)]
        exact ih hclosed h
      · cases hnext
    rw [if_neg hcontrol] at hnext
    split at hnext
    · cases hnext
    rename_i hdata
    simp only [Bool.or_eq_true, decide_eq_true_eq, not_or, not_lt] at hdata
    rw [if_neg (by omega)]
    cases hextend : extend line.opened f with
    | none => simp [hextend] at hnext
    | some m =>
      simp only [hextend] at hnext ⊢
      split at hnext
      · cases hnext
      rename_i hfits
      have hlimit : ¬ max o.maxWebSocketFrameBytes o.maxWebSocketMessageBytes < m.bytes.length := by
        rw [not_lt]
        by_cases hsmall : f.opcode = 0 ∨ f.final = false
        · simp only [Bool.and_eq_true, Bool.or_eq_true, decide_eq_true_eq, Bool.not_eq_true', not_and, not_lt, gt_iff_lt] at hfits
          exact (hfits hsmall).trans (le_max_right _ _)
        · rw [not_or] at hsmall
          cases hopened : line.opened with
          | none =>
            rw [hopened, extend, if_neg hsmall.1] at hextend
            obtain rfl := Option.some.inj hextend
            exact hdata.2.trans (le_max_left _ _)
          | some m' => simp [hopened, extend, hsmall.1] at hextend
      rw [if_neg hlimit]
      cases hfinal : f.final with
      | false =>
        simp only [hfinal, Bool.not_false, ↓reduceIte] at hnext ⊢
        obtain rfl := Option.some.inj hnext
        exact @ih { line with opened := some m } hclosed h
      | true =>
        simp only [hfinal, Bool.not_true, Bool.false_eq_true, ↓reduceIte] at hnext
        split at hnext
        · rename_i hwell
          obtain rfl := Option.some.inj hnext
          have htail := @ih { line with opened := none, messages := line.messages ++ [m] } hclosed h
          rw [if_neg (by simp), if_pos hwell, htail]
          simp
        · cases hnext

end Lines

section Writing

variable {o : Options} {p : Sender} {line : Line} {type : WebSocketMessageType} {opened : Option WebSocketMessage} {x y : Bytes}
  {utf8 : Utf8FragmentState} {final : Bool}

def bytesOf (opened : Option WebSocketMessage) : Bytes := (opened.map (·.bytes)).getD []

def Carried (x : Bytes) (utf8 : Utf8FragmentState) : Prop := ∃ v q, x = v ++ q ∧ Utf8 v ∧ (q = [] ∨ Begun q) ∧ utf8 = ⟨q⟩

lemma Carried.append (h : Carried x utf8) (hy : (utf8.append y false).1 = true) : Carried (x ++ y) (utf8.append y false).2 := by
  obtain ⟨v, q, rfl, hv, hq, rfl⟩ := h
  obtain ⟨hiff, hsplit⟩ := Utf8FragmentState.append_false y hq
  obtain ⟨v', q', heq, hv', hq', hnext⟩ := hsplit (hiff.mp hy)
  exact ⟨v ++ v', q', by rw [List.append_assoc, heq, List.append_assoc], hv.append hv', hq', hnext⟩

lemma Carried.finish (h : Carried x utf8) (hy : (utf8.append y true).1 = true) : isValidUtf8 (x ++ y) = true := by
  obtain ⟨v, q, rfl, hv, hq, rfl⟩ := h
  rw [Utf8FragmentState.append_final hq, isValidUtf8_iff] at hy
  rw [isValidUtf8_iff, List.append_assoc]
  exact hv.append hy

structure Open (o : Options) (p : Sender) (type : WebSocketMessageType) (opened : Option WebSocketMessage) : Prop where
  opcode : p.outgoingOpcode = type.opcode
  started : p.outgoingStarted = opened.isSome
  same : ∀ m, opened = some m → m.type = type
  bytes : p.outgoingBytes = (bytesOf opened).length
  fits : p.outgoingBytes ≤ o.maxWebSocketMessageBytes
  text : type = .text → Carried (bytesOf opened) p.outgoingUtf8

def Holds (o : Options) (p : Sender) (opened : Option WebSocketMessage) : Prop :=
  (p.outgoingId = 0 ∧ opened = none) ∨ (p.outgoingId ≠ 0 ∧ ∃ type, Open o p type opened)

lemma opcode_le (type : WebSocketMessageType) : type.opcode ≤ 2 := by cases type <;> decide

lemma opcode_eq_one : type.opcode = 1 ↔ type = .text := by cases type <;> decide

lemma messageType_opcode : System.messageType type.opcode = type := by cases type <;> rfl

lemma Open.extend (h : Open o p type opened) :
    extend opened ⟨final, if p.outgoingStarted then 0 else p.outgoingOpcode, x⟩ = some ⟨type, bytesOf opened ++ x⟩ := by
  rw [h.started, h.opcode]
  cases hopened : opened with
  | none => cases type <;> rfl
  | some m =>
    rw [← h.same m hopened]
    rfl

lemma Open.write (h : Open o p type line.opened) (hclosed : line.closed = false) (hframe : x.length ≤ o.maxWebSocketFrameBytes)
    (hmessage : x.length ≤ sizeSub o.maxWebSocketMessageBytes p.outgoingBytes)
    (hvalid : type = .text → (p.outgoingUtf8.append x final).1 = true) :
    follow o line ⟨final, if p.outgoingStarted then 0 else p.outgoingOpcode, x⟩ =
      some (if final then { line with opened := none, messages := line.messages ++ [⟨type, bytesOf line.opened ++ x⟩] }
        else { line with opened := some ⟨type, bytesOf line.opened ++ x⟩ }) := by
  rw [sizeSub_eq h.fits] at hmessage
  refine follow_data ?_ hclosed hframe h.extend (fun _ => ?_) fun hfinal htype => ?_
  · show (if p.outgoingStarted then 0 else p.outgoingOpcode) ≤ 2
    rw [h.opcode]
    split
    · exact Nat.zero_le 2
    · exact opcode_le type
  · rw [List.length_append, ← h.bytes]
    have := h.fits
    omega
  · obtain rfl : final = true := hfinal
    exact (h.text htype).finish (hvalid htype)

lemma Open.grown (h : Open o p type opened) (hmessage : x.length ≤ sizeSub o.maxWebSocketMessageBytes p.outgoingBytes)
    (hvalid : type = .text → (p.outgoingUtf8.append x false).1 = true) {p' : Sender} (hopcode : p'.outgoingOpcode = p.outgoingOpcode)
    (hstarted : p'.outgoingStarted = true) (hbytes : p'.outgoingBytes = p.outgoingBytes + x.length)
    (hutf8 : type = .text → p'.outgoingUtf8 = (p.outgoingUtf8.append x false).2) :
    Open o p' type (some ⟨type, bytesOf opened ++ x⟩) := by
  rw [sizeSub_eq h.fits] at hmessage
  refine ⟨hopcode.trans h.opcode, hstarted, fun m hm => ?_, ?_, ?_, fun htype => ?_⟩
  · rw [← Option.some.inj hm]
  · rw [hbytes, h.bytes]
    exact List.length_append.symm
  · have := h.fits
    omega
  · rw [hutf8 htype]
    exact (h.text htype).append (hvalid htype)

end Writing

end ServerCore.Web.WebSocketOutput
