import ServerCore.Web.WebSocketOutputLine

/-! In every run the frames that a peer has queued are those of a legal server, and carry the messages it has accepted. -/

namespace ServerCore.Web.WebSocketOutput

open ServerCore.Core Foundations
open WebSocketInput (Options Phase WebSocketMessage WebSocketMessageType reassemble)
open WebSocketInput.WebSocketMessage

def Pending.write? : Pending → Option Write
  | .writeMessage w => some w
  | _ => none

def Pending.isClosing : Pending → Bool
  | .closing _ => true
  | _ => false

/-- Before a close at most one call is in `Send` with a part of a message, and its writer keeps the message that is open. -/
def Settled (o : Options) (s : System) (opened : Option WebSocketMessage) : Prop :=
  (s.pending.filterMap Pending.write? = [] ∧ s.sender.outgoingWriting = false ∧ Holds o s.sender opened) ∨
  ∃ w, s.pending.filterMap Pending.write? = [w] ∧ s.sender.outgoingWriting = true ∧ w.id = s.sender.outgoingId ∧ w.id ≠ 0 ∧
    Holds o (w.commit s.sender) opened

/-- `line` is what a client knows that has read all of the frames. -/
structure Inv (o : Options) (s : System) (line : Line) : Prop where
  wire : s.wire = s.frames.flatMap fun f => WebSocketFrame.encodeServerFrame f.opcode f.payload f.final
  follows : s.frames.foldlM (follow o) {} = some line
  delivered : delivered s.accepted = (bytesOf line.opened, line.messages)
  closes : s.pending.countP Pending.isClosing + line.closed.toNat ≤ if s.sender.phase = .webSocket then 0 else 1
  small : ∀ payload, .closing payload ∈ s.pending → payload.length ≤ 125
  settled : s.ready = true → Settled o s line.opened

section Steps

variable {o : Options} {s s' : System} {line line' : Line} {f : WebSocketFrame} {accepted : List Accepted} {code : ErrorCode}

lemma delivered_append (x y : List Accepted) : WebSocketOutput.delivered (x ++ y) = y.foldl Accepted.add (WebSocketOutput.delivered x) := List.foldl_append

lemma ready_iff : s.ready = true ↔ s.sender.phase = .webSocket ∧ s.sender.isOpen = true := by
  rw [System.ready, Bool.and_eq_true, decide_eq_true_eq]

lemma Inv.unclosed (h : Inv o s line) (hphase : s.sender.phase = .webSocket) : line.closed = false := by
  have hcloses := h.closes
  rw [if_pos hphase] at hcloses
  cases hclosed : line.closed with
  | false => rfl
  | true =>
    rw [hclosed, Bool.toNat_true] at hcloses
    omega

lemma Inv.quiet (h : Inv o s line) (hwire : s'.wire = s.wire ∧ s'.frames = s.frames ∧ s'.accepted = s.accepted)
    (hcloses : s'.pending.countP Pending.isClosing + line.closed.toNat ≤ if s'.sender.phase = .webSocket then 0 else 1)
    (hsmall : ∀ payload, .closing payload ∈ s'.pending → payload.length ≤ 125) (hsettled : s'.ready = true → Settled o s' line.opened) :
    Inv o s' line := by
  obtain ⟨hw, hf, ha⟩ := hwire
  exact ⟨by rw [hw, hf, h.wire], by rw [hf, h.follows], by rw [ha, h.delivered], hcloses, hsmall, hsettled⟩

lemma Inv.queue (h : Inv o s line) (hfollow : follow o line f = some line')
    (hwire : s'.wire = s.wire ++ WebSocketFrame.encodeServerFrame f.opcode f.payload f.final ∧ s'.frames = s.frames ++ [f] ∧
      s'.accepted = s.accepted ++ accepted)
    (hdelivered : accepted.foldl Accepted.add (bytesOf line.opened, line.messages) = (bytesOf line'.opened, line'.messages))
    (hcloses : s'.pending.countP Pending.isClosing + line'.closed.toNat ≤ if s'.sender.phase = .webSocket then 0 else 1)
    (hsmall : ∀ payload, .closing payload ∈ s'.pending → payload.length ≤ 125) (hsettled : s'.ready = true → Settled o s' line'.opened) :
    Inv o s' line' := by
  obtain ⟨hw, hf, ha⟩ := hwire
  refine ⟨?_, ?_, ?_, hcloses, hsmall, hsettled⟩
  · rw [hw, hf, List.flatMap_append, List.flatMap_singleton, h.wire]
  · rw [hf, List.foldlM_append, h.follows]
    simpa using hfollow
  · rw [ha, delivered_append, h.delivered, hdelivered]

lemma Settled.congr {opened : Option WebSocketMessage} (h : Settled o s opened)
    (hwrites : s'.pending.filterMap Pending.write? = s.pending.filterMap Pending.write?) (hsender : s'.sender = s.sender) :
    Settled o s' opened := by
  rw [Settled, hwrites, hsender]
  exact h

lemma Inv.closes_cons (h : Inv o s line) {call : Pending} (hclosing : call.isClosing = false) :
    (call :: s.pending).countP Pending.isClosing + line.closed.toNat ≤ if s.sender.phase = .webSocket then 0 else 1 := by
  rw [List.countP_cons_of_neg (by simp [hclosing])]
  exact h.closes

lemma Inv.small_cons (h : Inv o s line) {call : Pending} (hclosing : call.isClosing = false) :
    ∀ payload, .closing payload ∈ call :: s.pending → payload.length ≤ 125 := by
  intro payload hm
  rcases List.mem_cons.mp hm with rfl | hm
  · cases hclosing
  · exact h.small payload hm

lemma Inv.push (h : Inv o s line) {call : Pending} (hwrite : call.write? = none) (hclosing : call.isClosing = false) :
    Inv o (s.push call) line :=
  h.quiet ⟨rfl, rfl, rfl⟩ (h.closes_cons hclosing) (h.small_cons hclosing)
    fun hready => (h.settled hready).congr (List.filterMap_cons_none hwrite) rfl

lemma send_cases {opcode : ℕ} {payload : Bytes} {final : Bool} (hs : s.send opcode payload final code accepted = some s') :
    (code ≠ .ok ∧ s' = s) ∨ (code = .ok ∧ s.sender.isOpen = true ∧ s' = { s with
      wire := s.wire ++ WebSocketFrame.encodeServerFrame opcode payload final
      frames := s.frames ++ [⟨final, opcode, payload⟩]
      accepted := s.accepted ++ accepted }) := by
  rw [System.send] at hs
  by_cases hcode : code = .ok
  · rw [if_pos hcode] at hs
    obtain ⟨hopen, hs⟩ := Option.ite_none_right_eq_some.mp hs
    exact .inr ⟨hcode, hopen, (Option.some.inj hs).symm⟩
  · rw [if_neg hcode] at hs
    exact .inl ⟨hcode, (Option.some.inj hs).symm⟩

lemma Write.commit_failed {w : Write} {p : Sender} (h : w.queued = false) : w.commit p = { p with outgoingWriting := false } := by
  rw [Write.commit, if_neg (by simp [h])]

lemma Write.commit_queued {w : Write} {p : Sender} (h : w.queued = true) (hid : p.outgoingId = w.id) : w.commit p = { p with
    outgoingWriting := false
    outgoingBytes := p.outgoingBytes + w.bytes.length
    outgoingUtf8 := w.utf8
    outgoingStarted := true
    outgoingId := if w.final then 0 else p.outgoingId } := by
  rw [Write.commit, if_pos (by simp [h, hid])]

lemma nextId_ne_zero (id : ℕ) : nextId id ≠ 0 := by
  rw [nextId]
  split
  · exact Nat.one_ne_zero
  · assumption

lemma Inv.opened_none (h : Inv o s line) (hready : s.ready = true) (hid : s.sender.outgoingId = 0) : line.opened = none := by
  obtain ⟨-, -, ⟨-, hopened⟩ | ⟨hne, -⟩⟩ | ⟨w, -, -, hw, hne, -⟩ := h.settled hready
  · exact hopened
  · exact absurd hid hne
  · exact absurd (hw.trans hid) hne

lemma Inv.sendFrame (h : Inv o s line) {opcode : ℕ} {payload : Bytes} {closingControl : Bool}
    (hkind : (∃ type : WebSocketMessageType, opcode = type.opcode ∧ closingControl = false ∧ accepted = [.message type payload]) ∨
      ((opcode = 9 ∨ opcode = 10) ∧ accepted = []))
    (hs : s.sendFrame o opcode payload closingControl code accepted = some s') : ∃ line', Inv o s' line' := by
  rw [System.sendFrame] at hs
  by_cases hrefuses : s.refuses o opcode payload closingControl = true
  · rw [if_pos hrefuses] at hs
    exact ⟨line, Option.some.inj hs ▸ h⟩
  rw [if_neg hrefuses] at hs
  obtain ⟨t, hsend, rfl⟩ := Option.map_eq_some_iff.mp hs
  rcases send_cases hsend with ⟨-, rfl⟩ | ⟨-, hopen, rfl⟩
  · exact ⟨line, h.push rfl rfl⟩
  rw [System.refuses] at hrefuses
  simp only [Bool.or_eq_true, Bool.and_eq_true, decide_eq_true_eq, not_or, not_and, not_lt, gt_iff_lt, Bool.not_eq_true',
    Bool.not_eq_true] at hrefuses
  obtain ⟨⟨⟨hphase, hlength⟩, hutf8⟩, hfree⟩ := hrefuses
  rcases hkind with ⟨type, rfl, rfl, rfl⟩ | ⟨hopcode, rfl⟩
  · have hphase : s.sender.phase = .webSocket := by
      by_contra hne
      simpa using hphase hne
    have hopcode := opcode_le type
    obtain ⟨hid, -⟩ := hfree (by omega)
    have hnone := h.opened_none (ready_iff.mpr ⟨hphase, hopen⟩) (by simpa using hid)
    have hwell : (⟨type, payload⟩ : WebSocketMessage).WellFormed := by
      intro htype
      simpa using hutf8 (opcode_eq_one.mpr htype)
    have hfollow := @follow_data o line ⟨true, type.opcode, payload⟩ ⟨type, payload⟩ hopcode (h.unclosed hphase)
      (by rwa [if_pos (by omega)] at hlength) (by rw [hnone]; cases type <;> rfl) ?_ fun _ => hwell
    · refine ⟨{ line with opened := none, messages := line.messages ++ [⟨type, payload⟩] }, Inv.push ?_ rfl rfl⟩
      refine h.queue hfollow ⟨rfl, rfl, rfl⟩ ?_ h.closes h.small fun hready => ?_
      · rw [hnone]
        rfl
      · exact hnone ▸ (h.settled hready).congr rfl rfl
    · rintro (hzero | hfinal)
      · cases type <;> cases hzero
      · cases hfinal
  · rw [if_neg (by omega)] at hlength
    have hfollow := @follow_control o line ⟨true, opcode, payload⟩ hopcode rfl hlength
    refine ⟨line, Inv.push ?_ rfl rfl⟩
    exact h.queue hfollow ⟨rfl, rfl, rfl⟩ rfl h.closes h.small fun hready => (h.settled hready).congr rfl rfl

lemma Inv.beginMessage (h : Inv o s line) (type : WebSocketMessageType) : Inv o (s.beginMessage type) line := by
  rw [System.beginMessage]
  by_cases hrefuses : (!s.ready || s.sender.outgoingId ≠ 0 || s.sender.outgoingWriting) = true
  · rwa [if_pos hrefuses]
  rw [if_neg hrefuses]
  simp only [Bool.or_eq_true, Bool.not_eq_true', decide_eq_true_eq, not_or, Bool.not_eq_false, Bool.not_eq_true, not_not] at hrefuses
  obtain ⟨⟨hready, hid⟩, hwriting⟩ := hrefuses
  refine h.quiet ⟨rfl, rfl, rfl⟩ h.closes h.small fun _ => .inl ?_
  have hopened := h.opened_none hready hid
  obtain ⟨hwrites, -, -⟩ | ⟨w, -, hw, -⟩ := h.settled hready
  · refine ⟨hwrites, hwriting, .inr ⟨nextId_ne_zero _, type, rfl, ?_, ?_, ?_, Nat.zero_le _, fun _ => ?_⟩⟩
    · rw [hopened]
      rfl
    · intro m hm
      rw [hopened] at hm
      cases hm
    · rw [hopened]
      rfl
    · rw [hopened]
      exact ⟨[], [], rfl, ⟨[], rfl⟩, .inl rfl, rfl⟩
  · rw [hw] at hwriting
    cases hwriting

lemma Inv.writeMessage (h : Inv o s line) {id : ℕ} {x : Bytes} {final : Bool} (hid : id ≠ 0)
    (hs : s.writeMessage o id x final code = some s') : ∃ line', Inv o s' line' := by
  rw [System.writeMessage] at hs
  by_cases hrefuses : s.refusesWrite o id x (s.sender.outgoingUtf8.append x final).1 = true
  · rw [if_pos hrefuses] at hs
    exact ⟨line, Option.some.inj hs ▸ h⟩
  rw [if_neg hrefuses] at hs
  simp only [System.refusesWrite, Bool.or_eq_true, Bool.and_eq_true, Bool.not_eq_true', decide_eq_true_eq, not_or, not_and, not_lt,
    gt_iff_lt, Bool.not_eq_false, Bool.not_eq_true, not_not] at hrefuses
  obtain ⟨⟨⟨⟨⟨hready, rfl⟩, hwriting⟩, hframe⟩, hmessage⟩, hvalid⟩ := hrefuses
  obtain ⟨hphase, -⟩ := ready_iff.mp hready
  have hsettled : s.pending.filterMap Pending.write? = [] ∧ ∃ type, Open o s.sender type line.opened := by
    obtain ⟨hwrites, -, ⟨hzero, -⟩ | ⟨-, hopen⟩⟩ | ⟨w, -, hw, -⟩ := h.settled hready
    · exact absurd hzero hid
    · exact ⟨hwrites, hopen⟩
    · rw [hw] at hwriting
      cases hwriting
  obtain ⟨hwrites, type, hopen⟩ := hsettled
  have htext (ht : type = .text) : (s.sender.outgoingUtf8.append x final).1 = true := hvalid (hopen.opcode.trans (opcode_eq_one.mpr ht))
  obtain ⟨t, hsend, rfl⟩ := Option.map_eq_some_iff.mp hs
  have hcloses (w : Write) : (Pending.writeMessage w :: s.pending).countP Pending.isClosing + line.closed.toNat ≤
      if s.sender.phase = .webSocket then 0 else 1 := h.closes_cons rfl
  have hsmall (w : Write) (payload : Bytes) (hm : .closing payload ∈ Pending.writeMessage w :: s.pending) : payload.length ≤ 125 :=
    h.small_cons rfl payload hm
  obtain ⟨w, hw, hwid, hbytes, hfinal, hqueued, hutf8⟩ : ∃ w : Write, w = ⟨s.sender.outgoingId, x,
      if s.sender.outgoingOpcode = 1 then (s.sender.outgoingUtf8.append x final).2 else s.sender.outgoingUtf8, final,
      code = ErrorCode.ok⟩ ∧ w.id = s.sender.outgoingId ∧ w.bytes = x ∧ w.final = final ∧ w.queued = decide (code = .ok) ∧
        (type = .text → w.utf8 = (s.sender.outgoingUtf8.append x final).2) :=
    ⟨_, rfl, rfl, rfl, rfl, rfl, fun ht => if_pos (hopen.opcode.trans (opcode_eq_one.mpr ht))⟩
  rw [← hw]
  rcases send_cases hsend with ⟨hcode, rfl⟩ | ⟨hcode, -, rfl⟩
  · -- nothing is queued, and the writer goes on as before
    refine ⟨line, h.quiet ⟨rfl, rfl, rfl⟩ (hcloses w) (hsmall w) fun _ => .inr ⟨w, congrArg _ hwrites, rfl, hwid, hwid ▸ hid, ?_⟩⟩
    show Holds o (w.commit { s.sender with outgoingWriting := true }) line.opened
    rw [Write.commit_failed (by simp [hqueued, hcode])]
    exact .inr ⟨hid, type, hopen.opcode, hopen.started, hopen.same, hopen.bytes, hopen.fits, hopen.text⟩
  · have hfollow := hopen.write (h.unclosed hphase) hframe hmessage htext
    refine ⟨_, h.queue hfollow ⟨rfl, rfl, rfl⟩ ?_ ?_ (hsmall w) fun _ => .inr ⟨w, congrArg _ hwrites, rfl, hwid, hwid ▸ hid, ?_⟩⟩
    · rw [hopen.opcode, messageType_opcode]
      cases final <;> rfl
    · cases final <;> exact hcloses w
    · show Holds o (w.commit { s.sender with outgoingWriting := true }) _
      rw [Write.commit_queued (by simp [hqueued, hcode]) (by exact hwid.symm), hbytes, hfinal]
      cases final with
      | true => exact .inl ⟨rfl, rfl⟩
      | false => exact .inr ⟨hid, type, hopen.grown hmessage htext rfl rfl rfl hutf8⟩

lemma Inv.abortMessage (h : Inv o s line) {id : ℕ} (hid : id ≠ 0) : Inv o (s.abortMessage id) line := by
  rw [System.abortMessage]
  by_cases hother : s.sender.outgoingId ≠ id
  · rwa [if_pos hother]
  rw [if_neg hother]
  refine h.quiet ⟨rfl, rfl, rfl⟩ h.closes h.small fun hready => .inl ?_
  obtain ⟨hphase, hopen⟩ := ready_iff.mp hready
  simp only [Bool.and_eq_true, Bool.not_eq_true', Bool.or_eq_false_iff] at hopen
  obtain ⟨hopen, hstarted, hwriting⟩ := hopen
  obtain ⟨hwrites, -, ⟨hzero, -⟩ | ⟨-, type, hmessage⟩⟩ | ⟨w, -, hw, -⟩ := h.settled (ready_iff.mpr ⟨hphase, hopen⟩)
  · exact absurd (hzero.symm.trans (not_not.mp hother)).symm hid
  · have hnone := hmessage.started
    rw [hstarted] at hnone
    exact ⟨hwrites, hwriting, .inl ⟨rfl, Option.isNone_iff_eq_none.mp (Option.isSome_eq_false_iff.mp hnone.symm)⟩⟩
  · rw [hw] at hwriting
    cases hwriting

lemma Inv.sendClose (h : Inv o s line) {payload : Bytes} (hlength : payload.length ≤ 125) : Inv o (s.sendClose payload) line := by
  rw [System.sendClose]
  by_cases hphase : s.sender.phase = .webSocket
  · rw [if_neg (not_not.mpr hphase)]
    have hcloses := h.closes
    rw [if_pos hphase] at hcloses
    refine h.quiet ⟨rfl, rfl, rfl⟩ ?_ ?_ fun hready => ?_
    · show (Pending.closing payload :: s.pending).countP Pending.isClosing + line.closed.toNat ≤ 1
      rw [List.countP_cons_of_pos rfl]
      omega
    · intro other hm
      rcases List.mem_cons.mp hm with hm | hm
      · cases hm
        exact hlength
      · exact h.small other hm
    · cases (ready_iff.mp hready).1
  · rwa [if_pos hphase]

lemma Inv.sendClosing (h : Inv o s line) (hs : s.sendClosing code = some s') : ∃ line', Inv o s' line' := by
  rw [System.sendClosing.eq_def] at hs
  cases hpending : s.pending with
  | nil => simp [hpending] at hs
  | cons call pending =>
    cases call with
    | sendFrame => simp [hpending] at hs
    | writeMessage w => simp [hpending] at hs
    | sendClose queued => simp [hpending] at hs
    | closing payload =>
      simp only [hpending] at hs
      obtain ⟨t, hsend, rfl⟩ := Option.map_eq_some_iff.mp hs
      have hcloses := h.closes
      rw [hpending, List.countP_cons_of_pos rfl] at hcloses
      have hphase : s.sender.phase ≠ .webSocket := by
        intro hphase
        rw [if_pos hphase] at hcloses
        omega
      rw [if_neg hphase] at hcloses
      have hlength : payload.length ≤ 125 := h.small payload (hpending ▸ List.mem_cons_self)
      have hsmall (other : Bytes) (hm : .closing other ∈ pending) : other.length ≤ 125 :=
        h.small other (hpending ▸ List.mem_cons_of_mem _ hm)
      rcases send_cases hsend with ⟨-, rfl⟩ | ⟨-, -, rfl⟩
      · refine ⟨line, Inv.push ?_ rfl rfl⟩
        refine h.quiet ⟨rfl, rfl, rfl⟩ ?_ hsmall fun hready => absurd (ready_iff.mp hready).1 hphase
        rw [if_neg hphase]
        show pending.countP Pending.isClosing + line.closed.toNat ≤ 1
        omega
      · have hclosed : line.closed = false := by
          cases hclosed : line.closed with
          | false => rfl
          | true =>
            rw [hclosed, Bool.toNat_true] at hcloses
            omega
        have hfollow := @follow_close o line ⟨true, 8, payload⟩ rfl hclosed rfl hlength
        refine ⟨{ line with closed := true }, Inv.push ?_ rfl rfl⟩
        refine h.queue hfollow ⟨rfl, rfl, rfl⟩ rfl ?_ hsmall fun hready => absurd (ready_iff.mp hready).1 hphase
        rw [if_neg hphase]
        show pending.countP Pending.isClosing + 1 ≤ 1
        omega

lemma Inv.pop (h : Inv o s line) {call : Pending} {pending : List Pending} (hpending : s.pending = call :: pending)
    (hphase : s'.sender.phase = s.sender.phase) (hs : s'.pending = pending ∧ s'.wire = s.wire ∧ s'.frames = s.frames ∧
      s'.accepted = s.accepted) (hsettled : s'.ready = true → Settled o s' line.opened) : Inv o s' line := by
  obtain ⟨hp, hwire⟩ := hs
  refine h.quiet hwire ?_ ?_ hsettled
  · have hcloses := h.closes
    rw [hpending, List.countP_cons] at hcloses
    rw [hp, hphase]
    omega
  · intro payload hm
    rw [hp] at hm
    exact h.small payload (hpending ▸ List.mem_cons_of_mem _ hm)

lemma Inv.back (h : Inv o s line) (hs : s.back = some s') : Inv o s' line := by
  rw [System.back.eq_def] at hs
  cases hpending : s.pending with
  | nil => simp [hpending] at hs
  | cons call pending =>
    cases call with
    | closing payload => simp [hpending] at hs
    | sendFrame =>
      simp only [hpending] at hs
      obtain rfl := Option.some.inj hs
      refine h.pop hpending rfl ⟨rfl, rfl, rfl, rfl⟩ fun hready => (h.settled hready).congr ?_ rfl
      rw [hpending]
      rfl
    | sendClose queued =>
      simp only [hpending] at hs
      obtain rfl := Option.some.inj hs
      refine h.pop hpending rfl ⟨rfl, rfl, rfl, rfl⟩ fun hready => ?_
      obtain ⟨hphase, hopen⟩ := ready_iff.mp hready
      obtain ⟨hopen, hqueued⟩ := Bool.and_eq_true_iff.mp hopen
      have hsettled := h.settled (ready_iff.mpr ⟨hphase, hopen⟩)
      obtain rfl : queued = true := hqueued
      refine hsettled.congr ?_ ?_
      · rw [hpending]
        rfl
      · simp
    | writeMessage w =>
      simp only [hpending] at hs
      obtain rfl := Option.some.inj hs
      have hsender : (w.commit s.sender).phase = s.sender.phase ∧ (w.commit s.sender).isOpen = s.sender.isOpen ∧
          (w.commit s.sender).outgoingWriting = false := by
        rw [Write.commit]
        split <;> exact ⟨rfl, rfl, rfl⟩
      refine h.pop hpending hsender.1 ⟨rfl, rfl, rfl, rfl⟩ fun hready => .inl ?_
      obtain ⟨hphase, hopen⟩ := ready_iff.mp hready
      obtain ⟨hwrites, -, -⟩ | ⟨w', hwrites, -, -, -, hholds⟩ :=
        h.settled (ready_iff.mpr ⟨hsender.1.symm.trans hphase, hsender.2.1.symm.trans hopen⟩)
      · rw [hpending] at hwrites
        cases hwrites
      · rw [hpending] at hwrites
        obtain ⟨rfl, hrest⟩ := List.cons.inj hwrites
        exact ⟨hrest, hsender.2.2, hholds⟩

lemma Inv.close (h : Inv o s line) (n : ℕ) (reason : Bytes) : Inv o (s.close n reason) line := by
  rw [System.close]
  split
  · exact h
  · rename_i hvalid
    simp only [Bool.or_eq_true, decide_eq_true_eq, not_or, not_lt, gt_iff_lt] at hvalid
    apply h.sendClose
    simp only [List.length_cons]
    omega

lemma Inv.ended (h : Inv o s line) (hphase : s'.sender.phase = .closed) (hpending : s'.pending = s.pending)
    (hwire : s'.wire = s.wire ∧ s'.frames = s.frames ∧ s'.accepted = s.accepted) : Inv o s' line := by
  refine h.quiet hwire ?_ ?_ fun hready => ?_
  · have hcloses := h.closes
    rw [hpending, hphase, if_neg (by decide)]
    split at hcloses
    · omega
    · exact hcloses
  · rw [hpending]
    exact h.small
  · rw [(ready_iff.mp hready).1] at hphase
    cases hphase

lemma Inv.step (h : Inv o s line) {e : Event} (hs : step o s e = some s') : ∃ line', Inv o s' line' := by
  cases e with
  | sendText text code => exact h.sendFrame (.inl ⟨.text, rfl, rfl, rfl⟩) hs
  | sendBinary bytes code => exact h.sendFrame (.inl ⟨.binary, rfl, rfl, rfl⟩) hs
  | ping payload code => exact h.sendFrame (.inr ⟨.inl rfl, rfl⟩) hs
  | pong payload code => exact h.sendFrame (.inr ⟨.inr rfl, rfl⟩) hs
  | beginMessage type =>
    obtain rfl := Option.some.inj hs
    exact ⟨line, h.beginMessage type⟩
  | writeMessage id bytes final code =>
    obtain ⟨hid, hs⟩ := Option.ite_none_left_eq_some.mp hs
    exact h.writeMessage hid hs
  | abortMessage id =>
    obtain ⟨hid, hs⟩ := Option.ite_none_left_eq_some.mp hs
    obtain rfl := Option.some.inj hs
    exact ⟨line, h.abortMessage hid⟩
  | close n reason =>
    obtain rfl := Option.some.inj hs
    exact ⟨line, h.close n reason⟩
  | answerClose payload =>
    obtain ⟨hlength, hs⟩ := Option.ite_none_left_eq_some.mp hs
    obtain rfl := Option.some.inj hs
    exact ⟨line, h.sendClose (not_lt.mp hlength)⟩
  | send code => exact h.sendClosing hs
  | back => exact ⟨line, h.back hs⟩
  | connectionClose =>
    obtain rfl := Option.some.inj hs
    exact ⟨line, h.quiet ⟨rfl, rfl, rfl⟩ h.closes h.small fun hready => absurd (ready_iff.mp hready).2 Bool.false_ne_true⟩
  | disconnected =>
    obtain rfl := Option.some.inj hs
    exact ⟨line, h.ended rfl rfl ⟨rfl, rfl, rfl⟩⟩
  | finishDisconnect =>
    obtain rfl := Option.some.inj hs
    exact ⟨line, h.ended rfl rfl ⟨rfl, rfl, rfl⟩⟩

lemma reached (h : Reachable (WebSocketOutput.step o) Initial s) : ∃ line, Inv o s line := by
  refine h.invariant (P := fun s => ∃ line, Inv o s line) ?_ fun t e t' ht hstep => ?_
  · rintro _ rfl
    exact ⟨{}, rfl, rfl, rfl, Nat.zero_le _, fun _ hm => absurd hm List.not_mem_nil, fun _ => .inl ⟨rfl, rfl, .inl ⟨rfl, rfl⟩⟩⟩
  · obtain ⟨line, hinv⟩ := ht
    exact hinv.step hstep

/-- The frames on the wire are those of a legal server, and a client that puts them together gets the messages that were
accepted. -/
theorem output_is_legal (h : Reachable (WebSocketOutput.step o) Initial s) :
    s.wire = (s.frames.flatMap fun f => WebSocketFrame.encodeServerFrame f.opcode f.payload f.final) ∧
    (∃ line, s.frames.foldlM (follow o) {} = some line ∧ line.messages = (delivered s.accepted).2 ∧
      bytesOf line.opened = (delivered s.accepted).1) ∧
    reassemble (max o.maxWebSocketFrameBytes o.maxWebSocketMessageBytes) none s.frames = (delivered s.accepted).2 := by
  obtain ⟨line, hinv⟩ := reached h
  refine ⟨hinv.wire, ⟨line, hinv.follows, ?_, ?_⟩, ?_⟩
  · rw [hinv.delivered]
  · rw [hinv.delivered]
  · have hmessages := @reassemble_follows o {} line s.frames rfl hinv.follows
    rw [hinv.delivered, hmessages]
    rfl

def twoMessages : List Event :=
  [.sendText [104, 105] .ok, .back, .beginMessage .binary, .writeMessage 1 [1] false .ok, .ping [] .ok, .back, .back,
    .sendText [104] .ok, .writeMessage 1 [2] true .ok, .back, .close 1000 [], .send .ok, .back]

theorem output_is_legal_two_messages : ∃ s, Reachable (WebSocketOutput.step {}) Initial s ∧ s.frames.length = 5 ∧
    reassemble (256 * 1024) none s.frames = [⟨.text, [104, 105]⟩, ⟨.binary, [1, 2]⟩] := by
  have hrun : (run (WebSocketOutput.step {}) {} twoMessages).map (fun s => (s.frames.length, (delivered s.accepted).2)) =
      some (5, [⟨.text, [104, 105]⟩, ⟨.binary, [1, 2]⟩]) := by decide +kernel
  obtain ⟨s, hs, heq⟩ := Option.map_eq_some_iff.mp hrun
  obtain ⟨hlength, hmessages⟩ := Prod.mk.inj heq
  have hreach : Reachable (WebSocketOutput.step {}) Initial s := ⟨{}, rfl, twoMessages, hs⟩
  exact ⟨s, hreach, hlength, (output_is_legal hreach).2.2.trans hmessages⟩

end Steps

section Abandoned

variable {o : Options} {s s' s'' : System} {line : Line} {code : ErrorCode}

/-- Only control frames are queued, and no call of the application gets its data in again. -/
structure Dataless (s s' : System) : Prop where
  ready : s'.ready = true → s.ready = true
  accepted : s'.accepted = s.accepted
  frames : ∃ control, s'.frames = s.frames ++ control ∧ ∀ f ∈ control, 8 ≤ f.opcode

lemma Dataless.of_same (hready : s'.ready = true → s.ready = true) (h : s'.accepted = s.accepted ∧ s'.frames = s.frames) :
    Dataless s s' := ⟨hready, h.1, [], by rw [h.2, List.append_nil], fun _ hf => absurd hf List.not_mem_nil⟩

lemma Dataless.refl (s : System) : Dataless s s := .of_same id ⟨rfl, rfl⟩

lemma Dataless.trans (h : Dataless s s') (h' : Dataless s' s'') : Dataless s s'' := by
  obtain ⟨x, hx, hcontrol⟩ := h.frames
  obtain ⟨y, hy, hcontrol'⟩ := h'.frames
  refine ⟨fun hready => h.ready (h'.ready hready), h'.accepted.trans h.accepted, x ++ y, ?_, fun f hf => ?_⟩
  · rw [hy, hx, List.append_assoc]
  · rcases List.mem_append.mp hf with hf | hf
    · exact hcontrol f hf
    · exact hcontrol' f hf

lemma Dataless.control {opcode : ℕ} {payload : Bytes} (hopcode : 8 ≤ opcode) (hs : s.send opcode payload true code [] = some s') :
    Dataless s s' := by
  rcases send_cases hs with ⟨-, rfl⟩ | ⟨-, -, rfl⟩
  · exact .refl _
  · exact ⟨id, List.append_nil _, _, rfl, fun f hf => (List.mem_singleton.mp hf) ▸ hopcode⟩

lemma Dataless.sendFrame {opcode : ℕ} {payload : Bytes} {closingControl : Bool} (hopcode : 8 ≤ opcode)
    (hs : s.sendFrame o opcode payload closingControl code [] = some s') : Dataless s s' := by
  rw [System.sendFrame] at hs
  split at hs
  · exact Option.some.inj hs ▸ .refl s
  · obtain ⟨t, hsend, rfl⟩ := Option.map_eq_some_iff.mp hs
    exact (Dataless.control hopcode hsend).trans (.of_same id ⟨rfl, rfl⟩)

lemma Dataless.refused {opcode : ℕ} {payload : Bytes} {accepted : List Accepted} (hready : s.ready = false)
    (hs : s.sendFrame o opcode payload false code accepted = some s') : Dataless s s' := by
  rw [System.sendFrame] at hs
  by_cases hrefuses : s.refuses o opcode payload false = true
  · rw [if_pos hrefuses] at hs
    exact Option.some.inj hs ▸ .refl s
  rw [if_neg hrefuses] at hs
  obtain ⟨t, hsend, rfl⟩ := Option.map_eq_some_iff.mp hs
  rcases send_cases hsend with ⟨-, rfl⟩ | ⟨-, hopen, -⟩
  · exact .of_same id ⟨rfl, rfl⟩
  · have hphase : s.sender.phase = .webSocket := by
      by_contra hne
      exact hrefuses (by simp [System.refuses, hne])
    rw [ready_iff.mpr ⟨hphase, hopen⟩] at hready
    cases hready

lemma Dataless.sendClose (payload : Bytes) : Dataless s (s.sendClose payload) := by
  rw [System.sendClose]
  split
  · exact .refl s
  · exact .of_same (fun h => by cases (ready_iff.mp h).1) ⟨rfl, rfl⟩

lemma Dataless.sendClosing (hs : s.sendClosing code = some s') : Dataless s s' := by
  rw [System.sendClosing.eq_def] at hs
  split at hs
  · obtain ⟨t, hsend, rfl⟩ := Option.map_eq_some_iff.mp hs
    have hpop := Dataless.control (by decide) hsend
    exact ⟨hpop.ready, hpop.accepted, hpop.frames⟩
  · cases hs

lemma commit_same (w : Write) (p : Sender) : (w.commit p).phase = p.phase ∧ (w.commit p).isOpen = p.isOpen := by
  rw [Write.commit]
  split <;> exact ⟨rfl, rfl⟩

lemma Dataless.back (hs : s.back = some s') : Dataless s s' := by
  rw [System.back.eq_def] at hs
  split at hs
  · obtain rfl := Option.some.inj hs
    exact .of_same id ⟨rfl, rfl⟩
  · obtain rfl := Option.some.inj hs
    refine .of_same (fun h => ?_) ⟨rfl, rfl⟩
    obtain ⟨hphase, hopen⟩ := ready_iff.mp h
    exact ready_iff.mpr ⟨(commit_same _ _).1.symm.trans hphase, (commit_same _ _).2.symm.trans hopen⟩
  · obtain rfl := Option.some.inj hs
    refine .of_same (fun h => ?_) ⟨rfl, rfl⟩
    obtain ⟨hphase, hopen⟩ := ready_iff.mp h
    exact ready_iff.mpr ⟨hphase, (Bool.and_eq_true_iff.mp hopen).1⟩
  · cases hs

lemma Dataless.step {e : Event} (hready : s.ready = false) (hs : step o s e = some s') : Dataless s s' := by
  cases e with
  | sendText text code => exact .refused hready hs
  | sendBinary bytes code => exact .refused hready hs
  | ping payload code => exact .sendFrame (by decide) hs
  | pong payload code => exact .sendFrame (by decide) hs
  | beginMessage type =>
    obtain rfl := Option.some.inj hs
    rw [System.beginMessage, if_pos (by simp [hready])]
    exact .refl s
  | writeMessage id bytes final code =>
    obtain ⟨-, hs⟩ := Option.ite_none_left_eq_some.mp hs
    rw [System.writeMessage, if_pos (by simp [System.refusesWrite, hready])] at hs
    exact Option.some.inj hs ▸ .refl s
  | abortMessage id =>
    obtain ⟨-, hs⟩ := Option.ite_none_left_eq_some.mp hs
    obtain rfl := Option.some.inj hs
    rw [System.abortMessage]
    split
    · exact .refl s
    · refine .of_same (fun h => ?_) ⟨rfl, rfl⟩
      obtain ⟨hphase, hopen⟩ := ready_iff.mp h
      exact ready_iff.mpr ⟨hphase, (Bool.and_eq_true_iff.mp hopen).1⟩
  | close n reason =>
    obtain rfl := Option.some.inj hs
    rw [System.close]
    split
    · exact .refl s
    · exact .sendClose _
  | answerClose payload =>
    obtain ⟨-, hs⟩ := Option.ite_none_left_eq_some.mp hs
    obtain rfl := Option.some.inj hs
    exact .sendClose payload
  | send code => exact .sendClosing hs
  | back => exact .back hs
  | connectionClose =>
    obtain rfl := Option.some.inj hs
    exact .of_same (fun h => absurd (ready_iff.mp h).2 Bool.false_ne_true) ⟨rfl, rfl⟩
  | disconnected =>
    obtain rfl := Option.some.inj hs
    exact .of_same (fun h => absurd (ready_iff.mp h).2 Bool.false_ne_true) ⟨rfl, rfl⟩
  | finishDisconnect =>
    obtain rfl := Option.some.inj hs
    exact .of_same (fun h => absurd (ready_iff.mp h).2 Bool.false_ne_true) ⟨rfl, rfl⟩

/-- Where the writer of a message that is half on the wire is gone, the connection takes no data any more. -/
theorem half_message_ends_the_data (h : Reachable (WebSocketOutput.step o) Initial s)
    (hfollows : s.frames.foldlM (follow o) {} = some line) (hopened : line.opened ≠ none) (hid : s.sender.outgoingId = 0)
    (hsteps : Steps (WebSocketOutput.step o) s s') : (s'.sender.phase ≠ .webSocket ∨ s'.sender.isOpen = false) ∧
      s'.accepted = s.accepted ∧ ∃ control, s'.frames = s.frames ++ control ∧ ∀ f ∈ control, 8 ≤ f.opcode := by
  obtain ⟨line', hinv⟩ := reached h
  obtain rfl : line' = line := Option.some.inj (hinv.follows.symm.trans hfollows)
  have hready : s.ready = false := by
    by_contra hready
    exact hopened (hinv.opened_none (Bool.not_eq_false _ ▸ hready) hid)
  have hall : Dataless s s' := by
    refine hsteps.invariant (P := Dataless s) (.refl s) fun t e t' ht hstep => ht.trans (.step ?_ hstep)
    by_contra h
    rw [ht.ready (Bool.not_eq_false _ ▸ h)] at hready
    cases hready
  refine ⟨?_, hall.accepted, hall.frames⟩
  by_contra hno
  simp only [not_or, not_not, Bool.not_eq_false] at hno
  rw [hall.ready (ready_iff.mpr hno)] at hready
  cases hready

def halfMessage : List Event := [.beginMessage .text, .writeMessage 1 [97] false .ok, .back, .close 1000 []]

theorem half_message_ends_the_data_closed : ∃ s s', Reachable (WebSocketOutput.step {}) Initial s ∧
    Steps (WebSocketOutput.step {}) s s' ∧ s'.frames.length = 3 ∧ s'.accepted = s.accepted := by
  have hrun : (run (WebSocketOutput.step {}) {} halfMessage).map (fun s => (s.frames, s.sender.outgoingId)) =
      some ([⟨false, 1, [97]⟩], 0) := by decide +kernel
  have hrest : ((run (WebSocketOutput.step {}) {} halfMessage).bind fun s =>
      run (WebSocketOutput.step {}) s [.send .ok, .back, .pong [] .ok]).map (·.frames.length) = some 3 := by decide +kernel
  obtain ⟨s, hs, heq⟩ := Option.map_eq_some_iff.mp hrun
  obtain ⟨hframes, hid⟩ := Prod.mk.inj heq
  rw [hs, Option.bind_some] at hrest
  obtain ⟨s', hs', hlength⟩ := Option.map_eq_some_iff.mp hrest
  have hreach : Reachable (WebSocketOutput.step {}) Initial s := ⟨{}, rfl, halfMessage, hs⟩
  have hfollows : s.frames.foldlM (follow {}) {} = some { opened := some ⟨.text, [97]⟩ } := by
    rw [hframes]
    rfl
  have hended := half_message_ends_the_data hreach hfollows (by simp) hid ⟨_, hs'⟩
  exact ⟨s, s', hreach, ⟨_, hs'⟩, hlength, hended.2.1⟩

end Abandoned

end ServerCore.Web.WebSocketOutput
