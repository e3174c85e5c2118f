import ServerCore.Protocol.FrameAdmission

/-! The deadline of an incomplete frame: `ConsumeBytesOnRunner`, `ConsumeSynchronouslyOnRunner` and
`UpdateFrameDeadline` of a session, as the chunks of a byte stream reach it. -/

namespace ServerCore.Protocol.FrameCodec.Reader

def Kept (r : Reader) : Prop := r.terminalError = .tooLarge → r.start ≠ r.stop

variable {σ : Type*} (callback : FrameCallback σ)

lemma invoke_not_tooLarge {r : Reader} (h : r.terminalError ≠ .tooLarge) (context : σ) (body : ServerCore.Core.Bytes) :
    (r.invoke callback context body).terminalError ≠ .tooLarge := by
  simp only [invoke, refuse]
  split_ifs <;> simp_all

lemma pump_kept (r : Reader) (context : σ) (h : r.terminalError ≠ .tooLarge) :
    (pumpCompletedFrames callback r context).2.1.Kept ∧
      ((pumpCompletedFrames callback r context).1 ≠ .tooLarge →
        (pumpCompletedFrames callback r context).2.1.terminalError ≠ .tooLarge) := by
  fun_induction pumpCompletedFrames callback r context with
  | case1 r context hh bodyLength hbig =>
    refine ⟨fun _ => ?_, fun hne => absurd rfl hne⟩
    have hs : headerSize = 4 := rfl
    show r.start ≠ r.stop
    omega
  | case2 r context hh bodyLength hbig frameSize hf => exact ⟨fun ht => absurd ht h, fun _ => h⟩
  | case3 r context hh bodyLength hbig frameSize hf body called hterm =>
    have hcalled := invoke_not_tooLarge callback h context body
    exact ⟨fun ht => absurd ht hcalled, fun _ => hcalled⟩
  | case4 r context hh bodyLength hbig frameSize hf body called hterm hc ih =>
    exact ih (invoke_not_tooLarge callback h context body)
  | case5 r context hh => exact ⟨fun ht => absurd ht h, fun _ => h⟩

lemma appendLoop_kept (r : Reader) (context : σ) (bytes : ServerCore.Core.Bytes) (consumed : ℕ)
    (h : r.terminalError ≠ .tooLarge) : (appendLoop callback r context bytes consumed).2.1.Kept := by
  induction hn : bytes.length using Nat.strong_induction_on generalizing r context bytes consumed with
  | _ n ih =>
    obtain ⟨hk, hterm⟩ := pump_kept callback r context h
    rw [appendLoop]
    rcases hp : pumpCompletedFrames callback r context with ⟨pumped, pumpedReader, context'⟩
    rw [hp] at hk hterm
    dsimp only at hk hterm ⊢
    by_cases hpumped : pumped = .none
    · rw [if_neg (not_not.mpr hpumped)]
      by_cases hempty : bytes.isEmpty = true
      · rw [dif_pos hempty]
        exact hk
      · have hpos : 0 < bytes.length := List.length_pos_iff.mpr (by simpa using hempty)
        have hle := pumpedReader.makeRoom.stop_le_size
        rw [dif_neg hempty]
        split
        · rintro ⟨⟩
        · apply ih _ _ _ _ _ _ _ rfl
          · rw [List.length_drop]
            split_ifs <;> omega
          · show pumpedReader.makeRoom.terminalError ≠ .tooLarge
            rw [pumpedReader.makeRoom_fields.2]
            exact hterm (by simp [hpumped])
    · rw [if_pos hpumped]
      exact hk

lemma append_kept {r : Reader} (h : r.Kept) (bytes : ServerCore.Core.Bytes) (context : σ) :
    (r.append bytes context (some callback)).2.1.Kept := by
  rcases hr : r.refuse false with _ | ⟨error, r'⟩
  · have happend : r.append bytes context (some callback) = appendLoop callback r context bytes 0 := by
      simp only [append, Option.isNone_some, hr]
    rw [happend]
    apply appendLoop_kept
    intro hterm
    simp [refuse, hterm] at hr
  · have happend : r.append bytes context (some callback) = (⟨error, 0⟩, r', context) := by
      simp only [append, Option.isNone_some, hr]
    rw [happend]
    simp only [refuse, Bool.false_eq_true, if_false] at hr
    split_ifs at hr
    · obtain ⟨-, rfl⟩ := Prod.mk.inj (Option.some.inj hr)
      exact h
    · obtain ⟨-, rfl⟩ := Prod.mk.inj (Option.some.inj hr)
      rintro ⟨⟩

end ServerCore.Protocol.FrameCodec.Reader

namespace ServerCore.Runtime.FrameDeadline

open ServerCore.Core ServerCore.Protocol ServerCore.Protocol.FrameCodec

/-- What a receive left in the pending bytes; the time is in milliseconds since the process started. -/
structure Chunk where
  bytes : Bytes
  receivedAt : ℕ
  representable : receivedAt < 2 ^ 63

/-- `mFrameReader` with the stream it was given, the deadline, why the session was disconnected and the
chunks that were appended. -/
structure State where
  frames : Session
  incompleteStarted : ℕ := 0
  currentBatchReceivedAt : ℕ := 0
  disconnected : Option Status := none
  chunks : List Chunk := []

def hasIncompleteFrame (f : FrameReader) : Bool := f.reader.any fun r => r.start ≠ r.stop

def updateFrameDeadline (s : State) (completedBefore : ℕ) : State :=
  if !hasIncompleteFrame s.frames.reader then { s with incompleteStarted := 0 }
  else if s.incompleteStarted = 0 ∨ completedBefore < s.frames.reader.completedFrameCount then
    { s with incompleteStarted := (s.currentBatchReceivedAt + 1) % sizeModulus }
  else s

/-- The test of `ConsumeBytesOnRunner` and, with the time of the sweep, of `DisconnectIfExpired`. -/
def frameExpired (timeout now incomplete : ℕ) : Bool :=
  incomplete ≠ 0 && 0 < timeout && incomplete - 1 ≤ now && timeout ≤ now - (incomplete - 1)

variable {σ : Type*}

def consumeSynchronously (s : State) (bytes : Bytes) (context : σ) (admission : Admission σ) : State :=
  let completedBefore := s.frames.reader.completedFrameCount
  let appended := (s.frames.reader.append bytes context admission).1
  let s := updateFrameDeadline { s with frames := s.frames.step (.append bytes context admission) } completedBefore
  if appended.code ≠ .ok then { s with disconnected := some appended } else s

def consumeBytes (timeout : ℕ) (s : State) (chunk : Chunk) (context : σ) (admission : Admission σ) : State :=
  let s := { s with currentBatchReceivedAt := chunk.receivedAt }
  if s.disconnected.isSome then s
  else if frameExpired timeout chunk.receivedAt s.incompleteStarted then
    { s with disconnected := some (.failWithoutMessage .timeout) }
  else consumeSynchronously { s with chunks := s.chunks ++ [chunk] } chunk.bytes context admission

def takeNextFrame (s : State) : State := { s with frames := s.frames.step (.takeNextFrame : Operation Unit) }

def initial (maxBodySize : UInt32) : State := { frames := ⟨.create maxBodySize, [], []⟩ }

/-- Chunks with times that do not go back, none of whose frames is refused, and frames taken out between them. -/
inductive Reached (σ : Type*) (maxBodySize : UInt32) (timeout : ℕ) : State → Prop
  | start : Reached σ maxBodySize timeout (initial maxBodySize)
  | consume {s : State} (chunk : Chunk) (context : σ) (admission : Admission σ) : Reached σ maxBodySize timeout s →
      s.currentBatchReceivedAt ≤ chunk.receivedAt → s.frames.Addressable chunk.bytes →
      (consumeBytes timeout s chunk context admission).frames.reader.admissionTerminal = false →
      Reached σ maxBodySize timeout (consumeBytes timeout s chunk context admission)
  | takeNextFrame {s : State} : Reached σ maxBodySize timeout s → Reached σ maxBodySize timeout (takeNextFrame s)

def chunkBytes (chunks : List Chunk) : Bytes := chunks.flatMap Chunk.bytes

def Holds (chunks : List Chunk) (offset : ℕ) (chunk : Chunk) : Prop :=
  ∃ x y, chunks = x ++ chunk :: y ∧ (chunkBytes x).length ≤ offset ∧ offset < (chunkBytes x).length + chunk.bytes.length

/-- `incomplete` says when the first byte of the incomplete rest of the stream came. -/
def Dated (chunks : List Chunk) (stream rest : Bytes) (incomplete : ℕ) : Prop :=
  (incomplete = 0 ↔ rest = []) ∧
    (rest ≠ [] → ∃ chunk, Holds chunks (stream.length - rest.length) chunk ∧ incomplete = chunk.receivedAt + 1)

structure Inv (maxBodySize : UInt32) (s : State) : Prop where
  frames : s.frames.Inv maxBodySize
  terminal : s.frames.reader.admissionTerminal = false
  kept : ∀ r, s.frames.reader.reader = some r → r.Kept
  stream : s.frames.stream = chunkBytes s.chunks
  dated : ∀ rest, Splits maxBodySize.toNat s.frames.stream (s.frames.removed ++ s.frames.reader.completed) rest →
    Dated s.chunks s.frames.stream rest s.incompleteStarted

section Frames

variable {maxBodySize : UInt32} {f : FrameReader}

lemma create_kept (storage : Bytes) (maxBodySize : UInt32) : (Reader.create storage maxBodySize).Kept := by
  intro h
  simp only [Reader.create] at h
  split at h <;> cases h

lemma append_kept (h : ∀ r, f.reader = some r → r.Kept) (bytes : Bytes) (context : σ) (admission : Admission σ) :
    ∀ r, (f.append bytes context admission).2.1.reader = some r → r.Kept := by
  have hensured : f.ensureReader.1.Kept := by
    rw [FrameReader.ensureReader]
    cases hr : f.reader with
    | some r => exact h r hr
    | none => exact create_kept _ _
  rcases hensure : f.ensureReader with ⟨r₀, prepared⟩
  rw [hensure] at hensured
  have hcall := Reader.append_kept (FrameCallback.plain (FrameReader.copyCompletedFrame admission)) hensured bytes
    ({ f with reader := some r₀, callbackAllocationFailed := false, callbackAdmissionRejected := false }, context)
  intro r hr
  rw [FrameReader.append] at hr
  split at hr
  · exact h r hr
  rw [hensure] at hr
  dsimp only at hr
  split at hr
  · obtain rfl := Option.some.inj hr
    exact hensured
  · split at hr
    · obtain rfl := Option.some.inj hr
      exact hcall
    · split at hr <;> obtain rfl := Option.some.inj hr <;> exact hcall

lemma hasIncompleteFrame_iff (hkept : ∀ r, f.reader = some r → r.Kept) {result : Option (Unit × Bytes)}
    (hs : Session.Stands f result) {rest : Bytes}
    (hnone : result = none → rest ≠ []) (hsome : ∀ s' rest', result = some (s', rest') → rest' = rest) :
    hasIncompleteFrame f = true ↔ rest ≠ [] := by
  rw [hasIncompleteFrame]
  cases hr : f.reader with
  | none =>
    simp only [Session.Stands, hr] at hs
    obtain rfl := hsome _ _ hs
    simp
  | some r =>
    simp only [Session.Stands, hr] at hs
    simp only [Option.any_some, decide_eq_true_eq]
    cases hs with
    | blocked _ _ =>
      obtain rfl := hsome _ _ rfl
      have hle := r.start_le_stop
      rw [← List.length_pos_iff, Reader.unread_length]
      omega
    | failed _ hterm => exact iff_of_true (hkept r hr hterm) (hnone rfl)

end Frames

section Dates

variable {limit : ℕ} {chunks : List Chunk} {chunk : Chunk} {x rest rest' : Bytes} {bodies newly : List Bytes}
variable {incomplete : ℕ}

lemma chunkBytes_append (chunks more : List Chunk) : chunkBytes (chunks ++ more) = chunkBytes chunks ++ chunkBytes more :=
  List.flatMap_append

lemma Holds.append {offset : ℕ} (h : Holds chunks offset chunk) (more : List Chunk) : Holds (chunks ++ more) offset chunk := by
  obtain ⟨y, z, rfl, hlow, hhigh⟩ := h
  exact ⟨y, z ++ more, by rw [List.append_assoc, List.cons_append], hlow, hhigh⟩

lemma holds_last {offset : ℕ} (hlow : (chunkBytes chunks).length ≤ offset)
    (hhigh : offset < (chunkBytes chunks).length + chunk.bytes.length) : Holds (chunks ++ [chunk]) offset chunk :=
  ⟨chunks, [], rfl, hlow, hhigh⟩

lemma rest_begins_later {bytes : Bytes} (h : Splits limit x bodies rest) (h' : Splits limit (x ++ bytes) (bodies ++ newly) rest')
    (hnew : newly ≠ []) : x.length + rest'.length ≤ (x ++ bytes).length := by
  have hstream : rest ++ bytes = (newly.map frame).flatten ++ rest' := by
    have heq := h'.stream
    rw [h.stream, List.map_append, List.flatten_append, List.append_assoc, List.append_assoc] at heq
    exact List.append_cancel_left heq
  obtain ⟨body, more, rfl⟩ := List.exists_cons_of_ne_nil hnew
  rw [List.map_cons, List.flatten_cons, List.append_assoc] at hstream
  have hlengths := congrArg List.length hstream
  simp only [List.length_append] at hlengths ⊢
  by_contra hlt
  have hfront : frame body <+: rest := by
    refine @List.prefix_of_prefix_length_le _ _ _ (rest ++ bytes) ?_ (List.prefix_append _ _) (by omega)
    exact hstream ▸ List.prefix_append _ _
  obtain ⟨tail, htail⟩ := hfront
  exact h.maximal ⟨body, tail, h'.bounded body (by simp), htail.symm⟩

lemma dated_append (hx : x = chunkBytes chunks) (h : Splits limit x bodies rest)
    (h' : Splits limit (x ++ chunk.bytes) (bodies ++ newly) rest') (hd : Dated chunks x rest incomplete) :
    Dated (chunks ++ [chunk]) (x ++ chunk.bytes) rest'
      (if rest' = [] then 0 else if incomplete = 0 ∨ newly ≠ [] then chunk.receivedAt + 1 else incomplete) := by
  have hlengths := congrArg List.length h.stream
  have hlengths' := congrArg List.length h'.stream
  simp only [List.map_append, List.flatten_append, List.length_append] at hlengths hlengths'
  split_ifs with hempty hfresh
  · exact ⟨iff_of_true rfl hempty, fun hne => absurd hempty hne⟩
  · have hpos := List.length_pos_iff.mpr hempty
    have hlate : x.length + rest'.length ≤ (x ++ chunk.bytes).length := by
      rcases hfresh with hzero | hnew
      · have hnil := hd.1.mp hzero
        rw [List.length_append]
        simp only [hnil, List.length_nil] at hlengths
        omega
      · exact rest_begins_later h h' hnew
    refine ⟨iff_of_false (by omega) hempty, fun _ => ⟨chunk, holds_last ?_ ?_, rfl⟩⟩ <;>
      rw [← hx] <;> rw [List.length_append] at hlate ⊢ <;> omega
  · obtain ⟨hstarted, hsame⟩ := not_or.mp hfresh
    have hsame := not_not.mp hsame
    have hrest : rest ≠ [] := mt hd.1.mpr hstarted
    obtain ⟨first, hholds, hfirst⟩ := hd.2 hrest
    refine ⟨iff_of_false hstarted hempty, fun _ => ⟨first, ?_, hfirst⟩⟩
    have hoffset : (x ++ chunk.bytes).length - rest'.length = x.length - rest.length := by
      rw [hsame] at hlengths'
      rw [List.length_append]
      simp only [List.map_nil, List.flatten_nil, List.length_nil] at hlengths'
      omega
    rw [hoffset]
    exact hholds.append [chunk]

end Dates

section Steps

variable {maxBodySize : UInt32} {timeout : ℕ} {s : State} {σ : Type*}

lemma updateFrameDeadline_fields (s : State) (before : ℕ) : (updateFrameDeadline s before).frames = s.frames ∧
    (updateFrameDeadline s before).chunks = s.chunks ∧
    (updateFrameDeadline s before).currentBatchReceivedAt = s.currentBatchReceivedAt ∧
    (updateFrameDeadline s before).disconnected = s.disconnected := by
  rw [updateFrameDeadline]
  split_ifs <;> exact ⟨rfl, rfl, rfl, rfl⟩

lemma consumeSynchronously_fields (s : State) (bytes : Bytes) (context : σ) (admission : Admission σ) :
    (consumeSynchronously s bytes context admission).frames = s.frames.step (.append bytes context admission) ∧
      (consumeSynchronously s bytes context admission).chunks = s.chunks ∧
      (consumeSynchronously s bytes context admission).incompleteStarted = (updateFrameDeadline
        { s with frames := s.frames.step (.append bytes context admission) } s.frames.reader.completedFrameCount).incompleteStarted := by
  have hf := updateFrameDeadline_fields { s with frames := s.frames.step (.append bytes context admission) }
    s.frames.reader.completedFrameCount
  rw [consumeSynchronously]
  split
  · exact ⟨hf.1, hf.2.1, rfl⟩
  · exact ⟨hf.1, hf.2.1, rfl⟩

lemma Splits.rest_unique {limit : ℕ} {x rest rest' : Bytes} {bodies : List Bytes} (h : Splits limit x bodies rest)
    (h' : Splits limit x bodies rest') : rest = rest' :=
  List.append_cancel_left (h.stream.symm.trans h'.stream)

lemma Inv.splits (h : Inv maxBodySize s) :
    ∃ rest, Splits maxBodySize.toNat s.frames.stream (s.frames.removed ++ s.frames.reader.completed) rest := by
  obtain ⟨bodies, result, hd, -, hkept⟩ := h.frames.kept
  obtain ⟨rest, hsplits, -⟩ := drain_splits maxBodySize.toNat_lt hd
  rw [(hkept h.terminal).1]
  exact ⟨rest, hsplits⟩

lemma appended_dates (h : Inv maxBodySize s) {chunk : Chunk} (haddr : s.frames.Addressable chunk.bytes) (context : σ)
    (admission : Admission σ)
    (hadmitted : (s.frames.step (.append chunk.bytes context admission)).reader.admissionTerminal = false) :
    ∃ newly rest, (s.frames.step (.append chunk.bytes context admission)).reader.completed =
        s.frames.reader.completed ++ newly ∧
      Splits maxBodySize.toNat (s.frames.stream ++ chunk.bytes) (s.frames.removed ++ s.frames.reader.completed ++ newly) rest ∧
      (updateFrameDeadline { s with
          currentBatchReceivedAt := chunk.receivedAt, frames := s.frames.step (.append chunk.bytes context admission),
          chunks := s.chunks ++ [chunk] } s.frames.reader.completedFrameCount).incompleteStarted =
        if rest = [] then 0 else if s.incompleteStarted = 0 ∨ newly ≠ [] then chunk.receivedAt + 1 else s.incompleteStarted := by
  obtain ⟨newly, result, ha⟩ := Session.append_appended h.frames h.terminal haddr context admission
  have hstep : (s.frames.step (.append chunk.bytes context admission)).reader =
    (s.frames.reader.append chunk.bytes context admission).2.1 := rfl
  have hnone : (admitted admission context newly).2.2 = false := ha.terminal.symm.trans hadmitted
  have hcompleted := ha.completed
  rw [(Session.admitted_front admission context newly).2 hnone] at hcompleted
  obtain ⟨rest, hsplits, hfail, hneed⟩ := drain_splits maxBodySize.toNat_lt ha.drain
  obtain ⟨r, hr, -, -, -, hends⟩ := ha.codec
  refine ⟨newly, rest, hcompleted, hsplits, ?_⟩
  obtain ⟨f, hf⟩ : ∃ f, f = (s.frames.step (.append chunk.bytes context admission)).reader := ⟨_, rfl⟩
  have hincomplete : hasIncompleteFrame f = true ↔ rest ≠ [] := by
    have hstands : Session.Stands f result := by
      rw [hf]
      simp only [Session.step, Session.Stands, hr]
      exact hends
    have hkept : ∀ r, f.reader = some r → r.Kept := by
      rw [hf]
      exact append_kept h.kept chunk.bytes context admission
    refine hasIncompleteFrame_iff hkept hstands (fun hn => ?_) hneed
    obtain ⟨n, hn, -⟩ := hfail.mp hn
    rintro rfl
    cases hn
  have hgrew : s.frames.reader.completedFrameCount < f.completedFrameCount ↔ newly ≠ [] := by
    rw [hf, hstep, FrameReader.completedFrameCount, FrameReader.completedFrameCount, hcompleted, List.length_append,
      ← List.length_pos_iff]
    omega
  have hfits : (chunk.receivedAt + 1) % sizeModulus = chunk.receivedAt + 1 := by
    have := chunk.representable
    apply Nat.mod_eq_of_lt
    unfold sizeModulus
    omega
  rw [updateFrameDeadline]
  simp only [← hf, hgrew, hfits]
  by_cases hrest : rest = []
  · rw [if_pos (by simpa using mt hincomplete.mp (not_not.mpr hrest)), if_pos hrest]
  · rw [if_neg (by simpa using hincomplete.mpr hrest), if_neg hrest]
    split_ifs <;> rfl

lemma Inv.consume (h : Inv maxBodySize s) (chunk : Chunk) (context : σ) (admission : Admission σ)
    (haddr : s.frames.Addressable chunk.bytes)
    (hadmitted : (consumeBytes timeout s chunk context admission).frames.reader.admissionTerminal = false) :
    Inv maxBodySize (consumeBytes timeout s chunk context admission) := by
  rw [consumeBytes] at hadmitted ⊢
  dsimp only at hadmitted ⊢
  split at hadmitted
  · rename_i hover
    rw [if_pos hover]
    exact ⟨h.frames, h.terminal, h.kept, h.stream, h.dated⟩
  rename_i hopen
  rw [if_neg hopen]
  split at hadmitted
  · rename_i hexpired
    rw [if_pos hexpired]
    exact ⟨h.frames, h.terminal, h.kept, h.stream, h.dated⟩
  rename_i hintime
  rw [if_neg hintime]
  obtain ⟨hframes, hchunks, hstarted⟩ := consumeSynchronously_fields { s with
    currentBatchReceivedAt := chunk.receivedAt, chunks := s.chunks ++ [chunk] } chunk.bytes context admission
  rw [hframes] at hadmitted
  obtain ⟨newly, rest', hcompleted, hsplits', hdeadline⟩ := appended_dates h haddr context admission hadmitted
  obtain ⟨rest, hsplits⟩ := h.splits
  refine ⟨?_, ?_, ?_, ?_, ?_⟩
  · rw [hframes]
    exact Session.inv_append h.frames haddr context admission
  · rw [hframes]
    exact hadmitted
  · rw [hframes]
    exact append_kept h.kept chunk.bytes context admission
  · rw [hframes, hchunks, chunkBytes_append, ← h.stream]
    simp [Session.step, chunkBytes]
  · intro rest'' hsplits''
    rw [hframes] at hsplits'' ⊢
    have hall : (s.frames.step (.append chunk.bytes context admission)).removed ++
        (s.frames.step (.append chunk.bytes context admission)).reader.completed =
          s.frames.removed ++ s.frames.reader.completed ++ newly := by
      rw [hcompleted, List.append_assoc]
      rfl
    dsimp only at hsplits''
    rw [hall] at hsplits''
    obtain rfl := Splits.rest_unique hsplits' hsplits''
    rw [hchunks, hstarted]
    dsimp only
    rw [hdeadline]
    exact dated_append h.stream hsplits hsplits' (h.dated rest hsplits)

lemma Inv.takeNextFrame (h : Inv maxBodySize s) : Inv maxBodySize (takeNextFrame s) := by
  have hsame : (FrameDeadline.takeNextFrame s).frames.removed ++ (FrameDeadline.takeNextFrame s).frames.reader.completed =
      s.frames.removed ++ s.frames.reader.completed := by
    simp only [FrameDeadline.takeNextFrame, Session.step, FrameReader.takeNextFrame]
    cases s.frames.reader.completed <;> simp [Except.toOption]
  have hreader : (FrameDeadline.takeNextFrame s).frames.reader.reader = s.frames.reader.reader ∧
      (FrameDeadline.takeNextFrame s).frames.reader.admissionTerminal = s.frames.reader.admissionTerminal := by
    simp only [FrameDeadline.takeNextFrame, Session.step, FrameReader.takeNextFrame]
    cases s.frames.reader.completed <;> exact ⟨rfl, rfl⟩
  refine ⟨Session.inv_step h.frames (.takeNextFrame : Operation Unit) (by simp), ?_, ?_, h.stream, ?_⟩
  · rw [hreader.2, h.terminal]
  · rw [hreader.1]
    exact h.kept
  · rw [hsame]
    exact h.dated

lemma inv_of_reached (h : Reached σ maxBodySize timeout s) : Inv maxBodySize s := by
  induction h with
  | start =>
    refine ⟨Session.inv_start maxBodySize, rfl, by rintro r ⟨⟩, rfl, ?_⟩
    intro rest hsplits
    have hempty : ([] : Bytes) = [] ++ rest := hsplits.stream
    have hrest : rest = [] := hempty.symm
    exact ⟨iff_of_true rfl hrest, fun hne => absurd hrest hne⟩
  | consume chunk context admission _ _ haddr hadmitted ih => exact ih.consume chunk context admission haddr hadmitted
  | takeNextFrame _ ih => exact ih.takeNextFrame

lemma frameExpired_iff {limit now incomplete : ℕ} : frameExpired limit now incomplete = true ↔
    incomplete ≠ 0 ∧ 0 < limit ∧ incomplete - 1 ≤ now ∧ limit ≤ now - (incomplete - 1) := by
  simp only [frameExpired, Bool.and_eq_true, decide_eq_true_eq]
  tauto

lemma timeout_expired (h : Inv maxBodySize s) {chunk : Chunk} (haddr : s.frames.Addressable chunk.bytes) {context : σ}
    {admission : Admission σ} (hopen : s.disconnected = none)
    (htimeout : (consumeBytes timeout s chunk context admission).disconnected = some (.failWithoutMessage .timeout)) :
    frameExpired timeout chunk.receivedAt s.incompleteStarted = true := by
  by_contra hintime
  obtain ⟨newly, result, ha⟩ := Session.append_appended h.frames h.terminal haddr context admission
  have hstatus : (s.frames.reader.append chunk.bytes context admission).1 ≠ .failWithoutMessage .timeout := by
    rw [ha.status]
    split <;> decide
  have hfields := (updateFrameDeadline_fields { s with
    currentBatchReceivedAt := chunk.receivedAt, chunks := s.chunks ++ [chunk],
    frames := s.frames.step (.append chunk.bytes context admission), disconnected := none }
      s.frames.reader.completedFrameCount).2.2.2
  simp only [consumeBytes, hopen, Option.isSome_none, Bool.false_eq_true, if_false, hintime, consumeSynchronously] at htimeout
  split at htimeout
  · exact hstatus (Option.some.inj htimeout)
  · rw [hfields] at htimeout
    cases htimeout

lemma consumeBytes_same (h : Inv maxBodySize s) (chunk : Chunk) (context : σ) (admission : Admission σ)
    (haddr : s.frames.Addressable chunk.bytes)
    (hadmitted : (consumeBytes timeout s chunk context admission).frames.reader.admissionTerminal = false)
    (hnew : (consumeBytes timeout s chunk context admission).frames.reader.completed = s.frames.reader.completed)
    (hstarted : s.incompleteStarted ≠ 0) :
    (consumeBytes timeout s chunk context admission).incompleteStarted = s.incompleteStarted := by
  rw [consumeBytes] at hadmitted hnew ⊢
  dsimp only at hadmitted hnew ⊢
  split at hadmitted
  · rename_i hover
    rw [if_pos hover]
  rename_i hopen
  rw [if_neg hopen] at hnew ⊢
  split at hadmitted
  · rename_i hexpired
    rw [if_pos hexpired]
  rename_i hintime
  rw [if_neg hintime] at hnew ⊢
  obtain ⟨hframes, hchunks, hdeadline⟩ := consumeSynchronously_fields { s with
    currentBatchReceivedAt := chunk.receivedAt, chunks := s.chunks ++ [chunk] } chunk.bytes context admission
  rw [hframes] at hadmitted hnew
  obtain ⟨newly, rest', hcompleted, hsplits', hvalue⟩ := appended_dates h haddr context admission hadmitted
  obtain ⟨rest, hsplits⟩ := h.splits
  have hnone : newly = [] := by simpa using hcompleted.symm.trans hnew
  have hrest : rest ≠ [] := mt (h.dated rest hsplits).1.mpr hstarted
  have hrest' : rest' ≠ [] := by
    rintro rfl
    have hlengths := congrArg List.length hsplits.stream
    have hlengths' := congrArg List.length hsplits'.stream
    have hpos := List.length_pos_iff.mpr hrest
    rw [hnone] at hlengths'
    simp only [List.append_nil, List.length_append] at hlengths hlengths'
    omega
  rw [hdeadline]
  dsimp only
  rw [hvalue, if_neg hrest', if_neg]
  exact not_or.mpr ⟨hstarted, not_not.mpr hnone⟩

/-- The deadline runs from the chunk with the first byte of the current incomplete frame: it is unset where
the bytes end with a frame, later bytes of the frame do not move it, and who is disconnected for time
held one frame back for the whole timeout. -/
theorem deadline_measures_frame (h : Reached σ maxBodySize timeout s) :
    ∃ bodies rest, Splits maxBodySize.toNat (chunkBytes s.chunks) bodies rest ∧
      (s.incompleteStarted = 0 ↔ rest = []) ∧
      (rest ≠ [] → ∃ first, Holds s.chunks ((chunkBytes s.chunks).length - rest.length) first ∧
        s.incompleteStarted = first.receivedAt + 1) ∧
      (∀ limit now, frameExpired limit now s.incompleteStarted = true →
        ∃ first, Holds s.chunks ((chunkBytes s.chunks).length - rest.length) first ∧ first.receivedAt + limit ≤ now) ∧
      ∀ (chunk : Chunk) (context : σ) (admission : Admission σ), s.frames.Addressable chunk.bytes →
        (s.disconnected = none →
          (consumeBytes timeout s chunk context admission).disconnected = some (.failWithoutMessage .timeout) →
          ∃ first, Holds s.chunks ((chunkBytes s.chunks).length - rest.length) first ∧
            first.receivedAt + timeout ≤ chunk.receivedAt) ∧
        ((consumeBytes timeout s chunk context admission).frames.reader.admissionTerminal = false →
          (consumeBytes timeout s chunk context admission).frames.reader.completed = s.frames.reader.completed →
          s.incompleteStarted ≠ 0 →
          (consumeBytes timeout s chunk context admission).incompleteStarted = s.incompleteStarted) := by
  have hinv := inv_of_reached h
  obtain ⟨rest, hsplits⟩ := hinv.splits
  obtain ⟨hzero, hfirst⟩ := hinv.dated rest hsplits
  rw [hinv.stream] at hsplits hfirst
  have hexpired (limit now : ℕ) (hexpired : frameExpired limit now s.incompleteStarted = true) :
      ∃ first, Holds s.chunks ((chunkBytes s.chunks).length - rest.length) first ∧ first.receivedAt + limit ≤ now := by
    obtain ⟨hstarted, -, hnow, hlimit⟩ := frameExpired_iff.mp hexpired
    obtain ⟨first, hholds, hvalue⟩ := hfirst (mt hzero.mpr hstarted)
    exact ⟨first, hholds, by omega⟩
  refine ⟨_, rest, hsplits, hzero, hfirst, hexpired, ?_⟩
  intro chunk context admission haddr
  refine ⟨?_, fun hadmitted hnew hstarted => consumeBytes_same hinv chunk context admission haddr hadmitted hnew hstarted⟩
  intro hopen htimeout
  exact hexpired timeout chunk.receivedAt (timeout_expired hinv haddr hopen htimeout)

def firstHalf : Chunk := ⟨[2, 0], 5, by decide⟩

theorem deadline_measures_frame_started :
    (consumeBytes 60 (initial 4) firstHalf () (none : Admission Unit)).incompleteStarted = 6 := by
  have hconsumed : consumeBytes 60 (initial 4) firstHalf () (none : Admission Unit) =
      consumeSynchronously { initial 4 with currentBatchReceivedAt := 5, chunks := [firstHalf] } [2, 0] () none := rfl
  obtain ⟨hframes, hchunks, -⟩ := consumeSynchronously_fields { initial 4 with
    currentBatchReceivedAt := 5, chunks := [firstHalf] } [2, 0] () (none : Admission Unit)
  have haddr : (initial 4).frames.Addressable [2, 0] := by
    simp only [Session.Addressable]
    decide
  obtain ⟨newly, result, ha⟩ := Session.append_appended (Session.inv_start 4) rfl haddr () (none : Admission Unit)
  have hadmitted : (consumeBytes 60 (initial 4) firstHalf () (none : Admission Unit)).frames.reader.admissionTerminal =
      false := by
    rw [hconsumed, hframes]
    exact ha.terminal.trans (congrArg (fun x => x.2.2) (admitted_none () newly))
  have hreached : Reached Unit 4 60 (consumeBytes 60 (initial 4) firstHalf () (none : Admission Unit)) :=
    .consume firstHalf () none .start (Nat.zero_le _) haddr hadmitted
  obtain ⟨bodies, rest, hsplits, -, hfirst, -⟩ := deadline_measures_frame hreached
  rw [hconsumed] at hsplits hfirst ⊢
  rw [hchunks] at hsplits hfirst
  have hlengths := congrArg List.length hsplits.stream
  simp only [List.length_append] at hlengths
  have htwo : (chunkBytes [firstHalf]).length = 2 := rfl
  have hrest : rest ≠ [] := by
    rintro rfl
    cases bodies with
    | nil => simp [htwo] at hlengths
    | cons body bodies =>
      have hheader : headerSize = 4 := rfl
      rw [List.map_cons, List.flatten_cons, List.length_append, frame_length] at hlengths
      simp only [htwo, List.length_nil] at hlengths
      omega
  obtain ⟨first, ⟨x, y, hsplit, -, -⟩, hvalue⟩ := hfirst hrest
  have hsplit : [firstHalf] = x ++ first :: y := hsplit
  have hmem : first ∈ [firstHalf] := by
    rw [hsplit]
    simp
  rw [hvalue, List.mem_singleton.mp hmem]
  rfl

end Steps

end ServerCore.Runtime.FrameDeadline
