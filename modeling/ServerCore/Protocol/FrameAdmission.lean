import ServerCore.Protocol.FrameReader

/-! What the reader keeps: the bodies that left the queue and those still in it are, in wire order,
the admitted front of the bodies of the stream. -/

namespace ServerCore.Protocol

open ServerCore.Core ServerCore.Foundations.StreamDecoder FrameCodec

section Copying

variable {σ : Type*} {admission : Admission σ} {f : FrameReader} {context : σ}

def bodyBytes (bodies : List Bytes) : ℕ := (bodies.map List.length).sum

@[simp] lemma bodyBytes_nil : bodyBytes [] = 0 := rfl

@[simp] lemma bodyBytes_cons (body : Bytes) (bodies : List Bytes) :
    bodyBytes (body :: bodies) = body.length + bodyBytes bodies := by
  simp [bodyBytes]

@[simp] lemma bodyBytes_append (a b : List Bytes) : bodyBytes (a ++ b) = bodyBytes a + bodyBytes b := by
  simp [bodyBytes]

lemma foldl_rejected (h : f.callbackAdmissionRejected = true) (bodies : List Bytes) :
    bodies.foldl (FrameReader.copyCompletedFrame admission) (f, context) = (f, context) := by
  induction bodies with
  | nil => rfl
  | cons body bodies ih =>
    rw [List.foldl_cons]
    simp only [FrameReader.copyCompletedFrame, h, Bool.or_true, ↓reduceIte]
    exact ih

lemma admitted_none (context : σ) (bodies : List Bytes) : admitted none context bodies = (bodies, context, false) := by
  cases bodies <;> rfl

lemma foldl_copy (bodies : List Bytes) (ha : f.callbackAllocationFailed = false)
    (hr : f.callbackAdmissionRejected = false) (hfit : f.completedBodyBytes + bodyBytes bodies < sizeModulus) :
    bodies.foldl (FrameReader.copyCompletedFrame admission) (f, context) =
      ({ f with
        completed := f.completed ++ (admitted admission context bodies).1
        completedBodyBytes := f.completedBodyBytes + bodyBytes (admitted admission context bodies).1
        callbackAdmissionRejected := (admitted admission context bodies).2.2 },
        (admitted admission context bodies).2.1) := by
  induction bodies generalizing f context with
  | nil =>
    simp only [List.foldl_nil, admitted, List.append_nil, bodyBytes_nil, Nat.add_zero, ← hr]
  | cons body bodies ih =>
    rw [bodyBytes_cons] at hfit
    have hroom : ¬ sizeModulus - 1 - f.completedBodyBytes < body.length := by omega
    rw [List.foldl_cons]
    cases admission with
    | none =>
      simp only [FrameReader.copyCompletedFrame, ha, hr, Bool.or_self, Bool.false_eq_true, ↓reduceIte, hroom]
      rw [ih (by rfl) (by rfl) (by simp only; omega)]
      simp only [admitted_none, List.append_assoc, List.singleton_append, bodyBytes_cons, Nat.add_assoc]
    | some ask =>
      rcases hask : ask context body.length with ⟨accepted, context'⟩
      cases accepted with
      | true =>
        simp only [FrameReader.copyCompletedFrame, ha, hr, Bool.or_self, Bool.false_eq_true, ↓reduceIte, hroom, hask]
        rw [ih (by rfl) (by rfl) (by simp only; omega)]
        simp only [admitted, hask, List.append_assoc, List.singleton_append, bodyBytes_cons, Nat.add_assoc]
      | false =>
        simp only [FrameReader.copyCompletedFrame, ha, hr, Bool.or_self, Bool.false_eq_true, ↓reduceIte, hroom, hask]
        rw [foldl_rejected rfl]
        simp only [admitted, hask, List.append_nil, bodyBytes_nil, Nat.add_zero]

end Copying

lemma bodyBytes_le {limit : ℕ} (hl : limit < 2 ^ 32) {x : Bytes} {bodies : List Bytes} {result : Option (Unit × Bytes)}
    (h : Drain (frameStep limit) () x bodies result) : bodyBytes bodies ≤ x.length := by
  obtain ⟨rest, hsplits, -⟩ := drain_splits hl h
  rw [hsplits.stream, List.length_append]
  clear hsplits h
  induction bodies with
  | nil => simp
  | cons body bodies ih =>
    simp only [bodyBytes_cons, List.map_cons, List.flatten_cons, List.length_append, frame_length] at ih ⊢
    omega

namespace Session

def Stands (f : FrameReader) (result : Option (Unit × Bytes)) : Prop :=
  match f.reader with
  | none => result = some ((), [])
  | some r => Reader.Ends r.terminalError r result

structure Inv (maxBodySize : UInt32) (s : Session) : Prop where
  max : s.reader.maxBodySize = maxBodySize
  bytes : s.reader.completedBodyBytes = bodyBytes s.reader.completed
  codec : ∀ r, s.reader.reader = some r →
    headerSize + maxBodySize.toNat ≤ r.storage.length ∧ r.maxBodySize = maxBodySize ∧ r.invokingCallback = false
  kept : ∃ bodies result, Drain (frameStep maxBodySize.toNat) () s.stream bodies result ∧
    s.removed ++ s.reader.completed <+: bodies ∧
    (s.reader.admissionTerminal = false → s.removed ++ s.reader.completed = bodies ∧ Stands s.reader result)

variable {σ : Type*} {maxBodySize : UInt32} {s : Session}

lemma ensureReader_stands (h : s.Inv maxBodySize) {result : Option (Unit × Bytes)} (hs : Stands s.reader result) :
    headerSize + maxBodySize.toNat ≤ s.reader.ensureReader.1.storage.length ∧
      s.reader.ensureReader.1.maxBodySize = maxBodySize ∧ s.reader.ensureReader.1.invokingCallback = false ∧
      s.reader.ensureReader.2 = toStatus .none ∧ s.reader.ensureReader.1.unread = unread s.reader ∧
      Reader.Ends s.reader.ensureReader.1.terminalError s.reader.ensureReader.1 result := by
  cases hr : s.reader.reader with
  | none =>
    have hsize : headerSize + maxBodySize.toNat ≤ (List.replicate (headerSize + maxBodySize.toNat) (0 : Byte)).length := by
      simp
    have hterm := Reader.create_terminalError hsize
    have hunread := Reader.create_unread (List.replicate (headerSize + maxBodySize.toNat) 0) maxBodySize
    have hfinish := (Reader.finish_none_iff _).mpr ⟨hterm, hunread⟩
    simp only [Stands, hr] at hs
    subst hs
    simp only [FrameReader.ensureReader, hr, h.max, unread, Option.map_none, Option.getD_none]
    refine ⟨hsize, rfl, rfl, by rw [hfinish], hunread, ?_⟩
    rw [hterm]
    exact hunread ▸ Reader.Ends.blocked rfl hterm
  | some r =>
    obtain ⟨h₁, h₂, h₃⟩ := h.codec r hr
    simp only [Stands, hr] at hs
    simp only [FrameReader.ensureReader, hr, unread, Option.map_some, Option.getD_some]
    exact ⟨h₁, h₂, h₃, trivial, trivial, hs⟩

/-- What one `Append` does before a refusal: `newly` are the bodies that its bytes complete. -/
structure Appended (s : Session) (bytes : Bytes) (context : σ) (admission : Admission σ) (maxBodySize : UInt32)
    (newly : List Bytes) (result : Option (Unit × Bytes)) : Prop where
  drain : Drain (frameStep maxBodySize.toNat) () (s.stream ++ bytes) (s.removed ++ s.reader.completed ++ newly) result
  completed : (s.reader.append bytes context admission).2.1.completed =
    s.reader.completed ++ (admitted admission context newly).1
  retained : (s.reader.append bytes context admission).2.1.completedBodyBytes =
    s.reader.completedBodyBytes + bodyBytes (admitted admission context newly).1
  asked : (s.reader.append bytes context admission).2.2 = (admitted admission context newly).2.1
  terminal : (s.reader.append bytes context admission).2.1.admissionTerminal = (admitted admission context newly).2.2
  status : (s.reader.append bytes context admission).1 =
    if (admitted admission context newly).2.2 ∨ result = none then toStatus .tooLarge else toStatus .none
  max : (s.reader.append bytes context admission).2.1.maxBodySize = maxBodySize
  codec : ∃ r, (s.reader.append bytes context admission).2.1.reader = some r ∧
    headerSize + maxBodySize.toNat ≤ r.storage.length ∧ r.maxBodySize = maxBodySize ∧ r.invokingCallback = false ∧
      Reader.Ends r.terminalError r result

lemma codec_append {r : Reader} (hsize : headerSize + maxBodySize.toNat ≤ r.storage.length)
    (hmax : r.maxBodySize = maxBodySize) (hidle : r.invokingCallback = false) {x : Bytes} {old : List Bytes}
    {result : Option (Unit × Bytes)} (hd : Drain (frameStep maxBodySize.toNat) () x old result)
    (hends : Reader.Ends r.terminalError r result) (run : σ → Bytes → σ) (context : σ) (bytes : Bytes) :
    ∃ outcome r' newly result', r.append bytes context (some (.plain run)) = (outcome, r', newly.foldl run context) ∧
      Drain (frameStep maxBodySize.toNat) () (x ++ bytes) (old ++ newly) result' ∧
      bodyBytes newly ≤ r.unread.length + bytes.length ∧
      Reader.Ends r'.terminalError r' result' ∧ Reader.Ends outcome.error r' result' ∧
      headerSize + maxBodySize.toNat ≤ r'.storage.length ∧ r'.maxBodySize = maxBodySize ∧ r'.invokingCallback = false := by
  have hresumable := frameStep_resumable maxBodySize.toNat
  cases hends with
  | failed _ hterm =>
    refine ⟨⟨.tooLarge, 0⟩, r, [], none, ?_, ?_, by simp, .failed hterm hterm, .failed rfl hterm, hsize, hmax, hidle⟩
    · simp [Reader.append, Reader.refuse, hterm]
    · rw [List.append_nil]
      exact hresumable.drain_append_fail trivial hd
  | blocked _ hterm =>
    obtain ⟨outcome, r', newly, result', ha, hsame, hd', he, -⟩ :=
      Reader.append_drain run r context bytes (by rwa [hmax]) hterm hidle
    rw [hmax] at hd'
    obtain ⟨result'', hall, hrel⟩ := hresumable.drain_append trivial hd hd'
    have hall' : Drain (frameStep maxBodySize.toNat) () (x ++ bytes) (old ++ newly) result' := by
      cases hrel with
      | blocked h => exact h ▸ hall
      | failed => exact hall
    have hbytes := bodyBytes_le maxBodySize.toNat_lt hd'
    rw [List.length_append] at hbytes
    refine ⟨outcome, r', newly, result', ha, hall', hbytes, ?_, he, by rwa [hsame.size], hsame.max.trans hmax,
      hsame.idle.trans hidle⟩
    cases he with
    | blocked _ ht => exact .blocked ht ht
    | failed _ ht => exact .failed ht ht

lemma append_appended (h : s.Inv maxBodySize) (ht : s.reader.admissionTerminal = false) {bytes : Bytes}
    (haddr : s.Addressable bytes) (context : σ) (admission : Admission σ) :
    ∃ newly result, s.Appended bytes context admission maxBodySize newly result := by
  obtain ⟨bodies, result, hd, -, hkept⟩ := h.kept
  obtain ⟨rfl, hstands⟩ := hkept ht
  obtain ⟨hsize, hmax, hidle, hstatus, hunread, hends⟩ := ensureReader_stands h hstands
  rcases hensure : s.reader.ensureReader with ⟨r, prepared⟩
  rw [hensure] at hsize hmax hidle hstatus hunread hends
  simp only at hsize hmax hidle hstatus hunread hends
  subst hstatus
  set f : FrameReader := { s.reader with
    reader := some r, callbackAllocationFailed := false, callbackAdmissionRejected := false } with hf
  obtain ⟨outcome, r', newly, result', ha, hall, hbytes, hends', houtcome, hsize', hmax', hidle'⟩ :=
    codec_append hsize hmax hidle hd hends (FrameReader.copyCompletedFrame admission) (f, context) bytes
  have hfit : f.completedBodyBytes + bodyBytes newly < sizeModulus := by
    simp only [Addressable] at haddr
    rw [hunread] at hbytes
    simp only [hf]
    omega
  rw [foldl_copy newly rfl rfl hfit] at ha
  have happend : s.reader.append bytes context admission =
      (if (admitted admission context newly).2.2 then toStatus .tooLarge else toStatus outcome.error,
        { s.reader with
          reader := some r'
          completed := s.reader.completed ++ (admitted admission context newly).1
          completedBodyBytes := s.reader.completedBodyBytes + bodyBytes (admitted admission context newly).1
          callbackAllocationFailed := false
          callbackAdmissionRejected := (admitted admission context newly).2.2
          admissionTerminal := (admitted admission context newly).2.2 }, (admitted admission context newly).2.1) := by
    have hok : ¬ (toStatus .none).code ≠ .ok := by decide
    rw [FrameReader.append, if_neg (by simp [ht]), hensure]
    simp only
    rw [if_neg hok, ha]
    cases hrefused : (admitted admission context newly).2.2 with
    | true => rfl
    | false =>
      simp only [hf, Bool.false_eq_true, ↓reduceIte, ht]
  refine ⟨newly, result', ⟨hall, by rw [happend], by rw [happend], by rw [happend], by rw [happend], ?_,
    by rw [happend]; exact h.max, ⟨r', by rw [happend], hsize', hmax', hidle', hends'⟩⟩⟩
  rw [happend]
  cases (admitted admission context newly).2.2 with
  | true => simp
  | false =>
    cases houtcome with
    | blocked herr _ => simp [herr]
    | failed herr _ => simp [herr]

lemma append_terminal (ht : s.reader.admissionTerminal = true) (bytes : Bytes) (context : σ) (admission : Admission σ) :
    s.reader.append bytes context admission = (toStatus .tooLarge, s.reader, context) := by
  rw [FrameReader.append, if_pos ht]

lemma drain_longer {limit : UInt32} {x : Bytes} {bodies : List Bytes} {result : Option (Unit × Bytes)}
    (hd : Drain (frameStep limit.toNat) () x bodies result) (y : Bytes) :
    ∃ more result', Drain (frameStep limit.toNat) () (x ++ y) (bodies ++ more) result' := by
  have hresumable := frameStep_resumable limit.toNat
  cases result with
  | none => exact ⟨[], none, by rw [List.append_nil]; exact hresumable.drain_append_fail trivial hd⟩
  | some last =>
    obtain ⟨⟨⟩, rest⟩ := last
    obtain ⟨-, -, more, result', -, hmore, -⟩ := Reader.create_drain (fun (_ : Unit) _ => ()) ()
      (List.replicate (headerSize + limit.toNat) 0) limit (by simp) [rest ++ y]
    rw [List.flatten_cons, List.flatten_nil, List.append_nil] at hmore
    obtain ⟨result'', hall, -⟩ := hresumable.drain_append trivial hd hmore
    exact ⟨more, result'', hall⟩

lemma admitted_front (admission : Admission σ) (context : σ) (bodies : List Bytes) :
    (admitted admission context bodies).1 <+: bodies ∧
      ((admitted admission context bodies).2.2 = false → (admitted admission context bodies).1 = bodies) := by
  induction bodies generalizing context with
  | nil => exact ⟨List.prefix_refl _, fun _ => rfl⟩
  | cons body bodies ih =>
    cases admission with
    | none => exact ⟨List.prefix_refl _, fun _ => rfl⟩
    | some ask =>
      rcases hask : ask context body.length with ⟨accepted, context'⟩
      cases accepted with
      | true =>
        simp only [admitted, hask]
        exact ⟨List.prefix_cons_inj body |>.mpr (ih context').1, fun hr => by rw [(ih context').2 hr]⟩
      | false =>
        simp only [admitted, hask]
        exact ⟨List.nil_prefix, by simp⟩

lemma inv_start (maxBodySize : UInt32) : Inv maxBodySize ⟨.create maxBodySize, [], []⟩ where
  max := rfl
  bytes := rfl
  codec := by rintro r ⟨⟩
  kept := ⟨[], _, .need (frameStep_need_iff.mpr ⟨rfl, by simp [announced]⟩), List.prefix_refl _, fun _ => ⟨rfl, rfl⟩⟩

lemma inv_append (h : s.Inv maxBodySize) {bytes : Bytes} (haddr : s.Addressable bytes) (context : σ)
    (admission : Admission σ) : (s.step (.append bytes context admission)).Inv maxBodySize := by
  cases ht : s.reader.admissionTerminal with
  | true =>
    obtain ⟨bodies, result, hd, hfront, -⟩ := h.kept
    obtain ⟨more, result', hmore⟩ := drain_longer hd bytes
    have hsame : (s.step (.append bytes context admission)).reader = s.reader := by
      rw [step, append_terminal ht]
    refine ⟨hsame ▸ h.max, hsame ▸ h.bytes, hsame ▸ h.codec, bodies ++ more, result', hmore, ?_, ?_⟩
    · rw [hsame]
      exact hfront.trans (List.prefix_append _ _)
    · rw [hsame, ht]
      exact nofun
  | false =>
    obtain ⟨newly, result, ha⟩ := append_appended h ht haddr context admission
    obtain ⟨hfront, hall⟩ := admitted_front admission context newly
    obtain ⟨r, hr, hsize, hmax, hidle, hends⟩ := ha.codec
    refine ⟨ha.max, ?_, fun r' hr' => ?_, _, result, ha.drain, ?_, fun hterm => ?_⟩
    · simp only [step]
      rw [ha.retained, ha.completed, bodyBytes_append, h.bytes]
    · obtain rfl := Option.some.inj (hr.symm.trans hr')
      exact ⟨hsize, hmax, hidle⟩
    · simp only [step]
      rw [ha.completed, ← List.append_assoc]
      exact (List.prefix_append_right_inj _).mpr hfront
    · simp only [step] at hterm ⊢
      rw [ha.terminal] at hterm
      rw [ha.completed, hall hterm, ← List.append_assoc]
      exact ⟨rfl, by simpa only [Stands, hr] using hends⟩

lemma inv_remove (h : s.Inv maxBodySize) {f : FrameReader} {bodies : List Bytes} (hmax : f.maxBodySize = s.reader.maxBodySize)
    (hreader : f.reader = s.reader.reader) (hterm : f.admissionTerminal = s.reader.admissionTerminal)
    (hqueue : s.reader.completed = bodies ++ f.completed)
    (hbytes : f.completedBodyBytes = s.reader.completedBodyBytes - bodyBytes bodies) :
    Inv maxBodySize { s with reader := f, removed := s.removed ++ bodies } := by
  obtain ⟨all, result, hd, hfront, hkept⟩ := h.kept
  have hsame : s.removed ++ bodies ++ f.completed = s.removed ++ s.reader.completed := by
    rw [List.append_assoc, ← hqueue]
  refine ⟨hmax.trans h.max, ?_, fun r hr => h.codec r (hreader ▸ hr), all, result, hd, ?_, ?_⟩
  · simp only [hbytes, h.bytes, hqueue, bodyBytes_append]
    omega
  · simpa only [hsame] using hfront
  · simpa only [hsame, hterm, Stands, hreader] using hkept

lemma inv_step (h : s.Inv maxBodySize) (operation : Operation σ)
    (haddr : ∀ bytes context admission, operation = .append bytes context admission → s.Addressable bytes) :
    (s.step operation).Inv maxBodySize := by
  cases operation with
  | append bytes context admission => exact inv_append h (haddr bytes context admission rfl) context admission
  | nextFrame =>
    apply inv_remove h <;> simp only [FrameReader.nextFrame] <;> cases s.reader.completed <;>
      simp [Except.toOption]
  | takeNextFrame =>
    apply inv_remove h <;> simp only [FrameReader.takeNextFrame] <;> cases s.reader.completed <;>
      simp [Except.toOption]
  | discardCompletedFrames =>
    apply inv_remove h <;> simp only [FrameReader.discardCompletedFrames, List.append_nil]
    rw [h.bytes, Nat.sub_self]
  | releaseStorage =>
    have hmax := h.max
    simp only [step, FrameReader.releaseStorage, FrameReader.discardCompletedFrames, hmax]
    exact inv_start maxBodySize

lemma Reaches.inv (h : Reaches σ maxBodySize s) : s.Inv maxBodySize := by
  induction h with
  | start => exact inv_start maxBodySize
  | step operation _ haddr ih => exact inv_step ih operation haddr

lemma step_terminal (ht : s.reader.admissionTerminal = true) {operation : Operation σ} (hop : operation ≠ .releaseStorage) :
    (s.step operation).reader.admissionTerminal = true ∧
      (s.step operation).removed ++ (s.step operation).reader.completed = s.removed ++ s.reader.completed := by
  cases operation with
  | append bytes context admission =>
    simp only [step, append_terminal ht]
    exact ⟨ht, trivial⟩
  | nextFrame =>
    simp only [step, FrameReader.nextFrame]
    cases s.reader.completed <;> simp [ht, Except.toOption]
  | takeNextFrame =>
    simp only [step, FrameReader.takeNextFrame]
    cases s.reader.completed <;> simp [ht, Except.toOption]
  | discardCompletedFrames => simp [step, FrameReader.discardCompletedFrames, ht]
  | releaseStorage => exact absurd rfl hop

lemma run_terminal (ht : s.reader.admissionTerminal = true) (operations : List (Operation σ))
    (hops : ∀ operation ∈ operations, operation ≠ .releaseStorage) :
    (operations.foldl step s).reader.admissionTerminal = true ∧
      (operations.foldl step s).removed ++ (operations.foldl step s).reader.completed =
        s.removed ++ s.reader.completed := by
  induction operations generalizing s with
  | nil => exact ⟨ht, rfl⟩
  | cons operation operations ih =>
    obtain ⟨ht', hsame⟩ := step_terminal ht (hops operation (by simp))
    obtain ⟨hterm, heq⟩ := ih ht' fun op hop => hops op (by simp [hop])
    exact ⟨hterm, heq.trans hsame⟩

/-- In every reachable state: the counters are the queue's; what left the queue and what is in it are
the admitted front of the stream's bodies; an `Append` keeps the bodies up to the first refusal; and
a refusal is final until the storage is released. -/
theorem frames_kept (h : Reaches σ maxBodySize s) :
    (s.reader.completedBodyBytes = bodyBytes s.reader.completed ∧
      s.reader.completedFrameCount = s.reader.completed.length) ∧
    (∃ bodies rest, Splits maxBodySize.toNat s.stream bodies rest ∧ s.removed ++ s.reader.completed <+: bodies ∧
      (s.reader.admissionTerminal = false → s.removed ++ s.reader.completed = bodies)) ∧
    (∀ body rest, s.reader.completed = body :: rest →
      s.reader.nextFrame.1 = .ok body ∧ s.reader.nextFrame.2.completed = rest ∧
      s.reader.takeNextFrame.1 = .ok body ∧ s.reader.takeNextFrame.2.completed = rest) ∧
    (∀ (bytes : Bytes) (context : σ) (admission : Admission σ), s.Addressable bytes →
      s.reader.admissionTerminal = false →
      ∃ newly rest, Splits maxBodySize.toNat (s.stream ++ bytes) (s.removed ++ s.reader.completed ++ newly) rest ∧
        let (status, reader, context') := s.reader.append bytes context admission
        let (kept, asked, refused) := admitted admission context newly
        reader.completed = s.reader.completed ++ kept ∧ context' = asked ∧ reader.admissionTerminal = refused ∧
          (refused = true → status = toStatus .tooLarge)) ∧
    (s.reader.admissionTerminal = true →
      s.reader.finish = toStatus .tooLarge ∧
      (∀ (bytes : Bytes) (context : σ) (admission : Admission σ),
        s.reader.append bytes context admission = (toStatus .tooLarge, s.reader, context)) ∧
      ∀ operations : List (Operation σ), (∀ operation ∈ operations, operation ≠ .releaseStorage) →
        (operations.foldl step s).reader.admissionTerminal = true ∧
        (operations.foldl step s).removed ++ (operations.foldl step s).reader.completed =
          s.removed ++ s.reader.completed) ∧
    s.reader.releaseStorage = FrameReader.create maxBodySize := by
  have hinv := h.inv
  have hlimit : maxBodySize.toNat < 2 ^ 32 := maxBodySize.toNat_lt
  refine ⟨⟨hinv.bytes, rfl⟩, ?_, fun body rest hq => ?_, fun bytes context admission haddr ht => ?_, fun ht => ?_, ?_⟩
  · obtain ⟨bodies, result, hd, hfront, hkept⟩ := hinv.kept
    obtain ⟨rest, hsplits, -⟩ := drain_splits hlimit hd
    exact ⟨bodies, rest, hsplits, hfront, fun ht => (hkept ht).1⟩
  · simp only [FrameReader.nextFrame, FrameReader.takeNextFrame, hq]
    exact ⟨trivial, trivial, trivial, trivial⟩
  · obtain ⟨newly, result, ha⟩ := append_appended hinv ht haddr context admission
    obtain ⟨rest, hsplits, -⟩ := drain_splits hlimit ha.drain
    exact ⟨newly, rest, hsplits, ha.completed, ha.asked, ha.terminal,
      fun hrefused => ha.status.trans (if_pos (.inl hrefused))⟩
  · refine ⟨?_, append_terminal ht, fun operations => run_terminal ht operations⟩
    rw [FrameReader.finish, if_pos ht]
  · have hmax := hinv.max
    rw [← hmax]
    rfl

/-- A fresh reader given two bodies and a predicate that counts its questions and refuses bodies of
more than one byte. -/
theorem frames_kept_fresh : ∃ newly rest,
    Splits (UInt32.toNat 4) ([] ++ (frame [7] ++ frame [8, 9])) ([] ++ [] ++ newly) rest ∧
      ((FrameReader.create 4).append (frame [7] ++ frame [8, 9]) 0 (some fun asked n => (decide (n ≤ 1), asked + 1))).2.2 =
        (admitted (some fun asked n => (decide (n ≤ 1), asked + 1)) 0 newly).2.1 := by
  obtain ⟨newly, rest, hsplits, -, hasked, -⟩ := (frames_kept (Reaches.start : Reaches ℕ 4 _)).2.2.2.1
    (frame [7] ++ frame [8, 9]) 0 (some fun asked n => (decide (n ≤ 1), asked + 1)) (by simp only [Addressable]; decide) rfl
  exact ⟨newly, rest, hsplits, hasked⟩

end Session

end ServerCore.Protocol
