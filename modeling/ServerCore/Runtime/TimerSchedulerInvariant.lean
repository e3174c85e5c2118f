import ServerCore.Runtime.TimerScheduler

/-! The flags of `TimerScheduler` and its invocations in every reachable state. -/

namespace ServerCore.Runtime.TimerScheduler

open ServerCore.Core ServerCore.Foundations

def Timer.verdict (t : Timer) : ErrorCode := if t.cancelledAtClaim then .cancelled else t.lastCode.getD .ok

structure Consistent (t : Timer) : Prop where
  offered : t.admitted = true → t.offered = true
  waiting : t.admitted = false →
    t.inFlight = false ∧ t.completionReady = false ∧ t.retiring = false ∧ t.terminal = false
  flight : t.inFlight = true → t.retiring = false ∧ t.dispatchedDue = some t.due
  ready : t.completionReady = true → t.lastCode = some t.completionCode
  claims : t.claims = t.retiring.toNat
  claimed : t.retiring = true → t.cancelledAtClaim = false → t.lastCode.isSome = true
  terminal : t.terminal = true → t.retiring = true ∧ t.result = t.verdict

structure LiveOk (t : Timer) (thread : Thread) (e : ℕ) (task : Invocation) : Prop where
  inFlight : t.inFlight = true
  completionReady : t.completionReady = false
  completed : ∀ code, task.completed = some code → t.lastCode = some code
  unobserved : task.observer = none → thread = .submitted task.timer e ∨ thread = .observing task.timer e
  observed : ∀ observer, task.observer = some observer →
    t.published = true ∧ t.subscription = observer ∧ t.subscriptionPending = true

def State.Live (s : State) (i e : ℕ) : Prop := e < s.executor.count ∧ (s.task e).delivered = false ∧ (s.task e).timer = i

namespace Thread

def timer? : Thread → Option ℕ
  | signalling _ | looping | finished => none
  | dispatching i | submitted i _ | refused i _ | observing i _ | retiring i _ => some i

def Dispatches (thread : Thread) (i : ℕ) : Prop :=
  thread = .dispatching i ∨ (∃ e, thread = .submitted i e) ∨ (∃ code, thread = .refused i code) ∨
    ∃ e, thread = .observing i e

lemma Dispatches.timer {thread : Thread} {i : ℕ} (h : thread.Dispatches i) : thread.timer? = some i := by
  rcases h with rfl | ⟨e, rfl⟩ | ⟨code, rfl⟩ | ⟨e, rfl⟩ <;> rfl

structure Flying (s : State) (i : ℕ) : Prop where
  mem : i ∈ s.timers
  inFlight : (s.timer i).inFlight = true
  completionReady : (s.timer i).completionReady = false

structure Attached (s : State) (i e : ℕ) : Prop extends Flying s i where
  live : s.Live i e
  observer : (s.task e).observer = none
  subscriptionPending : (s.timer i).subscriptionPending = true

def Ok (s : State) : Thread → Prop
  | dispatching i => Flying s i ∧ ∀ e, ¬ s.Live i e
  | refused i code => Flying s i ∧ (∀ e, ¬ s.Live i e) ∧ code ≠ .ok ∧
      (code ≠ .wouldBlock → (s.timer i).lastCode = some code)
  | submitted i e => Attached s i e
  | observing i e => Attached s i e ∧ (s.timer i).published = true
  | retiring i code => i ∈ s.timers ∧ (s.timer i).retiring = true ∧ (s.timer i).verdict = code
  | _ => True

lemma Ok.frame {s : State} {thread : Thread} (h : thread.Ok s) (s' : State) (hexec : s'.executor = s.executor)
    (hrow : ∀ i ∈ s.timers, thread.timer? = some i → i ∈ s'.timers ∧ s'.timer i = s.timer i) : thread.Ok s' := by
  have hlive (i e : ℕ) : s'.Live i e ↔ s.Live i e := by
    rw [State.Live, State.Live, State.task, hexec]
  have hflying {i : ℕ} (hf : Flying s i) (ht : thread.timer? = some i) : Flying s' i := by
    obtain ⟨hmem, heq⟩ := hrow i hf.mem ht
    exact ⟨hmem, heq ▸ hf.inFlight, heq ▸ hf.completionReady⟩
  have hattached {i e : ℕ} (ha : Attached s i e) (ht : thread.timer? = some i) : Attached s' i e := by
    refine ⟨hflying ha.toFlying ht, (hlive i e).mpr ha.live, ?_, (hrow i ha.mem ht).2 ▸ ha.subscriptionPending⟩
    rw [State.task, hexec]
    exact ha.observer
  cases thread with
  | dispatching i => exact ⟨hflying h.1 rfl, fun e hl => h.2 e ((hlive i e).mp hl)⟩
  | refused i code =>
    obtain ⟨hf, hn, hcode, hlast⟩ := h
    exact ⟨hflying hf rfl, fun e hl => hn e ((hlive i e).mp hl), hcode, (hrow i hf.mem rfl).2 ▸ hlast⟩
  | submitted i e => exact hattached h rfl
  | observing i e => exact ⟨hattached h.1 rfl, (hrow i h.1.mem rfl).2 ▸ h.2⟩
  | retiring i code =>
    obtain ⟨hmem, hr, hv⟩ := h
    obtain ⟨hmem', heq⟩ := hrow i hmem rfl
    exact ⟨hmem', heq ▸ hr, heq ▸ hv⟩
  | _ => trivial

end Thread

def State.bytes (s : State) : ℕ := (s.timers.map fun i => (s.timer i).retainedBytes).sum

structure Inv (s : State) : Prop where
  nodup : s.timers.Nodup
  listed : ∀ i, i ∈ s.timers ↔ i < s.table.count ∧ (s.timer i).admitted = true ∧ (s.timer i).terminal = false
  size : s.timers.length ≤ s.options.maxTimers
  retained_eq : s.retained = s.bytes
  retained_le : s.retained ≤ s.options.maxRetainedBytes
  rows : ∀ i < s.table.count, Consistent (s.timer i)
  delivered : ∀ e < s.executor.count, (s.task e).delivered = true → (s.task e).completed ≠ none
  owner : ∀ e < s.executor.count, (s.task e).timer < s.table.count
  live : ∀ i e, s.Live i e → LiveOk (s.timer i) s.thread e (s.task e)
  unique : ∀ i e e', s.Live i e → s.Live i e' → e = e'
  flight : ∀ i < s.table.count, (s.timer i).inFlight = true → s.thread.Dispatches i ∨
    (s.timer i).published = true ∧ ((s.timer i).completionReady = true ∨
      ∃ e, s.Live i e ∧ (s.task e).observer ≠ none)
  thread : s.thread.Ok s
  claimed : ∀ i ∈ s.timers, (s.timer i).retiring = true → ∃ code, s.thread = .retiring i code

section Benign

structure Benign (t t' : Timer) : Prop where
  repeatInterval : t'.repeatInterval = t.repeatInterval
  retainedBytes : t'.retainedBytes = t.retainedBytes
  repeatMode : t'.repeatMode = t.repeatMode
  due : t'.due = t.due ∨ t.inFlight = false ∧ t.retiring = false
  offered : t.offered = true → t'.offered = true
  admitted : t'.admitted = t.admitted
  inFlight : t'.inFlight = t.inFlight
  published : t'.published = t.published
  completionReady : t'.completionReady = t.completionReady
  retiring : t'.retiring = t.retiring
  completionCode : t'.completionCode = t.completionCode
  subscription : t'.subscription = t.subscription
  subscriptionPending : t'.subscriptionPending = t.subscriptionPending
  terminal : t'.terminal = t.terminal
  result : t'.result = t.result
  dispatches : t'.dispatches = t.dispatches
  dispatchedDue : t'.dispatchedDue = t.dispatchedDue
  lastCode : t'.lastCode = t.lastCode
  claims : t'.claims = t.claims
  cancelledAtClaim : t'.cancelledAtClaim = t.cancelledAtClaim

lemma Benign.refl (t : Timer) : Benign t t := by
  constructor
  case due => exact .inl rfl
  case offered => exact id
  all_goals rfl

lemma Benign.verdict {t t' : Timer} (h : Benign t t') : t'.verdict = t.verdict := by
  rw [Timer.verdict, Timer.verdict, h.cancelledAtClaim, h.lastCode]

lemma Benign.consistent {t t' : Timer} (h : Benign t t') (hc : Consistent t) : Consistent t' := by
  constructor
  · rw [h.admitted]
    exact fun hadm => h.offered (hc.offered hadm)
  · rw [h.admitted, h.inFlight, h.completionReady, h.retiring, h.terminal]
    exact hc.waiting
  · rw [h.inFlight, h.retiring, h.dispatchedDue]
    intro hf
    obtain ⟨hr, hd⟩ := hc.flight hf
    refine ⟨hr, ?_⟩
    rcases h.due with hdue | ⟨hnot, -⟩
    · rw [hdue, hd]
    · simp [hf] at hnot
  · rw [h.completionReady, h.lastCode, h.completionCode]
    exact hc.ready
  · rw [h.claims, h.retiring]
    exact hc.claims
  · rw [h.retiring, h.cancelledAtClaim, h.lastCode]
    exact hc.claimed
  · rw [h.terminal, h.retiring, h.result, h.verdict]
    exact hc.terminal

def TableBenign (table table' : Table Timer) : Prop :=
  table'.count = table.count ∧ ∀ i, Benign (table.row i) (table'.row i)

lemma tableBenign_set {table : Table Timer} {i : ℕ} {t : Timer} (h : Benign (table.row i) t) :
    TableBenign table (table.set i t) := by
  refine ⟨rfl, fun j => ?_⟩
  rw [Table.set_row]
  split_ifs with hj
  · rwa [hj]
  · exact .refl _

lemma cancelled_benign (t : Timer) : Benign t { t with cancelled := true } := { Benign.refl t with }

lemma cancel_benign (t : Timer) : Benign t (cancel t).1 := by
  rw [cancel]
  split_ifs
  · exact .refl t
  · exact cancelled_benign t

lemma reschedule_benign (stopping : Bool) (t : Timer) (due : ℤ) : Benign t (reschedule stopping t due).1 := by
  rw [reschedule]
  split_ifs with hclosed hflight
  · exact .refl t
  · exact .refl t
  · refine { Benign.refl t with due := .inr ⟨by simpa using hflight, ?_⟩ }
    simp only [Bool.or_eq_true, not_or, Bool.not_eq_true] at hclosed
    exact hclosed.1.2

lemma cancelTimers_benign (ids : List ℕ) (table : Table Timer) : TableBenign table (cancelTimers ids table) := by
  induction ids generalizing table with
  | nil => exact ⟨rfl, fun _ => .refl _⟩
  | cons i rest ih =>
    have hrow (j : ℕ) := (ih (table.set i { table.row i with cancelled := true })).2 j
    refine ⟨(ih _).1, fun j => ?_⟩
    have h₁ := hrow j
    rw [cancelTimers]
    by_cases hj : j = i
    · subst hj
      rw [Table.set_row_self] at h₁
      exact { h₁ with }
    · rwa [Table.set_row_ne _ _ hj] at h₁

lemma Thread.Ok.benign {s : State} {table : Table Timer} (hb : TableBenign s.table table) {thread : Thread}
    (h : thread.Ok s) : thread.Ok { s with table } := by
  have hflying {i : ℕ} (hf : Flying s i) : Flying { s with table } i :=
    ⟨hf.mem, (hb.2 i).inFlight.trans hf.inFlight, (hb.2 i).completionReady.trans hf.completionReady⟩
  have hattached {i e : ℕ} (ha : Attached s i e) : Attached { s with table } i e :=
    ⟨hflying ha.toFlying, ha.live, ha.observer, (hb.2 i).subscriptionPending.trans ha.subscriptionPending⟩
  cases thread with
  | dispatching i => exact ⟨hflying h.1, h.2⟩
  | refused i code =>
    obtain ⟨hf, hnone, hcode, hlast⟩ := h
    exact ⟨hflying hf, hnone, hcode, fun hne => (hb.2 i).lastCode.trans (hlast hne)⟩
  | submitted i e => exact hattached h
  | observing i e => exact ⟨hattached h.1, (hb.2 i).published.trans h.2⟩
  | retiring i code =>
    obtain ⟨hmem, hr, hv⟩ := h
    exact ⟨hmem, (hb.2 i).retiring.trans hr, (hb.2 i).verdict.trans hv⟩
  | _ => trivial

lemma LiveOk.benign {t t' : Timer} {thread : Thread} {e : ℕ} {task : Invocation} (h : LiveOk t thread e task)
    (hb : Benign t t') : LiveOk t' thread e task := by
  refine ⟨hb.inFlight.trans h.inFlight, hb.completionReady.trans h.completionReady, ?_, h.unobserved, ?_⟩
  · rw [hb.lastCode]
    exact h.completed
  · rw [hb.published, hb.subscription, hb.subscriptionPending]
    exact h.observed

lemma Inv.benign {s : State} (h : Inv s) {table : Table Timer} (hb : TableBenign s.table table) :
    Inv { s with table } := by
  constructor
  · exact h.nodup
  · intro i
    simp only [h.listed, State.timer, hb.1, (hb.2 i).admitted, (hb.2 i).terminal]
  · exact h.size
  · rw [h.retained_eq]
    simp only [State.bytes, State.timer, fun i => (hb.2 i).retainedBytes]
  · exact h.retained_le
  · exact fun i hi => (hb.2 i).consistent (h.rows i (hb.1 ▸ hi))
  · exact h.delivered
  · exact fun e he => hb.1 ▸ h.owner e he
  · exact fun i e hl => (h.live i e hl).benign (hb.2 i)
  · exact h.unique
  · intro i hi hf
    simp only [State.timer, (hb.2 i).published, (hb.2 i).completionReady]
    exact h.flight i (hb.1 ▸ hi) ((hb.2 i).inFlight ▸ hf)
  · exact h.thread.benign hb
  · intro i hi hr
    exact h.claimed i hi ((hb.2 i).retiring ▸ hr)

end Benign

end ServerCore.Runtime.TimerScheduler
