import ServerCore.Runtime.TimerSchedulerInvariant

/-! Every section of `TimerScheduler` keeps its flags and its invocations in order. -/

namespace ServerCore.Runtime.TimerScheduler

open ServerCore.Core ServerCore.Foundations

section Scan

def Chosen (now : ℤ) (table : Table Timer) (ids : List ℕ) : Option ℕ → Prop
  | none => ∀ j ∈ ids, (table.row j).inFlight = false → ¬ (table.row j).due ≤ now
  | some i => ∃ pre post, ids = pre ++ i :: post ∧ (table.row i).inFlight = false ∧ (table.row i).due ≤ now ∧
      (∀ j ∈ pre, (table.row j).inFlight = false → (table.row j).due ≤ now → (table.row i).due < (table.row j).due) ∧
      ∀ j ∈ post, (table.row j).inFlight = false → (table.row j).due ≤ now → (table.row i).due ≤ (table.row j).due

variable {now : ℤ} {table : Table Timer} {ids : List ℕ} {earliest : Option ℕ}

lemma Chosen.congr {table' : Table Timer} (h : Chosen now table ids earliest)
    (hrow : ∀ j ∈ ids, table'.row j = table.row j) : Chosen now table' ids earliest := by
  cases earliest with
  | none =>
    intro j hj
    rw [hrow j hj]
    exact h j hj
  | some i =>
    obtain ⟨pre, post, rfl, hi, hdue, hpre, hpost⟩ := h
    refine ⟨pre, post, rfl, ?_, ?_, fun j hj => ?_, fun j hj => ?_⟩
    · rwa [hrow i (by simp)]
    · rwa [hrow i (by simp)]
    · rw [hrow j (by simp [hj]), hrow i (by simp)]
      exact hpre j hj
    · rw [hrow j (by simp [hj]), hrow i (by simp)]
      exact hpost j hj

lemma Chosen.better (h : Chosen now table ids earliest) {i : ℕ} (hidle : (table.row i).inFlight = false)
    (hdue : (table.row i).due ≤ now) : Chosen now table (ids ++ [i]) (better table earliest i) := by
  cases earliest with
  | none => exact ⟨ids, [], rfl, hidle, hdue, fun j hj hf hd => absurd hd (h j hj hf), by simp⟩
  | some k =>
    obtain ⟨pre, post, rfl, hk, hkdue, hpre, hpost⟩ := h
    rw [TimerScheduler.better]
    split_ifs with hlt
    · refine ⟨pre ++ k :: post, [], rfl, hidle, hdue, fun j hj hf hd => ?_, by simp⟩
      rcases List.mem_append.mp hj with hj | hj
      · exact hlt.trans (hpre j hj hf hd)
      · rcases List.mem_cons.mp hj with rfl | hj
        · exact hlt
        · exact hlt.trans_le (hpost j hj hf hd)
    · refine ⟨pre, post ++ [i], by simp, hk, hkdue, hpre, fun j hj hf hd => ?_⟩
      rcases List.mem_append.mp hj with hj | hj
      · exact hpost j hj hf hd
      · rw [List.mem_singleton.mp hj]
        exact not_lt.mp hlt

lemma Chosen.skip (h : Chosen now table ids earliest) {i : ℕ}
    (hskip : (table.row i).inFlight = false → ¬ (table.row i).due ≤ now) :
    Chosen now table (ids ++ [i]) earliest := by
  cases earliest with
  | none =>
    intro j hj
    rcases List.mem_append.mp hj with hj | hj
    · exact h j hj
    · rw [List.mem_singleton.mp hj]
      exact hskip
  | some k =>
    obtain ⟨pre, post, rfl, hk, hkdue, hpre, hpost⟩ := h
    refine ⟨pre, post ++ [i], by simp, hk, hkdue, hpre, fun j hj hf hd => ?_⟩
    rcases List.mem_append.mp hj with hj | hj
    · exact hpost j hj hf hd
    · rw [List.mem_singleton.mp hj] at hf hd
      exact absurd hd (hskip hf)

structure Passed (now : ℤ) (table : Table Timer) (ids : List ℕ) (table' : Table Timer) : Prop where
  count : table'.count = table.count
  others : ∀ j ∉ ids, table'.row j = table.row j
  collected : ∀ j ∈ ids, table'.row j = collect now (table.row j)
  idle : ∀ j ∈ ids, (table'.row j).inFlight = false →
    (table'.row j).cancelled = false ∧ (table'.row j).completionReady = false

lemma Passed.cons {table' : Table Timer} {i : ℕ} {rest : List ℕ} (hrest : i ∉ rest)
    (hp : Passed now (table.set i (collect now (table.row i))) rest table')
    (hstay : (collect now (table.row i)).inFlight = false →
      (collect now (table.row i)).cancelled = false ∧ (collect now (table.row i)).completionReady = false) :
    Passed now table (i :: rest) table' := by
  have hi : table'.row i = collect now (table.row i) := (hp.others i hrest).trans (Table.set_row_self ..)
  refine ⟨hp.count, fun j hj => ?_, fun j hj => ?_, fun j hj hf => ?_⟩
  · rw [List.mem_cons, not_or] at hj
    rw [hp.others j hj.2, Table.set_row_ne _ _ hj.1]
  · rcases List.mem_cons.mp hj with rfl | hj
    · exact hi
    · have hne : j ≠ i := fun heq => hrest (heq ▸ hj)
      rw [hp.collected j hj, Table.set_row_ne _ _ hne]
  · rcases List.mem_cons.mp hj with rfl | hj
    · rw [hi] at hf ⊢
      exact hstay hf
    · exact hp.idle j hj hf

lemma scan_none {passed : List ℕ} {table' : Table Timer} {e : Option ℕ} (hnd : (passed ++ ids).Nodup)
    (hchosen : Chosen now table passed earliest) (h : scan now ids table earliest = (table', .none e)) :
    Passed now table ids table' ∧ Chosen now table' (passed ++ ids) e := by
  induction ids generalizing table passed earliest with
  | nil =>
    rw [scan, Prod.mk.injEq, Action.none.injEq] at h
    obtain ⟨rfl, rfl⟩ := h
    exact ⟨⟨rfl, fun _ _ => rfl, by simp, by simp⟩, by simpa using hchosen⟩
  | cons i rest ih =>
    rw [List.nodup_append, List.nodup_cons] at hnd
    obtain ⟨hpassed, ⟨hrest, hndrest⟩, hdisj⟩ := hnd
    have hnd' : ((passed ++ [i]) ++ rest).Nodup := by
      rw [List.append_assoc]
      exact List.nodup_append.mpr ⟨hpassed, by simp [hrest, hndrest], hdisj⟩
    have hself : (table.set i (collect now (table.row i))).row i = collect now (table.row i) := Table.set_row_self ..
    have hchosen' : Chosen now (table.set i (collect now (table.row i))) passed earliest :=
      hchosen.congr fun j hj => Table.set_row_ne _ _ fun heq => hdisj j hj i (by simp) heq
    simp only [scan] at h
    by_cases h₁ : ((table.row i).cancelled && !(table.row i).signalSent) = true
    · simp [h₁] at h
    simp only [h₁, Bool.false_eq_true, ↓reduceIte] at h
    by_cases h₂ : (!(collect now (table.row i)).inFlight &&
        ((collect now (table.row i)).cancelled || (collect now (table.row i)).completionReady)) = true
    · simp [h₂] at h
    simp only [h₂, Bool.false_eq_true, ↓reduceIte] at h
    have hstay : (collect now (table.row i)).inFlight = false →
        (collect now (table.row i)).cancelled = false ∧ (collect now (table.row i)).completionReady = false := by
      intro hf
      simpa [hf] using h₂
    split_ifs at h with h₃
    · -- a timer that is due is compared
      simp only [Bool.and_eq_true, Bool.not_eq_true', decide_eq_true_eq] at h₃
      obtain ⟨hp, hc⟩ := ih hnd' (hchosen'.better (by rw [hself]; exact h₃.1) (by rw [hself]; exact h₃.2)) h
      exact ⟨hp.cons hrest hstay, by simpa using hc⟩
    · simp only [Bool.and_eq_true, Bool.not_eq_true', decide_eq_true_eq, not_and] at h₃
      obtain ⟨hp, hc⟩ := ih hnd' (hchosen'.skip (by rw [hself]; exact h₃)) h
      exact ⟨hp.cons hrest hstay, by simpa using hc⟩

end Scan

namespace Inv

variable {s : State} {i : ℕ}

structure Change (s : State) (i : ℕ) (t : Timer) (thread : Thread) : Prop where
  mem : i ∈ s.timers
  old : ∀ j, s.thread.timer? = some j → j = i
  new : ∀ j, thread.timer? = some j → j = i
  admitted : t.admitted = (s.timer i).admitted
  terminal : t.terminal = (s.timer i).terminal
  retainedBytes : t.retainedBytes = (s.timer i).retainedBytes
  consistent : Consistent t
  live : ∀ e, s.Live i e → LiveOk t thread e (s.task e)
  flight : t.inFlight = true → thread.Dispatches i ∨ t.published = true ∧ (t.completionReady = true ∨
    ∃ e, s.Live i e ∧ (s.task e).observer ≠ none)
  ok : thread.Ok { s with table := s.table.set i t, thread }
  claimed : t.retiring = true → ∃ code, thread = .retiring i code

lemma change (h : Inv s) {t : Timer} {thread : Thread} (hc : Change s i t thread) :
    Inv { s with table := s.table.set i t, thread } := by
  have hi : i < s.table.count := ((h.listed i).mp hc.mem).1
  have hrow (j : ℕ) (hj : j ≠ i) : (s.table.set i t).row j = s.table.row j := Table.set_row_ne _ _ hj
  have hself : (s.table.set i t).row i = t := Table.set_row_self ..
  constructor
  · exact h.nodup
  · intro j
    rcases eq_or_ne j i with rfl | hj
    · simp only [h.listed, State.timer, hself, hc.admitted, hc.terminal, Table.set_count]
    · simp only [h.listed, State.timer, hrow j hj, Table.set_count]
  · exact h.size
  · rw [h.retained_eq, State.bytes, State.bytes]
    congr 1
    refine List.map_congr_left fun j _ => ?_
    rcases eq_or_ne j i with rfl | hj
    · simp only [State.timer, hself, hc.retainedBytes]
    · simp only [State.timer, hrow j hj]
  · exact h.retained_le
  · intro j hj
    rcases eq_or_ne j i with rfl | hne
    · simp only [State.timer, hself]
      exact hc.consistent
    · simp only [State.timer, hrow j hne]
      exact h.rows j hj
  · exact h.delivered
  · exact h.owner
  · intro j e hl
    rcases eq_or_ne j i with rfl | hj
    · simp only [State.timer, hself]
      exact hc.live e hl
    · simp only [State.timer, hrow j hj]
      refine { h.live j e hl with unobserved := fun hnone => ?_ }
      have htimer : (s.task e).timer = j := hl.2.2
      rcases (h.live j e hl).unobserved hnone with ht | ht
      · exact absurd (hc.old j (by rw [ht, htimer]; rfl)) hj
      · exact absurd (hc.old j (by rw [ht, htimer]; rfl)) hj
  · exact h.unique
  · intro j hj hf
    rcases eq_or_ne j i with rfl | hne
    · simp only [State.timer, hself] at hf ⊢
      exact hc.flight hf
    · simp only [State.timer, hrow j hne] at hf ⊢
      rcases h.flight j hj hf with hd | hd
      · exact absurd (hc.old j hd.timer) hne
      · exact .inr hd
  · exact hc.ok
  · intro j hj hr
    rcases eq_or_ne j i with rfl | hne
    · simp only [State.timer, hself] at hr
      exact hc.claimed hr
    · simp only [State.timer, hrow j hne] at hr
      obtain ⟨code, hcode⟩ := h.claimed j hj hr
      exact absurd (hc.old j (by rw [hcode]; rfl)) hne

lemma unclaimed (h : Inv s) (hi : i ∈ s.timers) (hthread : ∀ code, s.thread ≠ .retiring i code) :
    (s.timer i).retiring = false := by
  by_contra hr
  obtain ⟨code, hcode⟩ := h.claimed i hi (by simpa using hr)
  exact hthread code hcode

lemma no_live_of_ready (h : Inv s) (hr : (s.timer i).completionReady = true) (e : ℕ) : ¬ s.Live i e :=
  fun hl => by simp [(h.live i e hl).completionReady] at hr

lemma no_live_of_idle (h : Inv s) (hf : (s.timer i).inFlight = false) (e : ℕ) : ¬ s.Live i e :=
  fun hl => by simp [(h.live i e hl).inFlight] at hf

section Run

lemma collect_consistent {t : Timer} (h : Consistent t) (hadm : t.admitted = true) (now : ℤ) :
    Consistent (collect now t) := by
  obtain ⟨hoff, -, hflight, hready, hclaims, hclaimed, hterminal⟩ := h
  rw [collect]
  split_ifs with hc
  · simp only
    split_ifs
    · exact ⟨hoff, by simp [hadm], by simp, by simp, hclaims, hclaimed, hterminal⟩
    · exact ⟨hoff, by simp [hadm], by simp, by simp, hclaims, hclaimed, hterminal⟩
    · exact ⟨hoff, by simp [hadm], by simp, hready, hclaims, hclaimed, hterminal⟩
  · exact ⟨hoff, by simp [hadm], hflight, hready, hclaims, hclaimed, hterminal⟩

lemma collect_same (now : ℤ) (t : Timer) : (collect now t).admitted = t.admitted ∧
    (collect now t).terminal = t.terminal ∧ (collect now t).retainedBytes = t.retainedBytes ∧
    (collect now t).retiring = t.retiring ∧ (collect now t).cancelled = t.cancelled ∧
    (collect now t).published = t.published := by
  rw [collect]
  split_ifs with hc
  · simp only
    split_ifs <;> exact ⟨rfl, rfl, rfl, rfl, rfl, rfl⟩
  · exact ⟨rfl, rfl, rfl, rfl, rfl, rfl⟩

lemma collect_cases (now : ℤ) (t : Timer) :
    t.inFlight = true ∧ t.published = true ∧ t.completionReady = true ∧ (collect now t).inFlight = false ∨
      collect now t = t := by
  rw [collect]
  split_ifs with hc
  · simp only [Bool.and_eq_true] at hc
    refine .inl ⟨hc.1.1, hc.1.2, hc.2, ?_⟩
    simp only
    split_ifs <;> rfl
  · exact .inr rfl

lemma collect (h : Inv s) (hi : i ∈ s.timers) (hthread : s.thread = .looping) (now : ℤ) :
    Inv { s with table := s.table.set i (collect now (s.timer i)) } := by
  obtain ⟨hlt, hadm, -⟩ := (h.listed i).mp hi
  obtain ⟨ha, ht, hb, hr, -⟩ := collect_same now (s.timer i)
  have hchange : Change s i (TimerScheduler.collect now (s.timer i)) .looping := by
    refine ⟨hi, by simp [hthread, Thread.timer?], by simp [Thread.timer?], ha, ht, hb,
      collect_consistent (h.rows i hlt) hadm now, fun e hl => ?_, fun hf => ?_, trivial, fun hret => ?_⟩
    · rcases collect_cases now (s.timer i) with ⟨-, -, hready, -⟩ | heq
      · exact absurd hl (h.no_live_of_ready hready e)
      · rw [heq, ← hthread]
        exact h.live i e hl
    · rcases collect_cases now (s.timer i) with ⟨-, -, -, hidle⟩ | heq
      · simp [hidle] at hf
      · rw [heq] at hf ⊢
        rw [← hthread]
        exact h.flight i hlt hf
    · rw [hr] at hret
      simp [h.unclaimed hi (by simp [hthread])] at hret
  have := h.change hchange
  rwa [← hthread] at this

lemma claim (h : Inv s) (hi : i ∈ s.timers) (hthread : s.thread = .looping) (hidle : (s.timer i).inFlight = false)
    (hc : (s.timer i).cancelled = true ∨ (s.timer i).completionReady = true) :
    Inv { s with
      table := s.table.set i (claim (s.timer i))
      thread := .retiring i (if (s.timer i).cancelled then .cancelled else (s.timer i).completionCode) } := by
  obtain ⟨hlt, hadm, hterm⟩ := (h.listed i).mp hi
  have hunclaimed := h.unclaimed hi (by simp [hthread])
  obtain ⟨hoff, -, -, hready, hclaims, -, -⟩ := h.rows i hlt
  have hlast : (s.timer i).cancelled = false → (s.timer i).lastCode = some (s.timer i).completionCode := fun hn => by
    refine hready ?_
    simpa [hn] using hc
  refine h.change ⟨hi, by simp [hthread, Thread.timer?], by simp [Thread.timer?], rfl, rfl, rfl, ?_,
    fun e hl => absurd hl (h.no_live_of_idle hidle e), ?_, ?_, fun _ => ⟨_, rfl⟩⟩
  · constructor
    · exact hoff
    · exact fun hn => by simp [TimerScheduler.claim, hadm] at hn
    · exact fun hf => by simp [TimerScheduler.claim, hidle] at hf
    · exact hready
    · simp [TimerScheduler.claim, hclaims, hunclaimed]
    · intro _ hn
      simp [TimerScheduler.claim, hlast hn]
    · exact fun ht => by simp [TimerScheduler.claim, hterm] at ht
  · exact fun hf => by simp [TimerScheduler.claim, hidle] at hf
  · refine ⟨hi, ?_, ?_⟩
    · simp [State.timer, TimerScheduler.claim]
    · simp only [State.timer, Table.set_row_self, Timer.verdict, TimerScheduler.claim]
      cases hcan : (s.timer i).cancelled with
      | true => rfl
      | false => simp [hlast hcan]

lemma dispatch (h : Inv s) (hi : i ∈ s.timers) (hthread : s.thread = .looping) (hidle : (s.timer i).inFlight = false) :
    Inv { s with table := s.table.set i (dispatch (s.timer i)), thread := .dispatching i } := by
  obtain ⟨hlt, hadm, hterm⟩ := (h.listed i).mp hi
  have hunclaimed := h.unclaimed hi (by simp [hthread])
  obtain ⟨hoff, -, -, hready, hclaims, -, -⟩ := h.rows i hlt
  refine h.change ⟨hi, by simp [hthread, Thread.timer?], by simp [Thread.timer?], rfl, rfl, rfl, ?_,
    fun e hl => absurd hl (h.no_live_of_idle hidle e), fun _ => .inl (.inl rfl), ?_, fun hr => ?_⟩
  · constructor
    · exact hoff
    · exact fun hn => by simp [TimerScheduler.dispatch, hadm] at hn
    · exact fun _ => ⟨hunclaimed, rfl⟩
    · simp [TimerScheduler.dispatch]
    · exact hclaims
    · exact fun hr => by simp [TimerScheduler.dispatch, hunclaimed] at hr
    · exact fun ht => by simp [TimerScheduler.dispatch, hterm] at ht
  · refine ⟨⟨hi, ?_, ?_⟩, h.no_live_of_idle hidle⟩
    · simp [State.timer, TimerScheduler.dispatch]
    · simp [State.timer, TimerScheduler.dispatch]
  · simp [TimerScheduler.dispatch, hunclaimed] at hr

lemma goTo (h : Inv s) (hold : s.thread.timer? = none) {thread : Thread} (hnew : thread.timer? = none) :
    Inv { s with thread } := by
  have hok : thread.Ok { s with thread } := by
    cases thread <;> simp [Thread.timer?] at hnew <;> trivial
  refine { h with live := fun i e hl => ?_, flight := fun i hi hf => ?_, thread := hok, claimed := fun i hi hr => ?_ }
  · refine { h.live i e hl with unobserved := fun hnone => ?_ }
    rcases (h.live i e hl).unobserved hnone with ht | ht <;> rw [ht] at hold <;> cases hold
  · rcases h.flight i hi hf with hd | hd
    · rw [hd.timer] at hold
      cases hold
    · exact .inr hd
  · obtain ⟨code, hcode⟩ := h.claimed i hi hr
    rw [hcode] at hold
    cases hold

def Ends (s : State) : Table Timer × Action → Prop
  | (table, .none _) | (table, .signal _) => Inv { s with table }
  | (table, .retire i code) => Inv { s with table, thread := .retiring i code }

lemma scan (hthread : s.thread = .looping) (now : ℤ) (ids : List ℕ) (hids : ∀ j ∈ ids, j ∈ s.timers)
    (table : Table Timer) (earliest : Option ℕ) (h : Inv { s with table }) :
    Ends s (scan now ids table earliest) := by
  induction ids generalizing table earliest with
  | nil => exact h
  | cons i rest ih =>
    have hi := hids i (by simp)
    have hrest : ∀ j ∈ rest, j ∈ s.timers := fun j hj => hids j (by simp [hj])
    have hcollect := h.collect hi hthread now
    simp only [TimerScheduler.scan]
    by_cases h₁ : ((table.row i).cancelled && !(table.row i).signalSent) = true
    · simp only [h₁, ↓reduceIte]
      exact h.benign (tableBenign_set { Benign.refl (table.row i) with })
    simp only [h₁, Bool.false_eq_true, ↓reduceIte]
    by_cases h₂ : (!(TimerScheduler.collect now (table.row i)).inFlight &&
        ((TimerScheduler.collect now (table.row i)).cancelled ||
          (TimerScheduler.collect now (table.row i)).completionReady)) = true
    · simp only [h₂, ↓reduceIte]
      simp only [Bool.and_eq_true, Bool.not_eq_true', Bool.or_eq_true] at h₂
      have hself : (table.set i (TimerScheduler.collect now (table.row i))).row i =
        TimerScheduler.collect now (table.row i) := Table.set_row_self ..
      have hclaim := hcollect.claim (i := i) hi hthread
        (by simp only [State.timer, hself, h₂.1]) (by simpa only [State.timer, hself] using h₂.2)
      simp only [State.timer, hself] at hclaim
      exact hclaim
    simp only [h₂, Bool.false_eq_true, ↓reduceIte]
    split_ifs
    · exact ih hrest _ _ hcollect
    · exact ih hrest _ _ hcollect

lemma pass (h : Inv s) (hthread : s.thread = .looping) (now : ℤ) : Inv (TimerScheduler.pass s now) := by
  rw [TimerScheduler.pass]
  by_cases hempty : (s.stopping && s.timers.isEmpty) = true
  · simp only [hempty, ↓reduceIte]
    exact h.goTo (by simp [hthread, Thread.timer?]) rfl
  simp only [hempty, Bool.false_eq_true, ↓reduceIte]
  have hends := scan hthread now s.timers (fun _ => id) s.table none h
  have hnone := @scan_none now s.table s.timers none []
  generalize TimerScheduler.scan now s.timers s.table none = r at hends hnone
  obtain ⟨table, action⟩ := r
  cases action with
  | signal i => exact goTo hends (by simp [hthread, Thread.timer?]) rfl
  | retire i code => exact hends
  | none earliest =>
    cases earliest with
    | none => exact hends
    | some i =>
      simp only
      split_ifs
      · exact hends
      · obtain ⟨-, pre, post, hids, hidle, -⟩ := hnone (e := some i) (by simpa using h.nodup)
          (by simp [Chosen]) rfl
        have hi : i ∈ s.timers := by
          rw [List.nil_append] at hids
          simp [hids]
        exact Inv.dispatch (s := { s with table }) hends hi hthread hidle

end Run

section Dispatch

lemma subscribe_same (t : Timer) : subscribe t = t ∧ t.subscriptionPending = true ∨
    subscribe t = { t with subscription := t.subscription + 1, subscriptionPending := true } := by
  rw [subscribe]
  split_ifs with hp
  · exact .inl ⟨rfl, hp⟩
  · exact .inr rfl

lemma subscribe_consistent {t : Timer} (h : Consistent t) : Consistent (subscribe t) := by
  rcases subscribe_same t with ⟨heq, -⟩ | heq <;> rw [heq]
  · exact h
  · exact { h with }

lemma subscribe_fields (t : Timer) : (subscribe t).admitted = t.admitted ∧ (subscribe t).terminal = t.terminal ∧
    (subscribe t).retainedBytes = t.retainedBytes ∧ (subscribe t).inFlight = t.inFlight ∧
    (subscribe t).completionReady = t.completionReady ∧ (subscribe t).retiring = t.retiring ∧
    (subscribe t).lastCode = t.lastCode ∧ (subscribe t).subscriptionPending = true := by
  rcases subscribe_same t with ⟨heq, hp⟩ | heq <;> rw [heq]
  · exact ⟨rfl, rfl, rfl, rfl, rfl, rfl, rfl, hp⟩
  · exact ⟨rfl, rfl, rfl, rfl, rfl, rfl, rfl, rfl⟩

lemma submitFail (h : Inv s) (hthread : s.thread = .dispatching i) (created : Bool) {code : ErrorCode}
    (hcode : code ≠ .ok) : Inv (TimerScheduler.submitFail s i created code) := by
  have hok := h.thread
  rw [hthread] at hok
  obtain ⟨hf, hnone⟩ := hok
  obtain ⟨hlt, hadm, hterm⟩ := (h.listed i).mp hf.mem
  have hrow := h.rows i hlt
  have hret := (hrow.flight hf.inFlight).1
  set t := if created then subscribe (s.timer i) else s.timer i with ht
  have hc : Consistent t := by
    rw [ht]
    split_ifs
    · exact subscribe_consistent hrow
    · exact hrow
  have hsame : t.admitted = (s.timer i).admitted ∧ t.terminal = (s.timer i).terminal ∧
      t.retainedBytes = (s.timer i).retainedBytes ∧ t.inFlight = (s.timer i).inFlight ∧
      t.completionReady = (s.timer i).completionReady ∧ t.retiring = (s.timer i).retiring := by
    have hs := subscribe_fields (s.timer i)
    rw [ht]
    split_ifs
    · exact ⟨hs.1, hs.2.1, hs.2.2.1, hs.2.2.2.1, hs.2.2.2.2.1, hs.2.2.2.2.2.1⟩
    · exact ⟨rfl, rfl, rfl, rfl, rfl, rfl⟩
  obtain ⟨ha, hte, hb, hfl, hcr, hr⟩ := hsame
  refine h.change ⟨hf.mem, by simp [hthread, Thread.timer?], by simp [Thread.timer?], ha, hte, hb, ?_,
    fun e hl => absurd hl (hnone e), fun _ => .inl (.inr (.inr (.inl ⟨_, rfl⟩))), ?_, fun hret' => ?_⟩
  · refine ⟨hc.offered, hc.waiting, hc.flight, fun hready => ?_, hc.claims, fun hret' => ?_, fun hterm' => ?_⟩
    · exact absurd (hcr.symm.trans hready) (by simp [hf.completionReady])
    · exact absurd (hr.symm.trans hret') (by simp [hret])
    · exact absurd (hte.symm.trans hterm') (by simp [State.timer, hterm])
  · refine ⟨⟨hf.mem, ?_, ?_⟩, hnone, hcode, fun hne => ?_⟩
    · simp only [State.timer, Table.set_row_self]
      exact hfl.trans hf.inFlight
    · simp only [State.timer, Table.set_row_self]
      exact hcr.trans hf.completionReady
    · simp [State.timer, hne]
  · exact absurd (hr.symm.trans hret') (by simp [hret])

lemma refuse (h : Inv s) {code : ErrorCode} (hthread : s.thread = .refused i code) (now : ℤ) :
    Inv (TimerScheduler.refuse s i code now) := by
  have hok := h.thread
  rw [hthread] at hok
  obtain ⟨hf, hnone, hcode, hlast⟩ := hok
  obtain ⟨hlt, hadm, hterm⟩ := (h.listed i).mp hf.mem
  have hrow := h.rows i hlt
  have hret := (hrow.flight hf.inFlight).1
  have hold : ∀ j, s.thread.timer? = some j → j = i := by simp [hthread, Thread.timer?]
  rw [TimerScheduler.refuse]
  split_ifs with hblock
  · have hchange : Change s i { s.timer i with inFlight := false, completionCode := .ok } .looping :=
      ⟨hf.mem, hold, by simp [Thread.timer?], rfl, rfl, rfl,
        ⟨hrow.offered, fun hn => by simp [State.timer, hadm] at hn, by simp,
          fun hr => by simp [hf.completionReady] at hr, hrow.claims, hrow.claimed, hrow.terminal⟩,
        fun e hl => absurd hl (hnone e), by simp, trivial, fun hr => by simp [hret] at hr⟩
    exact { h.change hchange with }
  · exact h.change ⟨hf.mem, hold, by simp [Thread.timer?], rfl, rfl, rfl,
      ⟨hrow.offered, fun hn => by simp [State.timer, hadm] at hn, by simp, fun _ => hlast hblock, hrow.claims,
        hrow.claimed, hrow.terminal⟩,
      fun e hl => absurd hl (hnone e), by simp, trivial, fun hr => by simp [hret] at hr⟩

lemma publish (h : Inv s) {e : ℕ} (hthread : s.thread = .submitted i e) : Inv (TimerScheduler.publish s i e) := by
  have hok := h.thread
  rw [hthread] at hok
  obtain ⟨⟨hmem, hfl, hcr⟩, hlive, hobs, hpend⟩ := hok
  obtain ⟨hlt, hadm, hterm⟩ := (h.listed i).mp hmem
  have hrow := h.rows i hlt
  have hret := (hrow.flight hfl).1
  refine h.change ⟨hmem, by simp [hthread, Thread.timer?], by simp [Thread.timer?], rfl, rfl, rfl, { hrow with },
    fun e' hl => ?_, fun _ => .inl (.inr (.inr (.inr ⟨_, rfl⟩))), ?_, fun hr => by simp [hret] at hr⟩
  · obtain rfl := h.unique i e' e hl hlive
    have hl' := h.live i e' hl
    refine ⟨hl'.inFlight, hl'.completionReady, hl'.completed, fun _ => .inr ?_, fun observer ho => ?_⟩
    · rw [hlive.2.2]
    · simp [hobs] at ho
  · refine ⟨⟨⟨hmem, ?_, ?_⟩, hlive, hobs, ?_⟩, ?_⟩ <;> simp [State.timer, hfl, hcr, hpend]

lemma submitOk (h : Inv s) (hthread : s.thread = .dispatching i) : Inv (TimerScheduler.submitOk s i) := by
  have hok := h.thread
  rw [hthread] at hok
  obtain ⟨hf, hnone⟩ := hok
  obtain ⟨hlt, hadm, hterm⟩ := (h.listed i).mp hf.mem
  have hrow := h.rows i hlt
  obtain ⟨ha, hte, hb, hfl, hcr, hr, hlc, hp⟩ := subscribe_fields (s.timer i)
  have hsub : Inv { s with table := s.table.set i (subscribe (s.timer i)), thread := .dispatching i } := by
    refine h.change ⟨hf.mem, by simp [hthread, Thread.timer?], by simp [Thread.timer?], ha, hte, hb,
      subscribe_consistent hrow, fun e hl => absurd hl (hnone e), fun _ => .inl (.inl rfl), ?_, fun hret => ?_⟩
    · refine ⟨⟨hf.mem, ?_, ?_⟩, hnone⟩ <;> simp [State.timer, hfl, hcr, hf.inFlight, hf.completionReady]
    · simp [hr, (hrow.flight hf.inFlight).1] at hret
  have hold (e : ℕ) (he : e < s.executor.count) : (s.executor.push { timer := i }).row e = s.executor.row e := by
    rw [Table.push_row, if_neg he.ne]
  have hnew : (s.executor.push { timer := i }).row s.executor.count = { timer := i } := by
    rw [Table.push_row, if_pos rfl]
  have hsplit {j e : ℕ} (hl : (TimerScheduler.submitOk s i).Live j e) : s.Live j e ∧ j ≠ i ∨
      e = s.executor.count ∧ j = i := by
    obtain ⟨he, hd, ht⟩ := hl
    simp only [TimerScheduler.submitOk, State.task, Table.push_count] at he hd ht
    by_cases heq : e = s.executor.count
    · rw [heq, hnew] at ht
      exact .inr ⟨heq, ht.symm⟩
    · have hlt' : e < s.executor.count := by omega
      rw [hold e hlt'] at hd ht
      refine .inl ⟨⟨hlt', hd, ht⟩, ?_⟩
      rintro rfl
      exact hnone e ⟨hlt', hd, ht⟩
  have hlive : (TimerScheduler.submitOk s i).Live i s.executor.count := by
    refine ⟨Nat.lt_succ_self _, ?_, ?_⟩ <;> simp only [TimerScheduler.submitOk, State.task, hnew]
  constructor
  · exact hsub.nodup
  · exact hsub.listed
  · exact hsub.size
  · exact hsub.retained_eq
  · exact hsub.retained_le
  · exact hsub.rows
  · intro e he hd
    simp only [TimerScheduler.submitOk, State.task, Table.push_count] at he hd ⊢
    by_cases heq : e = s.executor.count
    · simp [heq, hnew] at hd
    · have hlt : e < s.executor.count := by omega
      rw [hold e hlt] at hd ⊢
      exact h.delivered e hlt hd
  · intro e he
    simp only [TimerScheduler.submitOk, State.task, Table.push_count, Table.set_count] at he ⊢
    by_cases heq : e = s.executor.count
    · rw [heq, hnew]
      exact hlt
    · rw [hold e (by omega)]
      exact h.owner e (by omega)
  · intro j e hl
    rcases hsplit hl with ⟨hl', hj⟩ | ⟨rfl, rfl⟩
    · have := hsub.live j e hl'
      simp only [TimerScheduler.submitOk, State.task, State.timer, hold e hl'.1] at this ⊢
      refine { this with unobserved := fun hnone' => ?_ }
      rcases this.unobserved hnone' with ht | ht <;> cases ht
    · refine ⟨?_, ?_, ?_, ?_, ?_⟩ <;>
        simp [TimerScheduler.submitOk, State.task, State.timer, hnew, hfl, hcr, hf.inFlight, hf.completionReady]
  · intro j e e' hl hl'
    rcases hsplit hl with ⟨h₁, hj⟩ | ⟨rfl, rfl⟩ <;> rcases hsplit hl' with ⟨h₂, hj'⟩ | ⟨rfl, h₂⟩
    · exact h.unique j e e' h₁ h₂
    · exact absurd h₂ hj
    · exact absurd rfl hj'
    · rfl
  · intro j hj hfj
    rcases eq_or_ne j i with rfl | hne
    · exact .inl (.inr (.inl ⟨_, rfl⟩))
    · rcases hsub.flight j hj hfj with hd | ⟨hpub, hd⟩
      · exact absurd (by simpa [Thread.timer?] using hd.timer) hne.symm
      · refine .inr ⟨hpub, hd.imp_right ?_⟩
        rintro ⟨e, ⟨he, hde, hte⟩, ho⟩
        refine ⟨e, ⟨he.trans (Nat.lt_succ_self _), ?_, ?_⟩, ?_⟩ <;>
          simp only [TimerScheduler.submitOk, State.task, hold e he]
        · exact hde
        · exact hte
        · exact ho
  · refine ⟨⟨hf.mem, ?_, ?_⟩, hlive, ?_, ?_⟩ <;>
      simp [TimerScheduler.submitOk, State.task, State.timer, hnew, hfl, hcr, hp, hf.inFlight, hf.completionReady]
  · intro j hj hr'
    obtain ⟨code, hcode⟩ := hsub.claimed j hj hr'
    cases hcode

lemma observe (h : Inv s) {e : ℕ} (hthread : s.thread = .observing i e) : Inv (TimerScheduler.observe s i e) := by
  have hok := h.thread
  rw [hthread] at hok
  obtain ⟨⟨⟨hmem, hfl, hcr⟩, hlive, hobs, hpend⟩, hpub⟩ := hok
  obtain ⟨helt, hdel, htimer⟩ := hlive
  have hrow (e' : ℕ) (hne : e' ≠ e) : (TimerScheduler.observe s i e).task e' = s.task e' := Table.set_row_ne _ _ hne
  have hself : (TimerScheduler.observe s i e).task e = { s.task e with observer := some (s.timer i).subscription } :=
    Table.set_row_self ..
  have hsame (e' : ℕ) : ((TimerScheduler.observe s i e).task e').delivered = (s.task e').delivered ∧
      ((TimerScheduler.observe s i e).task e').timer = (s.task e').timer ∧
      ((TimerScheduler.observe s i e).task e').completed = (s.task e').completed := by
    rcases eq_or_ne e' e with rfl | hne
    · rw [hself]
      exact ⟨rfl, rfl, rfl⟩
    · rw [hrow e' hne]
      exact ⟨rfl, rfl, rfl⟩
  have hlive_iff (j e' : ℕ) : (TimerScheduler.observe s i e).Live j e' ↔ s.Live j e' := by
    rw [State.Live, State.Live, (hsame e').1, (hsame e').2.1]
    rfl
  refine { h with
    delivered := fun e' he' hd => ?_, owner := fun e' he' => ?_, live := fun j e' hl => ?_,
    unique := fun j e₁ e₂ h₁ h₂ => ?_, flight := fun j hj hfj => ?_, thread := trivial, claimed := fun j hj hr => ?_ }
  · rw [(hsame e').2.2]
    exact h.delivered e' he' ((hsame e').1 ▸ hd)
  · rw [(hsame e').2.1]
    exact h.owner e' he'
  · rw [hlive_iff] at hl
    have hl' := h.live j e' hl
    rcases eq_or_ne e' e with rfl | hne
    · have hj : i = j := htimer.symm.trans hl.2.2
      subst hj
      rw [hself]
      refine ⟨hl'.inFlight, hl'.completionReady, hl'.completed, by simp, fun observer ho => ?_⟩
      exact ⟨hpub, Option.some.inj ho, hpend⟩
    · rw [hrow e' hne]
      refine { hl' with unobserved := fun hnone => ?_ }
      rcases hl'.unobserved hnone with ht | ht
      · rw [hthread] at ht
        cases ht
      · rw [hthread, Thread.observing.injEq] at ht
        exact absurd ht.2.symm hne
  · rw [hlive_iff] at h₁ h₂
    exact h.unique j e₁ e₂ h₁ h₂
  · by_cases hj' : j = i
    · subst hj'
      refine .inr ⟨hpub, .inr ⟨e, (hlive_iff j e).mpr ⟨helt, hdel, htimer⟩, ?_⟩⟩
      rw [hself]
      simp
    · rcases h.flight j hj hfj with hd | ⟨hp, hd⟩
      · rw [hthread] at hd
        exact absurd (by simpa [Thread.timer?] using hd.timer) (Ne.symm hj')
      · refine .inr ⟨hp, hd.imp_right ?_⟩
        rintro ⟨e', hl, ho⟩
        refine ⟨e', (hlive_iff j e').mpr hl, ?_⟩
        rcases eq_or_ne e' e with rfl | hne
        · rw [hself]
          simp
        · rwa [hrow e' hne]
  · obtain ⟨code, hcode⟩ := h.claimed j hj hr
    rw [hthread] at hcode
    cases hcode

end Dispatch

end Inv

end ServerCore.Runtime.TimerScheduler
