import ServerCore.Runtime.KeyedExecutorSteps

/-! The order in which `KeyedExecutor` runs the tasks of a key, and that no key is forgotten. -/

namespace ServerCore.Runtime.KeyedExecutor

open ServerCore.Core ServerCore.Foundations TaskRecord
open TaskExecutor (Outcome)

def State.line (s : State) (k : UInt64) : List ℕ :=
  s.started.filter (fun i => (s.task i).own.key = k) ++ (s.keys.slot k).queued

def Increasing (s : State) (ids : List ℕ) : Prop := ids.Pairwise fun i j => (s.task i).own.number < (s.task j).own.number

structure Ordered (s : State) : Prop where
  awake : ∀ k i rest, (s.keys.slot k).queued = i :: rest → (s.keys.slot k).busy = false →
    (s.keys.slot k).ready = true ∨ (s.task i).cancelReason ≠ .ok
  numbers : ∀ i < s.table.count, (s.task i).admitted = true → (s.task i).own.number < s.admissions
  started : ∀ i ∈ s.started, i < s.table.count ∧ (s.task i).admitted = true
  ran : ∀ i < s.table.count, 0 < (s.task i).runs ↔ i ∈ s.started
  order : ∀ k, Increasing s (s.line k)
  drained : ∀ w, s.threads w = .returned true → s.stopping = true ∧ s.tasks = []

structure Keeps (t t' : Task) : Prop where
  key : t'.own.key = t.own.key
  number : t.admitted = true → t'.admitted = true ∧ t'.own.number = t.own.number
  reason : t.cancelReason ≠ .ok → t'.cancelReason ≠ .ok

lemma Keeps.refl (t : Task) : Keeps t t := ⟨rfl, fun h => ⟨h, rfl⟩, id⟩

lemma Keeps.marks {t t' : Task} (h : Marks t t') : Keeps t t' :=
  ⟨by rw [h.own], fun hadm => ⟨h.admitted.trans hadm, by rw [h.own]⟩, h.cancelled⟩

lemma Increasing.congr {s s' : State} {ids ids' : List ℕ} (h : Increasing s ids) (hsub : ids'.Sublist ids)
    (hnumber : ∀ i ∈ ids, (s'.task i).own.number = (s.task i).own.number) : Increasing s' ids' := by
  refine List.Pairwise.sublist hsub (List.Pairwise.imp_of_mem (fun {i j} hi hj hlt => ?_) h)
  rw [hnumber i hi, hnumber j hj]
  exact hlt

namespace Ordered

variable {s : State}

lemma line_admitted (h : Ordered s) (hinv : Inv s) {k : UInt64} {i : ℕ} (hi : i ∈ s.line k) :
    i < s.table.count ∧ (s.task i).admitted = true := by
  rcases List.mem_append.mp hi with hi | hi
  · exact h.started i (List.mem_of_mem_filter hi)
  · obtain ⟨hlt, hadm, -⟩ := (hinv.queues k i).mp hi
    exact ⟨hlt, hadm⟩

lemma keep (h : Ordered s) (hinv : Inv s) {s' : State} (hcount : s.table.count ≤ s'.table.count)
    (hkeep : ∀ i < s.table.count, Keeps (s.task i) (s'.task i))
    (hruns : ∀ i < s.table.count, (s'.task i).runs = (s.task i).runs)
    (hnew : ∀ i < s'.table.count, s.table.count ≤ i ∨ (s.task i).admitted = false →
      (s'.task i).admitted = false ∧ (s.table.count ≤ i → (s'.task i).runs = 0))
    (hkeys : s'.keys = s.keys) (hadmissions : s'.admissions = s.admissions) (hstarted : s'.started = s.started)
    (hdrained : ∀ w, s'.threads w = .returned true → s'.stopping = true ∧ s'.tasks = []) : Ordered s' := by
  refine ⟨?_, ?_, ?_, ?_, ?_, hdrained⟩
  · intro k i rest hq hbusy
    rw [hkeys] at hq hbusy ⊢
    have hi := ((hinv.queues k i).mp (by simp [hq])).1
    exact (h.awake k i rest hq hbusy).imp_right (hkeep i hi).reason
  · intro i hi hadm
    rw [hadmissions]
    by_cases hold : i < s.table.count ∧ (s.task i).admitted = true
    · rw [((hkeep i hold.1).number hold.2).2]
      exact h.numbers i hold.1 hold.2
    · have := (hnew i hi (by simpa [or_iff_not_imp_left] using hold)).1
      simp [this] at hadm
  · intro i hi
    rw [hstarted] at hi
    obtain ⟨hlt, hadm⟩ := h.started i hi
    exact ⟨hlt.trans_le hcount, ((hkeep i hlt).number hadm).1⟩
  · intro i hi
    rw [hstarted]
    by_cases hold : i < s.table.count
    · rw [hruns i hold]
      exact h.ran i hold
    · have := (hnew i hi (.inl (by omega))).2 (by omega)
      simp only [this, lt_self_iff_false, false_iff]
      exact fun hmem => hold (h.started i hmem).1
  · intro k
    have hline : s'.line k = s.line k := by
      simp only [State.line, hkeys, hstarted]
      congr 1
      refine List.filter_congr fun i hi => ?_
      rw [(hkeep i (h.started i hi).1).key]
    rw [hline]
    refine (h.order k).congr (List.Sublist.refl _) fun i hi => ?_
    obtain ⟨hlt, hadm⟩ := h.line_admitted hinv hi
    exact ((hkeep i hlt).number hadm).2

lemma change (h : Ordered s) (hinv : Inv s) {s' : State} {i : ℕ} {t : Task} {b : Key} (hi : i < s.table.count)
    (hkeep : Keeps (s.task i) t) (htable : s'.table = s.table.set i t)
    (hkeys : s.keys.Sets (s.task i).own.key b s'.keys)
    (hawake : ∀ j rest, b.queued = j :: rest → b.busy = false → b.ready = true ∨ (s'.task j).cancelReason ≠ .ok)
    (hline : s'.admissions = s.admissions ∧ t.admitted = (s.task i).admitted ∧ t.runs = (s.task i).runs ∧
        s'.started = s.started ∧ b.queued.Sublist (s.keys.slot (s.task i).own.key).queued ∨
      s'.admissions = s.admissions ∧ t.admitted = (s.task i).admitted ∧ t.runs = (s.task i).runs + 1 ∧
        s'.started = s.started ++ [i] ∧ (s.keys.slot (s.task i).own.key).queued = i :: b.queued ∨
      s'.admissions = s.admissions + 1 ∧ (s.task i).admitted = false ∧ t.own.number = s.admissions ∧
        t.runs = (s.task i).runs ∧ s'.started = s.started ∧ b.queued = (s.keys.slot (s.task i).own.key).queued ++ [i])
    (hdrained : ∀ w, s'.threads w = .returned true → s'.stopping = true ∧ s'.tasks = []) : Ordered s' := by
  have hcount : s'.table.count = s.table.count := by rw [htable, Table.set_count]
  have hself : s'.task i = t := by rw [State.task, htable, Table.set_row_self]
  have hrow (j : ℕ) (hj : j ≠ i) : s'.task j = s.task j := by rw [State.task, htable, Table.set_row_ne _ _ hj]
  have hkeeps (j : ℕ) : Keeps (s.task j) (s'.task j) := by
    rcases eq_or_ne j i with rfl | hj
    · rw [hself]
      exact hkeep
    · rw [hrow j hj]
      exact .refl _
  have hfilter (k : UInt64) (ids : List ℕ) :
      ids.filter (fun j => (s'.task j).own.key = k) = ids.filter (fun j => (s.task j).own.key = k) :=
    List.filter_congr fun j _ => by rw [(hkeeps j).key]
  have hqueued (k : UInt64) (hk : k ≠ (s.task i).own.key) : (s'.keys.slot k).queued = (s.keys.slot k).queued := by
    rw [hkeys.slot_ne hk]
  refine ⟨?_, ?_, ?_, ?_, ?_, hdrained⟩
  · intro k j rest hq hbusy
    rw [hkeys.slot] at hq hbusy ⊢
    split_ifs at hq hbusy ⊢ with hk
    · exact hawake j rest hq hbusy
    · exact (h.awake k j rest hq hbusy).imp_right (hkeeps j).reason
  · intro j hj hadm
    rw [hcount] at hj
    rcases eq_or_ne j i with rfl | hne
    · rw [hself] at hadm ⊢
      rcases hline with ⟨ha, hadm', -⟩ | ⟨ha, hadm', -⟩ | ⟨ha, -, hn, -⟩
      · rw [ha, (hkeep.number (hadm' ▸ hadm)).2]
        exact h.numbers j hj (hadm' ▸ hadm)
      · rw [ha, (hkeep.number (hadm' ▸ hadm)).2]
        exact h.numbers j hj (hadm' ▸ hadm)
      · omega
    · rw [hrow j hne] at hadm ⊢
      have := h.numbers j hj hadm
      rcases hline with ⟨ha, -⟩ | ⟨ha, -⟩ | ⟨ha, -⟩ <;> omega
  · intro j hj
    rw [hcount]
    have hold : j ∈ s.started → j < s.table.count ∧ (s'.task j).admitted = true := fun hmem => by
      obtain ⟨hlt, hadm⟩ := h.started j hmem
      exact ⟨hlt, ((hkeeps j).number hadm).1⟩
    rcases hline with ⟨-, -, -, hs, -⟩ | ⟨-, -, -, hs, hq⟩ | ⟨-, -, -, -, hs, -⟩
    · exact hold (hs ▸ hj)
    · rw [hs, List.mem_append, List.mem_singleton] at hj
      rcases hj with hj | rfl
      · exact hold hj
      · obtain ⟨-, hadm, -⟩ := (hinv.queues _ j).mp (by rw [hq]; simp)
        exact ⟨hi, ((hkeeps j).number hadm).1⟩
    · exact hold (hs ▸ hj)
  · intro j hj
    rw [hcount] at hj
    have hold := h.ran j hj
    rcases hline with ⟨-, -, hr, hs, -⟩ | ⟨-, -, hr, hs, -⟩ | ⟨-, -, -, hr, hs, -⟩ <;> rcases eq_or_ne j i with rfl | hne <;>
      simp only [hs, hself, List.mem_append, List.mem_singleton] <;> simp_all
  · intro k
    rcases eq_or_ne k (s.task i).own.key with rfl | hk
    · have hnumber : ∀ j ∈ s.line (s.task i).own.key, (s'.task j).own.number = (s.task j).own.number := fun j hj =>
        ((hkeeps j).number (h.line_admitted hinv hj).2).2
      have hq : (s'.keys.slot (s.task i).own.key).queued = b.queued := by rw [hkeys.slot_self]
      rcases hline with ⟨-, -, -, hs, hsub⟩ | ⟨-, -, -, hs, hold⟩ | ⟨-, hadm, hn, -, hs, hnew⟩
      · refine (h.order _).congr ?_ hnumber
        rw [State.line, State.line, hfilter, hq, hs]
        exact List.Sublist.append_left hsub _
      · refine (h.order _).congr ?_ hnumber
        rw [State.line, State.line, hfilter, hq, hs, hold, List.filter_append]
        simp
      · have hl : s'.line (s.task i).own.key = s.line (s.task i).own.key ++ [i] := by
          rw [State.line, State.line, hfilter, hq, hs, hnew, List.append_assoc]
        rw [hl, Increasing, List.pairwise_append]
        refine ⟨(h.order _).congr (List.Sublist.refl _) hnumber, List.pairwise_singleton _ _, fun j hj l hl => ?_⟩
        rw [List.mem_singleton.mp hl, hself, hn, hnumber j hj]
        obtain ⟨hlt, hadm⟩ := h.line_admitted hinv hj
        exact h.numbers j hlt hadm
    · have hl : s'.line k = s.line k := by
        rw [State.line, State.line, hfilter, hqueued k hk]
        congr 1
        rcases hline with ⟨-, -, -, hs, -⟩ | ⟨-, -, -, hs, -⟩ | ⟨-, -, -, -, hs, -⟩
        · rw [hs]
        · rw [hs, List.filter_append]
          simp [Ne.symm hk]
        · rw [hs]
      rw [hl]
      refine (h.order k).congr (List.Sublist.refl _) fun j hj => ?_
      exact ((hkeeps j).number (h.line_admitted hinv hj).2).2

section Sections

variable {w : ℕ} {thread : Thread}

lemma drained_update (h : Ordered s) {s' : State} (hthreads : s'.threads = Function.update s.threads w thread)
    (hthread : thread ≠ .returned true) (hstop : s.stopping = true → s'.stopping = true)
    (htasks : s.stopping = true → s.tasks = [] → s'.tasks = []) :
    ∀ v, s'.threads v = .returned true → s'.stopping = true ∧ s'.tasks = [] := by
  intro v hv
  rw [hthreads, Function.update_apply] at hv
  split_ifs at hv
  · exact absurd hv hthread
  · obtain ⟨h₁, h₂⟩ := h.drained v hv
    exact ⟨hstop h₁, htasks h₁ h₂⟩

lemma goTo {t : Thread} (h : Ordered s) (hinv : Inv s) (hthread : t ≠ .returned true) : Ordered (s.goTo w t) := by
  refine h.keep hinv le_rfl (fun _ _ => .refl _) (fun _ _ => rfl) (fun i hi hnew => ?_) rfl rfl rfl ?_
  · rcases hnew with hlt | hadm
    · exact absurd hi (not_lt.mpr hlt)
    · exact ⟨hadm, fun hlt => absurd hi (not_lt.mpr hlt)⟩
  · exact h.drained_update rfl hthread id fun _ => id

lemma mark (h : Ordered s) (hinv : Inv s) {table : Table Task} (hm : TableMarks s.table table) :
    Ordered { s with table } := by
  refine h.keep hinv hm.1.ge (fun i _ => .marks (hm.2 i)) (fun i _ => (hm.2 i).runs) (fun i hi hnew => ?_) rfl rfl rfl
    h.drained
  simp only [hm.1] at hi
  rcases hnew with hlt | hadm
  · exact absurd hi (not_lt.mpr hlt)
  · exact ⟨(hm.2 i).admitted.trans hadm, fun hlt => absurd hi (not_lt.mpr hlt)⟩

lemma submit (h : Ordered s) (hinv : Inv s) (hasJob : Bool) (key : UInt64) (retainedBytes : ℕ) (deadline : Option ℕ) :
    Ordered (KeyedExecutor.submit s w hasJob key retainedBytes deadline) := by
  rw [KeyedExecutor.submit]
  split_ifs
  · exact h.goTo hinv (by simp)
  cases admission s key retainedBytes with
  | some code => exact h.goTo hinv (by simp)
  | none =>
    have hold (j : ℕ) (hj : j < s.table.count) (t : Task) : (s.table.push t).row j = s.table.row j := by
      rw [Table.push_row, if_neg hj.ne]
    refine h.keep hinv (Nat.le_succ _) (fun i hi => ?_) (fun i hi => ?_) (fun i hi hnew => ?_) rfl rfl rfl ?_
    · simp only [State.goTo, State.task, hold i hi]
      exact .refl _
    · simp only [State.goTo, State.task, hold i hi]
    · simp only [State.goTo, State.task, Table.push_row]
      split_ifs with heq
      · exact ⟨rfl, fun _ => rfl⟩
      · have hlt : i < s.table.count := by
          simp only [State.goTo, Table.push_count] at hi
          omega
        rcases hnew with hge | hadm
        · omega
        · exact ⟨hadm, fun hge => by omega⟩
    · exact h.drained_update rfl (by simp) id fun _ => id

lemma accept (h : Ordered s) (hinv : Inv s) {i : ℕ} (hw : s.threads w = .submitting i) (now : ℕ) :
    Ordered (KeyedExecutor.accept s w i now) := by
  obtain ⟨hi, hadm⟩ : i < s.table.count ∧ (s.task i).admitted = false := hinv.placed.at_task hw rfl
  have hphase : (s.task i).phase = .queued := (hinv.consistent i hi).waiting hadm
  rw [KeyedExecutor.accept]
  cases herr : admission s (s.task i).own.key (s.task i).retainedBytes with
  | some code => exact h.goTo hinv (by simp)
  | none =>
    have hroom := hinv.admission_room herr
    have hm := observeCancellation_marks now (t := s.task i) (.inl hphase)
    have hkeeps := Keeps.marks hm
    refine h.change hinv hi (t := { observeCancellation now (s.task i) with admitted := true, own.number := s.admissions })
      ⟨hkeeps.key, fun hadm' => ?_, hkeeps.reason⟩ rfl (Keys.sets_enqueue rfl (Nat.succ_pos _)) ?_
      (.inr (.inr ⟨rfl, hadm, rfl, hm.runs, rfl, rfl⟩)) ?_
    · simp only [State.task] at hadm'
      simp [hadm'] at hadm
    · intro j rest _ hbusy
      refine .inl (Keys.enqueued_awake hbusy ?_)
      simp [Key.accept]
    · refine h.drained_update rfl (by simp) id fun hstop _ => ?_
      simp [hroom.accepting] at hstop

lemma pick (h : Ordered s) (hinv : Inv s) (now : ℕ) :
    Ordered (KeyedExecutor.pick s w now) := by
  rw [KeyedExecutor.pick]
  split_ifs with hstop hready
  · exact h.goTo hinv (by simp)
  · cases hhead : s.keys.ready.head with
    | none => exact h
    | some k =>
      obtain ⟨hkready, hbusy, i, rest, hq, hi, hadm, hphase, hk⟩ := hinv.head_front hhead
      have hslot : (s.keys.removeReady k).slot k = { s.keys.slot k with ready := false } := by
        rw [Keys.removeReady_slot, if_pos rfl]
      obtain ⟨hmem, hpos⟩ := hinv.key_present hi hadm (by simp [hphase])
      rw [hk] at hmem hpos
      have hdrop := Keys.sets_drop hmem hpos
      have hm := observeCancellation_marks now (t := s.task i) (.inl hphase)
      simp only [hslot, hq]
      generalize observeCancellation now (s.task i) = o at hm
      have hkeeps := Keeps.marks hm
      split_ifs with hreason
      · refine h.change hinv hi (b := { s.keys.slot k with ready := false }) hkeeps rfl (hk ▸ hdrop)
          (fun j others hj _ => .inr ?_) (.inl ⟨rfl, hm.admitted, hm.runs, rfl, by rw [hk]⟩) h.drained
        simp only [hq, List.cons.injEq] at hj
        rw [← hj.1, State.task, Table.set_row_self]
        exact hreason
      · have hsets : s.keys.Sets k { s.keys.slot k with queued := rest, busy := true, ready := false }
            ((s.keys.removeReady k).put k { s.keys.slot k with queued := rest, busy := true, ready := false }) := by
          refine hdrop.trans (Keys.sets_put ?_ hpos)
          rw [hslot]
        refine h.change hinv hi (t := { o with phase := .running, own.occupying := true, runs := o.runs + 1 })
          (b := { s.keys.slot k with queued := rest, busy := true, ready := false })
          ⟨hkeeps.key, hkeeps.number, hkeeps.reason⟩ rfl (hk ▸ hsets) (fun _ _ _ hb => by simp at hb)
          (.inr (.inl ⟨rfl, hm.admitted, congrArg (· + 1) hm.runs, rfl, by rw [hk, hq]⟩)) ?_
        exact h.drained_update rfl (by simp) id fun _ => id
  · exact h

lemma finish (h : Ordered s) (hinv : Inv s) {i : ℕ} (hw : s.threads w = .executing i) (outcome : Outcome) (now : ℕ) :
    Ordered (KeyedExecutor.finish s w i outcome now) := by
  obtain ⟨hi, hadm, hphase⟩ := hinv.placed.at_task hw rfl
  have hm := observeCancellation_marks now (t := s.task i) (.inr hphase)
  have hkeeps := Keeps.marks hm
  refine h.change hinv hi (t := { observeCancellation now (s.task i) with phase := .completing })
    ⟨hkeeps.key, hkeeps.number, hkeeps.reason⟩ rfl (Keys.Sets.refl (hinv.present _)) (fun j rest hq hbusy => ?_)
    (.inl ⟨rfl, hm.admitted, hm.runs, rfl, .refl _⟩) ?_
  · refine (h.awake _ j rest hq hbusy).imp_right fun hne => ?_
    simp only [KeyedExecutor.finish, State.goTo, State.task, Table.set_row] at hne ⊢
    split_ifs with hj
    · rw [hj] at hne
      exact hm.cancelled hne
    · exact hne
  · exact h.drained_update rfl (by simp) id fun _ => id

lemma withdraw (h : Ordered s) (hinv : Inv s) {i : ℕ} (hi : i < s.table.count) (hadm : (s.task i).admitted = true)
    (hphase : (s.task i).phase = .queued) : Ordered (KeyedExecutor.withdraw s w i) := by
  obtain ⟨b, hb, hsets⟩ := hinv.withdraw_keys (w := w) hi hadm hphase
  refine h.change hinv hi (t := { s.task i with signalSent := true, phase := .completing })
    ⟨rfl, fun hadm => ⟨hadm, rfl⟩, id⟩ rfl hsets (fun j rest hq hbusy => .inl (hb.awake hbusy (by simp [hq])))
    (.inl ⟨rfl, rfl, rfl, rfl, ?_⟩) ?_
  · rw [hb.queued]
    exact List.filter_sublist
  · exact h.drained_update rfl (by simp) id fun _ => id

lemma coordinate (h : Ordered s) (hinv : Inv s) (now : ℕ) : Ordered (KeyedExecutor.coordinate s w now) := by
  obtain ⟨hm, hsome⟩ := hinv.findCancelled_marks now
  rw [KeyedExecutor.coordinate]
  generalize findCancelled now s.tasks s.table = found at hm hsome
  obtain ⟨table, found⟩ := found
  have hmarked := hinv.mark hm
  have hordered := h.mark hinv hm
  cases found with
  | none =>
    simp only
    split_ifs with hstop
    · -- the coordinator leaves only behind the last task
      refine { hordered.goTo (t := .returned false) (w := w) hmarked (by simp) with drained := fun v _ => ?_ }
      rw [Bool.and_eq_true, List.isEmpty_iff] at hstop
      exact hstop
    · exact hordered
  | some i =>
    obtain ⟨hmem, hne⟩ := hsome i rfl
    obtain ⟨hi, hadm, -⟩ := (hmarked.listed i).mp hmem
    simp only
    split_ifs with hq
    · exact hordered.withdraw hmarked hi hadm hq
    · exact hordered.mark hmarked (tableMarks_set { Marks.refl (table.row i) with signalSent := .inr hq })

lemma publish (h : Ordered s) (hinv : Inv s) {i : ℕ} {result : Status} {occupiedKey : Bool}
    (hw : s.threads w = .publishing i result occupiedKey) :
    Ordered (KeyedExecutor.publish s w i result occupiedKey) := by
  obtain ⟨hi, hadm, hphase, hocc⟩ := hinv.placed.at_task hw rfl
  obtain ⟨b, hb, hsets⟩ := hinv.publish_keys (w := w) hi hadm hphase hocc
  refine h.change hinv hi (t := Inv.done (s.task i) result) ⟨rfl, fun hadm => ⟨hadm, rfl⟩, id⟩ rfl hsets
    (fun j rest hq hbusy => .inl (hb.awake hbusy (by simp [hq]))) (.inl ⟨rfl, rfl, rfl, rfl, ?_⟩) ?_
  · rw [hb.queued]
    exact .refl _
  · refine h.drained_update rfl (by simp) id fun _ hnil => ?_
    simp [KeyedExecutor.publish, State.goTo, hnil]

end Sections

lemma step (h : Ordered s) (hinv : Inv s) {e : Event} {s' : State} (hs : KeyedExecutor.step s e = some s') :
    Ordered s' := by
  cases e with
  | becomeReady =>
    obtain rfl := Option.some.inj hs
    exact { h with }
  | submit w hasJob key retainedBytes deadline =>
    simp only [KeyedExecutor.step] at hs
    split at hs <;> cases hs
    exact h.submit hinv hasJob key retainedBytes deadline
  | accept w now =>
    simp only [KeyedExecutor.step] at hs
    split at hs <;> cases hs
    exact h.accept hinv ‹_› now
  | rejected w =>
    simp only [KeyedExecutor.step] at hs
    split at hs <;> cases hs
    exact { h.goTo (w := w) hinv (by simp) with }
  | cancel i now =>
    simp only [KeyedExecutor.step] at hs
    split_ifs at hs
    obtain rfl := Option.some.inj hs
    exact h.mark hinv (tableMarks_set (cancel_marks _ now))
  | stopParent i =>
    simp only [KeyedExecutor.step] at hs
    split_ifs at hs
    obtain rfl := Option.some.inj hs
    exact h.mark hinv (tableMarks_set (parent_marks _))
  | requestStop clock =>
    obtain rfl := Option.some.inj hs
    have hm := h.mark hinv (hinv.stopTasks_marks clock)
    exact { hm with drained := fun w hw => ⟨rfl, (hm.drained w hw).2⟩ }
  | pick w now =>
    simp only [KeyedExecutor.step] at hs
    split at hs <;> cases hs
    exact h.pick hinv now
  | finish w outcome now =>
    simp only [KeyedExecutor.step] at hs
    split at hs <;> cases hs
    exact h.finish hinv ‹_› outcome now
  | coordinate w now =>
    simp only [KeyedExecutor.step] at hs
    split at hs <;> cases hs
    exact h.coordinate hinv now
  | publish w =>
    simp only [KeyedExecutor.step] at hs
    split at hs <;> cases hs
    exact h.publish hinv ‹_›
  | notified w =>
    simp only [KeyedExecutor.step] at hs
    split at hs <;> cases hs
    refine h.goTo hinv ?_
    split_ifs <;> simp

lemma initial (h : Initial s) : Ordered s := by
  have hslot (k : UInt64) : s.keys.slot k = {} := KeyMap.getD_of_notMem (by simp [h.keys]) _
  refine ⟨fun k => by simp [hslot], by simp [h.table], by simp [h.started], by simp [h.table], fun k => ?_, fun w hw => ?_⟩
  · simp [State.line, h.started, hslot, Increasing]
  · rcases h.threads w with hw' | hw' | hw' <;> simp [hw'] at hw

lemma reachable (h : Reachable KeyedExecutor.step Initial s) : Inv s ∧ Ordered s :=
  h.invariant (P := fun s => Inv s ∧ Ordered s) (fun _ h₀ => ⟨Inv.initial h₀, initial h₀⟩)
    fun _ _ _ ht hs => ⟨ht.1.step hs, ht.2.step ht.1 hs⟩

end Ordered

end ServerCore.Runtime.KeyedExecutor
