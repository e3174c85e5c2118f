import Mathlib.Data.List.Nodup
import ServerCore.Core.Status
import ServerCore.Foundations.Table
import ServerCore.Foundations.Transition

/-! The parse workers: every job that was accepted is run or discarded once, by whatever threads. -/

namespace ServerCore.Runtime.ParseWorkerPool

open ServerCore.Core Foundations

inductive Worker
  | waiting
  | running (job : ℕ)
  | exited
  deriving DecidableEq

def Worker.runs (job : ℕ) (w : Worker) : Bool := w = .running job

/-- `StopAndDiscard` behind its section, or a `Start` that failed. `joins` holds where it has taken the threads. -/
inductive Stop
  | discarding (jobs : List ℕ) (joins : Bool)
  | joining (joins : Bool)
  | returned (joins : Bool)
  deriving DecidableEq

def Stop.joins : Stop → Bool
  | .discarding _ joins | .joining joins | .returned joins => joins

def Stop.left : Stop → List ℕ
  | .discarding jobs _ => jobs
  | _ => []

/-- Jobs are numbered as they are accepted; `joinable` says that `mWorkers` has the threads. -/
structure State where
  jobs : Option (List ℕ) := some []
  started : Bool := false
  accepting : Bool := false
  stopRequested : Bool := false
  joinable : Bool := false
  workers : Table Worker := ⟨0, fun _ => .exited⟩
  stops : Table Stop := ⟨0, fun _ => .returned false⟩
  posted : ℕ := 0
  taken : List ℕ := []
  finished : List ℕ := []
  discarded : List ℕ := []

inductive Event
  | start (workerThreadCount : ℤ) (created : Option ℕ)
  | post (callable allocated : Bool)
  | stopAndDiscard
  | take (worker : ℕ)
  | finish (worker : ℕ)
  | advance (stop : ℕ)

namespace State

/-- `created` is how many threads there can be, `none` where their vector cannot be allocated. -/
def start (workerThreadCount : ℤ) (created : Option ℕ) (s : State) : ErrorCode × State :=
  if workerThreadCount ≤ 0 then (.invalidArgument, s)
  else if s.started then (.alreadyExists, s)
  else
    match created with
    | none => (.platformError, s)
    | some n =>
      if workerThreadCount ≤ n then (.ok, { s with
        started := true
        accepting := true
        joinable := true
        workers := ⟨workerThreadCount.toNat, fun _ => .waiting⟩ })
      else (.platformError, { s with
        started := true
        stopRequested := true
        workers := ⟨n, fun _ => .waiting⟩
        stops := s.stops.push (.joining true) })

def post (callable allocated : Bool) (s : State) : Option (ErrorCode × State) :=
  if !callable then some (.invalidArgument, s)
  else if !allocated then some (.platformError, s)
  else if !s.accepting then some (.closed, s)
  else s.jobs.map fun jobs => (.ok, { s with jobs := some (jobs ++ [s.posted]), posted := s.posted + 1 })

def stopAndDiscard (s : State) : State :=
  if !s.started then s
  else { s with
    accepting := false
    stopRequested := true
    joinable := false
    jobs := none
    stops := s.stops.push (.discarding (s.jobs.getD []) s.joinable) }

def take (i : ℕ) (s : State) : Option State :=
  match s.jobs with
  | some (job :: rest) => some { s with jobs := some rest, taken := s.taken ++ [job], workers := s.workers.set i (.running job) }
  | _ => if s.stopRequested then some { s with workers := s.workers.set i .exited } else none

/-- The rest of `StopAndDiscard`: the destructors of the jobs, then the joins. -/
def advance (i : ℕ) (s : State) : Option State :=
  match s.stops.row i with
  | .discarding (job :: rest) joins => some { s with discarded := s.discarded ++ [job], stops := s.stops.set i (.discarding rest joins) }
  | .discarding [] joins => some { s with stops := s.stops.set i (.joining joins) }
  | .joining joins =>
    if joins → ∀ w < s.workers.count, s.workers.row w = .exited then some { s with stops := s.stops.set i (.returned joins) } else none
  | .returned _ => none

end State

def step (s : State) : Event → Option State
  | .start workerThreadCount created => some (s.start workerThreadCount created).2
  | .post callable allocated => (s.post callable allocated).map Prod.snd
  | .stopAndDiscard => some s.stopAndDiscard
  | .take i => if i < s.workers.count ∧ s.workers.row i = .waiting then s.take i else none
  | .finish i =>
    if i < s.workers.count then
      match s.workers.row i with
      | .running job => some { s with finished := s.finished ++ [job], workers := s.workers.set i .waiting }
      | _ => none
    else none
  | .advance i => if i < s.stops.count then s.advance i else none

def Initial (s : State) : Prop := s = {}

section Accounts

variable {s s' : State} {i j : ℕ}

def State.copies (s : State) (j : ℕ) : ℕ :=
  s.taken.count j + (s.jobs.getD []).count j + s.discarded.count j + s.stops.total fun stop => stop.left.count j

structure Inv (s : State) : Prop where
  once : ∀ j, s.copies j = (List.range s.posted).count j
  order : ∀ jobs, s.jobs = some jobs → s.taken ++ jobs = List.range s.posted
  front : s.taken <+: List.range s.posted
  runs : ∀ j, s.taken.count j = s.finished.count j + s.workers.tally (Worker.runs j)
  fresh : s.started = false → s.accepting = false ∧ s.stopRequested = false ∧ s.workers.count = 0
  live : s.started = true → s.accepting = true ∨ s.stopRequested = true
  empty : s.started = false → ∀ jobs, s.jobs = some jobs → jobs = []
  gone : s.jobs = none ∨ s.stops.count ≠ 0 → s.stopRequested = true
  stopped : s.stopRequested = true → s.accepting = false ∧ s.jobs.getD [] = []
  single : s.stops.tally Stop.joins + s.joinable.toNat ≤ 1
  joinable : s.joinable = s.accepting
  owner : ∀ i < s.stops.count, (s.stops.row i).joins = false → (s.stops.row i).left = []
  joined : ∀ i < s.stops.count, s.stops.row i = .returned true → ∀ w < s.workers.count, s.workers.row w = .exited

lemma count_job (job : ℕ) (rest : List ℕ) (j : ℕ) : (job :: rest).count j = [job].count j + rest.count j := by
  rw [← List.singleton_append, List.count_append]

lemma Inv.initial : Inv {} := by
  refine ⟨fun _ => rfl, ?_, List.prefix_rfl, fun _ => rfl, fun _ => ⟨rfl, rfl, rfl⟩, ?_, ?_, ?_, ?_, Nat.zero_le _, rfl, ?_, ?_⟩
  · rintro _ ⟨⟩
    rfl
  · intro h
    cases h
  · rintro - _ ⟨⟩
    rfl
  · rintro (h | h)
    · cases h
    · exact absurd rfl h
  · intro h
    cases h
  · intro i hi
    cases hi
  · intro i hi
    cases hi

lemma Inv.start (h : Inv s) (n : ℤ) (created : Option ℕ) : Inv (s.start n created).2 := by
  rw [State.start.eq_def]
  by_cases hn : n ≤ 0
  · rwa [if_pos hn]
  rw [if_neg hn]
  by_cases hstarted : s.started = true
  · rwa [if_pos hstarted]
  rw [if_neg hstarted]
  obtain ⟨haccepting, hrequested, hcount⟩ := h.fresh (Bool.eq_false_iff.mpr hstarted)
  have hstops : s.stops.count = 0 := by
    by_contra hne
    rw [h.gone (.inr hne)] at hrequested
    cases hrequested
  have hidle (j : ℕ) : s.workers.tally (Worker.runs j) = 0 := by
    apply Table.tally_none
    intro i hi
    rw [hcount] at hi
    cases hi
  have hruns (m j : ℕ) : s.taken.count j = s.finished.count j + (⟨m, fun _ => .waiting⟩ : Table Worker).tally (Worker.runs j) := by
    rw [h.runs, hidle, Table.tally_none fun _ _ => rfl]
  have hnone : s.stops.tally Stop.joins = 0 := by
    apply Table.tally_none
    intro i hi
    rw [hstops] at hi
    cases hi
  cases created with
  | none => exact h
  | some m =>
    by_cases hm : n ≤ m
    · simp only [if_pos hm]
      exact { h with
        runs := hruns _
        fresh := fun hs => by cases hs
        empty := fun hs => by cases hs
        live := fun _ => .inl rfl
        stopped := fun hs => by
          rw [hrequested] at hs
          cases hs
        single := by
          rw [hnone]
          exact le_rfl
        joinable := rfl
        joined := fun i hi => by
          rw [hstops] at hi
          cases hi }
    · simp only [if_neg hm]
      have hempty : s.jobs.getD [] = [] := by
        cases hjobs : s.jobs with
        | none =>
          rw [h.gone (.inl hjobs)] at hrequested
          cases hrequested
        | some jobs => exact h.empty (Bool.eq_false_iff.mpr hstarted) jobs hjobs
      exact { h with
        once := fun j => by
          rw [← h.once j]
          exact congrArg _ (Table.total_push s.stops _ _)
        runs := hruns _
        fresh := fun hs => by cases hs
        empty := fun hs => by cases hs
        live := fun _ => .inr rfl
        gone := fun _ => rfl
        stopped := fun _ => ⟨haccepting, hempty⟩
        single := by
          have hjoin := Table.tally_push s.stops (.joining true) Stop.joins
          rw [hnone] at hjoin
          rw [hjoin, h.joinable, haccepting]
          exact le_rfl
        owner := fun i hi hj => by
          rw [Table.push_row] at hj ⊢
          split_ifs at hj with heq
          · cases hj
          · rw [if_neg heq]
            exact h.owner i (by rw [Table.push_count] at hi; omega) hj
        joined := fun i hi hr => by
          rw [Table.push_row] at hr
          rw [Table.push_count, hstops] at hi
          rw [if_pos (by omega)] at hr
          cases hr }

lemma Inv.post (h : Inv s) {callable allocated : Bool} {code : ErrorCode} (hs : s.post callable allocated = some (code, s')) :
    Inv s' := by
  rw [State.post] at hs
  split at hs
  · obtain ⟨-, rfl⟩ := of_some_pair hs
    exact h
  split at hs
  · obtain ⟨-, rfl⟩ := of_some_pair hs
    exact h
  split at hs
  · obtain ⟨-, rfl⟩ := of_some_pair hs
    exact h
  rename_i haccepting
  obtain ⟨jobs, hjobs, heq⟩ := Option.map_eq_some_iff.mp hs
  obtain ⟨-, rfl⟩ := Prod.mk.inj heq
  have horder := h.order jobs hjobs
  exact { h with
    once := fun j => by
      have honce := h.once j
      rw [State.copies, hjobs] at honce
      rw [State.copies, List.range_succ, List.count_append, ← honce]
      show _ + (jobs ++ [s.posted]).count j + _ + _ = _
      rw [List.count_append]
      simp only [Option.getD_some]
      omega
    order := by
      rintro _ ⟨⟩
      rw [← List.append_assoc, horder, List.range_succ]
    front := by
      rw [List.range_succ]
      exact h.front.trans (List.prefix_append _ _)
    fresh := fun hs => absurd (h.fresh hs).1 (by simpa using haccepting)
    empty := fun hs => absurd (h.fresh hs).1 (by simpa using haccepting)
    gone := fun hs => h.gone (hs.imp (fun hn => by cases hn) id)
    stopped := fun hs => absurd (h.stopped hs).1 (by simpa using haccepting) }

lemma Inv.stopAndDiscard (h : Inv s) : Inv s.stopAndDiscard := by
  rw [State.stopAndDiscard]
  by_cases hstarted : s.started = true
  · rw [if_neg (by simp [hstarted])]
    exact { h with
      once := fun j => by
        rw [← h.once j, State.copies, State.copies]
        show _ + List.count j [] + _ + (s.stops.push (.discarding (s.jobs.getD []) s.joinable)).total _ = _
        rw [Table.total_push, List.count_nil]
        simp only [Stop.left]
        omega
      order := fun jobs hj => by cases hj
      fresh := fun hs => by
        rw [hstarted] at hs
        cases hs
      live := fun _ => .inr rfl
      empty := fun _ jobs hj => by cases hj
      gone := fun _ => rfl
      stopped := fun _ => ⟨rfl, rfl⟩
      single := by
        have hjoin := Table.tally_push s.stops (.discarding (s.jobs.getD []) s.joinable) Stop.joins
        rw [hjoin]
        exact h.single
      joinable := rfl
      owner := fun i hi hj => by
        rw [Table.push_row] at hj ⊢
        split_ifs at hj ⊢ with heq
        · obtain hopen | hrequested := h.live hstarted
          · rw [← h.joinable, show s.joinable = false from hj] at hopen
            cases hopen
          · exact (h.stopped hrequested).2
        · exact h.owner i (by rw [Table.push_count] at hi; omega) hj
      joined := fun i hi hr => by
        rw [Table.push_row] at hr
        split_ifs at hr with heq
        exact h.joined i (by rw [Table.push_count] at hi; omega) hr }
  · rwa [if_pos (by simpa using hstarted)]

/-- The step of one worker that was not through. -/
lemma Inv.work (h : Inv s) (hi : i < s.workers.count) (hlive : s.workers.row i ≠ .exited) {w : Worker} {jobs : Option (List ℕ)}
    {taken finished : List ℕ} (honce : ∀ j, taken.count j + (jobs.getD []).count j = s.taken.count j + (s.jobs.getD []).count j)
    (horder : ∀ rest, jobs = some rest → taken ++ rest = List.range s.posted) (hfront : taken <+: List.range s.posted)
    (hruns : ∀ j, taken.count j + ((s.workers.row i).runs j).toNat + s.finished.count j =
      s.taken.count j + (w.runs j).toNat + finished.count j)
    (hgone : jobs = none → s.jobs = none) (hempty : s.jobs.getD [] = [] → jobs.getD [] = []) :
    Inv { s with jobs := jobs, taken := taken, finished := finished, workers := s.workers.set i w } :=
  { h with
    once := fun j => by
      rw [← h.once j, State.copies, State.copies]
      have := honce j
      dsimp only
      omega
    order := horder
    front := hfront
    runs := fun j => by
      have hset := Table.tally_set hi w (Worker.runs j)
      have := h.runs j
      have := hruns j
      dsimp only
      omega
    fresh := fun hs => by
      obtain ⟨-, -, hcount⟩ := h.fresh hs
      rw [hcount] at hi
      cases hi
    empty := fun hs => by
      obtain ⟨-, -, hcount⟩ := h.fresh hs
      rw [hcount] at hi
      cases hi
    gone := fun hs => h.gone (hs.imp hgone id)
    stopped := fun hs => ⟨(h.stopped hs).1, hempty (h.stopped hs).2⟩
    joined := fun k hk hr => absurd (h.joined k hk hr i hi) hlive }

lemma Inv.take (h : Inv s) (hi : i < s.workers.count) (hw : s.workers.row i = .waiting) (hs : s.take i = some s') : Inv s' := by
  have hlive : s.workers.row i ≠ .exited := by
    rw [hw]
    simp
  rw [State.take.eq_def] at hs
  split at hs
  · rename_i job rest hjobs
    obtain rfl := Option.some.inj hs
    have horder := h.order _ hjobs
    refine @Inv.work s i h hi hlive (.running job) (some rest) (s.taken ++ [job]) s.finished ?_ ?_ ⟨rest, ?_⟩ ?_ (fun hn => by cases hn) ?_
    · intro j
      rw [hjobs, List.count_append, Option.getD_some, Option.getD_some, count_job job rest]
      omega
    · rintro _ ⟨⟩
      rw [← horder, List.append_assoc, List.singleton_append]
    · rw [← horder, List.append_assoc, List.singleton_append]
    · intro j
      rw [hw, List.count_append]
      by_cases hj : job = j
      · subst hj
        simp [Worker.runs]
      · simp [Worker.runs, hj]
    · intro hempty
      rw [hjobs] at hempty
      cases hempty
  · obtain ⟨-, rfl⟩ := of_guard hs
    exact @Inv.work s i h hi hlive .exited s.jobs s.taken s.finished (fun _ => rfl) h.order h.front
      (fun j => by rw [hw]; rfl) id id

lemma Inv.finish (h : Inv s) (hi : i < s.workers.count) (hw : s.workers.row i = .running j) :
    Inv { s with finished := s.finished ++ [j], workers := s.workers.set i .waiting } := by
  refine @Inv.work s i h hi (by simp [hw]) .waiting s.jobs s.taken (s.finished ++ [j]) (fun _ => rfl) h.order h.front ?_ id id
  intro k
  rw [hw, List.count_append]
  by_cases hk : j = k
  · subst hk
    simp [Worker.runs]
    omega
  · simp [Worker.runs, hk]

lemma Inv.advance (h : Inv s) (hi : i < s.stops.count) (hs : s.advance i = some s') : Inv s' := by
  have hmove {stop : Stop} {discarded : List ℕ} (hjoins : stop.joins = (s.stops.row i).joins)
      (hleft : ∀ j, discarded.count j + stop.left.count j = s.discarded.count j + (s.stops.row i).left.count j)
      (hnone : (s.stops.row i).left = [] → stop.left = [])
      (hover : stop = .returned true → ∀ w < s.workers.count, s.workers.row w = .exited) :
      Inv { s with discarded := discarded, stops := s.stops.set i stop } := { h with
    once := fun j => by
      have hset := Table.total_set hi stop fun stop => stop.left.count j
      have := hleft j
      rw [← h.once j, State.copies, State.copies]
      dsimp only at hset ⊢
      omega
    single := by
      have hset := Table.tally_set hi stop Stop.joins
      have := h.single
      rw [hjoins] at hset
      dsimp only
      omega
    owner := fun k hk hj => by
      rw [Table.set_row] at hj ⊢
      split_ifs at hj ⊢ with heq
      · exact hnone (h.owner i hi (hjoins.symm.trans hj))
      · exact h.owner k hk hj
    joined := fun k hk hr => by
      rw [Table.set_row] at hr
      split_ifs at hr with heq
      · exact hover hr
      · exact h.joined k hk hr }
  rw [State.advance.eq_def] at hs
  split at hs
  · rename_i job rest joins hrow
    obtain rfl := Option.some.inj hs
    refine hmove (by rw [hrow]; rfl) (fun j => ?_) (fun hnone => ?_) fun hr => by cases hr
    · rw [hrow, List.count_append]
      have := count_job job rest j
      simp only [Stop.left]
      omega
    · rw [hrow] at hnone
      cases hnone
  · rename_i joins hrow
    obtain rfl := Option.some.inj hs
    exact hmove (by rw [hrow]; rfl) (fun j => by rw [hrow]; rfl) (fun _ => rfl) fun hr => by cases hr
  · rename_i joins hrow
    obtain ⟨hexited, rfl⟩ := of_guard hs
    refine hmove (by rw [hrow]; rfl) (fun j => by rw [hrow]; rfl) (fun _ => rfl) fun hr => hexited ?_
    injection hr
  · cases hs

lemma Inv.step {e : Event} (h : Inv s) (hs : step s e = some s') : Inv s' := by
  cases e with
  | start n created =>
    obtain rfl := Option.some.inj hs
    exact h.start n created
  | post callable allocated =>
    obtain ⟨answer, hpost, rfl⟩ := Option.map_eq_some_iff.mp hs
    exact h.post hpost
  | stopAndDiscard =>
    obtain rfl := Option.some.inj hs
    exact h.stopAndDiscard
  | take i =>
    obtain ⟨hi, hs⟩ := Option.ite_none_right_eq_some.mp hs
    exact h.take hi.1 hi.2 hs
  | finish i =>
    obtain ⟨hi, hs⟩ := Option.ite_none_right_eq_some.mp hs
    split at hs
    · rename_i job hrow
      obtain rfl := Option.some.inj hs
      exact h.finish hi hrow
    · cases hs
  | advance i =>
    obtain ⟨hi, hs⟩ := Option.ite_none_right_eq_some.mp hs
    exact h.advance hi hs

/-- Every job that was accepted is at one place: in the queue, taken by a worker in the order of the queue and run once, or
left to a `StopAndDiscard` and destroyed. The queue is not used once it is gone, and behind the call that joins the
workers no job is left. -/
theorem jobs_run_or_discarded_once (h : Reachable ParseWorkerPool.step Initial s) :
    (∀ j, s.copies j = (List.range s.posted).count j) ∧ s.taken <+: List.range s.posted ∧
    (∀ j, s.taken.count j = s.finished.count j + s.workers.tally (Worker.runs j)) ∧
    (s.jobs = none → s.accepting = false ∧ s.stopRequested = true) ∧
    ∀ i < s.stops.count, s.stops.row i = .returned true →
      (∀ w < s.workers.count, s.workers.row w = .exited) ∧ s.accepting = false ∧
      (s.finished ++ s.discarded).Perm (List.range s.posted) := by
  have hinv : Inv s := h.invariant (fun s hs => hs ▸ Inv.initial) fun _ _ _ ht hstep => ht.step hstep
  refine ⟨hinv.once, hinv.front, hinv.runs, fun hgone => ?_, fun i hi hr => ?_⟩
  · have hrequested := hinv.gone (.inl hgone)
    exact ⟨(hinv.stopped hrequested).1, hrequested⟩
  · have hexited := hinv.joined i hi hr
    obtain ⟨hclosed, hempty⟩ := hinv.stopped (hinv.gone (.inr (by omega)))
    refine ⟨hexited, hclosed, List.perm_iff_count.mpr fun j => ?_⟩
    have hnone : s.workers.tally (Worker.runs j) = 0 := by
      apply Table.tally_none
      intro w hw
      rw [hexited w hw]
      rfl
    have hleft : (s.stops.total fun stop => stop.left.count j) = 0 := by
      refine Finset.sum_eq_zero fun k hk => ?_
      have hk := Finset.mem_range.mp hk
      by_cases hjoins : (s.stops.row k).joins = true
      · have hone := hinv.single
        obtain rfl := Table.eq_of_tally_le_one (by omega) hk hi hjoins (by rw [hr]; rfl)
        rw [hr]
        rfl
      · have hempty := hinv.owner k hk (Bool.eq_false_iff.mpr hjoins)
        simp [hempty]
    have hplaces := hinv.once j
    rw [State.copies, hempty, hleft, hinv.runs, hnone] at hplaces
    rw [List.count_append, ← hplaces]
    rfl

def twoJobs : List Event :=
  [.start 1 (some 1), .post true true, .post true true, .take 0, .stopAndDiscard, .finish 0, .take 0, .advance 0, .advance 0, .advance 0]

theorem jobs_run_or_discarded_once_two : ∃ s, Reachable ParseWorkerPool.step Initial s ∧ s.finished = [0] ∧ s.discarded = [1] ∧
    (s.finished ++ s.discarded).Perm (List.range s.posted) := by
  have hrun : (run ParseWorkerPool.step {} twoJobs).map (fun s => (s.finished, s.discarded, s.stops.count, s.stops.row 0)) =
      some ([0], [1], 1, .returned true) := by decide +kernel
  obtain ⟨s, hs, heq⟩ := Option.map_eq_some_iff.mp hrun
  obtain ⟨hfinished, heq⟩ := Prod.mk.inj heq
  obtain ⟨hdiscarded, heq⟩ := Prod.mk.inj heq
  obtain ⟨hcount, hrow⟩ := Prod.mk.inj heq
  have hreach : Reachable ParseWorkerPool.step Initial s := ⟨{}, rfl, twoJobs, hs⟩
  exact ⟨s, hreach, hfinished, hdiscarded, ((jobs_run_or_discarded_once hreach).2.2.2.2 0 (by omega) hrow).2.2⟩

end Accounts

end ServerCore.Runtime.ParseWorkerPool
