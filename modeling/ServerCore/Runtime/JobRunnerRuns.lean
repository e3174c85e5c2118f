import ServerCore.Runtime.JobRunner

/-! What a `JobRunner` keeps in every run: the order of its jobs and the accounts of its two budgets. -/

namespace ServerCore.Runtime.JobRunner

open ServerCore.Core ServerCore.Foundations

def laneCount (control : Bool) (jobs : List QueuedJob) : ℕ := jobs.countP fun job => job.control == control

def laneBytes (control : Bool) (jobs : List QueuedJob) : ℕ := ((jobs.filter fun job => job.control == control).map QueuedJob.bytes).sum

def Consumer.jobs : Consumer → List QueuedJob
  | running job | releasing job => [job]
  | _ => []

@[simp] lemma jobs_inactive : Consumer.inactive.jobs = [] := rfl

@[simp] lemma jobs_waiting : Consumer.waiting.jobs = [] := rfl

@[simp] lemma jobs_running (job : QueuedJob) : (Consumer.running job).jobs = [job] := rfl

@[simp] lemma jobs_releasing (job : QueuedJob) : (Consumer.releasing job).jobs = [job] := rfl

def ReservationPhase.charged (phase : ReservationPhase) : Bool := phase = .held || phase = .refused

def heldCount (r : Reservation) : ℕ := if r.phase.charged then 1 else 0

def heldBytes (r : Reservation) : ℕ := if r.phase.charged then r.bytes else 0

namespace State

def owedCount (s : State) (control : Bool) : ℕ :=
  laneCount control s.queue + laneCount control s.consumer.jobs + if control then 0 else s.reservations.total heldCount

def owedBytes (s : State) (control : Bool) : ℕ :=
  laneBytes control s.queue + laneBytes control s.consumer.jobs + if control then 0 else s.reservations.total heldBytes

end State

structure Accounts (s : State) : Prop where
  count_eq : ∀ control, s.countOf control = s.owedCount control
  bytes_eq : ∀ control, s.bytesOf control = s.owedBytes control
  count_le : ∀ control, s.countOf control ≤ s.options.jobs control
  bytes_le : ∀ control, s.bytesOf control ≤ s.options.retained control

structure Inv (s : State) : Prop where
  accounts : Accounts s
  history : s.started ++ s.queue = s.entered
  ids : s.entered.map QueuedJob.id = List.range s.entered.length
  releases : ∀ r < s.reservations.count,
    (s.reservations.row r).releases = if (s.reservations.row r).phase = .dropped then 1 else 0
  stopped : s.stopRequested = true → s.admissionClosed = true
  unused : s.used = false → s.consumer = .inactive ∧ ∀ control, s.countOf control = 0 ∧ s.bytesOf control = 0

section Lanes

variable {s : State} {job : QueuedJob} {jobs : List QueuedJob} {bytes : ℕ} {control c : Bool}

@[simp] lemma laneCount_nil (control : Bool) : laneCount control [] = 0 := rfl

@[simp] lemma laneBytes_nil (control : Bool) : laneBytes control [] = 0 := rfl

lemma laneCount_append (control : Bool) (job : QueuedJob) (jobs : List QueuedJob) :
    laneCount control (jobs ++ [job]) = laneCount control jobs + if job.control = control then 1 else 0 := by
  cases hc : job.control <;> cases control <;> simp [laneCount, hc]

lemma laneCount_cons (control : Bool) (job : QueuedJob) (jobs : List QueuedJob) :
    laneCount control (job :: jobs) = laneCount control jobs + if job.control = control then 1 else 0 := by
  cases hc : job.control <;> cases control <;> simp [laneCount, hc]

lemma laneBytes_append (control : Bool) (job : QueuedJob) (jobs : List QueuedJob) :
    laneBytes control (jobs ++ [job]) = laneBytes control jobs + if job.control = control then job.bytes else 0 := by
  cases hc : job.control <;> cases control <;> simp [laneBytes, hc]

lemma laneBytes_cons (control : Bool) (job : QueuedJob) (jobs : List QueuedJob) :
    laneBytes control (job :: jobs) = laneBytes control jobs + if job.control = control then job.bytes else 0 := by
  cases hc : job.control <;> cases control <;> simp [laneBytes, hc, Nat.add_comm]

lemma charge_countOf : (s.charge bytes control).countOf c = s.countOf c + if control = c then 1 else 0 := by
  cases control <;> cases c <;> rfl

lemma charge_bytesOf : (s.charge bytes control).bytesOf c = s.bytesOf c + if control = c then bytes else 0 := by
  cases control <;> cases c <;> rfl

lemma release_countOf (h : 1 ≤ s.countOf control) :
    (s.release bytes control).countOf c + (if control = c then 1 else 0) = s.countOf c := by
  cases control <;> cases c <;> simp_all [State.release, State.countOf, sizeSub_eq]

lemma release_bytesOf (h : bytes ≤ s.bytesOf control) :
    (s.release bytes control).bytesOf c + (if control = c then bytes else 0) = s.bytesOf c := by
  cases control <;> cases c <;> simp_all [State.release, State.bytesOf, sizeSub_eq]

lemma admission_ok (h : Accounts s) (ha : s.admission bytes control = .ok) :
    s.stopRequested = false ∧ (control = true ∨ s.admissionClosed = false) ∧
      s.countOf control < s.options.jobs control ∧ s.bytesOf control + bytes ≤ s.options.retained control := by
  have hle := h.bytes_le control
  simp only [State.admission, sizeSub_eq hle] at ha
  split_ifs at ha with hclosed hlarge hfull
  simp only [Bool.or_eq_true, not_or, Bool.not_eq_true, Bool.and_eq_false_iff, Bool.not_eq_false',
    decide_eq_true_eq] at hclosed hfull
  exact ⟨hclosed.1, hclosed.2, by omega, by omega⟩

end Lanes

section Operations

variable {s : State}

lemma enqueue_owedCount (bytes : ℕ) (control c : Bool) :
    (s.enqueue bytes control).owedCount c = s.owedCount c + if control = c then 1 else 0 := by
  simp only [State.owedCount, State.enqueue, laneCount_append]
  omega

lemma enqueue_owedBytes (bytes : ℕ) (control c : Bool) :
    (s.enqueue bytes control).owedBytes c = s.owedBytes c + if control = c then bytes else 0 := by
  simp only [State.owedBytes, State.enqueue, laneBytes_append]
  omega

lemma charge_owedCount (bytes : ℕ) (control c : Bool) : (s.charge bytes control).owedCount c = s.owedCount c := by
  cases control <;> rfl

lemma charge_owedBytes (bytes : ℕ) (control c : Bool) : (s.charge bytes control).owedBytes c = s.owedBytes c := by
  cases control <;> rfl

lemma charge_options (bytes : ℕ) (control : Bool) : (s.charge bytes control).options = s.options := by
  cases control <;> rfl

@[simp] lemma release_queue (bytes : ℕ) (control : Bool) : (s.release bytes control).queue = s.queue := by
  cases control <;> rfl

@[simp] lemma release_reservations (bytes : ℕ) (control : Bool) :
    (s.release bytes control).reservations = s.reservations := by
  cases control <;> rfl

lemma release_options (bytes : ℕ) (control : Bool) : (s.release bytes control).options = s.options := by
  cases control <;> rfl

lemma Accounts.charged {s' : State} {bytes : ℕ} {control : Bool} (h : Accounts s) (ha : s.admission bytes control = .ok)
    (ho : s'.options = s.options) (hc : ∀ c, s'.countOf c = (s.charge bytes control).countOf c)
    (hb : ∀ c, s'.bytesOf c = (s.charge bytes control).bytesOf c)
    (hoc : ∀ c, s'.owedCount c = s.owedCount c + if control = c then 1 else 0)
    (hob : ∀ c, s'.owedBytes c = s.owedBytes c + if control = c then bytes else 0) : Accounts s' := by
  obtain ⟨-, -, hcount, hbytes⟩ := admission_ok h ha
  refine ⟨fun c => ?_, fun c => ?_, fun c => ?_, fun c => ?_⟩
  · rw [hc, hoc, charge_countOf, h.count_eq]
  · rw [hb, hob, charge_bytesOf, h.bytes_eq]
  · rw [hc, charge_countOf, ho]
    split_ifs with heq
    · exact heq ▸ hcount
    · exact h.count_le c
  · rw [hb, charge_bytesOf, ho]
    split_ifs with heq
    · exact heq ▸ hbytes
    · exact h.bytes_le c

lemma Accounts.released {s' : State} {bytes : ℕ} {control : Bool} (h : Accounts s) (ho : s'.options = s.options)
    (hc : ∀ c, s'.countOf c = (s.release bytes control).countOf c) (hb : ∀ c, s'.bytesOf c = (s.release bytes control).bytesOf c)
    (hoc : ∀ c, s'.owedCount c + (if control = c then 1 else 0) = s.owedCount c)
    (hob : ∀ c, s'.owedBytes c + (if control = c then bytes else 0) = s.owedBytes c) : Accounts s' := by
  have hcount : 1 ≤ s.countOf control := by
    have := hoc control
    rw [if_pos rfl] at this
    rw [h.count_eq]
    omega
  have hbytes : bytes ≤ s.bytesOf control := by
    have := hob control
    rw [if_pos rfl] at this
    rw [h.bytes_eq]
    omega
  have hcountOf (c : Bool) := @release_countOf _ bytes _ c hcount
  have hbytesOf (c : Bool) := release_bytesOf (c := c) hbytes
  refine ⟨fun c => ?_, fun c => ?_, fun c => ?_, fun c => ?_⟩
  · have h₁ := hcountOf c
    have h₂ := hoc c
    rw [hc]
    rw [h.count_eq] at h₁
    omega
  · have h₁ := hbytesOf c
    have h₂ := hob c
    rw [hb]
    rw [h.bytes_eq] at h₁
    omega
  · have h₁ := hcountOf c
    have h₂ := h.count_le c
    rw [hc, ho]
    omega
  · have h₁ := hbytesOf c
    have h₂ := h.bytes_le c
    rw [hb, ho]
    omega

lemma Accounts.moved {s' : State} (h : Accounts s) (ho : s'.options = s.options) (hc : s'.countOf = s.countOf)
    (hb : s'.bytesOf = s.bytesOf) (hoc : ∀ c, s'.owedCount c = s.owedCount c) (hob : ∀ c, s'.owedBytes c = s.owedBytes c) :
    Accounts s' := by
  refine ⟨fun c => ?_, fun c => ?_, fun c => ?_, fun c => ?_⟩
  · rw [hc, hoc, h.count_eq]
  · rw [hb, hob, h.bytes_eq]
  · rw [hc, ho]
    exact h.count_le c
  · rw [hb, ho]
    exact h.bytes_le c

lemma ids_enqueue (h : s.entered.map QueuedJob.id = List.range s.entered.length) (bytes : ℕ) (control : Bool) :
    (s.enqueue bytes control).entered.map QueuedJob.id = List.range (s.enqueue bytes control).entered.length := by
  simp only [State.enqueue, List.map_append, List.map_singleton, List.length_append, List.length_singleton, List.range_succ, h]

lemma history_enqueue (h : s.started ++ s.queue = s.entered) (bytes : ℕ) (control : Bool) :
    (s.enqueue bytes control).started ++ (s.enqueue bytes control).queue = (s.enqueue bytes control).entered := by
  simp only [State.enqueue, ← h, List.append_assoc]

lemma post_inv (h : Inv s) (callback allocated : Bool) (bytes : ℕ) (control : Bool) :
    Inv (s.post callback allocated bytes control).2 := by
  rw [State.post]
  split_ifs
  · exact h
  · exact h
  · cases ha : s.admission bytes control with
    | ok =>
      have haccounts : Accounts ((s.charge bytes control).enqueue bytes control) := by
        refine h.accounts.charged ha (charge_options bytes control) (fun _ => rfl) (fun _ => rfl) (fun c => ?_) (fun c => ?_)
        · rw [enqueue_owedCount, charge_owedCount]
        · rw [enqueue_owedBytes, charge_owedBytes]
      cases control with
      | false => exact ⟨haccounts, history_enqueue (s := s.charge bytes false) h.history _ _,
          ids_enqueue (s := s.charge bytes false) h.ids _ _, h.releases, h.stopped, nofun⟩
      | true => exact ⟨haccounts, history_enqueue (s := s.charge bytes true) h.history _ _,
          ids_enqueue (s := s.charge bytes true) h.ids _ _, h.releases, h.stopped, nofun⟩
    | _ => exact h

lemma reserve_inv (h : Inv s) (allocated : Bool) (bytes : ℕ) : Inv (s.reserve allocated bytes).2 := by
  rw [State.reserve]
  split_ifs
  · exact h
  · cases ha : s.admission bytes false with
    | ok =>
      refine ⟨h.accounts.charged ha rfl (fun _ => rfl) (fun _ => rfl) (fun c => ?_) (fun c => ?_), h.history, h.ids, fun r hr => ?_,
        h.stopped, nofun⟩
      · cases c with
        | true => rfl
        | false =>
          simp only [State.owedCount, Table.total_push, Bool.false_eq_true, ↓reduceIte]
          exact (Nat.add_assoc _ _ _).symm
      · cases c with
        | true => rfl
        | false =>
          simp only [State.owedBytes, Table.total_push, Bool.false_eq_true, ↓reduceIte]
          exact (Nat.add_assoc _ _ _).symm
      · simp only [Table.push_count] at hr
        rcases eq_or_ne r s.reservations.count with rfl | hne
        · simp only [Table.push_row]
          rfl
        · simp only [Table.push_row, if_neg hne]
          exact h.releases r (Nat.lt_of_le_of_ne (Nat.le_of_lt_succ hr) hne)
    | _ => exact h

section Reservations

variable {r : ℕ} {reservation : Reservation}

lemma setReservation_owedCount (hr : r < s.reservations.count) (c : Bool) :
    (s.setReservation r reservation).owedCount c + (if c then 0 else heldCount (s.reservations.row r)) =
      s.owedCount c + if c then 0 else heldCount reservation := by
  have htotal := Table.total_set hr reservation heldCount
  cases c with
  | true => rfl
  | false =>
    simp only [State.owedCount, State.setReservation, Bool.false_eq_true, ↓reduceIte]
    omega

lemma setReservation_owedBytes (hr : r < s.reservations.count) (c : Bool) :
    (s.setReservation r reservation).owedBytes c + (if c then 0 else heldBytes (s.reservations.row r)) =
      s.owedBytes c + if c then 0 else heldBytes reservation := by
  have htotal := Table.total_set hr reservation heldBytes
  cases c with
  | true => rfl
  | false =>
    simp only [State.owedBytes, State.setReservation, Bool.false_eq_true, ↓reduceIte]
    omega

lemma setReservation_releases (h : Inv s) (hx : reservation.releases = if reservation.phase = .dropped then 1 else 0) (r' : ℕ)
    (hr' : r' < s.reservations.count) :
    ((s.setReservation r reservation).reservations.row r').releases =
      if ((s.setReservation r reservation).reservations.row r').phase = .dropped then 1 else 0 := by
  rw [State.setReservation, Table.set_row]
  by_cases heq : r' = r
  · rw [if_pos heq, hx]
  · rw [if_neg heq, h.releases r' hr']

lemma charged_of_phase (h : (s.reservations.row r).phase.charged = true) :
    heldCount (s.reservations.row r) = 1 ∧ heldBytes (s.reservations.row r) = (s.reservations.row r).bytes ∧
      (s.reservations.row r).phase ≠ .dropped := by
  refine ⟨if_pos h, if_pos h, ?_⟩
  intro heq
  rw [heq] at h
  cases h

lemma postReserved_inv (h : Inv s) (hr : r < s.reservations.count) (callback : Bool) : Inv (s.postReserved r callback).2 := by
  simp only [State.postReserved]
  split_ifs with hheld hcallback hstop
  · exact h
  · exact h
  · -- the charge moves from the reservation to the job
    have hphase := not_not.mp hheld
    obtain ⟨hcount, hbytes, hnot⟩ := charged_of_phase (s := s) (r := r) (by rw [hphase]; rfl)
    have hreleases := h.releases r hr
    rw [if_neg hnot] at hreleases
    refine ⟨h.accounts.moved rfl rfl rfl (fun c => ?_) (fun c => ?_), history_enqueue (s := s.setReservation r _) h.history _ _,
      ids_enqueue (s := s.setReservation r _) h.ids _ _, setReservation_releases h hreleases, h.stopped, h.unused⟩
    · have hset := @setReservation_owedCount s r ⟨(s.reservations.row r).bytes, .posted,
        (s.reservations.row r).releases⟩ hr c
      rw [enqueue_owedCount]
      rw [hcount] at hset
      cases c with
      | true => exact hset
      | false => exact hset
    · have hset := @setReservation_owedBytes s r ⟨(s.reservations.row r).bytes, .posted,
        (s.reservations.row r).releases⟩ hr c
      rw [enqueue_owedBytes]
      rw [hbytes] at hset
      cases c with
      | true => exact hset
      | false => exact hset
  · have hphase := not_not.mp hheld
    obtain ⟨hcount, hbytes, hnot⟩ := charged_of_phase (s := s) (r := r) (by rw [hphase]; rfl)
    have hreleases := h.releases r hr
    rw [if_neg hnot] at hreleases
    refine ⟨h.accounts.moved rfl rfl rfl (fun c => ?_) (fun c => ?_), h.history, h.ids, setReservation_releases h hreleases,
      h.stopped, h.unused⟩
    · have hset := @setReservation_owedCount s r ⟨(s.reservations.row r).bytes, .refused,
        (s.reservations.row r).releases⟩ hr c
      rw [hcount] at hset
      exact Nat.add_right_cancel hset
    · have hset := @setReservation_owedBytes s r ⟨(s.reservations.row r).bytes, .refused,
        (s.reservations.row r).releases⟩ hr c
      rw [hbytes] at hset
      exact Nat.add_right_cancel hset

lemma dropReservation_inv (h : Inv s) (hr : r < s.reservations.count)
    (hcharged : (s.reservations.row r).phase.charged = true) : Inv (s.dropReservation r) := by
  obtain ⟨hcount, hbytes, hnot⟩ := charged_of_phase hcharged
  have hreleases := h.releases r hr
  rw [if_neg hnot] at hreleases
  have haccounts : Accounts (s.dropReservation r) := by
    refine @Accounts.released _ _ _ false h.accounts rfl (fun _ => rfl) (fun _ => rfl) (fun c => ?_) (fun c => ?_)
    · have hset := @setReservation_owedCount s r ⟨(s.reservations.row r).bytes, .dropped,
        (s.reservations.row r).releases + 1⟩ hr c
      rw [hcount] at hset
      cases c with
      | true => exact hset
      | false => exact hset
    · have hset := @setReservation_owedBytes s r ⟨(s.reservations.row r).bytes, .dropped,
        (s.reservations.row r).releases + 1⟩ hr c
      rw [hbytes] at hset
      cases c with
      | true => exact hset
      | false => exact hset
  refine ⟨haccounts, h.history, h.ids, setReservation_releases h (by rw [hreleases]; rfl), h.stopped, fun hused => ?_⟩
  obtain ⟨-, hzero⟩ := h.unused hused
  have hone := h.accounts.count_eq false
  have hle := Table.le_total hr heldCount
  rw [(hzero false).1, State.owedCount, if_neg (by decide)] at hone
  omega

end Reservations

lemma used_of_active (h : Inv s) (hactive : s.consumer ≠ .inactive) : s.used = true := by
  cases hu : s.used with
  | true => rfl
  | false => exact (hactive (h.unused hu).1).elim

lemma take_inv {s' : State} (h : Inv s) (hwaiting : s.consumer = .waiting) (ht : s.take = some s') : Inv s' := by
  have hused := used_of_active h (by rw [hwaiting]; exact nofun)
  have hjobs : s.consumer.jobs = [] := by rw [hwaiting]; rfl
  rw [State.take] at ht
  split at ht
  · simp only [Option.ite_none_right_eq_some] at ht
    obtain rfl := Option.some.inj ht.2
    refine ⟨h.accounts.moved rfl rfl rfl (fun c => ?_) (fun c => ?_), h.history, h.ids, h.releases, h.stopped, fun hu => ?_⟩
    · simp only [State.owedCount, hjobs, jobs_inactive]
    · simp only [State.owedBytes, hjobs, jobs_inactive]
    · simp [hused] at hu
  · rename_i job queue hq
    obtain rfl := Option.some.inj ht
    have hhistory := h.history
    rw [hq] at hhistory
    refine ⟨h.accounts.moved rfl rfl rfl (fun c => ?_) (fun c => ?_), ?_, h.ids, h.releases, h.stopped, fun hu => ?_⟩
    · simp only [State.owedCount, hjobs, jobs_running, hq, laneCount_cons, laneCount_nil]
      omega
    · simp only [State.owedBytes, hjobs, jobs_running, hq, laneBytes_cons, laneBytes_nil]
      omega
    · simp only [List.append_assoc, List.singleton_append]
      exact hhistory
    · simp [hused] at hu

lemma release_inv {job : QueuedJob} (h : Inv s) (hreleasing : s.consumer = .releasing job) :
    Inv { s.release job.bytes job.control with consumer := .waiting } := by
  have hused := used_of_active h (by rw [hreleasing]; exact nofun)
  have haccounts : Accounts { s.release job.bytes job.control with consumer := .waiting } := by
    refine h.accounts.released (release_options _ _) (fun _ => rfl) (fun _ => rfl) (fun c => ?_) (fun c => ?_)
    · simp only [State.owedCount, release_queue, release_reservations, hreleasing, jobs_releasing, jobs_waiting, laneCount_cons,
        laneCount_nil]
      omega
    · simp only [State.owedBytes, release_queue, release_reservations, hreleasing, jobs_releasing, jobs_waiting, laneBytes_cons,
        laneBytes_nil]
      omega
  cases hc : job.control with
  | false =>
    rw [hc] at haccounts
    exact ⟨haccounts, h.history, h.ids, h.releases, h.stopped, fun hu => by simp [State.release, hused] at hu⟩
  | true =>
    rw [hc] at haccounts
    exact ⟨haccounts, h.history, h.ids, h.releases, h.stopped, fun hu => by simp [State.release, hused] at hu⟩

lemma configure_inv (h : Inv s) (options : JobRunnerOptions) : Inv (s.configure options).2 := by
  rw [State.configure]
  split_ifs with hvalid hsame hused
  · exact h
  · exact h
  · exact h
  · simp only [Bool.or_eq_true, not_or, Bool.not_eq_true] at hused
    obtain ⟨-, hzero⟩ := h.unused hused.1.1.1
    refine ⟨⟨h.accounts.count_eq, h.accounts.bytes_eq, fun c => ?_, fun c => ?_⟩, h.history, h.ids, h.releases, h.stopped, h.unused⟩
    · exact (hzero c).1.le.trans (Nat.zero_le _)
    · exact (hzero c).2.le.trans (Nat.zero_le _)

end Operations

lemma inv_initial {s : State} (h : Initial s) : Inv s := by
  obtain rfl := h
  refine ⟨⟨fun c => ?_, fun c => ?_, fun c => ?_, fun c => ?_⟩, rfl, rfl, nofun, nofun, fun _ => ⟨rfl, fun c => ?_⟩⟩
  · cases c <;> rfl
  · cases c <;> rfl
  · cases c <;> exact Nat.zero_le _
  · cases c <;> exact Nat.zero_le _
  · cases c <;> exact ⟨rfl, rfl⟩

lemma inv_step {s s' : State} {event : Event} (h : Inv s) (hs : step s event = some s') : Inv s' := by
  cases event with
  | configure options =>
    obtain rfl := Option.some.inj hs
    exact configure_inv h options
  | post callback allocated bytes control =>
    obtain rfl := Option.some.inj hs
    exact post_inv h callback allocated bytes control
  | reserve allocated bytes =>
    obtain rfl := Option.some.inj hs
    exact reserve_inv h allocated bytes
  | postReserved r callback =>
    obtain ⟨⟨hr, -⟩, rfl⟩ := of_guard hs
    exact postReserved_inv h hr callback
  | dropReservation r =>
    obtain ⟨⟨hr, hphase⟩, rfl⟩ := of_guard hs
    exact dropReservation_inv h hr (by rw [hphase]; rfl)
  | dropRefused r =>
    obtain ⟨⟨hr, hphase⟩, rfl⟩ := of_guard hs
    exact dropReservation_inv h hr (by rw [hphase]; rfl)
  | closeAdmission =>
    obtain rfl := Option.some.inj hs
    exact ⟨h.accounts.moved rfl rfl rfl (fun _ => rfl) (fun _ => rfl), h.history, h.ids, h.releases, fun _ => rfl, h.unused⟩
  | requestStop =>
    obtain rfl := Option.some.inj hs
    exact ⟨h.accounts.moved rfl rfl rfl (fun _ => rfl) (fun _ => rfl), h.history, h.ids, h.releases, fun _ => rfl, h.unused⟩
  | runUntilStopped =>
    simp only [step, Option.ite_none_left_eq_some] at hs
    obtain ⟨hactive, hs⟩ := hs
    obtain rfl := Option.some.inj hs
    have hinactive : s.consumer = .inactive := by simpa [State.runActive] using hactive
    refine ⟨h.accounts.moved rfl rfl rfl (fun c => ?_) (fun c => ?_), h.history, h.ids, h.releases, h.stopped, nofun⟩
    · simp only [State.owedCount, hinactive, jobs_inactive, jobs_waiting]
    · simp only [State.owedBytes, hinactive, jobs_inactive, jobs_waiting]
  | take =>
    simp only [step, Option.ite_none_right_eq_some] at hs
    exact take_inv h hs.1 hs.2
  | finish =>
    simp only [step] at hs
    split at hs
    · rename_i job hrunning
      obtain rfl := Option.some.inj hs
      refine ⟨h.accounts.moved rfl rfl rfl (fun c => ?_) (fun c => ?_), h.history, h.ids, h.releases, h.stopped, fun hu => ?_⟩
      · simp only [State.owedCount, hrunning, jobs_running, jobs_releasing]
      · simp only [State.owedBytes, hrunning, jobs_running, jobs_releasing]
      · have := (h.unused hu).1
        rw [hrunning] at this
        cases this
    · cases hs
  | release =>
    simp only [step] at hs
    split at hs
    · rename_i job hreleasing
      obtain rfl := Option.some.inj hs
      exact release_inv h hreleasing
    · cases hs

lemma inv_of_reachable {s : State} (h : Reachable step Initial s) : Inv s :=
  h.invariant (fun _ => inv_initial) fun _ _ _ hinv hstep => inv_step hinv hstep

end ServerCore.Runtime.JobRunner
