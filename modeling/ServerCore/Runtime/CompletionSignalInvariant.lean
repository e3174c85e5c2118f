import ServerCore.Runtime.CompletionSignal
import Mathlib.Data.List.Nodup

/-! The invariant of a completion signal, its subscriptions and the threads that work on them. -/

namespace ServerCore.Runtime.CompletionSignal

open ServerCore.Core ServerCore.Foundations

def Frame.runs (i : ℕ) : Frame → Bool
  | .calling j => j = i
  | .leaving j => j = i
  | _ => false

def Frame.completes : Frame → Bool
  | .completing .. => true
  | _ => false

structure CallOk (s : Signal) (sub : Sub) (call : Call) : Prop where
  signal : call.origin = .signal → s.ready = true ∧ call.code = s.result
  other : call.origin ≠ .signal → call.code = .cancelled ∧ sub.cancelled = true

structure RowOk (s : Signal) (sub : Sub) : Prop where
  fresh : sub.done = false → sub.callback = true ∧ sub.invoking = false ∧ sub.calls = [] ∧ sub.discarded = false
  spent : sub.done = true → sub.callback = false ∧ (sub.discarded = false → sub.calls.length = 1)
  once : sub.calls.length ≤ 1
  thread : sub.thread.isSome = sub.invoking
  calls : ∀ call ∈ sub.calls, CallOk s sub call

def FrameOk (s : Signal) (frames : List Frame) : Frame → Prop
  | .observing i _ | .calling i | .leaving i | .binding i _ | .publishing i | .resetting i | .stopped i => i < s.subs.count
  | .completing i code origin => i < s.subs.count ∧ CallOk s (s.sub i) ⟨code, origin⟩
  | .registered i => i < s.subs.count ∧ ((s.sub i).done = true ∨
      (∃ r < s.registrations.count, s.registrations.row r = i) ∨ ∃ code origin, .completing i code origin ∈ frames)
  | .draining code sources => s.ready = true ∧ code = s.result ∧
      (∀ r, some r ∈ sources → r < s.registrations.count) ∧
      ∀ r, some r ∈ s.swapped → some r ∈ sources ∨ (s.sub (s.registrations.row r)).done = true
  | .waiting i => i < s.subs.count ∧ (s.sub i).done = true
  | .unbinding i => i < s.subs.count ∧ (s.sub i).done = true ∧
      ((s.sub i).invoking = false ∨ ∃ frame ∈ frames, frame.runs i = true)
  | .finishing _ | .stopping _ => True

/-- The array of the registrations that wait, or of those that the first `Complete` has taken. -/
def Signal.held (s : Signal) : List (Option ℕ) := if s.ready then s.swapped else s.slots

structure Stacks (s : Signal) : Prop where
  rows : ∀ i < s.subs.count, RowOk s (s.sub i)
  frames : ∀ t, ∀ frame ∈ s.threads t, FrameOk s (s.threads t) frame
  top : ∀ t, ∀ frame ∈ (s.threads t).tail, frame.completes = false
  runs : ∀ t, ∀ i < s.subs.count, (s.threads t).countP (Frame.runs i) = if (s.sub i).thread = some t then 1 else 0

structure Board (s : Signal) : Prop where
  length : s.slots.length = 16
  slots : ∀ r, some r ∈ s.slots → r < s.registrations.count
  nodup : (s.slots.filterMap id).Nodup
  taken : s.swapped.length ≤ 16
  swapped : ∀ r, some r ∈ s.swapped → r < s.registrations.count
  source : ∀ r < s.registrations.count, s.registrations.row r < s.subs.count
  pending : ∀ r < s.registrations.count, (s.sub (s.registrations.row r)).done = false → some r ∈ s.held
  finished : s.finished = true → s.ready = true ∧
    ∀ r, some r ∈ s.swapped → (s.sub (s.registrations.row r)).done = true
  accepted : ∀ i ∈ s.accepted, i < s.subs.count ∧
    ((s.sub i).done = true ∨ ∃ r < s.registrations.count, s.registrations.row r = i)

structure Inv (s : Signal) : Prop where
  threads : Stacks s
  board : Board s

structure Later (s s' : Signal) : Prop where
  subs : s.subs.count ≤ s'.subs.count
  registrations : s.registrations.count ≤ s'.registrations.count
  source : ∀ r < s.registrations.count, s'.registrations.row r = s.registrations.row r
  done : ∀ i < s.subs.count, (s.sub i).done = true → (s'.sub i).done = true
  calls : ∀ i < s.subs.count, (s.sub i).done = true → (s'.sub i).calls = (s.sub i).calls
  quiet : ∀ i < s.subs.count, (s.sub i).done = true → (s.sub i).invoking = false → (s'.sub i).invoking = false
  cancelled : ∀ i < s.subs.count, (s.sub i).cancelled = true → (s'.sub i).cancelled = true
  ready : s.ready = true → s'.ready = true ∧ s'.result = s.result ∧ s'.swapped = s.swapped

structure Next (s s' : Signal) : Prop where
  inv : Inv s'
  later : Later s s'

section Later

variable {s s' s'' : Signal}

lemma Later.refl (s : Signal) : Later s s :=
  ⟨le_rfl, le_rfl, fun _ _ => rfl, fun _ _ h => h, fun _ _ _ => rfl, fun _ _ _ h => h, fun _ _ h => h,
    fun h => ⟨h, rfl, rfl⟩⟩

lemma Later.trans (h : Later s s') (h' : Later s' s'') : Later s s'' := by
  constructor
  · exact h.subs.trans h'.subs
  · exact h.registrations.trans h'.registrations
  · intro r hr
    rw [h'.source r (lt_of_lt_of_le hr h.registrations), h.source r hr]
  · intro i hi hdone
    exact h'.done i (lt_of_lt_of_le hi h.subs) (h.done i hi hdone)
  · intro i hi hdone
    rw [h'.calls i (lt_of_lt_of_le hi h.subs) (h.done i hi hdone), h.calls i hi hdone]
  · intro i hi hdone hquiet
    exact h'.quiet i (lt_of_lt_of_le hi h.subs) (h.done i hi hdone) (h.quiet i hi hdone hquiet)
  · intro i hi hcancelled
    exact h'.cancelled i (lt_of_lt_of_le hi h.subs) (h.cancelled i hi hcancelled)
  · intro hready
    obtain ⟨hready', hresult, hswapped⟩ := h.ready hready
    obtain ⟨hready'', hresult', hswapped'⟩ := h'.ready hready'
    exact ⟨hready'', hresult'.trans hresult, hswapped'.trans hswapped⟩

lemma CallOk.later {i : ℕ} {call : Call} (h : CallOk s (s.sub i) call) (hl : Later s s') (hi : i < s.subs.count) :
    CallOk s' (s'.sub i) call := by
  constructor
  · intro horigin
    obtain ⟨hready, hcode⟩ := h.signal horigin
    obtain ⟨hready', hresult, -⟩ := hl.ready hready
    exact ⟨hready', hcode.trans hresult.symm⟩
  · intro horigin
    obtain ⟨hcode, hcancelled⟩ := h.other horigin
    exact ⟨hcode, hl.cancelled i hi hcancelled⟩

lemma FrameOk.later {frames : List Frame} {frame : Frame} (h : FrameOk s frames frame) (hl : Later s s')
    (hsource : ∀ r < s.registrations.count, s.registrations.row r < s.subs.count)
    (hswapped : ∀ r, some r ∈ s.swapped → r < s.registrations.count) : FrameOk s' frames frame := by
  cases frame with
  | completing i code origin => exact ⟨lt_of_lt_of_le h.1 hl.subs, h.2.later hl h.1⟩
  | registered i =>
    obtain ⟨hi, hwhy⟩ := h
    refine ⟨lt_of_lt_of_le hi hl.subs, ?_⟩
    obtain hdone | ⟨r, hr, hrow⟩ | hcompleting := hwhy
    · exact .inl (hl.done i hi hdone)
    · exact .inr (.inl ⟨r, lt_of_lt_of_le hr hl.registrations, by rw [hl.source r hr, hrow]⟩)
    · exact .inr (.inr hcompleting)
  | draining code sources =>
    obtain ⟨hready, hcode, hlt, hall⟩ := h
    obtain ⟨hready', hresult, htaken⟩ := hl.ready hready
    refine ⟨hready', hcode.trans hresult.symm, fun r hr => lt_of_lt_of_le (hlt r hr) hl.registrations, ?_⟩
    intro r hr
    rw [htaken] at hr
    have hr' := hswapped r hr
    rw [hl.source r hr']
    exact (hall r hr).imp_right (hl.done _ (hsource r hr'))
  | waiting i => exact ⟨lt_of_lt_of_le h.1 hl.subs, hl.done i h.1 h.2⟩
  | unbinding i =>
    obtain ⟨hi, hdone, hquiet⟩ := h
    exact ⟨lt_of_lt_of_le hi hl.subs, hl.done i hi hdone, hquiet.imp_left (hl.quiet i hi hdone)⟩
  | finishing _ => trivial
  | stopping _ => trivial
  | _ => exact lt_of_lt_of_le h hl.subs

lemma FrameOk.shift {frames frames' : List Frame} {frame : Frame} (h : FrameOk s frames frame)
    (hcompleting : ∀ i code origin, .completing i code origin ∈ frames →
      .completing i code origin ∈ frames' ∨ (s.sub i).done = true)
    (hruns : ∀ i < s.subs.count, (∃ frame ∈ frames, frame.runs i = true) →
      (∃ frame ∈ frames', frame.runs i = true) ∨ (s.sub i).invoking = false) : FrameOk s frames' frame := by
  cases frame with
  | registered i =>
    obtain ⟨hi, hwhy⟩ := h
    refine ⟨hi, ?_⟩
    obtain hdone | hrow | ⟨code, origin, hmem⟩ := hwhy
    · exact .inl hdone
    · exact .inr (.inl hrow)
    · obtain hmem | hdone := hcompleting i code origin hmem
      · exact .inr (.inr ⟨code, origin, hmem⟩)
      · exact .inl hdone
  | unbinding i =>
    obtain ⟨hi, hdone, hquiet⟩ := h
    refine ⟨hi, hdone, ?_⟩
    obtain hquiet | hrun := hquiet
    · exact .inl hquiet
    · exact (hruns i hi hrun).symm
  | _ => exact h

end Later

section Stacks

variable {s s' : Signal} {t : ℕ} {frame : Frame} {rest new : List Frame}

lemma sub_stack (s : Signal) (t i : ℕ) (frames : List Frame) : (s.stack t frames).sub i = s.sub i := rfl

lemma sub_put_self (s : Signal) (i : ℕ) (sub : Sub) : (s.put i sub).sub i = sub := by
  rw [Signal.sub, Signal.put, Table.set_row_self]

lemma sub_put_ne (s : Signal) {i j : ℕ} (sub : Sub) (h : j ≠ i) : (s.put i sub).sub j = s.sub j := by
  rw [Signal.sub, Signal.put, Table.set_row_ne _ _ h, Signal.sub]

/-- What only `Complete` and `Reset` change. -/
structure Same (sub sub' : Sub) : Prop where
  callback : sub'.callback = sub.callback
  done : sub'.done = sub.done
  invoking : sub'.invoking = sub.invoking
  thread : sub'.thread = sub.thread
  calls : sub'.calls = sub.calls
  discarded : sub'.discarded = sub.discarded

lemma Same.refl (sub : Sub) : Same sub sub := ⟨rfl, rfl, rfl, rfl, rfl, rfl⟩

lemma same_put {i : ℕ} {sub' : Sub} (h : Same (s.sub i) sub') (j : ℕ) : Same (s.sub j) ((s.put i sub').sub j) := by
  by_cases hj : j = i
  · subst hj
    rwa [sub_put_self]
  · rw [sub_put_ne _ _ hj]
    exact .refl _

lemma RowOk.later {i : ℕ} (h : RowOk s (s.sub i)) (hl : Later s s') (hi : i < s.subs.count)
    (hsame : Same (s.sub i) (s'.sub i)) : RowOk s' (s'.sub i) := by
  constructor
  · rw [hsame.done, hsame.callback, hsame.invoking, hsame.calls, hsame.discarded]
    exact h.fresh
  · rw [hsame.done, hsame.callback, hsame.calls, hsame.discarded]
    exact h.spent
  · rw [hsame.calls]
    exact h.once
  · rw [hsame.thread, hsame.invoking]
    exact h.thread
  · intro call hcall
    rw [hsame.calls] at hcall
    exact (h.calls call hcall).later hl hi

lemma Stacks.step (h : Stacks s) (hb : Board s) (hl : Later s s') (hst : s.threads t = frame :: rest)
    (hthreads : s'.threads = Function.update s.threads t (new ++ rest)) (hcount : s'.subs.count = s.subs.count)
    (hrows : ∀ i < s.subs.count, RowOk s' (s'.sub i)) (hnew : ∀ f ∈ new, FrameOk s' (new ++ rest) f)
    (htail : ∀ f ∈ new.tail, f.completes = false)
    (hcompleting : ∀ i code origin, frame = .completing i code origin → (s'.sub i).done = true)
    (hquiet : ∀ i < s.subs.count, frame.runs i = true → (∃ f ∈ new, f.runs i = true) ∨ (s'.sub i).invoking = false)
    (hruns : ∀ i < s.subs.count, (if (s'.sub i).thread = some t then 1 else 0) + [frame].countP (Frame.runs i) =
      (if (s.sub i).thread = some t then 1 else 0) + new.countP (Frame.runs i))
    (hothers : ∀ u, u ≠ t → ∀ i < s.subs.count, ((s'.sub i).thread = some u ↔ (s.sub i).thread = some u)) :
    Stacks s' := by
  have hrest : ∀ f ∈ rest, f.completes = false := by
    have htop := h.top t
    rwa [hst] at htop
  constructor
  · intro i hi
    exact hrows i (hcount ▸ hi)
  · intro u f hf
    rw [hthreads] at hf ⊢
    by_cases hu : u = t
    · subst hu
      rw [Function.update_self] at hf ⊢
      obtain hf | hf := List.mem_append.mp hf
      · exact hnew f hf
      · have hold := h.frames u f (by rw [hst]; exact List.mem_cons_of_mem _ hf)
        rw [hst] at hold
        refine (hold.later hl hb.source hb.swapped).shift ?_ ?_
        · intro i code origin hmem
          obtain heq | hmem := List.mem_cons.mp hmem
          · exact .inr (hcompleting i code origin heq.symm)
          · exact absurd (hrest _ hmem) (by simp [Frame.completes])
        · rintro i hi ⟨g, hg, hrun⟩
          obtain rfl | hg := List.mem_cons.mp hg
          · exact (hquiet i (hcount ▸ hi) hrun).imp_left fun ⟨f, hf, hrun⟩ => ⟨f, List.mem_append_left _ hf, hrun⟩
          · exact .inl ⟨g, List.mem_append_right _ hg, hrun⟩
    · rw [Function.update_of_ne hu] at hf ⊢
      exact (h.frames u f hf).later hl hb.source hb.swapped
  · intro u f hf
    rw [hthreads] at hf
    by_cases hu : u = t
    · subst hu
      rw [Function.update_self] at hf
      cases new with
      | nil => exact hrest f (List.mem_of_mem_tail hf)
      | cons first new =>
        obtain hf | hf := List.mem_append.mp hf
        · exact htail f hf
        · exact hrest f hf
    · rw [Function.update_of_ne hu] at hf
      exact h.top u f hf
  · intro u i hi
    rw [hcount] at hi
    have hold := h.runs u i hi
    rw [hthreads]
    by_cases hu : u = t
    · subst hu
      rw [Function.update_self, List.countP_append]
      rw [hst, ← List.singleton_append, List.countP_append] at hold
      have hmove := hruns i hi
      omega
    · rw [Function.update_of_ne hu, hold]
      exact if_congr (hothers u hu i hi).symm rfl rfl

lemma Stacks.begin (h : Stacks s) (hb : Board s) (hl : Later s s') (hbegins : Signal.begins (s.threads t) = true)
    (hthreads : s'.threads = Function.update s.threads t (new ++ s.threads t))
    (hrows : ∀ i < s'.subs.count, RowOk s' (s'.sub i)) (hnew : ∀ f ∈ new, FrameOk s' (new ++ s.threads t) f)
    (htail : ∀ f ∈ new.tail, f.completes = false) (hruns : ∀ i, new.countP (Frame.runs i) = 0)
    (hold : ∀ i < s.subs.count, (s'.sub i).thread = (s.sub i).thread)
    (hfresh : ∀ i < s'.subs.count, s.subs.count ≤ i → (s'.sub i).thread = none) : Stacks s' := by
  have hopen : ∀ f ∈ s.threads t, f.completes = false := by
    intro f hf
    cases hst : s.threads t with
    | nil =>
      rw [hst] at hf
      cases hf
    | cons frame rest =>
      have htop := h.top t
      rw [hst] at hf htop hbegins
      obtain rfl | hf := List.mem_cons.mp hf
      · cases f <;> first | rfl | cases hbegins
      · exact htop f hf
  have hlt (u : ℕ) (i : ℕ) (hi : s.subs.count ≤ i) : (s.threads u).countP (Frame.runs i) = 0 := by
    apply List.countP_eq_zero.mpr
    intro f hf hrun
    have hframe := h.frames u f hf
    cases f with
    | calling j =>
      obtain rfl : j = i := by simpa [Frame.runs] using hrun
      exact absurd hframe (Nat.not_lt.mpr hi)
    | leaving j =>
      obtain rfl : j = i := by simpa [Frame.runs] using hrun
      exact absurd hframe (Nat.not_lt.mpr hi)
    | _ => cases hrun
  have hcount (u i : ℕ) (hi : i < s'.subs.count) :
      (s.threads u).countP (Frame.runs i) = if (s'.sub i).thread = some u then 1 else 0 := by
    by_cases hi' : i < s.subs.count
    · rw [h.runs u i hi', hold i hi']
    · rw [hlt u i (Nat.not_lt.mp hi'), hfresh i hi (Nat.not_lt.mp hi'), if_neg nofun]
  constructor
  · exact hrows
  · intro u f hf
    rw [hthreads] at hf ⊢
    by_cases hu : u = t
    · subst hu
      rw [Function.update_self] at hf ⊢
      obtain hf | hf := List.mem_append.mp hf
      · exact hnew f hf
      · refine ((h.frames u f hf).later hl hb.source hb.swapped).shift ?_ ?_
        · intro i code origin hmem
          exact .inl (List.mem_append_right _ hmem)
        · rintro i - ⟨g, hg, hrun⟩
          exact .inl ⟨g, List.mem_append_right _ hg, hrun⟩
    · rw [Function.update_of_ne hu] at hf ⊢
      exact (h.frames u f hf).later hl hb.source hb.swapped
  · intro u f hf
    rw [hthreads] at hf
    by_cases hu : u = t
    · subst hu
      rw [Function.update_self] at hf
      cases new with
      | nil => exact hopen f (List.mem_of_mem_tail hf)
      | cons first new =>
        obtain hf | hf := List.mem_append.mp hf
        · exact htail f hf
        · exact hopen f hf
    · rw [Function.update_of_ne hu] at hf
      exact h.top u f hf
  · intro u i hi
    rw [hthreads]
    by_cases hu : u = t
    · subst hu
      rw [Function.update_self, List.countP_append, hruns i, Nat.zero_add]
      exact hcount u i hi
    · rw [Function.update_of_ne hu]
      exact hcount u i hi

lemma Stacks.touch (h : Stacks s) (hb : Board s) (hl : Later s s') (hst : s.threads t = frame :: rest)
    (hthreads : s'.threads = Function.update s.threads t (new ++ rest)) (hcount : s'.subs.count = s.subs.count)
    (hsame : ∀ i, Same (s.sub i) (s'.sub i)) (hnew : ∀ f ∈ new, FrameOk s' (new ++ rest) f)
    (htail : ∀ f ∈ new.tail, f.completes = false)
    (hcompleting : ∀ i code origin, frame = .completing i code origin → (s'.sub i).done = true)
    (hruns : ∀ i, [frame].countP (Frame.runs i) = new.countP (Frame.runs i)) : Stacks s' := by
  refine h.step hb hl hst hthreads hcount ?_ hnew htail hcompleting ?_ ?_ ?_
  · intro i hi
    exact (h.rows i hi).later hl hi (hsame i)
  · intro i _ hrun
    refine .inl ?_
    have hone : new.countP (Frame.runs i) ≠ 0 := by
      rw [← hruns i, List.countP_cons_of_pos hrun]
      exact Nat.succ_ne_zero _
    by_contra hnone
    push Not at hnone
    exact hone (List.countP_eq_zero.mpr hnone)
  · intro i _
    rw [(hsame i).thread, hruns i]
  · intro u _ i _
    rw [(hsame i).thread]

lemma Board.keep (h : Board s) (hl : Later s s') (hregistrations : s'.registrations = s.registrations)
    (hslots : s'.slots = s.slots) (hready : s'.ready = s.ready) (hswapped : s'.swapped = s.swapped)
    (hfinished : s'.finished = s.finished) (haccepted : s'.accepted = s.accepted) : Board s' := by
  have hheld : s'.held = s.held := by rw [Signal.held, hready, hswapped, hslots, Signal.held]
  constructor
  · rw [hslots]
    exact h.length
  · rw [hslots, hregistrations]
    exact h.slots
  · rw [hslots]
    exact h.nodup
  · rw [hswapped]
    exact h.taken
  · rw [hswapped, hregistrations]
    exact h.swapped
  · rw [hregistrations]
    exact fun r hr => lt_of_lt_of_le (h.source r hr) hl.subs
  · rw [hregistrations, hheld]
    intro r hr hpending
    apply h.pending r hr
    by_contra hdone
    rw [hl.done _ (h.source r hr) (by simpa using hdone)] at hpending
    cases hpending
  · rw [hfinished, hready, hswapped, hregistrations]
    intro hf
    obtain ⟨hready', hall⟩ := h.finished hf
    exact ⟨hready', fun r hr => hl.done _ (h.source r (h.swapped r hr)) (hall r hr)⟩
  · rw [haccepted, hregistrations]
    intro i hi
    obtain ⟨hlt, hwhy⟩ := h.accepted i hi
    exact ⟨lt_of_lt_of_le hlt hl.subs, hwhy.imp_left (hl.done i hlt)⟩

end Stacks

section Sections

variable {s s' : Signal} {t i : ℕ} {frame : Frame} {rest new : List Frame}

lemma later_of (hcount : s'.subs.count = s.subs.count) (hregistrations : s'.registrations = s.registrations)
    (hsame : ∀ j, Same (s.sub j) (s'.sub j)) (hcancelled : ∀ j, (s.sub j).cancelled = true → (s'.sub j).cancelled = true)
    (hready : s.ready = true → s'.ready = true ∧ s'.result = s.result ∧ s'.swapped = s.swapped) : Later s s' := by
  constructor
  · exact hcount.ge
  · rw [hregistrations]
  · intro r _
    rw [hregistrations]
  · intro j _ hdone
    rw [(hsame j).done, hdone]
  · intro j _ _
    rw [(hsame j).calls]
  · intro j _ _ hquiet
    rw [(hsame j).invoking, hquiet]
  · intro j _
    exact hcancelled j
  · exact hready

lemma Inv.turn (h : Inv s) (hst : s.threads t = frame :: rest)
    (hthreads : s'.threads = Function.update s.threads t (new ++ rest)) (hsubs : s'.subs = s.subs)
    (hboard : s'.registrations = s.registrations ∧ s'.slots = s.slots ∧ s'.ready = s.ready ∧ s'.result = s.result ∧
      s'.swapped = s.swapped ∧ s'.finished = s.finished ∧ s'.accepted = s.accepted)
    (hnew : ∀ f ∈ new, FrameOk s' (new ++ rest) f) (htail : ∀ f ∈ new.tail, f.completes = false)
    (hcompleting : ∀ i code origin, frame = .completing i code origin → (s.sub i).done = true)
    (hruns : ∀ i, [frame].countP (Frame.runs i) = new.countP (Frame.runs i)) : Next s s' := by
  obtain ⟨hregistrations, hslots, hready, hresult, hswapped, hfinished, haccepted⟩ := hboard
  have hsub (j : ℕ) : s'.sub j = s.sub j := by rw [Signal.sub, hsubs, Signal.sub]
  have hsame (j : ℕ) : Same (s.sub j) (s'.sub j) := by
    rw [hsub j]
    exact .refl _
  have hl : Later s s' := by
    refine later_of (by rw [hsubs]) hregistrations hsame ?_ ?_
    · intro j hj
      rwa [hsub j]
    · intro hr
      exact ⟨hready.trans hr, hresult, hswapped⟩
  refine ⟨⟨?_, h.board.keep hl hregistrations hslots hready hswapped hfinished haccepted⟩, hl⟩
  refine h.threads.touch h.board hl hst hthreads (by rw [hsubs]) hsame hnew htail ?_ hruns
  intro j code origin heq
  rw [hsub j]
  exact hcompleting j code origin heq

lemma Inv.touch (h : Inv s) (hst : s.threads t = frame :: rest) {sub' : Sub} (hsame : Same (s.sub i) sub')
    (hcancelled : (s.sub i).cancelled = true → sub'.cancelled = true)
    (hnew : ∀ f ∈ new, FrameOk ((s.put i sub').stack t (new ++ rest)) (new ++ rest) f)
    (htail : ∀ f ∈ new.tail, f.completes = false) (hframe : frame.completes = false)
    (hruns : ∀ i, [frame].countP (Frame.runs i) = new.countP (Frame.runs i)) :
    Next s ((s.put i sub').stack t (new ++ rest)) := by
  have hall (j : ℕ) : Same (s.sub j) (((s.put i sub').stack t (new ++ rest)).sub j) := same_put hsame j
  have hl : Later s ((s.put i sub').stack t (new ++ rest)) := by
    refine later_of rfl rfl hall ?_ fun hr => ⟨hr, rfl, rfl⟩
    intro j hj
    rw [sub_stack]
    by_cases hji : j = i
    · subst hji
      rw [sub_put_self]
      exact hcancelled hj
    · rwa [sub_put_ne _ _ hji]
  refine ⟨⟨?_, h.board.keep hl rfl rfl rfl rfl rfl rfl⟩, hl⟩
  refine h.threads.touch h.board hl hst rfl rfl hall hnew htail ?_ hruns
  rintro j code origin rfl
  cases hframe

lemma Inv.first (h : Inv s) (hst : s.threads t = frame :: rest) : FrameOk s (frame :: rest) frame := by
  have hframe := h.threads.frames t frame (by rw [hst]; exact List.mem_cons_self)
  rwa [hst] at hframe

lemma Inv.enter (h : Inv s) (hst : s.threads t = frame :: rest) (hi : i < s.subs.count) {code : ErrorCode} {origin : Origin}
    (hcall : CallOk s (s.sub i) ⟨code, origin⟩)
    (hnew : ∀ s', Later s s' → (s'.sub i).done = true → ∀ frames, ∀ f ∈ new, FrameOk s' frames f)
    (hopen : ∀ f ∈ new, f.completes = false) (hnone : ∀ j, new.countP (Frame.runs j) = 0)
    (hcompleting : ∀ j code origin, frame = .completing j code origin → j = i)
    (hframe : ∀ j, [frame].countP (Frame.runs j) = 0) : Next s (s.enter t i code origin (new ++ rest)) := by
  unfold Signal.enter
  have htail : ∀ f ∈ new.tail, f.completes = false := fun f hf => hopen f (List.mem_of_mem_tail hf)
  by_cases hdone : (s.sub i).done = true
  · rw [if_pos hdone]
    refine h.turn hst rfl rfl ⟨rfl, rfl, rfl, rfl, rfl, rfl, rfl⟩ ?_ htail ?_ ?_
    · exact hnew (s.stack t (new ++ rest)) (later_of rfl rfl (fun j => .refl _) (fun j hj => hj) fun hr => ⟨hr, rfl, rfl⟩)
        hdone _
    · intro j code origin heq
      rw [hcompleting j code origin heq, hdone]
    · intro j
      rw [hframe j, hnone j]
  · rw [if_neg hdone]
    have hpending : (s.sub i).done = false := by simpa using hdone
    have hrow := h.threads.rows i hi
    obtain ⟨-, hquiet, hcalls, hkept⟩ := hrow.fresh hpending
    have hidle : (s.sub i).thread = none := by
      have hthread := hrow.thread
      rw [hquiet] at hthread
      exact Option.isSome_eq_false_iff.mp hthread |> Option.isNone_iff_eq_none.mp
    rw [hcalls, List.nil_append]
    set sub' : Sub := { s.sub i with
      done := true, invoking := true, thread := some t, callback := false, calls := [⟨code, origin⟩] } with hsub'
    set s' := (s.put i sub').stack t (.calling i :: (new ++ rest)) with hs'
    have hself : s'.sub i = sub' := by rw [hs', sub_stack, sub_put_self]
    have hother (j : ℕ) (hj : j ≠ i) : s'.sub j = s.sub j := by rw [hs', sub_stack, sub_put_ne _ _ hj]
    have hne (j : ℕ) (hj : (s.sub j).done = true) : j ≠ i := by
      rintro rfl
      exact hdone hj
    have hl : Later s s' := by
      refine ⟨le_rfl, le_rfl, fun _ _ => rfl, ?_, ?_, ?_, ?_, fun hr => ⟨hr, rfl, rfl⟩⟩
      · intro j _ hj
        rwa [hother j (hne j hj)]
      · intro j _ hj
        rw [hother j (hne j hj)]
      · intro j _ hj hq
        rwa [hother j (hne j hj)]
      · intro j _ hj
        by_cases hji : j = i
        · subst hji
          rw [hself]
          exact hj
        · rwa [hother j hji]
    refine ⟨⟨?_, h.board.keep hl rfl rfl rfl rfl rfl rfl⟩, hl⟩
    refine @Stacks.step s s' t frame rest (.calling i :: new) h.threads h.board hl hst rfl rfl ?_ ?_ hopen ?_ ?_ ?_ ?_
    · intro j hj
      by_cases hji : j = i
      · subst hji
        rw [hself]
        refine ⟨nofun, fun _ => ⟨rfl, fun _ => rfl⟩, le_rfl, rfl, ?_⟩
        intro call hmem
        obtain rfl := List.mem_singleton.mp hmem
        exact ⟨hcall.signal, hcall.other⟩
      · refine (h.threads.rows j hj).later hl hj ?_
        rw [hother j hji]
        exact .refl _
    · intro f hf
      obtain rfl | hf := List.mem_cons.mp hf
      · exact hi
      · exact hnew s' hl (by rw [hself]) _ f hf
    · intro j code origin heq
      rw [hcompleting j code origin heq, hself]
    · intro j _ hrun
      have hzero := hframe j
      rw [List.countP_cons_of_pos hrun] at hzero
      exact absurd hzero (Nat.succ_ne_zero _)
    · intro j hj
      rw [hframe j, List.countP_cons, hnone j]
      by_cases hji : j = i
      · subst hji
        rw [hself, hidle, if_pos rfl, if_neg nofun, if_pos (by simp [Frame.runs])]
      · have hrun : ¬ Frame.runs j (.calling i) = true := by simpa [Frame.runs] using Ne.symm hji
        rw [hother j hji, if_neg hrun]
    · intro u hu j _
      by_cases hji : j = i
      · subst hji
        rw [hself, hidle]
        exact ⟨fun heq => absurd (Option.some.inj heq).symm hu, nofun⟩
      · rw [hother j hji]

lemma Inv.leave (h : Inv s) (hst : s.threads t = .leaving i :: rest) : Next s (s.leave t i rest) := by
  have hi : i < s.subs.count := h.first hst
  have hrow := h.threads.rows i hi
  have hcount := h.threads.runs t i hi
  have hmine : (s.sub i).thread = some t := by
    by_contra hne
    rw [hst, if_neg hne, List.countP_cons_of_pos (by simp [Frame.runs])] at hcount
    exact absurd hcount (Nat.succ_ne_zero _)
  have hinvoking : (s.sub i).invoking = true := by rw [← hrow.thread, hmine, Option.isSome_some]
  have hdone : (s.sub i).done = true := by
    by_contra hpending
    have hquiet := (hrow.fresh (by simpa using hpending)).2.1
    rw [hinvoking] at hquiet
    cases hquiet
  set sub' : Sub := { s.sub i with invoking := false, thread := none } with hsub'
  set s' := (s.put i sub').stack t rest with hs'
  have hself : s'.sub i = sub' := by rw [hs', sub_stack, sub_put_self]
  have hother (j : ℕ) (hj : j ≠ i) : s'.sub j = s.sub j := by rw [hs', sub_stack, sub_put_ne _ _ hj]
  have hl : Later s s' := by
    refine ⟨le_rfl, le_rfl, fun _ _ => rfl, ?_, ?_, ?_, ?_, fun hr => ⟨hr, rfl, rfl⟩⟩ <;> intro j hj <;>
      by_cases hji : j = i
    · subst hji
      rw [hself]
      exact id
    · rw [hother j hji]
      exact id
    · subst hji
      rw [hself]
      exact fun _ => rfl
    · rw [hother j hji]
      exact fun _ => rfl
    · subst hji
      rw [hself]
      exact fun _ _ => rfl
    · rw [hother j hji]
      exact fun _ => id
    · subst hji
      rw [hself]
      exact id
    · rw [hother j hji]
      exact id
  refine ⟨⟨?_, h.board.keep hl rfl rfl rfl rfl rfl rfl⟩, hl⟩
  refine @Stacks.step s s' t (.leaving i) rest [] h.threads h.board hl hst rfl rfl ?_ nofun nofun nofun ?_ ?_ ?_
  · intro j hj
    by_cases hji : j = i
    · subst hji
      rw [hself]
      refine ⟨?_, hrow.spent, hrow.once, rfl, fun call hmem => ⟨(hrow.calls call hmem).signal, (hrow.calls call hmem).other⟩⟩
      intro hpending
      have hpending' : (s.sub j).done = false := hpending
      rw [hdone] at hpending'
      cases hpending'
    · refine (h.threads.rows j hj).later hl hj ?_
      rw [hother j hji]
      exact .refl _
  · intro j _ hrun
    obtain rfl : i = j := by simpa [Frame.runs] using hrun
    exact .inr (by rw [hself])
  · intro j _
    by_cases hji : j = i
    · subst hji
      rw [hself, hmine, if_pos rfl, if_neg nofun, List.countP_cons_of_pos (by simp [Frame.runs])]
      rfl
    · have hrun : ¬ Frame.runs j (.leaving i) = true := by simpa [Frame.runs] using Ne.symm hji
      rw [hother j hji, List.countP_cons_of_neg hrun]
  · intro u hu j _
    by_cases hji : j = i
    · subst hji
      rw [hself, hmine]
      exact ⟨nofun, fun heq => absurd (Option.some.inj heq).symm hu⟩
    · rw [hother j hji]

lemma Inv.reset (h : Inv s) (hst : s.threads t = .resetting i :: rest) : Next s (s.reset t i rest) := by
  have hi : i < s.subs.count := h.first hst
  have hrow := h.threads.rows i hi
  set sub' : Sub := { s.sub i with done := true, callback := false, discarded := true } with hsub'
  obtain ⟨new, hnew⟩ : ∃ new : Frame, new =
      if (s.sub i).thread = some t ∨ (s.sub i).invoking = false then .unbinding i else .waiting i := ⟨_, rfl⟩
  have hreset : s.reset t i rest = (s.put i sub').stack t ([new] ++ rest) := by
    rw [Signal.reset, hnew]
    split_ifs <;> rfl
  rw [hreset]
  set s' := (s.put i sub').stack t ([new] ++ rest) with hs'
  have hself : s'.sub i = sub' := by rw [hs', sub_stack, sub_put_self]
  have hother (j : ℕ) (hj : j ≠ i) : s'.sub j = s.sub j := by rw [hs', sub_stack, sub_put_ne _ _ hj]
  have hthread (j : ℕ) : (s'.sub j).thread = (s.sub j).thread := by
    by_cases hji : j = i
    · subst hji
      rw [hself]
    · rw [hother j hji]
  have hnone (j : ℕ) : new.runs j = false := by
    rw [hnew]
    split_ifs <;> rfl
  have hl : Later s s' := by
    refine ⟨le_rfl, le_rfl, fun _ _ => rfl, ?_, ?_, ?_, ?_, fun hr => ⟨hr, rfl, rfl⟩⟩ <;> intro j hj <;>
      by_cases hji : j = i
    · subst hji
      rw [hself]
      exact fun _ => rfl
    · rw [hother j hji]
      exact id
    · subst hji
      rw [hself]
      exact fun _ => rfl
    · rw [hother j hji]
      exact fun _ => rfl
    · subst hji
      rw [hself]
      exact fun _ => id
    · rw [hother j hji]
      exact fun _ => id
    · subst hji
      rw [hself]
      exact id
    · rw [hother j hji]
      exact id
  refine ⟨⟨?_, h.board.keep hl rfl rfl rfl rfl rfl rfl⟩, hl⟩
  refine @Stacks.step s s' t (.resetting i) rest [new] h.threads h.board hl hst rfl rfl ?_ ?_ nofun nofun ?_ ?_ ?_
  · intro j hj
    by_cases hji : j = i
    · subst hji
      rw [hself]
      exact ⟨nofun, fun _ => ⟨rfl, nofun⟩, hrow.once, hrow.thread,
        fun call hmem => ⟨(hrow.calls call hmem).signal, (hrow.calls call hmem).other⟩⟩
    · refine (h.threads.rows j hj).later hl hj ?_
      rw [hother j hji]
      exact .refl _
  · intro f hf
    obtain rfl := List.mem_singleton.mp hf
    rw [hnew]
    split_ifs with hfree
    · refine ⟨hi, by rw [hself], ?_⟩
      obtain hmine | hquiet := hfree
      · have hcount := h.threads.runs t i hi
        rw [if_pos hmine, hst, List.countP_cons_of_neg (by simp [Frame.runs])] at hcount
        obtain ⟨g, hg, hrun⟩ := List.countP_pos_iff.mp (by rw [hcount]; exact Nat.one_pos)
        exact .inr ⟨g, List.mem_append_right _ hg, hrun⟩
      · exact .inl (by rw [hself]; exact hquiet)
    · exact ⟨hi, by rw [hself]⟩
  · intro j _ hrun
    cases hrun
  · intro j _
    rw [hthread j, List.countP_cons_of_neg (by simp [Frame.runs]), List.countP_cons_of_neg (by simp [hnone j])]
  · intro u _ j _
    rw [hthread j]

end Sections

section Registering

variable {s s' : Signal} {t i : ℕ} {frame : Frame} {rest : List Frame}

lemma nodup_set {slots : List (Option ℕ)} {k r : ℕ} (h : (slots.filterMap id).Nodup) (hfresh : some r ∉ slots) :
    ((slots.set k (some r)).filterMap id).Nodup := by
  induction slots generalizing k with
  | nil => exact h
  | cons slot slots ih =>
    obtain ⟨hslot, hslots⟩ := List.ne_and_not_mem_of_not_mem_cons hfresh
    have hrest : (slots.filterMap id).Nodup := by
      cases slot with
      | none => exact h
      | some q => exact (List.nodup_cons.mp h).2
    cases k with
    | zero =>
      refine List.nodup_cons.mpr ⟨?_, hrest⟩
      intro hmem
      obtain ⟨q, hq, heq⟩ := List.mem_filterMap.mp hmem
      obtain rfl : q = some r := heq
      exact hslots hq
    | succ k =>
      cases slot with
      | none => exact ih hrest hslots
      | some q =>
        refine List.nodup_cons.mpr ⟨?_, ih hrest hslots⟩
        intro hmem
        obtain ⟨p, hp, heq⟩ := List.mem_filterMap.mp hmem
        obtain rfl : p = some q := heq
        obtain hp | hp := List.mem_or_eq_of_mem_set hp
        · exact (List.nodup_cons.mp h).1 (List.mem_filterMap.mpr ⟨some q, hp, rfl⟩)
        · exact hslot hp.symm

lemma freeSlot_none (h : s.freeSlot = none) {slot : Option ℕ} (hslot : slot ∈ s.slots) : s.isPending slot = true := by
  have hall := List.findIdx?_eq_none_iff.mp h slot hslot
  simpa using hall

lemma isPending_some {r : ℕ} (h : s.isPending (some r) = true) : (s.sub (s.registrations.row r)).done = false := by
  simpa [Signal.isPending] using h

def Signal.register (s : Signal) (i k : ℕ) : Signal :=
  { s with
    registrations := s.registrations.push i
    slots := s.slots.set k (some s.registrations.count) }

lemma register_row (s : Signal) (i k : ℕ) {r : ℕ} (hr : r < s.registrations.count) :
    (s.register i k).registrations.row r = s.registrations.row r := by
  show (s.registrations.push i).row r = s.registrations.row r
  rw [Table.push_row, if_neg hr.ne]

lemma register_row_last (s : Signal) (i k : ℕ) : (s.register i k).registrations.row s.registrations.count = i := by
  show (s.registrations.push i).row s.registrations.count = i
  rw [Table.push_row, if_pos rfl]

lemma Later.stack (h : Later s s') (t : ℕ) (frames : List Frame) : Later s (s'.stack t frames) :=
  ⟨h.subs, h.registrations, h.source, h.done, h.calls, h.quiet, h.cancelled, h.ready⟩

lemma later_register (s : Signal) (i k : ℕ) : Later s (s.register i k) :=
  ⟨le_rfl, Nat.le_succ _, fun _ hr => register_row s i k hr, fun _ _ hd => hd, fun _ _ _ => rfl, fun _ _ _ hq => hq,
    fun _ _ hc => hc, fun hr => ⟨hr, rfl, rfl⟩⟩

lemma Board.register (h : Board s) (hi : i < s.subs.count) (hready : s.ready = false) {k : ℕ} (hk : s.freeSlot = some k) :
    Board (s.register i k) := by
  obtain ⟨hlt, hfree, -⟩ := List.findIdx?_eq_some_iff_getElem.mp hk
  have hfinished : s.finished = false := by
    by_contra hf
    have hready' := (h.finished (by simpa using hf)).1
    rw [hready] at hready'
    cases hready'
  have hlast {r : ℕ} (hr : r < (s.register i k).registrations.count) : r < s.registrations.count ∨ r = s.registrations.count :=
    Nat.lt_succ_iff_lt_or_eq.mp hr
  constructor
  · exact List.length_set.trans h.length
  · intro r hr
    obtain hr | hr := List.mem_or_eq_of_mem_set hr
    · exact Nat.lt_succ_of_lt (h.slots r hr)
    · obtain rfl := Option.some.inj hr
      exact Nat.lt_succ_self _
  · apply nodup_set h.nodup
    intro hmem
    exact absurd (h.slots _ hmem) (Nat.lt_irrefl _)
  · exact h.taken
  · exact fun r hr => Nat.lt_succ_of_lt (h.swapped r hr)
  · intro r hr
    obtain hr | rfl := hlast hr
    · rw [register_row s i k hr]
      exact h.source r hr
    · rw [register_row_last]
      exact hi
  · intro r hr hpending
    have hheld : (s.register i k).held = s.slots.set k (some s.registrations.count) := if_neg (by simp [Signal.register, hready])
    rw [hheld]
    obtain hr | rfl := hlast hr
    · rw [register_row s i k hr] at hpending
      have hmem := h.pending r hr hpending
      rw [Signal.held, if_neg (by simp [hready])] at hmem
      obtain ⟨j, hj, heq⟩ := List.mem_iff_getElem.mp hmem
      have hjk : k ≠ j := by
        rintro rfl
        rw [heq] at hfree
        have hpending' : (s.sub (s.registrations.row r)).done = false := hpending
        simp [Signal.isPending, hpending'] at hfree
      rw [← heq, ← List.getElem_set_of_ne hjk (some s.registrations.count) (by simpa using hj)]
      exact List.getElem_mem _
    · exact List.mem_set hlt _
  · intro hf
    have hf' : s.finished = true := hf
    rw [hfinished] at hf'
    cases hf'
  · intro j hj
    obtain ⟨hlt, hwhy⟩ := h.accepted j hj
    refine ⟨hlt, ?_⟩
    obtain hdone | ⟨r, hr, hrow⟩ := hwhy
    · exact .inl hdone
    · exact .inr ⟨r, Nat.lt_succ_of_lt hr, by rw [register_row s i k hr, hrow]⟩

def afterObserve (i : ℕ) : Option ℕ → List Frame
  | some token => [.binding i [token], .publishing i, .registered i]
  | none => [.registered i]

lemma afterObserve_completes (i : ℕ) (token : Option ℕ) : ∀ f ∈ afterObserve i token, f.completes = false := by
  cases token <;> simp [afterObserve, Frame.completes]

lemma afterObserve_runs (i : ℕ) (token : Option ℕ) (j : ℕ) : (afterObserve i token).countP (Frame.runs j) = 0 := by
  cases token <;> simp [afterObserve, Frame.runs]

lemma afterObserve_ok (hi : i < s.subs.count) {frames : List Frame} (hregistered : FrameOk s frames (.registered i))
    (token : Option ℕ) : ∀ f ∈ afterObserve i token, FrameOk s frames f := by
  intro f hf
  cases token with
  | none =>
    obtain rfl := List.mem_singleton.mp hf
    exact hregistered
  | some token =>
    simp only [afterObserve, List.mem_cons, List.not_mem_nil, or_false] at hf
    obtain rfl | rfl | rfl := hf
    · exact hi
    · exact hi
    · exact hregistered

lemma observe_eq (s : Signal) (t i : ℕ) (token : Option ℕ) (rest : List Frame) :
    s.observe t i token rest =
      if s.ready = true then s.stack t ((.completing i s.result .signal :: afterObserve i token) ++ rest)
      else
        match s.freeSlot with
        | some k => (s.register i k).stack t (afterObserve i token ++ rest)
        | none => { s with refused := s.refused ++ [i] }.stack t ((if token.isSome then [Frame.resetting i] else []) ++ rest) := by
  unfold Signal.observe
  cases token <;> rfl

lemma Inv.observe (h : Inv s) {token : Option ℕ} (hst : s.threads t = .observing i token :: rest) :
    Next s (s.observe t i token rest) := by
  have hi : i < s.subs.count := h.first hst
  rw [observe_eq]
  by_cases hready : s.ready = true
  · rw [if_pos hready]
    refine h.turn hst rfl rfl ⟨rfl, rfl, rfl, rfl, rfl, rfl, rfl⟩ ?_ (afterObserve_completes i token) nofun ?_
    · intro f hf
      obtain rfl | hf := List.mem_cons.mp hf
      · exact ⟨hi, fun _ => ⟨hready, rfl⟩, fun hne => absurd rfl hne⟩
      · have hmem : .completing i s.result .signal ∈ (.completing i s.result .signal :: afterObserve i token) ++ rest :=
          List.mem_append_left _ List.mem_cons_self
        exact @afterObserve_ok (s.stack t ((.completing i s.result .signal :: afterObserve i token) ++ rest)) i hi _
          ⟨hi, .inr (.inr ⟨_, _, hmem⟩)⟩ token f hf
    · intro j
      rw [List.countP_cons_of_neg (by simp [Frame.runs]), List.countP_cons_of_neg (by simp [Frame.runs]), afterObserve_runs]
      rfl
  · rw [if_neg hready]
    have hready' : s.ready = false := by simpa using hready
    cases hk : s.freeSlot with
    | some k =>
      dsimp only
      have hl : Later s ((s.register i k).stack t (afterObserve i token ++ rest)) := (later_register s i k).stack t _
      refine ⟨⟨?_, ?_⟩, hl⟩
      · refine @Stacks.touch s _ t _ rest (afterObserve i token) h.threads h.board hl hst rfl rfl (fun j => .refl _) ?_ ?_
          nofun ?_
        · exact @afterObserve_ok ((s.register i k).stack t (afterObserve i token ++ rest)) i hi _
            ⟨hi, .inr (.inl ⟨s.registrations.count, Nat.lt_succ_self s.registrations.count, register_row_last s i k⟩)⟩ token
        · exact fun f hf => afterObserve_completes i token f (List.mem_of_mem_tail hf)
        · intro j
          rw [List.countP_cons_of_neg (by simp [Frame.runs]), afterObserve_runs]
          rfl
      · have hboard := h.board.register hi hready' hk
        exact hboard.keep (later_of rfl rfl (fun j => .refl _) (fun j hj => hj) fun hr => ⟨hr, rfl, rfl⟩) rfl rfl rfl rfl
          rfl rfl
    | none =>
      dsimp only
      refine h.turn hst rfl rfl ⟨rfl, rfl, rfl, rfl, rfl, rfl, rfl⟩ ?_ ?_ nofun ?_
      · intro f hf
        cases token with
        | none => cases hf
        | some token =>
          obtain rfl := List.mem_singleton.mp hf
          exact hi
      · cases token <;> nofun
      · intro j
        cases token <;> simp [Frame.runs]

lemma Inv.finish (h : Inv s) {code : ErrorCode} (hst : s.threads t = .finishing code :: rest) :
    Next s (s.finish t code rest) := by
  unfold Signal.finish
  by_cases hready : s.ready = true
  · rw [if_pos hready]
    refine @Inv.turn s _ t _ rest [] h hst rfl rfl ⟨rfl, rfl, rfl, rfl, rfl, rfl, rfl⟩ nofun nofun nofun ?_
    intro j
    simp [Frame.runs]
  · rw [if_neg hready]
    set s' := Signal.stack { s with
      ready := true
      result := code
      swapped := s.slots
      slots := List.replicate 16 none } t (.draining code s.slots :: rest) with hs'
    have hl : Later s s' := later_of rfl rfl (fun j => .refl _) (fun j hj => hj) fun hr => absurd hr hready
    refine ⟨⟨?_, ?_⟩, hl⟩
    · refine @Stacks.touch s s' t _ rest [.draining code s.slots] h.threads h.board hl hst rfl rfl (fun j => .refl _) ?_ nofun
        nofun ?_
      · intro f hf
        obtain rfl := List.mem_singleton.mp hf
        exact ⟨rfl, rfl, h.board.slots, fun r hr => .inl hr⟩
      · intro j
        simp [Frame.runs]
    · have hnone (r : ℕ) : some r ∉ List.replicate 16 (none : Option ℕ) := by
        intro hmem
        cases List.eq_of_mem_replicate hmem
      constructor
      · exact List.length_replicate
      · intro r hr
        exact absurd hr (hnone r)
      · exact List.nodup_nil
      · exact h.board.length.le
      · exact h.board.slots
      · exact h.board.source
      · intro r hr hpending
        have hmem := h.board.pending r hr hpending
        rwa [Signal.held, if_neg hready] at hmem
      · intro hf
        exact absurd (h.board.finished hf).1 hready
      · exact h.board.accepted

end Registering

section Steps

variable {s s' : Signal} {t i : ℕ} {frame : Frame} {rest : List Frame}

lemma Inv.pop (h : Inv s) (hst : s.threads t = frame :: rest) (hframe : frame.completes = false)
    (hruns : ∀ j, frame.runs j = false) (hthreads : s'.threads = Function.update s.threads t rest) (hsubs : s'.subs = s.subs)
    (hboard : s'.registrations = s.registrations ∧ s'.slots = s.slots ∧ s'.ready = s.ready ∧ s'.result = s.result ∧
      s'.swapped = s.swapped ∧ s'.finished = s.finished ∧ s'.accepted = s.accepted) : Next s s' := by
  refine @Inv.turn s s' t frame rest [] h hst hthreads hsubs hboard nofun nofun ?_ ?_
  · rintro j code origin rfl
    cases hframe
  · intro j
    rw [List.countP_cons_of_neg (by simp [hruns j])]

lemma Inv.congr (h : Inv s) (hthreads : s'.threads = s.threads) (hsubs : s'.subs = s.subs)
    (hboard : s'.registrations = s.registrations ∧ s'.slots = s.slots ∧ s'.ready = s.ready ∧ s'.result = s.result ∧
      s'.swapped = s.swapped ∧ s'.finished = s.finished ∧ s'.accepted = s.accepted) : Next s s' := by
  obtain ⟨hregistrations, hslots, hready, hresult, hswapped, hfinished, haccepted⟩ := hboard
  have hsub (j : ℕ) : s'.sub j = s.sub j := by rw [Signal.sub, hsubs, Signal.sub]
  have hl : Later s s' := by
    refine later_of (by rw [hsubs]) hregistrations ?_ ?_ fun hr => ⟨hready.trans hr, hresult, hswapped⟩
    · intro j
      rw [hsub j]
      exact .refl _
    · intro j hj
      rwa [hsub j]
  refine ⟨⟨⟨?_, ?_, ?_, ?_⟩, h.board.keep hl hregistrations hslots hready hswapped hfinished haccepted⟩, hl⟩
  · intro j hj
    rw [hsubs] at hj
    refine (h.threads.rows j hj).later hl hj ?_
    rw [hsub j]
    exact .refl _
  · intro u f hf
    rw [hthreads] at hf ⊢
    exact (h.threads.frames u f hf).later hl h.board.source h.board.swapped
  · rw [hthreads]
    exact h.threads.top
  · intro u j hj
    rw [hsubs] at hj
    rw [hthreads, hsub j]
    exact h.threads.runs u j hj

lemma Inv.bind (h : Inv s) {token : ℕ} {tokens : List ℕ} (hst : s.threads t = .binding i (token :: tokens) :: rest) :
    Next s (s.bind t i token (.binding i tokens :: rest)) := by
  have hi : i < s.subs.count := h.first hst
  unfold Signal.bind
  split_ifs
  · refine @Inv.touch s t i _ rest [.completing i .cancelled .stop, .binding i tokens] h hst _ ⟨rfl, rfl, rfl, rfl, rfl, rfl⟩
      (fun _ => rfl) ?_ ?_ rfl ?_
    · intro f hf
      simp only [List.mem_cons, List.not_mem_nil, or_false] at hf
      obtain rfl | rfl := hf
      · refine ⟨hi, nofun, fun _ => ⟨rfl, ?_⟩⟩
        rw [sub_stack, sub_put_self]
      · exact hi
    · intro f hf
      obtain rfl := List.mem_singleton.mp hf
      rfl
    · intro j
      simp [Frame.runs]
  · refine @Inv.touch s t i _ rest [.binding i tokens] h hst _ ⟨rfl, rfl, rfl, rfl, rfl, rfl⟩ id ?_ nofun rfl ?_
    · intro f hf
      obtain rfl := List.mem_singleton.mp hf
      exact hi
    · intro j
      simp [Frame.runs]

lemma Inv.registered (h : Inv s) (hst : s.threads t = .registered i :: rest) :
    Next s { s.stack t rest with accepted := s.accepted ++ [i] } := by
  obtain ⟨hi, hwhy⟩ := h.first hst
  have hknown : (s.sub i).done = true ∨ ∃ r < s.registrations.count, s.registrations.row r = i := by
    obtain hdone | hrow | ⟨code, origin, hmem⟩ := hwhy
    · exact .inl hdone
    · exact .inr hrow
    · obtain heq | hmem := List.mem_cons.mp hmem
      · cases heq
      · have htop := h.threads.top t
        rw [hst] at htop
        have hnone := htop _ hmem
        cases hnone
  obtain ⟨hpop, hl⟩ : Next s (s.stack t rest) :=
    h.pop hst rfl (fun _ => rfl) rfl rfl ⟨rfl, rfl, rfl, rfl, rfl, rfl, rfl⟩
  have hl' : Later (s.stack t rest) { s.stack t rest with accepted := s.accepted ++ [i] } :=
    later_of rfl rfl (fun j => .refl _) (fun j hj => hj) fun hr => ⟨hr, rfl, rfl⟩
  refine ⟨⟨⟨?_, ?_, hpop.threads.top, hpop.threads.runs⟩, ?_⟩, hl.trans hl'⟩
  · exact fun j hj => (hpop.threads.rows j hj).later hl' hj (.refl _)
  · exact fun u f hf => (hpop.threads.frames u f hf).later hl' hpop.board.source hpop.board.swapped
  · refine ⟨hpop.board.length, hpop.board.slots, hpop.board.nodup, hpop.board.taken, hpop.board.swapped, hpop.board.source,
      hpop.board.pending, hpop.board.finished, ?_⟩
    intro j hj
    obtain hj | hj := List.mem_append.mp hj
    · exact h.board.accepted j hj
    · obtain rfl := List.mem_singleton.mp hj
      exact ⟨hi, hknown⟩

lemma Inv.drained (h : Inv s) {code : ErrorCode} (hst : s.threads t = .draining code [] :: rest) :
    Next s { s.stack t rest with finished := true } := by
  obtain ⟨hready, -, -, hall⟩ := h.first hst
  obtain ⟨hpop, hl⟩ : Next s (s.stack t rest) :=
    h.pop hst rfl (fun _ => rfl) rfl rfl ⟨rfl, rfl, rfl, rfl, rfl, rfl, rfl⟩
  have hl' : Later (s.stack t rest) { s.stack t rest with finished := true } :=
    later_of rfl rfl (fun j => .refl _) (fun j hj => hj) fun hr => ⟨hr, rfl, rfl⟩
  refine ⟨⟨⟨?_, ?_, hpop.threads.top, hpop.threads.runs⟩, ?_⟩, hl.trans hl'⟩
  · exact fun j hj => (hpop.threads.rows j hj).later hl' hj (.refl _)
  · exact fun u f hf => (hpop.threads.frames u f hf).later hl' hpop.board.source hpop.board.swapped
  · refine ⟨hpop.board.length, hpop.board.slots, hpop.board.nodup, hpop.board.taken, hpop.board.swapped, hpop.board.source,
      hpop.board.pending, ?_, hpop.board.accepted⟩
    exact fun _ => ⟨hready, fun r hr => (hall r hr).resolve_left List.not_mem_nil⟩

lemma Inv.drain (h : Inv s) {code : ErrorCode} {r : ℕ} {sources : List (Option ℕ)}
    (hst : s.threads t = .draining code (some r :: sources) :: rest) :
    Next s (s.enter t (s.registrations.row r) code .signal (.draining code sources :: rest)) := by
  obtain ⟨hready, hcode, hlt, hall⟩ := h.first hst
  have hr : r < s.registrations.count := hlt r List.mem_cons_self
  refine @Inv.enter s t (s.registrations.row r) _ rest [.draining code sources] h hst (h.board.source r hr) code .signal
    ⟨fun _ => ⟨hready, hcode⟩, fun hne => absurd rfl hne⟩ ?_ ?_ ?_ nofun ?_
  · intro s' hl hdone frames f hf
    obtain rfl := List.mem_singleton.mp hf
    obtain ⟨hready', hresult, htaken⟩ := hl.ready hready
    refine ⟨hready', hcode.trans hresult.symm, ?_, ?_⟩
    · exact fun q hq => lt_of_lt_of_le (hlt q (List.mem_cons_of_mem _ hq)) hl.registrations
    · intro q hq
      rw [htaken] at hq
      have hq' := h.board.swapped q hq
      rw [hl.source q hq']
      obtain hmem | hdone' := hall q hq
      · obtain heq | hmem := List.mem_cons.mp hmem
        · obtain rfl := Option.some.inj heq
          exact .inr hdone
        · exact .inl hmem
      · exact .inr (hl.done _ (h.board.source q hq') hdone')
  · intro f hf
    obtain rfl := List.mem_singleton.mp hf
    rfl
  · intro j
    simp [Frame.runs]
  · intro j
    simp [Frame.runs]

lemma Inv.complete (h : Inv s) {code : ErrorCode} {origin : Origin}
    (hst : s.threads t = .completing i code origin :: rest) : Next s (s.enter t i code origin rest) := by
  obtain ⟨hi, hcall⟩ := h.first hst
  refine @Inv.enter s t i _ rest [] h hst hi code origin hcall (fun _ _ _ _ f hf => absurd hf List.not_mem_nil) nofun
    (fun _ => rfl) ?_ ?_
  · intro j code' origin' heq
    cases heq
    rfl
  · intro j
    simp [Frame.runs]

lemma Inv.advance (h : Inv s) (hst : s.threads t = frame :: rest) (hs : s.advance t rest frame = some s') : Next s s' := by
  have hfirst := h.first hst
  cases frame with
  | observing i token =>
    obtain rfl := Option.some.inj hs
    exact h.observe hst
  | completing i code origin =>
    obtain rfl := Option.some.inj hs
    exact h.complete hst
  | calling i =>
    obtain rfl := Option.some.inj hs
    refine @Inv.turn s _ t _ rest [.leaving i] h hst rfl rfl ⟨rfl, rfl, rfl, rfl, rfl, rfl, rfl⟩ ?_ nofun nofun ?_
    · intro f hf
      obtain rfl := List.mem_singleton.mp hf
      exact hfirst
    · intro j
      simp [Frame.runs, List.countP_cons]
  | leaving i =>
    obtain rfl := Option.some.inj hs
    exact h.leave hst
  | binding i tokens =>
    cases tokens with
    | nil =>
      obtain rfl := Option.some.inj hs
      exact h.pop hst rfl (fun _ => rfl) rfl rfl ⟨rfl, rfl, rfl, rfl, rfl, rfl, rfl⟩
    | cons token tokens =>
      obtain rfl := Option.some.inj hs
      exact h.bind hst
  | publishing i =>
    obtain rfl := Option.some.inj hs
    refine @Inv.touch s t i _ rest [] h hst _ ⟨rfl, rfl, rfl, rfl, rfl, rfl⟩ id nofun nofun rfl ?_
    intro j
    simp [Frame.runs]
  | registered i =>
    obtain rfl := Option.some.inj hs
    exact h.registered hst
  | finishing code =>
    obtain rfl := Option.some.inj hs
    exact h.finish hst
  | draining code sources =>
    cases sources with
    | nil =>
      obtain rfl := Option.some.inj hs
      exact h.drained hst
    | cons source sources =>
      cases source with
      | none =>
        obtain rfl := Option.some.inj hs
        obtain ⟨hready, hcode, hlt, hall⟩ := hfirst
        refine @Inv.turn s _ t _ rest [.draining code sources] h hst rfl rfl ⟨rfl, rfl, rfl, rfl, rfl, rfl, rfl⟩ ?_ nofun
          nofun ?_
        · intro f hf
          obtain rfl := List.mem_singleton.mp hf
          refine ⟨hready, hcode, fun r hr => hlt r (List.mem_cons_of_mem _ hr), ?_⟩
          intro r hr
          refine (hall r hr).imp_left fun hmem => ?_
          obtain heq | hmem := List.mem_cons.mp hmem
          · cases heq
          · exact hmem
        · intro j
          simp [Frame.runs]
      | some r =>
        obtain rfl := Option.some.inj hs
        exact h.drain hst
  | resetting i =>
    obtain rfl := Option.some.inj hs
    exact h.reset hst
  | waiting i =>
    obtain ⟨hinvoking, heq⟩ := Option.ite_none_left_eq_some.mp hs
    obtain rfl := Option.some.inj heq
    refine @Inv.turn s _ t _ rest [.unbinding i] h hst rfl rfl ⟨rfl, rfl, rfl, rfl, rfl, rfl, rfl⟩ ?_ nofun nofun ?_
    · intro f hf
      obtain rfl := List.mem_singleton.mp hf
      exact ⟨hfirst.1, hfirst.2, .inl (Bool.eq_false_iff.mpr hinvoking)⟩
    · intro j
      simp [Frame.runs]
  | unbinding i =>
    obtain ⟨-, rfl⟩ := of_guard hs
    obtain ⟨htouch, hl⟩ : Next s ((s.put i { s.sub i with tokens := [] }).stack t ([] ++ rest)) := by
      refine @Inv.touch s t i _ rest [] h hst _ ⟨rfl, rfl, rfl, rfl, rfl, rfl⟩ id nofun nofun rfl ?_
      intro j
      simp [Frame.runs]
    obtain ⟨hinv, hl'⟩ := @Inv.congr _ (s.unbind t i rest) htouch rfl rfl ⟨rfl, rfl, rfl, rfl, rfl, rfl, rfl⟩
    exact ⟨hinv, hl.trans hl'⟩
  | stopping token =>
    obtain ⟨-, rfl⟩ := of_guard hs
    exact h.pop hst rfl (fun _ => rfl) rfl rfl ⟨rfl, rfl, rfl, rfl, rfl, rfl, rfl⟩
  | stopped i =>
    obtain rfl := Option.some.inj hs
    refine @Inv.touch s t i _ rest [] h hst _ ⟨rfl, rfl, rfl, rfl, rfl, rfl⟩ id nofun nofun rfl ?_
    intro j
    simp [Frame.runs]

lemma Inv.begin (h : Inv s) (hbegins : Signal.begins (s.threads t) = true) {new : List Frame}
    (hthreads : s'.threads = Function.update s.threads t (new ++ s.threads t)) (hcount : s'.subs.count = s.subs.count)
    (hsame : ∀ j, Same (s.sub j) (s'.sub j)) (hcancelled : ∀ j, (s.sub j).cancelled = true → (s'.sub j).cancelled = true)
    (hboard : s'.registrations = s.registrations ∧ s'.slots = s.slots ∧ s'.ready = s.ready ∧ s'.result = s.result ∧
      s'.swapped = s.swapped ∧ s'.finished = s.finished ∧ s'.accepted = s.accepted)
    (hnew : ∀ f ∈ new, FrameOk s' (new ++ s.threads t) f) (htail : ∀ f ∈ new.tail, f.completes = false)
    (hruns : ∀ i, new.countP (Frame.runs i) = 0) : Next s s' := by
  obtain ⟨hregistrations, hslots, hready, hresult, hswapped, hfinished, haccepted⟩ := hboard
  have hl : Later s s' := later_of hcount hregistrations hsame hcancelled fun hr => ⟨hready.trans hr, hresult, hswapped⟩
  refine ⟨⟨?_, h.board.keep hl hregistrations hslots hready hswapped hfinished haccepted⟩, hl⟩
  refine h.threads.begin h.board hl hbegins hthreads ?_ hnew htail hruns ?_ ?_
  · intro j hj
    rw [hcount] at hj
    exact (h.threads.rows j hj).later hl hj (hsame j)
  · exact fun j _ => (hsame j).thread
  · intro j hj hge
    rw [hcount] at hj
    exact absurd hj (Nat.not_lt.mpr hge)

lemma Inv.push (h : Inv s) (hbegins : Signal.begins (s.threads t) = true) {new : List Frame}
    (hnew : ∀ f ∈ new, (∃ token, f = .observing s.subs.count token) ∨ (∃ tokens, f = .binding s.subs.count tokens) ∨
      f = .publishing s.subs.count) :
    Next s (Signal.stack { s with subs := s.subs.push {} } t (new ++ s.threads t)) := by
  set s' := Signal.stack { s with subs := s.subs.push {} } t (new ++ s.threads t) with hs'
  have hold (j : ℕ) (hj : j < s.subs.count) : s'.sub j = s.sub j := by
    show (s.subs.push {}).row j = s.subs.row j
    rw [Table.push_row, if_neg hj.ne]
  have hlast : s'.sub s.subs.count = {} := by
    show (s.subs.push {}).row s.subs.count = {}
    rw [Table.push_row, if_pos rfl]
  have hcases {j : ℕ} (hj : j < s'.subs.count) : j < s.subs.count ∨ j = s.subs.count := Nat.lt_succ_iff_lt_or_eq.mp hj
  have hl : Later s s' := by
    refine ⟨Nat.le_succ _, le_rfl, fun _ _ => rfl, ?_, ?_, ?_, ?_, fun hr => ⟨hr, rfl, rfl⟩⟩ <;> intro j hj <;> rw [hold j hj]
    · exact id
    · exact fun _ => rfl
    · exact fun _ => id
    · exact id
  refine ⟨⟨?_, h.board.keep hl rfl rfl rfl rfl rfl rfl⟩, hl⟩
  refine h.threads.begin h.board hl hbegins rfl ?_ ?_ ?_ ?_ ?_ ?_
  · intro j hj
    obtain hj | rfl := hcases hj
    · refine (h.threads.rows j hj).later hl hj ?_
      rw [hold j hj]
      exact .refl _
    · rw [hlast]
      exact ⟨fun _ => ⟨rfl, rfl, rfl, rfl⟩, nofun, Nat.zero_le _, rfl, nofun⟩
  · intro f hf
    obtain ⟨token, rfl⟩ | ⟨tokens, rfl⟩ | rfl := hnew f hf
    · exact Nat.lt_succ_self s.subs.count
    · exact Nat.lt_succ_self s.subs.count
    · exact Nat.lt_succ_self s.subs.count
  · intro f hf
    obtain ⟨token, rfl⟩ | ⟨tokens, rfl⟩ | rfl := hnew f (List.mem_of_mem_tail hf) <;> rfl
  · intro j
    apply List.countP_eq_zero.mpr
    intro f hf
    obtain ⟨token, rfl⟩ | ⟨tokens, rfl⟩ | rfl := hnew f hf <;> simp [Frame.runs]
  · intro j hj
    rw [hold j hj]
  · intro j hj hge
    obtain hj | rfl := hcases hj
    · exact absurd hj (Nat.not_lt.mpr hge)
    · rw [hlast]

lemma Inv.start (h : Inv s) (hbegins : Signal.begins (s.threads t) = true) {op : Op} (hs : s.start t op = some s') :
    Next s s' := by
  cases op with
  | subscribe token =>
    obtain rfl := Option.some.inj hs
    refine @Inv.push s t h hbegins [.observing s.subs.count (some token)] ?_
    intro f hf
    exact .inl ⟨_, List.mem_singleton.mp hf⟩
  | create tokens =>
    obtain rfl := Option.some.inj hs
    refine @Inv.push s t h hbegins [.binding s.subs.count tokens, .publishing s.subs.count] ?_
    intro f hf
    simp only [List.mem_cons, List.not_mem_nil, or_false] at hf
    obtain rfl | rfl := hf
    · exact .inr (.inl ⟨_, rfl⟩)
    · exact .inr (.inr rfl)
  | observe i =>
    obtain ⟨hi, rfl⟩ := of_guard hs
    refine @Inv.begin s _ t h hbegins [.observing i none] rfl rfl (fun j => .refl _) (fun j hj => hj)
      ⟨rfl, rfl, rfl, rfl, rfl, rfl, rfl⟩ ?_ nofun fun j => by simp [Frame.runs]
    intro f hf
    obtain rfl := List.mem_singleton.mp hf
    exact hi
  | complete code =>
    obtain rfl := Option.some.inj hs
    refine @Inv.begin s _ t h hbegins [.finishing code] rfl rfl (fun j => .refl _) (fun j hj => hj)
      ⟨rfl, rfl, rfl, rfl, rfl, rfl, rfl⟩ ?_ nofun fun j => by simp [Frame.runs]
    intro f hf
    obtain rfl := List.mem_singleton.mp hf
    trivial
  | cancel i =>
    obtain ⟨hi, heq⟩ := Option.ite_none_right_eq_some.mp hs
    by_cases hhandle : (s.sub i).handle = true
    · rw [if_pos hhandle] at heq
      obtain rfl := Option.some.inj heq
      refine @Inv.begin s _ t h hbegins [.completing i .cancelled .cancel] rfl rfl
        (same_put ⟨rfl, rfl, rfl, rfl, rfl, rfl⟩) ?_ ⟨rfl, rfl, rfl, rfl, rfl, rfl, rfl⟩ ?_ nofun fun j => by simp [Frame.runs]
      · intro j hj
        rw [sub_stack]
        by_cases hji : j = i
        · subst hji
          rw [sub_put_self]
        · rwa [sub_put_ne _ _ hji]
      · intro f hf
        obtain rfl := List.mem_singleton.mp hf
        refine ⟨hi, nofun, fun _ => ⟨rfl, ?_⟩⟩
        rw [sub_stack, sub_put_self]
    · rw [if_neg hhandle] at heq
      obtain rfl := Option.some.inj heq
      exact ⟨h, .refl s⟩
  | reset i =>
    obtain ⟨hi, heq⟩ := Option.ite_none_right_eq_some.mp hs
    by_cases hhandle : (s.sub i).handle = true
    · rw [if_pos hhandle] at heq
      obtain rfl := Option.some.inj heq
      refine @Inv.begin s _ t h hbegins [.resetting i] rfl rfl (same_put ⟨rfl, rfl, rfl, rfl, rfl, rfl⟩) ?_
        ⟨rfl, rfl, rfl, rfl, rfl, rfl, rfl⟩ ?_ nofun fun j => by simp [Frame.runs]
      · intro j hj
        rw [sub_stack]
        by_cases hji : j = i
        · subst hji
          rwa [sub_put_self]
        · rwa [sub_put_ne _ _ hji]
      · intro f hf
        obtain rfl := List.mem_singleton.mp hf
        exact hi
    · rw [if_neg hhandle] at heq
      obtain rfl := Option.some.inj heq
      exact h.congr rfl rfl ⟨rfl, rfl, rfl, rfl, rfl, rfl, rfl⟩
  | requestStop token =>
    unfold Signal.start at hs
    dsimp only at hs
    by_cases hstopped : token ∈ s.stops
    · rw [if_pos hstopped] at hs
      obtain rfl := Option.some.inj hs
      exact ⟨h, .refl s⟩
    · rw [if_neg hstopped] at hs
      obtain rfl := Option.some.inj hs
      refine @Inv.begin s _ t h hbegins [.stopping token] rfl rfl (fun j => .refl _) (fun j hj => hj)
        ⟨rfl, rfl, rfl, rfl, rfl, rfl, rfl⟩ ?_ nofun fun j => by simp [Frame.runs]
      intro f hf
      obtain rfl := List.mem_singleton.mp hf
      trivial

lemma Inv.runStop (h : Inv s) (hst : s.threads t = frame :: rest) (hs : s.runStop t i rest frame = some s') : Next s s' := by
  cases frame with
  | stopping token =>
    obtain ⟨⟨hi, -⟩, rfl⟩ := of_guard hs
    refine @Inv.touch s t i _ rest [.completing i .cancelled .stop, .stopped i, .stopping token] h hst _
      ⟨rfl, rfl, rfl, rfl, rfl, rfl⟩ (fun _ => rfl) ?_ ?_ rfl ?_
    · intro f hf
      simp only [List.mem_cons, List.not_mem_nil, or_false] at hf
      obtain rfl | rfl | rfl := hf
      · refine ⟨hi, nofun, fun _ => ⟨rfl, ?_⟩⟩
        rw [sub_stack, sub_put_self]
      · exact hi
      · trivial
    · intro f hf
      simp only [List.tail_cons, List.mem_cons, List.not_mem_nil, or_false] at hf
      obtain rfl | rfl := hf <;> rfl
    · intro j
      simp [Frame.runs]
  | _ => cases hs

lemma Inv.step {event : ℕ × Choice} (h : Inv s) (hs : step s event = some s') : Next s s' := by
  obtain ⟨t, choice⟩ := event
  cases choice with
  | begin op =>
    obtain ⟨hbegins, hs⟩ := Option.ite_none_right_eq_some.mp hs
    exact h.start hbegins hs
  | advance =>
    unfold CompletionSignal.step at hs
    dsimp only at hs
    cases hst : s.threads t with
    | nil =>
      rw [hst] at hs
      cases hs
    | cons frame rest =>
      rw [hst] at hs
      exact h.advance hst hs
  | runStop i =>
    unfold CompletionSignal.step at hs
    dsimp only at hs
    cases hst : s.threads t with
    | nil =>
      rw [hst] at hs
      cases hs
    | cons frame rest =>
      rw [hst] at hs
      exact h.runStop hst hs

lemma Inv.fresh : Inv {} := by
  have hnone (r : ℕ) : some r ∉ List.replicate 16 (none : Option ℕ) := by
    intro hmem
    cases List.eq_of_mem_replicate hmem
  refine ⟨⟨nofun, nofun, nofun, nofun⟩, List.length_replicate, fun r hr => absurd hr (hnone r), List.nodup_nil,
    Nat.zero_le _, nofun, nofun, nofun, nofun, nofun⟩

end Steps

def Fresh (s : Signal) : Prop := s = {}

lemma inv_of_reachable {s : Signal} (h : Reachable step Fresh s) : Inv s := by
  refine h.invariant ?_ fun _ _ _ hinv hstep => (hinv.step hstep).inv
  rintro _ rfl
  exact .fresh

end ServerCore.Runtime.CompletionSignal
