import ServerCore.Runtime.RequestLimiterRuns

/-! The limiter that a request limiter imitates: its table has no bound, and it never drops an entry. -/

namespace ServerCore.Runtime.RequestLimiter

open ServerCore.Core ServerCore.Foundations

structure Unbounded where
  options : RequestLimiterOptions
  entries : KeyMap Bytes RequestLimitEntry := ⟨∅, fun _ => ⟨0, 0, 0, 0⟩⟩
  active : ℕ := 0
  closed : Bool := false
  permits : Table (Option Bytes) := ⟨0, fun _ => none⟩

namespace Unbounded

def admitKnown (u : Unbounded) (key : Bytes) (entry : RequestLimitEntry) (now cost : ℕ) : Unbounded × RequestAdmission :=
  match u.options.admits entry now cost with
  | (entry, some (reason, retryAfter)) => ({ u with entries := u.entries.set key entry }, .refused reason retryAfter)
  | (entry, none) =>
    ({ u with
        entries := u.entries.set key entry
        active := u.active + 1
        permits := u.permits.push (some key) }, .permit u.permits.count)

def tryAcquire (u : Unbounded) (key : Bytes) (now cost : ℕ) : Unbounded × RequestAdmission :=
  match u.options.argumentError key cost with
  | some code => (u, .failed code)
  | none =>
    if u.closed then (u, .failed .closed)
    else if u.active ≥ u.options.maxConcurrentTotal then (u, .refused .totalConcurrency 0)
    else u.admitKnown key (u.entries.getD key (u.options.fresh now)) now cost

def reset (u : Unbounded) (permit now : ℕ) : Unbounded :=
  match u.permits.row permit with
  | none => u
  | some key =>
    let entry := u.entries.get key
    { u with
      entries := u.entries.set key { entry with active := sizeSub entry.active 1, seen := now }
      active := sizeSub u.active 1
      permits := u.permits.set permit none }

def perform (u : Unbounded) (now : ℕ) : Request → Unbounded × RequestAdmission
  | .tryAcquire key cost => u.tryAcquire key now cost
  | .reset permit => (u.reset permit now, .done)
  | .pruneExpired => (u, .done)
  | .close => ({ u with closed := true }, .done)

def replay (u : Unbounded) : List Call → Unbounded × List RequestAdmission
  | [] => (u, [])
  | call :: calls =>
    let (u', answer) := u.perform call.now call.request
    let (u'', answers) := u'.replay calls
    (u'', answer :: answers)

lemma replay_append (u : Unbounded) (calls : List Call) (call : Call) : u.replay (calls ++ [call]) =
    (((u.replay calls).1.perform call.now call.request).1,
      (u.replay calls).2 ++ [((u.replay calls).1.perform call.now call.request).2]) := by
  induction calls generalizing u with
  | nil => rfl
  | cons first calls ih =>
    rw [List.cons_append, replay, replay]
    simp only [ih, List.cons_append]

section Admit

variable {o : RequestLimiterOptions} {key : Bytes} {entry : RequestLimitEntry} {now cost : ℕ}

lemma admitKnown_refused (u : Unbounded) {refusal : RequestLimitReason × ℕ} (ho : u.options = o)
    (hr : (o.admits entry now cost).2 = some refusal) : u.admitKnown key entry now cost =
      ({ u with entries := u.entries.set key (o.admits entry now cost).1 }, .refused refusal.1 refusal.2) := by
  rw [admitKnown, ho]
  generalize o.admits entry now cost = answer at hr ⊢
  obtain ⟨entry, result⟩ := answer
  obtain rfl : result = _ := hr
  rfl

lemma admitKnown_granted (u : Unbounded) (ho : u.options = o) (hr : (o.admits entry now cost).2 = none) :
    u.admitKnown key entry now cost =
      ({ u with
          entries := u.entries.set key (o.admits entry now cost).1
          active := u.active + 1
          permits := u.permits.push (some key) }, .permit u.permits.count) := by
  rw [admitKnown, ho]
  generalize o.admits entry now cost = answer at hr ⊢
  obtain ⟨entry, result⟩ := answer
  obtain rfl : result = _ := hr
  rfl

end Admit

end Unbounded

/-- The limiter and its reference, told apart by no call from `now` on. -/
structure Mirrors (s : State) (u : Unbounded) (now : ℕ) : Prop where
  options : u.options = s.options
  closed : u.closed = s.closed
  active : u.active = s.active
  permits : u.permits = s.permits
  alike : s.closed = false → Alike s.options now s.entries u.entries
  valid : s.closed = false → AllValid s.options now u.entries

namespace Mirrors

variable {s s' : State} {u : Unbounded} {now t cost permit : ℕ} {key : Bytes} {request : Request}

lemma later (h : Mirrors s u now) (hle : now ≤ t) : Mirrors s u t :=
  { h with
    alike := fun hopen => (h.alike hopen).later hle
    valid := fun hopen => (h.valid hopen).later hle }

lemma admits {s₁ : State} (cost : ℕ) (h : Mirrors s u now) (hopen : s.closed = false) (hroomy : State.Roomy s s₁ key now) :
    (u.admitKnown key (entryOf u.options u.entries key now) now cost).2 =
        (s₁.admitKnown key (entryOf s.options s₁.entries key now) now cost).2 ∧
      Mirrors (s₁.admitKnown key (entryOf s.options s₁.entries key now) now cost).1
        (u.admitKnown key (entryOf u.options u.entries key now) now cost).1 now := by
  obtain ⟨-, -, keyBytes, hsound⟩ := hroomy.bytes
  have ho := hroomy.options
  have hvalid := h.valid hopen
  have hvalid₁ : AllValid s.options now s₁.entries := ho ▸ hsound.valid
  obtain ⟨hanswer, hafter⟩ := (hroomy.alike.trans (h.alike hopen)).admits key cost
    (ho ▸ hsound.options) hvalid₁ hvalid
  have hclosed := h.closed.trans hroomy.closed.symm
  have hactive := h.active.trans hroomy.active.symm
  have hpermits := h.permits.trans hroomy.permits.symm
  rw [h.options]
  cases hr : (s.options.admits (entryOf s.options s₁.entries key now) now cost).2 with
  | some refusal =>
    have hr' := hanswer.symm.trans hr
    obtain ⟨hnew, -⟩ := admit_refused (ho ▸ hsound.options) (entryOf_valid hvalid key) (by rw [hr']; exact nofun)
    rw [u.admitKnown_refused h.options hr', s₁.admitKnown_refused ho hr]
    refine ⟨rfl, h.options.trans ho.symm, hclosed, hactive, hpermits, fun _ => ?_, fun _ => ?_⟩
    · rw [ho]
      exact hafter
    · rw [ho]
      exact hvalid.set hnew
  | none =>
    have hr' := hanswer.symm.trans hr
    obtain ⟨hnew, -⟩ := admit_granted (entryOf_valid hvalid key) hr'
    rw [u.admitKnown_granted h.options hr', s₁.admitKnown_granted ho hr, hpermits]
    refine ⟨rfl, h.options.trans ho.symm, hclosed, congrArg (· + 1) hactive, rfl, fun _ => ?_, fun _ => ?_⟩
    · rw [ho]
      exact hafter
    · rw [ho]
      exact hvalid.set hnew

lemma makeRoom (h : Mirrors s u now) (hs : s.Sound now) : Mirrors (s.makeRoom key now) u now := by
  obtain ⟨hoptions, hclosed, hactive, hpermits⟩ := State.makeRoom_frame s key now
  refine ⟨h.options.trans hoptions.symm, h.closed.trans hclosed.symm, h.active.trans hactive.symm, h.permits.trans hpermits.symm,
    fun hopen => ?_, fun hopen => ?_⟩
  · rw [hclosed] at hopen
    rw [hoptions]
    exact (State.makeRoom_alike key hs hopen).trans (h.alike hopen)
  · rw [hclosed] at hopen
    rw [hoptions]
    exact h.valid hopen

lemma tryAcquire (h : Mirrors s u now) (hs : s.Sound now) :
    (s.tryAcquire key now cost).2 = .refused .keyCapacity 0 ∧ Mirrors (s.tryAcquire key now cost).1 u now ∨
      (s.tryAcquire key now cost).2 ≠ .refused .keyCapacity 0 ∧ (u.tryAcquire key now cost).2 = (s.tryAcquire key now cost).2 ∧
        Mirrors (s.tryAcquire key now cost).1 (u.tryAcquire key now cost).1 now := by
  have htried := State.tryAcquire_tried key cost hs
  generalize s.tryAcquire key now cost = result at htried ⊢
  obtain ⟨s', answer⟩ := result
  rw [Unbounded.tryAcquire, h.options, h.closed, h.active]
  cases htried with
  | invalid code he =>
    rw [he]
    exact .inr ⟨nofun, rfl, h⟩
  | closed he hclosed =>
    simp only [he]
    rw [if_pos hclosed]
    exact .inr ⟨nofun, rfl, h⟩
  | full he hopen hfull =>
    simp only [he]
    rw [if_neg (Bool.eq_false_iff.mp hopen), if_pos hfull]
    exact .inr ⟨nofun, rfl, h⟩
  | crowded he hopen hactive hkey hcrowded => exact .inl ⟨rfl, h.makeRoom hs⟩
  | admitted s' he hopen hactive hroomy =>
    simp only [he]
    rw [if_neg (Bool.eq_false_iff.mp hopen), if_neg (not_le.mpr hactive)]
    have := h.admits cost hopen hroomy
    rw [h.options] at this
    exact .inr ⟨State.admitKnown_placed _ _ _ _ _ _, this⟩

lemma resetState (h : Mirrors s u now) (hs : s.Sound now) (hp : s.permits.row permit = some key) :
    Mirrors (s.resetState permit now key) (u.reset permit now) now := by
  obtain ⟨-, hkey, hone, -⟩ := State.permit_entry hs hp
  have hreset : u.permits.row permit = some key := h.permits ▸ hp
  rw [Unbounded.reset, hreset]
  refine ⟨h.options, h.closed, by rw [State.resetState, h.active], by rw [State.resetState, h.permits], fun hopen => ?_, fun hopen => ?_⟩
  all_goals
    obtain ⟨hactive, hlevel⟩ := h.alike hopen key
    rw [activeOf, if_pos hkey, activeOf] at hactive
    have hmem : key ∈ u.entries.domain := by
      by_contra hnot
      rw [if_neg hnot] at hactive
      omega
    rw [if_pos hmem] at hactive
  · refine (h.alike hopen).set ⟨by rw [hactive], fun t ht => ?_⟩
    have := hlevel t ht
    rwa [levelOf, if_pos hkey, levelOf, if_pos hmem] at this
  · obtain ⟨hnonneg, hle, hpast⟩ := h.valid hopen key hmem
    exact (h.valid hopen).set ⟨hnonneg, hle, hpast⟩

lemma prune {pressure : Bool} (h : Mirrors s u now) (hs : s.Sound now) : Mirrors (s.prune now pressure).1 u now :=
  { h with alike := fun hopen => (State.prune_alike hs hopen).trans (h.alike hopen) }

lemma reset (h : Mirrors s u now) (hs : s.Sound now) : Mirrors (s.reset permit now) (u.reset permit now) now := by
  cases hp : s.permits.row permit with
  | none =>
    rw [State.reset_none hp, Unbounded.reset, h.permits, hp]
    exact h
  | some key =>
    rw [State.reset_some hp]
    split_ifs with hclosed
    · exact (h.resetState hs hp).prune (State.resetState_sound hs hp)
    · exact h.resetState hs hp

lemma perform (h : Mirrors s u now) (hs : s.Sound now) :
    (s.perform now request).2 = .refused .keyCapacity 0 ∧ Mirrors (s.perform now request).1 u now ∨
      (s.perform now request).2 ≠ .refused .keyCapacity 0 ∧ (u.perform now request).2 = (s.perform now request).2 ∧
        Mirrors (s.perform now request).1 (u.perform now request).1 now := by
  cases request with
  | tryAcquire key cost => exact h.tryAcquire hs
  | reset permit => exact .inr ⟨nofun, rfl, h.reset hs⟩
  | pruneExpired => exact .inr ⟨nofun, rfl, h.prune hs⟩
  | close =>
    have hclosed : Mirrors { s with closed := true } { u with closed := true } now :=
      { h with closed := rfl, alike := nofun, valid := nofun }
    exact .inr ⟨nofun, rfl, hclosed.prune { hs with }⟩

end Mirrors

end ServerCore.Runtime.RequestLimiter
