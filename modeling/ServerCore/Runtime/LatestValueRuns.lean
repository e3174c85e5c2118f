import ServerCore.Runtime.LatestValue

/-! What a `LatestValue` keeps in every run: its versions, what reads return and who watches. -/

namespace ServerCore.Runtime.LatestValue

open ServerCore.Core ServerCore.Foundations

variable {α : Type*}

section Soundness

variable {l l' : Latest α} {place' : WaitPlace ℕ}

def Latest.view (l : Latest α) : View ℕ where
  pending i := i < l.subscriptions.count ∧ l.isPending i = true
  registered i := ∃ watchers, l.watchers = some watchers ∧ i ∈ watchers
  ready version := l.updated version = true

structure Sound (l : Latest α) : Prop where
  version_eq : l.version = l.published.length
  value_eq : l.value = l.published.getLast?
  version_le : l.version ≤ maximumVersion
  bytes_le : l.bytes ≤ l.options.maxRetainedBytes
  watchers_none : l.watchers = none ↔ l.closed = true
  watching : ∀ watchers, l.watchers = some watchers → watchers.length ≤ l.options.maxSubscriptions ∧
    ∀ i ∈ watchers, i < l.subscriptions.count ∧ (l.isPending i = true → (l.subscriptions.row i).request = l.version)
  observed : ∀ p ∈ l.observed, p.1 < p.2.version ∧ p.2.value = l.published[p.2.version - 1]? ∧ p.2.value ≠ none

lemma hands_refuses (code : ErrorCode) : Hands l.view l.view (.answered code) := .refl nofun

lemma handed {i : ℕ} (code : ErrorCode) (hr : l.view.registered i) :
    (i, code) ∈ (l.watchers.getD []).map fun i => (i, code) := by
  obtain ⟨watchers, hw, hmem⟩ := hr
  rw [hw]
  exact List.mem_map.mpr ⟨i, hmem, rfl⟩

lemma publish_sound (h : Sound l) (value : Option α) (retainedBytes : ℕ) (allocated : Bool) :
    Sound (l.publish value retainedBytes allocated).1 := by
  cases value with
  | none => exact h
  | some value =>
    simp only [Latest.publish]
    split_ifs with hlarge hmem hclosed hlast
    · exact h
    · exact h
    · exact h
    · exact h
    · have hversion := h.version_le
      refine ⟨?_, by simp, by simp only; omega, Nat.not_lt.mp hlarge, ?_, ?_, fun p hp => ?_⟩
      · simp [h.version_eq]
      · simpa using hclosed
      · rintro watchers hw
        obtain rfl := Option.some.inj hw
        exact ⟨Nat.zero_le _, nofun⟩
      · obtain ⟨hlt, hvalue, hsome⟩ := h.observed p hp
        refine ⟨hlt, ?_, hsome⟩
        rw [hvalue, List.getElem?_append_left]
        by_contra hge
        rw [List.getElem?_eq_none (Nat.not_lt.mp hge)] at hvalue
        exact hsome hvalue

lemma publish_hands (value : Option α) (retainedBytes : ℕ) (allocated : Bool) :
    Hands l.view (l.publish value retainedBytes allocated).1.view (l.publish value retainedBytes allocated).2 := by
  cases value with
  | none => exact hands_refuses _
  | some value =>
    simp only [Latest.publish]
    split_ifs with hlarge hmem hclosed hlast
    · exact hands_refuses _
    · exact hands_refuses _
    · exact hands_refuses _
    · exact hands_refuses _
    · refine ⟨fun i hi => ?_, nofun, fun _ _ _ => ⟨_, rfl⟩⟩
      by_cases hr : l.view.registered i
      · exact .inr (.inl ⟨_, handed .ok hr⟩)
      · exact .inr (.inr ⟨hi, hr⟩)

lemma close_sound (h : Sound l) : Sound l.close.1 :=
  ⟨h.version_eq, h.value_eq, h.version_le, h.bytes_le, iff_of_true rfl rfl, nofun, h.observed⟩

lemma close_hands : Hands l.view l.close.1.view l.close.2 := by
  refine ⟨fun i hi => ?_, nofun, fun _ _ _ => ⟨_, rfl⟩⟩
  by_cases hr : l.view.registered i
  · exact .inr (.inl ⟨_, handed .closed hr⟩)
  · exact .inr (.inr ⟨hi, hr⟩)

lemma readAfter_iff {version : ℕ} {snapshot : Snapshot α} :
    l.readAfter version = .ok snapshot ↔ version < l.version ∧ snapshot = l.current := by
  rw [Latest.readAfter]
  split_ifs with hlarge heq
  · exact iff_of_false nofun fun h => by omega
  · exact iff_of_false nofun fun h => by omega
  · rw [Except.ok.injEq, eq_comm (a := snapshot), and_iff_right (by omega)]

lemma read_sound (h : Sound l) (version : ℕ) : Sound (l.read version).1 := by
  rw [Latest.read]
  cases hr : l.readAfter version with
  | error code => exact h
  | ok snapshot =>
    obtain ⟨hlt, rfl⟩ := readAfter_iff.mp hr
    refine ⟨h.version_eq, h.value_eq, h.version_le, h.bytes_le, h.watchers_none, h.watching, fun p hp => ?_⟩
    rcases List.mem_append.mp hp with hp | hp
    · exact h.observed p hp
    · obtain rfl := List.mem_singleton.mp hp
      have hlength := h.version_eq
      have hvalue : l.value = l.published[l.version - 1]? := by
        rw [h.value_eq, List.getLast?_eq_getElem?, hlength]
      refine ⟨hlt, hvalue, ?_⟩
      simp only [Latest.current, hvalue]
      rw [List.getElem?_eq_getElem (by omega)]
      exact nofun

lemma read_hands (version : ℕ) : Hands l.view (l.read version).1.view (l.read version).2 := by
  rw [Latest.read]
  cases l.readAfter version with
  | error code => exact hands_refuses _
  | ok snapshot => exact hands_refuses _

lemma turn_sound (h : Sound l) (version : ℕ) (stopRequested expired : Bool) : Sound (l.turn version stopRequested expired).1 := by
  rw [Latest.turn]
  split_ifs
  · exact h
  · exact read_sound h version
  · exact h
  · exact h

lemma turn_hands (version : ℕ) (stopRequested expired : Bool) :
    Hands l.view (l.turn version stopRequested expired).1.view (l.turn version stopRequested expired).2 := by
  rw [Latest.turn]
  split_ifs with hstop hupdated hexpired
  · exact hands_refuses _
  · exact read_hands version
  · exact hands_refuses _
  · refine .refl ?_
    rintro request hr
    obtain rfl := WaitPlace.waiting.inj hr
    exact hupdated

lemma waitAfter_sound (h : Sound l) (version : ℕ) (stopRequested expired : Bool) :
    Sound (l.waitAfter version stopRequested expired).1 := by
  rw [Latest.waitAfter]
  split_ifs
  · exact h
  · exact turn_sound h version stopRequested expired

lemma waitAfter_hands (version : ℕ) (stopRequested expired : Bool) :
    Hands l.view (l.waitAfter version stopRequested expired).1.view (l.waitAfter version stopRequested expired).2 := by
  rw [Latest.waitAfter]
  split_ifs
  · exact hands_refuses _
  · exact turn_hands version stopRequested expired

lemma row_push {request i : ℕ} (hi : i < l.subscriptions.count) :
    (l.subscriptions.push ⟨request, .pending⟩).row i = l.subscriptions.row i := by
  rw [Table.push_row, if_neg hi.ne]

lemma getD_watching (h : Sound l) {i : ℕ} (hi : i ∈ l.watchers.getD []) :
    i < l.subscriptions.count ∧ (l.isPending i = true → (l.subscriptions.row i).request = l.version) := by
  cases hw : l.watchers with
  | none =>
    rw [hw] at hi
    cases hi
  | some watchers =>
    rw [hw] at hi
    exact (h.watching watchers hw).2 i hi

lemma waitForChange_sound (h : Sound l) (version : ℕ) (failure : Option ErrorCode) :
    Sound (l.waitForChange version failure).1 := by
  have hrow (request i : ℕ) (hi : i < l.subscriptions.count ∧ (l.isPending i = true → (l.subscriptions.row i).request = l.version)) :
      i < l.subscriptions.count + 1 ∧ (((l.subscriptions.push ⟨request, .pending⟩).row i).isPending = true →
        ((l.subscriptions.push ⟨request, .pending⟩).row i).request = l.version) := by
    rw [row_push hi.1]
    exact ⟨hi.1.trans (Nat.lt_succ_self _), hi.2⟩
  have hpush (request : ℕ) : Sound { l with subscriptions := l.subscriptions.push ⟨request, .pending⟩ } := by
    refine ⟨h.version_eq, h.value_eq, h.version_le, h.bytes_le, h.watchers_none, fun watchers hw => ?_, h.observed⟩
    exact ⟨(h.watching watchers hw).1, fun i hi => hrow request i ((h.watching watchers hw).2 i hi)⟩
  cases failure with
  | some code => exact h
  | none =>
    simp only [Latest.waitForChange]
    split_ifs with hlarge hne hclosed hfull
    · exact h
    · exact hpush version
    · exact hpush version
    · have hopen : l.watchers ≠ none := fun hnone => hclosed (h.watchers_none.mp hnone)
      refine ⟨h.version_eq, h.value_eq, h.version_le, h.bytes_le, ?_, ?_, h.observed⟩
      · simpa using hclosed
      · rintro watchers hw
        obtain rfl := Option.some.inj hw
        obtain ⟨old, hold⟩ := Option.ne_none_iff_exists'.mp hopen
        refine ⟨?_, fun i hi => getD_watching h (List.mem_of_mem_filter hi)⟩
        rw [hold, Option.getD_some]
        exact (List.length_filter_le _ _).trans (h.watching old hold).1
    · refine ⟨h.version_eq, h.value_eq, h.version_le, h.bytes_le, ?_, ?_, h.observed⟩
      · simpa using hclosed
      · rintro watchers hw
        obtain rfl := Option.some.inj hw
        refine ⟨?_, fun i hi => ?_⟩
        · rw [List.length_append, List.length_singleton]
          exact Nat.lt_of_not_le hfull
        · rcases List.mem_append.mp hi with hi | hi
          · exact hrow version i (getD_watching h (List.mem_of_mem_filter hi))
          · obtain rfl := List.mem_singleton.mp hi
            refine ⟨Nat.lt_succ_self _, fun _ => ?_⟩
            simp only [Table.push_row, ↓reduceIte]
            exact (not_not.mp hne).symm

lemma filter_registered {i : ℕ} (hi : l.isPending i = true) (hr : l.view.registered i) :
    i ∈ (l.watchers.getD []).filter l.isPending := by
  obtain ⟨watchers, hw, hmem⟩ := hr
  rw [hw]
  exact List.mem_filter.mpr ⟨hmem, hi⟩

lemma waitForChange_hands (version : ℕ) (failure : Option ErrorCode) :
    Hands l.view (l.waitForChange version failure).1.view (l.waitForChange version failure).2 := by
  have hpush (code : ErrorCode) (watchers : Option (List ℕ)) (place' : WaitPlace ℕ)
      (hplace : ∀ request, place' ≠ .waiting request)
      (hnew : (∃ ws, watchers = some ws ∧ l.subscriptions.count ∈ ws) ∨ ∃ code, (l.subscriptions.count, code) ∈ place'.sources)
      (hold : ∀ i, l.isPending i = true → l.view.registered i → ∃ ws, watchers = some ws ∧ i ∈ ws) :
      Hands l.view
        ({ l with subscriptions := l.subscriptions.push ⟨version, .pending⟩, watchers } : Latest α).view place' := by
    refine ⟨fun i hi => ?_, fun request hr => (hplace request hr).elim, fun _ hn hr => (hn hr).elim⟩
    obtain ⟨hi, hp⟩ := hi
    rw [Table.push_count] at hi
    rcases eq_or_ne i l.subscriptions.count with rfl | hne
    · exact hnew.imp_right .inl
    · have hlt : i < l.subscriptions.count := by omega
      rw [Latest.isPending, row_push hlt] at hp
      by_cases hr : l.view.registered i
      · exact .inl (hold i hp hr)
      · exact .inr (.inr ⟨⟨hlt, hp⟩, hr⟩)
  cases failure with
  | some code => exact hands_refuses _
  | none =>
    simp only [Latest.waitForChange]
    split_ifs with hlarge hne hclosed hfull
    · exact hands_refuses _
    · exact hpush .ok l.watchers _ nofun (.inr ⟨_, List.mem_singleton_self _⟩) fun i _ hr => hr
    · exact hpush .ok l.watchers _ nofun (.inr ⟨_, List.mem_singleton_self _⟩) fun i _ hr => hr
    · refine ⟨fun i hi => ?_, nofun, fun _ hn hr => (hn hr).elim⟩
      by_cases hr : l.view.registered i
      · exact .inl ⟨_, rfl, filter_registered hi.2 hr⟩
      · exact .inr (.inr ⟨hi, hr⟩)
    · exact hpush .ok _ _ nofun (.inl ⟨_, rfl, by simp⟩) fun i hi hr =>
        ⟨_, rfl, List.mem_append_left _ (filter_registered hi hr)⟩

section Completing

variable {i : ℕ} {f : Subscription ℕ → Subscription ℕ}

lemma update_sound (h : Sound l) (hf : Settles f) : Sound (l.update i f) := by
  refine ⟨h.version_eq, h.value_eq, h.version_le, h.bytes_le, h.watchers_none, fun watchers hw => ?_, h.observed⟩
  obtain ⟨hlength, hall⟩ := h.watching watchers hw
  refine ⟨hlength, fun j hj => ?_⟩
  obtain ⟨hlt, hrequest⟩ := hall j hj
  obtain ⟨hsame, hp⟩ := @Settles.row _ l.subscriptions i _ hf j
  rw [Latest.isPending, Latest.update, hsame]
  exact ⟨hlt, fun hp' => hrequest (hp hp').2⟩

lemma update_pending (hf : Settles f) (j : ℕ) (h : (l.update i f).view.pending j) : j ≠ i ∧ l.view.pending j := by
  obtain ⟨hne, hp⟩ := (hf.row j).2 h.2
  exact ⟨hne, h.1, hp⟩

end Completing

end Soundness

structure Inv (s : State α) : Prop where
  sound : Sound s.latest
  watched : Watched s.latest.view s.threads

section Runs

variable {s s' : State α} {t : ℕ}

lemma inv_initial (h : Initial s) : Inv s := by
  obtain ⟨options, hcreate, hthreads⟩ := h
  simp only [Latest.create, Option.ite_none_left_eq_some, Option.some.injEq] at hcreate
  obtain ⟨latest, threads⟩ := s
  obtain ⟨-, rfl⟩ := hcreate
  refine ⟨⟨rfl, rfl, Nat.zero_le _, Nat.zero_le _, by simp, ?_, nofun⟩, fun i hi => (Nat.not_lt_zero _ hi.1).elim, fun t _ ht => ?_⟩
  · rintro watchers hw
    obtain rfl := Option.some.inj hw
    exact ⟨Nat.zero_le _, nofun⟩
  · simp only at hthreads
    simp [hthreads] at ht

lemma inv_step (h : Inv s) {event : ℕ × Choice α} (hs : step s event = some s') : Inv s' := by
  obtain ⟨t, choice⟩ := event
  obtain ⟨⟨latest, place'⟩, ha, rfl⟩ := Option.map_eq_some_iff.mp hs
  simp only at ha ⊢
  cases choice with
  | publish value retainedBytes allocated =>
    obtain ⟨hfree, rfl, rfl⟩ := of_guard_pair ha
    exact ⟨publish_sound h.sound _ _ _, h.watched.passes_free hfree (publish_hands _ _ _)⟩
  | close =>
    obtain ⟨hfree, rfl, rfl⟩ := of_guard_pair ha
    exact ⟨close_sound h.sound, h.watched.passes_free hfree close_hands⟩
  | readAfter version =>
    obtain ⟨hfree, rfl, rfl⟩ := of_guard_pair ha
    exact ⟨read_sound h.sound _, h.watched.passes_free hfree (read_hands _)⟩
  | waitAfter version stopRequested expired =>
    obtain ⟨hfree, rfl, rfl⟩ := of_guard_pair ha
    exact ⟨waitAfter_sound h.sound _ _ _, h.watched.passes_free hfree (waitAfter_hands _ _ _)⟩
  | waitForChange version failure =>
    obtain ⟨hfree, rfl, rfl⟩ := of_guard_pair ha
    exact ⟨waitForChange_sound h.sound _ _, h.watched.passes_free hfree (waitForChange_hands _ _)⟩
  | wake =>
    cases hplace : s.threads t with
    | waiting version =>
      rw [hplace] at ha
      obtain ⟨rfl, rfl⟩ := of_some_pair ha
      exact ⟨h.sound, h.watched.passes (by rw [hplace]; rfl) (by rw [hplace]; exact nofun) (.refl nofun)⟩
    | _ => simp [hplace, advance] at ha
  | resume stopRequested expired =>
    cases hplace : s.threads t with
    | woken version =>
      rw [hplace] at ha
      obtain ⟨rfl, rfl⟩ := of_some_pair ha
      exact ⟨turn_sound h.sound _ _ _,
        h.watched.passes (by rw [hplace]; rfl) (by rw [hplace]; exact nofun) (turn_hands _ _ _)⟩
    | _ => simp [hplace, advance] at ha
  | complete =>
    cases hplace : s.threads t with
    | completing sources =>
      cases sources with
      | nil => simp [hplace, advance] at ha
      | cons entry rest =>
        obtain ⟨source, code⟩ := entry
        rw [hplace] at ha
        obtain ⟨rfl, rfl⟩ := of_some_pair ha
        refine ⟨update_sound h.sound (complete_settles code), h.watched.settle (update_pending (complete_settles code)) rfl rfl
          (fun j code' hne hmem => ?_) (.inr ⟨by rw [hplace]; exact nofun, nofun⟩)⟩
        rw [hplace] at hmem
        exact (List.mem_cons.mp hmem).resolve_left fun heq => hne (Prod.mk.inj heq).1
    | _ => simp [hplace, advance] at ha
  | cancel source =>
    obtain ⟨-, rfl, rfl⟩ := of_guard_pair ha
    exact ⟨update_sound h.sound (complete_settles _), h.watched.settle (update_pending (complete_settles _)) rfl rfl
      (fun _ _ _ hmem => hmem) (.inl rfl)⟩
  | reset source =>
    obtain ⟨-, rfl, rfl⟩ := of_guard_pair ha
    exact ⟨update_sound h.sound reset_settles, h.watched.settle (update_pending reset_settles) rfl rfl
      (fun _ _ _ hmem => hmem) (.inl rfl)⟩
  | notify =>
    cases hplace : s.threads t with
    | notifying sources =>
      rw [hplace] at ha
      obtain ⟨rfl, rfl⟩ := of_some_pair ha
      exact ⟨h.sound, h.watched.notify hplace⟩
    | _ => simp [hplace, advance] at ha

lemma inv_of_reachable (h : Reachable step Initial s) : Inv s :=
  h.invariant (fun _ => inv_initial) fun _ _ _ hinv hstep => inv_step hinv hstep

def Publishes (l l' : Latest α) : Prop :=
  l'.version = l.version ∧ l'.value = l.value ∧ l'.published = l.published ∨
    ∃ value, l'.version = l.version + 1 ∧ l'.value = some value ∧ l'.published = l.published ++ [value]

lemma publishes_refl (l : Latest α) : Publishes l l := .inl ⟨rfl, rfl, rfl⟩

lemma publish_publishes (l : Latest α) (value : Option α) (retainedBytes : ℕ) (allocated : Bool) :
    Publishes l (l.publish value retainedBytes allocated).1 := by
  cases value with
  | none => exact publishes_refl l
  | some value =>
    simp only [Latest.publish]
    split_ifs
    · exact publishes_refl l
    · exact publishes_refl l
    · exact publishes_refl l
    · exact publishes_refl l
    · exact .inr ⟨value, rfl, rfl, rfl⟩

lemma read_publishes (l : Latest α) (version : ℕ) : Publishes l (l.read version).1 := by
  rw [Latest.read]
  cases l.readAfter version with
  | error code => exact publishes_refl l
  | ok snapshot => exact .inl ⟨rfl, rfl, rfl⟩

lemma turn_publishes (l : Latest α) (version : ℕ) (stopRequested expired : Bool) :
    Publishes l (l.turn version stopRequested expired).1 := by
  rw [Latest.turn]
  split_ifs
  · exact publishes_refl l
  · exact read_publishes l version
  · exact publishes_refl l
  · exact publishes_refl l

lemma waitAfter_publishes (l : Latest α) (version : ℕ) (stopRequested expired : Bool) :
    Publishes l (l.waitAfter version stopRequested expired).1 := by
  rw [Latest.waitAfter]
  split_ifs
  · exact publishes_refl l
  · exact turn_publishes l version stopRequested expired

lemma waitForChange_publishes (l : Latest α) (version : ℕ) (failure : Option ErrorCode) :
    Publishes l (l.waitForChange version failure).1 := by
  cases failure with
  | some code => exact publishes_refl l
  | none =>
    simp only [Latest.waitForChange]
    split_ifs <;> exact .inl ⟨rfl, rfl, rfl⟩

lemma advance_publishes {l l' : Latest α} {choice : Choice α} {place place' : WaitPlace ℕ}
    (h : advance l choice place = some (l', place')) : Publishes l l' := by
  cases choice with
  | publish value retainedBytes allocated =>
    obtain ⟨-, rfl, rfl⟩ := of_guard_pair h
    exact publish_publishes l value retainedBytes allocated
  | close =>
    obtain ⟨-, rfl, rfl⟩ := of_guard_pair h
    exact publishes_refl _
  | readAfter version =>
    obtain ⟨-, rfl, rfl⟩ := of_guard_pair h
    exact read_publishes l version
  | waitAfter version stopRequested expired =>
    obtain ⟨-, rfl, rfl⟩ := of_guard_pair h
    exact waitAfter_publishes l version stopRequested expired
  | waitForChange version failure =>
    obtain ⟨-, rfl, rfl⟩ := of_guard_pair h
    exact waitForChange_publishes l version failure
  | cancel source =>
    obtain ⟨-, rfl, rfl⟩ := of_guard_pair h
    exact publishes_refl _
  | reset source =>
    obtain ⟨-, rfl, rfl⟩ := of_guard_pair h
    exact publishes_refl _
  | wake =>
    cases place with
    | waiting version =>
      obtain ⟨rfl, rfl⟩ := of_some_pair h
      exact publishes_refl l
    | _ => cases h
  | resume stopRequested expired =>
    cases place with
    | woken version =>
      obtain ⟨rfl, rfl⟩ := of_some_pair h
      exact turn_publishes l version stopRequested expired
    | _ => cases h
  | complete =>
    cases place with
    | completing sources =>
      cases sources with
      | nil => cases h
      | cons entry rest =>
        obtain ⟨rfl, rfl⟩ := of_some_pair h
        exact publishes_refl _
    | _ => cases h
  | notify =>
    cases place with
    | notifying sources =>
      obtain ⟨rfl, rfl⟩ := of_some_pair h
      exact publishes_refl l
    | _ => cases h

lemma step_publishes {event : ℕ × Choice α} (hs : step s event = some s') : Publishes s.latest s'.latest := by
  obtain ⟨⟨latest, place'⟩, ha, rfl⟩ := Option.map_eq_some_iff.mp hs
  exact advance_publishes ha

end Runs

end ServerCore.Runtime.LatestValue
