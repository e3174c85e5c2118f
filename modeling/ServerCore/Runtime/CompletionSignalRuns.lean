import ServerCore.Core.CompletionSubscription
import ServerCore.Runtime.CompletionSignalInvariant
import Mathlib.Data.Finset.Card

/-! Every callback runs at most once, none is lost, and none runs behind a `Reset`. -/

namespace ServerCore.Runtime.CompletionSignal

open ServerCore.Core ServerCore.Foundations

section History

variable {s s' : Signal} {t i : ℕ} {frame : Frame} {rest : List Frame}

lemma enter_history (s : Signal) (t i : ℕ) (code : ErrorCode) (origin : Origin) (rest : List Frame) :
    (s.enter t i code origin rest).resets = s.resets ∧ (s.enter t i code origin rest).refused = s.refused := by
  unfold Signal.enter
  split_ifs <;> exact ⟨rfl, rfl⟩

lemma bind_history (s : Signal) (t i token : ℕ) (rest : List Frame) :
    (s.bind t i token rest).resets = s.resets ∧ (s.bind t i token rest).refused = s.refused := by
  unfold Signal.bind
  split_ifs <;> exact ⟨rfl, rfl⟩

lemma finish_history (s : Signal) (t : ℕ) (code : ErrorCode) (rest : List Frame) :
    (s.finish t code rest).resets = s.resets ∧ (s.finish t code rest).refused = s.refused := by
  unfold Signal.finish
  split_ifs <;> exact ⟨rfl, rfl⟩

lemma observe_history (s : Signal) (t i : ℕ) (token : Option ℕ) (rest : List Frame) :
    (s.observe t i token rest).resets = s.resets ∧
      ((s.observe t i token rest).refused = s.refused ∨ s.ready = false ∧ s.freeSlot = none) := by
  rw [observe_eq]
  by_cases hready : s.ready = true
  · rw [if_pos hready]
    exact ⟨rfl, .inl rfl⟩
  · rw [if_neg hready]
    cases hk : s.freeSlot with
    | some k => exact ⟨rfl, .inl rfl⟩
    | none => exact ⟨rfl, .inr ⟨by simpa using hready, rfl⟩⟩

lemma advance_history (hs : s.advance t rest frame = some s') :
    (s'.resets = s.resets ∨ ∃ i, frame = .unbinding i ∧ s'.resets = s.resets ++ [⟨t, i, true⟩]) ∧
      (s'.refused = s.refused ∨ s.ready = false ∧ s.freeSlot = none) := by
  have hsame (h : s'.resets = s.resets ∧ s'.refused = s.refused) :
      (s'.resets = s.resets ∨ ∃ i, frame = .unbinding i ∧ s'.resets = s.resets ++ [⟨t, i, true⟩]) ∧
        (s'.refused = s.refused ∨ s.ready = false ∧ s.freeSlot = none) := ⟨.inl h.1, .inl h.2⟩
  cases frame with
  | observing i token =>
    obtain rfl := Option.some.inj hs
    obtain ⟨hresets, hrefused⟩ := observe_history s t i token rest
    exact ⟨.inl hresets, hrefused⟩
  | completing i code origin =>
    obtain rfl := Option.some.inj hs
    exact hsame (enter_history ..)
  | calling i =>
    obtain rfl := Option.some.inj hs
    exact hsame ⟨rfl, rfl⟩
  | leaving i =>
    obtain rfl := Option.some.inj hs
    exact hsame ⟨rfl, rfl⟩
  | binding i tokens =>
    cases tokens with
    | nil =>
      obtain rfl := Option.some.inj hs
      exact hsame ⟨rfl, rfl⟩
    | cons token tokens =>
      obtain rfl := Option.some.inj hs
      exact hsame (bind_history ..)
  | publishing i =>
    obtain rfl := Option.some.inj hs
    exact hsame ⟨rfl, rfl⟩
  | registered i =>
    obtain rfl := Option.some.inj hs
    exact hsame ⟨rfl, rfl⟩
  | finishing code =>
    obtain rfl := Option.some.inj hs
    exact hsame (finish_history ..)
  | draining code sources =>
    cases sources with
    | nil =>
      obtain rfl := Option.some.inj hs
      exact hsame ⟨rfl, rfl⟩
    | cons source sources =>
      cases source with
      | none =>
        obtain rfl := Option.some.inj hs
        exact hsame ⟨rfl, rfl⟩
      | some r =>
        obtain rfl := Option.some.inj hs
        exact hsame (enter_history ..)
  | resetting i =>
    obtain rfl := Option.some.inj hs
    exact hsame ⟨rfl, rfl⟩
  | waiting i =>
    obtain ⟨-, heq⟩ := Option.ite_none_left_eq_some.mp hs
    obtain rfl := Option.some.inj heq
    exact hsame ⟨rfl, rfl⟩
  | unbinding i =>
    obtain ⟨-, rfl⟩ := of_guard hs
    exact ⟨.inr ⟨i, rfl, rfl⟩, .inl rfl⟩
  | stopping token =>
    obtain ⟨-, rfl⟩ := of_guard hs
    exact hsame ⟨rfl, rfl⟩
  | stopped i =>
    obtain rfl := Option.some.inj hs
    exact hsame ⟨rfl, rfl⟩

lemma start_history {op : Op} (hs : s.start t op = some s') :
    (s'.resets = s.resets ∨
      ∃ i, op = .reset i ∧ i < s.subs.count ∧ (s.sub i).handle = false ∧ s'.resets = s.resets ++ [⟨t, i, false⟩]) ∧
      s'.refused = s.refused := by
  cases op with
  | subscribe token =>
    obtain rfl := Option.some.inj hs
    exact ⟨.inl rfl, rfl⟩
  | create tokens =>
    obtain rfl := Option.some.inj hs
    exact ⟨.inl rfl, rfl⟩
  | observe i =>
    obtain ⟨-, rfl⟩ := of_guard hs
    exact ⟨.inl rfl, rfl⟩
  | complete code =>
    obtain rfl := Option.some.inj hs
    exact ⟨.inl rfl, rfl⟩
  | cancel i =>
    obtain ⟨-, heq⟩ := Option.ite_none_right_eq_some.mp hs
    split_ifs at heq <;> obtain rfl := Option.some.inj heq <;> exact ⟨.inl rfl, rfl⟩
  | reset i =>
    obtain ⟨hi, heq⟩ := Option.ite_none_right_eq_some.mp hs
    split_ifs at heq with hheld <;> obtain rfl := Option.some.inj heq
    · exact ⟨.inl rfl, rfl⟩
    · exact ⟨.inr ⟨i, rfl, hi, by simpa using hheld, rfl⟩, rfl⟩
  | requestStop token =>
    unfold Signal.start at hs
    dsimp only at hs
    split_ifs at hs <;> obtain rfl := Option.some.inj hs <;> exact ⟨.inl rfl, rfl⟩

lemma runStop_history (hs : s.runStop t i rest frame = some s') : s'.resets = s.resets ∧ s'.refused = s.refused := by
  cases frame with
  | stopping token =>
    obtain ⟨-, rfl⟩ := of_guard hs
    exact ⟨rfl, rfl⟩
  | _ => cases hs

lemma step_history {event : ℕ × Choice} (hs : step s event = some s') :
    (∀ t i held, s'.resets = s.resets ++ [⟨t, i, held⟩] → (∃ rest, s.threads t = .unbinding i :: rest) ∨
      event = (t, .begin (.reset i)) ∧ i < s.subs.count ∧ (s.sub i).handle = false) ∧
      (s'.refused = s.refused ∨ s.ready = false ∧ s.freeSlot = none) := by
  obtain ⟨u, choice⟩ := event
  have hsame (h : s'.resets = s.resets) (t i : ℕ) (held : Bool) (hresets : s'.resets = s.resets ++ [⟨t, i, held⟩]) :
      (∃ rest, s.threads t = .unbinding i :: rest) ∨
        (u, choice) = (t, .begin (.reset i)) ∧ i < s.subs.count ∧ (s.sub i).handle = false := by
    rw [h] at hresets
    simp at hresets
  cases choice with
  | begin op =>
    obtain ⟨-, hs⟩ := Option.ite_none_right_eq_some.mp hs
    obtain ⟨hresets, hrefused⟩ := start_history hs
    refine ⟨?_, .inl hrefused⟩
    obtain hresets | ⟨j, rfl, hj, hempty, hresets⟩ := hresets
    · exact hsame hresets
    · intro t i held hresets'
      rw [hresets] at hresets'
      obtain ⟨rfl, rfl, -⟩ : u = t ∧ j = i ∧ false = held := by simpa using hresets'
      exact .inr ⟨rfl, hj, hempty⟩
  | advance =>
    unfold step at hs
    dsimp only at hs
    cases hst : s.threads u with
    | nil =>
      rw [hst] at hs
      cases hs
    | cons frame rest =>
      rw [hst] at hs
      obtain ⟨hresets, hrefused⟩ := advance_history hs
      refine ⟨?_, hrefused⟩
      obtain hresets | ⟨j, rfl, hresets⟩ := hresets
      · exact hsame hresets
      · intro t i held hresets'
        rw [hresets] at hresets'
        obtain ⟨rfl, rfl, -⟩ : u = t ∧ j = i ∧ true = held := by simpa using hresets'
        exact .inl ⟨rest, hst⟩
  | runStop j =>
    unfold step at hs
    dsimp only at hs
    cases hst : s.threads u with
    | nil =>
      rw [hst] at hs
      cases hs
    | cons frame rest =>
      rw [hst] at hs
      obtain ⟨hresets, hrefused⟩ := runStop_history hs
      exact ⟨hsame hresets, .inl hrefused⟩

end History

section Outcome

variable {s s' : Signal} {t i : ℕ}

lemma next_of_steps (h : Inv s) (hsteps : Steps step s s') : Next s s' := by
  refine @Steps.invariant _ _ step (fun u => Next s u) s s' hsteps ⟨h, .refl s⟩ ?_
  intro u event u' hu hstep
  obtain ⟨hinv, hl⟩ := hu.inv.step hstep
  exact ⟨hinv, hu.later.trans hl⟩

def Signal.running (s : Signal) (t i : ℕ) : Prop := ∃ frame ∈ s.threads t, frame.runs i = true

lemma not_running (h : Inv s) (hi : i < s.subs.count) (hquiet : (s.sub i).invoking = false) (t : ℕ) : ¬ s.running t i := by
  rintro ⟨frame, hframe, hrun⟩
  have hthread := (h.threads.rows i hi).thread
  rw [hquiet] at hthread
  have hnone : (s.sub i).thread = none := Option.isNone_iff_eq_none.mp (Option.isSome_eq_false_iff.mp hthread)
  have hcount := h.threads.runs t i hi
  rw [hnone, if_neg nofun] at hcount
  exact List.countP_eq_zero.mp hcount frame hframe hrun

/-- A `Reset` whose handle an earlier one has emptied, with the callback running on another thread or still to run. -/
def Signal.meetsEmptied (s : Signal) : ℕ × Choice → Bool
  | (t, .begin (.reset i)) =>
    !(s.sub i).handle && (!(s.sub i).done || ((s.sub i).invoking && decide ((s.sub i).thread ≠ some t)))
  | _ => false

def orderedStep (s : Signal) (event : ℕ × Choice) : Option Signal := if s.meetsEmptied event then none else step s event

lemma quiet_of_reset (h : Inv s) {event : ℕ × Choice} {held : Bool} (hs : orderedStep s event = some s')
    (hresets : s'.resets = s.resets ++ [⟨t, i, held⟩]) (hother : ¬ s.running t i) :
    i < s.subs.count ∧ (s.sub i).done = true ∧ (s.sub i).invoking = false := by
  obtain ⟨hordered, hs⟩ := Option.ite_none_left_eq_some.mp hs
  obtain ⟨rest, hst⟩ | ⟨rfl, hi, hempty⟩ := (step_history hs).1 t i held hresets
  · obtain ⟨hi, hdone, hquiet⟩ := h.first hst
    refine ⟨hi, hdone, hquiet.resolve_right ?_⟩
    rw [← hst]
    exact hother
  · have hdone : (s.sub i).done = true := by
      by_contra hpending
      simp [Signal.meetsEmptied, hempty, hpending] at hordered
    refine ⟨hi, hdone, ?_⟩
    by_contra hinvoking
    have hthread : (s.sub i).thread = some t := by
      by_contra hne
      simp [Signal.meetsEmptied, hempty, hinvoking, hne] at hordered
    have hcount := h.threads.runs t i hi
    rw [hthread, if_pos rfl] at hcount
    obtain ⟨frame, hframe, hrun⟩ := List.countP_pos_iff.mp (by rw [hcount]; exact Nat.one_pos)
    exact hother ⟨frame, hframe, hrun⟩

lemma reset_quiesces (h : Inv s) {event : ℕ × Choice} {held : Bool} (hs : orderedStep s event = some s')
    (hresets : s'.resets = s.resets ++ [⟨t, i, held⟩]) (hother : ¬ s.running t i) {s'' : Signal}
    (hsteps : Steps step s' s'') : (∀ u, ¬ s''.running u i) ∧ (s''.sub i).calls = (s'.sub i).calls := by
  obtain ⟨hi, hdone, hquiet⟩ := quiet_of_reset h hs hresets hother
  obtain ⟨hinv', hl⟩ := h.step (Option.ite_none_left_eq_some.mp hs).2
  obtain ⟨hinv'', hl'⟩ := next_of_steps hinv' hsteps
  have hi' : i < s'.subs.count := lt_of_lt_of_le hi hl.subs
  have hdone' := hl.done i hi hdone
  refine ⟨?_, hl'.calls i hi' hdone'⟩
  exact not_running hinv'' (lt_of_lt_of_le hi' hl'.subs) (hl'.quiet i hi' hdone' (hl.quiet i hi hdone hquiet))

def Signal.pendingRegistrations (s : Signal) : Finset ℕ :=
  (Finset.range s.registrations.count).filter fun r => (s.sub (s.registrations.row r)).done = false

lemma pendingRegistrations_le (h : Inv s) : s.pendingRegistrations.card ≤ 16 := by
  have hsub : s.pendingRegistrations ⊆ (s.held.filterMap id).toFinset := by
    intro r hr
    obtain ⟨hlt, hpending⟩ := Finset.mem_filter.mp hr
    exact List.mem_toFinset.mpr (List.mem_filterMap.mpr ⟨_, h.board.pending r (Finset.mem_range.mp hlt) hpending, rfl⟩)
  have hheld : s.held.length ≤ 16 := by
    unfold Signal.held
    split_ifs
    · exact h.board.taken
    · exact h.board.length.le
  calc s.pendingRegistrations.card ≤ (s.held.filterMap id).toFinset.card := Finset.card_le_card hsub
    _ ≤ (s.held.filterMap id).length := List.toFinset_card_le _
    _ ≤ s.held.length := List.length_filterMap_le _ _
    _ ≤ 16 := hheld

def Signal.full (s : Signal) : Prop :=
  ∃ rs : List ℕ, s.slots = rs.map some ∧ rs.Nodup ∧ rs.length = 16 ∧ ∀ r ∈ rs, r ∈ s.pendingRegistrations

lemma full_of_freeSlot (h : Inv s) (hnone : s.freeSlot = none) : s.full := by
  have hsome (slots : List (Option ℕ)) (hall : ∀ slot ∈ slots, slot.isSome = true) : slots = (slots.filterMap id).map some := by
    induction slots with
    | nil => rfl
    | cons slot slots ih =>
      obtain ⟨r, rfl⟩ := Option.isSome_iff_exists.mp (hall slot List.mem_cons_self)
      have htail := ih fun slot hslot => hall slot (List.mem_cons_of_mem _ hslot)
      exact congrArg (some r :: ·) htail
  have hslots := hsome s.slots fun slot hslot => by
    have hpending := freeSlot_none hnone hslot
    cases slot with
    | none => cases hpending
    | some r => rfl
  refine ⟨_, hslots, h.board.nodup, ?_, ?_⟩
  · have hlength := congrArg List.length hslots
    rw [List.length_map, h.board.length] at hlength
    exact hlength.symm
  · intro r hr
    obtain ⟨slot, hmem, heq⟩ := List.mem_filterMap.mp hr
    obtain rfl : slot = some r := heq
    exact Finset.mem_filter.mpr ⟨Finset.mem_range.mpr (h.board.slots r hmem), isPending_some (freeSlot_none hnone hmem)⟩

lemma delivered (h : Inv s) (hfinished : s.finished = true) (hi : i ∈ s.accepted) (hkept : (s.sub i).discarded = false) :
    ∃ call, (s.sub i).calls = [call] ∧ ((s.sub i).cancelled = false → call = ⟨s.result, .signal⟩) := by
  obtain ⟨hlt, hwhy⟩ := h.board.accepted i hi
  obtain ⟨hready, hall⟩ := h.board.finished hfinished
  have hdone : (s.sub i).done = true := by
    obtain hdone | ⟨r, hr, rfl⟩ := hwhy
    · exact hdone
    · by_contra hpending
      have hmem := h.board.pending r hr (by simpa using hpending)
      rw [Signal.held, if_pos hready] at hmem
      exact hpending (hall r hmem)
  have hrow := h.threads.rows i hlt
  obtain ⟨call, hcall⟩ := List.length_eq_one_iff.mp ((hrow.spent hdone).2 hkept)
  refine ⟨call, hcall, ?_⟩
  intro hcancelled
  have hok := hrow.calls call (by rw [hcall]; exact List.mem_singleton_self _)
  obtain ⟨code, origin⟩ := call
  by_cases horigin : origin = .signal
  · subst horigin
    rw [← (hok.signal rfl).2]
  · rw [(hok.other horigin).2] at hcancelled
    cases hcancelled

def Sub.subscription (sub : Sub) : Subscription Unit :=
  ⟨(), if sub.done then (match sub.calls with
    | [] => .suppressed
    | call :: _ => .completed call.code) else .pending⟩

/-- A step completes the one-shot subscription, drops it or leaves it alone. -/
theorem subscription_step (h : Inv s) {event : ℕ × Choice} (hs : step s event = some s') (hi : i < s.subs.count) :
    (s'.sub i).subscription = (s.sub i).subscription ∨
      (∃ code, (s'.sub i).subscription = (s.sub i).subscription.complete code) ∨
      (s'.sub i).subscription = (s.sub i).subscription.reset := by
  obtain ⟨hinv', hl⟩ := h.step hs
  by_cases hdone : (s.sub i).done = true
  · refine .inl ?_
    rw [Sub.subscription, hl.done i hi hdone, hl.calls i hi hdone, Sub.subscription, hdone]
  · have hpending : (s.sub i).subscription = ⟨(), .pending⟩ := by rw [Sub.subscription, if_neg hdone]
    rw [hpending]
    by_cases hdone' : (s'.sub i).done = true
    · refine .inr ?_
      cases hcalls : (s'.sub i).calls with
      | nil =>
        refine .inr ?_
        rw [Sub.subscription, if_pos hdone', hcalls]
        rfl
      | cons call calls =>
        refine .inl ⟨call.code, ?_⟩
        rw [Sub.subscription, if_pos hdone', hcalls]
        rfl
    · refine .inl ?_
      rw [Sub.subscription, if_neg hdone']

theorem completions_sound (h : Reachable step Fresh s) :
    (∀ i < s.subs.count, (s.sub i).calls.length ≤ 1 ∧ ∀ call ∈ (s.sub i).calls,
      (call.origin = .signal → s.ready = true ∧ call.code = s.result) ∧
      (call.origin ≠ .signal → call.code = .cancelled ∧ (s.sub i).cancelled = true)) ∧
    (s.finished = true → ∀ i ∈ s.accepted, (s.sub i).discarded = false →
      ∃ call, (s.sub i).calls = [call] ∧ ((s.sub i).cancelled = false → call = ⟨s.result, .signal⟩)) ∧
    (s.ready = true → ∀ s', Steps step s s' → s'.ready = true ∧ s'.result = s.result) ∧
    (∀ event s' t i held, orderedStep s event = some s' → s'.resets = s.resets ++ [⟨t, i, held⟩] → ¬ s.running t i →
      ∀ s'', Steps step s' s'' → (∀ u, ¬ s''.running u i) ∧ (s''.sub i).calls = (s'.sub i).calls) ∧
    s.pendingRegistrations.card ≤ 16 ∧
    ∀ event s', step s event = some s' → s'.refused ≠ s.refused → s.ready = false ∧ s.full := by
  have hinv := inv_of_reachable h
  refine ⟨?_, fun hfinished i hi hkept => delivered hinv hfinished hi hkept, ?_, ?_, pendingRegistrations_le hinv, ?_⟩
  · intro i hi
    have hrow := hinv.threads.rows i hi
    exact ⟨hrow.once, fun call hcall => ⟨(hrow.calls call hcall).signal, (hrow.calls call hcall).other⟩⟩
  · intro hready s' hsteps
    obtain ⟨hready', hresult, -⟩ := (next_of_steps hinv hsteps).later.ready hready
    exact ⟨hready', hresult⟩
  · intro event s' t i held hs hresets hother s'' hsteps
    exact reset_quiesces hinv hs hresets hother hsteps
  · intro event s' hs hrefused
    obtain ⟨hready, hnone⟩ := (step_history hs).2.resolve_left hrefused
    exact ⟨hready, full_of_freeSlot hinv hnone⟩

def subscribeAndComplete : List (ℕ × Choice) :=
  [(0, .begin (.subscribe 0)), (0, .advance), (0, .advance), (0, .advance), (0, .advance), (0, .advance),
    (1, .begin (.complete .ok)), (1, .advance), (1, .advance)]

theorem completions_sound_one : ∃ s, run step {} (subscribeAndComplete ++ List.replicate 18 (1, .advance)) = some s ∧
    (s.sub 0).calls = [⟨.ok, .signal⟩] ∧ s.pendingRegistrations.card ≤ 16 := by
  refine ⟨_, rfl, ?_⟩
  have hreached : Reachable step Fresh _ := ⟨{}, rfl, subscribeAndComplete ++ List.replicate 18 (1, .advance), rfl⟩
  obtain ⟨-, hdelivered, -, -, hcard, -⟩ := completions_sound hreached
  obtain ⟨call, hcalls, hcall⟩ := hdelivered rfl 0 (by decide) rfl
  refine ⟨?_, hcard⟩
  rw [hcalls, hcall rfl]
  rfl

def ResetQuiesces : Prop :=
  ∀ s s' event t i held, Reachable step Fresh s → step s event = some s' → s'.resets = s.resets ++ [⟨t, i, held⟩] →
    ¬ s.running t i → ∀ u, ¬ s'.running u i

/-- The callback resets its own subscription, and the next `Reset` finds the handle empty while the callback runs. -/
theorem second_reset_returns : ¬ ResetQuiesces := by
  intro hall
  have hreached : Reachable step Fresh _ :=
    ⟨{}, rfl, subscribeAndComplete ++ [(1, .begin (.reset 0)), (1, .advance), (1, .advance)], rfl⟩
  refine hall _ _ (2, .begin (.reset 0)) 2 0 false hreached rfl rfl ?_ 1 ⟨.calling 0, ?_, rfl⟩
  · rintro ⟨frame, hframe, -⟩
    exact absurd hframe List.not_mem_nil
  · exact List.mem_cons_self

end Outcome

end ServerCore.Runtime.CompletionSignal
