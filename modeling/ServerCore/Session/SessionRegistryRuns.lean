import ServerCore.Session.SessionRegistry

/-! No session id is used twice, and every reservation is consumed at most once. -/

namespace ServerCore.Session.SessionRegistry

open ServerCore.Core ServerCore.Foundations

def returned (issues : List Issue) : List (ℕ × ℕ) := issues.filterMap fun issue => issue.id.map (issue.registry, ·)

def Taken (next id : ℕ) : Prop := id ≠ 0 ∧ id ≤ maximumId ∧ (next = 0 ∨ id < next)

def Place.Owns (place : Place) (id : ℕ) : Prop := ∃ r, place = .reserving r id

inductive Effect (s : Shared) (thread : ℕ) : Place → Shared → Place → Prop
  | stays (place : Place) (s' : Shared) (place' : Place) : s'.nextSessionId = s.nextSessionId → s'.issues = s.issues →
      s'.registered = s.registered → (∀ r, (s'.registries r).issuedIds = (s.registries r).issuedIds) →
      (∀ r, (s'.registries r).sessions = (s.registries r).sessions) → (∀ id, ¬ place'.Owns id) → Effect s thread place s' place'
  | failed (place : Place) (r : ℕ) (status : Status) : status.code ≠ .ok →
      Effect s thread place (s.answerIssue thread r none) (.answered .issueId status)
  | taken (r : ℕ) : s.nextSessionId ≠ 0 → Effect s thread (.issuing r s.nextSessionId)
      { s with nextSessionId := if s.nextSessionId = maximumId then 0 else s.nextSessionId + 1 } (.reserving r s.nextSessionId)
  | reserved (r id : ℕ) : Effect s thread (.reserving r id)
      ((s.update r { s.registries r with issuedIds := insert id (s.registries r).issuedIds }).answerIssue thread r (some id))
      (.answered .issueId ⟨.ok, ""⟩)
  | discarded (place : Place) (r id : ℕ) : id ∈ (s.registries r).issuedIds → Effect s thread place
      (s.update r { s.registries r with issuedIds := (s.registries r).issuedIds.erase id })
      (.answered .discardIssuedId ⟨.ok, ""⟩)
  | registered (r id : ℕ) : id ∈ (s.registries r).issuedIds → Effect s thread (.registering r id)
      { s.update r
          { issuedIds := (s.registries r).issuedIds.erase id
            sessions := insert id (s.registries r).sessions
            sessionsLocked := false } with registered := s.registered ++ [(r, id)] } (.answered .register ⟨.ok, ""⟩)
  | unregistered (place : Place) (r id : ℕ) : id ∈ (s.registries r).sessions → Effect s thread place
      (s.update r { s.registries r with sessions := (s.registries r).sessions.erase id }) (.answered .unregister ⟨.ok, ""⟩)

section Effects

variable {s s' : Shared} {thread : ℕ} {place place' : Place}

lemma update_issuedIds (r r' : ℕ) (registry : Registry) :
    ((s.update r registry).registries r').issuedIds = if r' = r then registry.issuedIds else (s.registries r').issuedIds := by
  simp only [Shared.update, Function.update_apply]
  split_ifs <;> rfl

lemma update_sessions (r r' : ℕ) (registry : Registry) :
    ((s.update r registry).registries r').sessions = if r' = r then registry.sessions else (s.registries r').sessions := by
  simp only [Shared.update, Function.update_apply]
  split_ifs <;> rfl

lemma not_owns_answered (call : Call) (status : Status) (id : ℕ) : ¬ (Place.answered call status).Owns id := nofun

lemma effect_refuses (call : Call) (status : Status) : Effect s thread place s (.answered call status) := by
  exact .stays _ _ _ rfl rfl rfl (fun _ => rfl) (fun _ => rfl) (not_owns_answered call status)

lemma effect_locks {r : ℕ} (locked : Bool) (h : ∀ id, ¬ place'.Owns id) :
    Effect s thread place (s.update r { s.registries r with sessionsLocked := locked }) place' := by
  refine .stays _ _ _ rfl rfl rfl (fun r' => ?_) (fun r' => ?_) h
  · rw [update_issuedIds]
    split_ifs with heq <;> simp [heq]
  · rw [update_sessions]
    split_ifs with heq <;> simp [heq]

lemma compareExchange_effect {r current : ℕ} (spurious : Bool) :
    Effect s thread (.issuing r current) (s.compareExchange thread r current spurious).1
      (s.compareExchange thread r current spurious).2 := by
  rw [Shared.compareExchange]
  split_ifs with hzero hnext hmax
  · exact .failed _ _ _ (by decide)
  · obtain ⟨rfl, -⟩ := hnext
    have := @Effect.taken s thread r hzero
    rwa [if_pos hmax] at this
  · obtain ⟨rfl, -⟩ := hnext
    have := @Effect.taken s thread r hzero
    rwa [if_neg hmax] at this
  · exact .stays _ _ _ rfl rfl rfl (fun _ => rfl) (fun _ => rfl) nofun

lemma reserve_effect {r id : ℕ} {failure : Option Status} (h : thrown failure = true) :
    Effect s thread (.reserving r id) (s.reserve thread r id failure).1 (s.reserve thread r id failure).2 := by
  cases failure with
  | none => exact .reserved r id
  | some status => exact .failed _ r status (by simpa [thrown] using h)

lemma discardIssuedId_effect (r id : ℕ) : Effect s thread place (s.discardIssuedId r id).1 (s.discardIssuedId r id).2 := by
  rw [Shared.discardIssuedId]
  split_ifs with hzero hmem
  · exact effect_refuses _ _
  · exact .discarded _ r id hmem
  · exact effect_refuses _ _

lemma register_effect {r : ℕ} {session : Option ℕ} (h : s.register r session = some (s', place')) :
    Effect s thread place s' place' := by
  cases session with
  | none =>
    obtain ⟨rfl, rfl⟩ := of_some_pair h
    exact effect_refuses _ _
  | some id =>
    simp only [Shared.register] at h
    split_ifs at h with hzero hlocked hmem
    · obtain ⟨rfl, rfl⟩ := of_some_pair h
      exact effect_refuses _ _
    · obtain ⟨rfl, rfl⟩ := of_some_pair h
      exact effect_refuses _ _
    · obtain ⟨rfl, rfl⟩ := of_some_pair h
      exact effect_locks _ (by rintro _ ⟨_, ⟨⟩⟩)

lemma consume_effect {r id : ℕ} (failure : Option Status) :
    Effect s thread (.registering r id) (s.consume r id failure).1 (s.consume r id failure).2 := by
  simp only [Shared.consume]
  by_cases hissued : id ∈ (s.registries r).issuedIds
  · rw [if_neg (not_not.mpr hissued)]
    cases failure with
    | some status => exact effect_locks _ (not_owns_answered _ _)
    | none =>
      simp only
      split_ifs with hmem
      · exact effect_locks _ (not_owns_answered _ _)
      · exact .registered r id hissued
  · rw [if_pos hissued]
    exact effect_locks _ (not_owns_answered _ _)

lemma unregister_effect {r id : ℕ} (h : s.unregister r id = some (s', place')) : Effect s thread place s' place' := by
  simp only [Shared.unregister] at h
  split_ifs at h with hzero hlocked hmem
  · obtain ⟨rfl, rfl⟩ := of_some_pair h
    exact effect_refuses _ _
  · obtain ⟨rfl, rfl⟩ := of_some_pair h
    exact .unregistered _ r id hmem
  · obtain ⟨rfl, rfl⟩ := of_some_pair h
    exact effect_refuses _ _

lemma advance_effect {choice : Choice} (h : advance s thread choice place = some (s', place')) :
    Effect s thread place s' place' := by
  cases choice with
  | issueId r =>
    obtain ⟨-, rfl, rfl⟩ := of_guard_pair h
    exact .stays _ _ _ rfl rfl rfl (fun _ => rfl) (fun _ => rfl) nofun
  | compareExchange spurious =>
    cases place with
    | issuing r current =>
      obtain ⟨rfl, rfl⟩ := of_some_pair h
      exact compareExchange_effect spurious
    | _ => cases h
  | reserve failure =>
    cases place with
    | reserving r id =>
      simp only [advance, Option.ite_none_right_eq_some] at h
      obtain ⟨rfl, rfl⟩ := of_some_pair h.2
      exact reserve_effect h.1
    | _ => cases h
  | discardIssuedId r id =>
    obtain ⟨-, rfl, rfl⟩ := of_guard_pair h
    exact discardIssuedId_effect r id
  | register r session =>
    simp only [advance, Option.ite_none_right_eq_some] at h
    exact register_effect h.2
  | consume failure =>
    cases place with
    | registering r id =>
      obtain ⟨-, rfl, rfl⟩ := of_guard_pair h
      exact consume_effect failure
    | _ => cases h
  | unregister r id =>
    simp only [advance, Option.ite_none_right_eq_some] at h
    exact unregister_effect h.2

lemma step_effect {s s' : State} {event : ℕ × Choice} (h : step s event = some s') :
    ∃ place', s'.threads = Function.update s.threads event.1 place' ∧
      Effect s.shared event.1 (s.threads event.1) s'.shared place' := by
  obtain ⟨⟨shared, place'⟩, ha, rfl⟩ := Option.map_eq_some_iff.mp h
  exact ⟨place', rfl, advance_effect ha⟩

end Effects

structure Inv (s : State) : Prop where
  counter_le : s.shared.nextSessionId ≤ maximumId
  returned_taken : ∀ p ∈ returned s.shared.issues, Taken s.shared.nextSessionId p.2
  returned_nodup : ((returned s.shared.issues).map Prod.snd).Nodup
  issued : ∀ r, ∀ id ∈ (s.shared.registries r).issuedIds, (r, id) ∈ returned s.shared.issues ∧ (r, id) ∉ s.shared.registered
  sessions : ∀ r, ∀ id ∈ (s.shared.registries r).sessions, (r, id) ∈ s.shared.registered
  registered : ∀ p ∈ s.shared.registered, p ∈ returned s.shared.issues
  registered_nodup : s.shared.registered.Nodup
  owned : ∀ t id, (s.threads t).Owns id →
    Taken s.shared.nextSessionId id ∧ id ∉ (returned s.shared.issues).map Prod.snd
  exclusive : Exclusive Place.Owns s.threads

lemma inv_initial {s : State} (h : Initial s) : Inv s := by
  obtain rfl := h
  refine ⟨by decide, nofun, .nil, ?_, ?_, nofun, .nil, ?_, ?_⟩
  · intro r id hmem
    simp at hmem
  · intro r id hmem
    simp at hmem
  · rintro t id ⟨r, hr⟩
    cases hr
  · rintro t t' id ⟨r, hr⟩
    cases hr

lemma returned_append (issues : List Issue) (thread r : ℕ) (id : Option ℕ) :
    returned (issues ++ [⟨thread, r, id⟩]) = returned issues ++ (id.map (r, ·)).toList := by
  cases id <;> simp [returned]

lemma Taken.step {next id : ℕ} (h : Taken next id) (hnext : next ≠ 0) :
    Taken (if next = maximumId then 0 else next + 1) id := by
  obtain ⟨hne, hle, hor⟩ := h
  refine ⟨hne, hle, ?_⟩
  split_ifs
  · exact .inl rfl
  · omega

lemma taken_next {next : ℕ} (hnext : next ≠ 0) (hle : next ≤ maximumId) :
    Taken (if next = maximumId then 0 else next + 1) next := by
  refine ⟨hnext, hle, ?_⟩
  split_ifs
  · exact .inl rfl
  · omega

section Steps

variable {s : State} {shared' : Shared} {t : ℕ} {place' : Place}

lemma owns_before (hp : ∀ id, ¬ place'.Owns id) {w id : ℕ} (h : (Function.update s.threads t place' w).Owns id) :
    w ≠ t ∧ (s.threads w).Owns id := by
  rcases eq_or_ne w t with rfl | hne
  · rw [Function.update_self] at h
    exact (hp id h).elim
  · rw [Function.update_of_ne hne] at h
    exact ⟨hne, h⟩

lemma Inv.quiet (h : Inv s) (hp : ∀ id, ¬ place'.Owns id) (hnext : shared'.nextSessionId = s.shared.nextSessionId)
    (hissues : returned shared'.issues = returned s.shared.issues)
    (hissued : ∀ r, ∀ id ∈ (shared'.registries r).issuedIds, id ∈ (s.shared.registries r).issuedIds ∧ (r, id) ∉ shared'.registered)
    (hsessions : ∀ r, ∀ id ∈ (shared'.registries r).sessions, (r, id) ∈ shared'.registered)
    (hregistered : ∀ p ∈ shared'.registered, p ∈ returned s.shared.issues) (hnodup : shared'.registered.Nodup) :
    Inv ⟨shared', Function.update s.threads t place'⟩ := by
  refine ⟨hnext ▸ h.counter_le, ?_, ?_, fun r id hid => ?_, hsessions, ?_, hnodup, fun w id hw => ?_, ?_⟩
  · rw [hissues, hnext]
    exact h.returned_taken
  · rw [hissues]
    exact h.returned_nodup
  · rw [hissues]
    exact ⟨(h.issued r id (hissued r id hid).1).1, (hissued r id hid).2⟩
  · rw [hissues]
    exact hregistered
  · rw [hissues, hnext]
    exact h.owned w id (owns_before hp hw).2
  · exact h.exclusive.update fun id hid => (hp id hid).elim

lemma Inv.taken (h : Inv s) {r : ℕ} (hzero : s.shared.nextSessionId ≠ 0) :
    Inv ⟨{ s.shared with nextSessionId := if s.shared.nextSessionId = maximumId then 0 else s.shared.nextSessionId + 1 },
      Function.update s.threads t (.reserving r s.shared.nextSessionId)⟩ := by
  have hle := h.counter_le
  have hfree (id : ℕ) (hid : Taken s.shared.nextSessionId id) : id ≠ s.shared.nextSessionId := by
    obtain ⟨-, -, hor⟩ := hid
    omega
  refine ⟨?_, fun p hp => (h.returned_taken p hp).step hzero, h.returned_nodup, h.issued, h.sessions, h.registered,
    h.registered_nodup, fun w id hw => ?_, ?_⟩
  · simp only
    split_ifs
    · exact Nat.zero_le _
    · omega
  · rcases eq_or_ne w t with rfl | hne
    · simp only [Function.update_self] at hw
      obtain ⟨r', hr⟩ := hw
      obtain ⟨-, rfl⟩ := Place.reserving.inj hr
      refine ⟨taken_next hzero hle, fun hmem => ?_⟩
      obtain ⟨p, hp, heq⟩ := List.mem_map.mp hmem
      exact hfree _ (h.returned_taken p hp) heq
    · simp only [Function.update_of_ne hne] at hw
      exact ⟨(h.owned w id hw).1.step hzero, (h.owned w id hw).2⟩
  · refine h.exclusive.update fun id hid => .inr fun w hw => ?_
    obtain ⟨r', hr⟩ := hid
    obtain ⟨-, rfl⟩ := Place.reserving.inj hr
    exact hfree _ (h.owned w _ hw).1 rfl

lemma Inv.reserved (h : Inv s) {r id : ℕ} (hplace : s.threads t = .reserving r id) :
    Inv ⟨(s.shared.update r { s.shared.registries r with issuedIds := insert id (s.shared.registries r).issuedIds }).answerIssue
      t r (some id), Function.update s.threads t (.answered .issueId ⟨.ok, ""⟩)⟩ := by
  obtain ⟨htaken, hfresh⟩ := h.owned t id ⟨r, hplace⟩
  have hreturned : returned (s.shared.issues ++ [⟨t, r, some id⟩]) = returned s.shared.issues ++ [(r, id)] :=
    returned_append ..
  have hnew (r' : ℕ) : (r', id) ∉ returned s.shared.issues := fun hmem => hfresh (List.mem_map.mpr ⟨_, hmem, rfl⟩)
  have hp : ∀ id, ¬ (Place.answered .issueId ⟨.ok, ""⟩).Owns id := nofun
  refine ⟨h.counter_le, ?_, ?_, fun r' id' hid => ?_, fun r' id' hid => ?_, fun p hmem => ?_, h.registered_nodup,
    fun w id' hw => ?_, h.exclusive.update fun id hid => (hp id hid).elim⟩
  · simp only [Shared.answerIssue, Shared.update, hreturned, List.mem_append, List.mem_singleton]
    rintro p (hmem | rfl)
    · exact h.returned_taken p hmem
    · exact htaken
  · simp only [Shared.answerIssue, Shared.update, hreturned, List.map_append, List.map_singleton]
    exact List.nodup_append'.mpr ⟨h.returned_nodup, List.nodup_singleton _, by simpa using hfresh⟩
  · simp only [Shared.answerIssue, update_issuedIds] at hid
    simp only [Shared.answerIssue, Shared.update, hreturned]
    split_ifs at hid with heq
    · subst heq
      rcases Finset.mem_insert.mp hid with rfl | hid
      · exact ⟨by simp, fun hmem => hnew _ (h.registered _ hmem)⟩
      · exact ⟨List.mem_append_left _ (h.issued _ id' hid).1, (h.issued _ id' hid).2⟩
    · exact ⟨List.mem_append_left _ (h.issued _ id' hid).1, (h.issued _ id' hid).2⟩
  · simp only [Shared.answerIssue, update_sessions] at hid
    split_ifs at hid with heq
    · subst heq
      exact h.sessions _ id' hid
    · exact h.sessions _ id' hid
  · simp only [Shared.answerIssue, Shared.update, hreturned]
    exact List.mem_append_left _ (h.registered p hmem)
  · obtain ⟨hne, hother⟩ := owns_before hp hw
    simp only [Shared.answerIssue, Shared.update, hreturned, List.map_append, List.map_singleton, List.mem_append,
      List.mem_singleton, not_or]
    refine ⟨(h.owned w id' hother).1, (h.owned w id' hother).2, ?_⟩
    rintro rfl
    exact hne (h.exclusive w t _ hother ⟨r, hplace⟩)

lemma Inv.registers (h : Inv s) {r id : ℕ} (hid : id ∈ (s.shared.registries r).issuedIds) :
    Inv ⟨{ s.shared.update r
          { issuedIds := (s.shared.registries r).issuedIds.erase id
            sessions := insert id (s.shared.registries r).sessions
            sessionsLocked := false } with registered := s.shared.registered ++ [(r, id)] },
      Function.update s.threads t (.answered .register ⟨.ok, ""⟩)⟩ := by
  obtain ⟨hreturned, hfresh⟩ := h.issued r id hid
  refine h.quiet nofun rfl rfl (fun r' id' hid' => ?_) (fun r' id' hid' => ?_) ?_ ?_
  · rw [update_issuedIds] at hid'
    simp only [List.mem_append, List.mem_singleton, Prod.mk.injEq, not_or, not_and]
    split_ifs at hid' with heq
    · subst heq
      obtain ⟨hne, hmem⟩ := Finset.mem_erase.mp hid'
      exact ⟨hmem, (h.issued _ _ hmem).2, fun _ => hne⟩
    · exact ⟨hid', (h.issued _ _ hid').2, fun hr => (heq hr).elim⟩
  · rw [update_sessions] at hid'
    simp only [List.mem_append, List.mem_singleton, Prod.mk.injEq]
    split_ifs at hid' with heq
    · subst heq
      rcases Finset.mem_insert.mp hid' with rfl | hmem
      · exact .inr ⟨rfl, rfl⟩
      · exact .inl (h.sessions _ _ hmem)
    · exact .inl (h.sessions _ _ hid')
  · intro p hp
    rcases List.mem_append.mp hp with hp | hp
    · exact h.registered p hp
    · obtain rfl := List.mem_singleton.mp hp
      exact hreturned
  · exact List.nodup_append'.mpr ⟨h.registered_nodup, List.nodup_singleton _, by simpa using hfresh⟩

lemma Inv.drops (h : Inv s) (hp : ∀ id, ¬ place'.Owns id) {r : ℕ} {registry : Registry}
    (hissued : registry.issuedIds ⊆ (s.shared.registries r).issuedIds)
    (hsessions : registry.sessions ⊆ (s.shared.registries r).sessions) :
    Inv ⟨s.shared.update r registry, Function.update s.threads t place'⟩ := by
  refine h.quiet hp rfl rfl (fun r' id hid => ?_) (fun r' id hid => ?_) h.registered h.registered_nodup
  · rw [update_issuedIds] at hid
    split_ifs at hid with heq
    · subst heq
      exact ⟨hissued hid, (h.issued _ _ (hissued hid)).2⟩
    · exact ⟨hid, (h.issued _ _ hid).2⟩
  · rw [update_sessions] at hid
    split_ifs at hid with heq
    · subst heq
      exact h.sessions _ _ (hsessions hid)
    · exact h.sessions _ _ hid

lemma inv_step {s' : State} (h : Inv s) {event : ℕ × Choice} (hs : step s event = some s') : Inv s' := by
  obtain ⟨place', ht, heffect⟩ := step_effect hs
  obtain ⟨shared', threads'⟩ := s'
  obtain rfl : threads' = _ := ht
  generalize hplace : s.threads event.1 = place at heffect
  cases heffect with
  | stays _ _ _ hnext hissues hreg hissued hsessions hp =>
    refine h.quiet hp hnext (by rw [hissues]) (fun r id hid => ?_) (fun r id hid => ?_) (hreg ▸ h.registered)
      (hreg ▸ h.registered_nodup)
    · rw [hissued] at hid
      exact ⟨hid, hreg ▸ (h.issued r id hid).2⟩
    · rw [hsessions] at hid
      exact hreg ▸ h.sessions r id hid
  | failed _ r status =>
    refine h.quiet nofun rfl ?_ (fun r id hid => ⟨hid, (h.issued r id hid).2⟩) h.sessions h.registered h.registered_nodup
    exact (returned_append ..).trans (List.append_nil _)
  | taken r hzero => exact h.taken hzero
  | reserved r id => exact h.reserved hplace
  | discarded _ r id hid => exact h.drops (not_owns_answered _ _) (Finset.erase_subset _ _) subset_rfl
  | registered r id hid => exact h.registers hid
  | unregistered _ r id hid => exact h.drops (not_owns_answered _ _) subset_rfl (Finset.erase_subset _ _)

end Steps

section Results

variable {s s' : State}

lemma inv_of_reachable (h : Reachable step Initial s) : Inv s :=
  h.invariant (fun _ => inv_initial) fun _ _ _ hs hstep => inv_step hs hstep

lemma step_changes {event : ℕ × Choice} (h : step s event = some s') :
    (∀ r, (s'.shared.registries r).issuedIds = (s.shared.registries r).issuedIds ∧
      (s'.shared.registries r).sessions = (s.shared.registries r).sessions) ∨
    ∃ call, s'.threads event.1 = .answered call ⟨.ok, ""⟩ := by
  obtain ⟨place', ht, heffect⟩ := step_effect h
  obtain ⟨shared', threads'⟩ := s'
  obtain rfl : threads' = _ := ht
  simp only [Function.update_self]
  generalize s.threads event.1 = place at heffect
  cases heffect with
  | stays _ _ _ _ _ _ hissued hsessions _ => exact .inl fun r => ⟨hissued r, hsessions r⟩
  | failed | taken => exact .inl fun r => ⟨rfl, rfl⟩
  | reserved | discarded | registered | unregistered => exact .inr ⟨_, rfl⟩

/-- What is left to happen once the counter is zero: the ids that threads hold are returned. -/
structure AfterLast (s s' : State) : Prop where
  counter : s'.shared.nextSessionId = 0
  issues : ∃ later, s'.shared.issues = s.shared.issues ++ later ∧
    ∀ issue ∈ later, ∀ id, issue.id = some id → s.threads issue.thread = .reserving issue.registry id
  places : ∀ t r id, s'.threads t = .reserving r id → s.threads t = .reserving r id

lemma AfterLast.step {s₁ s₂ : State} (h : AfterLast s s₁) {event : ℕ × Choice}
    (hstep : SessionRegistry.step s₁ event = some s₂) : AfterLast s s₂ := by
  obtain ⟨place', ht, heffect⟩ := step_effect hstep
  obtain ⟨shared₂, threads₂⟩ := s₂
  obtain rfl : threads₂ = _ := ht
  have hothers (hp : ∀ id, ¬ place'.Owns id) (t r id : ℕ)
      (hw : Function.update s₁.threads event.1 place' t = .reserving r id) : s.threads t = .reserving r id := by
    obtain ⟨hne, -⟩ := @owns_before s₁ _ _ hp _ id ⟨r, hw⟩
    rw [Function.update_of_ne hne] at hw
    exact h.places t r id hw
  obtain ⟨later, hissues, hlater⟩ := h.issues
  have hanswer (r : ℕ) (answer : Option ℕ) (ha : ∀ id, answer = some id → s.threads event.1 = .reserving r id) :
      ∃ more, s₁.shared.issues ++ [⟨event.1, r, answer⟩] = s.shared.issues ++ more ∧
        ∀ issue ∈ more, ∀ id, issue.id = some id → s.threads issue.thread = .reserving issue.registry id := by
    refine ⟨later ++ [⟨event.1, r, answer⟩], by rw [hissues, List.append_assoc], fun issue hmem id hid => ?_⟩
    rcases List.mem_append.mp hmem with hmem | hmem
    · exact hlater issue hmem id hid
    · obtain rfl := List.mem_singleton.mp hmem
      exact ha id hid
  generalize hplace : s₁.threads event.1 = place at heffect
  cases heffect with
  | stays _ _ _ hnext hsame _ _ _ hp => exact ⟨hnext.trans h.counter, ⟨later, hsame.trans hissues, hlater⟩, hothers hp⟩
  | failed _ r status => exact ⟨h.counter, hanswer r none nofun, hothers (not_owns_answered _ _)⟩
  | taken r hne => exact (hne h.counter).elim
  | reserved r id =>
    refine ⟨h.counter, hanswer r (some id) fun id' hid => ?_, hothers (not_owns_answered _ _)⟩
    obtain rfl := Option.some.inj hid
    exact h.places _ _ _ hplace
  | discarded | registered | unregistered => exact ⟨h.counter, ⟨later, hissues, hlater⟩, hothers (not_owns_answered _ _)⟩

lemma exhausted (hzero : s.shared.nextSessionId = 0) (h : Steps step s s') : AfterLast s s' := by
  refine h.invariant ⟨hzero, ⟨[], (List.append_nil _).symm, nofun⟩, fun _ _ _ hplace => hplace⟩ ?_
  intro s₁ event s₂ h₁ hstep
  exact h₁.step hstep

/-- No id is returned twice by all registries together, none is registered twice, and a call that fails
changes no registry. -/
theorem ids_never_reused (h : Reachable step Initial s) :
    ((returned s.shared.issues).map Prod.snd).Nodup ∧
    (∀ p ∈ returned s.shared.issues, p.2 ≠ 0 ∧ p.2 ≤ maximumId ∧ (p.2 = maximumId → s.shared.nextSessionId = 0)) ∧
    (s.shared.nextSessionId = 0 → ∀ s', Steps step s s' → s'.shared.nextSessionId = 0 ∧
      ∃ later, s'.shared.issues = s.shared.issues ++ later ∧
        ∀ issue ∈ later, ∀ id, issue.id = some id → s.threads issue.thread = .reserving issue.registry id) ∧
    (∀ r, Disjoint (s.shared.registries r).issuedIds (s.shared.registries r).sessions ∧
      ∀ id ∈ (s.shared.registries r).issuedIds ∪ (s.shared.registries r).sessions, (r, id) ∈ returned s.shared.issues) ∧
    (s.shared.registered.map Prod.snd).Nodup ∧
    (∀ r, ∀ id ∈ (s.shared.registries r).sessions, (r, id) ∈ s.shared.registered) ∧
    ∀ event s', step s event = some s' →
      (∀ r, (s'.shared.registries r).issuedIds = (s.shared.registries r).issuedIds ∧
        (s'.shared.registries r).sessions = (s.shared.registries r).sessions) ∨
      ∃ call, s'.threads event.1 = .answered call ⟨.ok, ""⟩ := by
  have hinv := inv_of_reachable h
  refine ⟨hinv.returned_nodup, fun p hp => ?_, fun hzero s' hsteps => ⟨(exhausted hzero hsteps).counter, (exhausted hzero hsteps).issues⟩, fun r => ⟨?_, fun id hid => ?_⟩, ?_,
    hinv.sessions, fun event s' => step_changes⟩
  · obtain ⟨hne, hle, hor⟩ := hinv.returned_taken p hp
    have hcounter := hinv.counter_le
    exact ⟨hne, hle, fun heq => by omega⟩
  · rw [Finset.disjoint_left]
    intro id hissued hsession
    exact (hinv.issued r id hissued).2 (hinv.sessions r id hsession)
  · rcases Finset.mem_union.mp hid with hid | hid
    · exact (hinv.issued r id hid).1
    · exact hinv.registered _ (hinv.sessions r id hid)
  · apply hinv.registered_nodup.map_on
    intro p hp q hq heq
    exact List.inj_on_of_nodup_map hinv.returned_nodup (hinv.registered p hp) (hinv.registered q hq) heq

theorem two_registries_share_the_counter : ∃ s : State,
    returned s.shared.issues = [(0, 1), (1, 2)] ∧ s.shared.registered = [(1, 2)] ∧
    ((returned s.shared.issues).map Prod.snd).Nodup ∧ (s.shared.registered.map Prod.snd).Nodup := by
  have hsteps : Steps step ({} : State) _ := ⟨[(0, .issueId 0), (7, .issueId 1), (0, .compareExchange false),
    (7, .compareExchange false), (7, .compareExchange true), (7, .compareExchange false), (0, .reserve none),
    (7, .reserve none), (7, .register 0 (some 2)), (7, .consume none), (7, .register 1 (some 2)), (7, .consume none)], rfl⟩
  obtain ⟨hreturned, -, -, -, hregistered, -⟩ := ids_never_reused ⟨_, rfl, hsteps⟩
  exact ⟨_, rfl, rfl, hreturned, hregistered⟩

end Results

end ServerCore.Session.SessionRegistry
