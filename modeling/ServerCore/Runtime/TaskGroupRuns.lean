import ServerCore.Runtime.TaskGroup

/-! What a task group keeps in every run: its accounts, its list of children and its completion signal. -/

namespace ServerCore.Runtime.TaskGroup

open ServerCore.Core ServerCore.Foundations

def Child.live (c : Child) : Bool := c.phase = .submitting || c.phase = .published && !c.completed

def chargedBytes (c : Child) : ℕ := if c.live then c.bytes else 0

def underway (c : Child) : ℕ := if c.phase = .submitting then 1 else 0

structure Child.Valid (i : ℕ) (c : Child) : Prop where
  id_eq : c.id = i + 1
  accepted : c.phase = .published → c.answer = some true
  refused : c.phase = .rejected → c.answer = some false
  ended : c.result ≠ none → c.answer = some true
  observed : c.observed = true → c.phase = .published
  completed : c.completed = true → c.observed = true ∧ c.result = some c.code

def Place.Owns (place : Place) (i : ℕ) : Prop := place = .submitting i ∨ place = .answered i ∨ place = .published i

namespace State

structure Records (s : State) : Prop where
  valid : ∀ i < s.table.count, (s.child i).Valid i
  next : s.nextId = (s.table.count + 1) % sizeModulus
  few : s.table.count < sizeModulus
  retained_eq : s.retained = s.table.total chargedBytes
  retained_le : s.retained ≤ s.options.maxRetainedBytes
  submitting_eq : s.submitting = s.table.total underway
  unready : s.ready = false → s.table.count = 0

structure Listing (s : State) : Prop where
  nodup : s.children.Nodup
  listed : ∀ i ∈ s.children, i < s.table.count ∧ (s.child i).phase ≠ .rejected
  kept : ∀ i < s.table.count, (s.child i).live = true → i ∈ s.children
  once : (s.reports.map TaskGroupCompletion.id).Nodup
  reported : ∀ r ∈ s.reports, ∃ i < s.table.count, i ∉ s.children ∧ (s.child i).completed = true ∧ r = s.completion i

def Fits (s : State) : Place → Prop
  | .submitting i => i < s.table.count ∧ (s.child i).phase = .submitting ∧ (s.child i).answer = none
  | .answered i => i < s.table.count ∧ (s.child i).phase = .submitting ∧ (s.child i).answer ≠ none
  | .published i => i < s.table.count ∧ (s.child i).phase = .published ∧ (s.child i).observed = false
  | _ => True

structure Places (s : State) : Prop where
  fits : ∀ t, s.Fits (s.threads t)
  exclusive : Exclusive Place.Owns s.threads
  owned : ∀ i < s.table.count, (s.child i).phase = .submitting → ∃ t, (s.threads t).Owns i

structure Signals (s : State) : Prop where
  ready : s.signalReady = true → s.finishedLocked = true
  fires_eq : s.fires = if s.signalReady then 1 else 0
  signalling : ∀ t, s.threads t = .signalling → s.finishedLocked = true
  owed : s.finishedLocked = true → s.signalReady = true ∨ ∃ t, s.threads t = .notifying ∨ s.threads t = .signalling

structure Inv (s : State) : Prop where
  records : s.Records
  listing : s.Listing
  places : s.Places
  signals : s.Signals

section Finished

variable {s s' : State}

lemma finishedLocked_iff : s.finishedLocked = true ↔
    s.closed = true ∧ s.submitting = 0 ∧ ∀ i ∈ s.children, (s.child i).phase = .published ∧ (s.child i).completed = true := by
  simp [State.finishedLocked, and_assoc]

lemma finishedLocked_congr (hclosed : s'.closed = s.closed) (hsubmitting : s'.submitting = s.submitting)
    (hchildren : s'.children = s.children)
    (h : ∀ i, (s'.child i).phase = (s.child i).phase ∧ (s'.child i).completed = (s.child i).completed) :
    s'.finishedLocked = s.finishedLocked := by
  simp only [State.finishedLocked, hclosed, hsubmitting, hchildren, fun i => (h i).1, fun i => (h i).2]

end Finished

section Replacing

variable {s s' : State} {t i : ℕ} {c : Child} {place : Place}

lemma child_eq (ht : s'.table = s.table.set i c) (j : ℕ) : s'.child j = if j = i then c else s.child j := by
  rw [State.child, ht, Table.set_row]

lemma Records.replace (h : s.Records) (hi : i < s.table.count) (hc : c.Valid i)
    (hb : s'.retained + chargedBytes (s.child i) = s.retained + chargedBytes c)
    (hle : chargedBytes c ≤ chargedBytes (s.child i))
    (hu : s'.submitting + underway (s.child i) = s.submitting + underway c) (hoptions : s'.options = s.options)
    (hready : s'.ready = s.ready) (htable : s'.table = s.table.set i c) (hnext : s'.nextId = s.nextId) : s'.Records := by
  have hcount : s'.table.count = s.table.count := by rw [htable, Table.set_count]
  have hbytes := Table.total_set hi c chargedBytes
  have hunderway := Table.total_set hi c underway
  have hretained := h.retained_eq
  have hsubmitting := h.submitting_eq
  have hmax := h.retained_le
  simp only [State.child] at hb hle hu
  refine ⟨fun j hj => ?_, ?_, ?_, ?_, ?_, ?_, fun hr => ?_⟩
  · rw [child_eq htable]
    split_ifs with heq
    · exact heq ▸ hc
    · exact h.valid j (hcount ▸ hj)
  · rw [hnext, hcount]
    exact h.next
  · rw [hcount]
    exact h.few
  · rw [htable]
    omega
  · rw [hoptions]
    omega
  · rw [htable]
    omega
  · rw [hcount]
    exact h.unready (hready ▸ hr)

lemma Listing.replace (h : s.Listing) (htable : s'.table = s.table.set i c) (hchildren : s'.children = s.children)
    (hreports : s'.reports = s.reports) (hphase : c.phase = .rejected → (s.child i).phase = .rejected)
    (hlive : c.live = true → (s.child i).live = true)
    (hkeeps : (s.child i).completed = true → c.completed = true ∧ c.id = (s.child i).id ∧ c.code = (s.child i).code) :
    s'.Listing := by
  have hcount : s'.table.count = s.table.count := by rw [htable, Table.set_count]
  refine ⟨by rw [hchildren]; exact h.nodup, fun j hj => ?_, fun j hj hl => ?_, by rw [hreports]; exact h.once, fun r hr => ?_⟩
  · rw [hchildren] at hj
    obtain ⟨hlt, hne⟩ := h.listed j hj
    rw [hcount, child_eq htable]
    refine ⟨hlt, ?_⟩
    split_ifs with heq
    · exact fun hr => hne (heq ▸ hphase hr)
    · exact hne
  · rw [hcount] at hj
    rw [child_eq htable] at hl
    rw [hchildren]
    apply h.kept j hj
    split_ifs at hl with heq
    · exact heq ▸ hlive hl
    · exact hl
  · rw [hreports] at hr
    obtain ⟨j, hj, hnot, hcompleted, rfl⟩ := h.reported r hr
    refine ⟨j, hcount.symm ▸ hj, hchildren.symm ▸ hnot, ?_⟩
    rw [State.completion, State.completion, child_eq htable]
    split_ifs with heq
    · subst heq
      obtain ⟨hc, hid, hcode⟩ := hkeeps hcompleted
      exact ⟨hc, by rw [hid, hcode]⟩
    · exact ⟨hcompleted, rfl⟩

lemma Listing.reject (h : s.Listing) (htable : s'.table = s.table.set i c) (hchildren : s'.children = s.children.erase i)
    (hreports : s'.reports = s.reports) (hlive : c.live = false) (hcompleted : (s.child i).completed = false) :
    s'.Listing := by
  have hcount : s'.table.count = s.table.count := by rw [htable, Table.set_count]
  refine ⟨by rw [hchildren]; exact h.nodup.erase i, fun j hj => ?_, fun j hj hl => ?_, by rw [hreports]; exact h.once,
    fun r hr => ?_⟩
  · rw [hchildren, h.nodup.mem_erase_iff] at hj
    rw [hcount, child_eq htable, if_neg hj.1]
    exact h.listed j hj.2
  · rw [hcount] at hj
    rw [child_eq htable] at hl
    rw [hchildren, h.nodup.mem_erase_iff]
    split_ifs at hl with heq
    · rw [hlive] at hl
      contradiction
    · exact ⟨heq, h.kept j hj hl⟩
  · rw [hreports] at hr
    obtain ⟨j, hj, hnot, hc, rfl⟩ := h.reported r hr
    have hne : j ≠ i := by
      rintro rfl
      rw [hcompleted] at hc
      contradiction
    refine ⟨j, hcount.symm ▸ hj, ?_, ?_⟩
    · rw [hchildren]
      exact fun hmem => hnot (List.mem_of_mem_erase hmem)
    · rw [State.completion, State.completion, child_eq htable, if_neg hne]
      exact ⟨hc, rfl⟩

lemma fits_congr (hcount : s'.table.count = s.table.count) (h : ∀ j, place.Owns j →
    (s'.child j).phase = (s.child j).phase ∧ (s'.child j).answer = (s.child j).answer ∧
      (s'.child j).observed = (s.child j).observed) (hf : s.Fits place) : s'.Fits place := by
  cases place with
  | submitting j =>
    obtain ⟨hphase, hanswer, -⟩ := h j (.inl rfl)
    exact ⟨hcount.symm ▸ hf.1, hphase.trans hf.2.1, hanswer.trans hf.2.2⟩
  | answered j =>
    obtain ⟨hphase, hanswer, -⟩ := h j (.inr (.inl rfl))
    exact ⟨hcount.symm ▸ hf.1, hphase.trans hf.2.1, hanswer.symm ▸ hf.2.2⟩
  | published j =>
    obtain ⟨hphase, -, hobserved⟩ := h j (.inr (.inr rfl))
    exact ⟨hcount.symm ▸ hf.1, hphase.trans hf.2.1, hobserved.trans hf.2.2⟩
  | _ => trivial

lemma Places.replace (h : s.Places) (htable : s'.table = s.table.set i c)
    (hthreads : s'.threads = Function.update s.threads t place) (hfits : s'.Fits place)
    (howns : ∀ k, place.Owns k → (s.threads t).Owns k) (hlast : ∀ k, k ≠ i → (s.threads t).Owns k → place.Owns k)
    (hkeep : (s.threads t).Owns i ∨
      c.phase = (s.child i).phase ∧ c.answer = (s.child i).answer ∧ c.observed = (s.child i).observed)
    (hphase : c.phase = .submitting → (s.child i).phase = .submitting ∧ ((s.threads t).Owns i → place.Owns i)) :
    s'.Places := by
  have hcount : s'.table.count = s.table.count := by rw [htable, Table.set_count]
  have hother (t' : ℕ) (hne : t' ≠ t) : s'.Fits (s.threads t') := by
    refine fits_congr hcount (fun j hj => ?_) (h.fits t')
    rw [child_eq htable]
    split_ifs with heq
    · subst heq
      rcases hkeep with hown | hsame
      · exact absurd (h.exclusive t' t j hj hown) hne
      · exact hsame
    · exact ⟨rfl, rfl, rfl⟩
  have hstay (j : ℕ) (hj : ∃ t', (s.threads t').Owns j) (hmine : (s.threads t).Owns j → place.Owns j) :
      ∃ t', (s'.threads t').Owns j := by
    obtain ⟨t', ht'⟩ := hj
    rcases eq_or_ne t' t with rfl | hne
    · exact ⟨t', by rw [hthreads, Function.update_self]; exact hmine ht'⟩
    · exact ⟨t', by rwa [hthreads, Function.update_of_ne hne]⟩
  refine ⟨?_, ?_, fun j hj hp => ?_⟩
  · rw [hthreads]
    exact forall_update_iff.mpr ⟨hfits, hother⟩
  · rw [hthreads]
    exact h.exclusive.update fun k hk => .inl (howns k hk)
  · rw [hcount] at hj
    rw [child_eq htable] at hp
    split_ifs at hp with heq
    · subst heq
      obtain ⟨hold, hmine⟩ := hphase hp
      exact hstay j (h.owned j hj hold) hmine
    · exact hstay j (h.owned j hj hp) (hlast j heq)

lemma Places.go (h : s.Places) (htable : s'.table = s.table) (hthreads : s'.threads = Function.update s.threads t place)
    (hold : ∀ k, ¬ (s.threads t).Owns k) (hnew : ∀ k, ¬ place.Owns k) (hfits : s'.Fits place) : s'.Places := by
  have hsame (place : Place) : s'.Fits place ↔ s.Fits place := by
    cases place <;> simp only [State.Fits, State.child, htable]
  refine ⟨?_, ?_, fun j hj hp => ?_⟩
  · rw [hthreads]
    exact forall_update_iff.mpr ⟨hfits, fun t' _ => (hsame _).mpr (h.fits t')⟩
  · rw [hthreads]
    exact h.exclusive.update fun k hk => absurd hk (hnew k)
  · rw [State.child, htable] at hp
    obtain ⟨t', ht'⟩ := h.owned j (htable ▸ hj) hp
    have hne : t' ≠ t := by
      rintro rfl
      exact hold j ht'
    exact ⟨t', by rwa [hthreads, Function.update_of_ne hne]⟩

lemma Signals.go (h : s.Signals) (hready : s'.signalReady = s.signalReady) (hfires : s'.fires = s.fires)
    (hthreads : s'.threads = Function.update s.threads t place) (hmono : s.finishedLocked = true → s'.finishedLocked = true)
    (hfin : s'.finishedLocked = true → s.finishedLocked = true ∨ place = .notifying)
    (hold : s.threads t ≠ .notifying ∧ s.threads t ≠ .signalling) (hnew : place ≠ .signalling) : s'.Signals := by
  refine ⟨fun hr => ?_, ?_, fun t' ht' => ?_, fun hf => ?_⟩
  · exact hmono (h.ready (hready ▸ hr))
  · rw [hfires, hready]
    exact h.fires_eq
  · rw [hthreads] at ht'
    rcases eq_or_ne t' t with rfl | hne
    · rw [Function.update_self] at ht'
      exact absurd ht' hnew
    · rw [Function.update_of_ne hne] at ht'
      exact hmono (h.signalling t' ht')
  · rw [hready]
    rcases hfin hf with hfinished | hplace
    · rcases h.owed hfinished with hr | ⟨t', ht'⟩
      · exact .inl hr
      · have hne : t' ≠ t := by
          rintro rfl
          rcases ht' with hn | hs
          · exact hold.1 hn
          · exact hold.2 hs
        exact .inr ⟨t', by rwa [hthreads, Function.update_of_ne hne]⟩
    · exact .inr ⟨t, .inl (by rw [hthreads, Function.update_self, hplace])⟩

end Replacing

section Operations

variable {s : State} {t i : ℕ}

lemma valid_live (h : (s.child i).Valid i) (ho : (s.child i).observed = false) : (s.child i).completed = false := by
  by_contra hc
  rw [(h.completed (Bool.eq_true_of_not_eq_false hc)).1] at ho
  contradiction

lemma free_elsewhere {place : Place} (h : place.free = true) :
    (∀ k, ¬ place.Owns k) ∧ place ≠ .notifying ∧ place ≠ .signalling := by
  cases place <;> simp_all [Place.free, Place.Owns]

lemma idle_not_owns {place : Place} (h : place = .notifying ∨ place = .signalling ∨ place.free = true) (k : ℕ) :
    ¬ place.Owns k := by
  rcases h with rfl | rfl | h
  · exact nofun
  · exact nofun
  · exact (free_elsewhere h).1 k

lemma owner_silent {place : Place} (h : place.Owns i) : place ≠ .notifying ∧ place ≠ .signalling := by
  rcases h with rfl | rfl | rfl <;> simp

lemma inv_go {place : Place} (h : s.Inv) (hfree : (s.threads t).free = true) (hplace : place.free = true) :
    (s.goTo t place).Inv := by
  obtain ⟨hold, hsilent⟩ := free_elsewhere hfree
  obtain ⟨hnew, -, hnot⟩ := free_elsewhere hplace
  refine ⟨{ h.records with }, { h.listing with }, ?_, ?_⟩
  · refine h.places.go rfl rfl hold hnew ?_
    cases place <;> trivial
  · exact h.signals.go rfl rfl rfl id .inl hsilent hnot

lemma start_inv {options : TaskGroupOptions} (h : s.Inv) (hfree : (s.threads t).free = true) : (s.start t options).Inv := by
  rw [State.start]
  split_ifs with hzero hready
  · exact inv_go h hfree rfl
  · exact inv_go h hfree rfl
  · obtain ⟨hold, hsilent⟩ := free_elsewhere hfree
    have hnone := h.records.unready (Bool.eq_false_of_not_eq_true hready)
    refine ⟨{ h.records with retained_le := ?_, unready := nofun }, { h.listing with }, h.places.go rfl rfl hold nofun trivial,
      h.signals.go rfl rfl rfl id .inl hsilent nofun⟩
    have hretained : s.retained = 0 := by rw [h.records.retained_eq, Table.total, hnone, Finset.sum_range_zero]
    exact hretained.trans_le (Nat.zero_le _)

lemma submitError_none {task allocated deadlinePassed : Bool} {bytes : ℕ} (hle : s.retained ≤ s.options.maxRetainedBytes)
    (h : s.submitError task allocated deadlinePassed bytes = none) :
    s.ready = true ∧ s.closed = false ∧ s.nextId ≠ 0 ∧ s.retained + bytes ≤ s.options.maxRetainedBytes := by
  simp only [State.submitError, sizeSub_eq hle] at h
  split_ifs at h with htask hallocated hclosed hdeadline hlarge hfull
  simp only [Bool.or_eq_true, Bool.not_eq_true', not_or, Bool.not_eq_true, Bool.not_eq_false, decide_eq_true_eq, beq_iff_eq]
    at hclosed hlarge hfull
  exact ⟨hclosed.1, hclosed.2, hlarge.2, by omega⟩

lemma records_push (h : s.Records) {bytes : ℕ} {s' : State} (hnext : s.nextId ≠ 0)
    (hle : s.retained + bytes ≤ s.options.maxRetainedBytes) (htable : s'.table = s.table.push { id := s.nextId, bytes })
    (hoptions : s'.options = s.options) (hnextId : s'.nextId = (s.nextId + 1) % sizeModulus)
    (hretained : s'.retained = s.retained + bytes) (hsubmitting : s'.submitting = s.submitting + 1)
    (hready : s'.ready = true) : s'.Records := by
  have hfew : s.table.count + 1 < sizeModulus := by
    rcases Nat.lt_or_eq_of_le (Nat.succ_le_of_lt h.few) with hlt | heq
    · exact hlt
    · rw [h.next, show s.table.count + 1 = sizeModulus from heq, Nat.mod_self] at hnext
      contradiction
  have hid : s.nextId = s.table.count + 1 := by rw [h.next, Nat.mod_eq_of_lt hfew]
  refine ⟨fun j hj => ?_, ?_, ?_, ?_, ?_, ?_, fun hr => ?_⟩
  · rw [State.child, htable, Table.push_row]
    rw [htable, Table.push_count] at hj
    split_ifs with heq
    · subst heq
      exact ⟨hid, nofun, nofun, fun hr => absurd rfl hr, nofun, nofun⟩
    · exact h.valid j (by omega)
  · rw [hnextId, hid, htable, Table.push_count]
  · rw [htable, Table.push_count]
    exact hfew
  · rw [hretained, htable, Table.total_push, h.retained_eq]
    rfl
  · rw [hretained, hoptions]
    exact hle
  · rw [hsubmitting, htable, Table.total_push, h.submitting_eq]
    rfl
  · rw [hready] at hr
    contradiction

lemma listing_push (h : s.Listing) {bytes : ℕ} {s' : State} (htable : s'.table = s.table.push { id := s.nextId, bytes })
    (hchildren : s'.children = s.children ++ [s.table.count]) (hreports : s'.reports = s.reports) : s'.Listing := by
  have hcount : s'.table.count = s.table.count + 1 := by rw [htable, Table.push_count]
  have hchild (j : ℕ) (hj : j < s.table.count) : s'.child j = s.child j := by
    rw [State.child, htable, Table.push_row, if_neg hj.ne]
  refine ⟨?_, fun j hj => ?_, fun j hj hl => ?_, by rw [hreports]; exact h.once, fun r hr => ?_⟩
  · rw [hchildren]
    refine h.nodup.append (List.nodup_singleton _) fun j hj hj' => ?_
    have := (h.listed j hj).1
    rw [List.mem_singleton.mp hj'] at this
    omega
  · rw [hchildren, List.mem_append, List.mem_singleton] at hj
    rcases hj with hj | rfl
    · obtain ⟨hlt, hne⟩ := h.listed j hj
      exact ⟨by omega, by rwa [hchild j hlt]⟩
    · refine ⟨by omega, ?_⟩
      rw [State.child, htable, Table.push_row, if_pos rfl]
      exact nofun
  · rw [hchildren, List.mem_append, List.mem_singleton]
    rcases Nat.lt_or_eq_of_le (Nat.le_of_lt_succ (hcount ▸ hj)) with hlt | heq
    · exact .inl (h.kept j hlt (by rwa [hchild j hlt] at hl))
    · exact .inr heq
  · rw [hreports] at hr
    obtain ⟨j, hj, hnot, hc, rfl⟩ := h.reported r hr
    refine ⟨j, by omega, ?_, by rwa [hchild j hj], by rw [State.completion, State.completion, hchild j hj]⟩
    rw [hchildren, List.mem_append, List.mem_singleton]
    rintro (hmem | rfl)
    · exact hnot hmem
    · omega

lemma places_push (h : s.Places) {bytes : ℕ} {s' : State} (htable : s'.table = s.table.push { id := s.nextId, bytes })
    (hthreads : s'.threads = Function.update s.threads t (.submitting s.table.count)) (hold : ∀ k, ¬ (s.threads t).Owns k) :
    s'.Places := by
  have hcount : s'.table.count = s.table.count + 1 := by rw [htable, Table.push_count]
  have hchild (j : ℕ) (hj : j < s.table.count) : s'.child j = s.child j := by
    rw [State.child, htable, Table.push_row, if_neg hj.ne]
  have hlast : s'.child s.table.count = { id := s.nextId, bytes } := by
    rw [State.child, htable, Table.push_row, if_pos rfl]
  have howns (t' k : ℕ) (hk : (s.threads t').Owns k) : k < s.table.count := by
    have hf := h.fits t'
    rcases hk with hk | hk | hk <;> (rw [hk] at hf; exact hf.1)
  refine ⟨?_, ?_, fun j hj hp => ?_⟩
  · rw [hthreads]
    refine forall_update_iff.mpr ⟨⟨by omega, by rw [hlast], by rw [hlast]⟩, fun t' _ => ?_⟩
    have hf := h.fits t'
    cases hp : s.threads t' with
    | submitting j | answered j | published j =>
      rw [hp] at hf
      have hlt : j < s.table.count := hf.1
      exact ⟨by omega, by rw [hchild j hlt]; exact hf.2.1, by rw [hchild j hlt]; exact hf.2.2⟩
    | _ => trivial
  · rw [hthreads]
    refine h.exclusive.update fun k hk => .inr fun t' ht' => ?_
    have hlt := howns t' k ht'
    rcases hk with hk | hk | hk <;> cases hk
    omega
  · rcases Nat.lt_or_eq_of_le (Nat.le_of_lt_succ (hcount ▸ hj)) with hlt | heq
    · rw [hchild j hlt] at hp
      obtain ⟨t', ht'⟩ := h.owned j hlt hp
      have hne : t' ≠ t := by
        rintro rfl
        exact hold j ht'
      exact ⟨t', by rwa [hthreads, Function.update_of_ne hne]⟩
    · exact ⟨t, .inl (by rw [hthreads, Function.update_self, heq])⟩

lemma submit_inv {task allocated deadlinePassed : Bool} {bytes : ℕ} (h : s.Inv) (hfree : (s.threads t).free = true) :
    (s.submit t task allocated deadlinePassed bytes).Inv := by
  simp only [State.submit]
  cases he : s.submitError task allocated deadlinePassed bytes with
  | some code => exact inv_go h hfree rfl
  | none =>
    obtain ⟨hready, hclosed, hnext, hle⟩ := submitError_none h.records.retained_le he
    obtain ⟨hold, hsilent⟩ := free_elsewhere hfree
    refine ⟨records_push h.records hnext hle rfl rfl rfl rfl rfl hready, listing_push h.listing rfl rfl rfl,
      places_push h.places rfl rfl hold, h.signals.go rfl rfl rfl (fun hf => ?_) (fun hf => ?_) hsilent nofun⟩
    · rw [(finishedLocked_iff.mp hf).1] at hclosed
      contradiction
    · exact absurd (finishedLocked_iff.mp hf).2.1 (Nat.succ_ne_zero _)

lemma set_finishedLocked {c : Child} (hphase : c.phase = (s.child i).phase) (hcompleted : c.completed = (s.child i).completed)
    (place : Place) : ((s.setChild i c).goTo t place).finishedLocked = s.finishedLocked := by
  refine finishedLocked_congr rfl rfl rfl fun j => ?_
  rw [child_eq (s := s) rfl]
  split_ifs with heq
  · rw [heq]
    exact ⟨hphase, hcompleted⟩
  · exact ⟨rfl, rfl⟩

lemma inv_set {c : Child} {place : Place} (h : s.Inv) (hi : i < s.table.count) (hc : c.Valid i)
    (hsame : c.phase = (s.child i).phase ∧ c.completed = (s.child i).completed ∧ c.bytes = (s.child i).bytes ∧ c.code = (s.child i).code)
    (hplaces : ((s.setChild i c).goTo t place).Places) (hsignals : place = s.threads t ∨
      (s.threads t ≠ .notifying ∧ s.threads t ≠ .signalling) ∧ place ≠ .signalling) :
    ((s.setChild i c).goTo t place).Inv := by
  obtain ⟨hphase, hcompleted, hbytes, hcode⟩ := hsame
  have hlive : c.live = (s.child i).live := by rw [Child.live, Child.live, hphase, hcompleted]
  have hcharged : chargedBytes c = chargedBytes (s.child i) := by rw [chargedBytes, chargedBytes, hlive, hbytes]
  have hunderway : underway c = underway (s.child i) := by rw [underway, underway, hphase]
  have hid : c.id = (s.child i).id := by rw [hc.id_eq, (h.records.valid i hi).id_eq]
  have hfinished := set_finishedLocked (t := t) hphase hcompleted place
  refine ⟨?_, ?_, hplaces, ?_⟩
  · refine h.records.replace hi hc ?_ hcharged.le ?_ rfl rfl rfl rfl
    · rw [hcharged]
      rfl
    · rw [hunderway]
      rfl
  · refine h.listing.replace rfl rfl rfl (fun hr => by rwa [← hphase]) (fun hl => by rwa [← hlive]) fun hd => ?_
    exact ⟨by rwa [hcompleted], hid, hcode⟩
  · rcases hsignals with rfl | ⟨hold, hnew⟩
    · have hthreads : ((s.setChild i c).goTo t (s.threads t)).threads = s.threads := Function.update_eq_self ..
      exact ⟨fun hr => hfinished.trans (h.signals.ready hr), h.signals.fires_eq,
        fun t' ht' => hfinished.trans (h.signals.signalling t' (hthreads ▸ ht')),
        fun hf => by rw [hthreads]; exact h.signals.owed (hfinished ▸ hf)⟩
    · exact h.signals.go rfl rfl rfl (fun hf => hfinished.trans hf) (fun hf => .inl (hfinished ▸ hf)) hold hnew

lemma executorAnswers_inv {accepts : Bool} (h : s.Inv) (ht : s.threads t = .submitting i) :
    (s.executorAnswers t i accepts).Inv := by
  obtain ⟨hi, hphase, hanswer⟩ : i < s.table.count ∧ (s.child i).phase = .submitting ∧ (s.child i).answer = none := by
    have hf := h.places.fits t
    rwa [ht] at hf
  have hv := h.records.valid i hi
  have howns : (s.threads t).Owns i := .inl ht
  refine inv_set h hi ?_ ⟨rfl, rfl, rfl, rfl⟩ ?_ (.inr ⟨owner_silent howns, nofun⟩)
  · refine ⟨hv.id_eq, fun hp => ?_, fun hp => ?_, fun hr => ?_, hv.observed, hv.completed⟩
    · rw [hphase] at hp
      contradiction
    · rw [hphase] at hp
      contradiction
    · have := hv.ended hr
      rw [hanswer] at this
      contradiction
  · refine h.places.replace rfl rfl ⟨hi, ?_, ?_⟩ (fun k hk => ?_) (fun k hk hk' => ?_) (.inl howns) (fun hp => ?_)
    · rw [child_eq (s := s) rfl, if_pos rfl]
      exact hphase
    · rw [child_eq (s := s) rfl, if_pos rfl]
      exact nofun
    · rcases hk with hk | hk | hk <;> cases hk
      exact howns
    · rw [ht] at hk'
      rcases hk' with hk' | hk' | hk' <;> cases hk'
      contradiction
    · exact ⟨hphase, fun _ => .inr (.inl rfl)⟩

lemma owns_unique {place : Place} {k : ℕ} (h : place.Owns i) (hk : place.Owns k) : k = i := by
  rcases h with rfl | rfl | rfl <;> rcases hk with hk | hk | hk <;> cases hk <;> rfl

lemma submitting_pos (h : s.Records) (hi : i < s.table.count) (hphase : (s.child i).phase = .submitting) :
    1 ≤ s.submitting := by
  have := Table.le_total hi underway
  rw [underway, if_pos hphase, ← h.submitting_eq] at this
  exact this

lemma bytes_le_retained (h : s.Records) (hi : i < s.table.count) (hlive : (s.child i).live = true) :
    (s.child i).bytes ≤ s.retained := by
  have := Table.le_total hi chargedBytes
  rwa [chargedBytes, if_pos hlive, ← h.retained_eq] at this

lemma conclude_inv (h : s.Inv) (ht : s.threads t = .answered i) : (s.conclude t i).Inv := by
  obtain ⟨hi, hphase, hanswer⟩ : i < s.table.count ∧ (s.child i).phase = .submitting ∧ (s.child i).answer ≠ none := by
    have hf := h.places.fits t
    rwa [ht] at hf
  have hv := h.records.valid i hi
  have howns : (s.threads t).Owns i := .inr (.inl ht)
  have hlive : (s.child i).live = true := by simp [Child.live, hphase]
  have hobserved : (s.child i).observed = false := by
    by_contra ho
    have := hv.observed (Bool.eq_true_of_not_eq_false ho)
    rw [hphase] at this
    contradiction
  have hcompleted := valid_live hv hobserved
  have hone := submitting_pos h.records hi hphase
  have hbytes := bytes_le_retained h.records hi hlive
  have hbusy : s.finishedLocked = false := by
    by_contra hf
    have := (finishedLocked_iff.mp (Bool.eq_true_of_not_eq_false hf)).2.1
    omega
  simp only [State.conclude, sizeSub_eq hone, sizeSub_eq hbytes]
  split_ifs with haccepted
  · refine ⟨?_, ?_, ?_, ?_⟩
    · refine h.records.replace hi ?_ ?_ ?_ ?_ rfl rfl rfl rfl
      · exact ⟨hv.id_eq, fun _ => haccepted, nofun, hv.ended, fun _ => rfl, hv.completed⟩
      · simp [chargedBytes, Child.live, hphase, hcompleted, State.goTo, State.setChild]
      · simp [chargedBytes, Child.live, hphase, hcompleted]
      · simp [underway, hphase, State.goTo, State.setChild, Nat.sub_add_cancel hone]
    · refine h.listing.replace rfl rfl rfl nofun (fun _ => hlive) fun hc => ?_
      rw [hcompleted] at hc
      contradiction
    · refine h.places.replace rfl rfl ⟨hi, ?_, ?_⟩ (fun k hk => ?_) (fun k hk hk' => ?_) (.inl howns) nofun
      · rw [child_eq (s := s) rfl, if_pos rfl]
      · rw [child_eq (s := s) rfl, if_pos rfl]
        exact hobserved
      · rcases hk with hk | hk | hk <;> cases hk
        exact howns
      · exact absurd (owns_unique howns hk') hk
    · refine h.signals.go rfl rfl rfl (fun hf => absurd hf (by simp [hbusy])) (fun hf => ?_) (owner_silent howns) nofun
      have hdone := ((finishedLocked_iff.mp hf).2.2 i (h.listing.kept i hi hlive)).2
      rw [child_eq (s := s) rfl, if_pos rfl] at hdone
      rw [show (s.child i).completed = true from hdone] at hcompleted
      contradiction
  · have hrefused : (s.child i).answer = some false := by
      cases ha : (s.child i).answer with
      | none => contradiction
      | some accepts => cases accepts <;> simp_all
    refine ⟨?_, ?_, ?_, ?_⟩
    · refine h.records.replace hi ?_ ?_ ?_ ?_ rfl rfl rfl rfl
      · refine ⟨hv.id_eq, nofun, fun _ => hrefused, hv.ended, fun ho => ?_, hv.completed⟩
        rw [show (s.child i).observed = true from ho] at hobserved
        contradiction
      · simp [chargedBytes, Child.live, hphase, State.goTo, State.setChild, Nat.sub_add_cancel hbytes]
      · simp [chargedBytes, Child.live]
      · simp [underway, hphase, State.goTo, State.setChild, Nat.sub_add_cancel hone]
    · exact h.listing.reject rfl rfl rfl (by simp [Child.live]) hcompleted
    · refine h.places.replace rfl rfl trivial nofun (fun k hk hk' => ?_) (.inl howns) nofun
      exact absurd (owns_unique howns hk') hk
    · exact h.signals.go rfl rfl rfl (fun hf => absurd hf (by simp [hbusy])) (fun _ => .inr rfl) (owner_silent howns) nofun

lemma observe_inv (h : s.Inv) (ht : s.threads t = .published i) : (s.observe t i).Inv := by
  obtain ⟨hi, hphase, hobserved⟩ : i < s.table.count ∧ (s.child i).phase = .published ∧ (s.child i).observed = false := by
    have hf := h.places.fits t
    rwa [ht] at hf
  have hv := h.records.valid i hi
  have howns : (s.threads t).Owns i := .inr (.inr ht)
  refine inv_set h hi ?_ ⟨rfl, rfl, rfl, rfl⟩ ?_ (.inr ⟨owner_silent howns, nofun⟩)
  · refine ⟨hv.id_eq, hv.accepted, hv.refused, hv.ended, fun _ => hphase, fun hc => ?_⟩
    exact ⟨rfl, (hv.completed hc).2⟩
  · refine h.places.replace rfl rfl trivial nofun (fun k hk hk' => absurd (owns_unique howns hk') hk) (.inl howns) fun hp => ?_
    rw [show (s.child i).phase = .submitting from hp] at hphase
    contradiction

lemma inv_executor {c : Child} (h : s.Inv) (hi : i < s.table.count) (hc : c.Valid i)
    (hsame : c.phase = (s.child i).phase ∧ c.completed = (s.child i).completed ∧ c.bytes = (s.child i).bytes ∧ c.code = (s.child i).code)
    (hanswer : c.answer = (s.child i).answer ∧ c.observed = (s.child i).observed) : (s.setChild i c).Inv := by
  have hstay : s.setChild i c = (s.setChild i c).goTo 0 (s.threads 0) := by
    rw [State.goTo]
    exact congrArg (fun threads => { s.setChild i c with threads }) (Function.update_eq_self ..).symm
  rw [hstay]
  refine inv_set h hi hc hsame ?_ (.inl rfl)
  refine h.places.replace rfl rfl ?_ (fun _ => id) (fun _ _ => id) (.inr ⟨hsame.1, hanswer⟩) fun hp => ⟨hsame.1 ▸ hp, id⟩
  refine fits_congr (s := s) rfl (fun j _ => ?_) (h.places.fits 0)
  rw [child_eq (s := s) rfl]
  split_ifs with heq
  · rw [heq]
    exact ⟨hsame.1, hanswer⟩
  · exact ⟨rfl, rfl, rfl⟩

lemma taskEnds_inv {code : ErrorCode} (h : s.Inv) (hi : i < s.table.count) (hanswer : (s.child i).answer = some true)
    (hresult : (s.child i).result = none) : (s.setChild i { s.child i with result := some code }).Inv := by
  have hv := h.records.valid i hi
  refine inv_executor h hi ⟨hv.id_eq, hv.accepted, hv.refused, fun _ => hanswer, hv.observed, fun hc => ?_⟩
    ⟨rfl, rfl, rfl, rfl⟩ ⟨rfl, rfl⟩
  rw [(hv.completed hc).2] at hresult
  contradiction

lemma complete_finishedLocked (t : ℕ) {code : ErrorCode} (h : s.finishedLocked = true) : (s.complete t i code).finishedLocked = true := by
  obtain ⟨hclosed, hsubmitting, hall⟩ := finishedLocked_iff.mp h
  refine finishedLocked_iff.mpr ⟨hclosed, hsubmitting, fun j hj => ?_⟩
  rw [child_eq (s := s) rfl]
  split_ifs with heq
  · exact ⟨heq ▸ (hall j hj).1, rfl⟩
  · exact hall j hj

lemma close_finishedLocked (t : ℕ) (h : s.finishedLocked = true) : (s.close t).finishedLocked = true := by
  obtain ⟨-, hsubmitting, hall⟩ := finishedLocked_iff.mp h
  exact finishedLocked_iff.mpr ⟨rfl, hsubmitting, hall⟩

lemma takeCompletions_finishedLocked (s : State) (t : ℕ) (allocated : Bool) :
    (s.takeCompletions t allocated).finishedLocked = true ↔ s.finishedLocked = true := by
  rw [State.takeCompletions]
  split_ifs with hallocated
  · exact Iff.rfl
  · rw [finishedLocked_iff, finishedLocked_iff]
    refine and_congr_right fun _ => and_congr_right fun _ => ⟨fun hall j hj => ?_, fun hall j hj => ?_⟩
    · cases hretires : s.retires j with
      | false => exact hall j (List.mem_filter.mpr ⟨hj, by simp [hretires]⟩)
      | true =>
        simp only [State.retires, Bool.and_eq_true, decide_eq_true_eq] at hretires
        exact hretires.1
    · exact hall j (List.mem_of_mem_filter hj)

lemma complete_inv {code : ErrorCode} (h : s.Inv) (hfree : (s.threads t).free = true) (hi : i < s.table.count)
    (hobserved : (s.child i).observed = true) (hcompleted : (s.child i).completed = false)
    (hresult : (s.child i).result = some code) : (s.complete t i code).Inv := by
  have hv := h.records.valid i hi
  have hphase := hv.observed hobserved
  have hlive : (s.child i).live = true := by simp [Child.live, hphase, hcompleted]
  have hbytes := bytes_le_retained h.records hi hlive
  obtain ⟨hold, hsilent⟩ := free_elsewhere hfree
  simp only [State.complete, sizeSub_eq hbytes]
  refine ⟨?_, ?_, ?_, ?_⟩
  · refine h.records.replace hi ?_ ?_ ?_ ?_ rfl rfl rfl rfl
    · exact ⟨hv.id_eq, hv.accepted, hv.refused, hv.ended, hv.observed, fun _ => ⟨hobserved, hresult⟩⟩
    · simp [chargedBytes, Child.live, hphase, hcompleted, State.goTo, State.setChild, Nat.sub_add_cancel hbytes]
    · simp [chargedBytes, Child.live, hphase]
    · simp [underway, hphase, State.goTo, State.setChild]
  · refine h.listing.replace rfl rfl rfl (fun hr => hr) (fun _ => hlive) fun hc => ?_
    rw [hcompleted] at hc
    contradiction
  · refine h.places.replace rfl rfl trivial nofun (fun k _ hk => absurd hk (hold k)) (.inr ⟨rfl, rfl, rfl⟩) fun hp => ?_
    rw [show (s.child i).phase = .submitting from hp] at hphase
    contradiction
  · exact h.signals.go rfl rfl rfl (complete_finishedLocked t) (fun _ => .inr rfl) hsilent nofun

lemma close_inv (h : s.Inv) (hfree : (s.threads t).free = true) : (s.close t).Inv := by
  obtain ⟨hold, hsilent⟩ := free_elsewhere hfree
  refine ⟨{ h.records with }, { h.listing with }, h.places.go rfl rfl hold nofun trivial, ?_⟩
  exact h.signals.go rfl rfl rfl (close_finishedLocked t) (fun _ => .inr rfl) hsilent nofun

lemma notifyCompletion_inv (h : s.Inv) (ht : s.threads t = .notifying) : (s.notifyCompletion t).Inv := by
  have hold (k : ℕ) : ¬ (s.threads t).Owns k := idle_not_owns (.inl ht) k
  simp only [State.notifyCompletion]
  split_ifs with hf
  · refine ⟨{ h.records with }, { h.listing with }, h.places.go rfl rfl hold nofun trivial, h.signals.ready, h.signals.fires_eq,
      fun _ _ => hf, fun _ => .inr ⟨t, .inr (Function.update_self ..)⟩⟩
  · refine ⟨{ h.records with }, { h.listing with }, h.places.go rfl rfl hold nofun trivial, h.signals.ready, h.signals.fires_eq,
      fun t' ht' => ?_, fun hf' => absurd hf' hf⟩
    have ht' : Function.update s.threads t .idle t' = .signalling := ht'
    rcases eq_or_ne t' t with rfl | hne
    · rw [Function.update_self] at ht'
      contradiction
    · rw [Function.update_of_ne hne] at ht'
      exact h.signals.signalling t' ht'

lemma signal_inv (h : s.Inv) (ht : s.threads t = .signalling) : (s.signal t).Inv := by
  have hold (k : ℕ) : ¬ (s.threads t).Owns k := idle_not_owns (.inr (.inl ht)) k
  have hfinished := h.signals.signalling t ht
  have hother (t' : ℕ) (ht' : Function.update s.threads t .idle t' = .signalling) : s.finishedLocked = true := hfinished
  simp only [State.signal]
  split_ifs with hready
  · exact ⟨{ h.records with }, { h.listing with }, h.places.go rfl rfl hold nofun trivial, h.signals.ready, h.signals.fires_eq,
      hother, fun _ => .inl hready⟩
  · refine ⟨{ h.records with }, { h.listing with }, h.places.go rfl rfl hold nofun trivial, fun _ => hfinished, ?_, hother,
      fun _ => .inl rfl⟩
    have := h.signals.fires_eq
    rw [if_neg hready] at this
    exact congrArg (· + 1) this

lemma listing_take {s' : State} (hrecords : s.Records) (h : s.Listing) (htable : s'.table = s.table)
    (hchildren : s'.children = s.children.filter fun i => !s.retires i)
    (hreports : s'.reports = s.reports ++ (s.children.filter s.retires).map s.completion) : s'.Listing := by
  have hchild (j : ℕ) : s'.child j = s.child j := by rw [State.child, htable]
  have hcompletion (j : ℕ) : s'.completion j = s.completion j := by rw [State.completion, State.completion, hchild]
  have hid (j : ℕ) (hj : j < s.table.count) : (s.completion j).id = j + 1 := (hrecords.valid j hj).id_eq
  refine ⟨by rw [hchildren]; exact h.nodup.filter _, fun j hj => ?_, fun j hj hl => ?_, ?_, fun r hr => ?_⟩
  · rw [hchildren] at hj
    rw [hchild, htable]
    exact h.listed j (List.mem_of_mem_filter hj)
  · rw [hchild] at hl
    rw [hchildren]
    refine List.mem_filter.mpr ⟨h.kept j (htable ▸ hj) hl, ?_⟩
    simp only [Child.live, Bool.or_eq_true, Bool.and_eq_true, decide_eq_true_eq, Bool.not_eq_true'] at hl
    rcases hl with hp | ⟨-, hc⟩ <;> simp [State.retires, *]
  · rw [hreports, List.map_append, List.map_map]
    refine h.once.append ?_ fun k hk hk' => ?_
    · refine List.Nodup.map_on (fun j hj k hk heq => ?_) (h.nodup.filter _)
      have hj' := hid j (h.listed j (List.mem_of_mem_filter hj)).1
      have hk' := hid k (h.listed k (List.mem_of_mem_filter hk)).1
      have : (s.completion j).id = (s.completion k).id := heq
      omega
    · obtain ⟨r, hr, rfl⟩ := List.mem_map.mp hk
      obtain ⟨j, hj, hnot, -, rfl⟩ := h.reported r hr
      obtain ⟨m, hm, hmj⟩ := List.mem_map.mp hk'
      have hlisted := List.mem_of_mem_filter hm
      have hm' := hid m (h.listed m hlisted).1
      have hj' := hid j hj
      obtain rfl : m = j := by
        have : (s.completion m).id = (s.completion j).id := hmj
        omega
      exact hnot hlisted
  · rw [hreports, List.mem_append] at hr
    rw [htable, hchildren]
    rcases hr with hr | hr
    · obtain ⟨j, hj, hnot, hc, rfl⟩ := h.reported r hr
      exact ⟨j, hj, fun hmem => hnot (List.mem_of_mem_filter hmem), by rwa [hchild], (hcompletion j).symm⟩
    · obtain ⟨j, hj, rfl⟩ := List.mem_map.mp hr
      obtain ⟨hlisted, hretires⟩ := List.mem_filter.mp hj
      refine ⟨j, (h.listed j hlisted).1, fun hmem => ?_, ?_, (hcompletion j).symm⟩
      · have := (List.mem_filter.mp hmem).2
        rw [hretires] at this
        contradiction
      · rw [hchild]
        simp only [State.retires, Bool.and_eq_true] at hretires
        exact hretires.1.2

lemma takeCompletions_inv {allocated : Bool} (h : s.Inv) (hfree : (s.threads t).free = true) :
    (s.takeCompletions t allocated).Inv := by
  have hfinished := takeCompletions_finishedLocked s t allocated
  simp only [State.takeCompletions] at hfinished ⊢
  split_ifs at hfinished ⊢ with hallocated
  · exact inv_go h hfree rfl
  · obtain ⟨hold, hsilent⟩ := free_elsewhere hfree
    refine ⟨{ h.records with }, listing_take h.records h.listing rfl rfl rfl, h.places.go rfl rfl hold nofun trivial, ?_⟩
    exact h.signals.go rfl rfl rfl hfinished.mpr (fun hf => .inl (hfinished.mp hf)) hsilent nofun

end Operations

section Runs

variable {s s' : State} {event : ℕ × Choice}

lemma initial_inv (h : Initial s) : s.Inv := by
  obtain rfl := h
  refine ⟨⟨nofun, rfl, by decide, rfl, Nat.zero_le _, rfl, fun _ => rfl⟩, ⟨List.nodup_nil, nofun, nofun, List.nodup_nil, nofun⟩,
    ⟨fun _ => trivial, fun _ _ _ hk => ?_, nofun⟩, ⟨nofun, rfl, nofun, nofun⟩⟩
  rcases hk with hk | hk | hk <;> cases hk

lemma inv_step (h : s.Inv) (hstep : step s event = some s') : s'.Inv := by
  obtain ⟨t, choice⟩ := event
  cases choice with
  | start options =>
    obtain ⟨hfree, rfl⟩ := of_guard hstep
    exact start_inv h hfree
  | submit task allocated deadlinePassed bytes =>
    obtain ⟨hfree, rfl⟩ := of_guard hstep
    exact submit_inv h hfree
  | executorAnswers accepts =>
    cases ht : s.threads t <;> simp only [step, ht] at hstep <;> try contradiction
    obtain rfl := Option.some.inj hstep
    exact executorAnswers_inv h ht
  | conclude =>
    cases ht : s.threads t <;> simp only [step, ht] at hstep <;> try contradiction
    obtain rfl := Option.some.inj hstep
    exact conclude_inv h ht
  | observe =>
    cases ht : s.threads t <;> simp only [step, ht] at hstep <;> try contradiction
    obtain rfl := Option.some.inj hstep
    exact observe_inv h ht
  | taskEnds i code =>
    obtain ⟨⟨hi, hanswer, hresult⟩, rfl⟩ := of_guard hstep
    exact taskEnds_inv h hi hanswer hresult
  | handleFinishes i =>
    obtain ⟨⟨hi, -⟩, rfl⟩ := of_guard hstep
    have hv := h.records.valid i hi
    exact inv_executor h hi ⟨hv.id_eq, hv.accepted, hv.refused, hv.ended, hv.observed, hv.completed⟩ ⟨rfl, rfl, rfl, rfl⟩
      ⟨rfl, rfl⟩
  | complete i =>
    simp only [step, Option.ite_none_right_eq_some, Option.map_eq_some_iff] at hstep
    obtain ⟨⟨hfree, hi, hobserved, hcompleted⟩, code, hresult, rfl⟩ := hstep
    exact complete_inv h hfree hi hobserved hcompleted hresult
  | close =>
    obtain ⟨hfree, rfl⟩ := of_guard hstep
    exact close_inv h hfree
  | notify =>
    cases ht : s.threads t <;> simp only [step, ht] at hstep <;> try contradiction
    obtain rfl := Option.some.inj hstep
    exact notifyCompletion_inv h ht
  | signal =>
    cases ht : s.threads t <;> simp only [step, ht] at hstep <;> try contradiction
    obtain rfl := Option.some.inj hstep
    exact signal_inv h ht
  | takeCompletions allocated =>
    obtain ⟨hfree, rfl⟩ := of_guard hstep
    exact takeCompletions_inv h hfree

lemma reachable_inv (h : Reachable step Initial s) : s.Inv :=
  h.invariant (fun _ => initial_inv) fun _ _ _ => inv_step

end Runs

end State

end ServerCore.Runtime.TaskGroup
