import ServerCore.Foundations.IntrusiveQueue
import ServerCore.Foundations.Transition
import ServerCore.Runtime.SendCapacityRelay

/-! Every completion reaches its target once, and never under a session lock. -/

namespace ServerCore.Runtime.SendCapacityRelay

open ServerCore.Core ServerCore.Foundations ServerCore.Foundations.IntrusiveQueue

def locks (stack : List Frame) : List ℕ := stack.filterMap fun
  | .guarding m => some m
  | _ => none

/-- A flush and the call of a target begin with no lock held, and `Forward` calls nothing but a target. -/
def Shape : List Frame → Prop
  | [] => True
  | .guarding _ :: rest => runs rest = true ∧ Shape rest
  | .forwarding _ _ :: rest => runs rest = true ∧ Shape rest
  | .flushing :: rest => runs rest = true ∧ locks rest = [] ∧ Shape rest
  | .completing _ :: rest => (runs rest = true ∨ rest.head? = some .flushing) ∧ locks rest = [] ∧ Shape rest

inductive Place
  | waiting
  | forwarding (t : ℕ)
  | queued (t : ℕ)
  | done
  deriving DecidableEq

def RowOk (relay : Relay) : Place → Prop
  | .waiting => (relay.armed = false ∨ relay.delivered = none) ∧ relay.completed = [] ∧ relay.next = none
  | .forwarding t => relay.armed = true ∧ relay.delivered ≠ none ∧ relay.forwarder = some t ∧ relay.completed = [] ∧
      relay.next = none
  | .queued t => relay.armed = true ∧ relay.delivered = some relay.deferredCode ∧ relay.forwarder = some t ∧
      relay.completed = []
  | .done => relay.armed = true ∧ relay.delivered ≠ none ∧ relay.completed = relay.delivered.toList ∧
      relay.forwarder ≠ none ∧ relay.next = none

structure Scopes (s : Host) : Prop where
  shape : ∀ t, Shape (s.threads t).stack
  depth : ∀ t, (s.threads t).depth = (locks (s.threads t).stack).length
  nodup : ∀ t, (locks (s.threads t).stack).Nodup
  owner : ∀ t m, m ∈ locks (s.threads t).stack ↔ s.owner m = some t

structure Queues (s : Host) (place : ℕ → Place) (queue : ℕ → List ℕ) : Prop where
  lists : ∀ t, Represents (fun r => (s.relay r).next) (s.threads t).head (s.threads t).tail (queue t)
  queued : ∀ t r, r ∈ queue t ↔ place r = .queued t
  flushed : ∀ t, queue t ≠ [] → 0 < (s.threads t).depth ∨ .flushing ∈ (s.threads t).stack

structure Rows (s : Host) (place : ℕ → Place) : Prop where
  forwarding : ∀ t r, (∃ code, .forwarding r code ∈ (s.threads t).stack) ↔ place r = .forwarding t
  code : ∀ t r code, .forwarding r code ∈ (s.threads t).stack → (s.relay r).delivered = some code
  below : ∀ r, place r ≠ .waiting → r < s.relays.count
  row : ∀ r < s.relays.count, RowOk (s.relay r) (place r)
  early : ∀ r < s.relays.count, (s.relay r).armed = false → (s.relay r).earlyCode = (s.relay r).delivered

structure Inv (s : Host) (place : ℕ → Place) (queue : ℕ → List ℕ) : Prop where
  scopes : Scopes s
  queues : Queues s place queue
  rows : Rows s place

section Frames

variable {stack rest : List Frame} {frame : Frame} {r : ℕ} {code : ErrorCode}

@[simp] lemma locks_nil : locks [] = [] := rfl

@[simp] lemma locks_guarding (m : ℕ) (rest : List Frame) : locks (.guarding m :: rest) = m :: locks rest := rfl

@[simp] lemma locks_forwarding (rest : List Frame) : locks (.forwarding r code :: rest) = locks rest := rfl

@[simp] lemma locks_flushing (rest : List Frame) : locks (.flushing :: rest) = locks rest := rfl

lemma Shape.tail (h : Shape (frame :: rest)) : Shape rest := by
  cases frame with
  | guarding => exact h.2
  | forwarding => exact h.2
  | flushing => exact h.2.2
  | completing => exact h.2.2

lemma forwarding_not_mem_of_runs (h : Shape stack) (hr : runs stack = true ∨ stack.head? = some .flushing) :
    .forwarding r code ∉ stack := by
  induction stack with
  | nil => simp
  | cons frame rest ih =>
    have hrest : runs rest = true ∨ rest.head? = some .flushing := by
      cases frame with
      | guarding => exact .inl h.1
      | forwarding => exact .inl h.1
      | flushing => exact .inl h.1
      | completing => exact h.1
    intro hm
    rcases List.mem_cons.mp hm with rfl | hm
    · rcases hr with hr | hr <;> cases hr
    · exact ih h.tail hrest hm

lemma Shape.forwarding_not_mem (h : Shape (frame :: rest)) : .forwarding r code ∉ rest := by
  apply forwarding_not_mem_of_runs h.tail
  cases frame with
  | guarding => exact .inl h.1
  | forwarding => exact .inl h.1
  | flushing => exact .inl h.1
  | completing => exact h.1

end Frames

section Fields

variable (s : Host) (t r : ℕ) (relay : Relay) (c : Context)

@[simp] lemma put_threads : (s.put r relay).threads = s.threads := rfl

@[simp] lemma put_owner : (s.put r relay).owner = s.owner := rfl

@[simp] lemma put_count : (s.put r relay).relays.count = s.relays.count := rfl

@[simp] lemma context_relays : (s.context t c).relays = s.relays := rfl

@[simp] lemma context_relay : (s.context t c).relay r = s.relay r := rfl

@[simp] lemma context_owner : (s.context t c).owner = s.owner := rfl

@[simp] lemma context_self : (s.context t c).threads t = c := Function.update_self ..

lemma context_ne {v : ℕ} (h : v ≠ t) : (s.context t c).threads v = s.threads v := Function.update_of_ne h ..

@[simp] lemma put_relay_self : (s.put r relay).relay r = relay := Table.set_row_self ..

lemma put_relay_ne {q : ℕ} (h : q ≠ r) : (s.put r relay).relay q = s.relay q := Table.set_row_ne _ _ h

end Fields

section Steps

variable {s s' : Host} {place : ℕ → Place} {queue : ℕ → List ℕ} {t r : ℕ} {rest : List Frame} {code : ErrorCode}

lemma Scopes.keep (h : Scopes s) {c : Context} (hthreads : s'.threads = Function.update s.threads t c)
    (howner : s'.owner = s.owner) (hdepth : c.depth = (s.threads t).depth)
    (hlocks : locks c.stack = locks (s.threads t).stack) (hshape : Shape c.stack) : Scopes s' := by
  have hself : s'.threads t = c := by rw [hthreads, Function.update_self]
  have hother : ∀ v, v ≠ t → s'.threads v = s.threads v := by
    intro v hv
    rw [hthreads, Function.update_of_ne hv]
  have hall : ∀ v, locks (s'.threads v).stack = locks (s.threads v).stack := by
    intro v
    by_cases hv : v = t
    · rw [hv, hself, hlocks]
    · rw [hother v hv]
  refine ⟨fun v => ?_, fun v => ?_, fun v => ?_, fun v m => ?_⟩
  · by_cases hv : v = t
    · rw [hv, hself]
      exact hshape
    · rw [hother v hv]
      exact h.shape v
  · rw [hall, ← h.depth v]
    by_cases hv : v = t
    · rw [hv, hself, hdepth]
    · rw [hother v hv]
  · rw [hall]
    exact h.nodup v
  · rw [hall, howner]
    exact h.owner v m

lemma Scopes.lock {m : ℕ} (h : Scopes s) (hruns : runs (s.threads t).stack = true) (hfree : s.owner m = none) :
    Scopes (s.lock t m) := by
  have hnot : ∀ v, m ∉ locks (s.threads v).stack := by
    intro v hm
    rw [(h.owner v m).mp hm] at hfree
    cases hfree
  have hself : (s.lock t m).threads t =
      { s.threads t with depth := (s.threads t).depth + 1, stack := .guarding m :: (s.threads t).stack } :=
    context_self ..
  have hother : ∀ v, v ≠ t → (s.lock t m).threads v = s.threads v := fun v hv => context_ne _ _ _ hv
  refine ⟨fun v => ?_, fun v => ?_, fun v => ?_, fun v k => ?_⟩
  · by_cases hv : v = t
    · rw [hv, hself]
      exact ⟨hruns, h.shape t⟩
    · rw [hother v hv]
      exact h.shape v
  · by_cases hv : v = t
    · rw [hv, hself, locks_guarding, List.length_cons, ← h.depth t]
    · rw [hother v hv]
      exact h.depth v
  · by_cases hv : v = t
    · rw [hv, hself]
      exact List.nodup_cons.mpr ⟨hnot t, h.nodup t⟩
    · rw [hother v hv]
      exact h.nodup v
  · show k ∈ _ ↔ Function.update s.owner m (some t) k = some v
    by_cases hk : k = m
    · subst hk
      rw [Function.update_self]
      by_cases hv : v = t
      · rw [hv, hself]
        simp
      · rw [hother v hv, Option.some.injEq]
        exact ⟨fun hm => absurd hm (hnot v), fun heq => absurd heq.symm hv⟩
    · rw [Function.update_of_ne hk, ← h.owner v k]
      by_cases hv : v = t
      · rw [hv, hself, locks_guarding, List.mem_cons]
        exact or_iff_right hk
      · rw [hother v hv]

lemma Scopes.unlock {m : ℕ} (h : Scopes s) (hstack : (s.threads t).stack = .guarding m :: rest) :
    Scopes (s.unlock t m rest) := by
  have hshape := h.shape t
  have hdepth := h.depth t
  have hnodup := h.nodup t
  rw [hstack, locks_guarding] at hdepth hnodup
  rw [hstack] at hshape
  have hless : (s.threads t).depth - 1 = (locks rest).length := by
    rw [hdepth, List.length_cons, Nat.add_sub_cancel]
  have hlocks : locks ((s.unlock t m rest).threads t).stack = locks rest := by
    rw [Host.unlock, context_self]
    dsimp only
    split <;> rfl
  have hother : ∀ v, v ≠ t → (s.unlock t m rest).threads v = s.threads v := fun v hv => context_ne _ _ _ hv
  refine ⟨fun v => ?_, fun v => ?_, fun v => ?_, fun v k => ?_⟩
  · by_cases hv : v = t
    · rw [hv, Host.unlock, context_self]
      dsimp only
      split
      · rename_i hzero
        rw [hless] at hzero
        exact ⟨hshape.1, List.eq_nil_of_length_eq_zero hzero, hshape.2⟩
      · exact hshape.2
    · rw [hother v hv]
      exact h.shape v
  · by_cases hv : v = t
    · rw [hv, hlocks, Host.unlock, context_self]
      exact hless
    · rw [hother v hv]
      exact h.depth v
  · by_cases hv : v = t
    · rw [hv, hlocks]
      exact (List.nodup_cons.mp hnodup).2
    · rw [hother v hv]
      exact h.nodup v
  · show k ∈ _ ↔ Function.update s.owner m none k = some v
    by_cases hk : k = m
    · subst hk
      rw [Function.update_self]
      refine iff_of_false (fun hm => ?_) nofun
      by_cases hv : v = t
      · rw [hv, hlocks] at hm
        exact (List.nodup_cons.mp hnodup).1 hm
      · rw [hother v hv] at hm
        have howner := (h.owner t k).mp (by rw [hstack]; exact List.mem_cons_self)
        rw [(h.owner v k).mp hm] at howner
        exact hv (Option.some.inj howner)
    · rw [Function.update_of_ne hk, ← h.owner v k]
      by_cases hv : v = t
      · rw [hv, hlocks, hstack, locks_guarding, List.mem_cons]
        exact (or_iff_right hk).symm
      · rw [hother v hv]

lemma RowOk.congr {relay : Relay} {next : Option ℕ} {p : Place} (h : RowOk relay p)
    (hnext : next = relay.next ∨ ∃ v, p = .queued v) : RowOk { relay with next := next } p := by
  rcases hnext with rfl | ⟨v, rfl⟩
  · exact h
  · exact h

lemma Rows.move {p : Place} {c : Context} (h : Rows s place) (hlt : r < s.relays.count)
    (hcount : s'.relays.count = s.relays.count) (hthreads : s'.threads = Function.update s.threads t c)
    (hrow : RowOk (s'.relay r) p) (hearly : (s'.relay r).armed = false → (s'.relay r).earlyCode = (s'.relay r).delivered)
    (hother : ∀ q, q ≠ r → ∃ next, s'.relay q = { s.relay q with next := next } ∧
      (next = (s.relay q).next ∨ ∃ v, place q = .queued v))
    (hframes : ∀ q code, q ≠ r → (.forwarding q code ∈ c.stack ↔ .forwarding q code ∈ (s.threads t).stack))
    (hself : ∀ code, .forwarding r code ∈ c.stack → p = .forwarding t ∧ (s'.relay r).delivered = some code)
    (hplace : ∀ v, p = .forwarding v → v = t ∧ ∃ code, .forwarding r code ∈ c.stack)
    (hold : ∀ v, place r = .forwarding v → v = t) : Rows s' (Function.update place r p) := by
  have hthread : s'.threads t = c := by rw [hthreads, Function.update_self]
  have helse : ∀ v, v ≠ t → s'.threads v = s.threads v := by
    intro v hv
    rw [hthreads, Function.update_of_ne hv]
  have hgone : ∀ v code, v ≠ t → .forwarding r code ∉ (s.threads v).stack := by
    intro v code hv hm
    exact hv (hold v ((h.forwarding v r).mp ⟨code, hm⟩))
  refine ⟨fun v q => ?_, fun v q code hm => ?_, fun q hq => ?_, fun q hq => ?_, fun q hq => ?_⟩
  · by_cases hv : v = t <;> by_cases hq : q = r
    · subst hv hq
      rw [hthread, Function.update_self]
      exact ⟨fun ⟨code, hm⟩ => (hself code hm).1, fun heq => (hplace v heq).2⟩
    · subst hv
      rw [hthread, Function.update_of_ne hq, ← h.forwarding v q]
      exact exists_congr fun code => hframes q code hq
    · subst hq
      rw [helse v hv, Function.update_self]
      exact iff_of_false (fun ⟨code, hm⟩ => hgone v code hv hm) fun heq => hv (hplace v heq).1
    · rw [helse v hv, Function.update_of_ne hq]
      exact h.forwarding v q
  · by_cases hq : q = r
    · subst hq
      by_cases hv : v = t
      · subst hv
        rw [hthread] at hm
        exact (hself code hm).2
      · rw [helse v hv] at hm
        exact absurd hm (hgone v code hv)
    · have hmem : .forwarding q code ∈ (s.threads v).stack := by
        by_cases hv : v = t
        · subst hv
          rw [hthread] at hm
          exact (hframes q code hq).mp hm
        · rwa [helse v hv] at hm
      obtain ⟨next, heq, -⟩ := hother q hq
      rw [heq]
      exact h.code v q code hmem
  · rw [hcount]
    by_cases hqr : q = r
    · exact hqr ▸ hlt
    · rw [Function.update_of_ne hqr] at hq
      exact h.below q hq
  · by_cases hqr : q = r
    · subst hqr
      rw [Function.update_self]
      exact hrow
    · obtain ⟨next, heq, hnext⟩ := hother q hqr
      rw [Function.update_of_ne hqr, heq]
      exact (h.row q (hcount ▸ hq)).congr hnext
  · by_cases hqr : q = r
    · subst hqr
      exact hearly
    · obtain ⟨next, heq, -⟩ := hother q hqr
      rw [heq]
      exact h.early q (hcount ▸ hq)

lemma Rows.keep (h : Rows s place) (hrelays : s'.relays = s.relays)
    (hframes : ∀ v q code, .forwarding q code ∈ (s'.threads v).stack ↔ .forwarding q code ∈ (s.threads v).stack) :
    Rows s' place := by
  have hrelay : ∀ q, s'.relay q = s.relay q := by
    intro q
    rw [Host.relay, hrelays, Host.relay]
  refine ⟨fun v q => ?_, fun v q code hm => ?_, fun q hq => ?_, fun q hq => ?_, fun q hq => ?_⟩
  · rw [← h.forwarding v q]
    exact exists_congr fun code => hframes v q code
  · rw [hrelay]
    exact h.code v q code ((hframes v q code).mp hm)
  · rw [hrelays]
    exact h.below q hq
  · rw [hrelay]
    exact h.row q (hrelays ▸ hq)
  · rw [hrelay]
    exact h.early q (hrelays ▸ hq)

lemma Queues.keep {place' : ℕ → Place} (h : Queues s place queue)
    (hnext : ∀ v, ∀ q ∈ queue v, (s'.relay q).next = (s.relay q).next)
    (hplace : ∀ v q, place' q = .queued v ↔ place q = .queued v)
    (hhead : ∀ v, (s'.threads v).head = (s.threads v).head) (htail : ∀ v, (s'.threads v).tail = (s.threads v).tail)
    (hflushed : ∀ v, queue v ≠ [] → 0 < (s'.threads v).depth ∨ .flushing ∈ (s'.threads v).stack) :
    Queues s' place' queue := by
  refine ⟨fun v => ?_, fun v q => ?_, hflushed⟩
  · rw [hhead, htail]
    exact (h.lists v).congr (hnext v)
  · rw [hplace]
    exact h.queued v q

lemma Inv.pass {relay : Relay} (hi : Inv s place queue) (hruns : runs (s.threads t).stack = true)
    (hlt : r < s.relays.count) (hwait : place r = .waiting) (harmed : relay.armed = true)
    (hdelivered : relay.delivered = some code) (hforwarder : relay.forwarder = some t)
    (hcompleted : relay.completed = []) (hnext : relay.next = none) :
    Inv ((s.put r relay).push t (.forwarding r code)) (Function.update place r (.forwarding t)) queue := by
  have hnotin : ∀ v, r ∉ queue v := by
    intro v hm
    rw [hi.queues.queued, hwait] at hm
    cases hm
  have hfresh : ∀ code', .forwarding r code' ∉ (s.threads t).stack := by
    intro code' hm
    have := (hi.rows.forwarding t r).mp ⟨code', hm⟩
    rw [hwait] at this
    cases this
  refine ⟨?_, ?_, ?_⟩
  · exact hi.scopes.keep (t := t) rfl rfl rfl rfl ⟨hruns, hi.scopes.shape t⟩
  · apply hi.queues.keep
    · intro v q hq
      have hne : q ≠ r := fun heq => hnotin v (heq ▸ hq)
      exact congrArg Relay.next (put_relay_ne s r relay hne)
    · intro v q
      by_cases hq : q = r
      · subst hq
        rw [Function.update_self, hwait]
        exact iff_of_false nofun nofun
      · rw [Function.update_of_ne hq]
    · intro v
      by_cases hv : v = t
      · subst hv
        rw [Host.push, context_self, put_threads]
      · rw [Host.push, context_ne _ _ _ hv, put_threads]
    · intro v
      by_cases hv : v = t
      · subst hv
        rw [Host.push, context_self, put_threads]
      · rw [Host.push, context_ne _ _ _ hv, put_threads]
    · intro v hq
      have hold := hi.queues.flushed v hq
      by_cases hv : v = t
      · subst hv
        rw [Host.push, context_self, put_threads]
        exact hold.imp_right (List.mem_cons_of_mem _)
      · rwa [Host.push, context_ne _ _ _ hv, put_threads]
  · refine hi.rows.move (t := t) hlt rfl rfl ?_ ?_ ?_ ?_ ?_ ?_ ?_
    · rw [Host.push, context_relay, put_relay_self]
      exact ⟨harmed, by simp [hdelivered], hforwarder, hcompleted, hnext⟩
    · rw [Host.push, context_relay, put_relay_self, harmed]
      exact nofun
    · intro q hq
      exact ⟨(s.relay q).next, put_relay_ne s r relay hq, .inl rfl⟩
    · intro q code' hq
      rw [List.mem_cons]
      refine or_iff_right ?_
      rintro heq
      exact hq (Frame.forwarding.inj heq).1
    · intro code' hm
      rcases List.mem_cons.mp hm with heq | hm
      · obtain ⟨-, rfl⟩ := Frame.forwarding.inj heq
        rw [Host.push, context_relay, put_relay_self]
        exact ⟨rfl, hdelivered⟩
      · exact absurd hm (hfresh code')
    · intro v heq
      exact ⟨(Place.forwarding.inj heq).symm, code, List.mem_cons_self⟩
    · intro v heq
      rw [hwait] at heq
      cases heq

lemma Inv.note {relay : Relay} (hi : Inv s place queue) (hlt : r < s.relays.count) (hwait : place r = .waiting)
    (hrow : RowOk relay .waiting) (hearly : relay.armed = false → relay.earlyCode = relay.delivered) :
    Inv (s.put r relay) place queue := by
  have hnotin : ∀ v, r ∉ queue v := by
    intro v hm
    rw [hi.queues.queued, hwait] at hm
    cases hm
  have hfresh : ∀ v code', .forwarding r code' ∉ (s.threads v).stack := by
    intro v code' hm
    have := (hi.rows.forwarding v r).mp ⟨code', hm⟩
    rw [hwait] at this
    cases this
  refine ⟨⟨hi.scopes.shape, hi.scopes.depth, hi.scopes.nodup, hi.scopes.owner⟩, ?_, ?_⟩
  · apply hi.queues.keep
    · intro v q hq
      have hne : q ≠ r := fun heq => hnotin v (heq ▸ hq)
      exact congrArg Relay.next (put_relay_ne s r relay hne)
    · exact fun v q => Iff.rfl
    · exact fun v => rfl
    · exact fun v => rfl
    · exact hi.queues.flushed
  · have hmove := @Rows.move s (s.put r relay) place 0 r .waiting (s.threads 0) hi.rows hlt rfl
      (Function.update_eq_self 0 s.threads).symm (by rwa [put_relay_self]) (by rwa [put_relay_self])
      (fun q hq => ⟨(s.relay q).next, put_relay_ne s r relay hq, .inl rfl⟩) (fun q code' _ => Iff.rfl)
      (fun code' hm => absurd hm (hfresh 0 code')) nofun (fun v heq => by rw [hwait] at heq; cases heq)
    rwa [← hwait, Function.update_eq_self] at hmove

lemma Inv.create (hi : Inv s place queue) : Inv { s with relays := s.relays.push {} } place queue := by
  have hnew : place s.relays.count = .waiting := by
    by_contra hne
    exact absurd (hi.rows.below _ hne) (lt_irrefl _)
  have hrelay : ∀ q, q ≠ s.relays.count →
      ({ s with relays := s.relays.push {} } : Host).relay q = s.relay q := by
    intro q hq
    rw [Host.relay, Table.push_row, if_neg hq, Host.relay]
  have hlast : ({ s with relays := s.relays.push {} } : Host).relay s.relays.count = {} := by
    rw [Host.relay, Table.push_row, if_pos rfl]
  refine ⟨⟨hi.scopes.shape, hi.scopes.depth, hi.scopes.nodup, hi.scopes.owner⟩, ?_, ?_⟩
  · apply hi.queues.keep
    · intro v q hq
      have hne : q ≠ s.relays.count := by
        rintro rfl
        rw [hi.queues.queued, hnew] at hq
        cases hq
      rw [hrelay q hne]
    · exact fun v q => Iff.rfl
    · exact fun v => rfl
    · exact fun v => rfl
    · exact hi.queues.flushed
  · refine ⟨hi.rows.forwarding, fun v q code hm => ?_, fun q hq => ?_, fun q hq => ?_, fun q hq => ?_⟩
    · have hne : q ≠ s.relays.count := by
        rintro rfl
        have := (hi.rows.forwarding v _).mp ⟨code, hm⟩
        rw [hnew] at this
        cases this
      rw [hrelay q hne]
      exact hi.rows.code v q code hm
    · exact Nat.lt_succ_of_lt (hi.rows.below q hq)
    · rcases Nat.lt_succ_iff_lt_or_eq.mp hq with hq | rfl
      · rw [hrelay q (by omega)]
        exact hi.rows.row q hq
      · rw [hlast, hnew]
        exact ⟨.inl rfl, rfl, rfl⟩
    · rcases Nat.lt_succ_iff_lt_or_eq.mp hq with hq | rfl
      · rw [hrelay q (by omega)]
        exact hi.rows.early q hq
      · rw [hlast]
        exact fun _ => rfl

lemma Inv.deliver (hi : Inv s place queue) (hruns : runs (s.threads t).stack = true) (hlt : r < s.relays.count)
    (hnone : (s.relay r).delivered = none) : ∃ place', Inv (s.deliver t r code) place' queue := by
  have hrow := hi.rows.row r hlt
  have hwait : place r = .waiting := by
    cases hp : place r <;> simp [hp, RowOk, hnone] at hrow ⊢
  rw [hwait] at hrow
  obtain ⟨-, hcompleted, hnext⟩ := hrow
  rw [Host.deliver]
  split
  · rename_i hunarmed
    rw [Bool.not_eq_true'] at hunarmed
    exact ⟨place, hi.note hlt hwait ⟨.inl hunarmed, hcompleted, hnext⟩ fun _ => rfl⟩
  · rename_i harmed
    rw [Bool.not_eq_true', Bool.not_eq_false] at harmed
    exact ⟨_, hi.pass hruns hlt hwait harmed rfl rfl hcompleted hnext⟩

lemma Inv.arm (hi : Inv s place queue) (hruns : runs (s.threads t).stack = true) (hlt : r < s.relays.count)
    (hunarmed : (s.relay r).armed = false) : ∃ place', Inv (s.arm t r) place' queue := by
  have hrow := hi.rows.row r hlt
  have hwait : place r = .waiting := by
    cases hp : place r <;> simp [hp, RowOk, hunarmed] at hrow ⊢
  rw [hwait] at hrow
  obtain ⟨-, hcompleted, hnext⟩ := hrow
  have hearly := hi.rows.early r hlt hunarmed
  rw [Host.arm]
  split
  · rename_i hcode
    exact ⟨place, hi.note hlt hwait ⟨.inr (hearly.symm.trans hcode), hcompleted, hnext⟩ nofun⟩
  · rename_i code hcode
    exact ⟨_, hi.pass hruns hlt hwait rfl (hearly.symm.trans hcode) rfl hcompleted hnext⟩

lemma Inv.lock {m : ℕ} (hi : Inv s place queue) (hruns : runs (s.threads t).stack = true) (hfree : s.owner m = none) :
    Inv (s.lock t m) place queue := by
  have hother : ∀ v, v ≠ t → (s.lock t m).threads v = s.threads v := fun v hv => context_ne _ _ _ hv
  have hself : (s.lock t m).threads t =
      { s.threads t with depth := (s.threads t).depth + 1, stack := .guarding m :: (s.threads t).stack } :=
    context_self ..
  refine ⟨hi.scopes.lock hruns hfree, ?_, ?_⟩
  · apply hi.queues.keep
    · exact fun v q _ => rfl
    · exact fun v q => Iff.rfl
    · intro v
      by_cases hv : v = t
      · rw [hv, hself]
      · rw [hother v hv]
    · intro v
      by_cases hv : v = t
      · rw [hv, hself]
      · rw [hother v hv]
    · intro v hq
      by_cases hv : v = t
      · rw [hv, hself]
        exact .inl (Nat.succ_pos _)
      · rw [hother v hv]
        exact hi.queues.flushed v hq
  · refine Rows.keep (s := s) hi.rows (by rfl) ?_
    intro v q code
    by_cases hv : v = t
    · rw [hv, hself, List.mem_cons]
      exact or_iff_right nofun
    · rw [hother v hv]

lemma Inv.unlock {m : ℕ} (hi : Inv s place queue) (hstack : (s.threads t).stack = .guarding m :: rest) :
    Inv (s.unlock t m rest) place queue := by
  have hother : ∀ v, v ≠ t → (s.unlock t m rest).threads v = s.threads v := fun v hv => context_ne _ _ _ hv
  have hself : (s.unlock t m rest).threads t = { s.threads t with
      depth := (s.threads t).depth - 1
      stack := if (s.threads t).depth - 1 = 0 then .flushing :: rest else rest } := context_self ..
  refine ⟨hi.scopes.unlock hstack, ?_, ?_⟩
  · apply hi.queues.keep
    · exact fun v q _ => rfl
    · exact fun v q => Iff.rfl
    · intro v
      by_cases hv : v = t
      · rw [hv, hself]
      · rw [hother v hv]
    · intro v
      by_cases hv : v = t
      · rw [hv, hself]
      · rw [hother v hv]
    · intro v hq
      by_cases hv : v = t
      · rw [hv, hself]
        dsimp only
        split
        · exact .inr List.mem_cons_self
        · left
          omega
      · rw [hother v hv]
        exact hi.queues.flushed v hq
  · refine Rows.keep (s := s) hi.rows (by rfl) ?_
    intro v q code
    by_cases hv : v = t
    · rw [hv, hself, hstack]
      dsimp only
      split <;> simp
    · rw [hother v hv]

lemma Inv.leave {frame : Frame} (hi : Inv s place queue) (hstack : (s.threads t).stack = frame :: rest)
    (hlocks : locks (frame :: rest) = locks rest) (hframe : ∀ q code, frame ≠ .forwarding q code)
    (hflushed : queue t ≠ [] → 0 < (s.threads t).depth ∨ .flushing ∈ rest) :
    Inv (s.context t { s.threads t with stack := rest }) place queue := by
  have hother : ∀ v, v ≠ t → (s.context t { s.threads t with stack := rest }).threads v = s.threads v :=
    fun v hv => context_ne _ _ _ hv
  have hshape := hi.scopes.shape t
  rw [hstack] at hshape
  refine ⟨?_, ?_, ?_⟩
  · exact hi.scopes.keep (t := t) rfl rfl rfl (by rw [hstack, hlocks]) hshape.tail
  · apply hi.queues.keep
    · exact fun v q _ => rfl
    · exact fun v q => Iff.rfl
    · intro v
      by_cases hv : v = t
      · rw [hv, context_self]
      · rw [hother v hv]
    · intro v
      by_cases hv : v = t
      · rw [hv, context_self]
      · rw [hother v hv]
    · intro v hq
      by_cases hv : v = t
      · subst hv
        rw [context_self]
        exact hflushed hq
      · rw [hother v hv]
        exact hi.queues.flushed v hq
  · refine Rows.keep (s := s) hi.rows (by rfl) ?_
    intro v q code
    by_cases hv : v = t
    · rw [hv, context_self, hstack, List.mem_cons]
      exact (or_iff_right (hframe q code).symm).symm
    · rw [hother v hv]

lemma Inv.complete (hi : Inv s place queue) (hstack : (s.threads t).stack = .forwarding r code :: rest)
    (hzero : (s.threads t).depth = 0) :
    Inv (s.complete t r code rest) (Function.update place r .done) queue := by
  have hshape := hi.scopes.shape t
  have hlocks := hi.scopes.depth t
  rw [hstack] at hshape hlocks
  rw [hzero] at hlocks
  have hmem : .forwarding r code ∈ (s.threads t).stack := by
    rw [hstack]
    exact List.mem_cons_self
  have hplace := (hi.rows.forwarding t r).mp ⟨code, hmem⟩
  have hlt := hi.rows.below r (by rw [hplace]; exact nofun)
  have hrow := hi.rows.row r hlt
  rw [hplace] at hrow
  obtain ⟨harmed, hdelivered, hforwarder, hcompleted, hnext⟩ := hrow
  have hcode := hi.rows.code t r code hmem
  have hother : ∀ v, v ≠ t → (s.complete t r code rest).threads v = s.threads v := fun v hv => context_ne _ _ _ hv
  have hself : (s.complete t r code rest).threads t = { s.threads t with stack := .completing r :: rest } :=
    context_self ..
  have hrelay : (s.complete t r code rest).relay r =
      { s.relay r with completed := (s.relay r).completed ++ [code] } := put_relay_self ..
  have helse : ∀ q, q ≠ r → (s.complete t r code rest).relay q = s.relay q := fun q hq => put_relay_ne _ _ _ hq
  have hfree : ∀ code', .forwarding r code' ∉ rest := fun code' => hshape.forwarding_not_mem
  refine ⟨?_, ?_, ?_⟩
  · refine hi.scopes.keep (t := t) rfl rfl rfl (by rw [hstack]; rfl) ⟨.inl hshape.1, ?_, hshape.2⟩
    exact List.eq_nil_of_length_eq_zero hlocks.symm
  · apply hi.queues.keep
    · intro v q _
      by_cases hq : q = r
      · rw [hq, hrelay]
      · rw [helse q hq]
    · intro v q
      by_cases hq : q = r
      · subst hq
        rw [Function.update_self, hplace]
        exact iff_of_false nofun nofun
      · rw [Function.update_of_ne hq]
    · intro v
      by_cases hv : v = t
      · rw [hv, hself]
      · rw [hother v hv]
    · intro v
      by_cases hv : v = t
      · rw [hv, hself]
      · rw [hother v hv]
    · intro v hq
      have hold := hi.queues.flushed v hq
      by_cases hv : v = t
      · subst hv
        rw [hself]
        rw [hstack, List.mem_cons] at hold
        exact hold.imp_right fun hm => List.mem_cons_of_mem _ (hm.resolve_left nofun)
      · rwa [hother v hv]
  · refine hi.rows.move (t := t) hlt rfl rfl ?_ ?_ ?_ ?_ ?_ ?_ ?_
    · rw [hrelay]
      refine ⟨harmed, hdelivered, ?_, by simp [hforwarder], hnext⟩
      simp [hcompleted, hcode]
    · rw [hrelay, harmed]
      exact nofun
    · exact fun q hq => ⟨(s.relay q).next, helse q hq, .inl rfl⟩
    · intro q code' hq
      rw [hstack, List.mem_cons, List.mem_cons]
      refine or_congr (iff_of_false nofun ?_) Iff.rfl
      exact fun heq => hq (Frame.forwarding.inj heq).1
    · intro code' hm
      exact absurd ((List.mem_cons.mp hm).resolve_left nofun) (hfree code')
    · exact fun v heq => nomatch heq
    · intro v heq
      rw [hplace] at heq
      exact (Place.forwarding.inj heq).symm

lemma forward_kept {nodes : List ℕ} (hpos : (s.threads t).depth ≠ 0)
    (hlist : Represents (fun q => (s.relay q).next) (s.threads t).head (s.threads t).tail nodes) (hfree : r ∉ nodes)
    (hnext : (s.relay r).next = none) :
    ∃ c : Context, (s.forward t r code rest).threads = Function.update s.threads t c ∧ c.stack = rest ∧
      c.depth = (s.threads t).depth ∧
      (s.forward t r code rest).relay r = { s.relay r with deferredCode := code } ∧
      (∀ q, q ≠ r → ∃ next, (s.forward t r code rest).relay q = { s.relay q with next := next } ∧
        (next = (s.relay q).next ∨ q ∈ nodes)) ∧
      (s.forward t r code rest).relays.count = s.relays.count ∧ (s.forward t r code rest).owner = s.owner ∧
      Represents (fun q => ((s.forward t r code rest).relay q).next) c.head c.tail (nodes ++ [r]) ∧
      ∀ q, q ≠ r → q ∉ nodes → ((s.forward t r code rest).relay q).next = (s.relay q).next := by
  rw [Host.forward]
  dsimp only
  rw [if_neg hpos]
  cases htail : (s.threads t).tail with
  | none =>
    rw [htail] at hlist
    have hempty := hlist.of_tail_none
    have hself : (s.put r { s.relay r with deferredCode := code }).relay r =
        { s.relay r with deferredCode := code } := put_relay_self ..
    have helse : ∀ q, q ≠ r → (s.put r { s.relay r with deferredCode := code }).relay q = s.relay q :=
      fun q hq => put_relay_ne _ _ _ hq
    refine ⟨{ s.threads t with head := some r, tail := some r, stack := rest }, rfl, rfl, rfl, hself, ?_, rfl, rfl,
      ?_, ?_⟩
    · exact fun q hq => ⟨(s.relay q).next, helse q hq, .inl rfl⟩
    · rw [hempty]
      exact Represents.single (show ((s.put r _).relay r).next = none by rw [hself]; exact hnext)
    · exact fun q hq _ => congrArg Relay.next (helse q hq)
  | some last =>
    rw [htail] at hlist
    have hlast : last ∈ nodes := List.mem_of_getLast? hlist.tail_eq.symm
    have hne : last ≠ r := fun heq => hfree (heq ▸ hlast)
    have hself : ((s.put r { s.relay r with deferredCode := code }).put last
        { (s.put r { s.relay r with deferredCode := code }).relay last with next := some r }).relay r =
        { s.relay r with deferredCode := code } := by
      rw [put_relay_ne _ _ _ hne.symm, put_relay_self]
    have hnew : ((s.put r { s.relay r with deferredCode := code }).put last
        { (s.put r { s.relay r with deferredCode := code }).relay last with next := some r }).relay last =
        { s.relay last with next := some r } := by
      rw [put_relay_self, put_relay_ne _ _ _ hne]
    have helse : ∀ q, q ≠ r → q ≠ last → ((s.put r { s.relay r with deferredCode := code }).put last
        { (s.put r { s.relay r with deferredCode := code }).relay last with next := some r }).relay q =
        s.relay q := by
      intro q hq hql
      rw [put_relay_ne _ _ _ hql, put_relay_ne _ _ _ hq]
    refine ⟨{ s.threads t with tail := some r, stack := rest }, rfl, rfl, rfl, hself, ?_, rfl, rfl, ?_, ?_⟩
    · intro q hq
      by_cases hql : q = last
      · subst hql
        exact ⟨some r, hnew, .inr hlast⟩
      · exact ⟨(s.relay q).next, helse q hq hql, .inl rfl⟩
    · refine hlist.push (hfree) ?_ ?_ ?_
      · exact (congrArg Relay.next hself).trans hnext
      · exact congrArg Relay.next hnew
      · intro q hq hql
        exact congrArg Relay.next (helse q (fun heq => hfree (heq ▸ hq)) hql)
    · intro q hq hqt
      exact congrArg Relay.next (helse q hq fun heq => hqt (heq ▸ hlast))

lemma Inv.enqueue (hi : Inv s place queue) (hstack : (s.threads t).stack = .forwarding r code :: rest)
    (hpos : (s.threads t).depth ≠ 0) :
    ∃ queue', Inv (s.forward t r code rest) (Function.update place r (.queued t)) queue' := by
  have hshape := hi.scopes.shape t
  rw [hstack] at hshape
  have hmem : .forwarding r code ∈ (s.threads t).stack := by
    rw [hstack]
    exact List.mem_cons_self
  have hplace := (hi.rows.forwarding t r).mp ⟨code, hmem⟩
  have hlt := hi.rows.below r (by rw [hplace]; exact nofun)
  have hrow := hi.rows.row r hlt
  rw [hplace] at hrow
  obtain ⟨harmed, hdelivered, hforwarder, hcompleted, hnext⟩ := hrow
  have hcode := hi.rows.code t r code hmem
  have hnotin : ∀ v, r ∉ queue v := by
    intro v hm
    rw [hi.queues.queued, hplace] at hm
    cases hm
  have hlist := hi.queues.lists t
  have hothers : ∀ v q, v ≠ t → q ∈ queue v → q ≠ r ∧ q ∉ queue t := by
    intro v q hv hq
    refine ⟨fun heq => hnotin v (heq ▸ hq), fun hm => ?_⟩
    rw [hi.queues.queued] at hq hm
    exact hv (Place.queued.inj (hq.symm.trans hm))
  obtain ⟨c, hthreads, hstack', hdepth', hrelay, helse, hcount, howner, hrep, hkept⟩ :=
    @forward_kept s t r rest code _ hpos hlist (hnotin t) hnext
  have hself : (s.forward t r code rest).threads t = c := by rw [hthreads, Function.update_self]
  have hother : ∀ v, v ≠ t → (s.forward t r code rest).threads v = s.threads v := by
    intro v hv
    rw [hthreads, Function.update_of_ne hv]
  have hfree : ∀ code', .forwarding r code' ∉ rest := fun code' => hshape.forwarding_not_mem
  refine ⟨Function.update queue t (queue t ++ [r]), ?_, ⟨?_, ?_, ?_⟩, ?_⟩
  · refine hi.scopes.keep hthreads howner hdepth' ?_ ?_
    · rw [hstack', hstack, locks_forwarding]
    · rw [hstack']
      exact hshape.2
  · intro v
    by_cases hv : v = t
    · subst hv
      rw [hself, Function.update_self]
      exact hrep
    · rw [hother v hv, Function.update_of_ne hv]
      exact (hi.queues.lists v).congr fun q hq => hkept q (hothers v q hv hq).1 (hothers v q hv hq).2
  · intro v q
    by_cases hq : q = r
    · subst hq
      rw [Function.update_self, Place.queued.injEq]
      by_cases hv : v = t
      · subst hv
        rw [Function.update_self]
        simp
      · rw [Function.update_of_ne hv]
        exact iff_of_false (hnotin v) fun heq => hv heq.symm
    · rw [Function.update_of_ne hq, ← hi.queues.queued v q]
      by_cases hv : v = t
      · subst hv
        rw [Function.update_self, List.mem_append, List.mem_singleton]
        exact or_iff_left hq
      · rw [Function.update_of_ne hv]
  · intro v hq
    by_cases hv : v = t
    · subst hv
      rw [hself, hdepth']
      exact .inl (Nat.pos_of_ne_zero hpos)
    · rw [hother v hv]
      rw [Function.update_of_ne hv] at hq
      exact hi.queues.flushed v hq
  · refine hi.rows.move (t := t) hlt hcount hthreads ?_ ?_ ?_ ?_ ?_ ?_ ?_
    · rw [hrelay]
      exact ⟨harmed, hcode, hforwarder, hcompleted⟩
    · rw [hrelay, harmed]
      exact nofun
    · intro q hq
      obtain ⟨next, heq, hnext⟩ := helse q hq
      exact ⟨next, heq, hnext.imp_right fun hm => ⟨t, (hi.queues.queued t q).mp hm⟩⟩
    · intro q code' hq
      rw [hstack', hstack, List.mem_cons]
      refine (or_iff_right ?_).symm
      exact fun heq => hq (Frame.forwarding.inj heq).1
    · intro code' hm
      rw [hstack'] at hm
      exact absurd hm (hfree code')
    · exact fun v heq => nomatch heq
    · intro v heq
      rw [hplace] at heq
      exact (Place.forwarding.inj heq).symm

lemma flush_popped (hzero : (s.threads t).depth = 0) (hhead : (s.threads t).head = some r) :
    (s.flush t rest).threads = Function.update s.threads t { s.threads t with
      head := (s.relay r).next
      tail := if (s.relay r).next = none then none else (s.threads t).tail
      stack := .completing r :: .flushing :: rest } ∧
    (s.flush t rest).relay r = { s.relay r with
      next := none
      completed := (s.relay r).completed ++ [(s.relay r).deferredCode] } ∧
    (∀ q, q ≠ r → (s.flush t rest).relay q = s.relay q) ∧
    (s.flush t rest).relays.count = s.relays.count ∧ (s.flush t rest).owner = s.owner := by
  rw [Host.flush]
  simp only [hhead, hzero, ne_eq, not_true_eq_false, if_false]
  refine ⟨?_, ?_, fun q hq => ?_, rfl, rfl⟩
  · rw [Host.complete]
    simp only [Host.context, put_threads, Function.update_self, Function.update_idem]
  · rw [Host.complete]
    simp only [context_relay, put_relay_self]
  · rw [Host.complete]
    simp only [context_relay, put_relay_ne _ _ _ hq]

lemma Inv.flushOne (hi : Inv s place queue) (hstack : (s.threads t).stack = .flushing :: rest)
    (hzero : (s.threads t).depth = 0) (hhead : (s.threads t).head = some r) :
    ∃ queue', Inv (s.flush t rest) (Function.update place r .done) queue' := by
  have hshape := hi.scopes.shape t
  rw [hstack] at hshape
  obtain ⟨hthreads, hrelay, helse, hcount, howner⟩ := @flush_popped s t r rest hzero hhead
  have hlist := hi.queues.lists t
  rw [hhead] at hlist
  obtain ⟨nodes, hnodes, hrep⟩ := @Represents.pop _ _
    (fun q => ((s.flush t rest).relay q).next) _ _ _ hlist fun q _ hq => congrArg Relay.next (helse q hq)
  have hplace : place r = .queued t := by
    rw [← hi.queues.queued, hnodes]
    exact List.mem_cons_self
  have hlt := hi.rows.below r (by rw [hplace]; exact nofun)
  have hrow := hi.rows.row r hlt
  rw [hplace] at hrow
  obtain ⟨harmed, hcode, hforwarder, hcompleted⟩ := hrow
  have hnodup := hlist.nodup
  rw [hnodes] at hnodup
  have hother : ∀ v, v ≠ t → (s.flush t rest).threads v = s.threads v := by
    intro v hv
    rw [hthreads, Function.update_of_ne hv]
  have hself : (s.flush t rest).threads t = { s.threads t with
      head := (s.relay r).next
      tail := if (s.relay r).next = none then none else (s.threads t).tail
      stack := .completing r :: .flushing :: rest } := by rw [hthreads, Function.update_self]
  have hfree : ∀ code', .forwarding r code' ∉ (s.threads t).stack := by
    intro code' hm
    have := (hi.rows.forwarding t r).mp ⟨code', hm⟩
    rw [hplace] at this
    cases this
  refine ⟨Function.update queue t nodes, ?_, ⟨?_, ?_, ?_⟩, ?_⟩
  · refine hi.scopes.keep hthreads howner rfl ?_ ?_
    · rw [hstack]
      rfl
    · exact ⟨.inr rfl, hshape.2.1, hshape⟩
  · intro v
    by_cases hv : v = t
    · subst hv
      rw [hself, Function.update_self]
      exact hrep
    · rw [hother v hv, Function.update_of_ne hv]
      apply (hi.queues.lists v).congr
      intro q hq
      rw [helse q]
      rintro rfl
      rw [hi.queues.queued, hplace] at hq
      exact hv (Place.queued.inj hq).symm
  · intro v q
    by_cases hq : q = r
    · subst hq
      rw [Function.update_self]
      refine iff_of_false (fun hm => ?_) nofun
      by_cases hv : v = t
      · subst hv
        rw [Function.update_self] at hm
        exact (List.nodup_cons.mp hnodup).1 hm
      · rw [Function.update_of_ne hv, hi.queues.queued, hplace] at hm
        exact hv (Place.queued.inj hm).symm
    · rw [Function.update_of_ne hq, ← hi.queues.queued v q]
      by_cases hv : v = t
      · subst hv
        rw [Function.update_self, hnodes, List.mem_cons]
        exact (or_iff_right hq).symm
      · rw [Function.update_of_ne hv]
  · intro v hq
    by_cases hv : v = t
    · subst hv
      rw [hself]
      exact .inr (List.mem_cons_of_mem _ List.mem_cons_self)
    · rw [hother v hv]
      rw [Function.update_of_ne hv] at hq
      exact hi.queues.flushed v hq
  · refine hi.rows.move (t := t) hlt hcount hthreads ?_ ?_ ?_ ?_ ?_ ?_ ?_
    · rw [hrelay]
      refine ⟨harmed, by simp [hcode], ?_, by simp [hforwarder], rfl⟩
      simp [hcompleted, hcode]
    · rw [hrelay, harmed]
      exact nofun
    · exact fun q hq => ⟨(s.relay q).next, helse q hq, .inl rfl⟩
    · intro q code' _
      rw [hstack, List.mem_cons]
      exact or_iff_right nofun
    · intro code' hm
      rw [hstack] at hfree
      exact absurd ((List.mem_cons.mp hm).resolve_left nofun) (hfree code')
    · exact fun v heq => nomatch heq
    · intro v heq
      rw [hplace] at heq
      cases heq

lemma Inv.flush (hi : Inv s place queue) (hstack : (s.threads t).stack = .flushing :: rest) :
    ∃ place' queue', Inv (s.flush t rest) place' queue' := by
  have hshape := hi.scopes.shape t
  have hdepth := hi.scopes.depth t
  rw [hstack] at hshape hdepth
  rw [locks_flushing, hshape.2.1, List.length_nil] at hdepth
  cases hhead : (s.threads t).head with
  | none =>
    have hflush : s.flush t rest = s.context t { s.threads t with stack := rest } := by
      rw [Host.flush]
      dsimp only
      split
      · rfl
      · rename_i r hr
        rw [hhead] at hr
        cases hr
    refine ⟨place, queue, ?_⟩
    rw [hflush]
    apply hi.leave hstack rfl (by simp)
    intro hne
    exact absurd ((hi.queues.lists t).eq_nil_iff.mpr hhead) hne
  | some r => exact ⟨_, hi.flushOne hstack hdepth hhead⟩

lemma Inv.step {e : ℕ × Choice} (hi : Inv s place queue) (h : step s e = some s') :
    ∃ place' queue', Inv s' place' queue' := by
  obtain ⟨t, choice⟩ := e
  rw [SendCapacityRelay.step.eq_def] at h
  cases choice with
  | create =>
    obtain ⟨-, rfl⟩ := of_guard h
    exact ⟨place, queue, hi.create⟩
  | deliver r code =>
    obtain ⟨⟨hruns, hlt, hnone⟩, rfl⟩ := of_guard h
    obtain ⟨place', hi'⟩ := hi.deliver hruns hlt hnone
    exact ⟨place', queue, hi'⟩
  | arm r =>
    obtain ⟨⟨hruns, hlt, hunarmed⟩, rfl⟩ := of_guard h
    obtain ⟨place', hi'⟩ := hi.arm hruns hlt hunarmed
    exact ⟨place', queue, hi'⟩
  | lock m =>
    obtain ⟨⟨hruns, hfree⟩, rfl⟩ := of_guard h
    exact ⟨place, queue, hi.lock hruns hfree⟩
  | advance =>
    cases hstack : (s.threads t).stack with
    | nil => simp [hstack] at h
    | cons frame rest =>
      cases frame with
      | guarding m =>
        obtain rfl : s.unlock t m rest = s' := by simpa [hstack] using h
        exact ⟨place, queue, hi.unlock hstack⟩
      | forwarding r code =>
        obtain rfl : s.forward t r code rest = s' := by simpa [hstack] using h
        by_cases hzero : (s.threads t).depth = 0
        · refine ⟨Function.update place r .done, queue, ?_⟩
          rw [Host.forward]
          simp only [hzero, if_true]
          exact hi.complete hstack hzero
        · exact ⟨_, hi.enqueue hstack hzero⟩
      | flushing =>
        obtain rfl : s.flush t rest = s' := by simpa [hstack] using h
        exact hi.flush hstack
      | completing r =>
        obtain rfl : s.context t { s.threads t with stack := rest } = s' := by simpa [hstack] using h
        have hflushed := hi.queues.flushed t
        rw [hstack] at hflushed
        refine ⟨place, queue, hi.leave hstack rfl (by simp) fun hne => ?_⟩
        rcases hflushed hne with hpos | hm
        · exact .inl hpos
        · exact .inr ((List.mem_cons.mp hm).resolve_left (by simp))

lemma inv_start : Inv {} (fun _ => .waiting) (fun _ => []) := by
  refine ⟨⟨fun _ => trivial, fun _ => rfl, fun _ => List.nodup_nil, fun t m => ?_⟩,
    ⟨fun _ => represents_nil, fun t r => ?_, fun t h => absurd rfl h⟩, ⟨fun t r => ?_, ?_, ?_, ?_, ?_⟩⟩
  · exact iff_of_false (List.not_mem_nil) nofun
  · exact iff_of_false (List.not_mem_nil) nofun
  · exact iff_of_false (fun ⟨_, hm⟩ => List.not_mem_nil hm) nofun
  · exact fun t r code hm => absurd hm List.not_mem_nil
  · exact fun r hne => absurd rfl hne
  · exact fun r hr => absurd hr (Nat.not_lt_zero r)
  · exact fun r hr => absurd hr (Nat.not_lt_zero r)

lemma inv_of_reachable (h : Reachable SendCapacityRelay.step (· = {}) s) : ∃ place queue, Inv s place queue := by
  apply h.invariant (P := fun s => ∃ place queue, Inv s place queue)
  · rintro _ rfl
    exact ⟨_, _, inv_start⟩
  · rintro s e s' ⟨place, queue, hi⟩ hstep
    exact hi.step hstep

lemma put_relay (s : Host) (r q : ℕ) (relay : Relay) :
    (s.put r relay).relay q = if q = r then relay else s.relay q := Table.set_row ..

lemma step_relay {choice : Choice} (h : step s (t, choice) = some s') (hlt : r < s.relays.count) :
    ((s'.relay r).completed = (s.relay r).completed ∨ choice = .advance ∧ (s.threads t).depth = 0) ∧
    ((s'.relay r).forwarder = (s.relay r).forwarder ∨
      (choice = .arm r ∨ ∃ code, choice = .deliver r code) ∧ (s'.relay r).forwarder = some t) := by
  rw [SendCapacityRelay.step.eq_def] at h
  cases choice with
  | create =>
    obtain ⟨-, rfl⟩ := of_guard h
    have hrelay : ({ s with relays := s.relays.push {} } : Host).relay r = s.relay r := by
      rw [Host.relay, Table.push_row, if_neg (by omega), Host.relay]
    rw [hrelay]
    exact ⟨.inl rfl, .inl rfl⟩
  | deliver q code =>
    obtain ⟨-, rfl⟩ := of_guard h
    rw [Host.deliver]
    by_cases hq : r = q
    · subst hq
      split
      · simp
      · simp [Host.push]
    · split <;> simp [Host.push, put_relay, hq]
  | arm q =>
    obtain ⟨-, rfl⟩ := of_guard h
    rw [Host.arm]
    by_cases hq : r = q
    · subst hq
      split
      · simp
      · simp [Host.push]
    · split <;> simp [Host.push, put_relay, hq]
  | lock m =>
    obtain ⟨-, rfl⟩ := of_guard h
    exact ⟨.inl rfl, .inl rfl⟩
  | advance =>
    cases hstack : (s.threads t).stack with
    | nil => simp [hstack] at h
    | cons frame rest =>
      cases frame with
      | guarding m =>
        obtain rfl : s.unlock t m rest = s' := by simpa [hstack] using h
        exact ⟨.inl rfl, .inl rfl⟩
      | forwarding q code =>
        obtain rfl : s.forward t q code rest = s' := by simpa [hstack] using h
        by_cases hzero : (s.threads t).depth = 0
        · refine ⟨.inr ⟨rfl, hzero⟩, .inl ?_⟩
          simp only [Host.forward, hzero, if_true, Host.complete, context_relay, put_relay]
          split <;> simp_all
        · simp only [Host.forward, hzero, if_false]
          split
          · simp only [context_relay, put_relay]
            split <;> simp_all
          · simp only [context_relay, put_relay]
            split <;> split <;> simp_all
      | flushing =>
        obtain rfl : s.flush t rest = s' := by simpa [hstack] using h
        rw [Host.flush]
        dsimp only
        split
        · exact ⟨.inl rfl, .inl rfl⟩
        rename_i q hhead
        split
        · exact ⟨.inl rfl, .inl rfl⟩
        rename_i hzero
        refine ⟨.inr ⟨rfl, not_not.mp hzero⟩, .inl ?_⟩
        simp only [Host.complete, context_relay, put_relay]
        split <;> simp_all
      | completing q =>
        obtain rfl : s.context t { s.threads t with stack := rest } = s' := by simpa [hstack] using h
        exact ⟨.inl rfl, .inl rfl⟩

end Steps

/-- The thread holds no session lock and is inside of neither `FlushDeferred` nor `Forward`. -/
def Context.Quiet (c : Context) : Prop :=
  c.depth = 0 ∧ .flushing ∉ c.stack ∧ ∀ r code, .forwarding r code ∉ c.stack

/-- A target is completed at most once, with the code delivered; once both calls are made, by the time the thread
of the later one is quiet; and only by a thread that holds no session mutex. The queues are always well formed. -/
theorem targets_completed_once {s : Host} (h : Reachable step (· = {}) s) :
    (∀ r < s.relays.count, (s.relay r).completed = [] ∨
      (s.relay r).armed = true ∧ ∃ code, (s.relay r).delivered = some code ∧ (s.relay r).completed = [code]) ∧
    (∀ r < s.relays.count, ∀ code, (s.relay r).armed = true → (s.relay r).delivered = some code →
      ∃ t, (s.relay r).forwarder = some t ∧ ((s.threads t).Quiet → (s.relay r).completed = [code])) ∧
    (∀ t choice s', step s (t, choice) = some s' → ∀ r < s.relays.count,
      ((s'.relay r).completed ≠ (s.relay r).completed → (s.threads t).depth = 0 ∧ ∀ m, s.owner m ≠ some t) ∧
      ((s'.relay r).forwarder ≠ (s.relay r).forwarder →
        (choice = .arm r ∨ ∃ code, choice = .deliver r code) ∧ (s'.relay r).forwarder = some t)) ∧
    ∀ t, ∃ nodes, Linked (fun r => (s.relay r).next) nodes ∧ nodes.Nodup ∧
      (s.threads t).head = nodes.head? ∧ (s.threads t).tail = nodes.getLast? := by
  obtain ⟨place, queue, hi⟩ := inv_of_reachable h
  refine ⟨fun r hr => ?_, fun r hr code harmed hcode => ?_, fun t choice s' hstep r hr => ⟨fun hne => ?_, fun hne => ?_⟩,
    fun t => ?_⟩
  · have hrow := hi.rows.row r hr
    cases hp : place r with
    | waiting =>
      rw [hp] at hrow
      exact .inl hrow.2.1
    | forwarding t =>
      rw [hp] at hrow
      exact .inl hrow.2.2.2.1
    | queued t =>
      rw [hp] at hrow
      exact .inl hrow.2.2.2
    | done =>
      rw [hp] at hrow
      obtain ⟨harmed, hdelivered, hcompleted, -⟩ := hrow
      obtain ⟨code, hcode⟩ := Option.ne_none_iff_exists'.mp hdelivered
      exact .inr ⟨harmed, code, hcode, by rw [hcompleted, hcode]; rfl⟩
  · have hrow := hi.rows.row r hr
    cases hp : place r with
    | waiting =>
      rw [hp] at hrow
      rcases hrow.1 with hno | hno
      · rw [harmed] at hno
        cases hno
      · rw [hcode] at hno
        cases hno
    | forwarding t =>
      rw [hp] at hrow
      refine ⟨t, hrow.2.2.1, fun hquiet => ?_⟩
      obtain ⟨code', hm⟩ := (hi.rows.forwarding t r).mpr hp
      exact absurd hm (hquiet.2.2 r code')
    | queued t =>
      rw [hp] at hrow
      refine ⟨t, hrow.2.2.1, fun hquiet => ?_⟩
      have hm := (hi.queues.queued t r).mpr hp
      rcases hi.queues.flushed t (List.ne_nil_of_mem hm) with hpos | hflush
      · rw [hquiet.1] at hpos
        exact absurd hpos (lt_irrefl 0)
      · exact absurd hflush hquiet.2.1
    | done =>
      rw [hp] at hrow
      obtain ⟨-, -, hcompleted, hforwarder, -⟩ := hrow
      obtain ⟨t, ht⟩ := Option.ne_none_iff_exists'.mp hforwarder
      exact ⟨t, ht, fun _ => by rw [hcompleted, hcode]; rfl⟩
  · obtain ⟨-, hzero⟩ := (step_relay hstep hr).1.resolve_left hne
    refine ⟨hzero, fun m hm => ?_⟩
    have hlocks := hi.scopes.depth t
    rw [hzero] at hlocks
    have hmem := (hi.scopes.owner t m).mpr hm
    rw [List.eq_nil_of_length_eq_zero hlocks.symm] at hmem
    exact List.not_mem_nil hmem
  · exact (step_relay hstep hr).2.resolve_left hne
  · have hlist := hi.queues.lists t
    exact ⟨queue t, hlist.linked, hlist.nodup, hlist.head_eq, hlist.tail_eq⟩

/-- Two completions kept back under a lock; the callback of the first takes another one, and its release flushes
the second. -/
theorem targets_completed_once_nested : ∃ s, run step {} [(0, .create), (0, .create), (0, .lock 7),
      (1, .deliver 0 .ok), (0, .arm 0), (0, .advance), (0, .arm 1), (0, .deliver 1 .closed), (0, .advance),
      (0, .advance), (0, .advance), (0, .lock 8), (0, .advance), (0, .advance)] = some s ∧
    (s.threads 0).stack = [.completing 1, .flushing, .completing 0, .flushing] ∧
    ((s.relay 1).completed = [] ∨ (s.relay 1).armed = true ∧
      ∃ code, (s.relay 1).delivered = some code ∧ (s.relay 1).completed = [code]) := by
  have hrun : (run step {} [(0, .create), (0, .create), (0, .lock 7), (1, .deliver 0 .ok), (0, .arm 0),
      (0, .advance), (0, .arm 1), (0, .deliver 1 .closed), (0, .advance), (0, .advance), (0, .advance),
      (0, .lock 8), (0, .advance), (0, .advance)]).map (fun s => ((s.threads 0).stack, s.relays.count)) =
      some ([.completing 1, .flushing, .completing 0, .flushing], 2) := by decide
  obtain ⟨s, hs, heq⟩ := Option.map_eq_some_iff.mp hrun
  obtain ⟨hstack, hcount⟩ := Prod.mk.inj heq
  obtain ⟨honce, -⟩ := targets_completed_once ⟨_, rfl, _, hs⟩
  exact ⟨s, hs, hstack, honce 1 (by omega)⟩

end ServerCore.Runtime.SendCapacityRelay
