import ServerCore.CDetail.ReadinessNotifier
import ServerCore.Foundations.Transition
import Mathlib.Data.List.Nodup

/-! What holds of the mailbox in every run: signals are kept until they are delivered, and each delivery passes
the slots that wait by one place. -/

namespace ServerCore.CDetail

open ServerCore.Core ServerCore.Foundations ServerCore.Foundations.RoundRobin

def Unserved (i : ℕ) (later : List Entry) : Prop := (∀ key, .delivered i key ∉ later) ∧ .reset i ∉ later

def deliveries (later : List Entry) : ℕ := later.countP Entry.isDelivery

lemma Unserved.tail {i : ℕ} {e : Entry} {later : List Entry} (h : Unserved i (e :: later)) : Unserved i later :=
  ⟨fun key hm => h.1 key (List.mem_cons_of_mem e hm), fun hm => h.2 (List.mem_cons_of_mem e hm)⟩

lemma deliveries_delivered (i : ℕ) (key : UInt64) (later : List Entry) :
    deliveries (.delivered i key :: later) = deliveries later + 1 := List.countP_cons_of_pos rfl

namespace NotifierState

def At (s : NotifierState) (index i : ℕ) : Prop := s.slots[index]? = some (some i)

def Registered (s : NotifierState) (i : ℕ) : Prop := ∃ index, s.At index i

def NoneReady (s : NotifierState) : Prop := ∀ i, s.Registered i → s.slotReady i = false

structure Inv (capacity : ℕ) (s : NotifierState) : Prop where
  length : s.slots.length = capacity
  next_lt : s.next < capacity
  live : ∀ index i, s.At index i → i < s.heap.count ∧ (s.heap.row i).registered = true ∧ s.slotKey i ≠ 0
  listed : ∀ i < s.heap.count, (s.heap.row i).registered = true → s.Registered i
  distinct : ∀ index index' i i', s.At index i → s.At index' i' → s.slotKey i = s.slotKey i' → index = index'
  origin : ∀ index i, s.At index i → .added i (s.slotKey i) ∈ s.log
  pending : ∀ front i rest, s.log = front ++ .signalled i :: rest → Unserved i front →
    ∃ index, s.At index i ∧ s.slotReady i = true ∧ deliveries front + ahead capacity s.next index < capacity
  fair : ∀ front mid i rest, s.log = front ++ (mid ++ .signalled i :: rest) → Unserved i mid →
    deliveries mid < capacity
  cause : ∀ index i, s.At index i → s.slotReady i = true → ∃ mid earlier, s.log = mid ++ .signalled i :: earlier ∧
    (∀ j, .delivered j (s.slotKey i) ∉ mid) ∧ .added i (s.slotKey i) ∈ earlier
  served : ∀ front i key rest, s.log = front ++ .delivered i key :: rest → ∃ mid earlier,
    rest = mid ++ .signalled i :: earlier ∧ (∀ j, .delivered j key ∉ mid) ∧ .added i key ∈ earlier

section Basics

variable {capacity : ℕ} {s s' : NotifierState} {index i : ℕ}

lemma At.lt (h : s.At index i) : index < s.slots.length := by
  by_contra hn
  rw [At, List.getElem?_eq_none (by omega)] at h
  cases h

lemma readyAt_eq_some : s.readyAt index = some i ↔ s.At index i ∧ s.slotReady i = true := by
  unfold readyAt At
  split
  · rename_i j hj
    rw [hj]
    by_cases hr : s.slotReady j = true
    · simp only [hr, if_true, Option.some.injEq]
      constructor
      · rintro rfl
        exact ⟨rfl, hr⟩
      · exact fun h => h.1
    · rw [if_neg hr]
      constructor
      · exact nofun
      · rintro ⟨h, h'⟩
        obtain rfl : j = i := by simpa using h
        exact absurd h' hr
  · rename_i hne
    constructor
    · exact nofun
    · rintro ⟨h, -⟩
      exact absurd h (hne i)

lemma any_slots {p : ℕ → Bool} : (s.slots.any fun slot => slot.any p) = true ↔ ∃ i, s.Registered i ∧ p i = true := by
  simp only [List.any_eq_true, Option.any_eq_true]
  constructor
  · rintro ⟨slot, hm, i, rfl, hp⟩
    obtain ⟨index, hi⟩ := List.mem_iff_getElem?.mp hm
    exact ⟨i, ⟨index, hi⟩, hp⟩
  · rintro ⟨i, ⟨index, hi⟩, hp⟩
    exact ⟨some i, List.mem_iff_getElem?.mpr ⟨index, hi⟩, i, rfl, hp⟩

lemma noneReady_of_any (h : (s.slots.any fun slot => slot.any s.slotReady) = false) : s.NoneReady := by
  intro i hi
  by_contra hr
  rw [Bool.not_eq_false] at hr
  rw [any_slots.mpr ⟨i, hi, hr⟩] at h
  cases h

lemma Inv.congr (hi : s.Inv capacity) (hheap : s'.heap = s.heap) (hslots : s'.slots = s.slots)
    (hnext : s'.next = s.next) (hlog : s'.log = s.log) : s'.Inv capacity := by
  obtain ⟨heap, slots, next, interrupted, closed, waiting, log⟩ := s
  obtain ⟨heap', slots', next', interrupted', closed', waiting', log'⟩ := s'
  obtain rfl : heap' = heap := hheap
  obtain rfl : slots' = slots := hslots
  obtain rfl : next' = next := hnext
  obtain rfl : log' = log := hlog
  exact ⟨hi.length, hi.next_lt, hi.live, hi.listed, hi.distinct, hi.origin, hi.pending, hi.fair, hi.cause,
    hi.served⟩

lemma Inv.fair_cons {e : Entry} (hi : s.Inv capacity) {next : ℕ} {At' : ℕ → ℕ → Prop} {Ready' : ℕ → Prop}
    (hp : ∀ front i rest, e :: s.log = front ++ .signalled i :: rest → Unserved i front →
      ∃ index, At' index i ∧ Ready' i ∧ deliveries front + ahead capacity next index < capacity)
    {front mid rest : List Entry} (hlog : e :: s.log = front ++ (mid ++ .signalled i :: rest))
    (hu : Unserved i mid) : deliveries mid < capacity := by
  cases front with
  | nil =>
    obtain ⟨index, -, -, hlt⟩ := hp mid i rest hlog hu
    omega
  | cons e' front =>
    exact hi.fair front mid i rest (List.cons.inj hlog).2 hu

end Basics

section Operations

variable {capacity : ℕ} {s : NotifierState}

lemma inv_create (hc : 0 < capacity) : (create capacity).Inv capacity := by
  have hnone : ∀ index i, ¬ (create capacity).At index i := by
    intro index i h
    simp only [At, create, List.getElem?_replicate] at h
    split at h <;> cases h
  refine ⟨List.length_replicate, hc, ?_, ?_, ?_, ?_, ?_, ?_, ?_, ?_⟩
  · exact fun index i h => absurd h (hnone index i)
  · exact fun i hi => absurd hi (Nat.not_lt_zero i)
  · exact fun index _ i _ h => absurd h (hnone index i)
  · exact fun index i h => absurd h (hnone index i)
  · intro front i rest h
    simp [create] at h
  · intro front mid i rest h
    simp [create] at h
  · exact fun index i h => absurd h (hnone index i)
  · intro front i key rest h
    simp [create] at h

lemma Inv.touch {s' : NotifierState} {e : Entry} (hi : s.Inv capacity) (hslots : s'.slots = s.slots)
    (hcount : s'.heap.count = s.heap.count) (hkey : ∀ j, s'.slotKey j = s.slotKey j)
    (hreg : ∀ j, (s'.heap.row j).registered = (s.heap.row j).registered) (hlog : s'.log = e :: s.log)
    (hnext : s'.next < capacity)
    (hpending : ∀ front j rest, e :: s.log = front ++ .signalled j :: rest → Unserved j front →
      ∃ index, s.At index j ∧ s'.slotReady j = true ∧ deliveries front + ahead capacity s'.next index < capacity)
    (hcause : ∀ index j, s.At index j → s'.slotReady j = true → ∃ mid earlier,
      e :: s.log = mid ++ .signalled j :: earlier ∧ (∀ k, .delivered k (s.slotKey j) ∉ mid) ∧
        .added j (s.slotKey j) ∈ earlier)
    (hserved : ∀ i key, e = .delivered i key → ∃ mid earlier,
      s.log = mid ++ .signalled i :: earlier ∧ (∀ j, .delivered j key ∉ mid) ∧ .added i key ∈ earlier) :
    s'.Inv capacity := by
  have hat : ∀ index j, s'.At index j ↔ s.At index j := by
    intro index j
    rw [At, At, hslots]
  refine ⟨hslots ▸ hi.length, hnext, ?_, ?_, ?_, ?_, ?_, ?_, ?_, ?_⟩
  · intro index j h
    rw [hcount, hreg, hkey]
    exact hi.live index j ((hat index j).mp h)
  · intro j hj hr
    obtain ⟨index, h⟩ := hi.listed j (hcount ▸ hj) ((hreg j).symm.trans hr)
    exact ⟨index, (hat index j).mpr h⟩
  · intro index index' j j' h h' hk
    rw [hkey, hkey] at hk
    exact hi.distinct index index' j j' ((hat index j).mp h) ((hat index' j').mp h') hk
  · intro index j h
    rw [hlog, hkey]
    exact List.mem_cons_of_mem _ (hi.origin index j ((hat index j).mp h))
  · intro front j rest h hu
    rw [hlog] at h
    obtain ⟨index, hj, hrest⟩ := hpending front j rest h hu
    exact ⟨index, (hat index j).mpr hj, hrest⟩
  · intro front mid j rest h hu
    rw [hlog] at h
    exact hi.fair_cons hpending h hu
  · intro index j h hr
    rw [hlog, hkey]
    exact hcause index j ((hat index j).mp h) hr
  · intro front i key rest h
    rw [hlog] at h
    cases front with
    | nil =>
      obtain ⟨heq, rfl⟩ := List.cons.inj h
      exact hserved i key heq
    | cons e' front => exact hi.served front i key rest (List.cons.inj h).2

lemma Inv.signal {i : ℕ} (hi : s.Inv capacity) (hlt : i < s.heap.count) : (s.signal i).Inv capacity := by
  rw [NotifierState.signal]
  split
  · exact hi
  rename_i hn
  simp only [Bool.or_eq_true, Bool.not_eq_true', not_or, Bool.not_eq_true, Bool.not_eq_false] at hn
  obtain ⟨index₀, hat₀⟩ := hi.listed i hlt hn.1
  have hready : ∀ j, j ≠ i → ((s.heap.set i { s.heap.row i with ready := true }).row j).ready = s.slotReady j := by
    intro j hj
    rw [Table.set_row_ne _ _ hj, slotReady]
  refine hi.touch (e := .signalled i) rfl rfl (fun j => ?_) (fun j => ?_) rfl hi.next_lt ?_ ?_ nofun
  · simp only [slotKey, Table.set_row]
    split <;> simp_all
  · simp only [Table.set_row]
    split <;> simp_all
  · intro front j rest hlog hu
    cases front with
    | nil =>
      obtain ⟨hj, -⟩ := List.cons.inj hlog
      obtain rfl := Entry.signalled.inj hj
      have hahead := @ahead_lt _ s.next (Nat.zero_lt_of_lt hi.next_lt) index₀
      exact ⟨index₀, hat₀, by rw [slotReady, Table.set_row_self], by simpa [deliveries] using hahead⟩
    | cons e front =>
      obtain ⟨rfl, hrest⟩ := List.cons.inj hlog
      obtain ⟨index, hat, hr, hle⟩ := hi.pending front j rest hrest hu.tail
      refine ⟨index, hat, ?_, by simpa [deliveries, Entry.isDelivery] using hle⟩
      by_cases hj : j = i
      · subst hj
        rw [slotReady, Table.set_row_self]
      · exact (hready j hj).trans hr
  · intro index j hat hr
    by_cases hj : j = i
    · subst hj
      exact ⟨[], s.log, rfl, by simp, hi.origin index j hat⟩
    · obtain ⟨mid, earlier, hlog, hmid, hadded⟩ := hi.cause index j hat ((hready j hj).symm.trans hr)
      exact ⟨.signalled i :: mid, earlier, by simp [hlog], by simpa using hmid, hadded⟩

def place (s : NotifierState) (index : ℕ) (key : UInt64) : NotifierState :=
  { s with
    heap := s.heap.push { key := key }
    slots := s.slots.set index (some s.heap.count)
    log := .added s.heap.count key :: s.log }

lemma Inv.place {index₀ : ℕ} {key : UInt64} (hi : s.Inv capacity) (hkey : key ≠ 0)
    (hfresh : ∀ i, s.Registered i → s.slotKey i ≠ key) (hlt₀ : index₀ < s.slots.length)
    (hnone : s.slots[index₀] = none) : (s.place index₀ key).Inv capacity := by
  have hat : ∀ index i, (s.place index₀ key).At index i ↔
      index = index₀ ∧ i = s.heap.count ∨ index ≠ index₀ ∧ s.At index i := by
    intro index i
    rw [At, NotifierState.place, List.getElem?_set]
    by_cases h : index₀ = index
    · subst h
      simp [hlt₀, eq_comm]
    · simp [h, Ne.symm h, At]
  have hbelow : ∀ index i, s.At index i → i < s.heap.count := fun index i h => (hi.live index i h).1
  have hrow : ∀ i < s.heap.count, (s.place index₀ key).heap.row i = s.heap.row i := by
    intro i hlt
    rw [NotifierState.place, Table.push_row, if_neg (by omega)]
  have hslotKey : ∀ i < s.heap.count, (s.place index₀ key).slotKey i = s.slotKey i := by
    intro i hlt
    rw [slotKey, slotKey, hrow i hlt]
  have hnew : (s.place index₀ key).heap.row s.heap.count = { key := key } := by
    rw [NotifierState.place, Table.push_row, if_pos rfl]
  have hnewKey : (s.place index₀ key).slotKey s.heap.count = key := by rw [slotKey, hnew]
  have hkeep : ∀ index i, s.At index i → (s.place index₀ key).At index i := by
    intro index i h
    refine (hat index i).mpr (.inr ⟨?_, h⟩)
    rintro rfl
    rw [At, List.getElem?_eq_getElem hlt₀, hnone] at h
    cases h
  have hpending : ∀ front i rest, .added s.heap.count key :: s.log = front ++ .signalled i :: rest →
      Unserved i front → ∃ index, (s.place index₀ key).At index i ∧ (s.place index₀ key).slotReady i = true ∧
        deliveries front + ahead capacity s.next index < capacity := by
    intro front i rest hlog hu
    cases front with
    | nil => cases (List.cons.inj hlog).1
    | cons e front =>
      obtain ⟨rfl, hrest⟩ := List.cons.inj hlog
      obtain ⟨index, h, hr, hle⟩ := hi.pending front i rest hrest hu.tail
      refine ⟨index, hkeep index i h, ?_, by simpa [deliveries, Entry.isDelivery] using hle⟩
      rw [slotReady, hrow i (hbelow index i h)]
      exact hr
  refine ⟨?_, hi.next_lt, ?_, ?_, ?_, ?_, hpending, ?_, ?_, ?_⟩
  · rw [NotifierState.place, List.length_set]
    exact hi.length
  · intro index i h
    rcases (hat index i).mp h with ⟨rfl, rfl⟩ | ⟨-, h⟩
    · rw [hnew, hnewKey]
      exact ⟨Nat.lt_succ_self _, rfl, hkey⟩
    · obtain ⟨hlt, hr, hk⟩ := hi.live index i h
      rw [hrow i hlt, hslotKey i hlt]
      exact ⟨Nat.lt_succ_of_lt hlt, hr, hk⟩
  · intro i hlt hr
    rcases Nat.lt_succ_iff_lt_or_eq.mp hlt with hlt | rfl
    · rw [hrow i hlt] at hr
      obtain ⟨index, h⟩ := hi.listed i hlt hr
      exact ⟨index, hkeep index i h⟩
    · exact ⟨index₀, (hat _ _).mpr (.inl ⟨rfl, rfl⟩)⟩
  · intro index index' i i' h h' hk
    rcases (hat index i).mp h with ⟨hindex, rfl⟩ | ⟨-, hold⟩ <;>
      rcases (hat index' i').mp h' with ⟨hindex', rfl⟩ | ⟨-, hold'⟩
    · rw [hindex, hindex']
    · rw [hnewKey, hslotKey i' (hbelow _ _ hold')] at hk
      exact absurd hk.symm (hfresh i' ⟨index', hold'⟩)
    · rw [hnewKey, hslotKey i (hbelow _ _ hold)] at hk
      exact absurd hk (hfresh i ⟨index, hold⟩)
    · rw [hslotKey i (hbelow _ _ hold), hslotKey i' (hbelow _ _ hold')] at hk
      exact hi.distinct index index' i i' hold hold' hk
  · intro index i h
    rcases (hat index i).mp h with ⟨rfl, rfl⟩ | ⟨-, h⟩
    · rw [hnewKey]
      exact List.mem_cons_self
    · rw [hslotKey i (hbelow _ _ h)]
      exact List.mem_cons_of_mem _ (hi.origin index i h)
  · intro front mid i rest hlog hu
    exact hi.fair_cons hpending hlog hu
  · intro index i h hr
    rcases (hat index i).mp h with ⟨rfl, rfl⟩ | ⟨-, h⟩
    · rw [slotReady, hnew] at hr
      cases hr
    · rw [slotReady, hrow i (hbelow _ _ h)] at hr
      obtain ⟨mid, earlier, hlog, hmid, hadded⟩ := hi.cause index i h hr
      rw [hslotKey i (hbelow _ _ h)]
      exact ⟨.added s.heap.count key :: mid, earlier, by simp [NotifierState.place, hlog], by simpa using hmid,
        hadded⟩
  · intro front i key rest hlog
    cases front with
    | nil => cases (List.cons.inj hlog).1
    | cons e front => exact hi.served front i key rest (List.cons.inj hlog).2

lemma Inv.add {key : UInt64} (hi : s.Inv capacity) : (s.add key).2.Inv capacity := by
  rw [NotifierState.add]
  split
  · exact hi
  rename_i hkey
  split
  · exact hi
  split
  · exact hi
  rename_i hexists
  have hfresh : ∀ i, s.Registered i → s.slotKey i ≠ key := by
    intro i hr heq
    apply hexists
    exact any_slots.mpr ⟨i, hr, by simpa using heq⟩
  split
  swap
  · exact hi
  rename_i index₀ hfind
  obtain ⟨hlt₀, hnone, -⟩ := List.findIdx?_eq_some_iff_getElem.mp hfind
  exact hi.place hkey hfresh hlt₀ (Option.isNone_iff_eq_none.mp hnone)

lemma Inv.reset {i : ℕ} (hi : s.Inv capacity) : (s.reset i).Inv capacity := by
  have hat : ∀ index j, (s.reset i).At index j ↔ s.At index j ∧ j ≠ i := by
    intro index j
    simp only [At, NotifierState.reset]
    split
    · rename_i index₀ hfind
      obtain ⟨hlt₀, hfound, -⟩ := List.findIdx?_eq_some_iff_getElem.mp hfind
      have hat₀ : s.At index₀ i := by
        rw [At, List.getElem?_eq_getElem hlt₀]
        simpa using hfound
      rw [List.getElem?_set]
      by_cases h : index₀ = index
      · subst h
        simp only [hlt₀, if_true]
        constructor
        · exact nofun
        · rintro ⟨hj, hne⟩
          exact absurd (Option.some.inj (Option.some.inj (hj.symm.trans hat₀))) hne
      · rw [if_neg h]
        constructor
        · intro hj
          refine ⟨hj, ?_⟩
          rintro rfl
          exact h (hi.distinct index₀ index j j hat₀ hj rfl)
        · exact And.left
    · rename_i hfind
      rw [List.findIdx?_eq_none_iff] at hfind
      constructor
      · intro hj
        refine ⟨hj, ?_⟩
        rintro rfl
        have := hfind (some j) (List.mem_of_getElem? hj)
        simp at this
      · exact And.left
  have hrow : ∀ j, j ≠ i → (s.reset i).heap.row j = s.heap.row j := fun j hj => Table.set_row_ne _ _ hj
  have hkey : ∀ j, j ≠ i → (s.reset i).slotKey j = s.slotKey j := by
    intro j hj
    rw [slotKey, slotKey, hrow j hj]
  have hpending : ∀ front j rest, .reset i :: s.log = front ++ .signalled j :: rest → Unserved j front →
      ∃ index, (s.reset i).At index j ∧ (s.reset i).slotReady j = true ∧
        deliveries front + ahead capacity s.next index < capacity := by
    intro front j rest hlog hu
    cases front with
    | nil => cases (List.cons.inj hlog).1
    | cons e front =>
      obtain ⟨rfl, hrest⟩ := List.cons.inj hlog
      obtain ⟨index, h, hr, hle⟩ := hi.pending front j rest hrest hu.tail
      have hne : j ≠ i := by
        rintro rfl
        exact hu.2 List.mem_cons_self
      refine ⟨index, (hat index j).mpr ⟨h, hne⟩, ?_, by simpa [deliveries, Entry.isDelivery] using hle⟩
      rw [slotReady, hrow j hne]
      exact hr
  refine ⟨?_, hi.next_lt, ?_, ?_, ?_, ?_, hpending, ?_, ?_, ?_⟩
  · rw [NotifierState.reset]
    dsimp only
    split
    · rw [List.length_set]
      exact hi.length
    · exact hi.length
  · intro index j h
    obtain ⟨h, hne⟩ := (hat index j).mp h
    rw [hrow j hne, hkey j hne]
    exact hi.live index j h
  · intro j hlt hr
    have hne : j ≠ i := by
      rintro rfl
      simp [NotifierState.reset] at hr
    rw [hrow j hne] at hr
    obtain ⟨index, h⟩ := hi.listed j hlt hr
    exact ⟨index, (hat index j).mpr ⟨h, hne⟩⟩
  · intro index index' j j' h h' hk
    obtain ⟨h, hne⟩ := (hat index j).mp h
    obtain ⟨h', hne'⟩ := (hat index' j').mp h'
    rw [hkey j hne, hkey j' hne'] at hk
    exact hi.distinct index index' j j' h h' hk
  · intro index j h
    obtain ⟨h, hne⟩ := (hat index j).mp h
    rw [hkey j hne]
    exact List.mem_cons_of_mem _ (hi.origin index j h)
  · intro front mid j rest hlog hu
    exact hi.fair_cons hpending hlog hu
  · intro index j h hr
    obtain ⟨h, hne⟩ := (hat index j).mp h
    rw [slotReady, hrow j hne] at hr
    obtain ⟨mid, earlier, hlog, hmid, hadded⟩ := hi.cause index j h hr
    rw [hkey j hne]
    exact ⟨.reset i :: mid, earlier, by simp [NotifierState.reset, hlog], by simpa using hmid, hadded⟩
  · intro front j key rest hlog
    cases front with
    | nil => cases (List.cons.inj hlog).1
    | cons e front => exact hi.served front j key rest (List.cons.inj hlog).2

lemma Inv.deliver (hi : s.Inv capacity) : s.deliver.2.Inv capacity := by
  rw [NotifierState.deliver]
  split
  · exact hi
  split
  swap
  · exact hi.congr rfl rfl rfl rfl
  rename_i index₀ i hfirst
  have hnext : s.next < s.slots.length := hi.length ▸ hi.next_lt
  obtain ⟨hlt₀, hat₀, hnearest⟩ := firstFrom_eq_some hnext hfirst
  obtain ⟨hat₀, hready₀⟩ := readyAt_eq_some.mp hat₀
  rw [hi.length] at hlt₀ hnearest
  have hready : ∀ j, j ≠ i → ((s.heap.set i { s.heap.row i with ready := false }).row j).ready = s.slotReady j := by
    intro j hj
    rw [Table.set_row_ne _ _ hj, slotReady]
  have hindex : ∀ index j, s.At index j → j ≠ i → index ≠ index₀ := by
    rintro index j h hne rfl
    exact hne (Option.some.inj (Option.some.inj (h.symm.trans hat₀)))
  refine hi.touch (e := .delivered i (s.slotKey i)) rfl rfl (fun j => ?_) (fun j => ?_) rfl ?_ ?_ ?_ ?_
  · simp only [slotKey, Table.set_row]
    split <;> simp_all
  · simp only [Table.set_row]
    split <;> simp_all
  · dsimp only
    rw [hi.length]
    exact Nat.mod_lt _ (Nat.zero_lt_of_lt hi.next_lt)
  · intro front j rest hlog hu
    cases front with
    | nil => cases (List.cons.inj hlog).1
    | cons e front =>
      obtain ⟨rfl, hrest⟩ := List.cons.inj hlog
      obtain ⟨index, h, hr, hle⟩ := hi.pending front j rest hrest hu.tail
      have hne : j ≠ i := by
        rintro rfl
        exact hu.1 _ List.mem_cons_self
      have hlt : index < capacity := hi.length ▸ h.lt
      have hpast := ahead_next hi.next_lt hlt hlt₀ (hindex index j h hne)
        (hnearest index hlt (by rw [readyAt_eq_some.mpr ⟨h, hr⟩]; rfl))
      refine ⟨index, h, (hready j hne).trans hr, ?_⟩
      dsimp only
      rw [deliveries_delivered, hi.length]
      omega
  · intro index j hat hr
    have hne : j ≠ i := by
      rintro rfl
      simp [slotReady] at hr
    obtain ⟨mid, earlier, hlog, hmid, hadded⟩ := hi.cause index j hat ((hready j hne).symm.trans hr)
    refine ⟨.delivered i (s.slotKey i) :: mid, earlier, by simp [hlog], fun j' hm => ?_, hadded⟩
    rcases List.mem_cons.mp hm with heq | hm
    · have hsame := hi.distinct index index₀ j i hat hat₀ (Entry.delivered.inj heq).2
      exact hindex index j hat hne hsame
    · exact hmid j' hm
  · intro j key heq
    obtain ⟨rfl, rfl⟩ := Entry.delivered.inj heq
    exact hi.cause index₀ i hat₀ hready₀

lemma Inv.step {s' : NotifierState} {e : Event} (hi : s.Inv capacity) (h : s.step e = some s') : s'.Inv capacity := by
  obtain ⟨⟨answer, s''⟩, hturn, rfl⟩ := Option.map_eq_some_iff.mp h
  have hwaiting : ∀ (r : NotifierState) t timeout, r.Inv capacity → (r.setWaiting t timeout).Inv capacity :=
    fun r t timeout hr => hr.congr rfl rfl rfl rfl
  cases e with
  | add key =>
    obtain ⟨-, rfl⟩ := of_some_pair hturn
    exact hi.add
  | signal i =>
    rw [turn] at hturn
    split at hturn
    · obtain ⟨-, rfl⟩ := of_some_pair hturn
      exact hi.signal ‹_›
    · cases hturn
  | reset i =>
    rw [turn] at hturn
    split at hturn
    · obtain ⟨-, rfl⟩ := of_some_pair hturn
      exact hi.reset
    · cases hturn
  | interrupt close =>
    obtain ⟨-, rfl⟩ := of_some_pair hturn
    exact hi.congr rfl rfl rfl rfl
  | next t timeout =>
    rw [turn] at hturn
    split at hturn
    · cases hturn
    split at hturn
    · obtain ⟨-, rfl⟩ := of_some_pair hturn
      exact hi.deliver
    split at hturn
    · obtain ⟨-, rfl⟩ := of_some_pair hturn
      exact hi
    · obtain ⟨-, rfl⟩ := of_some_pair hturn
      exact hwaiting _ _ _ hi
  | wake t =>
    rw [turn] at hturn
    split at hturn
    · cases hturn
    split at hturn
    · obtain ⟨-, rfl⟩ := of_some_pair hturn
      exact hwaiting _ _ _ hi.deliver
    · obtain ⟨-, rfl⟩ := of_some_pair hturn
      exact hi
  | expire t =>
    rw [turn] at hturn
    split at hturn
    · cases hturn
    split at hturn
    · cases hturn
    split at hturn
    · obtain ⟨-, rfl⟩ := of_some_pair hturn
      exact hwaiting _ _ _ hi.deliver
    · obtain ⟨-, rfl⟩ := of_some_pair hturn
      exact hwaiting _ _ _ hi

lemma inv_of_reachable (hc : 0 < capacity) (h : Reachable NotifierState.step (· = create capacity) s) :
    s.Inv capacity := by
  apply h.invariant
  · rintro _ rfl
    exact inv_create hc
  · intro t e t' ht hstep
    exact ht.step hstep

end Operations

section Answers

variable {capacity : ℕ} {s s' : NotifierState} {code : ErrorCode} {key : UInt64}

/-- What the end of a call of `Next` says about the mailbox. -/
structure Told (s : NotifierState) (code : ErrorCode) (key : UInt64) (s' : NotifierState) : Prop where
  none : code = .wouldBlock ∨ code = .timeout → s.NoneReady
  closed : s.closed = true → code = .closed
  delivered : code = .ok → ∃ i, s'.log = .delivered i key :: s.log
  kept : code ≠ .ok → key = 0 ∧ s'.log = s.log
  cleared : s.interrupted = true → s'.interrupted = false → code = .wouldBlock
  closes : s'.closed = s.closed

lemma not_ready (h : ¬ s.ready = true) : s.NoneReady ∧ s.closed = false ∧ s.interrupted = false := by
  simp only [ready, Bool.or_eq_true, not_or, Bool.not_eq_true] at h
  exact ⟨noneReady_of_any h.2, h.1.1, h.1.2⟩

lemma deliver_told (hi : s.Inv capacity) (h : s.deliver = (.next code key, s')) : s.Told code key s' := by
  rw [deliver] at h
  split at h
  · rename_i hclosed
    obtain ⟨hanswer, rfl⟩ := Prod.mk.inj h
    obtain ⟨rfl, rfl⟩ := Answer.next.inj hanswer
    exact ⟨by simp, fun _ => rfl, nofun, fun _ => ⟨rfl, rfl⟩, by simp_all, rfl⟩
  rename_i hclosed
  split at h
  · rename_i index i hfirst
    obtain ⟨hanswer, rfl⟩ := Prod.mk.inj h
    obtain ⟨rfl, rfl⟩ := Answer.next.inj hanswer
    exact ⟨by simp, fun hc => absurd hc hclosed, fun _ => ⟨i, rfl⟩, fun hne => absurd rfl hne, by simp_all, rfl⟩
  · rename_i hfirst
    obtain ⟨hanswer, rfl⟩ := Prod.mk.inj h
    obtain ⟨rfl, rfl⟩ := Answer.next.inj hanswer
    refine ⟨fun _ => ?_, fun hc => absurd hc hclosed, nofun, fun _ => ⟨rfl, rfl⟩, fun _ _ => rfl, rfl⟩
    rw [firstFrom_eq_none (hi.length ▸ hi.next_lt)] at hfirst
    rintro i ⟨index, hat⟩
    by_contra hr
    rw [Bool.not_eq_false] at hr
    have hnone := hfirst index hat.lt
    rw [readyAt_eq_some.mpr ⟨hat, hr⟩] at hnone
    cases hnone

lemma deliver_isNext (s : NotifierState) : ∃ code key s', s.deliver = (.next code key, s') := by
  rw [deliver]
  split
  · exact ⟨_, _, _, rfl⟩
  · split <;> exact ⟨_, _, _, rfl⟩

lemma add_isAdd (s : NotifierState) (key : UInt64) : ∃ code slot s', s.add key = (.add code slot, s') ∧
    s'.closed = s.closed ∧ s'.interrupted = s.interrupted := by
  rw [add]
  split
  · exact ⟨_, _, _, rfl, rfl, rfl⟩
  split
  · exact ⟨_, _, _, rfl, rfl, rfl⟩
  split
  · exact ⟨_, _, _, rfl, rfl, rfl⟩
  split <;> exact ⟨_, _, _, rfl, rfl, rfl⟩

lemma Told.setWaiting (h : s.Told code key s') (t : ℕ) (timeout : Option UInt32) :
    s.Told code key (s'.setWaiting t timeout) := ⟨h.none, h.closed, h.delivered, h.kept, h.cleared, h.closes⟩

lemma turn_told {e : Event} (hi : s.Inv capacity) (h : s.turn e = some (some (.next code key), s')) :
    s.Told code key s' := by
  obtain ⟨code', key', s'', hd⟩ := deliver_isNext s
  cases e with
  | add key₀ =>
    obtain ⟨code₀, slot, s₀, hadd, -⟩ := add_isAdd s key₀
    rw [turn, hadd] at h
    cases h
  | signal i =>
    rw [turn] at h
    split at h <;> cases h
  | reset i =>
    rw [turn] at h
    split at h <;> cases h
  | interrupt close => cases h
  | next t timeout =>
    rw [turn] at h
    split at h
    · cases h
    split at h
    · rw [hd] at h
      cases h
      exact deliver_told hi hd
    rename_i hready
    obtain ⟨hnone, hclosed, hinterrupted⟩ := not_ready hready
    split at h <;> cases h
    exact ⟨fun _ => hnone, by simp [hclosed], nofun, fun _ => ⟨rfl, rfl⟩, by simp [hinterrupted], rfl⟩
  | wake t =>
    rw [turn] at h
    split at h
    · cases h
    split at h
    · rw [hd] at h
      cases h
      exact (deliver_told hi hd).setWaiting t none
    · cases h
  | expire t =>
    rw [turn] at h
    split at h
    · cases h
    split at h
    · cases h
    split at h
    · rw [hd] at h
      cases h
      exact (deliver_told hi hd).setWaiting t none
    rename_i hready
    obtain ⟨hnone, hclosed, hinterrupted⟩ := not_ready hready
    cases h
    exact ⟨fun _ => hnone, by simp [hclosed], nofun, fun _ => ⟨rfl, rfl⟩, by simp [hinterrupted], rfl⟩

lemma turn_quiet {e : Event} {answer : Option Answer} (h : s.turn e = some (answer, s'))
    (hanswer : ∀ code key, answer ≠ some (.next code key)) :
    (s.interrupted = true → s'.interrupted = true) ∧ (s.closed = true → s'.closed = true) := by
  obtain ⟨code', key', s'', hd⟩ := deliver_isNext s
  cases e with
  | add key₀ =>
    obtain ⟨code₀, slot, s₀, hadd, hclosed, hinterrupted⟩ := add_isAdd s key₀
    rw [turn, hadd] at h
    cases h
    exact ⟨hinterrupted.trans, hclosed.trans⟩
  | signal i =>
    rw [turn] at h
    split at h <;> cases h
    rw [signal]
    split <;> exact ⟨id, id⟩
  | reset i =>
    rw [turn] at h
    split at h <;> cases h
    exact ⟨id, id⟩
  | interrupt close =>
    cases h
    exact ⟨fun _ => rfl, fun hc => by simp [interrupt, hc]⟩
  | next t timeout =>
    rw [turn] at h
    split at h
    · cases h
    split at h
    · rw [hd] at h
      cases h
      exact absurd rfl (hanswer _ _)
    split at h <;> cases h
    · exact ⟨id, id⟩
    · exact ⟨id, id⟩
  | wake t =>
    rw [turn] at h
    split at h
    · cases h
    split at h
    · rw [hd] at h
      cases h
      exact absurd rfl (hanswer _ _)
    · cases h
      exact ⟨id, id⟩
  | expire t =>
    rw [turn] at h
    split at h
    · cases h
    split at h
    · cases h
    split at h
    · rw [hd] at h
      cases h
      exact absurd rfl (hanswer _ _)
    · cases h
      exact absurd rfl (hanswer _ _)

lemma Inv.keys (hi : s.Inv capacity) : s.keys.Nodup ∧ (∀ k ∈ s.keys, k ≠ 0) ∧ s.keys.length ≤ capacity := by
  refine ⟨?_, fun k hk => ?_, ?_⟩
  · rw [List.Nodup, NotifierState.keys, List.pairwise_filterMap, List.pairwise_iff_getElem]
    intro index index' hlt hlt' hless k hk k' hk' heq
    obtain ⟨i, hat, rfl⟩ := Option.map_eq_some_iff.mp hk
    obtain ⟨i', hat', rfl⟩ := Option.map_eq_some_iff.mp hk'
    have hsame := hi.distinct index index' i i' (by rw [At, List.getElem?_eq_getElem hlt, hat])
      (by rw [At, List.getElem?_eq_getElem hlt', hat']) heq
    omega
  · obtain ⟨slot, hm, hk⟩ := List.mem_filterMap.mp hk
    obtain ⟨i, rfl, rfl⟩ := Option.map_eq_some_iff.mp hk
    obtain ⟨index, hat⟩ := List.mem_iff_getElem?.mp hm
    exact (hi.live index i hat).2.2
  · rw [← hi.length]
    exact List.length_filterMap_le _ _

end Answers

end NotifierState

end ServerCore.CDetail
