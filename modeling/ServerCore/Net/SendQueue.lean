import ServerCore.Core.Bytes
import ServerCore.Core.Status

/-! `SendQueue`: owned payloads in the order of their sends, of which the front one may be partly sent. -/

namespace ServerCore.Net

open ServerCore.Core

structure SendQueue where
  payloads : List Bytes := []
  offset : ℕ := 0
  queuedBytes : ℕ := 0
  retainedBytes : ℕ := 0
  deriving DecidableEq, Repr

namespace SendQueue

-- `reserved` is the answer of the shared budget, `allocated` that of the allocator.
def enqueue (q : SendQueue) (connectionLimit : ℕ) (bytes : Bytes) (reserved allocated : Bool) : Except Status SendQueue :=
  if bytes = [] then .ok q
  else if q.retainedBytes > connectionLimit ∨ bytes.length > connectionLimit - q.retainedBytes then
    .error (.failWithoutMessage .wouldBlock)
  else if !reserved then .error (.failWithoutMessage .wouldBlock)
  else if !allocated then .error (.failWithoutMessage .platformError)
  else
    .ok { q with
      payloads := q.payloads ++ [bytes]
      queuedBytes := q.queuedBytes + bytes.length
      retainedBytes := q.retainedBytes + bytes.length }

def empty (q : SendQueue) : Bool := q.payloads.isEmpty

def front (q : SendQueue) : Bytes :=
  match q.payloads with
  | [] => []
  | payload :: _ => payload.drop q.offset

def consume (q : SendQueue) (count : ℕ) : SendQueue :=
  match q.payloads with
  | [] => q
  | payload :: rest =>
    if q.offset + count = payload.length then
      ⟨rest, 0, q.queuedBytes - count, q.retainedBytes - payload.length⟩
    else { q with offset := q.offset + count, queuedBytes := q.queuedBytes - count }

def clear (_ : SendQueue) : SendQueue := {}

def unsent (q : SendQueue) : Bytes := q.payloads.flatten.drop q.offset

structure Ok (q : SendQueue) : Prop where
  nonempty : ∀ payload ∈ q.payloads, payload ≠ []
  offset : (q.payloads = [] → q.offset = 0) ∧ ∀ payload rest, q.payloads = payload :: rest → q.offset < payload.length
  retained : q.retainedBytes = q.payloads.flatten.length
  queued : q.queuedBytes = q.unsent.length

variable {q : SendQueue}

lemma Ok.nil : Ok {} where
  nonempty _ h := absurd h List.not_mem_nil
  offset := ⟨fun _ => rfl, fun _ _ h => by cases h⟩
  retained := rfl
  queued := rfl

lemma Ok.offset_le (h : q.Ok) : q.offset ≤ q.payloads.flatten.length := by
  cases hp : q.payloads with
  | nil => exact (h.offset.1 hp).le
  | cons payload rest =>
    rw [List.flatten_cons, List.length_append]
    exact (h.offset.2 payload rest hp).le.trans (Nat.le_add_right _ _)

lemma Ok.empty_iff (h : q.Ok) : q.empty = true ↔ q.unsent = [] := by
  constructor
  · intro he
    rw [unsent, List.isEmpty_iff.mp he]
    exact List.drop_nil
  · intro hu
    cases hp : q.payloads with
    | nil => exact List.isEmpty_iff.mpr hp
    | cons payload rest =>
      rw [unsent, hp, List.drop_eq_nil_iff, List.flatten_cons, List.length_append] at hu
      have := h.offset.2 payload rest hp
      omega

lemma enqueue_unsent {connectionLimit : ℕ} {bytes : Bytes} {reserved allocated : Bool} {q' : SendQueue} (h : q.Ok)
    (he : q.enqueue connectionLimit bytes reserved allocated = .ok q') : q'.Ok ∧ q'.unsent = q.unsent ++ bytes := by
  unfold enqueue at he
  repeat' split at he
  · obtain rfl := Except.ok.inj he
    rename_i hb
    rw [hb, List.append_nil]
    exact ⟨h, rfl⟩
  · cases he
  · cases he
  · cases he
  · obtain rfl := Except.ok.inj he
    rename_i hb _ _ _
    have hunsent : unsent { q with
        payloads := q.payloads ++ [bytes]
        queuedBytes := q.queuedBytes + bytes.length
        retainedBytes := q.retainedBytes + bytes.length } = q.unsent ++ bytes := by
      rw [unsent, List.flatten_append, List.drop_append_of_le_length h.offset_le, List.flatten_singleton]
      rfl
    refine ⟨⟨?_, ⟨?_, ?_⟩, ?_, ?_⟩, hunsent⟩
    · intro payload hm
      rcases List.mem_append.mp hm with hm | hm
      · exact h.nonempty payload hm
      · rw [List.mem_singleton.mp hm]
        exact hb
    · intro hn
      cases List.append_eq_nil_iff.mp hn |>.2
    · intro payload rest hp
      cases hq : q.payloads with
      | nil =>
        simp only [hq, List.nil_append, List.cons.injEq] at hp
        obtain ⟨rfl, -⟩ := hp
        exact (h.offset.1 hq).trans_lt (List.length_pos_iff.mpr hb)
      | cons first others =>
        simp only [hq, List.cons_append, List.cons.injEq] at hp
        obtain ⟨rfl, -⟩ := hp
        exact h.offset.2 first others hq
    · rw [List.flatten_append, List.length_append, ← h.retained, List.flatten_singleton]
    · rw [hunsent, List.length_append, ← h.queued]

lemma enqueue_front {connectionLimit : ℕ} {bytes : Bytes} {reserved allocated : Bool} {q' : SendQueue}
    (hq : q.empty = false) (he : q.enqueue connectionLimit bytes reserved allocated = .ok q') :
    q'.empty = false ∧ q'.front = q.front := by
  unfold enqueue at he
  repeat' split at he
  · obtain rfl := Except.ok.inj he
    exact ⟨hq, rfl⟩
  · cases he
  · cases he
  · cases he
  · obtain rfl := Except.ok.inj he
    cases hp : q.payloads with
    | nil =>
      rw [empty, hp] at hq
      cases hq
    | cons payload rest =>
      refine ⟨?_, ?_⟩
      · simp [empty, hp]
      · simp [front, hp]

lemma consume_unsent {count : ℕ} (h : q.Ok) (hc : count ≤ q.front.length) :
    (q.consume count).Ok ∧ q.front.take count ++ (q.consume count).unsent = q.unsent := by
  cases hp : q.payloads with
  | nil =>
    simp only [consume, front, hp, List.take_nil, List.nil_append, and_true]
    exact h
  | cons payload rest =>
    have hoff := h.offset.2 payload rest hp
    have hret := h.retained
    have hq := h.queued
    rw [front, hp, List.length_drop] at hc
    rw [hp, List.flatten_cons, List.length_append] at hret
    have hsplit : q.unsent = payload.drop q.offset ++ rest.flatten := by
      rw [unsent, hp, List.flatten_cons, List.drop_append_of_le_length hoff.le]
    rw [hsplit, List.length_append, List.length_drop] at hq
    simp only [consume, front, hp]
    split
    · rename_i hend
      have htake : (payload.drop q.offset).take count = payload.drop q.offset := by
        rw [List.take_of_length_le]
        rw [List.length_drop]
        omega
      refine ⟨⟨fun p hm => h.nonempty p (by rw [hp]; exact List.mem_cons_of_mem _ hm), ⟨fun _ => rfl, ?_⟩, ?_, ?_⟩, ?_⟩
      · intro first others hr
        dsimp only at hr
        exact List.length_pos_iff.mpr (h.nonempty first (by rw [hp, hr]; simp))
      · dsimp only
        omega
      · rw [unsent, List.drop_zero]
        dsimp only
        omega
      · rw [htake, hsplit, unsent, List.drop_zero]
    · rename_i hend
      have hunsent : unsent { q with payloads := payload :: rest, offset := q.offset + count, queuedBytes := q.queuedBytes - count } =
          (payload.drop q.offset).drop count ++ rest.flatten := by
        rw [unsent, List.flatten_cons, List.drop_append_of_le_length (by dsimp only; omega), List.drop_drop]
      refine ⟨⟨?_, ⟨nofun, ?_⟩, ?_, ?_⟩, ?_⟩
      · intro p hm
        exact h.nonempty p (by rw [hp]; exact hm)
      · intro first others hr
        obtain ⟨rfl, rfl⟩ := List.cons.inj hr
        dsimp only
        omega
      · rw [List.flatten_cons, List.length_append]
        exact hret
      · rw [hunsent, List.length_append, List.length_drop, List.length_drop]
        dsimp only
        omega
      · rw [hunsent, ← List.append_assoc, List.take_append_drop, hsplit]

end SendQueue

end ServerCore.Net
