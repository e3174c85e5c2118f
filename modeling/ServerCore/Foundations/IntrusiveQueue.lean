import Mathlib.Data.List.Basic
import Mathlib.Data.List.Nodup

/-! Queues linked through one field of their nodes, with pointers to the first and the last node. Many queues may
share the field. -/

namespace ServerCore.Foundations.IntrusiveQueue

variable {ν : Type*}

/-- The nodes of a list point to one another, and the last of them nowhere. -/
def Linked (next : ν → Option ν) : List ν → Prop
  | [] => True
  | x :: rest => next x = rest.head? ∧ Linked next rest

structure Represents (next : ν → Option ν) (head tail : Option ν) (nodes : List ν) : Prop where
  head_eq : head = nodes.head?
  tail_eq : tail = nodes.getLast?
  linked : Linked next nodes
  nodup : nodes.Nodup

section Lemmas

variable {next next' : ν → Option ν} {head tail : Option ν} {nodes : List ν} {x : ν}

lemma represents_nil : Represents next none none [] := ⟨rfl, rfl, trivial, List.nodup_nil⟩

lemma Linked.congr (h : Linked next nodes) (hnext : ∀ y ∈ nodes, next' y = next y) : Linked next' nodes := by
  induction nodes with
  | nil => trivial
  | cons y nodes ih =>
    refine ⟨?_, ih h.2 fun z hz => hnext z (List.mem_cons_of_mem y hz)⟩
    rw [hnext y List.mem_cons_self]
    exact h.1

lemma Represents.congr (h : Represents next head tail nodes) (hnext : ∀ y ∈ nodes, next' y = next y) :
    Represents next' head tail nodes := ⟨h.head_eq, h.tail_eq, h.linked.congr hnext, h.nodup⟩

lemma Represents.eq_nil_iff (h : Represents next head tail nodes) : nodes = [] ↔ head = none := by
  rw [h.head_eq, List.head?_eq_none_iff]

/-- A queue without a last node is empty. -/
lemma Represents.of_tail_none (h : Represents next head none nodes) : nodes = [] :=
  List.getLast?_eq_none_iff.mp h.tail_eq.symm

lemma Represents.single (hx : next x = none) : Represents next (some x) (some x) [x] :=
  ⟨rfl, rfl, ⟨hx, trivial⟩, List.nodup_singleton x⟩

lemma Linked.append_last {last : ν} (h : Linked next nodes) (hlast : nodes.getLast? = some last)
    (hnodup : nodes.Nodup) (hx : next' x = none) (hnew : next' last = some x)
    (hnext : ∀ y ∈ nodes, y ≠ last → next' y = next y) : Linked next' (nodes ++ [x]) := by
  induction nodes with
  | nil => cases hlast
  | cons y nodes ih =>
    cases nodes with
    | nil =>
      obtain rfl : y = last := by simpa using hlast
      exact ⟨hnew, hx, trivial⟩
    | cons z nodes =>
      rw [List.getLast?_cons_cons] at hlast
      have hy : y ≠ last := by
        rintro rfl
        exact (List.nodup_cons.mp hnodup).1 (List.mem_of_getLast? hlast)
      refine ⟨?_, ih h.2 hlast (List.nodup_cons.mp hnodup).2 fun w hw => hnext w (List.mem_cons_of_mem y hw)⟩
      rw [hnext y List.mem_cons_self hy]
      exact h.1

/-- A free node behind the last one. -/
lemma Represents.push {last : ν} (h : Represents next head (some last) nodes) (hfree : x ∉ nodes)
    (hx : next' x = none) (hnew : next' last = some x) (hnext : ∀ y ∈ nodes, y ≠ last → next' y = next y) :
    Represents next' head (some x) (nodes ++ [x]) := by
  refine ⟨?_, ?_, h.linked.append_last h.tail_eq.symm h.nodup hx hnew hnext, ?_⟩
  · rw [h.head_eq]
    cases nodes with
    | nil => cases h.tail_eq
    | cons y nodes => rfl
  · rw [List.getLast?_append]
    rfl
  · rw [List.nodup_append]
    refine ⟨h.nodup, List.nodup_singleton x, ?_⟩
    rintro y hy z hz rfl
    exact hfree (List.mem_singleton.mp hz ▸ hy)

/-- The first node leaves. -/
lemma Represents.pop (h : Represents next (some x) tail nodes) (hnext : ∀ y ∈ nodes, y ≠ x → next' y = next y) :
    ∃ rest, nodes = x :: rest ∧
      Represents next' (next x) (if next x = none then none else tail) rest := by
  cases nodes with
  | nil => cases h.head_eq
  | cons y rest =>
    obtain rfl : x = y := Option.some.inj h.head_eq
    obtain ⟨hfirst, hrest⟩ := h.linked
    obtain ⟨hout, hnodup⟩ := List.nodup_cons.mp h.nodup
    refine ⟨rest, rfl, hfirst, ?_, hrest.congr fun z hz => ?_, hnodup⟩
    · rw [hfirst, h.tail_eq]
      cases rest with
      | nil => rfl
      | cons z rest =>
        rw [List.head?_cons, if_neg (Option.some_ne_none z), List.getLast?_cons_cons]
    · apply hnext z (List.mem_cons_of_mem x hz)
      rintro rfl
      exact hout hz

end Lemmas

end ServerCore.Foundations.IntrusiveQueue
