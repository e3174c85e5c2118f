import Mathlib.Data.List.Basic
import Mathlib.Data.List.Nodup

/-! Doubly linked lists through the links of their nodes, against the list they stand for. -/

namespace ServerCore.Foundations

structure Links (ν : Type*) where
  head : Option ν
  tail : Option ν
  previous : ν → Option ν
  next : ν → Option ν

namespace Links

variable {ν : Type*}

/-- The links of exactly these nodes, in this order. -/
structure Represents (l : Links ν) (nodes : List ν) : Prop where
  nodup : nodes.Nodup
  head_eq : l.head = nodes.head?
  tail_eq : l.tail = nodes.getLast?
  links : ∀ pre x post, nodes = pre ++ x :: post → l.previous x = pre.getLast? ∧ l.next x = post.head?

section Lists

variable {nodes pre post : List ν}

lemma mem_of_getLast? {y : ν} (h : nodes.getLast? = some y) : y ∈ nodes := List.mem_of_mem_getLast? h

lemma mem_of_head? {y : ν} (h : nodes.head? = some y) : y ∈ nodes := List.mem_of_mem_head? h

-- Where the node of a joined list stands.
lemma append_eq_split {a b : List ν} {y : ν} (h : pre ++ post = a ++ y :: b) :
    (∃ c, pre = a ++ y :: c ∧ b = c ++ post) ∨ ∃ c, a = pre ++ c ∧ post = c ++ y :: b := by
  rcases List.append_eq_append_iff.mp h with ⟨c, ha, hpost⟩ | ⟨c, hpre, hb⟩
  · exact .inr ⟨c, ha, hpost⟩
  · cases c with
    | nil => exact .inr ⟨[], by simpa using hpre.symm, hb.symm⟩
    | cons z c =>
      obtain ⟨rfl, rfl⟩ := List.cons.inj hb
      exact .inl ⟨c, hpre, rfl⟩

lemma Represents.empty {l : Links ν} (hh : l.head = none) (ht : l.tail = none) : l.Represents [] :=
  ⟨List.nodup_nil, hh, ht, fun pre x post h => by simp at h⟩

end Lists

variable [DecidableEq ν]

def setNext (l : Links ν) (x : ν) (y : Option ν) : Links ν := { l with next := Function.update l.next x y }

def setPrevious (l : Links ν) (x : ν) (y : Option ν) : Links ν :=
  { l with previous := Function.update l.previous x y }

-- Append a node, in the order of the assignments of an intrusive list.
def pushBack (l : Links ν) (x : ν) : Links ν :=
  let l' := (l.setPrevious x l.tail).setNext x none
  let l' := match l.tail with
    | some last => l'.setNext last (some x)
    | none => { l' with head := some x }
  { l' with tail := some x }

def unlink (l : Links ν) (x : ν) : Links ν :=
  let l' := match l.previous x with
    | some p => l.setNext p (l.next x)
    | none => { l with head := l.next x }
  let l' := match l'.next x with
    | some n => l'.setPrevious n (l'.previous x)
    | none => { l' with tail := l'.previous x }
  (l'.setPrevious x none).setNext x none

section Lemmas

variable {l : Links ν} {nodes pre post : List ν} {x : ν}

lemma pushBack_previous (l : Links ν) (x : ν) : (l.pushBack x).previous = Function.update l.previous x l.tail := by
  rw [pushBack]
  cases l.tail <;> rfl

lemma pushBack_next (l : Links ν) (x : ν) : (l.pushBack x).next = match l.tail with
    | some last => Function.update (Function.update l.next x none) last (some x)
    | none => Function.update l.next x none := by
  rw [pushBack]
  cases l.tail <;> rfl

lemma Represents.pushBack (h : l.Represents nodes) (hx : x ∉ nodes) : (l.pushBack x).Represents (nodes ++ [x]) := by
  refine ⟨?_, ?_, ?_, ?_⟩
  · rw [List.nodup_append]
    refine ⟨h.nodup, List.nodup_singleton x, fun a ha b hb => ?_⟩
    rw [List.mem_singleton.mp hb]
    rintro rfl
    exact hx ha
  · rw [Links.pushBack, h.tail_eq]
    cases nodes with
    | nil => rfl
    | cons a nodes =>
      rw [List.getLast?_cons]
      exact h.head_eq
  · rw [List.getLast?_append, Links.pushBack]
    rfl
  · intro pre y post heq
    rw [pushBack_previous, pushBack_next]
    rcases append_eq_split heq with ⟨c, hnodes, rfl⟩ | ⟨c, rfl, hc⟩
    · -- an old node: only the last one gets a new successor
      obtain ⟨hprev, hnext⟩ := h.links pre y c hnodes
      have hy : y ≠ x := by
        rintro rfl
        exact hx (by simp [hnodes])
      rw [Function.update_of_ne hy, h.tail_eq]
      refine ⟨hprev, ?_⟩
      have hnd := h.nodup
      rw [hnodes, List.getLast?_append, List.getLast?_cons, Option.some_or]
      simp only
      rcases List.eq_nil_or_concat c with rfl | ⟨c, z, rfl⟩
      · rw [List.getLast?_nil, Option.getD_none, Function.update_self]
        rfl
      · have hz : y ≠ z := by
          rw [hnodes] at hnd
          rintro rfl
          simp [List.nodup_append] at hnd
        simp only [List.concat_eq_append, List.getLast?_append, List.getLast?_singleton, Option.some_or,
          Option.getD_some, Function.update_of_ne hz, Function.update_of_ne hy, hnext]
        cases c <;> rfl
    · -- the new node
      obtain ⟨rfl, hxy⟩ : c = [] ∧ [x] = y :: post := by
        cases c with
        | nil => exact ⟨rfl, hc⟩
        | cons z c => simp at hc
      obtain ⟨rfl, rfl⟩ := List.cons.inj hxy
      refine ⟨by rw [Function.update_self, h.tail_eq, List.append_nil], ?_⟩
      rw [h.tail_eq]
      cases hlast : nodes.getLast? with
      | none => exact Function.update_self ..
      | some last =>
        have hne : x ≠ last := by
          rintro rfl
          exact hx (mem_of_getLast? hlast)
        simp only [Function.update_of_ne hne, Function.update_self]
        rfl

lemma unlink_next (l : Links ν) (x : ν) : (l.unlink x).next = Function.update (match l.previous x with
    | some p => Function.update l.next p (l.next x)
    | none => l.next) x none := by
  rw [unlink]
  cases l.previous x with
  | none =>
    simp only
    cases l.next x <;> rfl
  | some p =>
    simp only
    cases (l.setNext p (l.next x)).next x <;> rfl

lemma unlink_previous (l : Links ν) (x : ν) (h : l.previous x ≠ some x) :
    (l.unlink x).previous = Function.update (match l.next x with
      | some n => Function.update l.previous n (l.previous x)
      | none => l.previous) x none := by
  rw [unlink]
  cases hp : l.previous x with
  | none =>
    simp only
    cases l.next x <;> simp [setNext, setPrevious, hp]
  | some p =>
    have hpx : x ≠ p := by
      rintro rfl
      exact h hp
    simp only [setNext, Function.update_of_ne hpx]
    cases l.next x <;> simp [setPrevious, hp]

lemma unlink_head (l : Links ν) (x : ν) :
    (l.unlink x).head = if l.previous x = none then l.next x else l.head := by
  rw [unlink]
  cases l.previous x with
  | none =>
    simp only
    cases l.next x <;> rfl
  | some p =>
    simp only
    cases (l.setNext p (l.next x)).next x <;> rfl

lemma unlink_tail (l : Links ν) (x : ν) (h : l.previous x ≠ some x) :
    (l.unlink x).tail = if l.next x = none then l.previous x else l.tail := by
  rw [unlink]
  cases hp : l.previous x with
  | none =>
    simp only
    cases l.next x <;> simp [setNext, setPrevious, hp]
  | some p =>
    have hpx : x ≠ p := by
      rintro rfl
      exact h hp
    simp only [setNext, Function.update_of_ne hpx]
    cases l.next x <;> simp [setPrevious, hp]

lemma Represents.unlink (h : l.Represents (pre ++ x :: post)) : (l.unlink x).Represents (pre ++ post) := by
  obtain ⟨hprev, hnext⟩ := h.links pre x post rfl
  have hnd := h.nodup
  rw [List.nodup_append, List.nodup_cons] at hnd
  obtain ⟨hpre, ⟨hxpost, hpost⟩, hdisj⟩ := hnd
  have hxpre : x ∉ pre := fun hx => hdisj x hx x (by simp) rfl
  have hself : l.previous x ≠ some x := by
    rw [hprev]
    exact fun hx => hxpre (mem_of_getLast? hx)
  refine ⟨?_, ?_, ?_, ?_⟩
  · exact List.nodup_append.mpr ⟨hpre, hpost, fun a ha b hb => hdisj a ha b (by simp [hb])⟩
  · rw [unlink_head, hprev, hnext, h.head_eq]
    cases pre <;> simp
  · rw [unlink_tail l x hself, hprev, hnext, h.tail_eq]
    cases post <;> simp [List.getLast?_append, List.getLast?_cons]
  · intro a y b heq
    rw [unlink_previous l x hself, unlink_next, hprev, hnext]
    rcases append_eq_split heq with ⟨c, rfl, rfl⟩ | ⟨c, rfl, rfl⟩
    · -- in front of the node that goes: only its predecessor gets a new successor
      obtain ⟨hp, hn⟩ := h.links a y (c ++ x :: post) (by simp)
      have hyx : y ≠ x := by
        rintro rfl
        exact hxpre (by simp)
      have hypost : ∀ n, post.head? = some n → y ≠ n := by
        rintro n hn' rfl
        exact hdisj y (by simp) y (by simp [mem_of_head? hn']) rfl
      rw [Function.update_of_ne hyx, Function.update_of_ne hyx]
      refine ⟨?_, ?_⟩
      · cases hhead : post.head? with
        | none => exact hp
        | some n => exact (Function.update_of_ne (hypost n hhead) ..).trans hp
      · rw [List.getLast?_append, List.getLast?_cons, Option.some_or]
        simp only
        rcases List.eq_nil_or_concat c with rfl | ⟨c, z, rfl⟩
        · rw [List.getLast?_nil, Option.getD_none, Function.update_self]
          rfl
        · have hz : y ≠ z := by
            rintro rfl
            simp [List.nodup_append] at hpre
          simp only [List.concat_eq_append, List.getLast?_append, List.getLast?_singleton, Option.some_or,
            Option.getD_some, Function.update_of_ne hz, hn]
          cases c <;> rfl
    · -- behind it: only its successor gets a new predecessor
      obtain ⟨hp, hn⟩ := h.links (pre ++ x :: c) y b (by simp)
      have hyx : y ≠ x := by
        rintro rfl
        exact hxpost (by simp)
      have hypre : ∀ p, pre.getLast? = some p → y ≠ p := by
        rintro p hp' rfl
        exact hdisj y (mem_of_getLast? hp') y (by simp) rfl
      rw [Function.update_of_ne hyx, Function.update_of_ne hyx]
      refine ⟨?_, ?_⟩
      · cases c with
        | nil =>
          simp only [List.nil_append, List.head?_cons, Function.update_self, List.append_nil]
        | cons z c =>
          have hz : y ≠ z := by
            rintro rfl
            simp at hpost
          simp only [List.cons_append, List.head?_cons, Function.update_of_ne hz, hp]
          simp [List.getLast?_append, List.getLast?_cons]
      · cases hlast : pre.getLast? with
        | none => exact hn
        | some p => exact (Function.update_of_ne (hypre p hlast) ..).trans hn

end Lemmas

end Links

end ServerCore.Foundations
