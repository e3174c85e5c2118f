import Mathlib.Data.List.Infix
import Mathlib.Data.Nat.Notation
import Mathlib.Logic.Function.Basic

/-! Named places that hold the pieces of one text, read in a fixed order. -/

namespace ServerCore.Foundations.Slots

variable {κ β : Type*}

def joined (order : List κ) (slots : κ → Option (List β)) : List β := order.flatMap fun k => (slots k).getD []

lemma joined_cons (k : κ) (order : List κ) (slots : κ → Option (List β)) :
    joined (k :: order) slots = (slots k).getD [] ++ joined order slots := List.flatMap_cons

lemma joined_append (x y : List κ) (slots : κ → Option (List β)) :
    joined (x ++ y) slots = joined x slots ++ joined y slots := List.flatMap_append

lemma joined_congr {order : List κ} {slots slots' : κ → Option (List β)} (h : ∀ k ∈ order, slots' k = slots k) :
    joined order slots' = joined order slots := by
  induction order with
  | nil => rfl
  | cons k order ih =>
    rw [List.forall_mem_cons] at h
    rw [joined_cons, joined_cons, h.1, ih h.2]

variable [DecidableEq κ]

/-- What is at `a` goes to `b`. -/
def move (slots : κ → Option (List β)) (a b : κ) : κ → Option (List β) :=
  Function.update (Function.update slots a none) b (slots a)

section Updates

variable {slots : κ → Option (List β)} {a b k : κ}

@[simp] lemma move_target : move slots a b b = slots a := Function.update_self ..

lemma move_source (h : a ≠ b) : move slots a b a = none := by
  rw [move, Function.update_of_ne h, Function.update_self]

lemma move_ne (ha : k ≠ a) (hb : k ≠ b) : move slots a b k = slots k := by
  rw [move, Function.update_of_ne hb, Function.update_of_ne ha]

lemma joined_update_of_not_mem {order : List κ} {piece : Option (List β)} (h : k ∉ order) :
    joined order (Function.update slots k piece) = joined order slots := by
  apply joined_congr
  intro j hj
  have hne : j ≠ k := fun heq => h (heq ▸ hj)
  exact Function.update_of_ne hne ..

/-- A piece may go to the empty place next to it. -/
lemma joined_move {x y : List κ} (hnodup : (x ++ b :: a :: y).Nodup) (hempty : slots b = none) :
    joined (x ++ b :: a :: y) (move slots a b) = joined (x ++ b :: a :: y) slots := by
  obtain ⟨-, hrest, hx⟩ := List.nodup_append.mp hnodup
  obtain ⟨hb, hrest⟩ := List.nodup_cons.mp hrest
  obtain ⟨ha, -⟩ := List.nodup_cons.mp hrest
  have hab : a ≠ b := fun heq => hb (heq ▸ List.mem_cons_self)
  have hother (order : List κ) (ha : a ∉ order) (hb : b ∉ order) : joined order (move slots a b) = joined order slots := by
    rw [move, joined_update_of_not_mem hb, joined_update_of_not_mem ha]
  have hx' : joined x (move slots a b) = joined x slots := by
    apply hother
    · exact fun hm => hx a hm a (by simp) rfl
    · exact fun hm => hx b hm b (by simp) rfl
  have hy : joined y (move slots a b) = joined y slots := hother y ha fun hm => hb (List.mem_cons_of_mem _ hm)
  simp only [joined_append, joined_cons, hx', hy, move_target, move_source hab, hempty, Option.getD_none,
    List.nil_append]

/-- Dropping the first piece keeps the rest. -/
lemma joined_drop {order : List κ} (h : k ∉ order) :
    joined (k :: order) (Function.update slots k none) <:+ joined (k :: order) slots := by
  rw [joined_cons, joined_cons, Function.update_self, joined_update_of_not_mem h]
  exact List.suffix_append ..

/-- The last piece grows. -/
lemma joined_extend {order : List κ} (h : k ∉ order) (text : List β) :
    joined (order ++ [k]) (Function.update slots k (some ((slots k).getD [] ++ text))) =
      joined (order ++ [k]) slots ++ text := by
  rw [joined_append, joined_append, joined_update_of_not_mem h]
  simp [joined]

lemma joined_fill {order : List κ} (h : slots k = none) :
    joined order (Function.update slots k (some [])) = joined order slots := by
  induction order with
  | nil => rfl
  | cons j order ih =>
    rw [joined_cons, joined_cons, ih]
    rcases eq_or_ne j k with rfl | hne
    · rw [Function.update_self, h]
      rfl
    · rw [Function.update_of_ne hne]

end Updates

end ServerCore.Foundations.Slots
