import ServerCore.Core.Status
import ServerCore.Foundations.Table

/-! One-shot subscriptions: the first completion wins, and a reset suppresses a later one. -/

namespace ServerCore.Core

open ServerCore.Foundations

inductive Delivery
  | pending
  | completed (code : ErrorCode)
  | suppressed
  deriving DecidableEq, Repr

structure Subscription (κ : Type*) where
  request : κ
  delivery : Delivery := .pending
  deriving DecidableEq, Repr

namespace Subscription

variable {κ : Type*}

def isPending (s : Subscription κ) : Bool := s.delivery = .pending

def complete (code : ErrorCode) (s : Subscription κ) : Subscription κ :=
  if s.isPending then { s with delivery := .completed code } else s

def reset (s : Subscription κ) : Subscription κ :=
  if s.isPending then { s with delivery := .suppressed } else s

@[simp] lemma complete_request (code : ErrorCode) (s : Subscription κ) : (s.complete code).request = s.request := by
  rw [complete]
  split_ifs <;> rfl

@[simp] lemma reset_request (s : Subscription κ) : s.reset.request = s.request := by
  rw [reset]
  split_ifs <;> rfl

@[simp] lemma complete_isPending (code : ErrorCode) (s : Subscription κ) : (s.complete code).isPending = false := by
  rw [complete]
  split_ifs with h
  · rfl
  · simpa using h

@[simp] lemma reset_isPending (s : Subscription κ) : s.reset.isPending = false := by
  rw [reset]
  split_ifs with h
  · rfl
  · simpa using h

end Subscription

end ServerCore.Core
