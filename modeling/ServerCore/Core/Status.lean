import Mathlib.Algebra.Order.Ring.Int
import Mathlib.Data.Nat.Notation

/-! The failure kinds all layers share and the status that carries one of them. -/

namespace ServerCore.Core

inductive ErrorCode
  | ok
  | invalidArgument
  | invalidFormat
  | tooLarge
  | notFound
  | alreadyExists
  | closed
  | wouldBlock
  | platformError
  | unimplemented
  | unknownType
  | timeout
  | cancelled
  deriving DecidableEq, Repr

structure Status where
  code : ErrorCode
  message : String
  deriving DecidableEq, Repr

def Status.fail (code : ErrorCode) (message : String) : Status := ⟨code, message⟩

def Status.failWithoutMessage (code : ErrorCode) : Status := ⟨code, ""⟩

end ServerCore.Core
