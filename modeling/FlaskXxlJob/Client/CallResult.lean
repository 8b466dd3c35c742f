import Mathlib.Data.Int.Notation
import Mathlib.Data.Nat.Notation

/-! The result of one Admin API call. -/
namespace FlaskXxlJob.Client

structure CallResult where
  success : Bool
  code : Option ℤ := none
  msg : Option String := none
  address : Option String := none
  error : Option String := none
  errorType : Option String := none
  attemptCount : ℕ := 0
  elapsedMs : Option ℤ := none
  httpStatus : Option ℤ := none
  deriving DecidableEq

/-- The admin `msg` when present, otherwise the local `error`. -/
def CallResult.message (r : CallResult) : Option String :=
  match r.msg with
  | some m => some m
  | none => r.error

end FlaskXxlJob.Client
