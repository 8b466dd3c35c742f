import FlaskXxlJob.Client.CallbackClient

/-! The task-result callbacks of the extension, for an application that has been resolved. -/
namespace FlaskXxlJob.Extension
open Python Config Client Response

/-- What a callback raises: an argument or an item of the batch is not acceptable. -/
inductive CallbackError where
  | request (message : String)
  | validation (e : ValidationError)

/-- `_require_int` raises an `XXLJobRequestError`. -/
def requireInt (name : String) : Value → Except CallbackError Unit
  | .int _ => .ok ()
  | v => .error (.request s!"{name} must be an integer, got {v.typeName}")

variable (cfg : XXLJobConfig) (elapsed : ℕ → ℤ) (outcomes : ℕ → PostOutcome)

/-- The arguments of an enabled application are checked before the client is called. -/
def checkArguments (logId logDateTime handleCode : Value) : Except CallbackError Unit :=
  if cfg.enabled then do
    requireInt "log_id" logId
    requireInt "log_date_time" logDateTime
    requireInt "handle_code" handleCode
  else .ok ()

def callback (logId logDateTime handleCode handleMsg : Value) :
    Except CallbackError CallResult := do
  checkArguments cfg logId logDateTime handleCode
  (Client.callback cfg elapsed outcomes logId logDateTime handleCode handleMsg).outcome.mapError
    .validation

def callbackSuccess (logId logDateTime message : Value) : Except CallbackError CallResult :=
  callback cfg elapsed outcomes logId logDateTime (.int successCode) message

def callbackFailure (logId logDateTime message : Value) : Except CallbackError CallResult :=
  callback cfg elapsed outcomes logId logDateTime (.int failCode) message

def callbackMany (callbacks : List CallbackItem) : Except CallbackError CallResult :=
  (Client.callbackMany cfg elapsed outcomes callbacks).outcome.mapError .validation

end FlaskXxlJob.Extension
