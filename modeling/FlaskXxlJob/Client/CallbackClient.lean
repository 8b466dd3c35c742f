import FlaskXxlJob.Client.PostToAdmins
import FlaskXxlJob.Model.Coerce

/-!
The task-result callback client. A batch is normalized as a whole before anything is sent.
-/
namespace FlaskXxlJob.Client
open Python Config Model

def callbackPath : String := "/api/callback"

/-- The fields are unchecked until a batch is normalized. -/
structure CallbackRequest where
  logId : Value := .int 0
  logDateTime : Value := .int 0
  handleCode : Value := .int 200
  handleMsg : Value := .str ""

/-- The wire field is `logDateTim`. -/
def CallbackRequest.toWire (r : CallbackRequest) : Value :=
  .dict [("logId",r.logId),("logDateTim",r.logDateTime),("handleCode",r.handleCode),
    ("handleMsg",r.handleMsg)]

/-- An item of a batch: a `CallbackRequest`, a dict, or anything else. -/
inductive CallbackItem where
  | request (r : CallbackRequest)
  | dict (items : List (String × Value))
  | other (typeName : String)

/-- The cases of `XXLJobValidationError`. -/
inductive ValidationError where
  | empty
  | tooLarge (size : ℕ) (maximum : ℤ)
  | missingKey (index : ℕ) (key : String)
  | badItem (index : ℕ) (typeName : String)
  | notInteger (index : ℕ) (name typeName : String)
  | notString (index : ℕ) (e : ModelParseError)
  deriving DecidableEq

def ValidationError.message : ValidationError → String
  | empty => "callback_many requires at least one callback request"
  | tooLarge size maximum => "callback batch size " ++ toString size ++
      " exceeds the configured maximum of " ++ toString maximum ++
      " (XXL_JOB_CALLBACK_BATCH_MAX_SIZE); the batch is never auto-split"
  | missingKey index key => "callback item at index " ++ toString index ++ " is missing key '" ++
      key ++ "'"
  | badItem index typeName => "callback item at index " ++ toString index ++
      " must be a CallbackRequest or dict, got " ++ typeName
  | notInteger index name typeName => "callback item at index " ++ toString index ++ ": " ++ name ++
      " must be an integer, got " ++ typeName
  | notString index e => "callback item at index " ++ toString index ++ ": " ++ e.message

def requireInt (index : ℕ) (name : String) (value : Value) : Except ValidationError Unit :=
  match value with
  | .int _ => .ok ()
  | v => .error (.notInteger index name v.typeName)

def requireStr (index : ℕ) (name : String) (value : Value) : Except ValidationError String :=
  match coerceStr value name "" with
  | .ok s => .ok s
  | .error e => .error (.notString index e)

def requireKey (index : ℕ) (items : List (String × Value)) (key : String) :
    Except ValidationError Value :=
  match items.lookup key with
  | some v => .ok v
  | none => .error (.missingKey index key)

/-- `message[:n]` -/
def sliceTo (message : String) (n : ℤ) : String :=
  String.ofList (message.toList.take (if 0 ≤ n then n else message.length + n).toNat)

def toRequest (index : ℕ) : CallbackItem → Except ValidationError CallbackRequest
  | .request r => .ok r
  | .dict items => do
    let logId ← requireKey index items "log_id"
    let logDateTime ← requireKey index items "log_date_time"
    let handleCode := (items.lookup "handle_code").getD (.int 200)
    let handleMsg ← requireStr index "handle_msg" (get items "handle_msg")
    return { logId, logDateTime, handleCode, handleMsg := .str handleMsg }
  | .other typeName => .error (.badItem index typeName)

def normalizeItem (cfg : XXLJobConfig) (index : ℕ) (item : CallbackItem) :
    Except ValidationError CallbackRequest := do
  let request ← toRequest index item
  requireInt index "log_id" request.logId
  requireInt index "log_date_time" request.logDateTime
  requireInt index "handle_code" request.handleCode
  let message ← requireStr index "handle_msg" request.handleMsg
  let maxLength := cfg.callbackMessageMaxLength
  let message := if maxLength < message.length then sliceTo message maxLength else message
  return { request with handleMsg := .str message }

/-- The items in order, each with its index. -/
def normalizeItems (cfg : XXLJobConfig) :
    ℕ → List CallbackItem → Except ValidationError (List CallbackRequest)
  | _,[] => .ok []
  | index,item :: items => do
    let request ← normalizeItem cfg index item
    let requests ← normalizeItems cfg (index + 1) items
    return request :: requests

def disabledResult : CallResult :=
  { success := false, error := some "Flask-XXLJob is disabled.", errorType := some errorConfig }

/-- How a call ends, and the POSTs it made. -/
structure Called where
  outcome : Except ValidationError CallResult
  posts : List Post

def callbackArguments (cfg : XXLJobConfig) (payload : Value) : Arguments where
  adminAddresses := cfg.adminAddresses
  apiPath := callbackPath
  payload := payload
  accessToken := cfg.accessToken
  timeout := cfg.timeout
  policy := some (.fromConfig cfg)

variable (cfg : XXLJobConfig) (elapsed : ℕ → ℤ) (outcomes : ℕ → PostOutcome)

def callbackMany (items : List CallbackItem) : Called :=
  if cfg.enabled = false then ⟨.ok disabledResult,[]⟩
  else if items = [] then ⟨.error .empty,[]⟩
  else if cfg.callbackBatchMaxSize < items.length then
    ⟨.error (.tooLarge items.length cfg.callbackBatchMaxSize),[]⟩
  else
    match normalizeItems cfg 0 items with
    | .error e => ⟨.error e,[]⟩
    | .ok requests =>
      let payload := Value.list (requests.map CallbackRequest.toWire)
      let call := postToAdmins (callbackArguments cfg payload) elapsed outcomes
      ⟨.ok call.1,call.2⟩

def orEmpty : Value → Value
  | .none => .str ""
  | v => v

def callback (logId logDateTime handleCode handleMsg : Value) : Called :=
  if cfg.enabled = false then ⟨.ok disabledResult,[]⟩
  else
    callbackMany cfg elapsed outcomes
      [.request { logId, logDateTime, handleCode, handleMsg := orEmpty handleMsg }]

end FlaskXxlJob.Client
