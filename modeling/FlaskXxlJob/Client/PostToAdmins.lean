import FlaskXxlJob.Client.CallResult
import FlaskXxlJob.Client.Policy
import FlaskXxlJob.Response.Executor
import FlaskXxlJob.Utils.Url

/-!
One Admin API call: every address is tried with bounded retries, and a failure moves on to the
next address when the policy says so.
-/
namespace FlaskXxlJob.Client
open Python Response Utils

def accessTokenHeader : String := "XXL-JOB-ACCESS-TOKEN"

def errorConfig : String := "config"
def errorNetwork : String := "network"
def errorTimeout : String := "timeout"
def errorHttp : String := "http"
def errorInvalidJson : String := "invalid_json"
def errorInvalidResponse : String := "invalid_response"
def errorBusiness : String := "business"

def retryableErrorTypes : List String := [errorNetwork,errorTimeout,errorHttp]

/-- The header is only added when a token is configured. -/
def buildHeaders (accessToken : String) : List (String × String) :=
  if accessToken = "" then [("Content-Type","application/json")]
  else [("Content-Type","application/json"),(accessTokenHeader,accessToken)]

def shouldFailover (errorType : Option String) (policy : AdminCallPolicy) : Bool :=
  match errorType with
  | none => false
  | some e =>
    if e = errorNetwork ∨ e = errorTimeout then true
    else if e = errorHttp then policy.failoverOnHttpError
    else if e = errorInvalidJson ∨ e = errorInvalidResponse then policy.failoverOnInvalidJson
    else if e = errorBusiness then policy.failoverOnBusinessError
    else false

/-- What `response.json()` gives, `none` for a `ValueError`. -/
abbrev Body := Option Value

/-- How one `requests.post` ends. -/
inductive PostOutcome where
  | timeout (exceptionType text : String)
  | requestException (exceptionType text : String)
  | response (statusCode : ℤ) (body : Body)

/-- The arguments of `post_to_admins`. -/
structure Arguments where
  adminAddresses : List String
  apiPath : String
  payload : Value
  accessToken : String
  timeout : ℤ × ℤ
  stopOnBusinessResponse : Bool := false
  policy : Option AdminCallPolicy := none

def Arguments.effectivePolicy (args : Arguments) : AdminCallPolicy :=
  args.policy.getD (.withoutPolicy args.stopOnBusinessResponse)

/-- One POST; redirects are never followed. -/
structure Post where
  address : String
  url : String
  payload : Value
  headers : List (String × String)
  timeout : ℤ × ℤ

def Arguments.post (args : Arguments) (address : String) : Post where
  address := address
  url := joinUrl address args.apiPath
  payload := args.payload
  headers := buildHeaders args.accessToken
  timeout := args.timeout

/-- A `msg` of an accepted type. -/
def readMsg : Value → Option (Option String)
  | .none => some none
  | .str s => some (some s)
  | _ => none

/-- The result of a POST to `address` that was number `attempts` of the call. -/
def classify (address : String) (attempts : ℕ) (elapsedMs : ℤ) : PostOutcome → CallResult
  | .timeout exceptionType text =>
    { success := false, address := some address, error := some (exceptionType ++ ": " ++ text),
      errorType := some errorTimeout, attemptCount := attempts, elapsedMs := some elapsedMs }
  | .requestException exceptionType text =>
    { success := false, address := some address, error := some (exceptionType ++ ": " ++ text),
      errorType := some errorNetwork, attemptCount := attempts, elapsedMs := some elapsedMs }
  | .response statusCode body =>
    let failure (error : Option String) (errorType : String) : CallResult :=
      { success := false, address := some address, error := error, errorType := some errorType,
        attemptCount := attempts, elapsedMs := some elapsedMs, httpStatus := some statusCode }
    if statusCode ≠ 200 then failure (some ("HTTP " ++ toString statusCode)) errorHttp
    else
      match body with
      | none => failure (some "invalid JSON response") errorInvalidJson
      | some (.dict items) =>
        match get items "code",readMsg (get items "msg") with
        | .int code,some msg =>
          if code = successCode then
            { success := true, code := some code, msg := msg, address := some address,
              attemptCount := attempts, elapsedMs := some elapsedMs,
              httpStatus := some statusCode }
          else { failure none errorBusiness with code := some code, msg := msg }
        | _,_ => failure (some "JSON response fields have invalid types") errorInvalidResponse
      | some _ => failure (some "JSON response body must be an object") errorInvalidResponse

/-- The variables of the two loops, and the POSTs and waits so far. -/
structure Progress where
  attempts : ℕ := 0
  posts : List Post := []
  sleeps : List Double := []
  lastResult : CallResult

variable (args : Arguments) (elapsed : ℕ → ℤ) (outcomes : ℕ → PostOutcome)

/-- One POST; `outcomes` and `elapsed` are counted over the whole call. -/
def attempt (address : String) (p : Progress) : Progress :=
  { p with
    attempts := p.attempts + 1
    posts := p.posts ++ [args.post address]
    lastResult := classify address (p.attempts + 1) (elapsed (p.attempts + 1))
      (outcomes p.attempts) }

def retryable (r : CallResult) : Bool := r.errorType.any (retryableErrorTypes.contains ·)

def backoff (policy : AdminCallPolicy) (p : Progress) : Progress :=
  if (Double.finite 0).lt policy.retryBackoff then
    { p with sleeps := p.sleeps ++ [policy.retryBackoff] }
  else p

/-- The loop over the attempts at one address, with the retries that remain. -/
def tryAddress (address : String) : ℕ → Progress → Progress
  | 0,p => attempt args elapsed outcomes address p
  | remaining + 1,p =>
    let p' := attempt args elapsed outcomes address p
    if retryable p'.lastResult then tryAddress address remaining (backoff args.effectivePolicy p') else p'

/-- The loop over the addresses. -/
def visit : List String → Progress → Progress
  | [],p => p
  | address :: rest,p =>
    let p' := tryAddress args elapsed outcomes address args.effectivePolicy.retryCount p
    if p'.lastResult.success then p'
    else if shouldFailover p'.lastResult.errorType args.effectivePolicy then visit rest p'
    else p'

def noAddress : CallResult :=
  { success := false, error := some "no admin address configured", errorType := some errorConfig }

/-- The result of the call and the POSTs it made. -/
def postToAdmins : CallResult × List Post :=
  let p := visit args elapsed outcomes args.adminAddresses { lastResult := noAddress }
  (p.lastResult,p.posts)

end FlaskXxlJob.Client
