import FlaskXxlJob.Callback.Sequences
import FlaskXxlJob.Model.Requests
import FlaskXxlJob.Protocol.Parser
import FlaskXxlJob.Response.Executor

/-!
The four executor endpoints that reach a callback. Every gate of a view answers early; a view
that gets through invokes the callback once.
-/
namespace FlaskXxlJob.Protocol
open Python Streaming Callback Model Response

inductive Endpoint where
  | run
  | idleBeat
  | kill
  | log
  deriving DecidableEq

def Endpoint.text : Endpoint → String
  | run => "run"
  | idleBeat => "idleBeat"
  | kill => "kill"
  | log => "log"

structure Config where
  accessToken : String
  maxRequestSize : ℕ
  maxParamLength : ℕ

/-- An `HTTPException`, another `Exception`, or an exception that is no `Exception`, such as
`SystemExit`. -/
inductive Raised where
  | http (name : String)
  | other (exceptionType : String)
  | base (exceptionType : String)

/-- The body of a request: a stream, or an exception on the way to it. -/
inductive Body (σ : Type) where
  | stream (s : σ)
  | raises (e : Raised)

structure Incoming (σ : Type) where
  endpoint : Endpoint
  token : Option String
  contentLength : Option ℤ
  body : Body σ

/-- How a view leaves before it invokes a callback. -/
inductive Exit where
  | respond (r : XXLJobResponse)
  | raised (e : Raised)

/-- What a callback does with a request. -/
inductive Returned where
  | response (r : XXLJobResponse)
  | logResponse (r : LogResponse)
  | other (typeName : String)
  | raised (e : Raised)

def accessTokenError : String := "The access token is wrong."
def runNotConfigured : String := "XXL-JOB run callback is not configured"
def idleBeatNotConfigured : String := "XXL-JOB idleBeat callback is not configured"
def killNotConfigured : String := "XXL-JOB kill callback is not configured"
def logNotConfigured : String := "XXL-JOB log callback is not configured"
def internalError : String := "XXL-JOB internal protocol error"
def maxHandlerDisplayLength : ℕ := 128

/-- The comparison is of the UTF-8 encodings, which are equal only for equal texts. -/
def checkAccessToken (configuredToken : String) (requestToken : Option String) : Bool :=
  if configuredToken = "" ∨ strip configuredToken = "" then true
  else
    match requestToken with
    | none => false
    | some token => decide (configuredToken = token)

def displayExecutorHandler (executorHandler : String) : String :=
  if strip executorHandler = "" then "<empty>"
  else if executorHandler.length ≤ maxHandlerDisplayLength then executorHandler
  else String.ofList (executorHandler.toList.take (maxHandlerDisplayLength - 3)) ++ "..."

variable {σ φ : Type} (R : Reader UInt8 σ) (loads : String → Loads) (cfg : Config)
  (registry : Slots φ) (request : Incoming σ)

def fail (msg : String) : Exit := .respond (.failure msg)

def tokenOk : Except Exit Unit :=
  if checkAccessToken cfg.accessToken request.token then .ok () else .error (fail accessTokenError)

def parseBody : Except Exit (List (String × Value)) :=
  match request.body with
  | .raises e => .error (.raised e)
  | .stream s =>
    match (readLimitedBody R s request.contentLength cfg.maxRequestSize).1 with
    | .error e => .error (fail e.message)
    | .ok rawBody =>
      match parseJsonObject loads rawBody cfg.maxRequestSize with
      | .error (.parseError e) => .error (fail e.message)
      | .error (.raised exceptionType) => .error (.raised (.other exceptionType))
      | .ok data => .ok data

def buildModel {μ : Type} (fromWire : List (String × Value) → Except ModelParseError μ)
    (data : List (String × Value)) : Except Exit μ :=
  match fromWire data with
  | .error e => .error (fail ("invalid request field: " ++ e.message))
  | .ok model => .ok model

def checkParams (data : List (String × Value)) : Except Exit Unit :=
  match checkParamLength data cfg.maxParamLength with
  | some error => .error (fail error)
  | none => .ok ()

def Slots.hasRunCallbacks (registry : Slots φ) : Bool := decide registry.run.keys.Nonempty

def findRun (executorHandler : String) : Except Exit φ :=
  if Slots.hasRunCallbacks registry then
    match registry.run.lookup executorHandler with
    | none => .error (fail ("Unsupported JobHandler: " ++ displayExecutorHandler executorHandler))
    | some callback => .ok callback
  else .error (fail runNotConfigured)

/-- The gates of `/run`. -/
def run : Except Exit (φ × Request) := do
  tokenOk cfg request
  let data ← parseBody R loads cfg request
  checkParams cfg data
  let model ← buildModel TriggerRequest.fromWire data
  let callback ← findRun registry model.executorHandler
  return (callback,.trigger model)

def findSingle (callback : Option φ) (notConfigured : String) : Except Exit φ :=
  match callback with
  | none => .error (fail notConfigured)
  | some callback => .ok callback

/-- The gates of an endpoint with a single slot. -/
def single {μ : Type} (callback : Option φ) (notConfigured : String)
    (fromWire : List (String × Value) → Except ModelParseError μ) (toRequest : μ → Request) :
    Except Exit (φ × Request) := do
  tokenOk cfg request
  let callback ← findSingle callback notConfigured
  let data ← parseBody R loads cfg request
  let model ← buildModel fromWire data
  return (callback,toRequest model)

def idleBeat : Except Exit (φ × Request) :=
  single R loads cfg request registry.idleBeat idleBeatNotConfigured IdleBeatRequest.fromWire
    .idleBeat

def kill : Except Exit (φ × Request) :=
  single R loads cfg request registry.kill killNotConfigured KillRequest.fromWire .kill

def log : Except Exit (φ × Request) :=
  single R loads cfg request registry.log logNotConfigured LogRequest.fromWire .log

def view : Except Exit (φ × Request) :=
  match request.endpoint with
  | .run => run R loads cfg registry request
  | .idleBeat => idleBeat R loads cfg registry request
  | .kill => kill R loads cfg registry request
  | .log => log R loads cfg registry request

def executionFailed (endpoint : Endpoint) : XXLJobResponse :=
  .failure ("XXL-JOB " ++ endpoint.text ++ " callback execution failed")

def unsupportedType (endpoint : Endpoint) : XXLJobResponse :=
  .failure ("XXL-JOB " ++ endpoint.text ++ " callback returned an unsupported response type")

/-- `_dispatch`, and the end of `/log`, after the callback: the response, or the type of the
exception that `except Exception` lets through. -/
def respond (endpoint : Endpoint) : Returned → Except String XXLJobResponse
  | .raised (.base exceptionType) => .error exceptionType
  | .raised _ => .ok (executionFailed endpoint)
  | .response r => .ok r
  | .logResponse r =>
    match endpoint with
    | .log => .ok (.success none r.toWire)
    | _ => .ok (unsupportedType endpoint)
  | .other _ => .ok (unsupportedType endpoint)

/-- What Admin receives: a value that cannot be encoded ends in the error handler. -/
def json (custom : String → Bool) (response : XXLJobResponse) : XXLJobResponse :=
  if jsonable custom response.content then response else .failure internalError

/-- The answer to a request, or the type of the exception that leaves the application in its place,
and the callbacks invoked for it. -/
structure Handled (φ : Type) where
  answer : Except String XXLJobResponse
  invoked : List (φ × Request)

def handle (custom : String → Bool) (behave : φ → Request → Returned) : Handled φ :=
  match view R loads cfg registry request with
  | .error (.respond r) => ⟨.ok (json custom r),[]⟩
  | .error (.raised (.http name)) => ⟨.ok (.failure ("XXL-JOB request error: " ++ name)),[]⟩
  | .error (.raised (.other _)) => ⟨.ok (.failure internalError),[]⟩
  -- the error handlers are for `Exception` and its subclasses
  | .error (.raised (.base exceptionType)) => ⟨.error exceptionType,[]⟩
  | .ok (callback,model) =>
    ⟨json custom <$> respond request.endpoint (behave callback model),[(callback,model)]⟩

end FlaskXxlJob.Protocol
