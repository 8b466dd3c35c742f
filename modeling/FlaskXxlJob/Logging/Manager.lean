import FlaskXxlJob.Config.Settings
import FlaskXxlJob.Python.Str
import Mathlib.Logic.Function.Basic

/-!
The log managers of a process. Each has a logger of its own, with the handlers it has made; the
host may put handlers on every logger and change its settings.
-/
namespace FlaskXxlJob.Logging
open Python Config

/-! ### Names -/

/-- A character that `_safe_app_name` keeps. -/
def isNameChar (c : Char) : Bool := c.isAlphanum || c == '_' || c == '.' || c == '-'

/-- `re.sub(r"[^A-Za-z0-9_.-]+", "_", name)`, after a replaced character or not. -/
def substitute : Bool → List Char → List Char
  | _,[] => []
  | replaced,c :: cs =>
    if isNameChar c then c :: substitute false cs
    else if replaced then substitute true cs
    else '_' :: substitute true cs

def safeAppName (name : String) : String :=
  let isEdge := fun c => c == '.' || c == '_' || c == '-'
  let rendered := rstripBy isEdge (lstripBy isEdge (String.ofList (substitute false name.toList)))
  if rendered = "" then "app" else rendered

def loggerName (appName : String) (runtimeId : ℕ) : String :=
  "flask_xxljob.app." ++ safeAppName appName ++ "." ++ toString runtimeId

/-- The parts of a logger's name, the last one first. The root logger has none. -/
abbrev Path := List String

def path (name : String) : Path := (split '.' name).reverse

/-! ### The process -/

/-- A handler made by a manager, by number, or one of the host. -/
inductive HandlerId where
  | managed (n : ℕ)
  | host (n : ℕ)
  deriving DecidableEq

def HandlerId.isHost : HandlerId → Bool
  | managed _ => false
  | host _ => true

structure Logger where
  level : ℕ := 0
  propagate : Bool := true
  handlers : List HandlerId := []

inductive HandlerType where
  | file
  | console
  deriving DecidableEq

structure Handler where
  /-- The runtime id in `_flask_xxljob_owner`. -/
  owner : ℕ
  handlerType : HandlerType
  level : ℕ
  /-- The token of its `SensitiveDataFilter`. -/
  accessToken : String
  /-- Its stream is there and closed. -/
  streamClosed : Bool := false
  /-- How often `close` has been called. -/
  closes : ℕ := 0

structure LogManager where
  name : String
  config : XXLJobConfig
  handlers : List ℕ := []
  closed : Bool := false
  originalLevel : ℕ
  originalPropagate : Bool
  logFile : Option String := none

structure Process where
  /-- The next of `_RUNTIME_IDS`. -/
  runtimeIds : ℕ := 1
  /-- Those without attributes of their own included; the root logger has its default level. -/
  loggers : Path → Logger := fun p => if p = [] then { level := 30 } else {}
  /-- How many handlers the managers have made. -/
  made : ℕ := 0
  handler : ℕ → Option Handler := fun _ => none
  /-- The managers by runtime id. -/
  manager : ℕ → Option LogManager := fun _ => none

/-- `getattr(logging, config.log_level)` -/
def levelNumber (level : String) : ℕ :=
  if level = "DEBUG" then 10 else if level = "INFO" then 20 else if level = "WARNING" then 30
  else if level = "ERROR" then 40 else 50

namespace Process
variable (w : Process)

def updateLogger (p : Path) (f : Logger → Logger) : Process :=
  { w with loggers := Function.update w.loggers p (f (w.loggers p)) }

/-- `logger.addHandler(handler)` -/
def addHandler (p : Path) (h : HandlerId) : Process :=
  w.updateLogger p fun l =>
    if h ∈ l.handlers then l else { l with handlers := l.handlers ++ [h] }

/-- `logger.removeHandler(handler)` -/
def removeHandler (p : Path) (h : HandlerId) : Process :=
  w.updateLogger p fun l => { l with handlers := l.handlers.erase h }

def updateHandler (n : ℕ) (f : Handler → Handler) : Process :=
  { w with handler := Function.update w.handler n ((w.handler n).map f) }

/-- `handler.close()`; an `OSError` or a `ValueError` is swallowed. -/
def closeHandler (n : ℕ) : Process := w.updateHandler n fun h => { h with closes := h.closes + 1 }

/-- A new handler, after `_prepare_handler`. -/
def makeHandler (h : Handler) : Process :=
  { w with made := w.made + 1, handler := Function.update w.handler w.made (some h) }

def putManager (runtimeId : ℕ) (m : LogManager) : Process :=
  { w with manager := Function.update w.manager runtimeId (some m) }

end Process

/-! ### The manager -/

/-- What opening the two streams comes to: the path of the log file or the exception, and the
exception of the console handler, if any. -/
structure Streams where
  file : Except String String
  console : Option String := none

namespace LogManager

def effectiveEnabled (config : XXLJobConfig) : Bool := config.enabled && config.logEnabled

/-- The handler that `_prepare_handler` leaves. -/
def prepareHandler (runtimeId : ℕ) (config : XXLJobConfig) (handlerType : HandlerType) : Handler where
  owner := runtimeId
  handlerType := handlerType
  level := levelNumber config.logLevel
  accessToken := config.accessToken

/-- The handlers `_configure` creates until it raises, and the log file. -/
def createHandlers (config : XXLJobConfig) (streams : Streams) :
    Option String × List HandlerType × Option String :=
  let console := fun (created : List HandlerType) (logFile : Option String) =>
    if config.logConsoleEnabled then
      match streams.console with
      | some errorType => (some errorType,created,logFile)
      | none => (none,created ++ [.console],logFile)
    else (none,created,logFile)
  if config.logFileEnabled then
    match streams.file with
    | .error errorType => (some errorType,[],none)
    | .ok logFile => console [.file] (some logFile)
  else console [] none

def makeHandlers (runtimeId : ℕ) (config : XXLJobConfig) (created : List HandlerType)
    (w : Process) : Process :=
  created.foldl (fun w t => w.makeHandler (prepareHandler runtimeId config t)) w

/-- `_configure`: the message it raises with, and the manager it leaves. -/
def configure (runtimeId : ℕ) (m : LogManager) (streams : Streams) (w : Process) :
    Option String × LogManager × Process :=
  if !effectiveEnabled m.config then (none,m,w)
  else if !(m.config.logFileEnabled || m.config.logConsoleEnabled) then (none,m,w)
  else
    let (raised,created,logFile) := createHandlers m.config streams
    let numbers := List.range' w.made created.length
    let w := makeHandlers runtimeId m.config created w
    match raised with
    | some errorType =>
      (some s!"Failed to initialize Flask-XXLJob logging ({errorType}).",m,
        numbers.foldl Process.closeHandler w)
    | none =>
      let p := path m.name
      let w := w.updateLogger p fun l =>
        { l with level := levelNumber m.config.logLevel, propagate := m.config.logPropagate }
      (none,{ m with handlers := numbers, logFile },
        numbers.foldl (fun w n => w.addHandler p (.managed n)) w)

/-- The attributes before `_configure`. -/
def unconfigured (name : String) (config : XXLJobConfig) (logger : Logger) : LogManager where
  name := name
  config := config
  originalLevel := logger.level
  originalPropagate := logger.propagate

/-- `XXLJobLogManager(app, config)`: what it raises, and the manager in the process. -/
def construct (appName : String) (config : XXLJobConfig) (streams : Streams) (w : Process) :
    Option String × Process :=
  let runtimeId := w.runtimeIds
  let w := { w with runtimeIds := w.runtimeIds + 1 }
  let name := loggerName appName runtimeId
  let m := unconfigured name config (w.loggers (path name))
  match configure runtimeId m streams w with
  | (some message,_,w) => (some message,w)
  | (none,m,w) => (none,w.putManager runtimeId m)

/-- Takes a handler off its logger and closes it. -/
def detach (p : Path) (w : Process) (n : ℕ) : Process :=
  (w.removeHandler p (.managed n)).closeHandler n

/-- The loop of `prepare_shutdown`: the process and the handlers that stay available. -/
def detachUnavailable (p : Path) : List ℕ → Process → Process × List ℕ
  | [],w => (w,[])
  | n :: rest,w =>
    if (w.handler n).any Handler.streamClosed then detachUnavailable p rest (detach p w n)
    else
      let (w,available) := detachUnavailable p rest w
      (w,n :: available)

def prepareShutdown (runtimeId : ℕ) (w : Process) : Process :=
  match w.manager runtimeId with
  | none => w
  | some m =>
    let (w,available) := detachUnavailable (path m.name) m.handlers w
    w.putManager runtimeId { m with handlers := available }

def close (runtimeId : ℕ) (w : Process) : Process :=
  match w.manager runtimeId with
  | none => w
  | some m =>
    if m.closed then w
    else
      let p := path m.name
      let w := m.handlers.foldl (detach p) w
      let w := w.putManager runtimeId { m with closed := true, handlers := [] }
      w.updateLogger p fun l =>
        { l with level := m.originalLevel, propagate := m.originalPropagate }

end LogManager

/-! ### Records -/

/-- The loggers that `get_logger` is asked for. -/
inductive Component where
  | admin
  | callback
  | protocol
  | registry
  | runtime
  deriving DecidableEq

def Component.text : Component → String
  | admin => "admin"
  | callback => "callback"
  | protocol => "protocol"
  | registry => "registry"
  | runtime => "runtime"

/-- The name in `get_logger` -/
def LogManager.componentName (m : LogManager) (component : Component) : String :=
  m.name ++ "." ++ component.text

namespace Process
variable (w : Process)

/-- `logger.getEffectiveLevel()` -/
def effectiveLevel : Path → ℕ
  | [] => (w.loggers []).level
  | part :: parent =>
    let level := (w.loggers (part :: parent)).level
    if level ≠ 0 then level else effectiveLevel parent

/-- The handlers that `logger.callHandlers` comes to. -/
def callHandlers : Path → List HandlerId
  | [] => (w.loggers []).handlers
  | part :: parent =>
    let logger := w.loggers (part :: parent)
    logger.handlers ++ if logger.propagate then callHandlers parent else []

/-- A managed handler by number, if a record of the level passes it. -/
def passes (levelno : ℕ) : HandlerId → Option ℕ
  | .managed n => if (w.handler n).any fun h => h.level ≤ levelno then some n else none
  | .host _ => none

/-- The managed handlers that emit a record logged on a logger. -/
def emitters (p : Path) (levelno : ℕ) : List ℕ :=
  if w.effectiveLevel p ≤ levelno then (w.callHandlers p).filterMap (w.passes levelno) else []

end Process

/-! ### Runs -/

/-- What happens in the process: a manager's method, or something the host does. -/
inductive LogAction where
  | construct (appName : String) (config : XXLJobConfig) (streams : Streams)
  | prepareShutdown (runtimeId : ℕ)
  | close (runtimeId : ℕ)
  | setLevel (p : Path) (level : ℕ)
  | setPropagate (p : Path) (propagate : Bool)
  | addHostHandler (p : Path) (n : ℕ)
  | removeHandler (p : Path) (h : HandlerId)
  /-- The stream of a managed handler is closed or replaced. -/
  | setStream (n : ℕ) (streamClosed : Bool)

def Process.act (w : Process) : LogAction → Process
  | .construct appName config streams => (LogManager.construct appName config streams w).2
  | .prepareShutdown runtimeId => LogManager.prepareShutdown runtimeId w
  | .close runtimeId => LogManager.close runtimeId w
  | .setLevel p level => w.updateLogger p fun l => { l with level }
  | .setPropagate p propagate => w.updateLogger p fun l => { l with propagate }
  | .addHostHandler p n => w.addHandler p (.host n)
  | .removeHandler p h => w.removeHandler p h
  | .setStream n streamClosed => w.updateHandler n fun h => { h with streamClosed }

def Process.run (w : Process) (actions : List LogAction) : Process := actions.foldl Process.act w

example : ["demo","same/name","a.b"," -my app!! ","//"].map safeAppName =
    ["demo","same_name","a.b","my_app","app"] := by decide +kernel

end FlaskXxlJob.Logging
