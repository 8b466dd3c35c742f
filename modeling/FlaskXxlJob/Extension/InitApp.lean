import FlaskXxlJob.Config.ExecutorAddress
import FlaskXxlJob.Python.Steps
import FlaskXxlJob.Registry.Program

/-!
`init_app` as its steps. Before a step another thread may have changed the host; the step raises
without effect, or it does its work. A failure undoes what the call owns, each action on its own.
-/
namespace FlaskXxlJob.Extension
open Python Config

/-- A Runtime or a Blueprint by identity: the one of this call, or another object. -/
inductive Identity where
  | own
  | other (n : ℕ)
  deriving DecidableEq

/-- What `app.cli.commands["xxljob"]` holds. The mark on the project's command is a ghost: it says
whether this call has added it, and no check reads it. -/
inductive Command where
  | xxljobCli (added : Bool)
  | other (n : ℕ)
  deriving DecidableEq

def Command.isXxljobCli : Command → Bool
  | xxljobCli _ => true
  | other _ => false

/-- What `init_app` reads and writes of its Flask application. -/
structure App where
  name : String
  /-- The attribute, and in it the entry under `EXTENSION_KEY`. -/
  extensions : Option (Option Identity)
  command : Option Command
  /-- The rules of `url_map` with their methods. -/
  rules : List (String × List String)
  blueprints : List (String × Identity)

inductive InitError where
  | alreadyInitialized (message : String)
  | initialization (message : String)
  | config (e : Raised)
  | other (errorType : String)
  deriving DecidableEq

/-- The application, whether the extension's `ApplicationRegistry` holds it, and the local
variables of the call. -/
structure InitState where
  app : App
  recorded : Bool
  config : XXLJobConfig := {}
  /-- The name of the Blueprint that has been built. -/
  blueprint : Option String := none
  /-- Whether the log manager is open, once there is one. -/
  logManager : Option Bool := none
  registryService : Bool := false
  runtime : Bool := false
  prepared : Option ℕ := none
  /-- Whether the finalizer is alive, once there is one. -/
  finalizer : Option Bool := none
  cliAdded : Bool := false
  applicationAdded : Bool := false
  blueprintPublished : Bool := false
  activated : Bool := true
  /-- `runtime._finalizer` -/
  attached : Bool := false
  /-- The calls this `init_app` has made on its Registry service. -/
  registryCalls : List Registry.Call := []

inductive InitStep where
  | checkInitialized
  | fromMapping
  | validateRegistry
  | ensureExecutorRoutesAvailable
  | ensureBlueprintNameAvailable
  | buildBlueprint
  | ensureCliAvailable
  | logManager
  | callbackRegistry
  | seedFrom
  | adminClient
  | callbackClient
  | registryService
  | runtime
  | prepareStart
  | installRuntimeFinalizer
  | registerCli
  | ensureExtensions
  | publishRuntime
  | addApplication
  | attachFinalizer
  | registerBlueprint
  | activatePreparedStart
  | logInitialized
  | logCancelled
  deriving DecidableEq

/-- The actions of a failed call. Joining a cancelled thread changes nothing here. -/
inductive CleanupAction where
  | cancelPreparedStart
  | detachFinalizer
  | removeCommand
  | removeExtension
  | discardApplication
  | closeLogManager
  | settlePrepared
  deriving DecidableEq

/-- What the call does not decide. -/
structure Env where
  library : Library
  mapping : List (String × Value)
  /-- What another thread has done to the host before the step. -/
  interfere : InitStep → App → App
  /-- What the step raises, if it raises. -/
  raises : InitStep → Option InitError
  cleanupRaises : CleanupAction → Bool
  /-- A `register_blueprint` that raises has made the Blueprint visible before. -/
  publishes : Bool
  /-- The activation finds its token still in the slot. -/
  activates : Bool

/-! ### The checks -/

/-- `app.extensions.get(EXTENSION_KEY)` -/
def App.extension (app : App) : Option Identity := app.extensions.join

/-- `any(item is blueprint for item in app.blueprints.values())` -/
def App.isPublished (app : App) : Bool := app.blueprints.any fun item => item.2 = .own

/-- `_blueprint_name` -/
def blueprintName (app : App) : String := "xxljob_" ++ app.name.map fun c => if c = '.' then '_' else c

def checkInitialized (app : App) : Except InitError Unit :=
  match app.extension with
  | some _ => .error (.alreadyInitialized
      ("Flask-XXLJob has already been initialized on this application. " ++
        "Call init_app(app) only once per application."))
  | none => .ok ()

def ensureExecutorRoutesAvailable (app : App) (routePrefix : String) : Except InitError Unit :=
  let paths := executorPaths routePrefix
  let conflicts := (app.rules.filter fun rule => rule.1 ∈ paths ∧ "POST" ∈ rule.2).map Prod.fst
  if conflicts = [] then .ok ()
  else
    let rendered := ", ".intercalate (conflicts.dedup.mergeSort (· ≤ ·))
    .error (.initialization ("Flask-XXLJob executor route conflict for POST: " ++
      s!"{rendered}. Configure XXL_JOB_ROUTE_PREFIX or remove the host route."))

def ensureBlueprintNameAvailable (app : App) (name : String) : Except InitError Unit :=
  if name ∈ app.blueprints.map Prod.fst then
    .error (.initialization ("Flask-XXLJob blueprint name conflict: " ++
      s!"{name}. Remove the host blueprint with that name before init_app()."))
  else .ok ()

/-- `_ensure_cli_available` -/
def ensureCliAvailable (app : App) : Except InitError Unit :=
  match app.command with
  | some (.other _) => .error (.initialization
      ("Flask-XXLJob CLI command conflict: xxljob. Remove or rename " ++
        "the host command before init_app()."))
  | some (.xxljobCli _) | none => .ok ()

/-! ### The steps -/

variable (env : Env)

/-- `_register_cli` after its check. -/
def registerCli (s : InitState) : InitState :=
  match s.app.command with
  | some _ => { s with cliAdded := false }
  | none => { s with app := { s.app with command := some (.xxljobCli true) }, cliAdded := true }

def publishRuntime (s : InitState) : Except InitError InitState :=
  match s.app.extensions with
  | none => .error (.other "AttributeError")
  | some _ => .ok { s with app := { s.app with extensions := some (some .own) } }

/-- `app.blueprints[name] = blueprint` -/
def addBlueprint (s : InitState) : InitState :=
  match s.blueprint with
  | none => s
  | some name =>
    { s with app := { s.app with
        blueprints := s.app.blueprints.filter (·.1 ≠ name) ++ [(name,.own)] } }

/-- The `finally` of `register_blueprint`. -/
def noteBlueprint (s : InitState) : InitState :=
  { s with blueprintPublished := s.app.isPublished }

namespace InitStep

/-- The `if` under which the step stands. -/
def taken (s : InitState) : InitStep → Bool
  | validateRegistry | prepareStart => s.config.enabled && s.config.autoRegister
  | ensureExecutorRoutesAvailable | ensureBlueprintNameAvailable | buildBlueprint
  | registerBlueprint => s.config.enabled
  | activatePreparedStart => s.prepared.isSome
  | logCancelled => s.prepared.isSome && !s.activated
  | _ => true

/-- The step on a host as it is, if nothing but the host makes it raise. -/
def perform (s : InitState) : InitStep → Except InitError InitState
  | checkInitialized => do
    Extension.checkInitialized s.app
    return s
  | fromMapping => do
    let config ← (Config.fromMapping env.library env.mapping).mapError .config
    return { s with config }
  | validateRegistry => do
    (s.config.validateRegistry env.library).mapError .config
    return s
  | ensureExecutorRoutesAvailable => do
    Extension.ensureExecutorRoutesAvailable s.app s.config.routePrefix
    return s
  | ensureBlueprintNameAvailable => do
    Extension.ensureBlueprintNameAvailable s.app (blueprintName s.app)
    return s
  | buildBlueprint => .ok { s with blueprint := some (blueprintName s.app) }
  | ensureCliAvailable => do
    Extension.ensureCliAvailable s.app
    return s
  | logManager => .ok { s with logManager := some true }
  | callbackRegistry | seedFrom | adminClient | callbackClient => .ok s
  | registryService => .ok { s with registryService := true }
  | runtime => .ok { s with runtime := true }
  -- the first token of a new service
  | prepareStart =>
    .ok { s with prepared := some 0, registryCalls := s.registryCalls ++ [.prepareStart] }
  | installRuntimeFinalizer => .ok { s with finalizer := some true }
  | registerCli => do
    Extension.ensureCliAvailable s.app
    return Extension.registerCli s
  | ensureExtensions =>
    .ok { s with app := { s.app with extensions := some s.app.extension } }
  | publishRuntime => Extension.publishRuntime s
  | addApplication => .ok { s with recorded := true, applicationAdded := true }
  | attachFinalizer => .ok { s with attached := true }
  | registerBlueprint => .ok (noteBlueprint (addBlueprint s))
  | activatePreparedStart =>
    .ok { s with
      activated := env.activates
      registryCalls := s.registryCalls ++ s.prepared.toList.map .activatePreparedStart }
  | logInitialized | logCancelled => .ok s

/-- What the step leaves when it raises. -/
def abandon (s : InitState) : InitStep → InitState
  | addApplication => { s with applicationAdded := true }
  | registerBlueprint => noteBlueprint (if env.publishes then addBlueprint s else s)
  | _ => s

def run (i : InitStep) (s : InitState) : Option InitError × InitState :=
  let s := { s with app := env.interfere i s.app }
  if i.taken s then
    match env.raises i with
    | some e => (some e,i.abandon env s)
    | none =>
      match i.perform env s with
      | .error e => (some e,s)
      | .ok s' => (none,s')
  else (none,s)

end InitStep

/-! ### The cleanup -/

namespace CleanupAction

def taken (s : InitState) : CleanupAction → Bool
  | cancelPreparedStart => s.registryService && s.prepared.isSome
  | detachFinalizer => s.finalizer.isSome
  | removeCommand => s.cliAdded
  | removeExtension => s.runtime
  | discardApplication => s.applicationAdded
  | closeLogManager => s.logManager.isSome
  | settlePrepared => s.prepared.isSome

def perform (s : InitState) : CleanupAction → InitState
  | cancelPreparedStart =>
    { s with registryCalls := s.registryCalls ++ s.prepared.toList.map .cancelPreparedStart }
  | detachFinalizer => { s with finalizer := some false }
  | removeCommand =>
    if s.app.command.any Command.isXxljobCli then
      { s with app := { s.app with command := none } }
    else s
  | removeExtension =>
    if s.app.extension = some .own then
      { s with app := { s.app with extensions := some none } }
    else s
  | discardApplication => { s with recorded := false }
  | closeLogManager => { s with logManager := some false }
  | settlePrepared =>
    { s with registryCalls :=
        s.registryCalls ++ s.prepared.toList.map .settlePreparedAfterPublishFailure }

/-- What an action raises is swallowed. -/
def run (s : InitState) (a : CleanupAction) : InitState :=
  if a.taken s && !env.cleanupRaises a then a.perform s else s

end CleanupAction

/-- `_close_uncommitted_runtime_resources` -/
def closeUncommittedRuntimeResources (s : InitState) : InitState :=
  [.cancelPreparedStart,.detachFinalizer,.removeCommand,.removeExtension,.discardApplication,
    .closeLogManager].foldl (CleanupAction.run env) s

/-! ### The call -/

def preflight : List InitStep :=
  [.checkInitialized,.fromMapping,.validateRegistry,.ensureExecutorRoutesAvailable,
    .ensureBlueprintNameAvailable,.buildBlueprint,.ensureCliAvailable]

def preparation : List InitStep :=
  [.logManager,.callbackRegistry,.seedFrom,.adminClient,.callbackClient,.registryService,.runtime,
    .prepareStart,.installRuntimeFinalizer]

def commit : List InitStep :=
  [.registerCli,.ensureExtensions,.publishRuntime,.addApplication,.attachFinalizer,
    .registerBlueprint,.activatePreparedStart,.logInitialized,.logCancelled]

/-- `FlaskXXLJob.init_app`: what it raises, and what it leaves. -/
def initApp (s : InitState) : Option InitError × InitState :=
  match runSteps (InitStep.run env) preflight s with
  | (some e,s) => (some e,s)
  | (none,s) =>
    match runSteps (InitStep.run env) preparation s with
    | (some e,s) => (some e,closeUncommittedRuntimeResources env s)
    | (none,s) =>
      match runSteps (InitStep.run env) commit s with
      | (some e,s) =>
        (some e,if s.blueprintPublished then CleanupAction.run env s .settlePrepared
          else closeUncommittedRuntimeResources env s)
      | (none,s) => (none,s)

end FlaskXxlJob.Extension
