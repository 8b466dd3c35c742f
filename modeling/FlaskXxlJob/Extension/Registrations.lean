import FlaskXxlJob.Callback.Sequences

/-!
Where a registration goes. Several extensions share the applications of a process; a call names
its application, runs in the context of one, or leaves the choice to the extension.
-/
namespace FlaskXxlJob.Extension
open Python Callback

variable {φ : Type}

/-- What the extensions and the applications of a process hold. -/
structure World (φ : Type) where
  /-- `_deferred_callbacks` of each extension. -/
  deferred : ℕ → Slots φ := fun _ => {}
  /-- `_applications` of each extension. -/
  applications : ℕ → List ℕ := fun _ => []
  /-- The `callback_registry` of an application that has a Runtime. -/
  registry : ℕ → Option (Slots φ) := fun _ => none

inductive ExtensionError where
  | alreadyInitialized
  | noApplication
  | multipleApplications
  | notInitialized
  | registration (e : RegistrationError)
  deriving DecidableEq

def ExtensionError.message (repr : String → String) : ExtensionError → String
  | alreadyInitialized => "Flask-XXLJob has already been initialized on this application. " ++
      "Call init_app(app) only once per application."
  | noApplication => "No Flask application available. Pass app=... or run within an " ++
      "application context."
  | multipleApplications => "Multiple Flask applications are initialized. Pass app=... or run " ++
      "within the target application's context."
  | notInitialized => "Flask-XXLJob is not initialized on this application. " ++
      "Call init_app(app) first."
  | registration e => e.message repr

/-- The registry a call works on. -/
inductive Owner where
  | extension (e : ℕ)
  | app (a : ℕ)
  deriving DecidableEq

/-! ### Resolving the application -/

/-- `ApplicationRegistry.resolve` -/
def resolve (apps : List ℕ) (app : Option ℕ) : Except ExtensionError ℕ :=
  match app with
  | some a => .ok a
  | none =>
    match apps with
    | [] => .error .noApplication
    | [a] => .ok a
    | _ :: _ :: _ => .error .multipleApplications

variable (w : World φ) (e : ℕ) (context : Option ℕ)

def resolveApp (app : Option ℕ) : Except ExtensionError ℕ :=
  match app,context with
  | some a,_ => .ok a
  | none,some a => .ok a
  | none,none => resolve (w.applications e) none

/-- The application whose Runtime `_get_runtime` returns. -/
def getRuntime (app : Option ℕ) : Except ExtensionError ℕ := do
  let target ← resolveApp w e context app
  if (w.registry target).isSome then .ok target else .error .notInitialized

def targetRegistry : Except ExtensionError Owner :=
  if context.isSome then .app <$> getRuntime w e context none
  else if w.applications e = [] then .ok (.extension e)
  else do
    let app ← resolve (w.applications e) none
    .app <$> getRuntime w e context (some app)

def registryFor (app : Option ℕ) : Except ExtensionError Owner :=
  match app with
  | some _ => .app <$> getRuntime w e context app
  | none => targetRegistry w e context

def World.slots (w : World φ) : Owner → Slots φ
  | .extension e => w.deferred e
  | .app a => (w.registry a).getD {}

def World.put (w : World φ) (self : Slots φ) : Owner → World φ
  | .extension e => { w with deferred := Function.update w.deferred e self }
  | .app a => { w with registry := Function.update w.registry a (some self) }

/-! ### The methods -/

/-- A registering method with its arguments, where a decorator has been applied. -/
inductive Registration (φ : Type) where
  | onRun (executorHandler : HandlerKey) (func : φ)
  | onIdleBeat (func : Option φ)
  | onKill (func : Option φ)
  | onLog (func : Option φ)
  | registerCallbacks (app : Option ℕ) (batch : Batch φ) (replace : Bool)
  | setRunCallback (app : Option ℕ) (executorHandler : HandlerKey) (func : φ) (replace : Bool)
  | setIdleBeatCallback (app : Option ℕ) (func : Option φ) (replace : Bool)
  | setKillCallback (app : Option ℕ) (func : Option φ) (replace : Bool)
  | setLogCallback (app : Option ℕ) (func : Option φ) (replace : Bool)

namespace Registration

def app : Registration φ → Option ℕ
  | onRun .. | onIdleBeat _ | onKill _ | onLog _ => none
  | registerCallbacks app .. | setRunCallback app .. | setIdleBeatCallback app ..
  | setKillCallback app .. | setLogCallback app .. => app

def replaces : Registration φ → Bool
  | onRun .. | onIdleBeat _ | onKill _ | onLog _ => false
  | registerCallbacks _ _ replace | setRunCallback _ _ _ replace
  | setIdleBeatCallback _ _ replace | setKillCallback _ _ replace
  | setLogCallback _ _ replace => replace

/-- `on_run` checks the name before anything else. -/
def target : Registration φ → Except ExtensionError Owner
  | onRun executorHandler _ => do
    let _ ← (validateExecutorHandler executorHandler).mapError .registration
    targetRegistry w e context
  | onIdleBeat _ | onKill _ | onLog _ => targetRegistry w e context
  | registerCallbacks app .. | setRunCallback app .. | setIdleBeatCallback app ..
  | setKillCallback app .. | setLogCallback app .. => registryFor w e context app

def operation : Registration φ → Operation φ
  | onRun executorHandler func => .setRun executorHandler func false
  | onIdleBeat func => .setIdleBeat func false
  | onKill func => .setKill func false
  | onLog func => .setLog func false
  | registerCallbacks _ batch replace => .registerCallbacks batch replace
  | setRunCallback _ executorHandler func replace => .setRun executorHandler func replace
  | setIdleBeatCallback _ func replace => .setIdleBeat func replace
  | setKillCallback _ func replace => .setKill func replace
  | setLogCallback _ func replace => .setLog func replace

end Registration

/-- The method of `CallbackRegistry` behind an operation. -/
def registryMethod (callable : φ → Bool) : Operation φ → Method φ Unit
  | .registerCallbacks batch replace => Callback.registerCallbacks callable batch replace
  | .setRun executorHandler func replace => setRun callable executorHandler func replace
  | .setIdleBeat func replace => setIdleBeat callable func replace
  | .setKill func replace => setKill callable func replace
  | .setLog func replace => setLog callable func replace
  | .seedFrom other => modify fun self => seedFrom self other

def register (callable : φ → Bool) (r : Registration φ) : Except ExtensionError Unit × World φ :=
  match r.target w e context with
  | .error err => (.error err,w)
  | .ok owner =>
    let (outcome,self) := invoke (registryMethod callable r.operation) (w.slots owner)
    (outcome.mapError .registration,w.put self owner)

def getRunCallback (app : Option ℕ) (executorHandler : HandlerKey) :
    Except ExtensionError (Option φ) := do
  let name ← (validateExecutorHandler executorHandler).mapError .registration
  let owner ← registryFor w e context app
  return (w.slots owner).run.lookup name

/-- `get_idle_beat_callback`, `get_kill_callback` and `get_log_callback`. -/
def getSingleCallback (app : Option ℕ) (slot : Single) : Except ExtensionError (Option φ) := do
  let owner ← registryFor w e context app
  return (w.slots owner).single slot

/-! ### Runs -/

inductive HostAction (φ : Type) where
  /-- `init_app`: it returns, or fails after its Blueprint has become visible, if `stays`; a call
  that fails before is undone. -/
  | initApp (e a : ℕ) (stays : Bool)
  | register (e : ℕ) (context : Option ℕ) (r : Registration φ)
  /-- The application is garbage-collected. -/
  | collect (a : ℕ)

def World.initApp (w : World φ) (e a : ℕ) (stays : Bool) : World φ :=
  if (w.registry a).isSome || !stays then w
  else
    { w with
      applications := Function.update w.applications e ((w.applications e).insert a)
      registry := Function.update w.registry a (some (seedFrom {} (w.deferred e))) }

def World.collect (w : World φ) (a : ℕ) : World φ :=
  { w with
    applications := fun e => (w.applications e).filter (· ≠ a)
    registry := Function.update w.registry a none }

def World.act (callable : φ → Bool) (w : World φ) : HostAction φ → World φ
  | .initApp e a stays => w.initApp e a stays
  | .register e context r => (Extension.register w e context callable r).2
  | .collect a => w.collect a

def World.run (callable : φ → Bool) (w : World φ) (actions : List (HostAction φ)) : World φ :=
  actions.foldl (World.act callable) w

end FlaskXxlJob.Extension
