import FlaskXxlJob.Interleaving.Machine
import FlaskXxlJob.Registry.Sections

/-!
The Registry service as interleaved threads. Every instruction is one state-lock section, one
half of a network-lock section, one Event operation, or a read of an operation's result.
Public calls, Worker threads and cleanup actors are stacks of these instructions.
-/
namespace FlaskXxlJob.Registry
open FlaskXxlJob.Client Interleaving

/-- The API calls of the service and the private steps of `init_app`. -/
inductive Call where
  | start
  | stop (remove : Bool)
  | shutdown (deregisterOnExit : Bool)
  | registerExecutor
  | removeExecutor
  | prepareStart
  | activatePreparedStart (p : ℕ)
  | cancelPreparedStart (p : ℕ)
  | settlePreparedAfterPublishFailure (p : ℕ)
  deriving DecidableEq

/-- Where a real RPC is issued. A register carries its token and generation. -/
inductive RpcCall where
  | register (coordination : Option ℕ) (generation : ℕ)
  | remove
  | worker (c : ℕ)
  | active (o : ℕ)
  deriving DecidableEq

/-- Who calls `_schedule_pending_remove`: a background path with `raise_start_error=False`,
`shutdown` under its own handler, `stop`, or a terminal caller that goes on to observe `o`. -/
inductive Scheduler where
  | quiet
  | shutdown
  | stop
  | observer (o generation : ℕ)
  deriving DecidableEq

inductive Instr where
  | prepareStart (activate : Bool)
  | activatePreparedStart (p : ℕ)
  | cancelPreparedStart (p : ℕ)
  | settlePrepared (p : ℕ)
  | setStop (c : ℕ)
  | setActivate (p : ℕ)
  | setOperationDone (o : ℕ)
  | setCoordinationDone (k : ℕ)
  | waitActivate (p : ℕ)
  | preparedWorkerEntry (c : ℕ)
  | runWorker (c : ℕ)
  | waitRemove (c o : ℕ)
  | workerLoop (c : ℕ)
  | performWorkerRegistry (c : ℕ)
  | sleep (c : ℕ)
  | recheckWorker (c : ℕ)
  | finishWorker (c : ℕ)
  | network (call : RpcCall)
  | rpc (call : RpcCall)
  | commit (call : RpcCall) (sequence : ℕ) (result : CallResult)
  | stop (remove : Bool)
  | shutdown (deregisterOnExit : Bool)
  | shutdownRequest (targetGeneration : ℕ)
  | recordLocalFailure (result : CallResult)
  | joinRegister
  | removeOnce
  | terminalRemove (generation : ℕ)
  | waitOperation (o : ℕ)
  | waitCoordination (k : ℕ)
  | operationResult (o : ℕ)
  | pendingResult (o generation : ℕ)
  | schedulePendingRemove (caller : Scheduler)
  | runCleanupActor (o : ℕ)
  | finishCleanupActor (o : ℕ)
  | maybeCloseLogs
  | closeLogs
  | returnRegister (sequence generation : ℕ) (result : CallResult)
  | returnRemove (result : CallResult)
  deriving DecidableEq

/-- The identity of a real RPC in the history. -/
inductive RpcKind where
  | register (generation : ℕ)
  | remove
  | worker (c generation : ℕ)
  | active (o generation : ℕ)
  deriving DecidableEq

inductive Event where
  | called (t : ℕ) (call : Call)
  | rpc (t sequence : ℕ) (kind : RpcKind) (result : CallResult)
  | accepted (t sequence : ℕ) (kind : RpcKind) (result : CallResult) (now : String)
  | localFailure (result : CallResult) (now : String)
  | pendingCreated (o generation : ℕ)
  | pendingCancelled (o : ℕ)
  | prepared (p : ℕ)
  | committed (p t : ℕ)
  | cancelled (p : ℕ)
  | finished (c t : ℕ)
  | enteredRemove (t generation : ℕ)
  | registerReturned (t sequence generation : ℕ) (result : CallResult)
  | removeReturned (t : ℕ) (result : CallResult)
  | raised (t : ℕ) (errorType : String)
  | logsClosed
  deriving DecidableEq

/-- An Admin call returns a result or raises an ordinary exception of the given type. -/
inductive AdminOutcome where
  | returned (result : CallResult)
  | raised (errorType : String)

/-- What the environment decides at a step. -/
structure Choice where
  outcome : AdminOutcome := .returned { success := true }
  /-- The exception type `Thread.start` raises, if it raises. -/
  startError : Option String := none
  now : String := ""
  /-- The renewal interval has elapsed. -/
  timeout : Bool := false

namespace RpcCall

def isRemove : RpcCall → Bool
  | .register .. | .worker _ => false
  | .remove | .active _ => true

def kind (s : State) : RpcCall → RpcKind
  | .register _ g => .register g
  | .remove => .remove
  | .worker c => .worker c (s.contexts c).generation
  | .active o => .active o (s.operations o).generation

def outcome (call : RpcCall) : AdminOutcome → CallResult
  | .returned r => r
  | .raised e => unexpectedResult (if call.isRemove then "removal" else "registration") e

end RpcCall

abbrev Step := Effect State Instr Event

/-- The two history events that a change of the Pending slot leaves. -/
def pendingEvents (s s' : State) : List Event :=
  (match s.pendingRemove with
    | some o =>
      if s'.pendingRemove = none ∧ s'.activeRemove ≠ some o then [.pendingCancelled o] else []
    | none => []) ++
  (match s'.pendingRemove with
    | some o =>
      if s.pendingRemove = some o then []
      else [.pendingCreated o (s'.operations o).generation]
    | none => [])

/-- The event that clearing the Prepared slot without a commit leaves. -/
def cancelledEvents (s : State) : List Event :=
  match s.preparedStart with
  | some p => [.cancelled p]
  | none => []

/-- Set both Events of a token that its caller has just cancelled. -/
def wakeCancelled (s : State) : Option ℕ → List Instr
  | some p => [.setStop (s.prepareds p).context, .setActivate p]
  | none => []

/-- Schedule an operation, if there is one. -/
def scheduleFor (caller : Scheduler) : Option ℕ → List Instr
  | some _ => [.schedulePendingRemove caller]
  | none => []

/-- Continue a Worker at `i` if it is still current, otherwise at its `finally`. -/
def guardCurrent (s : State) (c : ℕ) (i : Instr) : Step :=
  { state := s, push := [if workerIsCurrent s c then i else .finishWorker c] }

def prepareStart (s : State) (t fresh : ℕ) (activate : Bool) (startError : Option String) :
    Step :=
  if prepareRefused s then { state := s }
  else
    match startError with
    | some e => { state := s, events := [.raised t e] }
    | none =>
      let p := s.nextPrepared
      { state := publishPrepared s fresh
        push := if activate then [.activatePreparedStart p] else []
        spawn := some [.waitActivate p, .preparedWorkerEntry p]
        events := [.prepared p] }

def activatePreparedStart (s : State) (t p : ℕ) : Step :=
  match activationOf s p with
  | .refused => { state := s }
  | .raised => { state := s, events := [.raised t "RuntimeError"] }
  | .committed =>
    let (s', cancelled, detached) := commitActivation s p
    { state := s'
      push := cancelled.toList.map .setOperationDone ++
        detached.toList.map .setCoordinationDone ++ [.setActivate p]
      events := pendingEvents s s' ++ [.committed p t] }

def cancelPreparedStart (s : State) (p : ℕ) : Step :=
  if s.preparedStart = some p then
    { state := cancelPrepared s p
      push := wakeCancelled s (some p)
      events := [.cancelled p] }
  else { state := s }

def settlePrepared (s : State) (p : ℕ) : Step :=
  match settlementOf s p with
  | .cancelUncommitted =>
    { state := cancelPrepared s p
      push := wakeCancelled s (some p)
      events := [.cancelled p] }
  | .wakeCommitted => { state := s, push := [.setActivate p] }
  | .nothing => { state := s }

/-- `stop` schedules its operation, if it has one, before it may close the logs. -/
def scheduleOrClose : Option ℕ → List Instr
  | some _ => [.schedulePendingRemove .stop]
  | none => [.maybeCloseLogs]

def stop (s : State) (remove : Bool) : Step :=
  let (s', prepared, operation) := stopSection s remove
  { state := s'
    push := wakeCancelled s prepared ++ scheduleOrClose operation
    events := cancelledEvents s ++ pendingEvents s s' }

/-- What `shutdown` does between its first section and closing the logs: nothing, request the
cleanup of the generation it has seen, or record that the configuration is invalid. -/
def exitRequest (cfg : Config) (s : State) (deregister : Bool) : List Instr :=
  if shouldValidateRemove cfg s deregister then
    match cfg.registryError with
    | none => [.shutdownRequest s.generation]
    | some e => [.recordLocalFailure (invalidExitConfiguration e)]
  else []

def shutdown (cfg : Config) (s : State) (deregister : Bool) : Step :=
  let s' := shutdownLocal cfg s deregister
  { state := s'
    push := wakeCancelled s s.preparedStart ++ exitRequest cfg s' deregister ++ [.maybeCloseLogs]
    events := cancelledEvents s }

def shutdownRequest (s : State) (target : ℕ) : Step :=
  if s.generation = target then
    let (s', operation) := requestRemoveLocked s
    { state := s', push := scheduleFor .shutdown operation, events := pendingEvents s s' }
  else { state := s }

def joinRegister (s : State) : Step :=
  let (s', coordination, generation, detached) := joinRegisterCoordination s
  { state := s'
    push := detached.toList.map .setCoordinationDone ++
      [.network (.register coordination generation)] }

/-- Acquire the network lock; a Worker rechecks its lifecycle under it. -/
def enterNetwork (s : State) (t : ℕ) (call : RpcCall) : Step :=
  let locked : Step := { state := { s with networkLock := some t }, push := [.rpc call] }
  match call with
  | .worker c => if workerIsCurrent s c then locked else { state := s, push := [.finishWorker c] }
  | .register .. | .remove | .active _ => locked

/-- Allocate the sequence, call Admin and release the network lock. -/
def callRegistry (s : State) (t : ℕ) (call : RpcCall) (outcome : AdminOutcome) : Step :=
  let sequence := s.rpcSequence + 1
  let result := call.outcome outcome
  { state := { s with rpcSequence := sequence, networkLock := none }
    push := [.commit call sequence result]
    events := [.rpc t sequence (call.kind s) result] }

/-- The history entry of an accepted completion. -/
def acceptedEvents (b : Bool) (t sequence : ℕ) (kind : RpcKind) (result : CallResult)
    (now : String) : List Event :=
  if b then [.accepted t sequence kind result now] else []

def commitRegister (cfg : Config) (now : String) (s : State) (t : ℕ) (coordination : Option ℕ)
    (generation sequence : ℕ) (result : CallResult) : Step :=
  let accepted := acceptOneShot cfg now s result sequence false (some generation) coordination
  let events := acceptedEvents (s.lastAppliedRpcSequence < sequence) t sequence
    (.register generation) result now
  match coordination with
  | none =>
    { state := accepted, push := [.returnRegister sequence generation result], events }
  | some k =>
    let (s', done, operation) := releaseCoordination accepted k
    { state := s'
      push := (if done then [.setCoordinationDone k] else []) ++ scheduleFor .quiet operation ++
        [.maybeCloseLogs, .returnRegister sequence generation result]
      events := events ++ pendingEvents s s' }

def commitRemove (cfg : Config) (now : String) (s : State) (t sequence : ℕ)
    (result : CallResult) : Step :=
  { state := acceptOneShot cfg now s result sequence true none none
    push := [.returnRemove result]
    events := acceptedEvents (s.lastAppliedRpcSequence < sequence) t sequence .remove result now }

def commitWorker (cfg : Config) (now : String) (s : State) (t c sequence : ℕ)
    (result : CallResult) : Step :=
  { state := acceptWorker cfg now s c result sequence
    push := [if workerIsCurrent s c then .sleep c else .finishWorker c]
    events := acceptedEvents (workerIsCurrent s c && decide (s.lastAppliedRpcSequence < sequence))
      t sequence (.worker c (s.contexts c).generation) result now }

def commitActive (cfg : Config) (now : String) (s : State) (t o sequence : ℕ)
    (result : CallResult) : Step :=
  let (s', cancelled) := completeRemoveOperation cfg now s o result sequence
  { state := s'
    push := .setOperationDone o :: cancelled.toList.map .setOperationDone ++
      [.schedulePendingRemove .quiet, .maybeCloseLogs]
    events := acceptedEvents
      (s.activeRemove = some o && decide (s.lastAppliedRpcSequence < sequence)) t sequence
      (.active o (s.operations o).generation) result now ++ pendingEvents s s' }

def commitRpc (cfg : Config) (now : String) (s : State) (t : ℕ) (call : RpcCall)
    (sequence : ℕ) (result : CallResult) : Step :=
  match call with
  | .register k g => commitRegister cfg now s t k g sequence result
  | .remove => commitRemove cfg now s t sequence result
  | .worker c => commitWorker cfg now s t c sequence result
  | .active o => commitActive cfg now s t o sequence result

def finishWorker (s : State) (t c : ℕ) : Step :=
  { state := finishWorkerSection s c
    push := [match workerClaim s c with
      | some o => .network (.active o)
      | none => .schedulePendingRemove .quiet, .maybeCloseLogs]
    events := [.finished c t] }

def removeOnce (s : State) (t : ℕ) : Step :=
  match s.worker with
  | none =>
    { state := s
      push := [.terminalRemove s.generation]
      events := [.enteredRemove t s.generation] }
  | some _ => { state := s, push := [.network .remove] }

def terminalRemove (cfg : Config) (s : State) (generation : ℕ) : Step :=
  match terminalView s generation with
  | .oneShot => { state := s, push := [.network .remove] }
  | .registers k => { state := s, push := [.waitCoordination k, .terminalRemove generation] }
  | .cached r => { state := s, push := [.returnRemove (cfg.safeResult r)] }
  | .sameActive o => { state := s, push := [.waitOperation o, .operationResult o] }
  | .samePending o =>
    { state := s, push := [.schedulePendingRemove (.observer o generation)] }
  | .otherOperation o => { state := s, push := [.waitOperation o, .terminalRemove generation] }
  | .own =>
    { state := publishActive s generation
      push := [.network (.active s.nextOperation), .operationResult s.nextOperation] }

/-- What the caller does after `_schedule_pending_remove` has returned. -/
def Scheduler.returned : Scheduler → List Instr
  | .quiet | .shutdown => []
  | .stop => [.maybeCloseLogs]
  | .observer o generation => [.waitOperation o, .pendingResult o generation]

/-- What remains to do after a failed start: only the quiet path goes on to close the logs,
`shutdown` does so itself, and the exception leaves `stop` and `remove_executor`. -/
def Scheduler.failed : Scheduler → List Instr
  | .quiet => [.maybeCloseLogs]
  | .shutdown | .stop | .observer .. => []

/-- The start error that the caller of `stop` or `remove_executor` sees. -/
def Scheduler.raisedEvents (caller : Scheduler) (t : ℕ) (e : String) : List Event :=
  match caller with
  | .quiet | .shutdown => []
  | .stop | .observer .. => [.raised t e]

def schedulePendingRemove (cfg : Config) (now : String) (alive : ℕ → Bool) (s : State)
    (t fresh : ℕ) (caller : Scheduler) (startError : Option String) : Step :=
  match schedulable alive s with
  | none => { state := s, push := caller.returned }
  | some o =>
    let s' := associateActor s o fresh
    match startError with
    | none => { state := s', push := caller.returned, spawn := some [.runCleanupActor o] }
    | some e =>
      let s'' := failActorStart cfg now s' o fresh e
      { state := s''
        push := .setOperationDone o :: caller.failed
        events := .localFailure (startFailure e) now :: pendingEvents s s'' ++
          caller.raisedEvents t e }

def runCleanupActor (s : State) (o : ℕ) : Step :=
  if actorClaims s o then
    { state := claimPending s o, push := [.network (.active o), .finishCleanupActor o] }
  else { state := s, push := [.finishCleanupActor o] }

/-- The result of an operation for a caller that observed it. -/
def Config.observedResult (cfg : Config) (s : State) (o : ℕ) : Option CallResult :=
  (s.operations o).result.map cfg.safeResult

/-- Whether an instruction can run: Event waits and the network lock block. -/
def enabled (s : State) (ch : Choice) : Instr → Bool
  | .waitActivate p => (s.prepareds p).activateEvent
  | .waitRemove _ o | .waitOperation o => (s.operations o).doneEvent
  | .waitCoordination k => (s.coordinations k).doneEvent
  | .sleep c => (s.contexts c).stopEvent || ch.timeout
  | .network _ => s.networkLock.isNone
  | _ => true

/-- What an instruction of thread `t` does when it runs. -/
def effect (cfg : Config) (alive : ℕ → Bool) (t fresh : ℕ) (ch : Choice) (s : State) :
    Instr → Step
  | .prepareStart activate => prepareStart s t fresh activate ch.startError
  | .activatePreparedStart p => activatePreparedStart s t p
  | .cancelPreparedStart p => cancelPreparedStart s p
  | .settlePrepared p => settlePrepared s p
  | .setStop c => { state := s.updateContext c fun ctx => { ctx with stopEvent := true } }
  | .setActivate p =>
    { state := s.updatePrepared p fun prep => { prep with activateEvent := true } }
  | .setOperationDone o => { state := s.updateOperation o fun op => { op with doneEvent := true } }
  | .setCoordinationDone k =>
    { state := s.updateCoordination k fun c => { c with doneEvent := true } }
  | .waitActivate _ | .waitOperation _ | .waitCoordination _ => { state := s }
  | .preparedWorkerEntry c =>
    { state := s, push := if ownsLifecycle s c then [.runWorker c] else [] }
  | .runWorker c =>
    guardCurrent s c
      (match (s.contexts c).waitRemoveEvent with
        | some o => .waitRemove c o
        | none => .workerLoop c)
  | .waitRemove c _ => { state := s, push := [.recheckWorker c] }
  | .recheckWorker c => guardCurrent s c (.workerLoop c)
  | .workerLoop c => guardCurrent s c (.performWorkerRegistry c)
  | .performWorkerRegistry c => guardCurrent s c (.network (.worker c))
  | .sleep c =>
    { state := s
      push := [if (s.contexts c).stopEvent then .finishWorker c else .recheckWorker c] }
  | .finishWorker c => finishWorker s t c
  | .network call => enterNetwork s t call
  | .rpc call => callRegistry s t call ch.outcome
  | .commit call sequence result => commitRpc cfg ch.now s t call sequence result
  | .stop remove => stop s remove
  | .shutdown deregister => shutdown cfg s deregister
  | .shutdownRequest target => shutdownRequest s target
  | .recordLocalFailure result =>
    { state := recordResultLocked cfg ch.now s result .local, events := [.localFailure result ch.now] }
  | .joinRegister => joinRegister s
  | .removeOnce => removeOnce s t
  | .terminalRemove generation => terminalRemove cfg s generation
  | .operationResult o =>
    { state := s, push := [.returnRemove ((cfg.observedResult s o).getD removalWithoutResult)] }
  | .pendingResult o generation =>
    { state := s
      push := [match cfg.observedResult s o with
        | some r => .returnRemove r
        | none => .terminalRemove generation] }
  | .schedulePendingRemove caller =>
    schedulePendingRemove cfg ch.now alive s t fresh caller ch.startError
  | .runCleanupActor o => runCleanupActor s o
  | .finishCleanupActor o =>
    { state := releaseActor s o t, push := [.schedulePendingRemove .quiet, .maybeCloseLogs] }
  | .maybeCloseLogs =>
    if closesLogs s then { state := { s with logsClosed := true }, push := [.closeLogs] }
    else { state := s }
  | .closeLogs => { state := s, events := [.logsClosed] }
  | .returnRegister sequence generation result =>
    { state := s, events := [.registerReturned t sequence generation result] }
  | .returnRemove result => { state := s, events := [.removeReturned t result] }

/-- One atomic step of thread `t`. -/
def exec (cfg : Config) (alive : ℕ → Bool) (t fresh : ℕ) (i : Instr) (ch : Choice)
    (s : State) : Option Step :=
  if enabled s ch i then some (effect cfg alive t fresh ch s i) else none

theorem exec_eq_some {cfg : Config} {alive : ℕ → Bool} {t fresh : ℕ} {i : Instr} {ch : Choice}
    {s : State} {e : Step} : exec cfg alive t fresh i ch s = some e ↔
      enabled s ch i = true ∧ effect cfg alive t fresh ch s i = e := by
  unfold exec
  split <;> simp_all

/-- The stack of a call: a disabled service returns, records or does nothing, and an invalid
Registry configuration raises before any side effect. -/
def entry (cfg : Config) : Call → List Instr
  | .start => if cfg.enabled && cfg.registryError.isNone then [.prepareStart true] else []
  | .prepareStart =>
    if cfg.enabled && cfg.registryError.isNone then [.prepareStart false] else []
  | .stop remove =>
    if cfg.enabled && (!remove || cfg.registryError.isNone) then [.stop remove] else []
  | .shutdown deregister => [.shutdown deregister]
  | .registerExecutor =>
    if !cfg.enabled then [.recordLocalFailure disabledResult]
    else if cfg.registryError.isNone then [.joinRegister] else []
  | .removeExecutor =>
    if !cfg.enabled then [.recordLocalFailure disabledResult]
    else if cfg.registryError.isNone then [.removeOnce] else []
  | .activatePreparedStart p => [.activatePreparedStart p]
  | .cancelPreparedStart p => [.cancelPreparedStart p]
  | .settlePreparedAfterPublishFailure p => [.settlePrepared p]

def machine (cfg : Config) : Machine State Instr Choice Call Event where
  exec := exec cfg
  entry := entry cfg
  called := fun t c => [.called t c]

abbrev System := Sys State Instr Event

def System.blank : System where
  shared := .blank
  code := fun _ => []
  next := 0
  history := []

abbrev step (cfg : Config) : System → Action Choice Call → Option System := (machine cfg).step

/-- The system after thread `t` has run `i`, with `rest` below it on its stack. -/
abbrev System.after (cfg : Config) (s : System) (t : ℕ) (i : Instr) (rest : List Instr)
    (ch : Choice) : System :=
  s.advance t ((effect cfg s.alive t s.next ch s.shared i).push ++ rest)
    (effect cfg s.alive t s.next ch s.shared i)

/-- The system after a call has been made on a new thread. -/
abbrev System.called (cfg : Config) (s : System) (c : Call) : System := (machine cfg).start s c

/-- Every step of a thread runs the top of its stack. -/
theorem step_run_cases {cfg : Config} {s s' : System} {t : ℕ} {ch : Choice}
    (h : step cfg s (.run t ch) = some s') : ∃ i rest, s.code t = i :: rest ∧
      enabled s.shared ch i = true ∧ s' = s.after cfg t i rest ch := by
  obtain ⟨i,rest,e,hc,he,rfl⟩ := Machine.step_run h
  obtain ⟨hen,rfl⟩ := exec_eq_some.mp he
  exact ⟨i,rest,hc,hen,rfl⟩

/-- Reachable from a blank process state by any interleaving. -/
def Reachable (cfg : Config) : System → Prop := Run (step cfg) (fun _ _ => True) .blank

/-- An enabled service with a valid Registry configuration and nothing to redact. -/
def Config.plain : Config where
  enabled := true
  registryError := none
  redact := id

/-- Thread `t` takes a step; Admin succeeds if it is asked, and threads start. -/
def proceed (t : ℕ) : Action Choice Call := .run t {}

/-- Thread `t` takes a step; Admin fails if it is asked. -/
def refuse (t : ℕ) : Action Choice Call := .run t { outcome := .returned { success := false } }

end FlaskXxlJob.Registry
