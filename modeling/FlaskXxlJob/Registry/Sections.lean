import FlaskXxlJob.Registry.State

/-!
The state-lock sections of the Registry service, each as a function of the process state.
All of them run in one process, so the PID guards of the source always pass.
-/
namespace FlaskXxlJob.Registry
open FlaskXxlJob.Client

/-! ### Results and the status snapshot -/

inductive Operation where
  | worker | register | remove | local
  deriving DecidableEq

/-- `_safe_result` -/
def Config.safeResult (cfg : Config) (result : CallResult) : CallResult :=
  { result with msg := result.msg.map cfg.redact, error := result.error.map cfg.redact }

@[simp] theorem Config.safeResult_success (cfg : Config) (r : CallResult) :
    (cfg.safeResult r).success = r.success := rfl

/-- `_record_result_locked` -/
def recordResultLocked (cfg : Config) (now : String) (s : State) (result : CallResult)
    (operation : Operation) : State :=
  let safe := cfg.safeResult result
  { s with
    lastResult := some safe
    lastError := if safe.success then none else some safe
    lastRegistryTime := some now
    lastRegistrySuccess := some safe.success
    lastRegistryAdminAddress := safe.address
    lastRegistryErrorType := safe.errorType
    lastRegistryMessage := safe.message
    registered :=
      match operation with
      | .worker => safe.success
      | .register => if safe.success then true else s.registered
      | .remove => if safe.success then false else s.registered
      | .local => s.registered }

def unexpectedResult (action errorType : String) : CallResult where
  success := false
  error := some s!"Unexpected error during XXL-JOB executor {action}."
  errorType := some errorType

def disabledResult : CallResult where
  success := false
  error := some "Flask-XXLJob is disabled."
  errorType := some "config"

def internalOperationResult (message : String) : CallResult where
  success := false
  error := some message
  errorType := some "lifecycle"

def removalWithoutResult : CallResult :=
  internalOperationResult "Registry removal completed without a result."

def startFailure (errorType : String) : CallResult where
  success := false
  error := some "Failed to start Registry cleanup actor."
  errorType := some errorType

def invalidExitConfiguration (errorType : String) : CallResult where
  success := false
  error := some "Invalid Registry configuration during exit cleanup."
  errorType := some errorType

/-! ### Register coordination and cleanup responsibility -/

def dropCoordination (s : State) : State := { s with registerCoordination := none }

/-- Publish a new, empty coordination of the current generation. -/
def openCoordination (s : State) : State :=
  { s with
    coordinations :=
      Function.update s.coordinations s.nextCoordination { generation := s.generation }
    nextCoordination := s.nextCoordination + 1
    registerCoordination := some s.nextCoordination }

def enterCoordination (s : State) (k : ℕ) : State :=
  s.updateCoordination k fun c =>
    { c with inflightCount := c.inflightCount + 1, doneEvent := false }

/-- Truncated subtraction is the `inflight_count > 0` test of the source. -/
def leaveCoordination (s : State) (k : ℕ) : State :=
  s.updateCoordination k fun c => { c with inflightCount := c.inflightCount - 1 }

def requestCleanup (s : State) (k : ℕ) : State :=
  s.updateCoordination k fun c => { c with cleanupRequested := true }

/-- `_join_register_coordination`: the token, the generation, and a detached coordination
whose event is set after the section. -/
def joinRegisterCoordination (s : State) : State × Option ℕ × ℕ × Option ℕ :=
  let detached := s.registerCoordination.filter fun k =>
    (s.coordinations k).generation ≠ s.generation
  let s := if detached.isSome then dropCoordination s else s
  match s.registerCoordination with
  | some k =>
    if (s.coordinations k).cleanupRequested then (s, none, s.generation, detached)
    else (enterCoordination s k, some k, s.generation, detached)
  | none =>
    (enterCoordination (openCoordination s) s.nextCoordination, some s.nextCoordination,
      s.generation, detached)

/-- Forget the cached success and the request of the previous cleanup responsibility. -/
def reopenCleanup (s : State) : State :=
  { s with
    lastSuccessfullyRemovedGeneration := none
    lastSuccessfullyRemovedResult := none
    lastRemoveRequestedGeneration := none }

/-- The three grounds of `_invalidate_successful_cleanup_locked`. -/
def reopensCleanup (s : State) (generation : ℕ) (coordination : Option ℕ) : Bool :=
  let owned := coordination.any fun k =>
    s.registerCoordination = some k && (s.coordinations k).generation = generation
  let invalidatesCachedSuccess :=
    decide (s.lastSuccessfullyRemovedGeneration = some generation)
  let restoresCoordinatedResponsibility :=
    owned && coordination.any fun k => (s.coordinations k).cleanupRequested
  let opensManualResponsibility := decide (generation = 0) && owned
  invalidatesCachedSuccess || restoresCoordinatedResponsibility || opensManualResponsibility

/-- `_invalidate_successful_cleanup_locked` -/
def invalidateSuccessfulCleanupLocked (s : State) (generation : ℕ)
    (coordination : Option ℕ) : State :=
  if s.generation ≠ generation then s
  else if reopensCleanup s generation coordination then reopenCleanup s
  else s

/-- `_has_remove_for_generation_locked` -/
def hasRemoveForGenerationLocked (s : State) (generation : ℕ) : Bool :=
  s.activeRemove.any (fun o => (s.operations o).generation = generation) ||
    s.pendingRemove.any fun o => (s.operations o).generation = generation

def markRequested (s : State) (generation : ℕ) : State :=
  { s with lastRemoveRequestedGeneration := some generation }

/-- Publish a new Pending Remove and mark its generation as requested. -/
def createPending (s : State) (generation : ℕ) : State :=
  { s with
    lastRemoveRequestedGeneration := some generation
    operations := Function.update s.operations s.nextOperation { generation }
    nextOperation := s.nextOperation + 1
    pendingRemove := some s.nextOperation }

/-- `_ensure_pending_remove_locked` -/
def ensurePendingRemoveLocked (s : State) (generation : ℕ) : State × Option ℕ :=
  if generation = 0 ∧ s.registered = false then (s, none)
  else if s.lastSuccessfullyRemovedGeneration = some generation then (s, none)
  else
    match s.pendingRemove with
    | some pending =>
      if (s.operations pending).generation = generation then
        (markRequested s generation, some pending)
      else (s, none)
    | none =>
      if s.lastRemoveRequestedGeneration = some generation then (s, none)
      else (createPending s generation, some s.nextOperation)

/-- The first half of `_reconcile_register_coordination_locked`: represent a requested
cleanup whose last counted register has finished as Pending. -/
def reconcileRequest (s : State) (k : ℕ) : State × Option ℕ :=
  let coordination := s.coordinations k
  let cleanupRequired := decide (0 < s.generation) || s.registered
  if coordination.cleanupRequested && coordination.inflightCount = 0 && cleanupRequired &&
      s.lastSuccessfullyRemovedGeneration ≠ some s.generation then
    ensurePendingRemoveLocked s s.generation
  else (s, none)

/-- The second half: whether the coordination has nothing left to wait for. -/
def coordinationFinished (s : State) (k : ℕ) : Bool :=
  let coordination := s.coordinations k
  let cleanupPresent := hasRemoveForGenerationLocked s s.generation
  let cleanupSatisfied := decide (s.lastSuccessfullyRemovedGeneration = some s.generation)
  let noCleanupResponsibility := decide (s.generation = 0) && !s.registered
  let cleanupAttemptFinished := coordination.cleanupRequested && !cleanupPresent &&
    s.lastRemoveRequestedGeneration = some s.generation
  coordination.inflightCount = 0 && (!coordination.cleanupRequested || cleanupSatisfied ||
    noCleanupResponsibility || cleanupAttemptFinished)

/-- `_reconcile_register_coordination_locked` -/
def reconcileRegisterCoordinationLocked (s : State) (k : ℕ) : State × Option ℕ :=
  if s.registerCoordination ≠ some k then (s, none)
  else if s.generation ≠ (s.coordinations k).generation then (dropCoordination s, none)
  else
    let (s, operation) := reconcileRequest s k
    (if coordinationFinished s k then dropCoordination s else s, operation)

/-- Reconcile the current coordination if it belongs to `generation`. -/
def reconcileGeneration (s : State) (generation : ℕ) : State :=
  match s.registerCoordination with
  | some k =>
    if (s.coordinations k).generation = generation then
      (reconcileRegisterCoordinationLocked s k).1
    else s
  | none => s

/-- The end of `_request_remove_locked`. -/
def requestPending (s : State) : State × Option ℕ :=
  if s.lastSuccessfullyRemovedGeneration = some s.generation then (s, none)
  else if s.generation = 0 ∧ s.registered = false then (s, none)
  else ensurePendingRemoveLocked s s.generation

/-- `_request_remove_locked` -/
def requestRemoveLocked (s : State) : State × Option ℕ :=
  match s.registerCoordination with
  | some k =>
    if (s.coordinations k).generation = s.generation then
      match reconcileRegisterCoordinationLocked (requestCleanup s k) k with
      | (s, some operation) => (s, some operation)
      | (s, none) =>
        if s.lastSuccessfullyRemovedGeneration = some s.generation ∨
            0 < (s.coordinations k).inflightCount then (s, none)
        else requestPending s
    else requestPending s
  | none => requestPending s

/-! ### Completions -/

def applySequence (s : State) (sequence : ℕ) : State :=
  { s with lastAppliedRpcSequence := sequence }

/-- Record an accepted one-shot or Active Remove completion. -/
def applyResult (cfg : Config) (now : String) (s : State) (result : CallResult)
    (sequence : ℕ) (operation : Operation) : State :=
  applySequence (recordResultLocked cfg now s result operation) sequence

/-- The accepted part of `_commit_one_shot`. -/
def acceptOneShot (cfg : Config) (now : String) (s : State) (result : CallResult)
    (sequence : ℕ) (remove : Bool) (generation coordination : Option ℕ) : State :=
  if s.lastAppliedRpcSequence < sequence then
    let s := applyResult cfg now s result sequence (if remove then .remove else .register)
    match generation, coordination with
    | some g, some k =>
      if !remove && result.success && s.generation = g && (s.coordinations k).generation = g &&
          s.registerCoordination = some k then
        invalidateSuccessfulCleanupLocked s g (some k)
      else s
    | _, _ => s
  else s

/-- The rest of `_commit_one_shot`: give the token back. Returns whether the event of the
coordination is to be set and the operation to be scheduled. -/
def releaseCoordination (s : State) (k : ℕ) : State × Bool × Option ℕ :=
  let s := leaveCoordination s k
  let (s, operation) := if s.registerCoordination = some k then
      reconcileRegisterCoordinationLocked s k
    else (s, none)
  (s, (s.coordinations k).inflightCount = 0, operation)

/-- The state change of a Worker completion in `_perform_worker_registry`. -/
def acceptWorker (cfg : Config) (now : String) (s : State) (c : ℕ) (result : CallResult)
    (sequence : ℕ) : State :=
  if workerIsCurrent s c && decide (s.lastAppliedRpcSequence < sequence) then
    let s := recordResultLocked cfg now s result .worker
    let s := if result.success then
        invalidateSuccessfulCleanupLocked s (s.contexts c).generation none
      else s
    applySequence s sequence
  else s

/-- Cache a successful cleanup of `generation`. -/
def cacheRemoved (s : State) (generation : ℕ) (result : CallResult) : State :=
  { s with
    lastRemoveRequestedGeneration := some generation
    lastSuccessfullyRemovedGeneration := some generation
    lastSuccessfullyRemovedResult := some result }

def dropPending (s : State) : State := { s with pendingRemove := none }

def dropActive (s : State) : State := { s with activeRemove := none }

/-- An accepted Active success satisfies the cleanup of its generation and cancels a Pending
of it. -/
def satisfyCleanup (cfg : Config) (s : State) (o : ℕ) (safe : CallResult) :
    State × Option ℕ :=
  let generation := (s.operations o).generation
  let s := cacheRemoved s generation (cfg.safeResult safe)
  match s.pendingRemove with
  | some pending =>
    if (s.operations pending).generation = generation then (dropPending s, some pending)
    else (s, none)
  | none => (s, none)

/-- The accepted part of `_complete_remove_operation`; returns a cancelled Pending. -/
def acceptRemove (cfg : Config) (now : String) (s : State) (o : ℕ) (result : CallResult)
    (sequence : ℕ) : State × Option ℕ :=
  let safe := cfg.safeResult result
  if s.activeRemove = some o ∧ s.lastAppliedRpcSequence < sequence then
    let s := applyResult cfg now s result sequence .remove
    if safe.success ∧ s.generation = (s.operations o).generation ∧ s.worker = none then
      satisfyCleanup cfg s o safe
    else (s, none)
  else (s, none)

def storeResult (s : State) (o : ℕ) (result : CallResult) : State :=
  s.updateOperation o fun op => { op with result := some result }

/-- `_complete_remove_operation` -/
def completeRemoveOperation (cfg : Config) (now : String) (s : State) (o : ℕ)
    (result : CallResult) (sequence : ℕ) : State × Option ℕ :=
  let (s, cancelled) :=
    acceptRemove cfg now (storeResult s o (cfg.safeResult result)) o result sequence
  let s := if s.activeRemove = some o then dropActive s else s
  (reconcileGeneration s (s.operations o).generation, cancelled)

/-! ### Renewal lifecycle -/

/-- `_prepare_start`, once `Thread.start` has succeeded on thread `t`. -/
def publishPrepared (s : State) (t : ℕ) : State :=
  let p := s.nextPrepared
  { s with
    contexts := Function.update s.contexts p
      { generation := s.generation + 1, thread := some t, preparedOwner := some p }
    prepareds := Function.update s.prepareds p { context := p, thread := t }
    nextPrepared := p + 1
    preparedStart := some p }

/-- `_prepare_start` returns without a token while a Worker is current or another caller
owns a token. -/
def prepareRefused (s : State) : Bool :=
  s.worker.any (isCurrentWorker s) || s.preparedStart.isSome

/-- Move a Worker context to the stopping table and wake it. -/
def detachWorker (s : State) (c : ℕ) : State :=
  let s := { s with
    worker := none
    stoppingWorkers := s.stoppingWorkers.insert (s.contexts c).generation c }
  s.updateContext c fun ctx => { ctx with stopEvent := true }

/-- `_stop_local_locked` -/
def stopLocalLocked (s : State) : State :=
  match s.worker with
  | none => s
  | some c => detachWorker s c

/-- `_activate_prepared_start` refuses a token that no longer owns the slot, and raises when
an ownership check fails. -/
inductive Activation where
  | refused | raised | committed
  deriving DecidableEq

def activationOf (s : State) (p : ℕ) : Activation :=
  let c := (s.prepareds p).context
  if s.preparedStart ≠ some p then .refused
  else if (s.contexts c).preparedOwner ≠ some p then .raised
  else if (s.contexts c).generation ≠ s.generation + 1 then .raised
  else if s.worker.any (isCurrentWorker s) then .raised
  else .committed

/-- Make the context `c` the current Worker: a new generation has neither a Pending Remove
nor a Register coordination. -/
def publishWorker (s : State) (c : ℕ) : State :=
  { s with
    generation := (s.contexts c).generation
    worker := some c
    preparedStart := none
    registerCoordination := none
    pendingRemove := none }

/-- A new Worker waits for an older Active Remove. -/
def waitForActive (s : State) (c : ℕ) : State :=
  match s.activeRemove with
  | some o => s.updateContext c fun ctx => { ctx with waitRemoveEvent := some o }
  | none => s

/-- The committing part of `_activate_prepared_start`; returns the cancelled Pending and the
detached coordination. -/
def commitActivation (s : State) (p : ℕ) : State × Option ℕ × Option ℕ :=
  let c := (s.prepareds p).context
  let s := stopLocalLocked s
  (waitForActive (publishWorker s c) c, s.pendingRemove, s.registerCoordination)

/-- Clear the ownership token of the context behind `p`, if it is still `p`. -/
def disownPrepared (s : State) (p : ℕ) : State :=
  s.updateContext (s.prepareds p).context fun ctx =>
    if ctx.preparedOwner = some p then { ctx with preparedOwner := none } else ctx

def dropPrepared (s : State) : State := { s with preparedStart := none }

/-- `_cancel_prepared_start` for the token that still owns the slot. -/
def cancelPrepared (s : State) (p : ℕ) : State := disownPrepared (dropPrepared s) p

/-- What `_settle_prepared_after_publish_failure` may still do with its exact token. -/
inductive Settlement where
  | cancelUncommitted | wakeCommitted | nothing
  deriving DecidableEq

def settlementOf (s : State) (p : ℕ) : Settlement :=
  let c := (s.prepareds p).context
  if s.preparedStart = some p ∧ (s.contexts c).preparedOwner = some p then .cancelUncommitted
  else if (s.contexts c).preparedOwner = some p ∧
      (s.contexts c).thread = some (s.prepareds p).thread ∧ ownsLifecycle s c then
    .wakeCommitted
  else .nothing

/-- `stop`; returns the token to cancel and the operation to schedule. -/
def stopSection (s : State) (remove : Bool) : State × Option ℕ × Option ℕ :=
  let prepared := s.preparedStart
  let s := stopLocalLocked (dropPrepared s)
  if remove then
    let (s, operation) := requestRemoveLocked s
    (s, prepared, operation)
  else (s, prepared, none)

/-- The first section of `shutdown`. -/
def shutdownLocal (cfg : Config) (s : State) (deregister : Bool) : State :=
  let s := { stopLocalLocked (dropPrepared s) with closeLogsWhenIdle := true }
  match s.registerCoordination with
  | some k =>
    if cfg.enabled ∧ deregister ∧ (s.coordinations k).generation = s.generation then
      requestCleanup s k
    else s
  | none => s

/-- `should_validate_remove`, read at the end of the first section of `shutdown`. -/
def shouldValidateRemove (cfg : Config) (s : State) (deregister : Bool) : Bool :=
  let inflightRegister := s.registerCoordination.any fun k =>
    (s.coordinations k).generation = s.generation && 0 < (s.coordinations k).inflightCount
  let cleanupSatisfied := decide (s.lastSuccessfullyRemovedGeneration = some s.generation)
  let cleanupRequired := decide (0 < s.generation) || s.registered
  cfg.enabled && deregister &&
    (inflightRegister || (cleanupRequired && !cleanupSatisfied &&
      s.lastRemoveRequestedGeneration ≠ some s.generation))

def claimPending (s : State) (o : ℕ) : State :=
  { s with pendingRemove := none, activeRemove := some o }

/-- Remove a finished context from the lifecycle tables. -/
def forgetWorker (s : State) (c : ℕ) : State :=
  let generation := (s.contexts c).generation
  ({ s with
    stoppingWorkers :=
      if s.stoppingWorkers.lookup generation = some c then s.stoppingWorkers.erase generation
      else s.stoppingWorkers
    worker := if s.worker = some c then none else s.worker } : State).updateContext c
      fun ctx => { ctx with preparedOwner := none }

/-- The Pending Remove that a finishing Worker claims. -/
def workerClaim (s : State) (c : ℕ) : Option ℕ :=
  s.pendingRemove.filter fun o =>
    (s.operations o).generation = (s.contexts c).generation && s.activeRemove.isNone

/-- The section of `_finish_worker`. -/
def finishWorkerSection (s : State) (c : ℕ) : State :=
  match workerClaim s c with
  | some o => forgetWorker (claimPending s o) c
  | none => forgetWorker s c

/-! ### Pending and Active Remove scheduler -/

/-- The operation for which `_schedule_pending_remove` goes on to start an actor. -/
def schedulable (alive : ℕ → Bool) (s : State) : Option ℕ :=
  s.pendingRemove.filter fun o =>
    s.activeRemove.isNone && (s.stoppingWorkers.lookup (s.operations o).generation).isNone &&
      !(s.operations o).thread.any alive

/-- Drop the dead actor association of `o` and associate the new thread `t`. -/
def associateActor (s : State) (o t : ℕ) : State :=
  let s := match (s.operations o).thread with
    | some dead =>
      ({ s with cleanupActors := s.cleanupActors.erase dead } : State).updateOperation o
        fun op => { op with thread := none }
    | none => s
  ({ s with cleanupActors := insert t s.cleanupActors } : State).updateOperation o
    fun op => { op with thread := some t }

/-- Give up the operation `o` whose actor `t` did not start. -/
def abandonOperation (s : State) (o t : ℕ) (result : CallResult) : State :=
  ({ s with
    cleanupActors := s.cleanupActors.erase t
    pendingRemove := none
    activeRemove := if s.activeRemove = some o then none else s.activeRemove } :
      State).updateOperation o fun op => { op with thread := none, result := some result }

/-- `Thread.start` of the actor `t` of `o` raised an exception of type `errorType`. -/
def failActorStart (cfg : Config) (now : String) (s : State) (o t : ℕ)
    (errorType : String) : State :=
  let failure := startFailure errorType
  let s := abandonOperation s o t (cfg.safeResult failure)
  let s := recordResultLocked cfg now s failure .local
  reconcileGeneration s (s.operations o).generation

/-- The claim of `_run_cleanup_actor`. -/
def actorClaims (s : State) (o : ℕ) : Bool :=
  s.activeRemove.isNone && s.pendingRemove = some o

/-- The `finally` section of `_run_cleanup_actor` on thread `t`. -/
def releaseActor (s : State) (o t : ℕ) : State :=
  ({ s with cleanupActors := s.cleanupActors.erase t } : State).updateOperation o
    fun op => if op.thread = some t then { op with thread := none } else op

/-- What one pass of `_terminal_remove_result` finds. -/
inductive TerminalView where
  | oneShot
  | registers (k : ℕ)
  | cached (result : CallResult)
  | sameActive (o : ℕ)
  | samePending (o : ℕ)
  | otherOperation (o : ℕ)
  | own

def terminalView (s : State) (generation : ℕ) : TerminalView :=
  if s.generation ≠ generation ∨ s.worker ≠ none then .oneShot
  else
    match s.registerCoordination.filter fun k =>
        (s.coordinations k).generation = generation && 0 < (s.coordinations k).inflightCount with
    | some k => .registers k
    | none =>
      match s.lastSuccessfullyRemovedGeneration, s.lastSuccessfullyRemovedResult with
      | some g, some r => if g = generation then .cached r else operationView
      | _, _ => operationView
where
  operationView : TerminalView :=
    match s.activeRemove, s.pendingRemove with
    | some o, _ =>
      if (s.operations o).generation = generation then .sameActive o else .otherOperation o
    | none, some o =>
      if (s.operations o).generation = generation then .samePending o else .otherOperation o
    | none, none => .own

/-- A terminal caller publishes its own Active Remove. -/
def publishActive (s : State) (generation : ℕ) : State :=
  { s with
    operations := Function.update s.operations s.nextOperation { generation }
    nextOperation := s.nextOperation + 1
    activeRemove := some s.nextOperation }

/-- `_maybe_close_logs_when_idle` closes the logs now. -/
def closesLogs (s : State) : Bool :=
  s.closeLogsWhenIdle && s.preparedStart.isNone && s.worker.isNone &&
    s.stoppingWorkers.entries.isEmpty && s.activeRemove.isNone && s.pendingRemove.isNone &&
    decide (s.cleanupActors = ∅) && s.registerCoordination.isNone && !s.logsClosed

end FlaskXxlJob.Registry
