import FlaskXxlJob.Client.CallResult
import Mathlib.Data.Finset.Insert
import Mathlib.Data.Finset.Erase
import Mathlib.Data.List.AList
import Mathlib.Logic.Function.Basic

/-!
The process-local Registry state of one process. Contexts, Prepared tokens, Remove
operations and coordinations are heap objects with identity: each table maps a name to the
object, and a name below the table's allocator has been given out.
-/
namespace FlaskXxlJob.Registry
open FlaskXxlJob.Client

structure Config where
  enabled : Bool
  /-- The exception type `validate_registry` raises, if it raises. -/
  registryError : Option String
  /-- `redact_text` at the configured access token. -/
  redact : String → String

structure WorkerContext where
  generation : ℕ
  stopEvent : Bool := false
  thread : Option ℕ := none
  /-- The operation whose `done_event` this Worker waits for. -/
  waitRemoveEvent : Option ℕ := none
  preparedOwner : Option ℕ := none

structure PreparedRegistryStart where
  context : ℕ
  activateEvent : Bool := false
  thread : ℕ

structure RemoveOperation where
  generation : ℕ
  doneEvent : Bool := false
  thread : Option ℕ := none
  result : Option CallResult := none

structure RegisterCoordination where
  generation : ℕ
  inflightCount : ℕ := 0
  doneEvent : Bool := false
  cleanupRequested : Bool := false

/-- Worker lifecycle fields. A context and its Prepared token are allocated together. -/
structure Lifecycle where
  generation : ℕ := 0
  preparedStart : Option ℕ := none
  worker : Option ℕ := none
  stoppingWorkers : AList (fun _ : ℕ => ℕ) := ∅
  contexts : ℕ → WorkerContext := fun _ => { generation := 0 }
  prepareds : ℕ → PreparedRegistryStart := fun _ => { context := 0, thread := 0 }
  nextPrepared : ℕ := 0

/-- Remove and Register coordination fields. -/
structure Cleanup where
  lastRemoveRequestedGeneration : Option ℕ := none
  lastSuccessfullyRemovedGeneration : Option ℕ := none
  lastSuccessfullyRemovedResult : Option CallResult := none
  registerCoordination : Option ℕ := none
  pendingRemove : Option ℕ := none
  activeRemove : Option ℕ := none
  cleanupActors : Finset ℕ := ∅
  operations : ℕ → RemoveOperation := fun _ => { generation := 0 }
  nextOperation : ℕ := 0
  coordinations : ℕ → RegisterCoordination := fun _ => { generation := 0 }
  nextCoordination : ℕ := 0

/-- The status snapshot, owned by the state lock. -/
structure Snapshot where
  registered : Bool := false
  lastAppliedRpcSequence : ℕ := 0
  lastResult : Option CallResult := none
  lastError : Option CallResult := none
  lastRegistryTime : Option String := none
  lastRegistrySuccess : Option Bool := none
  lastRegistryAdminAddress : Option String := none
  lastRegistryErrorType : Option String := none
  lastRegistryMessage : Option String := none

structure LogClosing where
  closeLogsWhenIdle : Bool := false
  logsClosed : Bool := false

/-- The network lock's holder and the sequence that lock owns. -/
structure Network where
  networkLock : Option ℕ := none
  rpcSequence : ℕ := 0

structure State extends Lifecycle, Cleanup, Snapshot, LogClosing, Network

/-- A blank process state. -/
def State.blank : State where

namespace State

def updateContext (s : State) (c : ℕ) (f : WorkerContext → WorkerContext) : State :=
  { s with contexts := Function.update s.contexts c (f (s.contexts c)) }

def updatePrepared (s : State) (p : ℕ)
    (f : PreparedRegistryStart → PreparedRegistryStart) : State :=
  { s with prepareds := Function.update s.prepareds p (f (s.prepareds p)) }

def updateOperation (s : State) (o : ℕ) (f : RemoveOperation → RemoveOperation) : State :=
  { s with operations := Function.update s.operations o (f (s.operations o)) }

def updateCoordination (s : State) (k : ℕ)
    (f : RegisterCoordination → RegisterCoordination) : State :=
  { s with coordinations := Function.update s.coordinations k (f (s.coordinations k)) }

end State

/-- `_is_current_worker` -/
def isCurrentWorker (s : State) (c : ℕ) : Bool :=
  s.worker = some c && s.generation = (s.contexts c).generation

/-- `_worker_is_current`: the stop flag is only ever set, so its unlocked read and the
locked one make one check. -/
def workerIsCurrent (s : State) (c : ℕ) : Bool :=
  !(s.contexts c).stopEvent && isCurrentWorker s c

/-- No Worker of a generation up to `g` is current, now or later. -/
def Retired (s : State) (g : ℕ) : Prop :=
  g ≤ s.generation ∧ (g = s.generation → s.worker = none)

/-- A context of the current lifecycle or of one that is still stopping. -/
def ownsLifecycle (s : State) (c : ℕ) : Bool :=
  s.worker = some c || s.stoppingWorkers.lookup (s.contexts c).generation = some c

end FlaskXxlJob.Registry
