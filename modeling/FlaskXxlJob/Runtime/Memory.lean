import FlaskXxlJob.Interleaving.Forking
import FlaskXxlJob.Registry.Program

/-!
What a runtime keeps for each process: the Registry state that belongs to the current process, and
the lock and flag under which `close` shuts it down once. A process that finds the pid of another
one in them replaces them. The registry sections themselves run on the system of a state.
-/
namespace FlaskXxlJob.Runtime
open FlaskXxlJob.Client Interleaving

/-- Registry states and close locks are named in the order of their creation. -/
structure Memory where
  pid : ℕ
  processState : ℕ
  statePid : ℕ → ℕ
  service : ℕ → Registry.System
  nextState : ℕ
  runtimePid : ℕ
  closeLock : ℕ
  locked : ℕ → Bool
  nextLock : ℕ
  closed : Bool

/-- A thread calls `_get_process_state` to enter the service or in `_state_is_current`. -/
inductive Purpose where
  | enter
  | check (st : ℕ)
  deriving DecidableEq

inductive Instr where
  | getProcessState (purpose : Purpose)
  | storeProcessState (st : ℕ) (purpose : Purpose)
  | useState (st : ℕ)
  | ensureProcessState
  | storePid
  | storeCloseLock
  | storeClosed
  | loadCloseLock
  | acquireCloseLock (l : ℕ)
  | testClosed (l : ℕ)
  | setClosed (l : ℕ)
  | releaseCloseLock (l : ℕ) (first : Bool)
  | shutdown
  deriving DecidableEq

/-- An API call of the Registry service, or `close` of the runtime. -/
inductive Call where
  | service
  | close
  deriving DecidableEq

inductive Event where
  | called (t : ℕ) (call : Call)
  | createdState (st : ℕ)
  | createdLock (l : ℕ)
  | used (t st : ℕ)
  | shutdown (t : ℕ)
  deriving DecidableEq

/-- What a thread does after a section: it leaves the service, goes on with the same state or
checks first that the state is still current. -/
inductive Continuation where
  | leave
  | proceed
  | check

/-- A section runs an action of the Registry system, and it may start a thread on its state. -/
structure Choice where
  action : Option (Action Registry.Choice Registry.Call) := none
  starts : Bool := false
  continuation : Continuation := .leave

abbrev Step := Effect Memory Instr Event

/-- What a thread does with the state it has got. -/
def Purpose.resume (st : ℕ) : Purpose → List Instr
  | .enter => [.useState st]
  | .check st' => if st = st' then [.useState st] else []

/-- `_new_process_state` -/
def newProcessState (m : Memory) : Memory :=
  { m with
    statePid := Function.update m.statePid m.nextState m.pid
    service := Function.update m.service m.nextState .blank
    nextState := m.nextState + 1 }

def getProcessState (m : Memory) (purpose : Purpose) : Step :=
  if m.statePid m.processState = m.pid then
    { state := m, push := purpose.resume m.processState }
  else
    { state := newProcessState m
      push := [.storeProcessState m.nextState purpose]
      events := [.createdState m.nextState] }

/-- One section of the service on the state `st`. -/
def useState (cfg : Registry.Config) (ch : Choice) (m : Memory) (t st : ℕ) : Step where
  state := { m with
    service := Function.update m.service st
      ((ch.action.bind (Registry.step cfg (m.service st))).getD (m.service st)) }
  push :=
    match ch.continuation with
    | .leave => []
    | .proceed => [.useState st]
    | .check => [.getProcessState (.check st)]
  spawn := if ch.starts then some [.getProcessState (.check st)] else none
  events := [.used t st]

def ensureProcessState (m : Memory) : Step :=
  { state := m, push := [if m.runtimePid = m.pid then .loadCloseLock else .storePid] }

def storeCloseLock (m : Memory) : Step where
  state := { m with
    closeLock := m.nextLock
    locked := Function.update m.locked m.nextLock false
    nextLock := m.nextLock + 1 }
  push := [.storeClosed]
  events := [.createdLock m.nextLock]

def effect (cfg : Registry.Config) (ch : Choice) (m : Memory) (t : ℕ) : Instr → Step
  | .getProcessState purpose => getProcessState m purpose
  | .storeProcessState st purpose =>
    { state := { m with processState := st }, push := purpose.resume st }
  | .useState st => useState cfg ch m t st
  | .ensureProcessState => ensureProcessState m
  | .storePid => { state := { m with runtimePid := m.pid }, push := [.storeCloseLock] }
  | .storeCloseLock => storeCloseLock m
  | .storeClosed => { state := { m with closed := false }, push := [.loadCloseLock] }
  | .loadCloseLock => { state := m, push := [.acquireCloseLock m.closeLock] }
  | .acquireCloseLock l =>
    { state := { m with locked := Function.update m.locked l true }, push := [.testClosed l] }
  | .testClosed l =>
    { state := m, push := [if m.closed then .releaseCloseLock l false else .setClosed l] }
  | .setClosed l => { state := { m with closed := true }, push := [.releaseCloseLock l true] }
  | .releaseCloseLock l first =>
    { state := { m with locked := Function.update m.locked l false }
      push := if first then [.shutdown] else [] }
  | .shutdown => { state := m, push := [.getProcessState .enter], events := [.shutdown t] }

/-- Only a lock that is held blocks. -/
def enabled (m : Memory) : Instr → Bool
  | .acquireCloseLock l => !m.locked l
  | _ => true

def entry : Call → List Instr
  | .service => [.getProcessState .enter]
  | .close => [.ensureProcessState]

def machine (cfg : Registry.Config) : Machine Memory Instr Choice Call Event where
  exec := fun _ t _ i ch m => if enabled m i then some (effect cfg ch m t i) else none
  entry := entry
  called := fun t c => [.called t c]

abbrev Process := Sys Memory Instr Event

abbrev step (cfg : Registry.Config) : Process → Action Choice Call → Option Process :=
  (machine cfg).step

/-- The process that has made the runtime, with a state and a close lock of its own. -/
def Process.root (pid : ℕ) : Process where
  shared := {
    pid, processState := 0, statePid := fun _ => pid, service := fun _ => .blank, nextState := 1
    runtimePid := pid, closeLock := 0, locked := fun _ => false, nextLock := 1, closed := false }
  code := fun _ => []
  next := 0
  history := [.createdState 0, .createdLock 0]

/-- The child has its parent's memory but a pid of its own. -/
def Memory.inherit (pid : ℕ) (m : Memory) : Memory := { m with pid }

abbrev worldStep (cfg : Registry.Config) : World Memory Instr Event →
    WorldAction Choice Call ℕ → Option (World Memory Instr Event) :=
  (machine cfg).worldStep Memory.inherit

/-- The pid of a child is not that of an ancestor whose state or runtime pid it inherits. -/
def FreshPid (s : Process) (pid : ℕ) : Prop :=
  s.shared.statePid s.shared.processState ≠ pid ∧ s.shared.runtimePid ≠ pid

instance (s : Process) (pid : ℕ) : Decidable (FreshPid s pid) := inferInstanceAs (Decidable (_ ∧ _))

/-- The process after thread `t` has run `i`, with `rest` below it on its stack. -/
abbrev Process.after (cfg : Registry.Config) (s : Process) (t : ℕ) (i : Instr) (rest : List Instr)
    (ch : Choice) : Process :=
  s.advance t ((effect cfg ch s.shared t i).push ++ rest) (effect cfg ch s.shared t i)

theorem step_run_cases {cfg : Registry.Config} {s s' : Process} {t : ℕ} {ch : Choice}
    (h : step cfg s (.run t ch) = some s') : ∃ i rest, s.code t = i :: rest ∧
      enabled s.shared i = true ∧ s' = s.after cfg t i rest ch := by
  obtain ⟨i,rest,e,hc,he,rfl⟩ := Machine.step_run h
  simp only [machine] at he
  split at he
  · obtain rfl := Option.some.inj he
    exact ⟨i,rest,hc,‹_›,rfl⟩
  · cases he

end FlaskXxlJob.Runtime
