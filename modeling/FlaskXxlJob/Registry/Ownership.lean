import FlaskXxlJob.Interleaving.Accounting
import FlaskXxlJob.Registry.Inversion

/-!
Which thread owns what. Every Active Remove, every counted register, the network lock, every
committed or Prepared Worker and every cleanup actor is one instruction on some stack.
-/
namespace FlaskXxlJob.Registry
open FlaskXxlJob.Client Interleaving

variable {s s' : State}

/-- What an instruction stands for in the accounts. -/
inductive Role where
  | plain
  | call (call : RpcCall)
  | worker (c : ℕ)
  | entry (c : ℕ)
  | actor
  deriving DecidableEq

namespace Role

def executes (o : ℕ) (r : Role) : Bool := r = .call (.active o)

def holdsToken (k : ℕ) : Role → Bool
  | .call (.register q _) => q = some k
  | _ => false

def runs (c : ℕ) (r : Role) : Bool := r = .worker c || r = .call (.worker c)

def enters (c : ℕ) (r : Role) : Bool := r = .entry c

def acts (r : Role) : Bool := r = .actor

end Role

namespace Instr

def role : Instr → Role
  | .network call | .rpc call | .commit call _ _ => .call call
  | .runWorker c | .waitRemove c _ | .workerLoop c | .performWorkerRegistry c | .sleep c
  | .recheckWorker c | .finishWorker c => .worker c
  | .preparedWorkerEntry c => .entry c
  | .runCleanupActor _ | .finishCleanupActor _ => .actor
  | _ => .plain

@[simp] theorem role_call (call : RpcCall) : (network call).role = .call call ∧
    (rpc call).role = .call call ∧ (∀ q r, (commit call q r).role = .call call) :=
  ⟨rfl,rfl,fun _ _ => rfl⟩

@[simp] theorem role_worker (c : ℕ) : (runWorker c).role = .worker c ∧
    (∀ o, (waitRemove c o).role = .worker c) ∧ (workerLoop c).role = .worker c ∧
    (performWorkerRegistry c).role = .worker c ∧ (sleep c).role = .worker c ∧
    (recheckWorker c).role = .worker c ∧ (finishWorker c).role = .worker c ∧
    (preparedWorkerEntry c).role = .entry c := ⟨rfl,fun _ => rfl,rfl,rfl,rfl,rfl,rfl,rfl⟩

@[simp] theorem role_actor (o : ℕ) : (runCleanupActor o).role = .actor ∧
    (finishCleanupActor o).role = .actor := ⟨rfl,rfl⟩

@[simp] theorem role_plain : (∀ b, (prepareStart b).role = .plain) ∧
    (∀ p, (activatePreparedStart p).role = .plain) ∧
    (∀ p, (cancelPreparedStart p).role = .plain) ∧ (∀ p, (settlePrepared p).role = .plain) ∧
    (∀ c, (setStop c).role = .plain) ∧ (∀ p, (setActivate p).role = .plain) ∧
    (∀ o, (setOperationDone o).role = .plain) ∧ (∀ k, (setCoordinationDone k).role = .plain) ∧
    (∀ p, (waitActivate p).role = .plain) ∧ (∀ b, (stop b).role = .plain) ∧
    (∀ b, (shutdown b).role = .plain) ∧ (∀ g, (shutdownRequest g).role = .plain) ∧
    (∀ r, (recordLocalFailure r).role = .plain) ∧ joinRegister.role = .plain ∧
    removeOnce.role = .plain ∧ (∀ g, (terminalRemove g).role = .plain) ∧
    (∀ o, (waitOperation o).role = .plain) ∧ (∀ k, (waitCoordination k).role = .plain) ∧
    (∀ o, (operationResult o).role = .plain) ∧ (∀ o g, (pendingResult o g).role = .plain) ∧
    (∀ c, (schedulePendingRemove c).role = .plain) ∧ maybeCloseLogs.role = .plain ∧
    closeLogs.role = .plain ∧ (∀ q g r, (returnRegister q g r).role = .plain) ∧
    (∀ r, (returnRemove r).role = .plain) := by
  refine ⟨?_,?_,?_,?_,?_,?_,?_,?_,?_,?_,?_,?_,?_,?_,?_,?_,?_,?_,?_,?_,?_,?_,?_,?_,?_⟩
  all_goals intros; rfl

def plays (p : Role → Bool) (i : Instr) : Bool := p i.role

def holdsNetwork : Instr → Bool
  | .rpc _ => true
  | _ => false

/-- The Worker whose thread passes through the instruction without touching the state. -/
def steers : Instr → Option ℕ
  | .preparedWorkerEntry c | .runWorker c | .waitRemove c _ | .workerLoop c
  | .performWorkerRegistry c | .sleep c | .recheckWorker c => some c
  | _ => none

/-- The instructions that neither hold nor hand out any of the accounted resources. -/
def simple : Instr → Bool
  | .activatePreparedStart _ | .cancelPreparedStart _ | .settlePrepared _ | .setStop _
  | .setActivate _ | .setOperationDone _ | .setCoordinationDone _ | .waitActivate _ | .stop _
  | .shutdown _ | .shutdownRequest _ | .recordLocalFailure _ | .waitOperation _
  | .waitCoordination _ | .operationResult _ | .pendingResult .. | .maybeCloseLogs
  | .closeLogs | .returnRegister .. | .returnRemove _ => true
  | _ => false

end Instr

theorem Instr.holdsNetwork_of_plain {i : Instr} (h : i.role = .plain) :
    i.holdsNetwork = false := by
  cases i <;> simp at h <;> rfl

/-- A stack of plain instructions holds nothing. -/
def Plain (l : List Instr) : Prop := ∀ i ∈ l, i.role = .plain

namespace Plain

@[simp] theorem nil : Plain [] := by simp [Plain]

@[simp] theorem cons {i : Instr} {l : List Instr} :
    Plain (i :: l) ↔ i.role = .plain ∧ Plain l := by
  simp [Plain]

@[simp] theorem append {l l' : List Instr} : Plain (l ++ l') ↔ Plain l ∧ Plain l' := by
  simp only [Plain,List.mem_append]
  grind

variable {l : List Instr}

theorem plays (h : Plain l) {p : Role → Bool} (hp : p .plain = false) :
    l.countP (Instr.plays p) = 0 := by
  rw [List.countP_eq_zero]
  intro i hi
  simp [Instr.plays,h i hi,hp]

@[simp] theorem executes (h : Plain l) (o : ℕ) :
    l.countP (Instr.plays (Role.executes o)) = 0 := h.plays rfl

@[simp] theorem holdsToken (h : Plain l) (k : ℕ) :
    l.countP (Instr.plays (Role.holdsToken k)) = 0 := h.plays rfl

@[simp] theorem runs (h : Plain l) (c : ℕ) : l.countP (Instr.plays (Role.runs c)) = 0 :=
  h.plays rfl

@[simp] theorem enters (h : Plain l) (c : ℕ) : l.countP (Instr.plays (Role.enters c)) = 0 :=
  h.plays rfl

@[simp] theorem acts (h : Plain l) : l.countP (Instr.plays Role.acts) = 0 := h.plays rfl

@[simp] theorem holdsNetwork (h : Plain l) : l.countP Instr.holdsNetwork = 0 := by
  rw [List.countP_eq_zero]
  intro i hi
  simp [Instr.holdsNetwork_of_plain (h i hi)]

@[simp] theorem ite {b : Bool} {i : Instr} (h : i.role = .plain) :
    Plain (if b = true then [i] else []) := by
  cases b <;> simp [h]

@[simp] theorem wakeCancelled (s : State) (p : Option ℕ) : Plain (wakeCancelled s p) := by
  cases p <;> simp [Registry.wakeCancelled]

@[simp] theorem scheduleFor (caller : Scheduler) (o : Option ℕ) :
    Plain (scheduleFor caller o) := by
  cases o <;> simp [Registry.scheduleFor]

@[simp] theorem scheduleOrClose (o : Option ℕ) : Plain (scheduleOrClose o) := by
  cases o <;> simp [Registry.scheduleOrClose]

@[simp] theorem exitRequest (cfg : Config) (s : State) (deregister : Bool) :
    Plain (exitRequest cfg s deregister) := by
  unfold Registry.exitRequest
  split
  · split <;> simp
  · simp

@[simp] theorem setOperationDone (o : Option ℕ) : Plain (o.toList.map .setOperationDone) := by
  cases o <;> simp

@[simp] theorem setCoordinationDone (k : Option ℕ) :
    Plain (k.toList.map .setCoordinationDone) := by
  cases k <;> simp

@[simp] theorem returned (caller : Scheduler) : Plain caller.returned := by
  cases caller <;> simp [Scheduler.returned]

@[simp] theorem failed (caller : Scheduler) : Plain caller.failed := by
  cases caller <;> simp [Scheduler.failed]

end Plain

/-- A simple instruction pushes plain instructions, starts no thread, and leaves the Active
Remove, the actors, the counted registers and the network lock alone. -/
theorem effect_simple (cfg : Config) (s : State) (alive : ℕ → Bool) (t fresh : ℕ) (ch : Choice)
    {i : Instr} (hi : i.simple = true) :
    Plain (effect cfg alive t fresh ch s i).push ∧
    (effect cfg alive t fresh ch s i).spawn = none ∧
    (effect cfg alive t fresh ch s i).state.activeRemove = s.activeRemove ∧
    (effect cfg alive t fresh ch s i).state.cleanupActors = s.cleanupActors ∧
    (effect cfg alive t fresh ch s i).state.nextCoordination = s.nextCoordination ∧
    (∀ k, ((effect cfg alive t fresh ch s i).state.coordinations k).inflightCount =
      (s.coordinations k).inflightCount) ∧
    (effect cfg alive t fresh ch s i).state.networkLock = s.networkLock := by
  cases i with
  | activatePreparedStart p =>
    simp only [effect,activatePreparedStart]
    split <;> simp
  | cancelPreparedStart p =>
    simp only [effect,cancelPreparedStart]
    split <;> simp
  | settlePrepared p =>
    simp only [effect,settlePrepared]
    split <;> simp
  | stop remove => cases remove <;> simp [effect,stop,stopSection]
  | shutdown deregister => simp [effect,shutdown]
  | shutdownRequest target =>
    simp only [effect,shutdownRequest]
    split <;> simp
  | setCoordinationDone k =>
    refine ⟨.nil,rfl,rfl,rfl,rfl,fun k' => ?_,rfl⟩
    by_cases hk : k' = k <;> simp [effect,State.updateCoordination,hk]
  | pendingResult o g =>
    refine ⟨?_,rfl,rfl,rfl,rfl,fun _ => rfl,rfl⟩
    simp only [effect]
    split <;> simp
  | maybeCloseLogs =>
    simp only [effect]
    split <;> simp
  | setOperationDone => simp [effect,State.updateOperation]
  | setStop | setActivate | waitActivate | recordLocalFailure | waitOperation
  | waitCoordination | operationResult | closeLogs | returnRegister | returnRemove =>
    simp [effect]
  | _ => simp [Instr.simple] at hi

/-! ### One account after another -/

/-- One if the slot holds `o`. -/
def slot (o : ℕ) (x : Option ℕ) : ℕ := if x = some o then 1 else 0

@[simp] theorem slot_none (o : ℕ) : slot o none = 0 := rfl

@[simp] theorem slot_self (o : ℕ) : slot o (some o) = 1 := by simp [slot]

section Balance
variable (cfg : Config) (alive : ℕ → Bool) (t fresh : ℕ) (ch : Choice) {i : Instr}

/-- A Worker's thread goes on as that Worker, or ends where it has not started. -/
structure Steered (c : ℕ) (s : State) (i : Instr) (e : Step) : Prop where
  state : e.state = s
  spawn : e.spawn = none
  events : e.events = []
  push : (∃ j, e.push = [j] ∧ (j.role = .worker c ∨ j.role = .call (.worker c)) ∧
    j.holdsNetwork = false) ∨ (e.push = [] ∧ i = .preparedWorkerEntry c)

theorem Steered.guardCurrent {c : ℕ} {j : Instr} (hj : j.role = .worker c ∨
    j.role = .call (.worker c)) (hn : j.holdsNetwork = false) :
    Steered c s i (guardCurrent s c j) := by
  rcases guardCurrent_cases s c j with ⟨-,he⟩ | ⟨-,he⟩ <;> rw [he]
  · exact ⟨rfl,rfl,rfl,Or.inl ⟨j,rfl,hj,hn⟩⟩
  · exact ⟨rfl,rfl,rfl,Or.inl ⟨_,rfl,Or.inl rfl,rfl⟩⟩

theorem effect_steers {c : ℕ} (hi : i.steers = some c) :
    Steered c s i (effect cfg alive t fresh ch s i) := by
  cases i with
  | preparedWorkerEntry c' =>
    obtain rfl := Option.some.inj hi
    simp only [effect]
    split
    · exact ⟨rfl,rfl,rfl,Or.inl ⟨_,rfl,Or.inl rfl,rfl⟩⟩
    · exact ⟨rfl,rfl,rfl,Or.inr ⟨rfl,rfl⟩⟩
  | runWorker c' =>
    obtain rfl := Option.some.inj hi
    simp only [effect]
    split
    · exact .guardCurrent (Or.inl rfl) rfl
    · exact .guardCurrent (Or.inl rfl) rfl
  | workerLoop c' | recheckWorker c' =>
    obtain rfl := Option.some.inj hi
    exact .guardCurrent (Or.inl rfl) rfl
  | performWorkerRegistry c' =>
    obtain rfl := Option.some.inj hi
    exact .guardCurrent (Or.inr rfl) rfl
  | waitRemove c' =>
    obtain rfl := Option.some.inj hi
    exact ⟨rfl,rfl,rfl,Or.inl ⟨_,rfl,Or.inl rfl,rfl⟩⟩
  | sleep c' =>
    obtain rfl := Option.some.inj hi
    refine ⟨rfl,rfl,rfl,Or.inl ⟨_,rfl,?_⟩⟩
    split <;> exact ⟨Or.inl rfl,rfl⟩
  | _ => simp [Instr.steers] at hi

theorem Instr.role_of_simple (hi : i.simple = true) : i.role = .plain := by
  cases i <;> simp [Instr.simple] at hi <;> rfl

theorem Instr.role_of_steers {c : ℕ} (hi : i.steers = some c) :
    i.role = .worker c ∨ i.role = .entry c := by
  cases i <;> simp [Instr.steers] at hi <;> simp [hi]

/-- Roles that neither a Worker's thread nor a simple instruction plays are handed on only by
the remaining instructions. -/
theorem balance_of_idle {p : Role → Bool} (hp : p .plain = false)
    (hw : ∀ c, p (.worker c) = false ∧ p (.call (.worker c)) = false ∧ p (.entry c) = false)
    (hi : i.simple = true ∨ i.steers ≠ none) :
    i.plays p = false ∧
    (effect cfg alive t fresh ch s i).push.countP (Instr.plays p) = 0 ∧
    (effect cfg alive t fresh ch s i).spawn = none ∧
    (effect cfg alive t fresh ch s i).state.activeRemove = s.activeRemove ∧
    (effect cfg alive t fresh ch s i).state.cleanupActors = s.cleanupActors ∧
    (∀ k, ((effect cfg alive t fresh ch s i).state.coordinations k).inflightCount =
      (s.coordinations k).inflightCount) := by
  rcases hi with hi | hi
  · obtain ⟨hpl,hsp,ha,hc,-,hk,-⟩ := effect_simple cfg s alive t fresh ch hi
    exact ⟨by simp [Instr.plays,Instr.role_of_simple hi,hp],hpl.plays hp,hsp,ha,hc,hk⟩
  · obtain ⟨c,hc⟩ := Option.ne_none_iff_exists'.mp hi
    obtain ⟨hst,hsp,-,hpush⟩ := effect_steers (s := s) cfg alive t fresh ch hc
    refine ⟨?_,?_,hsp,by rw [hst],by rw [hst],by simp [hst]⟩
    · rcases Instr.role_of_steers hc with hr | hr <;> simp [Instr.plays,hr,hw c]
    · rcases hpush with ⟨j,hj,hr | hr,-⟩ | ⟨hj,-⟩ <;> simp_all [Instr.plays]

theorem balance_actives (hi : i.Owned s) (o : ℕ) :
    (effect cfg alive t fresh ch s i).push.countP (Instr.plays (Role.executes o)) +
      ((effect cfg alive t fresh ch s i).spawn.getD []).countP (Instr.plays (Role.executes o)) +
      slot o s.activeRemove =
    (if i.plays (Role.executes o) then 1 else 0) +
      slot o (effect cfg alive t fresh ch s i).state.activeRemove := by
  by_cases hs : i.simple = true ∨ i.steers ≠ none
  · obtain ⟨hx,hp,hsp,hst⟩ := balance_of_idle (s := s) cfg alive t fresh ch
      (p := Role.executes o) rfl (by simp [Role.executes]) hs
    simp [hx,hp,hsp,hst]
  cases i with
  | prepareStart activate =>
    simp only [effect]
    rcases prepareStart_cases s t fresh activate ch.startError with
      he | ⟨e,he⟩ | ⟨-,he⟩ <;> rw [he]
    · simp [Instr.plays,Role.executes]
    · simp [Instr.plays,Role.executes]
    · cases activate <;> simp [Instr.plays,Role.executes]
  | finishWorker c =>
    simp only [effect]
    rcases finishWorker_cases s t c with ⟨o',-,ha,-,he⟩ | ⟨-,he⟩ <;> rw [he]
    · simp [Instr.plays,Role.executes,ha,slot,List.countP_cons]
    · simp [Instr.plays,Role.executes]
  | network call =>
    simp only [effect]
    rcases enterNetwork_cases s t call with ⟨-,he⟩ | ⟨c,rfl,-,he⟩ <;> rw [he]
    · simp [Instr.plays,Role.executes]
    · simp [Instr.plays,Role.executes]
  | rpc call => simp [effect,callRegistry,Instr.plays,Role.executes]
  | commit call q r =>
    cases call with
    | register k g =>
      cases k <;> simp [effect,commitRpc,commitRegister,Instr.plays,Role.executes]
    | remove => simp [effect,commitRpc,commitRemove,Instr.plays,Role.executes]
    | worker c =>
      simp only [effect,commitRpc,commitWorker]
      split <;> simp [Instr.plays,Role.executes]
    | active o' =>
      have ha : s.activeRemove = some o' := hi
      simp [effect,commitRpc,commitActive,Instr.plays,Role.executes,ha,slot]
  | joinRegister => simp [effect,joinRegister,Instr.plays,Role.executes]
  | removeOnce =>
    simp only [effect]
    rcases removeOnce_cases s t with ⟨-,he⟩ | ⟨-,he⟩ <;> rw [he] <;>
      simp [Instr.plays,Role.executes]
  | terminalRemove g =>
    have hsaw := terminalView_saw s g
    simp only [effect,terminalRemove]
    cases hv : terminalView s g with
    | own =>
      rw [hv] at hsaw
      simp [Instr.plays,Role.executes,List.countP_cons,hsaw.2.2.1,slot]
    | _ => simp [Instr.plays,Role.executes]
  | schedulePendingRemove caller =>
    simp only [effect]
    rcases schedulePendingRemove_cases cfg ch.now s t fresh alive caller ch.startError with
      ⟨-,he⟩ | ⟨o',-,-,he⟩ | ⟨o',e,ho,-,he⟩
    all_goals rw [he]
    · simp [Instr.plays,Role.executes]
    · simp [Instr.plays,Role.executes]
    · simp [Instr.plays,Role.executes,(schedulable_eq_some ho).2.1]
  | runCleanupActor o' =>
    simp only [effect]
    rcases runCleanupActor_cases s o' with ⟨ha,-,he⟩ | ⟨-,he⟩ <;> rw [he]
    · simp [Instr.plays,Role.executes,ha,slot,List.countP_cons]
    · simp [Instr.plays,Role.executes]
  | finishCleanupActor => simp [effect,Instr.plays,Role.executes]
  | _ => simp [Instr.simple,Instr.steers] at hs

theorem leaveCoordination_inflight (k k' : ℕ) (s : State) :
    ((leaveCoordination s k').coordinations k).inflightCount =
      (s.coordinations k).inflightCount - if k' = k then 1 else 0 := by
  by_cases hk : k = k'
  · simp [leaveCoordination,State.updateCoordination,hk]
  · simp [leaveCoordination,State.updateCoordination,hk,Ne.symm hk]

theorem enterCoordination_inflight (k k' : ℕ) (s : State) :
    ((enterCoordination s k').coordinations k).inflightCount =
      (s.coordinations k).inflightCount + if k' = k then 1 else 0 := by
  by_cases hk : k = k'
  · simp [enterCoordination,State.updateCoordination,hk]
  · simp [enterCoordination,State.updateCoordination,hk,Ne.symm hk]

theorem openCoordination_inflight (hnew : (s.coordinations s.nextCoordination).inflightCount = 0)
    (k : ℕ) : ((openCoordination s).coordinations k).inflightCount =
      (s.coordinations k).inflightCount := by
  by_cases hk : k = s.nextCoordination <;> simp [openCoordination,hk,hnew]

theorem balance_tokens (h : Rep s) (hi : i.Owned s)
    (hnew : (s.coordinations s.nextCoordination).inflightCount = 0) (k : ℕ) :
    (effect cfg alive t fresh ch s i).push.countP (Instr.plays (Role.holdsToken k)) +
      ((effect cfg alive t fresh ch s i).spawn.getD []).countP (Instr.plays (Role.holdsToken k)) +
      (s.coordinations k).inflightCount =
    (if i.plays (Role.holdsToken k) then 1 else 0) +
      ((effect cfg alive t fresh ch s i).state.coordinations k).inflightCount := by
  by_cases hs : i.simple = true ∨ i.steers ≠ none
  · obtain ⟨hx,hp,hsp,-,-,hst⟩ := balance_of_idle (s := s) cfg alive t fresh ch
      (p := Role.holdsToken k) rfl (by simp [Role.holdsToken]) hs
    simp [hx,hp,hsp,hst]
  cases i with
  | prepareStart activate =>
    simp only [effect]
    rcases prepareStart_cases s t fresh activate ch.startError with
      he | ⟨e,he⟩ | ⟨-,he⟩ <;> rw [he]
    · simp [Instr.plays,Role.holdsToken]
    · simp [Instr.plays,Role.holdsToken]
    · cases activate <;> simp [Instr.plays,Role.holdsToken]
  | finishWorker c =>
    simp only [effect]
    rcases finishWorker_cases s t c with ⟨o',-,ha,-,he⟩ | ⟨-,he⟩ <;> rw [he]
    · simp [Instr.plays,Role.holdsToken]
    · simp [Instr.plays,Role.holdsToken]
  | network call =>
    simp only [effect]
    rcases enterNetwork_cases s t call with ⟨-,he⟩ | ⟨c,rfl,-,he⟩ <;> rw [he]
    · simp [Instr.plays]
    · simp [Instr.plays,Role.holdsToken]
  | rpc call => simp [effect,callRegistry,Instr.plays]
  | commit call q r =>
    cases call with
    | register k' g =>
      cases k' with
      | none => simp [effect,commitRpc,commitRegister,Instr.plays,Role.holdsToken]
      | some k' =>
        have hpos : 0 < (s.coordinations k').inflightCount := hi
        have hleave := leaveCoordination_inflight k k'
          (acceptOneShot cfg ch.now s r q false (some g) (some k'))
        simp only [effect,commitRpc,commitRegister,releaseCoordination_frame,hleave]
        by_cases hk : k' = k
        · subst hk
          simp [Instr.plays,Role.holdsToken]
          omega
        · simp [Instr.plays,Role.holdsToken,hk]
    | remove => simp [effect,commitRpc,commitRemove,Instr.plays,Role.holdsToken]
    | worker c =>
      simp only [effect,commitRpc,commitWorker]
      split <;> simp [Instr.plays,Role.holdsToken]
    | active o' => simp [effect,commitRpc,commitActive,Instr.plays,Role.holdsToken]
  | joinRegister =>
    simp only [effect,joinRegister]
    rcases h.cleanup.join_cases with ⟨k',-,-,he⟩ | ⟨k',-,-,he⟩ | ⟨-,he⟩ <;> rw [he]
    · simp [Instr.plays,Role.holdsToken]
    · simp [Instr.plays,Role.holdsToken,enterCoordination_inflight,add_comm]
    · simp [Instr.plays,Role.holdsToken,enterCoordination_inflight,
        openCoordination_inflight hnew,add_comm]
  | removeOnce =>
    simp only [effect]
    rcases removeOnce_cases s t with ⟨-,he⟩ | ⟨-,he⟩ <;> rw [he] <;>
      simp [Instr.plays,Role.holdsToken]
  | terminalRemove g =>
    simp only [effect,terminalRemove]
    cases hv : terminalView s g with
    | own => simp [Instr.plays,Role.holdsToken]
    | _ => simp [Instr.plays,Role.holdsToken]
  | schedulePendingRemove caller =>
    simp only [effect]
    rcases schedulePendingRemove_cases cfg ch.now s t fresh alive caller ch.startError with
      ⟨-,he⟩ | ⟨o',-,-,he⟩ | ⟨o',e,ho,-,he⟩
    all_goals rw [he]; simp [Instr.plays,Role.holdsToken]
  | runCleanupActor o' =>
    simp only [effect]
    rcases runCleanupActor_cases s o' with ⟨ha,-,he⟩ | ⟨-,he⟩ <;> rw [he]
    · simp [Instr.plays,Role.holdsToken]
    · simp [Instr.plays,Role.holdsToken]
  | finishCleanupActor => simp [effect,Instr.plays,Role.holdsToken]
  | _ => simp [Instr.simple,Instr.steers] at hs

/-- Whether the network lock is held, as an amount. -/
def lockCount (s : State) : ℕ := if s.networkLock.isSome then 1 else 0

theorem balance_network (hi : i.Owned s) (hen : enabled s ch i = true) :
    (effect cfg alive t fresh ch s i).push.countP Instr.holdsNetwork +
      ((effect cfg alive t fresh ch s i).spawn.getD []).countP Instr.holdsNetwork +
      lockCount s =
    (if i.holdsNetwork then 1 else 0) + lockCount (effect cfg alive t fresh ch s i).state := by
  by_cases hs : i.simple = true
  · obtain ⟨hp,hsp,-,-,-,-,hl⟩ := effect_simple cfg s alive t fresh ch hs
    have hx := Instr.holdsNetwork_of_plain (Instr.role_of_simple hs)
    simp [hp,hsp,hx,lockCount,hl]
  by_cases hw : i.steers = none
  swap
  · obtain ⟨c,hc⟩ := Option.ne_none_iff_exists'.mp hw
    obtain ⟨hst,hsp,-,hpush⟩ := effect_steers (s := s) cfg alive t fresh ch hc
    have hx : i.holdsNetwork = false := by
      cases i <;> simp [Instr.steers] at hc <;> rfl
    rcases hpush with ⟨j,hj,-,hn⟩ | ⟨hj,-⟩
    · simp [hst,hsp,hj,hx,hn]
    · simp [hst,hsp,hj,hx]
  cases i with
  | prepareStart activate =>
    simp only [effect]
    rcases prepareStart_cases s t fresh activate ch.startError with
      he | ⟨e,he⟩ | ⟨-,he⟩ <;> rw [he]
    · simp [Instr.holdsNetwork]
    · simp [Instr.holdsNetwork]
    · cases activate <;> simp [Instr.holdsNetwork,lockCount]
  | finishWorker c =>
    simp only [effect]
    rcases finishWorker_cases s t c with ⟨o',-,-,-,he⟩ | ⟨-,he⟩ <;> rw [he] <;>
      simp [Instr.holdsNetwork,lockCount]
  | network call =>
    have hl : s.networkLock = none := by simpa [enabled] using hen
    simp only [effect]
    rcases enterNetwork_cases s t call with ⟨-,he⟩ | ⟨c,rfl,-,he⟩ <;> rw [he] <;>
      simp [Instr.holdsNetwork,lockCount,hl]
  | rpc call =>
    have hl : s.networkLock ≠ none := hi
    simp [effect,callRegistry,Instr.holdsNetwork,lockCount,Option.isSome_iff_ne_none,hl]
  | commit call q r =>
    cases call with
    | register k' g =>
      cases k' <;> simp [effect,commitRpc,commitRegister,Instr.holdsNetwork,lockCount]
    | remove => simp [effect,commitRpc,commitRemove,Instr.holdsNetwork,lockCount]
    | worker c =>
      simp only [effect,commitRpc,commitWorker]
      split <;> simp [Instr.holdsNetwork,lockCount]
    | active o' => simp [effect,commitRpc,commitActive,Instr.holdsNetwork,lockCount]
  | joinRegister => simp [effect,joinRegister,Instr.holdsNetwork,lockCount]
  | removeOnce =>
    simp only [effect]
    rcases removeOnce_cases s t with ⟨-,he⟩ | ⟨-,he⟩ <;> rw [he] <;>
      simp [Instr.holdsNetwork]
  | terminalRemove g =>
    simp only [effect,terminalRemove]
    split <;> simp [Instr.holdsNetwork,lockCount]
  | schedulePendingRemove caller =>
    simp only [effect]
    rcases schedulePendingRemove_cases cfg ch.now s t fresh alive caller ch.startError with
      ⟨-,he⟩ | ⟨o',-,-,he⟩ | ⟨o',e,ho,-,he⟩
    all_goals rw [he]; simp [Instr.holdsNetwork,lockCount]
  | runCleanupActor o' =>
    simp only [effect]
    rcases runCleanupActor_cases s o' with ⟨ha,-,he⟩ | ⟨-,he⟩ <;> rw [he] <;>
      simp [Instr.holdsNetwork,lockCount]
  | finishCleanupActor => simp [effect,Instr.holdsNetwork,lockCount]
  | _ => simp [Instr.simple,Instr.steers] at hs hw

/-- One if the set holds `x`. -/
def member (x : ℕ) (a : Finset ℕ) : ℕ := if x ∈ a then 1 else 0

theorem member_of_mem {x : ℕ} {a : Finset ℕ} (h : x ∈ a) : member x a = 1 := if_pos h

theorem member_of_notMem {x : ℕ} {a : Finset ℕ} (h : x ∉ a) : member x a = 0 := if_neg h

theorem member_insert_of_ne {x y : ℕ} {a : Finset ℕ} (h : x ≠ y) :
    member x (insert y a) = member x a := by simp [member,h]

theorem member_erase_of_ne {x y : ℕ} {a : Finset ℕ} (h : x ≠ y) :
    member x (a.erase y) = member x a := by simp [member,h]

theorem failActorStart_actors {now : String} {o fresh : ℕ} {e : String}
    (hfresh : fresh ∉ s.cleanupActors)
    (hd : ∀ d, (s.operations o).thread = some d → d ∉ s.cleanupActors) :
    (failActorStart cfg now (associateActor s o fresh) o fresh e).cleanupActors =
      s.cleanupActors := by
  simp [associateActor_actors s o fresh hd,hfresh]

/-- The actors' account is kept thread by thread: only a thread's own last step and the start
of a new thread change who is registered. -/
theorem balance_actors (hact : i.plays Role.acts = true → t ∈ s.cleanupActors)
    (hfresh : fresh ∉ s.cleanupActors) (hdead : ∀ d, alive d = false → d ∉ s.cleanupActors)
    (ht : t ≠ fresh) :
    (effect cfg alive t fresh ch s i).push.countP (Instr.plays Role.acts) +
        member t s.cleanupActors =
      (if i.plays Role.acts then 1 else 0) +
        member t (effect cfg alive t fresh ch s i).state.cleanupActors ∧
    ((effect cfg alive t fresh ch s i).spawn.getD []).countP (Instr.plays Role.acts) =
      member fresh (effect cfg alive t fresh ch s i).state.cleanupActors ∧
    ∀ x, x ≠ t → x ≠ fresh →
      member x (effect cfg alive t fresh ch s i).state.cleanupActors =
        member x s.cleanupActors := by
  have hfree := member_of_notMem hfresh
  by_cases hs : i.simple = true ∨ i.steers ≠ none
  · obtain ⟨hx,hp,hsp,-,hst,-⟩ := balance_of_idle (s := s) cfg alive t fresh ch
      (p := Role.acts) rfl (by simp [Role.acts]) hs
    simp [hx,hp,hsp,hst,hfree]
  cases i with
  | prepareStart activate =>
    simp only [effect]
    rcases prepareStart_cases s t fresh activate ch.startError with
      he | ⟨e,he⟩ | ⟨-,he⟩ <;> rw [he]
    · simp [Instr.plays,Role.acts,hfree]
    · simp [Instr.plays,Role.acts,hfree]
    · cases activate <;> simp [Instr.plays,Role.acts,hfree]
  | finishWorker c =>
    simp only [effect]
    rcases finishWorker_cases s t c with ⟨o',-,-,-,he⟩ | ⟨-,he⟩ <;> rw [he] <;>
      simp [Instr.plays,Role.acts,hfree]
  | network call =>
    simp only [effect]
    rcases enterNetwork_cases s t call with ⟨-,he⟩ | ⟨c,rfl,-,he⟩ <;> rw [he] <;>
      simp [Instr.plays,Role.acts,hfree]
  | rpc call => simp [effect,callRegistry,Instr.plays,Role.acts,hfree]
  | commit call q r =>
    cases call with
    | register k' g =>
      cases k' <;> simp [effect,commitRpc,commitRegister,Instr.plays,Role.acts,hfree]
    | remove => simp [effect,commitRpc,commitRemove,Instr.plays,Role.acts,hfree]
    | worker c =>
      simp only [effect,commitRpc,commitWorker]
      split <;> simp [Instr.plays,Role.acts,hfree]
    | active o' => simp [effect,commitRpc,commitActive,Instr.plays,Role.acts,hfree]
  | joinRegister => simp [effect,joinRegister,Instr.plays,Role.acts,hfree]
  | removeOnce =>
    simp only [effect]
    rcases removeOnce_cases s t with ⟨-,he⟩ | ⟨-,he⟩ <;> rw [he] <;>
      simp [Instr.plays,Role.acts,hfree]
  | terminalRemove g =>
    simp only [effect,terminalRemove]
    split <;> simp [Instr.plays,Role.acts,hfree]
  | schedulePendingRemove caller =>
    simp only [effect]
    rcases schedulePendingRemove_cases cfg ch.now s t fresh alive caller ch.startError with
      ⟨-,he⟩ | ⟨o',ho,-,he⟩ | ⟨o',e,ho,-,he⟩
    all_goals rw [he]
    · simp [Instr.plays,Role.acts,hfree]
    · have hd := fun d h => hdead d ((schedulable_eq_some ho).2.2.2 d h)
      simp only [associateActor_actors s o' fresh hd,member_insert_of_ne ht]
      refine ⟨by simp [Instr.plays,Role.acts],?_,fun x _ hx => member_insert_of_ne hx⟩
      simp [Instr.plays,Role.acts,member_of_mem]
    · have hd := fun d h => hdead d ((schedulable_eq_some ho).2.2.2 d h)
      simp only [failActorStart_actors cfg hfresh hd]
      simp [Instr.plays,Role.acts,hfree]
  | runCleanupActor o' =>
    simp only [effect]
    rcases runCleanupActor_cases s o' with ⟨ha,-,he⟩ | ⟨-,he⟩ <;> rw [he] <;>
      simp [Instr.plays,Role.acts,hfree]
  | finishCleanupActor o' =>
    have hmem : t ∈ s.cleanupActors := hact rfl
    refine ⟨?_,?_,?_⟩
    · simp [effect,Instr.plays,Role.acts,member_of_mem hmem,member_of_notMem]
    · simp [effect,member_erase_of_ne ht.symm,hfree]
    · exact fun x hx _ => member_erase_of_ne hx
  | _ => simp [Instr.simple,Instr.steers] at hs

end Balance
end FlaskXxlJob.Registry
