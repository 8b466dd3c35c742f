import FlaskXxlJob.Interleaving.Descent
import FlaskXxlJob.Registry.Attendance
import FlaskXxlJob.Registry.Layering
import FlaskXxlJob.Registry.Responsibility

/-!
What the service can still do by itself. Every instruction has a price that covers all it pushes
and starts. The state owes the price of an actor for a Pending Remove that has none, and the price
of the Pending Remove that may still be requested for the current generation.
-/
namespace FlaskXxlJob.Registry
open FlaskXxlJob.Client Interleaving

variable {cfg : Config} {s s' : State}

/-! ### Prices -/

/-- The price of the section that commits a call. An accepted register may reopen the cleanup. -/
def RpcCall.price : RpcCall → ℕ
  | .register .. => 29
  | .remove => 2
  | .worker _ => 16
  | .active _ => 9

namespace Instr

/-- Waiting is free, and a terminal caller pays once for all its passes. -/
def price : Instr → ℕ
  | .waitOperation _ | .waitCoordination _ => 0
  | .setStop _ | .setActivate _ | .setOperationDone _ | .setCoordinationDone _ | .waitActivate _
  | .recordLocalFailure _ | .closeLogs | .returnRegister .. | .returnRemove _ => 1
  | .maybeCloseLogs | .operationResult _ | .schedulePendingRemove .shutdown => 2
  | .cancelPreparedStart _ | .settlePrepared _ | .shutdownRequest _
  | .schedulePendingRemove .stop => 3
  | .schedulePendingRemove .quiet => 4
  | .stop _ => 6
  | .finishCleanupActor _ => 7
  | .shutdown _ => 8
  | .terminalRemove _ | .pendingResult .. | .schedulePendingRemove (.observer ..)
  | .finishWorker _ => 14
  | .removeOnce | .sleep _ => 15
  | .performWorkerRegistry _ | .runCleanupActor _ => 19
  | .workerLoop _ => 20
  | .recheckWorker _ => 21
  | .waitRemove .. => 22
  | .runWorker _ => 23
  | .preparedWorkerEntry _ | .activatePreparedStart _ => 24
  | .joinRegister => 33
  | .prepareStart _ => 51
  | .commit call _ _ => call.price
  | .rpc call => call.price + 1
  | .network call => call.price + 2

/-- The part of a price that is for the state or for the thread of a new Worker. -/
def reserve : Instr → ℕ
  | .activatePreparedStart _ | .commit (.register ..) _ _ => 20
  | .prepareStart _ => 26
  | _ => 0

/-- The instructions that may only lead to one another. -/
def circles : Instr → Bool
  | .waitOperation _ | .waitCoordination _ | .terminalRemove _ | .pendingResult ..
  | .schedulePendingRemove (.observer ..) => true
  | _ => false

end Instr

attribute [local simp] Instr.price Instr.reserve Instr.circles

def prices (l : List Instr) : ℕ := (l.map Instr.price).sum

@[simp] theorem prices_nil : prices [] = 0 := rfl

@[simp] theorem prices_cons (i : Instr) (l : List Instr) :
    prices (i :: l) = i.price + prices l := by
  simp [prices]

@[simp] theorem prices_append (l l' : List Instr) : prices (l ++ l') = prices l + prices l' := by
  simp [prices]

theorem prices_wakeCancelled (s : State) (p : Option ℕ) : prices (wakeCancelled s p) ≤ 2 := by
  cases p <;> simp [wakeCancelled,Instr.price]

theorem prices_operationDone (o : Option ℕ) : prices (o.toList.map .setOperationDone) ≤ 1 := by
  cases o <;> simp [Instr.price]

theorem prices_coordinationDone (k : Option ℕ) :
    prices (k.toList.map .setCoordinationDone) ≤ 1 := by
  cases k <;> simp [Instr.price]

theorem prices_exitRequest (cfg : Config) (s : State) (b : Bool) :
    prices (exitRequest cfg s b) ≤ 3 := by
  unfold exitRequest
  split
  · split <;> simp [Instr.price]
  · simp

theorem prices_scheduleOrClose (o : Option ℕ) : prices (scheduleOrClose o) ≤ 3 := by
  cases o <;> simp [scheduleOrClose,Instr.price]

theorem prices_scheduleFor (caller : Scheduler) (o : Option ℕ) :
    prices (scheduleFor caller o) ≤ (Instr.schedulePendingRemove caller).price := by
  cases o <;> simp [scheduleFor]

/-- What follows a scheduler costs less than it, but for a caller that goes on to observe. -/
theorem prices_returned (caller : Scheduler) :
    prices caller.returned < (Instr.schedulePendingRemove caller).price ∨
      (Instr.schedulePendingRemove caller).circles = true ∧
        prices caller.returned = (Instr.schedulePendingRemove caller).price := by
  cases caller <;> simp [Scheduler.returned,Instr.price,Instr.circles]

theorem prices_failed (caller : Scheduler) (o : ℕ) :
    prices (.setOperationDone o :: caller.failed) <
      (Instr.schedulePendingRemove caller).price := by
  cases caller <;> simp [Scheduler.failed,Instr.price]

theorem prices_commitRegister (cfg : Config) (now : String) (s : State) (t k g q : ℕ)
    (r : CallResult) : prices (commitRegister cfg now s t (some k) g q r).push + 20 < 29 := by
  let released := releaseCoordination (acceptOneShot cfg now s r q false (some g) (some k)) k
  have ho : prices (scheduleFor .quiet released.2.2) ≤ 4 := prices_scheduleFor .quiet _
  have hd : prices (if released.2.1 then [.setCoordinationDone k] else []) ≤ 1 := by
    split <;> simp [Instr.price]
  show prices ((if released.2.1 then [.setCoordinationDone k] else []) ++
    scheduleFor .quiet released.2.2 ++ [.maybeCloseLogs,.returnRegister q g r]) + 20 < 29
  simp only [prices_append,prices_cons,prices_nil,Instr.price]
  omega

/-- A step costs less than the price of its instruction, up to what it reserves. -/
theorem effect_prices (cfg : Config) (s : State) (alive : ℕ → Bool) (t fresh : ℕ) (ch : Choice)
    {i : Instr} (hsleep : ∀ c, i = .sleep c → (s.contexts c).stopEvent = true) :
    prices (effect cfg alive t fresh ch s i).push + i.reserve < i.price ∨
      i.circles = true ∧ prices (effect cfg alive t fresh ch s i).push ≤ i.price := by
  cases i with
  | prepareStart activate =>
    left
    simp only [effect]
    rcases prepareStart_cases s t fresh activate ch.startError with
      he | ⟨e,he⟩ | ⟨-,he⟩ <;> rw [he]
    · simp [Instr.price,Instr.reserve]
    · simp [Instr.price,Instr.reserve]
    · cases activate <;> simp [Instr.price,Instr.reserve]
  | activatePreparedStart p =>
    left
    simp only [effect,activatePreparedStart]
    split
    · simp [Instr.price,Instr.reserve]
    · simp [Instr.price,Instr.reserve]
    · have ho := prices_operationDone (commitActivation s p).2.1
      have hk := prices_coordinationDone (commitActivation s p).2.2
      show prices ((commitActivation s p).2.1.toList.map .setOperationDone ++
        (commitActivation s p).2.2.toList.map .setCoordinationDone ++ [.setActivate p]) + 20 < 24
      simp only [prices_append,prices_cons,prices_nil,Instr.price]
      omega
  | cancelPreparedStart p =>
    left
    simp only [effect]
    rcases cancelPreparedStart_cases s p with ⟨-,he⟩ | ⟨-,he⟩ <;> rw [he] <;>
      simp [Instr.price,Instr.reserve]
  | settlePrepared p =>
    left
    simp only [effect]
    rcases settlePrepared_cases s p with he | ⟨-,he⟩ | ⟨-,-,-,he⟩ <;> rw [he] <;>
      simp [Instr.price,Instr.reserve]
  | stop remove =>
    left
    have hw := prices_wakeCancelled s (stopSection s remove).2.1
    have ho := prices_scheduleOrClose (stopSection s remove).2.2
    show prices (wakeCancelled s (stopSection s remove).2.1 ++
      scheduleOrClose (stopSection s remove).2.2) + 0 < 6
    simp only [prices_append]
    omega
  | shutdown b =>
    left
    have hw := prices_wakeCancelled s s.preparedStart
    have hx := prices_exitRequest cfg (shutdownLocal cfg s b) b
    simp only [effect,shutdown,prices_append,prices_cons,prices_nil,Instr.price,Instr.reserve]
    omega
  | shutdownRequest g =>
    left
    simp only [effect,shutdownRequest]
    split
    · have ho := prices_scheduleFor .shutdown (requestRemoveLocked s).2
      simp only [Instr.price,Instr.reserve] at ho ⊢
      omega
    · simp [Instr.price,Instr.reserve]
  | joinRegister =>
    left
    have hk := prices_coordinationDone (joinRegisterCoordination s).2.2.2
    show prices ((joinRegisterCoordination s).2.2.2.toList.map .setCoordinationDone ++
      [.network (.register (joinRegisterCoordination s).2.1 (joinRegisterCoordination s).2.2.1)]) +
        0 < 33
    simp only [prices_append,prices_cons,prices_nil,Instr.price,RpcCall.price]
    omega
  | network call =>
    left
    simp only [effect]
    rcases enterNetwork_cases s t call with ⟨-,he⟩ | ⟨c,rfl,-,he⟩ <;> rw [he] <;>
      simp [Instr.price,RpcCall.price,Instr.reserve]
  | rpc call =>
    left
    simp [effect,callRegistry,Instr.price,Instr.reserve]
  | commit call q r =>
    left
    cases call with
    | register k g =>
      cases k with
      | none => simp [effect,commitRpc,commitRegister,Instr.price,RpcCall.price,Instr.reserve]
      | some k =>
        exact prices_commitRegister cfg ch.now s t k g q r
    | remove => simp [effect,commitRpc,commitRemove,Instr.price,RpcCall.price,Instr.reserve]
    | worker c =>
      simp only [effect,commitRpc,commitWorker]
      split <;> simp [Instr.price,RpcCall.price,Instr.reserve]
    | active o =>
      have ho := prices_operationDone (completeRemoveOperation cfg ch.now s o r q).2
      simp only [effect,commitRpc,commitActive,prices_append,prices_cons,prices_nil,
        Instr.price,RpcCall.price,Instr.reserve,List.cons_append]
      omega
  | preparedWorkerEntry c =>
    left
    simp only [effect]
    split <;> simp [Instr.price,Instr.reserve]
  | runWorker c =>
    left
    simp only [effect]
    rcases guardCurrent_cases s c _ with ⟨-,he⟩ | ⟨-,he⟩ <;> rw [he]
    · split <;> simp [Instr.price,Instr.reserve]
    · simp [Instr.price,Instr.reserve]
  | workerLoop c | recheckWorker c | performWorkerRegistry c =>
    left
    simp only [effect]
    rcases guardCurrent_cases s c _ with ⟨-,he⟩ | ⟨-,he⟩ <;> rw [he] <;>
      simp [Instr.price,RpcCall.price,Instr.reserve]
  | sleep c =>
    left
    simp [effect,hsleep c rfl,Instr.price,Instr.reserve]
  | finishWorker c =>
    left
    simp only [effect]
    rcases finishWorker_cases s t c with ⟨o,-,-,-,he⟩ | ⟨-,he⟩ <;> rw [he] <;>
      simp [Instr.price,RpcCall.price,Instr.reserve]
  | removeOnce =>
    left
    simp only [effect]
    rcases removeOnce_cases s t with ⟨-,he⟩ | ⟨-,he⟩ <;> rw [he] <;>
      simp [Instr.price,RpcCall.price,Instr.reserve]
  | terminalRemove g =>
    right
    refine ⟨rfl,?_⟩
    simp only [effect,terminalRemove]
    split <;> simp [Instr.price,RpcCall.price]
  | pendingResult o g =>
    right
    refine ⟨rfl,?_⟩
    simp only [effect]
    split <;> simp [Instr.price]
  | schedulePendingRemove caller =>
    simp only [effect]
    rcases schedulePendingRemove_cases cfg ch.now s t fresh alive caller ch.startError with
      ⟨-,he⟩ | ⟨o,-,-,he⟩ | ⟨o,e,-,-,he⟩ <;> rw [he]
    · exact (prices_returned caller).imp id (And.imp_right Eq.le)
    · exact (prices_returned caller).imp id (And.imp_right Eq.le)
    · exact Or.inl (prices_failed caller o)
  | runCleanupActor o =>
    left
    simp only [effect]
    rcases runCleanupActor_cases s o with ⟨-,-,he⟩ | ⟨-,he⟩ <;> rw [he] <;>
      simp [Instr.price,RpcCall.price,Instr.reserve]
  | maybeCloseLogs =>
    left
    simp only [effect]
    split <;> simp [Instr.price,Instr.reserve]
  | waitOperation o => exact Or.inr ⟨rfl,le_rfl⟩
  | waitCoordination k => exact Or.inr ⟨rfl,le_rfl⟩
  | _ => simp [effect,Instr.price,Instr.reserve]

/-! ### Debt -/

/-- The price of an actor, for a Pending Remove that has none. -/
def unattended (s : State) : ℕ :=
  if s.pendingRemove.any fun o => (s.operations o).thread.isNone then 20 else 0

/-- The same for a Pending Remove that may still be requested. -/
def unrequested (s : State) : ℕ :=
  if s.lastRemoveRequestedGeneration = some s.generation then 0 else 20

def debt (s : State) : ℕ := unattended s + unrequested s

theorem unattended_le (s : State) : unattended s ≤ 20 := by
  unfold unattended
  split <;> omega

theorem unrequested_le (s : State) : unrequested s ≤ 20 := by
  unfold unrequested
  split <;> omega

theorem unattended_eq {o : ℕ} (ho : s.pendingRemove = some o)
    (hd : (s.operations o).thread = none) : unattended s = 20 := by
  simp [unattended,ho,hd]

theorem unattended_le_of (h : ∀ o, s'.pendingRemove = some o →
    (s'.operations o).thread = none → s.pendingRemove = some o ∧ (s.operations o).thread = none) :
    unattended s' ≤ unattended s := by
  by_cases ho : ∃ o, s'.pendingRemove = some o ∧ (s'.operations o).thread = none
  · obtain ⟨o,ho,hd⟩ := ho
    obtain ⟨hp,ht⟩ := h o ho hd
    rw [unattended_eq hp ht]
    exact unattended_le s'
  · have hzero : unattended s' = 0 := by
      unfold unattended
      rw [if_neg]
      simpa [Option.any_eq_true] using ho
    omega

/-- A new Pending Remove takes the request of its generation. -/
theorem Unreopened.debt_le (h : Unreopened s s')
    (hkeep : ∀ o, s.pendingRemove = some o → s'.pendingRemove = some o →
      (s'.operations o).thread = none → (s.operations o).thread = none) : debt s' ≤ debt s := by
  have hle := unattended_le s'
  by_cases hnew : s.lastRemoveRequestedGeneration ≠ some s.generation ∧
      s'.lastRemoveRequestedGeneration = some s.generation
  · have hfull : unrequested s = 20 := if_neg hnew.1
    have hzero : unrequested s' = 0 := if_pos (h.generation ▸ hnew.2)
    unfold debt
    omega
  · have hpending : unattended s' ≤ unattended s := by
      apply unattended_le_of
      intro o ho hd
      have hp := (h.pending o ho).resolve_right hnew
      exact ⟨hp,hkeep o hp ho hd⟩
    have hrequest : unrequested s' ≤ unrequested s := by
      unfold unrequested
      rw [h.generation]
      rcases h.requested with hr | hr
      · rw [hr]
      · simp [hr]
    unfold debt
    omega

section After
variable {s : System} {t : ℕ} {i : Instr} {rest : List Instr} {ch : Choice}

/-- An actor that is associated with an operation is still running. -/
theorem Reachable.actor_alive (hr : Reachable cfg s) {o d : ℕ}
    (hd : (s.shared.operations o).thread = some d) : s.alive d = true := by
  rw [Sys.alive_iff]
  rcases hr.obliged.actors o d hd with hi | hi <;> exact List.ne_nil_of_mem hi

theorem Reachable.debt_le (hr : Reachable cfg s) (hc : s.code t = i :: rest) :
    debt (s.after cfg t i rest ch).shared ≤ debt s.shared + i.reserve := by
  have hinv := hr.invariant
  have hi : i.Owned s.shared := hinv.owned (t := t) (by simp [hc])
  have hkeep : ∀ o, s.shared.pendingRemove = some o →
      (s.after cfg t i rest ch).shared.pendingRemove = some o →
      ((s.after cfg t i rest ch).shared.operations o).thread = none →
      (s.shared.operations o).thread = none := fun o => hr.acting.keeps hinv hc
  rcases effect_responsibility cfg s.alive t s.next ch hinv.rep hi with
    h | ⟨p,rfl,-,-,-,hp,-⟩ | ⟨k,q,r,rfl,-,-,-,h⟩
  · exact (h.debt_le hkeep).trans (Nat.le_add_right _ _)
  · have hzero : unattended (s.after cfg t (.activatePreparedStart p) rest ch).shared = 0 := by
      simp [unattended,hp]
    have hle := unrequested_le (s.after cfg t (.activatePreparedStart p) rest ch).shared
    show debt _ ≤ debt _ + 20
    unfold debt
    omega
  · have hreopen : debt (reopenCleanup s.shared) ≤ debt s.shared + 20 := by
      have hle := unrequested_le (reopenCleanup s.shared)
      show unattended s.shared + _ ≤ unattended s.shared + _ + 20
      omega
    exact (h.debt_le hkeep).trans hreopen

variable (ch) in
/-- What a step starts is paid for by what it reserves and by what the state has owed. -/
theorem Reachable.owes (hr : Reachable cfg s) (hc : s.code t = i :: rest) :
    ((effect cfg s.alive t s.next ch s.shared i).spawn = none ∧
      debt (s.after cfg t i rest ch).shared ≤ debt s.shared + i.reserve) ∨
    debt (s.after cfg t i rest ch).shared +
      prices ((effect cfg s.alive t s.next ch s.shared i).spawn.getD []) <
        debt s.shared + i.reserve := by
  rcases effect_spawn_cases cfg s.shared t s.next s.alive ch i with
    hs | ⟨activate,rfl,-,hst,hs⟩ | ⟨caller,o,rfl,ho,hst,hs⟩
  · exact Or.inl ⟨hs,hr.debt_le hc⟩
  · right
    rw [Sys.advance_shared,hst,hs]
    show debt s.shared + 25 < debt s.shared + 26
    omega
  · right
    obtain ⟨hp,-,-,hdead⟩ := schedulable_eq_some ho
    have hnone : (s.shared.operations o).thread = none := by
      rw [Option.eq_none_iff_forall_ne_some]
      intro d hd
      simpa [hr.actor_alive hd] using hdead d hd
    have hfull := unattended_eq hp hnone
    have hzero : unattended (associateActor s.shared o s.next) = 0 := by
      simp [unattended,hp,associateActor_thread]
    have hsame : unrequested (associateActor s.shared o s.next) = unrequested s.shared := by
      simp [unrequested]
    rw [Sys.advance_shared,hst,hs]
    show unattended _ + unrequested _ + 19 < unattended _ + unrequested _ + 0
    omega

end After

end FlaskXxlJob.Registry
