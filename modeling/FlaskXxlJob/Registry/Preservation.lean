import FlaskXxlJob.Registry.CleanupSections
import FlaskXxlJob.Registry.Program

/-! Every instruction keeps the representation invariant. -/
namespace FlaskXxlJob.Registry
open FlaskXxlJob.Client Interleaving

variable {cfg : Config} {now : String} {s s' : State}

namespace CoordinationInv

theorem of_eq (h : CoordinationInv s) (hc : s'.toCleanup = s.toCleanup)
    (hg : s'.generation = s.generation) : CoordinationInv s' := by
  unfold CoordinationInv at h ⊢
  rw [hc,hg]
  exact h

theorem congr (h : CoordinationInv s) (hg : s'.generation = s.generation)
    (hm : s'.lastRemoveRequestedGeneration = s.lastRemoveRequestedGeneration)
    (hk : s'.registerCoordination = s.registerCoordination)
    (hc : s'.coordinations = s.coordinations) (ha : s'.activeRemove = s.activeRemove)
    (hp : s'.pendingRemove = s.pendingRemove)
    (ho : ∀ o, (s'.operations o).generation = (s.operations o).generation) :
    CoordinationInv s' := by
  unfold CoordinationInv at h ⊢
  simp only [hg,hm,hk,hc,ha,hp,ho]
  exact h

theorem of_none (hk : s.registerCoordination = none) : CoordinationInv s := by
  intro k hk'
  simp [hk] at hk'

/-- Reconciling the current coordination establishes its clause. -/
theorem of_reconciled {k : ℕ} {p : State × Option ℕ} (h : CleanupInv s)
    (hk : s.registerCoordination = some k) (hr : Reconciled s k p) : CoordinationInv p.1 := by
  cases hr with
  | waiting hin =>
    intro k' hk' hin'
    obtain rfl := Option.some.inj (hk'.symm.trans hk)
    exact absurd hin' hin.ne'
  | covered o hin hreq hm _ ho hog =>
    intro k' hk' _
    obtain rfl := Option.some.inj (hk'.symm.trans hk)
    exact ⟨hreq,hm,o,Or.inl ho,hog⟩
  | dropped => exact of_none rfl
  | marked o hin hreq ho =>
    intro k' hk' _
    obtain rfl := Option.some.inj (hk'.symm.trans hk)
    exact ⟨hreq,rfl,o,Or.inr ho,(h.pending o ho).2.2.1⟩
  | created hin hreq =>
    intro k' hk' _
    obtain rfl := Option.some.inj (hk'.symm.trans hk)
    exact ⟨hreq,rfl,s.nextOperation,Or.inr rfl,by simp [createPending]⟩

theorem leaveCoordination (h : CoordinationInv s) {k : ℕ}
    (hk : s.registerCoordination ≠ some k) : CoordinationInv (leaveCoordination s k) := by
  intro k' hk' hin
  have hne : k' ≠ k := by
    rintro rfl
    exact hk hk'
  have hc : (Registry.leaveCoordination s k).coordinations k' = s.coordinations k' := by
    simp [Registry.leaveCoordination,State.updateCoordination,hne]
  rw [hc] at hin ⊢
  exact h k' hk' hin

end CoordinationInv

namespace Rep

theorem blank : Rep .blank where
  lifecycle := by constructor <;> simp [State.blank]
  cleanup := by constructor <;> simp [State.blank]
  coordination := .of_none rfl

theorem of_lifecycle (h : Rep s) (hl : LifecycleInv s') (hc : s'.toCleanup = s.toCleanup)
    (hg : s'.generation = s.generation) (hw : ∀ c, s'.worker = some c → s.worker = some c) :
    Rep s' := ⟨hl,h.cleanup.of_eq hc hg hw,h.coordination.of_eq hc hg⟩

theorem of_eq (h : Rep s) (hl : s'.toLifecycle = s.toLifecycle)
    (hc : s'.toCleanup = s.toCleanup) : Rep s' :=
  h.of_lifecycle (h.lifecycle.of_eq hl) hc (by rw [hl]) (by rw [hl]; exact fun _ => id)

theorem reconcile (hl : LifecycleInv s) (hc : CleanupInv s) {k : ℕ}
    (hk : s.registerCoordination = some k) : Rep (reconcileRegisterCoordinationLocked s k).1 :=
  ⟨hl.of_eq (by simp),hc.of_reconciled hk (hc.reconcile hk),
    .of_reconciled hc hk (hc.reconcile hk)⟩

theorem reconcileGeneration (hl : LifecycleInv s) (hc : CleanupInv s) {g : ℕ}
    (hs : g ≠ s.generation → CoordinationInv s) : Rep (reconcileGeneration s g) := by
  unfold Registry.reconcileGeneration
  cases hk : s.registerCoordination with
  | none => exact ⟨hl,hc,.of_none hk⟩
  | some k =>
    dsimp only
    split
    · exact reconcile hl hc hk
    · rename_i hne
      rw [(hc.coordination k hk).2.1] at hne
      exact ⟨hl,hc,hs (Ne.symm hne)⟩

/-! ### Lifecycle sections -/

theorem publishPrepared (h : Rep s) (hr : prepareRefused s = false) (t : ℕ) :
    Rep (publishPrepared s t) :=
  h.of_lifecycle (h.lifecycle.publishPrepared hr t) rfl rfl fun _ => id

theorem stopLocalLocked (h : Rep s) : Rep (stopLocalLocked s) := by
  unfold Registry.stopLocalLocked
  split
  · exact h
  · exact h.of_lifecycle (h.lifecycle.detachWorker ‹_›) rfl rfl (fun _ h => by cases h)

theorem dropPrepared (h : Rep s) : Rep (dropPrepared s) :=
  h.of_lifecycle h.lifecycle.dropPrepared rfl rfl fun _ => id

theorem cancelPrepared (h : Rep s) (p : ℕ) : Rep (cancelPrepared s p) :=
  h.of_lifecycle (h.lifecycle.cancelPrepared p) rfl rfl fun _ => id

theorem commitActivation (h : Rep s) {p : ℕ} (ha : activationOf s p = .committed) :
    Rep (commitActivation s p).1 := by
  have hl := h.lifecycle.commitActivation ha
  obtain ⟨hw,hp,hc⟩ := h.lifecycle.of_committed ha
  have hs : Registry.stopLocalLocked s = s := by simp [Registry.stopLocalLocked,hw]
  simp only [Registry.commitActivation,hs,hc] at hl ⊢
  have hpub : CleanupInv (publishWorker s p) :=
    h.cleanup.publishWorker (h.lifecycle.prepared p hp).2.1
  refine ⟨hl,?_,?_⟩
  all_goals unfold waitForActive; split
  · exact hpub.of_eq rfl rfl fun _ => id
  · exact hpub
  · exact .of_none rfl
  · exact .of_none rfl

theorem forgetWorker (h : Rep s) {c : ℕ} (hp : s.preparedStart ≠ some c) :
    Rep (forgetWorker s c) := by
  refine h.of_lifecycle (h.lifecycle.forgetWorker hp) rfl rfl ?_
  intro d hd
  by_cases hw : s.worker = some c
  · simp [hw] at hd
  · simpa [hw] using hd

theorem claimPending (h : Rep s) {o : ℕ} (ho : s.pendingRemove = some o) :
    Rep (claimPending s o) := by
  refine ⟨h.lifecycle.of_eq rfl,h.cleanup.claimPending ho,?_⟩
  intro k hk hin
  obtain ⟨hreq,hm,o',-,-⟩ := h.coordination k hk hin
  exact ⟨hreq,hm,o,Or.inl rfl,(h.cleanup.pending o ho).2.2.1⟩

theorem finishWorkerSection (h : Rep s) {c : ℕ} (hp : s.preparedStart ≠ some c) :
    Rep (finishWorkerSection s c) := by
  unfold Registry.finishWorkerSection
  split
  · rename_i o ho
    have hpo : s.pendingRemove = some o := (Option.filter_eq_some_iff.mp ho).1
    exact (h.claimPending hpo).forgetWorker hp
  · exact h.forgetWorker hp

/-! ### Cleanup sections -/

theorem requestRemoveLocked (h : Rep s) (hw : s.worker = none) :
    Rep (requestRemoveLocked s).1 := by
  have hc := h.cleanup.requestRemoveLocked hw
  rw [h.cleanup.requestRemove_eq hw] at hc ⊢
  cases hk : s.registerCoordination with
  | some k =>
    exact reconcile (s := requestCleanup s k) (h.lifecycle.of_eq rfl)
      (h.cleanup.requestCleanup hw k) hk
  | none =>
    rw [hk] at hc
    exact ⟨h.lifecycle.of_eq (by simp),hc,.of_none (by simpa using hk)⟩

theorem joinRegisterCoordination (h : Rep s) : Rep (joinRegisterCoordination s).1 := by
  have hc := h.cleanup.joinRegisterCoordination
  rcases h.cleanup.join_cases with ⟨k,-,-,he⟩ | ⟨k,hk,-,he⟩ | ⟨hk,he⟩
  all_goals rw [he] at hc ⊢
  · exact h
  · refine ⟨h.lifecycle.of_eq rfl,hc,?_⟩
    intro k' hk' hin
    obtain rfl := Option.some.inj (hk'.symm.trans hk)
    simp [enterCoordination,State.updateCoordination] at hin
  · refine ⟨h.lifecycle.of_eq rfl,hc,?_⟩
    intro k' hk' hin
    obtain rfl := Option.some.inj hk'
    simp [enterCoordination,State.updateCoordination] at hin

/-- The completion of a one-shot call gives its token back and reconciles. -/
theorem commitOneShot (h : Rep s) (r : CallResult) (q g k : ℕ) :
    Rep (releaseCoordination (acceptOneShot cfg now s r q false (some g) (some k)) k).1 := by
  have hl : LifecycleInv (acceptOneShot cfg now s r q false (some g) (some k)) :=
    h.lifecycle.of_eq (by simp)
  have hc : CleanupInv (acceptOneShot cfg now s r q false (some g) (some k)) :=
    h.cleanup.acceptOneShot cfg now r q false (some g) (some k)
  rw [releaseCoordination_eq]
  split
  · exact reconcile (s := leaveCoordination _ k) (hl.of_eq rfl) (hc.leaveCoordination k) ‹_›
  · rename_i hne
    refine ⟨hl.of_eq rfl,hc.leaveCoordination k,CoordinationInv.leaveCoordination ?_ hne⟩
    rcases acceptOneShot_cases cfg now s r q false (some g) (some k) with
      ⟨-,he⟩ | ⟨-,he⟩ | ⟨-,-,-,-,⟨k',hk',hk,-⟩,-⟩
    · rw [he]
      exact h.coordination
    · rw [he]
      exact h.coordination.of_eq rfl rfl
    · exact absurd (by simpa [Option.some.inj hk'] using hk) hne

theorem acceptOneShot (h : Rep s) (r : CallResult) (q : ℕ) (remove : Bool) (g : Option ℕ) :
    Rep (acceptOneShot cfg now s r q remove g none) := by
  rcases acceptOneShot_cases cfg now s r q remove g none with
    ⟨-,he⟩ | ⟨-,he⟩ | ⟨-,-,-,-,⟨k,hk,-⟩,-⟩
  · exact he.symm ▸ h
  · rw [he]
    exact h.of_eq rfl rfl
  · cases hk

theorem acceptWorker (h : Rep s) (c : ℕ) (r : CallResult) (q : ℕ) :
    Rep (acceptWorker cfg now s c r q) := by
  rcases acceptWorker_cases cfg now s r q c with ⟨-,he⟩ | ⟨hw,-,he | ⟨-,hs,-⟩⟩
  · rw [he]
    exact h
  · rw [he]
    exact h.of_eq rfl rfl
  · -- a current Worker excludes a cached success of its generation
    have hcur : s.worker = some c := by
      simp only [workerIsCurrent,isCurrentWorker,Bool.and_eq_true,decide_eq_true_eq] at hw
      exact hw.2.1
    have hn := ((h.cleanup.removed _ hs).2 rfl).1
    simp [hcur] at hn

/-- Completing an Active of an older generation does not touch the current coordination. -/
theorem coordination_of_older (h : Rep s) {o : ℕ} (ho : s.activeRemove = some o)
    (hne : (s.operations o).generation ≠ s.generation) (r : CallResult) :
    CoordinationInv (dropActive (storeResult s o r)) := by
  intro k hk hin
  obtain ⟨hreq,hm,o',ho',hg'⟩ := h.coordination k hk hin
  refine ⟨hreq,hm,o',?_,(storeResult_generation s o o' r).trans hg'⟩
  rcases ho' with ho' | ho'
  · obtain rfl := Option.some.inj (ho.symm.trans ho')
    exact absurd hg' hne
  · exact Or.inr ho'

variable (cfg now) in
theorem completeRemoveOperation (h : Rep s) {o : ℕ} (ho : s.activeRemove = some o)
    (r : CallResult) (q : ℕ) : Rep (completeRemoveOperation cfg now s o r q).1 := by
  have hold := fun hne => h.coordination_of_older ho hne (cfg.safeResult r)
  have hc := h.cleanup.storeResult o (cfg.safeResult r)
  have hl : ∀ s', s'.toLifecycle = s.toLifecycle → LifecycleInv s' := fun _ => h.lifecycle.of_eq
  rcases h.cleanup.completeRemove_cases cfg now ho r q with ⟨-,he⟩ | ⟨-,-,he⟩ | ⟨-,hr,hg,hw,he⟩
  all_goals rw [he]
  · exact reconcileGeneration (hl (dropActive (storeResult s o (cfg.safeResult r))) rfl)
      hc.dropActive hold
  · exact reconcileGeneration (hl (dropActive (applyResult cfg now
      (storeResult s o (cfg.safeResult r)) r q .remove)) rfl)
      (hc.applyResult r q .remove).dropActive fun hne => (hold hne).of_eq rfl rfl
  · exact reconcileGeneration (hl (dropActive (satisfied cfg now s o r q)) rfl)
      (h.cleanup.satisfied hr q hg hw) fun hne => absurd hg.symm hne

theorem failActorStart (h : Rep s) {o : ℕ} (ho : s.pendingRemove = some o) (t : ℕ) (e : String) :
    Rep (failActorStart cfg now s o t e) := by
  have hg : ((abandonOperation s o t (cfg.safeResult (startFailure e))).operations o).generation =
      s.generation := by
    simpa [abandonOperation,State.updateOperation] using (h.cleanup.pending o ho).2.2.1
  have hc : CleanupInv (recordResultLocked cfg now
      (abandonOperation s o t (cfg.safeResult (startFailure e))) (startFailure e) .local) :=
    (h.cleanup.abandonOperation o t _).of_eq rfl rfl fun _ => id
  have hl : LifecycleInv (recordResultLocked cfg now
      (abandonOperation s o t (cfg.safeResult (startFailure e))) (startFailure e) .local) :=
    h.lifecycle.of_eq rfl
  exact reconcileGeneration hl hc fun hne => absurd hg hne

theorem associateActor (h : Rep s) (o t : ℕ) : Rep (associateActor s o t) :=
  ⟨h.lifecycle.of_eq (by simp),h.cleanup.associateActor o t,
    h.coordination.congr (by simp) (by simp) (by simp) (by simp) (by simp) (by simp) (by simp)⟩

theorem releaseActor (h : Rep s) (o t : ℕ) : Rep (releaseActor s o t) :=
  ⟨h.lifecycle.of_eq rfl,h.cleanup.releaseActor o t,
    h.coordination.congr rfl rfl rfl rfl rfl rfl (by simp)⟩

theorem setOperationDone (h : Rep s) {o : ℕ} (hp : s.pendingRemove ≠ some o)
    (ha : s.activeRemove ≠ some o) :
    Rep (s.updateOperation o fun op => { op with doneEvent := true }) := by
  refine ⟨h.lifecycle.of_eq rfl,h.cleanup.updateOperation o (fun _ => rfl) (Or.inl ⟨hp,ha⟩),
    h.coordination.congr rfl rfl rfl rfl rfl rfl fun o' => ?_⟩
  by_cases ho : o' = o <;> simp [State.updateOperation,ho]

theorem setCoordinationDone (h : Rep s) (k : ℕ) :
    Rep (s.updateCoordination k fun c => { c with doneEvent := true }) := by
  refine ⟨h.lifecycle.of_eq rfl,
    h.cleanup.updateCoordination k (fun _ => rfl) (Or.inr fun _ => rfl),?_⟩
  have hc : ∀ k', ((s.updateCoordination k fun c => { c with doneEvent := true }).coordinations
      k').inflightCount = (s.coordinations k').inflightCount ∧
      ((s.updateCoordination k fun c => { c with doneEvent := true }).coordinations
      k').cleanupRequested = (s.coordinations k').cleanupRequested := by
    intro k'
    by_cases hk : k' = k <;> simp [State.updateCoordination,hk]
  intro k' hk' hin
  rw [(hc k').1] at hin
  rw [(hc k').2]
  exact h.coordination k' hk' hin

theorem requestCleanup (h : Rep s) (hw : s.worker = none) (k : ℕ) : Rep (requestCleanup s k) := by
  refine ⟨h.lifecycle.of_eq rfl,h.cleanup.requestCleanup hw k,?_⟩
  intro k' hk' hin
  by_cases hk : k' = k
  · subst hk
    have hin' : (s.coordinations k').inflightCount = 0 := by
      simpa [Registry.requestCleanup,State.updateCoordination] using hin
    obtain ⟨-,hm,ho⟩ := h.coordination k' hk' hin'
    exact ⟨by simp [Registry.requestCleanup,State.updateCoordination],hm,ho⟩
  · have hc : (Registry.requestCleanup s k).coordinations k' = s.coordinations k' := by
      simp [Registry.requestCleanup,State.updateCoordination,hk]
    rw [hc] at hin ⊢
    exact h.coordination k' hk' hin

theorem publishActive (h : Rep s) (hw : s.worker = none)
    (hp : s.pendingRemove = none)
    (hs : s.lastSuccessfullyRemovedGeneration ≠ some s.generation) :
    Rep (publishActive s s.generation) := by
  refine ⟨h.lifecycle.of_eq rfl,h.cleanup.publishActive hw hp hs,?_⟩
  intro k hk hin
  obtain ⟨hreq,hm,-⟩ := h.coordination k hk hin
  exact ⟨hreq,hm,s.nextOperation,Or.inl rfl,by simp [Registry.publishActive]⟩

theorem updateContext (h : Rep s) (c : ℕ) :
    Rep (s.updateContext c fun ctx => { ctx with stopEvent := true }) :=
  h.of_lifecycle (h.lifecycle.updateContext c (fun _ => rfl) (fun _ _ => rfl) (fun _ => rfl)
    (fun hp => (h.lifecycle.prepared c hp).2.2.1) fun _ _ => id) rfl rfl fun _ => id

theorem updatePrepared (h : Rep s) {p : ℕ} (hp : s.preparedStart ≠ some p) :
    Rep (s.updatePrepared p fun q => { q with activateEvent := true }) :=
  h.of_lifecycle (h.lifecycle.updatePrepared p (fun _ => rfl) (fun _ => rfl) hp) rfl rfl
    fun _ => id

end Rep

/-- What the ownership accounts guarantee about an instruction about to run. -/
def Instr.Owned (s : State) : Instr → Prop
  | .setActivate p => s.preparedStart ≠ some p
  | .setOperationDone o => s.pendingRemove ≠ some o ∧ s.activeRemove ≠ some o
  | .finishWorker c => s.preparedStart ≠ some c
  | .rpc _ => s.networkLock ≠ none
  | .commit (.active o) _ _ => s.activeRemove = some o
  | .commit (.register (some k) _) _ _ => 0 < (s.coordinations k).inflightCount
  | .shutdownRequest g => Retired s g
  | _ => True

namespace Rep

/-- A terminal caller publishes its own Active only when nothing else owns the cleanup. -/
theorem of_own (h : Rep s) {g : ℕ} (hv : terminalView s g = .own) :
    s.generation = g ∧ s.worker = none ∧ s.pendingRemove = none ∧
      s.lastSuccessfullyRemovedGeneration ≠ some s.generation := by
  have hsaw := terminalView_saw s g
  rw [hv] at hsaw
  obtain ⟨hg,hw,-,hp,hs,-⟩ := hsaw
  refine ⟨hg,hw,hp,fun hsg => ?_⟩
  obtain ⟨-,-,r,hr,-⟩ := (h.cleanup.removed _ hsg).2 rfl |>.imp_right id
  simp [hs (hg ▸ hsg)] at hr

theorem prepareStart (h : Rep s) (t fresh : ℕ) (activate : Bool) (startError : Option String) :
    Rep (prepareStart s t fresh activate startError).state := by
  unfold Registry.prepareStart
  split
  · exact h
  · split
    · exact h
    · exact h.publishPrepared (Bool.eq_false_iff.mpr ‹_›) fresh

theorem activatePreparedStart (h : Rep s) (t p : ℕ) :
    Rep (activatePreparedStart s t p).state := by
  unfold Registry.activatePreparedStart
  split
  · exact h
  · exact h
  · exact h.commitActivation ‹_›

theorem settlePrepared (h : Rep s) (p : ℕ) : Rep (settlePrepared s p).state := by
  unfold Registry.settlePrepared
  split
  · exact h.cancelPrepared p
  · exact h
  · exact h

theorem stop (h : Rep s) (remove : Bool) : Rep (stop s remove).state := by
  have hs : Rep (Registry.stopLocalLocked (Registry.dropPrepared s)) := h.dropPrepared.stopLocalLocked
  cases remove with
  | false => exact hs
  | true => exact hs.requestRemoveLocked (by simp)

theorem shutdownLocal (h : Rep s) (deregister : Bool) : Rep (shutdownLocal cfg s deregister) := by
  have hs : Rep { Registry.stopLocalLocked (Registry.dropPrepared s) with
      closeLogsWhenIdle := true } := h.dropPrepared.stopLocalLocked.of_eq rfl rfl
  unfold Registry.shutdownLocal
  dsimp only
  split
  · split
    · exact hs.requestCleanup (stopLocalLocked_frame _).2.2.2.2.2.2.2.2 _
    · exact hs
  · exact hs

theorem terminalRemove (h : Rep s) (g : ℕ) : Rep (terminalRemove cfg s g).state := by
  unfold Registry.terminalRemove
  split
  case h_7 hv =>
    obtain ⟨hg,hw,hp,hs⟩ := h.of_own hv
    rw [← hg]
    exact h.publishActive hw hp hs
  all_goals exact h

theorem schedulePendingRemove (h : Rep s) (alive : ℕ → Bool) (t fresh : ℕ) (caller : Scheduler)
    (startError : Option String) :
    Rep (schedulePendingRemove cfg now alive s t fresh caller startError).state := by
  unfold Registry.schedulePendingRemove
  split
  · exact h
  rename_i o ho
  have hpo : s.pendingRemove = some o := (Option.filter_eq_some_iff.mp ho).1
  split
  · exact h.associateActor o fresh
  · exact (h.associateActor o fresh).failActorStart (by simpa using hpo) fresh _

theorem runCleanupActor (h : Rep s) (o : ℕ) : Rep (runCleanupActor s o).state := by
  unfold Registry.runCleanupActor
  split
  · rename_i hc
    simp only [actorClaims,Bool.and_eq_true,decide_eq_true_eq] at hc
    exact h.claimPending hc.2
  · exact h

theorem commitRpc (h : Rep s) {t q : ℕ} {call : RpcCall} {r : CallResult}
    (hi : (Instr.commit call q r).Owned s) : Rep (commitRpc cfg now s t call q r).state := by
  cases call with
  | register k g =>
    cases k with
    | none => exact h.acceptOneShot r q false (some g)
    | some k => exact h.commitOneShot r q g k
  | remove => exact h.acceptOneShot r q true none
  | worker c => exact h.acceptWorker c r q
  | active o => exact h.completeRemoveOperation cfg now hi r q

variable (cfg) in
theorem effect (h : Rep s) (alive : ℕ → Bool) (t fresh : ℕ) (ch : Choice) {i : Instr}
    (hi : i.Owned s) : Rep (effect cfg alive t fresh ch s i).state := by
  cases i with
  | prepareStart activate => exact h.prepareStart t fresh activate ch.startError
  | activatePreparedStart p => exact h.activatePreparedStart t p
  | cancelPreparedStart p =>
    simp only [Registry.effect,Registry.cancelPreparedStart]
    split
    · exact h.cancelPrepared p
    · exact h
  | settlePrepared p => exact h.settlePrepared p
  | setStop c => exact h.updateContext c
  | setActivate p => exact h.updatePrepared hi
  | setOperationDone o => exact h.setOperationDone hi.1 hi.2
  | setCoordinationDone k => exact h.setCoordinationDone k
  | finishWorker c => exact h.finishWorkerSection hi
  | network call =>
    simp only [Registry.effect,enterNetwork]
    split
    · split
      · exact h.of_eq rfl rfl
      · exact h
    all_goals exact h.of_eq rfl rfl
  | rpc call => exact h.of_eq rfl rfl
  | commit call q r => exact h.commitRpc hi
  | stop remove => exact h.stop remove
  | shutdown deregister => exact h.shutdownLocal deregister
  | shutdownRequest target =>
    simp only [Registry.effect,Registry.shutdownRequest]
    split
    · exact h.requestRemoveLocked (hi.2 (Eq.symm ‹_›))
    · exact h
  | recordLocalFailure r => exact h.of_eq rfl rfl
  | joinRegister => exact h.joinRegisterCoordination
  | removeOnce =>
    simp only [Registry.effect,Registry.removeOnce]
    split <;> exact h
  | terminalRemove g => exact h.terminalRemove g
  | schedulePendingRemove caller =>
    exact h.schedulePendingRemove alive t fresh caller ch.startError
  | runCleanupActor o => exact h.runCleanupActor o
  | finishCleanupActor o => exact h.releaseActor o t
  | maybeCloseLogs =>
    simp only [Registry.effect]
    split
    · exact h.of_eq rfl rfl
    · exact h
  | _ => exact h

end Rep
end FlaskXxlJob.Registry
