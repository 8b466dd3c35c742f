import FlaskXxlJob.Registry.Growth
import FlaskXxlJob.Registry.ControlFlow

/-!
The cleanup responsibility of a generation. Every step keeps the two markers of the current
generation once they are set, except for an accepted register, which reopens both, and an
activation, which leaves the generation behind.
-/
namespace FlaskXxlJob.Registry
open FlaskXxlJob.Client Interleaving

variable {cfg : Config} {now : String} {s s' s'' : State}

/-- From `s` to `s'` the markers move only to the current generation, and a new Pending takes
the request. -/
structure Unreopened (s s' : State) : Prop where
  generation : s'.generation = s.generation
  requested : s'.lastRemoveRequestedGeneration = s.lastRemoveRequestedGeneration ∨
    s'.lastRemoveRequestedGeneration = some s.generation
  removed : s'.lastSuccessfullyRemovedGeneration = s.lastSuccessfullyRemovedGeneration ∨
    s'.lastSuccessfullyRemovedGeneration = some s.generation
  pending : ∀ o, s'.pendingRemove = some o → s.pendingRemove = some o ∨
    (s.lastRemoveRequestedGeneration ≠ some s.generation ∧
      s'.lastRemoveRequestedGeneration = some s.generation)

namespace Unreopened

theorem refl (s : State) : Unreopened s s := ⟨rfl,Or.inl rfl,Or.inl rfl,fun _ => Or.inl⟩

theorem of_eq (hg : s'.generation = s.generation)
    (hm : s'.lastRemoveRequestedGeneration = s.lastRemoveRequestedGeneration)
    (hr : s'.lastSuccessfullyRemovedGeneration = s.lastSuccessfullyRemovedGeneration)
    (hp : ∀ o, s'.pendingRemove = some o → s.pendingRemove = some o) : Unreopened s s' :=
  ⟨hg,Or.inl hm,Or.inl hr,fun o ho => Or.inl (hp o ho)⟩

theorem of_cleanup (hg : s'.generation = s.generation) (hc : s'.toCleanup = s.toCleanup) :
    Unreopened s s' :=
  of_eq hg (congrArg Cleanup.lastRemoveRequestedGeneration hc)
    (congrArg Cleanup.lastSuccessfullyRemovedGeneration hc)
    fun _ ho => (congrArg Cleanup.pendingRemove hc).symm.trans ho

theorem trans (h : Unreopened s s') (h' : Unreopened s' s'') : Unreopened s s'' where
  generation := h'.generation.trans h.generation
  requested := by
    rcases h'.requested with hr | hr
    · rw [hr]
      exact h.requested
    · exact Or.inr (hr.trans (congrArg some h.generation))
  removed := by
    rcases h'.removed with hr | hr
    · rw [hr]
      exact h.removed
    · exact Or.inr (hr.trans (congrArg some h.generation))
  pending o ho := by
    have hg := h.generation
    rcases h'.pending o ho with hp | ⟨hn,hy⟩
    · rcases h.pending o hp with hp | ⟨hn,hy⟩
      · exact Or.inl hp
      · refine Or.inr ⟨hn,?_⟩
        rcases h'.requested with hr | hr
        · exact hr.trans hy
        · rw [hr,hg]
    · rw [hg] at hn hy
      refine Or.inr ⟨fun hs => hn ?_,hy⟩
      rcases h.requested with hr | hr
      · exact hr.trans hs
      · exact hr

end Unreopened

/-! ### Cleanup sections -/

theorem unreopened_createPending
    (hm : s.lastRemoveRequestedGeneration ≠ some s.generation) :
    Unreopened s (createPending s s.generation) :=
  ⟨rfl,Or.inr rfl,Or.inl rfl,fun _ _ => Or.inr ⟨hm,rfl⟩⟩

theorem unreopened_markRequested : Unreopened s (markRequested s s.generation) :=
  ⟨rfl,Or.inr rfl,Or.inl rfl,fun _ => Or.inl⟩

theorem unreopened_reconciled {k : ℕ} {p : State × Option ℕ} (h : Reconciled s k p) :
    Unreopened s p.1 := by
  cases h with
  | waiting | covered => exact .refl s
  | dropped => exact .of_eq rfl rfl rfl fun _ => id
  | marked => exact unreopened_markRequested
  | created _ _ _ hm => exact unreopened_createPending hm

theorem unreopened_requested {p : State × Option ℕ} (h : Requested s p) : Unreopened s p.1 := by
  cases h with
  | coordinated k p _ hr =>
    have hq : Unreopened s (requestCleanup s k) := .of_eq rfl rfl rfl fun _ => id
    exact hq.trans (unreopened_reconciled hr)
  | notOwed => exact .refl s
  | marked => exact unreopened_markRequested
  | created _ _ hm => exact unreopened_createPending hm

theorem CleanupInv.unreopened_reconcileGeneration (h : CleanupInv s) (g : ℕ) :
    Unreopened s (Registry.reconcileGeneration s g) := by
  unfold Registry.reconcileGeneration
  split
  · split
    · exact unreopened_reconciled (h.reconcile ‹_›)
    · exact .refl s
  · exact .refl s

theorem CleanupInv.unreopened_release (h : CleanupInv s) (k : ℕ) :
    Unreopened s (Registry.releaseCoordination s k).1 := by
  have hl : Unreopened s (Registry.leaveCoordination s k) := .of_eq rfl rfl rfl fun _ => id
  rw [releaseCoordination_eq]
  split
  · exact hl.trans (unreopened_reconciled ((h.leaveCoordination k).reconcile ‹_›))
  · exact hl

variable (cfg now) in
theorem CleanupInv.unreopened_complete (h : CleanupInv s) {o : ℕ}
    (ho : s.activeRemove = some o) (r : CallResult) (q : ℕ) :
    Unreopened s (completeRemoveOperation cfg now s o r q).1 := by
  have hc := h.storeResult o (cfg.safeResult r)
  rcases h.completeRemove_cases cfg now ho r q with ⟨-,he⟩ | ⟨-,-,he⟩ | ⟨-,hr,hg,hw,he⟩
  all_goals rw [he]
  · have hd : Unreopened s (Registry.dropActive (Registry.storeResult s o (cfg.safeResult r))) :=
      .of_eq rfl rfl rfl fun _ => id
    exact hd.trans (hc.dropActive.unreopened_reconcileGeneration _)
  · have hd : Unreopened s (Registry.dropActive (Registry.applyResult cfg now
        (Registry.storeResult s o (cfg.safeResult r)) r q .remove)) := .of_eq rfl rfl rfl fun _ => id
    exact hd.trans ((hc.applyResult r q .remove).dropActive.unreopened_reconcileGeneration _)
  · have hd : Unreopened s (Registry.dropActive (Registry.satisfied cfg now s o r q)) :=
      ⟨rfl,Or.inr (congrArg some hg.symm),Or.inr (congrArg some hg.symm),fun _ h => by cases h⟩
    exact hd.trans ((h.satisfied hr q hg hw).unreopened_reconcileGeneration _)

variable (cfg now) in
theorem CleanupInv.unreopened_failActorStart (h : CleanupInv s) (o t : ℕ) (e : String) :
    Unreopened s (Registry.failActorStart cfg now s o t e) := by
  have hc : CleanupInv (recordResultLocked cfg now
      (Registry.abandonOperation s o t (cfg.safeResult (startFailure e))) (startFailure e)
      .local) := (h.abandonOperation o t _).of_eq rfl rfl fun _ => id
  have ha : Unreopened s (recordResultLocked cfg now
      (Registry.abandonOperation s o t (cfg.safeResult (startFailure e))) (startFailure e)
      .local) := .of_eq rfl rfl rfl (fun _ h => by cases h)
  exact ha.trans (hc.unreopened_reconcileGeneration _)

/-- A Worker that registers has no cleanup to reopen. -/
theorem Rep.acceptWorker_eq (h : Rep s) (r : CallResult) (q c : ℕ) :
    Registry.acceptWorker cfg now s c r q =
      if workerIsCurrent s c && decide (s.lastAppliedRpcSequence < q) then
        applyResult cfg now s r q .worker else s := by
  rcases acceptWorker_cases cfg now s r q c with ⟨hq,he⟩ | ⟨hw,hq,he⟩
  · simp [he,hq]
  · rw [if_pos (by simp [hw,hq])]
    refine he.resolve_right ?_
    rintro ⟨-,hs,-⟩
    have hc : s.worker = some c := by
      simp only [workerIsCurrent,isCurrentWorker,Bool.and_eq_true,decide_eq_true_eq] at hw
      exact hw.2.1
    simp [((h.cleanup.removed _ hs).2 rfl).1] at hc

/-- What one instruction does to the cleanup responsibilities. -/
inductive Responsibility (s : State) (i : Instr) (s' : State) : Prop
  | kept : Unreopened s s' → Responsibility s i s'
  | renewed (p : ℕ) : i = .activatePreparedStart p → s'.generation = s.generation + 1 →
      s'.lastRemoveRequestedGeneration = s.lastRemoveRequestedGeneration →
      s'.lastSuccessfullyRemovedGeneration = s.lastSuccessfullyRemovedGeneration →
      s'.pendingRemove = none → s'.activeRemove = s.activeRemove → Responsibility s i s'
  | reopened (k q : ℕ) (r : CallResult) : i = .commit (.register (some k) s.generation) q r →
      r.success = true → s.lastAppliedRpcSequence < q → s.registerCoordination = some k →
      Unreopened (reopenCleanup s) s' → Responsibility s i s'

section
variable (cfg) (alive : ℕ → Bool) (t fresh : ℕ) (ch : Choice)

/-- Only an activation leaves the generation. -/
theorem effect_generation {i : Instr} (hi : ∀ p, i ≠ .activatePreparedStart p) :
    (effect cfg alive t fresh ch s i).state.generation = s.generation := by
  by_cases hm : i.movesLifecycle = false
  · exact congrArg Lifecycle.generation (effect_toLifecycle cfg s t fresh alive ch hm)
  cases i with
  | activatePreparedStart p => exact absurd rfl (hi p)
  | prepareStart activate =>
    simp only [effect]
    rcases prepareStart_cases s t fresh activate ch.startError with
      he | ⟨e,he⟩ | ⟨-,he⟩ <;> rw [he]
    rfl
  | cancelPreparedStart p =>
    simp only [effect]
    rcases cancelPreparedStart_cases s p with ⟨-,he⟩ | ⟨-,he⟩ <;> rw [he]
    rfl
  | settlePrepared p =>
    simp only [effect]
    rcases settlePrepared_cases s p with he | ⟨-,he⟩ | ⟨-,-,-,he⟩ <;> rw [he]
    rfl
  | setStop c | setActivate p => rfl
  | stop remove => cases remove <;> simp [effect,stop,stopSection]
  | shutdown deregister => simp [effect,shutdown]
  | finishWorker c =>
    simp only [effect]
    rcases finishWorker_cases s t c with ⟨o,-,-,-,he⟩ | ⟨-,he⟩ <;> simp [he]
  | _ => simp [Instr.movesLifecycle] at hm

theorem effect_responsibility_register (h : Rep s) (k : Option ℕ) (g q : ℕ) (r : CallResult) :
    Responsibility s (.commit (.register k g) q r)
      (effect cfg alive t fresh ch s (.commit (.register k g) q r)).state := by
  have hrelease : ∀ k', Unreopened (acceptOneShot cfg ch.now s r q false (some g) k)
      (releaseCoordination (acceptOneShot cfg ch.now s r q false (some g) k) k').1 := fun k' =>
    (h.cleanup.acceptOneShot cfg ch.now r q false (some g) k).unreopened_release k'
  rcases acceptOneShot_cases cfg ch.now s r q false (some g) k with
    ⟨-,he⟩ | ⟨-,he⟩ | ⟨hq,-,hr,hg,⟨k',rfl,hk,-⟩,-,he⟩
  · rw [he] at hrelease
    cases k with
    | none =>
      simp only [effect,commitRpc,commitRegister,he]
      exact .kept (.refl s)
    | some k =>
      simp only [effect,commitRpc,commitRegister,he]
      exact .kept (hrelease k)
  · have ha : Unreopened s (applyResult cfg ch.now s r q .register) :=
      .of_eq rfl rfl rfl fun _ => id
    rw [he] at hrelease
    cases k with
    | none =>
      simp only [effect,commitRpc,commitRegister,he]
      exact .kept ha
    | some k =>
      simp only [effect,commitRpc,commitRegister,he]
      exact .kept (ha.trans (hrelease k))
  · obtain rfl := Option.some.inj hg
    refine .reopened k' q r rfl hr hq hk ?_
    rw [he] at hrelease
    simp only [effect,commitRpc,commitRegister,he]
    have ha : Unreopened (reopenCleanup s) (reopenCleanup (applyResult cfg ch.now s r q .register)) :=
      .of_eq rfl rfl rfl fun _ => id
    exact ha.trans (hrelease k')

theorem effect_responsibility (h : Rep s) {i : Instr} (hi : i.Owned s) :
    Responsibility s i (effect cfg alive t fresh ch s i).state := by
  have hc := h.cleanup
  cases i with
  | activatePreparedStart p =>
    simp only [effect]
    rcases activatePreparedStart_cases t h.lifecycle p with ⟨-,he⟩ | ⟨hp,-,he⟩ <;> rw [he]
    · exact .kept (.refl s)
    · refine .renewed p rfl ?_ ?_ ?_ ?_ ?_ <;> simp [publishWorker]
      exact (h.lifecycle.prepared p hp).2.1
  | stop remove =>
    have hl : Unreopened s (stopLocalLocked (dropPrepared s)) := .of_cleanup (by simp) (by simp)
    cases remove with
    | false => exact .kept hl
    | true =>
      have hc' : CleanupInv (stopLocalLocked (dropPrepared s)) :=
        hc.of_eq (by simp) (by simp) (by simp)
      exact .kept (hl.trans (unreopened_requested (hc'.requestOutcome (by simp))))
  | shutdown deregister => exact .kept (.of_eq (by simp [effect,shutdown]) (by simp [effect,shutdown])
      (by simp [effect,shutdown]) (by simp [effect,shutdown]))
  | shutdownRequest g =>
    simp only [effect,shutdownRequest]
    split
    · exact .kept (unreopened_requested (hc.requestOutcome (hi.2 (Eq.symm ‹_›))))
    · exact .kept (.refl s)
  | joinRegister =>
    refine .kept ?_
    simp only [effect,joinRegister]
    rcases hc.join_cases with ⟨k,-,-,he⟩ | ⟨k,-,-,he⟩ | ⟨-,he⟩ <;> rw [he] <;>
      exact .of_eq rfl rfl rfl fun _ => id
  | commit call q r =>
    cases call with
    | register k g => exact effect_responsibility_register cfg alive t fresh ch h k g q r
    | remove =>
      refine .kept ?_
      simp only [effect,commitRpc,commitRemove]
      rcases acceptOneShot_cases cfg ch.now s r q true none none with
        ⟨-,he⟩ | ⟨-,he⟩ | ⟨-,hno,-⟩
      · exact he.symm ▸ .refl s
      · exact he.symm ▸ .of_eq rfl rfl rfl fun _ => id
      · cases hno
    | worker c =>
      refine .kept ?_
      simp only [effect,commitRpc,commitWorker]
      rw [h.acceptWorker_eq]
      split
      · exact .of_eq rfl rfl rfl fun _ => id
      · exact .refl s
    | active o => exact .kept (hc.unreopened_complete cfg ch.now hi r q)
  | finishWorker c =>
    simp only [effect]
    rcases finishWorker_cases s t c with ⟨o,-,-,-,he⟩ | ⟨-,he⟩ <;> rw [he] <;>
      exact .kept (.of_eq (by simp) (by simp) (by simp) (by simp))
  | terminalRemove g =>
    simp only [effect,terminalRemove]
    split <;> exact .kept (.of_eq rfl rfl rfl fun _ => id)
  | schedulePendingRemove caller =>
    simp only [effect]
    rcases schedulePendingRemove_cases cfg ch.now s t fresh alive caller ch.startError with
      ⟨-,he⟩ | ⟨o,-,-,he⟩ | ⟨o,e,-,-,he⟩ <;> rw [he]
    · exact .kept (.refl s)
    · exact .kept (.of_eq (by simp) (by simp) (by simp) (by simp))
    · have ha : Unreopened s (associateActor s o fresh) :=
        .of_eq (by simp) (by simp) (by simp) (by simp)
      exact .kept (ha.trans ((hc.associateActor o fresh).unreopened_failActorStart cfg ch.now o
        fresh e))
  | runCleanupActor o =>
    simp only [effect]
    rcases runCleanupActor_cases s o with ⟨-,-,he⟩ | ⟨-,he⟩ <;> rw [he]
    · exact .kept (.of_eq rfl rfl rfl (fun _ h => by cases h))
    · exact .kept (.refl s)
  | finishCleanupActor o => exact .kept (.of_eq (by simp [effect]) (by simp [effect])
      (by simp [effect]) (by simp [effect]))
  | setOperationDone o | setCoordinationDone k => exact .kept (.of_eq rfl rfl rfl fun _ => id)
  | _ => exact .kept (.of_cleanup (effect_generation cfg alive t fresh ch (by simp))
      (effect_toCleanup cfg alive t fresh ch rfl))

end
end FlaskXxlJob.Registry
