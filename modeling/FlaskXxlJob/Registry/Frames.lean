import FlaskXxlJob.Registry.Sections

/-! What each section leaves unchanged, one group of fields at a time. -/
namespace FlaskXxlJob.Registry
open FlaskXxlJob.Client

variable (cfg : Config) (now : String) (s : State)

/-! ### Heap updates -/

section Heap
variable (n : ℕ)

@[simp] theorem updateContext_frame (f : WorkerContext → WorkerContext) :
    (s.updateContext n f).toCleanup = s.toCleanup ∧
    (s.updateContext n f).toSnapshot = s.toSnapshot ∧
    (s.updateContext n f).toLogClosing = s.toLogClosing ∧
    (s.updateContext n f).toNetwork = s.toNetwork := ⟨rfl,rfl,rfl,rfl⟩

@[simp] theorem updatePrepared_frame (f : PreparedRegistryStart → PreparedRegistryStart) :
    (s.updatePrepared n f).toCleanup = s.toCleanup ∧
    (s.updatePrepared n f).toSnapshot = s.toSnapshot ∧
    (s.updatePrepared n f).toLogClosing = s.toLogClosing ∧
    (s.updatePrepared n f).toNetwork = s.toNetwork := ⟨rfl,rfl,rfl,rfl⟩

@[simp] theorem updateOperation_frame (f : RemoveOperation → RemoveOperation) :
    (s.updateOperation n f).toLifecycle = s.toLifecycle ∧
    (s.updateOperation n f).toSnapshot = s.toSnapshot ∧
    (s.updateOperation n f).toLogClosing = s.toLogClosing ∧
    (s.updateOperation n f).toNetwork = s.toNetwork := ⟨rfl,rfl,rfl,rfl⟩

@[simp] theorem updateCoordination_frame (f : RegisterCoordination → RegisterCoordination) :
    (s.updateCoordination n f).toLifecycle = s.toLifecycle ∧
    (s.updateCoordination n f).toSnapshot = s.toSnapshot ∧
    (s.updateCoordination n f).toLogClosing = s.toLogClosing ∧
    (s.updateCoordination n f).toNetwork = s.toNetwork := ⟨rfl,rfl,rfl,rfl⟩

end Heap

/-! ### Cleanup responsibility -/

section Coordination
variable (g k : ℕ) (q : Option ℕ)

@[simp] theorem invalidate_frame :
    (invalidateSuccessfulCleanupLocked s g q).toLifecycle = s.toLifecycle ∧
    (invalidateSuccessfulCleanupLocked s g q).toSnapshot = s.toSnapshot ∧
    (invalidateSuccessfulCleanupLocked s g q).toLogClosing = s.toLogClosing ∧
    (invalidateSuccessfulCleanupLocked s g q).toNetwork = s.toNetwork ∧
    (invalidateSuccessfulCleanupLocked s g q).registerCoordination = s.registerCoordination ∧
    (invalidateSuccessfulCleanupLocked s g q).pendingRemove = s.pendingRemove ∧
    (invalidateSuccessfulCleanupLocked s g q).activeRemove = s.activeRemove ∧
    (invalidateSuccessfulCleanupLocked s g q).cleanupActors = s.cleanupActors ∧
    (invalidateSuccessfulCleanupLocked s g q).operations = s.operations ∧
    (invalidateSuccessfulCleanupLocked s g q).nextOperation = s.nextOperation ∧
    (invalidateSuccessfulCleanupLocked s g q).coordinations = s.coordinations ∧
    (invalidateSuccessfulCleanupLocked s g q).nextCoordination = s.nextCoordination := by
  unfold invalidateSuccessfulCleanupLocked
  split
  · simp
  split <;> exact ⟨rfl,rfl,rfl,rfl,rfl,rfl,rfl,rfl,rfl,rfl,rfl,rfl⟩

theorem invalidate_cases :
    invalidateSuccessfulCleanupLocked s g q = s ∨
    (s.generation = g ∧ reopensCleanup s g q = true ∧
      invalidateSuccessfulCleanupLocked s g q = reopenCleanup s) := by
  unfold invalidateSuccessfulCleanupLocked
  split
  · exact Or.inl rfl
  split
  · exact Or.inr ⟨not_not.mp ‹_›,by assumption,rfl⟩
  · exact Or.inl rfl

theorem ensurePending_cases :
    (ensurePendingRemoveLocked s g = (s,none) ∧
      ((g = 0 ∧ s.registered = false) ∨ s.lastSuccessfullyRemovedGeneration = some g ∨
        (∃ o, s.pendingRemove = some o ∧ (s.operations o).generation ≠ g) ∨
        (s.pendingRemove = none ∧ s.lastRemoveRequestedGeneration = some g))) ∨
    (∃ o, s.pendingRemove = some o ∧ (s.operations o).generation = g ∧
      s.lastSuccessfullyRemovedGeneration ≠ some g ∧
      ensurePendingRemoveLocked s g = (markRequested s g,some o)) ∨
    (s.pendingRemove = none ∧ s.lastRemoveRequestedGeneration ≠ some g ∧
      s.lastSuccessfullyRemovedGeneration ≠ some g ∧ ¬ (g = 0 ∧ s.registered = false) ∧
      ensurePendingRemoveLocked s g = (createPending s g,some s.nextOperation)) := by
  unfold ensurePendingRemoveLocked
  split
  · exact Or.inl ⟨rfl,Or.inl ‹_›⟩
  split
  · exact Or.inl ⟨rfl,Or.inr (Or.inl ‹_›)⟩
  split
  · split
    · exact Or.inr (Or.inl ⟨_,by assumption,by assumption,by assumption,rfl⟩)
    · exact Or.inl ⟨rfl,Or.inr (Or.inr (Or.inl ⟨_,by assumption,by assumption⟩))⟩
  · split
    · exact Or.inl ⟨rfl,Or.inr (Or.inr (Or.inr ⟨by assumption,by assumption⟩))⟩
    · exact Or.inr (Or.inr ⟨by assumption,by assumption,by assumption,by assumption,rfl⟩)

theorem ensurePending_of_not_owed (h : (g = 0 ∧ s.registered = false) ∨
      s.lastSuccessfullyRemovedGeneration = some g ∨
      (s.pendingRemove = none ∧ s.lastRemoveRequestedGeneration = some g)) :
    ensurePendingRemoveLocked s g = (s,none) := by
  rcases ensurePending_cases s g with ⟨he,-⟩ | ⟨o,ho,-,hs,he⟩ | ⟨-,hm,hs,h0,he⟩
  · exact he
  · rcases h with h | h | h
    · simp [ensurePendingRemoveLocked,h]
    · exact absurd h hs
    · simp [h.1] at ho
  · rcases h with h | h | h
    · exact absurd h h0
    · exact absurd h hs
    · exact absurd h.2 hm

@[simp] theorem ensurePending_frame :
    (ensurePendingRemoveLocked s g).1.toLifecycle = s.toLifecycle ∧
    (ensurePendingRemoveLocked s g).1.toSnapshot = s.toSnapshot ∧
    (ensurePendingRemoveLocked s g).1.toLogClosing = s.toLogClosing ∧
    (ensurePendingRemoveLocked s g).1.toNetwork = s.toNetwork ∧
    (ensurePendingRemoveLocked s g).1.lastSuccessfullyRemovedGeneration =
      s.lastSuccessfullyRemovedGeneration ∧
    (ensurePendingRemoveLocked s g).1.lastSuccessfullyRemovedResult =
      s.lastSuccessfullyRemovedResult ∧
    (ensurePendingRemoveLocked s g).1.registerCoordination = s.registerCoordination ∧
    (ensurePendingRemoveLocked s g).1.activeRemove = s.activeRemove ∧
    (ensurePendingRemoveLocked s g).1.cleanupActors = s.cleanupActors ∧
    (ensurePendingRemoveLocked s g).1.coordinations = s.coordinations ∧
    (ensurePendingRemoveLocked s g).1.nextCoordination = s.nextCoordination := by
  rcases ensurePending_cases s g with ⟨h,-⟩ | ⟨o,-,-,-,h⟩ | ⟨-,-,-,-,h⟩
  all_goals exact h ▸ ⟨rfl,rfl,rfl,rfl,rfl,rfl,rfl,rfl,rfl,rfl,rfl⟩

theorem reconcileRequest_cases :
    reconcileRequest s k = (s,none) ∨
      reconcileRequest s k = ensurePendingRemoveLocked s s.generation := by
  simp only [reconcileRequest]
  split <;> simp

@[simp] theorem reconcile_frame :
    (reconcileRegisterCoordinationLocked s k).1.toLifecycle = s.toLifecycle ∧
    (reconcileRegisterCoordinationLocked s k).1.toSnapshot = s.toSnapshot ∧
    (reconcileRegisterCoordinationLocked s k).1.toLogClosing = s.toLogClosing ∧
    (reconcileRegisterCoordinationLocked s k).1.toNetwork = s.toNetwork ∧
    (reconcileRegisterCoordinationLocked s k).1.lastSuccessfullyRemovedGeneration =
      s.lastSuccessfullyRemovedGeneration ∧
    (reconcileRegisterCoordinationLocked s k).1.lastSuccessfullyRemovedResult =
      s.lastSuccessfullyRemovedResult ∧
    (reconcileRegisterCoordinationLocked s k).1.activeRemove = s.activeRemove ∧
    (reconcileRegisterCoordinationLocked s k).1.cleanupActors = s.cleanupActors ∧
    (reconcileRegisterCoordinationLocked s k).1.coordinations = s.coordinations ∧
    (reconcileRegisterCoordinationLocked s k).1.nextCoordination = s.nextCoordination := by
  unfold reconcileRegisterCoordinationLocked
  split
  · simp
  split
  · exact ⟨rfl,rfl,rfl,rfl,rfl,rfl,rfl,rfl,rfl,rfl⟩
  rcases reconcileRequest_cases s k with h | h
  all_goals simp only [h]; split <;> simp [dropCoordination]

@[simp] theorem reconcileGeneration_frame :
    (reconcileGeneration s g).toLifecycle = s.toLifecycle ∧
    (reconcileGeneration s g).toSnapshot = s.toSnapshot ∧
    (reconcileGeneration s g).toLogClosing = s.toLogClosing ∧
    (reconcileGeneration s g).toNetwork = s.toNetwork ∧
    (reconcileGeneration s g).lastSuccessfullyRemovedGeneration =
      s.lastSuccessfullyRemovedGeneration ∧
    (reconcileGeneration s g).lastSuccessfullyRemovedResult =
      s.lastSuccessfullyRemovedResult ∧
    (reconcileGeneration s g).activeRemove = s.activeRemove ∧
    (reconcileGeneration s g).cleanupActors = s.cleanupActors ∧
    (reconcileGeneration s g).coordinations = s.coordinations ∧
    (reconcileGeneration s g).nextCoordination = s.nextCoordination := by
  unfold reconcileGeneration
  split
  · split <;> simp
  · simp

theorem requestPending_eq :
    requestPending s = ensurePendingRemoveLocked s s.generation := by
  unfold requestPending ensurePendingRemoveLocked
  split_ifs <;> simp_all

end Coordination

@[simp] theorem requestCleanup_frame (k : ℕ) :
    (requestCleanup s k).toLifecycle = s.toLifecycle ∧
    (requestCleanup s k).toSnapshot = s.toSnapshot ∧
    (requestCleanup s k).toLogClosing = s.toLogClosing ∧
    (requestCleanup s k).toNetwork = s.toNetwork ∧
    (requestCleanup s k).activeRemove = s.activeRemove ∧
    (requestCleanup s k).pendingRemove = s.pendingRemove ∧
    (requestCleanup s k).registerCoordination = s.registerCoordination ∧
    (requestCleanup s k).cleanupActors = s.cleanupActors ∧
    (requestCleanup s k).operations = s.operations ∧
    (requestCleanup s k).nextOperation = s.nextOperation ∧
    (requestCleanup s k).lastSuccessfullyRemovedGeneration =
      s.lastSuccessfullyRemovedGeneration ∧
    (requestCleanup s k).lastSuccessfullyRemovedResult = s.lastSuccessfullyRemovedResult ∧
    (requestCleanup s k).lastRemoveRequestedGeneration = s.lastRemoveRequestedGeneration ∧
    (requestCleanup s k).nextCoordination = s.nextCoordination :=
  ⟨rfl,rfl,rfl,rfl,rfl,rfl,rfl,rfl,rfl,rfl,rfl,rfl,rfl,rfl⟩

@[simp] theorem requestCleanup_coordination (k k' : ℕ) :
    ((requestCleanup s k).coordinations k').inflightCount = (s.coordinations k').inflightCount ∧
    ((requestCleanup s k).coordinations k').generation = (s.coordinations k').generation ∧
    ((requestCleanup s k).coordinations k').doneEvent = (s.coordinations k').doneEvent := by
  by_cases h : k' = k <;> simp [requestCleanup,State.updateCoordination,h]

@[simp] theorem joinRegister_frame :
    (joinRegisterCoordination s).1.toLifecycle = s.toLifecycle ∧
    (joinRegisterCoordination s).1.toSnapshot = s.toSnapshot ∧
    (joinRegisterCoordination s).1.toLogClosing = s.toLogClosing ∧
    (joinRegisterCoordination s).1.toNetwork = s.toNetwork ∧
    (joinRegisterCoordination s).1.lastRemoveRequestedGeneration =
      s.lastRemoveRequestedGeneration ∧
    (joinRegisterCoordination s).1.lastSuccessfullyRemovedGeneration =
      s.lastSuccessfullyRemovedGeneration ∧
    (joinRegisterCoordination s).1.lastSuccessfullyRemovedResult =
      s.lastSuccessfullyRemovedResult ∧
    (joinRegisterCoordination s).1.pendingRemove = s.pendingRemove ∧
    (joinRegisterCoordination s).1.activeRemove = s.activeRemove ∧
    (joinRegisterCoordination s).1.cleanupActors = s.cleanupActors ∧
    (joinRegisterCoordination s).1.operations = s.operations ∧
    (joinRegisterCoordination s).1.nextOperation = s.nextOperation := by
  unfold joinRegisterCoordination
  dsimp only
  split
  · split <;> split <;> exact ⟨rfl,rfl,rfl,rfl,rfl,rfl,rfl,rfl,rfl,rfl,rfl,rfl⟩
  · split <;> exact ⟨rfl,rfl,rfl,rfl,rfl,rfl,rfl,rfl,rfl,rfl,rfl,rfl⟩

theorem requestRemove_state :
    (∃ k, (requestRemoveLocked s).1 =
      (reconcileRegisterCoordinationLocked (requestCleanup s k) k).1) ∨
    (∃ k g, (requestRemoveLocked s).1 = (ensurePendingRemoveLocked
      (reconcileRegisterCoordinationLocked (requestCleanup s k) k).1 g).1) ∨
    (requestRemoveLocked s).1 = (ensurePendingRemoveLocked s s.generation).1 := by
  unfold requestRemoveLocked
  simp only [requestPending_eq]
  split
  · rename_i k _
    split
    · split
      · exact Or.inl ⟨k,by simp [*]⟩
      · split
        · exact Or.inl ⟨k,by simp [*]⟩
        · rename_i s' he _
          exact Or.inr (Or.inl ⟨k,s'.generation,by rw [he]⟩)
    · exact Or.inr (Or.inr rfl)
  · exact Or.inr (Or.inr rfl)

@[simp] theorem requestRemove_frame :
    (requestRemoveLocked s).1.toLifecycle = s.toLifecycle ∧
    (requestRemoveLocked s).1.toSnapshot = s.toSnapshot ∧
    (requestRemoveLocked s).1.toLogClosing = s.toLogClosing ∧
    (requestRemoveLocked s).1.toNetwork = s.toNetwork ∧
    (requestRemoveLocked s).1.lastSuccessfullyRemovedGeneration =
      s.lastSuccessfullyRemovedGeneration ∧
    (requestRemoveLocked s).1.lastSuccessfullyRemovedResult =
      s.lastSuccessfullyRemovedResult ∧
    (requestRemoveLocked s).1.activeRemove = s.activeRemove ∧
    (requestRemoveLocked s).1.cleanupActors = s.cleanupActors ∧
    (requestRemoveLocked s).1.nextCoordination = s.nextCoordination := by
  rcases requestRemove_state s with ⟨k,he⟩ | ⟨k,g,he⟩ | he <;> simp [he]

@[simp] theorem requestRemove_coordination (k : ℕ) :
    ((requestRemoveLocked s).1.coordinations k).inflightCount =
      (s.coordinations k).inflightCount ∧
    ((requestRemoveLocked s).1.coordinations k).generation = (s.coordinations k).generation ∧
    ((requestRemoveLocked s).1.coordinations k).doneEvent = (s.coordinations k).doneEvent := by
  rcases requestRemove_state s with ⟨k,he⟩ | ⟨k,g,he⟩ | he <;> simp [he]

/-! ### Lifecycle -/

section Lifecycle
variable (c p : ℕ)

@[simp] theorem detachWorker_frame :
    (detachWorker s c).toCleanup = s.toCleanup ∧
    (detachWorker s c).toSnapshot = s.toSnapshot ∧
    (detachWorker s c).toLogClosing = s.toLogClosing ∧
    (detachWorker s c).toNetwork = s.toNetwork ∧
    (detachWorker s c).generation = s.generation ∧
    (detachWorker s c).preparedStart = s.preparedStart ∧
    (detachWorker s c).prepareds = s.prepareds ∧
    (detachWorker s c).nextPrepared = s.nextPrepared ∧
    (detachWorker s c).worker = none := ⟨rfl,rfl,rfl,rfl,rfl,rfl,rfl,rfl,rfl⟩

@[simp] theorem stopLocalLocked_frame :
    (stopLocalLocked s).toCleanup = s.toCleanup ∧
    (stopLocalLocked s).toSnapshot = s.toSnapshot ∧
    (stopLocalLocked s).toLogClosing = s.toLogClosing ∧
    (stopLocalLocked s).toNetwork = s.toNetwork ∧
    (stopLocalLocked s).generation = s.generation ∧
    (stopLocalLocked s).preparedStart = s.preparedStart ∧
    (stopLocalLocked s).prepareds = s.prepareds ∧
    (stopLocalLocked s).nextPrepared = s.nextPrepared ∧
    (stopLocalLocked s).worker = none := by
  unfold stopLocalLocked
  split
  · exact ⟨rfl,rfl,rfl,rfl,rfl,rfl,rfl,rfl,by assumption⟩
  · exact detachWorker_frame s _

@[simp] theorem dropPrepared_frame :
    (dropPrepared s).toCleanup = s.toCleanup ∧
    (dropPrepared s).toSnapshot = s.toSnapshot ∧
    (dropPrepared s).toLogClosing = s.toLogClosing ∧
    (dropPrepared s).toNetwork = s.toNetwork ∧
    (dropPrepared s).generation = s.generation ∧
    (dropPrepared s).worker = s.worker ∧
    (dropPrepared s).stoppingWorkers = s.stoppingWorkers ∧
    (dropPrepared s).contexts = s.contexts ∧
    (dropPrepared s).prepareds = s.prepareds ∧
    (dropPrepared s).nextPrepared = s.nextPrepared ∧
    (dropPrepared s).preparedStart = none := ⟨rfl,rfl,rfl,rfl,rfl,rfl,rfl,rfl,rfl,rfl,rfl⟩

@[simp] theorem cancelPrepared_frame :
    (cancelPrepared s p).toCleanup = s.toCleanup ∧
    (cancelPrepared s p).toSnapshot = s.toSnapshot ∧
    (cancelPrepared s p).toLogClosing = s.toLogClosing ∧
    (cancelPrepared s p).toNetwork = s.toNetwork ∧
    (cancelPrepared s p).generation = s.generation ∧
    (cancelPrepared s p).worker = s.worker ∧
    (cancelPrepared s p).stoppingWorkers = s.stoppingWorkers ∧
    (cancelPrepared s p).prepareds = s.prepareds ∧
    (cancelPrepared s p).nextPrepared = s.nextPrepared ∧
    (cancelPrepared s p).preparedStart = none := ⟨rfl,rfl,rfl,rfl,rfl,rfl,rfl,rfl,rfl,rfl⟩

@[simp] theorem waitForActive_frame :
    (waitForActive s c).toCleanup = s.toCleanup ∧
    (waitForActive s c).toSnapshot = s.toSnapshot ∧
    (waitForActive s c).toLogClosing = s.toLogClosing ∧
    (waitForActive s c).toNetwork = s.toNetwork ∧
    (waitForActive s c).generation = s.generation ∧
    (waitForActive s c).worker = s.worker ∧
    (waitForActive s c).preparedStart = s.preparedStart ∧
    (waitForActive s c).stoppingWorkers = s.stoppingWorkers ∧
    (waitForActive s c).prepareds = s.prepareds ∧
    (waitForActive s c).nextPrepared = s.nextPrepared := by
  unfold waitForActive
  split <;> exact ⟨rfl,rfl,rfl,rfl,rfl,rfl,rfl,rfl,rfl,rfl⟩

@[simp] theorem commitActivation_frame :
    (commitActivation s p).1.toSnapshot = s.toSnapshot ∧
    (commitActivation s p).1.toLogClosing = s.toLogClosing ∧
    (commitActivation s p).1.toNetwork = s.toNetwork ∧
    (commitActivation s p).1.lastRemoveRequestedGeneration = s.lastRemoveRequestedGeneration ∧
    (commitActivation s p).1.lastSuccessfullyRemovedGeneration =
      s.lastSuccessfullyRemovedGeneration ∧
    (commitActivation s p).1.lastSuccessfullyRemovedResult =
      s.lastSuccessfullyRemovedResult ∧
    (commitActivation s p).1.pendingRemove = none ∧
    (commitActivation s p).1.registerCoordination = none ∧
    (commitActivation s p).1.activeRemove = s.activeRemove ∧
    (commitActivation s p).1.cleanupActors = s.cleanupActors ∧
    (commitActivation s p).1.operations = s.operations ∧
    (commitActivation s p).1.nextOperation = s.nextOperation ∧
    (commitActivation s p).1.coordinations = s.coordinations ∧
    (commitActivation s p).1.nextCoordination = s.nextCoordination ∧
    (commitActivation s p).1.nextPrepared = s.nextPrepared ∧
    (commitActivation s p).1.prepareds = s.prepareds ∧
    (commitActivation s p).1.preparedStart = none ∧
    (commitActivation s p).1.worker = some (s.prepareds p).context := by
  simp [commitActivation,publishWorker]

@[simp] theorem forgetWorker_frame :
    (forgetWorker s c).toCleanup = s.toCleanup ∧
    (forgetWorker s c).toSnapshot = s.toSnapshot ∧
    (forgetWorker s c).toLogClosing = s.toLogClosing ∧
    (forgetWorker s c).toNetwork = s.toNetwork ∧
    (forgetWorker s c).generation = s.generation ∧
    (forgetWorker s c).preparedStart = s.preparedStart ∧
    (forgetWorker s c).prepareds = s.prepareds ∧
    (forgetWorker s c).nextPrepared = s.nextPrepared ∧
    (forgetWorker s c).worker = (if s.worker = some c then none else s.worker) :=
  ⟨rfl,rfl,rfl,rfl,rfl,rfl,rfl,rfl,rfl⟩

@[simp] theorem claimPending_frame (o : ℕ) :
    (claimPending s o).toLifecycle = s.toLifecycle ∧
    (claimPending s o).toSnapshot = s.toSnapshot ∧
    (claimPending s o).toLogClosing = s.toLogClosing ∧
    (claimPending s o).toNetwork = s.toNetwork ∧
    (claimPending s o).lastRemoveRequestedGeneration = s.lastRemoveRequestedGeneration ∧
    (claimPending s o).lastSuccessfullyRemovedGeneration =
      s.lastSuccessfullyRemovedGeneration ∧
    (claimPending s o).lastSuccessfullyRemovedResult = s.lastSuccessfullyRemovedResult ∧
    (claimPending s o).registerCoordination = s.registerCoordination ∧
    (claimPending s o).pendingRemove = none ∧
    (claimPending s o).activeRemove = some o ∧
    (claimPending s o).cleanupActors = s.cleanupActors ∧
    (claimPending s o).operations = s.operations ∧
    (claimPending s o).nextOperation = s.nextOperation ∧
    (claimPending s o).coordinations = s.coordinations ∧
    (claimPending s o).nextCoordination = s.nextCoordination :=
  ⟨rfl,rfl,rfl,rfl,rfl,rfl,rfl,rfl,rfl,rfl,rfl,rfl,rfl,rfl,rfl⟩

@[simp] theorem publishActive_frame (g : ℕ) :
    (publishActive s g).toLifecycle = s.toLifecycle ∧
    (publishActive s g).toSnapshot = s.toSnapshot ∧
    (publishActive s g).toLogClosing = s.toLogClosing ∧
    (publishActive s g).toNetwork = s.toNetwork ∧
    (publishActive s g).lastRemoveRequestedGeneration = s.lastRemoveRequestedGeneration ∧
    (publishActive s g).lastSuccessfullyRemovedGeneration =
      s.lastSuccessfullyRemovedGeneration ∧
    (publishActive s g).lastSuccessfullyRemovedResult = s.lastSuccessfullyRemovedResult ∧
    (publishActive s g).registerCoordination = s.registerCoordination ∧
    (publishActive s g).pendingRemove = s.pendingRemove ∧
    (publishActive s g).activeRemove = some s.nextOperation ∧
    (publishActive s g).cleanupActors = s.cleanupActors ∧
    (publishActive s g).nextOperation = s.nextOperation + 1 ∧
    (publishActive s g).coordinations = s.coordinations ∧
    (publishActive s g).nextCoordination = s.nextCoordination :=
  ⟨rfl,rfl,rfl,rfl,rfl,rfl,rfl,rfl,rfl,rfl,rfl,rfl,rfl,rfl⟩

@[simp] theorem publishPrepared_frame (t : ℕ) :
    (publishPrepared s t).toCleanup = s.toCleanup ∧
    (publishPrepared s t).toSnapshot = s.toSnapshot ∧
    (publishPrepared s t).toLogClosing = s.toLogClosing ∧
    (publishPrepared s t).toNetwork = s.toNetwork ∧
    (publishPrepared s t).generation = s.generation ∧
    (publishPrepared s t).worker = s.worker ∧
    (publishPrepared s t).stoppingWorkers = s.stoppingWorkers ∧
    (publishPrepared s t).preparedStart = some s.nextPrepared ∧
    (publishPrepared s t).nextPrepared = s.nextPrepared + 1 :=
  ⟨rfl,rfl,rfl,rfl,rfl,rfl,rfl,rfl,rfl⟩

@[simp] theorem shutdownLocal_frame (deregister : Bool) :
    (shutdownLocal cfg s deregister).toLifecycle =
      (stopLocalLocked (dropPrepared s)).toLifecycle ∧
    (shutdownLocal cfg s deregister).toSnapshot = s.toSnapshot ∧
    (shutdownLocal cfg s deregister).toNetwork = s.toNetwork ∧
    (shutdownLocal cfg s deregister).closeLogsWhenIdle = true ∧
    (shutdownLocal cfg s deregister).logsClosed = s.logsClosed ∧
    (shutdownLocal cfg s deregister).lastRemoveRequestedGeneration =
      s.lastRemoveRequestedGeneration ∧
    (shutdownLocal cfg s deregister).lastSuccessfullyRemovedGeneration =
      s.lastSuccessfullyRemovedGeneration ∧
    (shutdownLocal cfg s deregister).lastSuccessfullyRemovedResult =
      s.lastSuccessfullyRemovedResult ∧
    (shutdownLocal cfg s deregister).pendingRemove = s.pendingRemove ∧
    (shutdownLocal cfg s deregister).registerCoordination = s.registerCoordination ∧
    (shutdownLocal cfg s deregister).activeRemove = s.activeRemove ∧
    (shutdownLocal cfg s deregister).cleanupActors = s.cleanupActors ∧
    (shutdownLocal cfg s deregister).operations = s.operations ∧
    (shutdownLocal cfg s deregister).nextOperation = s.nextOperation ∧
    (shutdownLocal cfg s deregister).nextCoordination = s.nextCoordination := by
  unfold shutdownLocal
  dsimp only
  split
  · split <;> simp
  · simp

@[simp] theorem shutdownLocal_coordination (deregister : Bool) (k : ℕ) :
    ((shutdownLocal cfg s deregister).coordinations k).inflightCount =
      (s.coordinations k).inflightCount ∧
    ((shutdownLocal cfg s deregister).coordinations k).generation =
      (s.coordinations k).generation ∧
    ((shutdownLocal cfg s deregister).coordinations k).doneEvent =
      (s.coordinations k).doneEvent := by
  unfold shutdownLocal
  dsimp only
  split
  · split <;> simp
  · simp

end Lifecycle

/-! ### Completions -/

section Completion
variable (r : CallResult) (q : ℕ)

@[simp] theorem recordResult_frame (operation : Operation) :
    (recordResultLocked cfg now s r operation).toLifecycle = s.toLifecycle ∧
    (recordResultLocked cfg now s r operation).toCleanup = s.toCleanup ∧
    (recordResultLocked cfg now s r operation).toLogClosing = s.toLogClosing ∧
    (recordResultLocked cfg now s r operation).toNetwork = s.toNetwork := ⟨rfl,rfl,rfl,rfl⟩

@[simp] theorem applyResult_frame (operation : Operation) :
    (applyResult cfg now s r q operation).toLifecycle = s.toLifecycle ∧
    (applyResult cfg now s r q operation).toCleanup = s.toCleanup ∧
    (applyResult cfg now s r q operation).toLogClosing = s.toLogClosing ∧
    (applyResult cfg now s r q operation).toNetwork = s.toNetwork := ⟨rfl,rfl,rfl,rfl⟩

theorem acceptOneShot_cases (remove : Bool) (g k : Option ℕ) :
    (s.lastAppliedRpcSequence ≥ q ∧ acceptOneShot cfg now s r q remove g k = s) ∨
    (s.lastAppliedRpcSequence < q ∧ acceptOneShot cfg now s r q remove g k =
      applyResult cfg now s r q (if remove then .remove else .register)) ∨
    (s.lastAppliedRpcSequence < q ∧ remove = false ∧ r.success = true ∧ g = some s.generation ∧
      (∃ k', k = some k' ∧ s.registerCoordination = some k' ∧
        (s.coordinations k').generation = s.generation) ∧
      reopensCleanup (applyResult cfg now s r q .register) s.generation k = true ∧
      acceptOneShot cfg now s r q remove g k =
        reopenCleanup (applyResult cfg now s r q .register)) := by
  rcases Nat.lt_or_ge s.lastAppliedRpcSequence q with hq | hq
  swap
  · exact Or.inl ⟨hq,by simp [acceptOneShot,hq]⟩
  right
  simp only [acceptOneShot,hq,if_true,true_and]
  cases g with
  | none => exact Or.inl rfl
  | some g =>
    cases k with
    | none => exact Or.inl rfl
    | some k =>
      cases remove with
      | true => exact Or.inl rfl
      | false =>
        simp only [Bool.not_false,Bool.true_and,Bool.false_eq_true,if_false,true_and]
        split
        · rename_i h
          simp only [Bool.and_eq_true,decide_eq_true_eq] at h
          obtain ⟨⟨⟨hsucc,hg⟩,hgk⟩,hk⟩ := h
          subst hg
          rcases invalidate_cases (applyResult cfg now s r q .register) s.generation (some k) with
            he | ⟨-,hre,he⟩
          · exact Or.inl he
          · exact Or.inr ⟨hsucc,rfl,⟨k,rfl,hk,hgk⟩,hre,he⟩
        · exact Or.inl rfl

@[simp] theorem acceptOneShot_frame (remove : Bool) (g k : Option ℕ) :
    (acceptOneShot cfg now s r q remove g k).toLifecycle = s.toLifecycle ∧
    (acceptOneShot cfg now s r q remove g k).toLogClosing = s.toLogClosing ∧
    (acceptOneShot cfg now s r q remove g k).toNetwork = s.toNetwork ∧
    (acceptOneShot cfg now s r q remove g k).registerCoordination = s.registerCoordination ∧
    (acceptOneShot cfg now s r q remove g k).pendingRemove = s.pendingRemove ∧
    (acceptOneShot cfg now s r q remove g k).activeRemove = s.activeRemove ∧
    (acceptOneShot cfg now s r q remove g k).cleanupActors = s.cleanupActors ∧
    (acceptOneShot cfg now s r q remove g k).operations = s.operations ∧
    (acceptOneShot cfg now s r q remove g k).nextOperation = s.nextOperation ∧
    (acceptOneShot cfg now s r q remove g k).coordinations = s.coordinations ∧
    (acceptOneShot cfg now s r q remove g k).nextCoordination = s.nextCoordination := by
  rcases acceptOneShot_cases cfg now s r q remove g k with
    ⟨-,he⟩ | ⟨-,he⟩ | ⟨-,-,-,-,-,-,he⟩
  all_goals rw [he]; exact ⟨rfl,rfl,rfl,rfl,rfl,rfl,rfl,rfl,rfl,rfl,rfl⟩

theorem acceptWorker_cases (c : ℕ) :
    ((workerIsCurrent s c && decide (s.lastAppliedRpcSequence < q)) = false ∧
      acceptWorker cfg now s c r q = s) ∨
    (workerIsCurrent s c = true ∧ s.lastAppliedRpcSequence < q ∧
      (acceptWorker cfg now s c r q = applyResult cfg now s r q .worker ∨
        (r.success = true ∧ s.lastSuccessfullyRemovedGeneration = some s.generation ∧
          acceptWorker cfg now s c r q =
            reopenCleanup (applyResult cfg now s r q .worker)))) := by
  cases hacc : workerIsCurrent s c && decide (s.lastAppliedRpcSequence < q) with
  | false => exact Or.inl ⟨rfl,by simp [acceptWorker,hacc]⟩
  | true =>
    obtain ⟨hw,hq⟩ : workerIsCurrent s c = true ∧ s.lastAppliedRpcSequence < q := by
      simpa using hacc
    refine Or.inr ⟨hw,hq,?_⟩
    simp only [acceptWorker,hacc,if_true]
    split
    · rename_i hsucc
      rcases invalidate_cases (recordResultLocked cfg now s r .worker)
        (s.contexts c).generation none with he | ⟨hg,hre,he⟩
      · exact Or.inl (congrArg (applySequence · q) he)
      · refine Or.inr ⟨hsucc,?_,congrArg (applySequence · q) he⟩
        have hg : s.generation = (s.contexts c).generation := hg
        rw [hg]
        simpa [reopensCleanup] using hre
    · exact Or.inl rfl

@[simp] theorem acceptWorker_frame (c : ℕ) :
    (acceptWorker cfg now s c r q).toLifecycle = s.toLifecycle ∧
    (acceptWorker cfg now s c r q).toLogClosing = s.toLogClosing ∧
    (acceptWorker cfg now s c r q).toNetwork = s.toNetwork ∧
    (acceptWorker cfg now s c r q).registerCoordination = s.registerCoordination ∧
    (acceptWorker cfg now s c r q).pendingRemove = s.pendingRemove ∧
    (acceptWorker cfg now s c r q).activeRemove = s.activeRemove ∧
    (acceptWorker cfg now s c r q).cleanupActors = s.cleanupActors ∧
    (acceptWorker cfg now s c r q).operations = s.operations ∧
    (acceptWorker cfg now s c r q).nextOperation = s.nextOperation ∧
    (acceptWorker cfg now s c r q).coordinations = s.coordinations ∧
    (acceptWorker cfg now s c r q).nextCoordination = s.nextCoordination := by
  rcases acceptWorker_cases cfg now s r q c with ⟨-,he⟩ | ⟨-,-,he | ⟨-,-,he⟩⟩
  all_goals rw [he]; exact ⟨rfl,rfl,rfl,rfl,rfl,rfl,rfl,rfl,rfl,rfl,rfl⟩

/-- Giving a token back reconciles the coordination if it is still the current one. -/
theorem releaseCoordination_eq (k : ℕ) : releaseCoordination s k =
    ((if s.registerCoordination = some k then
        reconcileRegisterCoordinationLocked (leaveCoordination s k) k
      else (leaveCoordination s k,none)).1,
      decide ((s.coordinations k).inflightCount - 1 = 0),
      (if s.registerCoordination = some k then
        reconcileRegisterCoordinationLocked (leaveCoordination s k) k
      else (leaveCoordination s k,none)).2) := by
  have hrc : (leaveCoordination s k).registerCoordination = s.registerCoordination := rfl
  have hin : ((leaveCoordination s k).coordinations k).inflightCount =
      (s.coordinations k).inflightCount - 1 := by
    simp [leaveCoordination,State.updateCoordination]
  simp only [releaseCoordination,hrc]
  split <;> simp [hin]

@[simp] theorem releaseCoordination_frame (k : ℕ) :
    (releaseCoordination s k).1.toLifecycle = s.toLifecycle ∧
    (releaseCoordination s k).1.toSnapshot = s.toSnapshot ∧
    (releaseCoordination s k).1.toLogClosing = s.toLogClosing ∧
    (releaseCoordination s k).1.toNetwork = s.toNetwork ∧
    (releaseCoordination s k).1.lastSuccessfullyRemovedGeneration =
      s.lastSuccessfullyRemovedGeneration ∧
    (releaseCoordination s k).1.lastSuccessfullyRemovedResult =
      s.lastSuccessfullyRemovedResult ∧
    (releaseCoordination s k).1.activeRemove = s.activeRemove ∧
    (releaseCoordination s k).1.cleanupActors = s.cleanupActors ∧
    (releaseCoordination s k).1.coordinations = (leaveCoordination s k).coordinations ∧
    (releaseCoordination s k).1.nextCoordination = s.nextCoordination := by
  rw [releaseCoordination_eq]
  split <;> simp [leaveCoordination,State.updateCoordination]

@[simp] theorem storeResult_frame (o : ℕ) :
    (storeResult s o r).toLifecycle = s.toLifecycle ∧
    (storeResult s o r).toSnapshot = s.toSnapshot ∧
    (storeResult s o r).toLogClosing = s.toLogClosing ∧
    (storeResult s o r).toNetwork = s.toNetwork ∧
    (storeResult s o r).lastRemoveRequestedGeneration = s.lastRemoveRequestedGeneration ∧
    (storeResult s o r).lastSuccessfullyRemovedGeneration =
      s.lastSuccessfullyRemovedGeneration ∧
    (storeResult s o r).lastSuccessfullyRemovedResult = s.lastSuccessfullyRemovedResult ∧
    (storeResult s o r).registerCoordination = s.registerCoordination ∧
    (storeResult s o r).pendingRemove = s.pendingRemove ∧
    (storeResult s o r).activeRemove = s.activeRemove ∧
    (storeResult s o r).cleanupActors = s.cleanupActors ∧
    (storeResult s o r).nextOperation = s.nextOperation ∧
    (storeResult s o r).coordinations = s.coordinations ∧
    (storeResult s o r).nextCoordination = s.nextCoordination :=
  ⟨rfl,rfl,rfl,rfl,rfl,rfl,rfl,rfl,rfl,rfl,rfl,rfl,rfl,rfl⟩

@[simp] theorem satisfyCleanup_frame (o : ℕ) :
    (satisfyCleanup cfg s o r).1.toLifecycle = s.toLifecycle ∧
    (satisfyCleanup cfg s o r).1.toSnapshot = s.toSnapshot ∧
    (satisfyCleanup cfg s o r).1.toLogClosing = s.toLogClosing ∧
    (satisfyCleanup cfg s o r).1.toNetwork = s.toNetwork ∧
    (satisfyCleanup cfg s o r).1.registerCoordination = s.registerCoordination ∧
    (satisfyCleanup cfg s o r).1.activeRemove = s.activeRemove ∧
    (satisfyCleanup cfg s o r).1.cleanupActors = s.cleanupActors ∧
    (satisfyCleanup cfg s o r).1.operations = s.operations ∧
    (satisfyCleanup cfg s o r).1.nextOperation = s.nextOperation ∧
    (satisfyCleanup cfg s o r).1.coordinations = s.coordinations ∧
    (satisfyCleanup cfg s o r).1.nextCoordination = s.nextCoordination := by
  unfold satisfyCleanup
  dsimp only
  split
  · split <;> exact ⟨rfl,rfl,rfl,rfl,rfl,rfl,rfl,rfl,rfl,rfl,rfl⟩
  · exact ⟨rfl,rfl,rfl,rfl,rfl,rfl,rfl,rfl,rfl,rfl,rfl⟩

@[simp] theorem acceptRemove_frame (o : ℕ) :
    (acceptRemove cfg now s o r q).1.toLifecycle = s.toLifecycle ∧
    (acceptRemove cfg now s o r q).1.toLogClosing = s.toLogClosing ∧
    (acceptRemove cfg now s o r q).1.toNetwork = s.toNetwork ∧
    (acceptRemove cfg now s o r q).1.registerCoordination = s.registerCoordination ∧
    (acceptRemove cfg now s o r q).1.activeRemove = s.activeRemove ∧
    (acceptRemove cfg now s o r q).1.cleanupActors = s.cleanupActors ∧
    (acceptRemove cfg now s o r q).1.operations = s.operations ∧
    (acceptRemove cfg now s o r q).1.nextOperation = s.nextOperation ∧
    (acceptRemove cfg now s o r q).1.coordinations = s.coordinations ∧
    (acceptRemove cfg now s o r q).1.nextCoordination = s.nextCoordination := by
  unfold acceptRemove
  dsimp only
  split
  · split <;> simp
  · simp

@[simp] theorem completeRemove_frame (o : ℕ) :
    (completeRemoveOperation cfg now s o r q).1.toLifecycle = s.toLifecycle ∧
    (completeRemoveOperation cfg now s o r q).1.toLogClosing = s.toLogClosing ∧
    (completeRemoveOperation cfg now s o r q).1.toNetwork = s.toNetwork ∧
    (completeRemoveOperation cfg now s o r q).1.activeRemove =
      (if s.activeRemove = some o then none else s.activeRemove) ∧
    (completeRemoveOperation cfg now s o r q).1.cleanupActors = s.cleanupActors ∧
    (completeRemoveOperation cfg now s o r q).1.coordinations = s.coordinations ∧
    (completeRemoveOperation cfg now s o r q).1.nextCoordination = s.nextCoordination := by
  by_cases h : s.activeRemove = some o <;> simp [completeRemoveOperation,dropActive,h]

end Completion
/-! ### Actors -/

section Actors
variable (o t : ℕ)

@[simp] theorem associateActor_frame :
    (associateActor s o t).toLifecycle = s.toLifecycle ∧
    (associateActor s o t).toSnapshot = s.toSnapshot ∧
    (associateActor s o t).toLogClosing = s.toLogClosing ∧
    (associateActor s o t).toNetwork = s.toNetwork ∧
    (associateActor s o t).lastRemoveRequestedGeneration = s.lastRemoveRequestedGeneration ∧
    (associateActor s o t).lastSuccessfullyRemovedGeneration =
      s.lastSuccessfullyRemovedGeneration ∧
    (associateActor s o t).lastSuccessfullyRemovedResult = s.lastSuccessfullyRemovedResult ∧
    (associateActor s o t).registerCoordination = s.registerCoordination ∧
    (associateActor s o t).pendingRemove = s.pendingRemove ∧
    (associateActor s o t).activeRemove = s.activeRemove ∧
    (associateActor s o t).nextOperation = s.nextOperation ∧
    (associateActor s o t).coordinations = s.coordinations ∧
    (associateActor s o t).nextCoordination = s.nextCoordination := by
  unfold associateActor
  cases (s.operations o).thread <;> exact ⟨rfl,rfl,rfl,rfl,rfl,rfl,rfl,rfl,rfl,rfl,rfl,rfl,rfl⟩

theorem associateActor_actors (h : ∀ d, (s.operations o).thread = some d → d ∉ s.cleanupActors) :
    (associateActor s o t).cleanupActors = insert t s.cleanupActors := by
  unfold associateActor
  cases hd : (s.operations o).thread with
  | none => rfl
  | some d => exact congrArg (insert t) (Finset.erase_eq_of_notMem (h d hd))

@[simp] theorem associateActor_operation (o' : ℕ) :
    ((associateActor s o t).operations o').generation = (s.operations o').generation ∧
    ((associateActor s o t).operations o').doneEvent = (s.operations o').doneEvent ∧
    ((associateActor s o t).operations o').result = (s.operations o').result := by
  unfold associateActor State.updateOperation
  by_cases h : o' = o <;> cases (s.operations o).thread <;> simp [h]

@[simp] theorem releaseActor_frame :
    (releaseActor s o t).toLifecycle = s.toLifecycle ∧
    (releaseActor s o t).toSnapshot = s.toSnapshot ∧
    (releaseActor s o t).toLogClosing = s.toLogClosing ∧
    (releaseActor s o t).toNetwork = s.toNetwork ∧
    (releaseActor s o t).lastRemoveRequestedGeneration = s.lastRemoveRequestedGeneration ∧
    (releaseActor s o t).lastSuccessfullyRemovedGeneration =
      s.lastSuccessfullyRemovedGeneration ∧
    (releaseActor s o t).lastSuccessfullyRemovedResult = s.lastSuccessfullyRemovedResult ∧
    (releaseActor s o t).registerCoordination = s.registerCoordination ∧
    (releaseActor s o t).pendingRemove = s.pendingRemove ∧
    (releaseActor s o t).activeRemove = s.activeRemove ∧
    (releaseActor s o t).cleanupActors = s.cleanupActors.erase t ∧
    (releaseActor s o t).nextOperation = s.nextOperation ∧
    (releaseActor s o t).coordinations = s.coordinations ∧
    (releaseActor s o t).nextCoordination = s.nextCoordination :=
  ⟨rfl,rfl,rfl,rfl,rfl,rfl,rfl,rfl,rfl,rfl,rfl,rfl,rfl,rfl⟩

@[simp] theorem failActorStart_frame (e : String) :
    (failActorStart cfg now s o t e).toLifecycle = s.toLifecycle ∧
    (failActorStart cfg now s o t e).toLogClosing = s.toLogClosing ∧
    (failActorStart cfg now s o t e).toNetwork = s.toNetwork ∧
    (failActorStart cfg now s o t e).lastSuccessfullyRemovedGeneration =
      s.lastSuccessfullyRemovedGeneration ∧
    (failActorStart cfg now s o t e).lastSuccessfullyRemovedResult =
      s.lastSuccessfullyRemovedResult ∧
    (failActorStart cfg now s o t e).activeRemove =
      (if s.activeRemove = some o then none else s.activeRemove) ∧
    (failActorStart cfg now s o t e).cleanupActors = s.cleanupActors.erase t ∧
    (failActorStart cfg now s o t e).coordinations = s.coordinations ∧
    (failActorStart cfg now s o t e).nextCoordination = s.nextCoordination := by
  simp [failActorStart,abandonOperation,State.updateOperation]

@[simp] theorem releaseActor_operation (o' : ℕ) :
    ((releaseActor s o t).operations o').generation = (s.operations o').generation ∧
    ((releaseActor s o t).operations o').doneEvent = (s.operations o').doneEvent ∧
    ((releaseActor s o t).operations o').result = (s.operations o').result := by
  unfold releaseActor State.updateOperation
  by_cases h : o' = o
  · subst h
    simp only [Function.update_self]
    split <;> simp
  · simp [h]

end Actors
/-! ### Terminal callers -/

/-- What a terminal caller of generation `g` has seen. -/
def TerminalView.Saw (s : State) (g : ℕ) : TerminalView → Prop
  | .oneShot => s.generation = g → s.worker ≠ none
  | .registers k => s.registerCoordination = some k ∧ 0 < (s.coordinations k).inflightCount
  | .cached r => s.generation = g ∧ s.lastSuccessfullyRemovedGeneration = some g ∧
      s.lastSuccessfullyRemovedResult = some r
  | .sameActive o => s.generation = g ∧ s.activeRemove = some o ∧
      (s.operations o).generation = g
  | .samePending o => s.generation = g ∧ s.activeRemove = none ∧ s.pendingRemove = some o ∧
      (s.operations o).generation = g
  | .otherOperation o => (s.activeRemove = some o ∨ s.pendingRemove = some o) ∧
      (s.operations o).generation ≠ g
  | .own => s.generation = g ∧ s.worker = none ∧ s.activeRemove = none ∧
      s.pendingRemove = none ∧
      (s.lastSuccessfullyRemovedGeneration = some g → s.lastSuccessfullyRemovedResult = none) ∧
      ∀ k, s.registerCoordination = some k → (s.coordinations k).generation = g →
        (s.coordinations k).inflightCount = 0

theorem terminalView_saw (g : ℕ) : (terminalView s g).Saw s g := by
  unfold terminalView
  split
  · rename_i h
    exact fun hg => h.resolve_left (by simpa using hg)
  rename_i hcur
  obtain ⟨hg,hw⟩ : s.generation = g ∧ s.worker = none := by
    simpa [not_or] using hcur
  split
  · rename_i k hk
    obtain ⟨hrc,hk⟩ := Option.filter_eq_some_iff.mp hk
    simp only [Bool.and_eq_true,decide_eq_true_eq] at hk
    exact ⟨hrc,hk.2⟩
  rename_i hnone
  have hidle : ∀ k, s.registerCoordination = some k → (s.coordinations k).generation = g →
      (s.coordinations k).inflightCount = 0 := by
    intro k hk hkg
    rw [hk] at hnone
    simpa [Option.filter,hkg] using hnone
  have hops : (s.lastSuccessfullyRemovedGeneration = some g →
      s.lastSuccessfullyRemovedResult = none) →
      (terminalView.operationView s g).Saw s g := by
    intro hs
    unfold terminalView.operationView
    split
    · split
      · exact ⟨hg,by assumption,by assumption⟩
      · exact ⟨Or.inl (by assumption),by assumption⟩
    · split
      · exact ⟨hg,by assumption,by assumption,by assumption⟩
      · exact ⟨Or.inr (by assumption),by assumption⟩
    · exact ⟨hg,hw,by assumption,by assumption,hs,hidle⟩
  split
  · rename_i g' r hs hr
    split
    · rename_i heq
      subst heq
      exact ⟨hg,hs,hr⟩
    · rename_i hne
      exact hops fun hs' => absurd (Option.some.inj (hs.symm.trans hs')) hne
  · rename_i hnot
    refine hops fun hs => ?_
    rw [Option.eq_none_iff_forall_ne_some]
    exact fun r hr => hnot g r hs hr

end FlaskXxlJob.Registry
