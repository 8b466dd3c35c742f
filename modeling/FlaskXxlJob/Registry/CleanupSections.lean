import FlaskXxlJob.Registry.Representation

/-!
The cleanup clauses through every section, and the two case analyses all later proofs use: the
outcomes of reconciling a coordination and of completing an Active Remove.
-/
namespace FlaskXxlJob.Registry
open FlaskXxlJob.Client

variable {cfg : Config} {now : String} {s s' : State}

/-! ### Reconciliation -/

/-- The outcomes of reconciling the current coordination `k`. -/
inductive Reconciled (s : State) (k : ℕ) : State × Option ℕ → Prop
  | waiting : 0 < (s.coordinations k).inflightCount → Reconciled s k (s,none)
  | covered (o : ℕ) : (s.coordinations k).inflightCount = 0 →
      (s.coordinations k).cleanupRequested = true →
      s.lastRemoveRequestedGeneration = some s.generation → s.pendingRemove = none →
      s.activeRemove = some o → (s.operations o).generation = s.generation →
      Reconciled s k (s,none)
  | dropped : (s.coordinations k).inflightCount = 0 →
      ((s.coordinations k).cleanupRequested = false ∨
        s.lastSuccessfullyRemovedGeneration = some s.generation ∨
        (s.generation = 0 ∧ s.registered = false) ∨
        (s.lastRemoveRequestedGeneration = some s.generation ∧ s.pendingRemove = none)) →
      Reconciled s k (dropCoordination s,none)
  | marked (o : ℕ) : (s.coordinations k).inflightCount = 0 →
      (s.coordinations k).cleanupRequested = true → s.pendingRemove = some o →
      Reconciled s k (markRequested s s.generation,some o)
  | created : (s.coordinations k).inflightCount = 0 →
      (s.coordinations k).cleanupRequested = true → s.pendingRemove = none →
      s.lastRemoveRequestedGeneration ≠ some s.generation →
      s.lastSuccessfullyRemovedGeneration ≠ some s.generation →
      Reconciled s k (createPending s s.generation,some s.nextOperation)

theorem hasRemove_iff {g : ℕ} : hasRemoveForGenerationLocked s g = true ↔
    ∃ o, (s.activeRemove = some o ∨ s.pendingRemove = some o) ∧
      (s.operations o).generation = g := by
  simp only [hasRemoveForGenerationLocked,Bool.or_eq_true,Option.any_eq_true,decide_eq_true_eq]
  constructor
  · rintro (⟨o,ho,hg⟩ | ⟨o,ho,hg⟩)
    · exact ⟨o,Or.inl ho,hg⟩
    · exact ⟨o,Or.inr ho,hg⟩
  · rintro ⟨o,ho | ho,hg⟩
    · exact Or.inl ⟨o,ho,hg⟩
    · exact Or.inr ⟨o,ho,hg⟩

section Reconcile
variable {k : ℕ}

theorem reconcileRequest_of_owed (hin : (s.coordinations k).inflightCount = 0)
    (hreq : (s.coordinations k).cleanupRequested = true)
    (hown : 0 < s.generation ∨ s.registered = true)
    (hs : s.lastSuccessfullyRemovedGeneration ≠ some s.generation) :
    reconcileRequest s k = ensurePendingRemoveLocked s s.generation := by
  unfold reconcileRequest
  rw [if_pos]
  simpa [hin,hreq,hs] using hown

theorem reconcileRequest_of_not_owed (h : (s.coordinations k).inflightCount = 0 →
    (s.coordinations k).cleanupRequested = true → (0 < s.generation ∨ s.registered = true) →
    s.lastSuccessfullyRemovedGeneration = some s.generation) :
    reconcileRequest s k = (s,none) := by
  unfold reconcileRequest
  rw [if_neg]
  simp only [Bool.and_eq_true,Bool.or_eq_true,decide_eq_true_eq]
  rintro ⟨⟨⟨hreq,hin⟩,hown⟩,hs⟩
  exact hs (h hin hreq hown)

theorem coordinationFinished_of_idle (hin : (s.coordinations k).inflightCount = 0)
    (h : (s.coordinations k).cleanupRequested = false ∨
      s.lastSuccessfullyRemovedGeneration = some s.generation ∨
      (s.generation = 0 ∧ s.registered = false)) : coordinationFinished s k = true := by
  unfold coordinationFinished
  rcases h with h | h | h <;> simp [hin,h]

theorem coordinationFinished_of_busy (hin : 0 < (s.coordinations k).inflightCount) :
    coordinationFinished s k = false := by
  simp [coordinationFinished,hin.ne']

/-- While the requested cleanup is owed, only the end of its attempt finishes it. -/
theorem coordinationFinished_of_owed (hin : (s.coordinations k).inflightCount = 0)
    (hreq : (s.coordinations k).cleanupRequested = true)
    (hown : 0 < s.generation ∨ s.registered = true)
    (hs : s.lastSuccessfullyRemovedGeneration ≠ some s.generation)
    (hm : s.lastRemoveRequestedGeneration = some s.generation) :
    coordinationFinished s k = !hasRemoveForGenerationLocked s s.generation := by
  have hno : s.generation = 0 → s.registered = true := fun h0 =>
    hown.resolve_left (by omega)
  cases hr : hasRemoveForGenerationLocked s s.generation
  · simp [coordinationFinished,hin,hreq,hm,hr]
  · simpa [coordinationFinished,hin,hreq,hs,hr] using hno

end Reconcile

namespace CleanupInv

theorem reconcile (h : CleanupInv s) {k : ℕ} (hk : s.registerCoordination = some k) :
    Reconciled s k (reconcileRegisterCoordinationLocked s k) := by
  obtain ⟨-,hg,-⟩ := h.coordination k hk
  simp only [reconcileRegisterCoordinationLocked,hk,hg,ne_eq,not_true_eq_false,if_false]
  rcases Nat.eq_zero_or_pos (s.coordinations k).inflightCount with hin | hin
  swap
  · rw [reconcileRequest_of_not_owed (by omega),coordinationFinished_of_busy hin]
    exact .waiting hin
  by_cases howed : (s.coordinations k).cleanupRequested = true ∧
      (0 < s.generation ∨ s.registered = true) ∧
      s.lastSuccessfullyRemovedGeneration ≠ some s.generation
  swap
  · have hwhy : (s.coordinations k).cleanupRequested = false ∨
        s.lastSuccessfullyRemovedGeneration = some s.generation ∨
        (s.generation = 0 ∧ s.registered = false) := by
      by_contra! hn
      obtain ⟨hreq,hs,hr⟩ := hn
      refine howed ⟨by simpa using hreq,?_,hs⟩
      rcases Nat.eq_zero_or_pos s.generation with h0 | h0
      · exact Or.inr (by simpa using hr h0)
      · exact Or.inl h0
    rw [reconcileRequest_of_not_owed fun _ hreq hown => by_contra fun hs =>
      howed ⟨hreq,hown,hs⟩,coordinationFinished_of_idle hin hwhy]
    exact .dropped hin (by tauto)
  obtain ⟨hreq,hown,hs⟩ := howed
  rw [reconcileRequest_of_owed hin hreq hown hs]
  rcases ensurePending_cases s s.generation with
    ⟨he,hwhy⟩ | ⟨o,ho,hog,-,he⟩ | ⟨hp,hm,-,-,he⟩
  · -- the responsibility has already been requested
    obtain ⟨hp,hm⟩ : s.pendingRemove = none ∧
        s.lastRemoveRequestedGeneration = some s.generation := by
      rcases hwhy with ⟨h0,hr⟩ | hs' | ⟨o,ho,hog⟩ | hpm
      · simp [h0,hr] at hown
      · exact absurd hs' hs
      · exact absurd (h.pending o ho).2.2.1 hog
      · exact hpm
    rw [he,coordinationFinished_of_owed hin hreq hown hs hm]
    cases hrem : hasRemoveForGenerationLocked s s.generation with
    | true =>
      obtain ⟨o,ho | ho,hog⟩ := hasRemove_iff.mp hrem
      · exact .covered o hin hreq hm hp ho hog
      · simp [hp] at ho
    | false => exact .dropped hin (Or.inr (Or.inr (Or.inr ⟨hm,hp⟩)))
  · have hrem : hasRemoveForGenerationLocked (markRequested s s.generation) s.generation = true :=
      hasRemove_iff.mpr ⟨o,Or.inr ho,hog⟩
    have hf := coordinationFinished_of_owed (s := markRequested s s.generation) hin hreq hown hs rfl
    rw [he]
    simp only [hf]
    rw [show (markRequested s s.generation).generation = s.generation from rfl,hrem]
    exact .marked o hin hreq ho
  · have hrem : hasRemoveForGenerationLocked (createPending s s.generation) s.generation = true :=
      hasRemove_iff.mpr ⟨s.nextOperation,Or.inr rfl,by simp [createPending]⟩
    have hf := coordinationFinished_of_owed (s := createPending s s.generation) hin hreq hown hs rfl
    rw [he]
    simp only [hf]
    rw [show (createPending s s.generation).generation = s.generation from rfl,hrem]
    exact .created hin hreq hp hm hs

theorem of_eq (h : CleanupInv s) (hc : s'.toCleanup = s.toCleanup)
    (hg : s'.generation = s.generation) (hw : ∀ c, s'.worker = some c → s.worker = some c) :
    CleanupInv s' := by
  have hn : s.worker = none → s'.worker = none := by
    intro hn
    rw [Option.eq_none_iff_forall_ne_some] at hn ⊢
    exact fun c hc => hn c (hw c hc)
  obtain ⟨h₁,h₂,h₃,h₄,h₅⟩ := h
  constructor <;> rw [hc,hg] <;> grind

theorem markRequested (h : CleanupInv s) : CleanupInv (markRequested s s.generation) := by
  obtain ⟨h₁,h₂,h₃,h₄,h₅⟩ := h
  unfold Registry.markRequested
  constructor <;> grind

theorem createPending (h : CleanupInv s) (hw : s.worker = none)
    (hs : s.lastSuccessfullyRemovedGeneration ≠ some s.generation) :
    CleanupInv (createPending s s.generation) := by
  obtain ⟨h₁,h₂,h₃,h₄,h₅⟩ := h
  unfold Registry.createPending
  constructor <;> grind

theorem dropCoordination (h : CleanupInv s) : CleanupInv (dropCoordination s) :=
  { h with coordination := fun _ h => by cases h }

theorem updateCoordination (h : CleanupInv s) (k : ℕ)
    {f : RegisterCoordination → RegisterCoordination}
    (hg : ∀ c, (f c).generation = c.generation)
    (hr : s.worker = none ∨ ∀ c, (f c).cleanupRequested = c.cleanupRequested) :
    CleanupInv (s.updateCoordination k f) := by
  obtain ⟨h₁,h₂,h₃,h₄,h₅⟩ := h
  unfold State.updateCoordination
  constructor <;> grind

theorem openCoordination (h : CleanupInv s) : CleanupInv (openCoordination s) := by
  obtain ⟨h₁,h₂,h₃,h₄,h₅⟩ := h
  unfold Registry.openCoordination
  constructor <;> grind

theorem reopenCleanup (h : CleanupInv s) : CleanupInv (reopenCleanup s) := by
  obtain ⟨h₁,h₂,h₃,h₄,h₅⟩ := h
  unfold Registry.reopenCleanup
  constructor <;> grind

theorem updateOperation (h : CleanupInv s) (o : ℕ) {f : RemoveOperation → RemoveOperation}
    (hg : ∀ op, (f op).generation = op.generation)
    (hd : (s.pendingRemove ≠ some o ∧ s.activeRemove ≠ some o) ∨
      ∀ op, (f op).doneEvent = op.doneEvent) :
    CleanupInv (s.updateOperation o f) := by
  obtain ⟨h₁,h₂,h₃,h₄,h₅⟩ := h
  unfold State.updateOperation
  constructor <;> grind

theorem dropPending (h : CleanupInv s) : CleanupInv (dropPending s) :=
  { h with
    pending := fun _ h => by cases h }

theorem dropActive (h : CleanupInv s) : CleanupInv (dropActive s) := by
  obtain ⟨h₁,h₂,h₃,h₄,h₅⟩ := h
  unfold Registry.dropActive
  constructor <;> grind

theorem claimPending (h : CleanupInv s) {o : ℕ} (ho : s.pendingRemove = some o) :
    CleanupInv (claimPending s o) := by
  obtain ⟨h₁,h₂,h₃,h₄,h₅⟩ := h
  unfold Registry.claimPending
  constructor <;> grind

theorem publishActive (h : CleanupInv s) (hw : s.worker = none) (hp : s.pendingRemove = none)
    (hs : s.lastSuccessfullyRemovedGeneration ≠ some s.generation) :
    CleanupInv (publishActive s s.generation) := by
  obtain ⟨h₁,h₂,h₃,h₄,h₅⟩ := h
  unfold Registry.publishActive
  constructor <;> grind

theorem publishWorker (h : CleanupInv s) {c : ℕ}
    (hc : (s.contexts c).generation = s.generation + 1) : CleanupInv (publishWorker s c) := by
  obtain ⟨h₁,h₂,h₃,h₄,h₅⟩ := h
  unfold Registry.publishWorker
  constructor <;> grind

theorem worker_none_of_requested (h : CleanupInv s) {k : ℕ}
    (hk : s.registerCoordination = some k)
    (hreq : (s.coordinations k).cleanupRequested = true) : s.worker = none := by
  rw [Option.eq_none_iff_forall_ne_some]
  intro c hc
  simp [(h.coordination k hk).2.2 c hc] at hreq

theorem of_reconciled (h : CleanupInv s) {k : ℕ} {p : State × Option ℕ}
    (hk : s.registerCoordination = some k) (hr : Reconciled s k p) : CleanupInv p.1 := by
  cases hr with
  | waiting => exact h
  | covered => exact h
  | dropped => exact h.dropCoordination
  | marked => exact h.markRequested
  | created _ hreq _ _ hs => exact h.createPending (h.worker_none_of_requested hk hreq) hs

theorem reconcileGeneration (h : CleanupInv s) (g : ℕ) : CleanupInv (reconcileGeneration s g) := by
  unfold Registry.reconcileGeneration
  split
  · split
    · exact h.of_reconciled ‹_› (h.reconcile ‹_›)
    · exact h
  · exact h

theorem requestCleanup (h : CleanupInv s) (hw : s.worker = none) (k : ℕ) :
    CleanupInv (requestCleanup s k) :=
  h.updateCoordination k (fun _ => rfl) (Or.inl hw)

/-- `_request_remove_locked` either reconciles the requested coordination or goes straight to
Pending. -/
theorem requestRemove_eq (h : CleanupInv s) (hw : s.worker = none) : requestRemoveLocked s =
    match s.registerCoordination with
    | some k => reconcileRegisterCoordinationLocked (Registry.requestCleanup s k) k
    | none => ensurePendingRemoveLocked s s.generation := by
  unfold requestRemoveLocked
  cases hk : s.registerCoordination with
  | none => exact requestPending_eq s
  | some k =>
    have hg := (h.coordination k hk).2.1
    have hreq : ((Registry.requestCleanup s k).coordinations k).cleanupRequested = true := by
      simp [Registry.requestCleanup,State.updateCoordination]
    have hr := (h.requestCleanup hw k).reconcile hk
    simp only [hg,if_true]
    generalize reconcileRegisterCoordinationLocked (Registry.requestCleanup s k) k = p at hr ⊢
    cases hr with
    | waiting hin => exact if_pos (Or.inr hin)
    | covered o _ _ hm hp =>
      dsimp only
      rw [requestPending_eq,ensurePending_of_not_owed _ _ (Or.inr (Or.inr ⟨hp,hm⟩)),ite_self]
    | dropped _ hwhy =>
      rw [hreq] at hwhy
      have hwhy := hwhy.resolve_left (by simp)
      dsimp only
      rw [requestPending_eq,ensurePending_of_not_owed,ite_self]
      rcases hwhy with hs | h0 | ⟨hm,hp⟩
      · exact Or.inr (Or.inl hs)
      · exact Or.inl h0
      · exact Or.inr (Or.inr ⟨hp,hm⟩)
    | marked => rfl
    | created => rfl

theorem requestRemoveLocked (h : CleanupInv s) (hw : s.worker = none) :
    CleanupInv (requestRemoveLocked s).1 := by
  rw [h.requestRemove_eq hw]
  cases hk : s.registerCoordination with
  | some k =>
    exact (h.requestCleanup hw k).of_reconciled hk ((h.requestCleanup hw k).reconcile hk)
  | none =>
    rcases ensurePending_cases s s.generation with ⟨he,-⟩ | ⟨o,-,-,-,he⟩ | ⟨-,-,hs,-,he⟩
    · exact he ▸ h
    · exact he ▸ h.markRequested
    · exact he ▸ h.createPending hw hs

theorem join_cases (h : CleanupInv s) :
    (∃ k, s.registerCoordination = some k ∧ (s.coordinations k).cleanupRequested = true ∧
      joinRegisterCoordination s = (s,none,s.generation,none)) ∨
    (∃ k, s.registerCoordination = some k ∧ (s.coordinations k).cleanupRequested = false ∧
      joinRegisterCoordination s = (enterCoordination s k,some k,s.generation,none)) ∨
    (s.registerCoordination = none ∧ joinRegisterCoordination s =
      (enterCoordination (Registry.openCoordination s) s.nextCoordination,
        some s.nextCoordination,s.generation,none)) := by
  unfold joinRegisterCoordination
  cases hk : s.registerCoordination with
  | none => exact Or.inr (Or.inr ⟨rfl,by simp [hk]⟩)
  | some k =>
    have hg := (h.coordination k hk).2.1
    cases hreq : (s.coordinations k).cleanupRequested with
    | true => exact Or.inl ⟨k,rfl,hreq,by simp [hk,hg,hreq]⟩
    | false => exact Or.inr (Or.inl ⟨k,rfl,hreq,by simp [hk,hg,hreq]⟩)

theorem enterCoordination (h : CleanupInv s) (k : ℕ) : CleanupInv (enterCoordination s k) :=
  h.updateCoordination k (fun _ => rfl) (Or.inr fun _ => rfl)

theorem joinRegisterCoordination (h : CleanupInv s) :
    CleanupInv (joinRegisterCoordination s).1 := by
  rcases h.join_cases with ⟨k,-,-,he⟩ | ⟨k,-,-,he⟩ | ⟨-,he⟩ <;> rw [he]
  · exact h
  · exact h.enterCoordination k
  · exact h.openCoordination.enterCoordination _

variable (cfg now) in
theorem acceptOneShot (h : CleanupInv s) (r : CallResult) (q : ℕ) (remove : Bool)
    (g k : Option ℕ) : CleanupInv (acceptOneShot cfg now s r q remove g k) := by
  rcases acceptOneShot_cases cfg now s r q remove g k with
    ⟨-,he⟩ | ⟨-,he⟩ | ⟨-,-,-,-,-,-,he⟩ <;> rw [he]
  · exact h
  · exact h.of_eq rfl rfl fun _ => id
  · exact CleanupInv.reopenCleanup (h.of_eq rfl rfl fun _ => id)

theorem leaveCoordination (h : CleanupInv s) (k : ℕ) : CleanupInv (leaveCoordination s k) :=
  h.updateCoordination k (fun _ => rfl) (Or.inr fun _ => rfl)

theorem releaseCoordination (h : CleanupInv s) (k : ℕ) :
    CleanupInv (releaseCoordination s k).1 := by
  rw [releaseCoordination_eq]
  split
  · exact (h.leaveCoordination k).of_reconciled ‹_› ((h.leaveCoordination k).reconcile ‹_›)
  · exact h.leaveCoordination k

variable (cfg now) in
theorem acceptWorker (h : CleanupInv s) (c : ℕ) (r : CallResult) (q : ℕ) :
    CleanupInv (acceptWorker cfg now s c r q) := by
  rcases acceptWorker_cases cfg now s r q c with ⟨-,he⟩ | ⟨-,-,he | ⟨-,-,he⟩⟩ <;> rw [he]
  · exact h
  · exact h.of_eq rfl rfl fun _ => id
  · exact CleanupInv.reopenCleanup (h.of_eq rfl rfl fun _ => id)

theorem cleanupActors (h : CleanupInv s) (a : Finset ℕ) :
    CleanupInv { s with cleanupActors := a } :=
  ⟨h.pending,h.active,h.removed,h.requested,h.coordination⟩

theorem associateActor (h : CleanupInv s) (o t : ℕ) : CleanupInv (associateActor s o t) := by
  unfold Registry.associateActor
  dsimp only
  refine (CleanupInv.cleanupActors ?_ _).updateOperation o (fun _ => rfl) (Or.inr fun _ => rfl)
  split
  · exact (h.cleanupActors _).updateOperation o (fun _ => rfl) (Or.inr fun _ => rfl)
  · exact h

theorem releaseActor (h : CleanupInv s) (o t : ℕ) : CleanupInv (releaseActor s o t) := by
  refine (h.cleanupActors _).updateOperation o (fun op => ?_) (Or.inr fun op => ?_)
  all_goals split <;> rfl

theorem abandonOperation (h : CleanupInv s) (o t : ℕ) (r : CallResult) :
    CleanupInv (abandonOperation s o t r) := by
  refine CleanupInv.updateOperation ?_ o (fun _ => rfl) (Or.inr fun _ => rfl)
  obtain ⟨h₁,h₂,h₃,h₄,h₅⟩ := h
  constructor <;> grind

theorem failActorStart (h : CleanupInv s) (o t : ℕ) (e : String) :
    CleanupInv (failActorStart cfg now s o t e) := by
  have ha : CleanupInv (recordResultLocked cfg now
      (Registry.abandonOperation s o t (cfg.safeResult (startFailure e))) (startFailure e) .local) :=
    (h.abandonOperation o t _).of_eq rfl rfl fun _ => id
  exact ha.reconcileGeneration _

theorem storeResult (h : CleanupInv s) (o : ℕ) (r : CallResult) : CleanupInv (storeResult s o r) :=
  h.updateOperation o (fun _ => rfl) (Or.inr fun _ => rfl)

end CleanupInv

/-! ### Active completions -/

/-- The state after an accepted success that satisfies the cleanup of its generation. -/
def satisfied (cfg : Config) (now : String) (s : State) (o : ℕ) (r : CallResult) (q : ℕ) : State :=
  dropPending (cacheRemoved
    (applyResult cfg now (storeResult s o (cfg.safeResult r)) r q .remove)
    (s.operations o).generation (cfg.safeResult (cfg.safeResult r)))

@[simp] theorem storeResult_generation (s : State) (o o' : ℕ) (r : CallResult) :
    ((storeResult s o r).operations o').generation = (s.operations o').generation := by
  by_cases h : o' = o <;> simp [storeResult,State.updateOperation,h]

namespace CleanupInv

theorem satisfyCleanup_eq (h : CleanupInv s) {o : ℕ} (r : CallResult) (q : ℕ)
    (hg : s.generation = (s.operations o).generation) :
    satisfyCleanup cfg (applyResult cfg now (Registry.storeResult s o (cfg.safeResult r)) r q .remove)
      o (cfg.safeResult r) = (satisfied cfg now s o r q,s.pendingRemove) := by
  have hgen : ((applyResult cfg now (Registry.storeResult s o (cfg.safeResult r)) r q
      .remove).operations o).generation = (s.operations o).generation :=
    storeResult_generation s o o _
  unfold satisfyCleanup satisfied
  simp only [hgen]
  generalize hc : cacheRemoved (applyResult cfg now (Registry.storeResult s o (cfg.safeResult r))
    r q .remove) (s.operations o).generation (cfg.safeResult (cfg.safeResult r)) = c
  have hp : c.pendingRemove = s.pendingRemove := by rw [← hc]; rfl
  split
  · rename_i p hcp
    have hpg : (c.operations p).generation = (s.operations o).generation := by
      rw [← hg,← (h.pending p (hp.symm.trans hcp)).2.2.1,← hc]
      exact storeResult_generation s o p _
    rw [if_pos hpg,← hp,hcp]
  · rename_i hcp
    have hdrop : Registry.dropPending c = c := by
      unfold Registry.dropPending
      rw [← hcp]
    rw [hdrop,← hp,hcp]

theorem completeRemove_eq {o : ℕ} {r : CallResult} {q : ℕ} {p : State × Option ℕ}
    (ha : acceptRemove cfg now (Registry.storeResult s o (cfg.safeResult r)) o r q = p)
    (ho : p.1.activeRemove = some o)
    (hg : (p.1.operations o).generation = (s.operations o).generation) :
    completeRemoveOperation cfg now s o r q =
      (Registry.reconcileGeneration (Registry.dropActive p.1) (s.operations o).generation,p.2) := by
  have hd : ((Registry.dropActive p.1).operations o).generation = (s.operations o).generation := hg
  simp only [Registry.completeRemoveOperation,ha,ho,if_true,hd]

variable (cfg now) in
theorem completeRemove_cases (h : CleanupInv s) {o : ℕ} (ho : s.activeRemove = some o)
    (r : CallResult) (q : ℕ) :
    (q ≤ s.lastAppliedRpcSequence ∧ completeRemoveOperation cfg now s o r q =
      (Registry.reconcileGeneration (Registry.dropActive
        (Registry.storeResult s o (cfg.safeResult r))) (s.operations o).generation,none)) ∨
    (s.lastAppliedRpcSequence < q ∧
      ¬ (r.success = true ∧ s.generation = (s.operations o).generation ∧ s.worker = none) ∧
      completeRemoveOperation cfg now s o r q =
      (Registry.reconcileGeneration (Registry.dropActive (applyResult cfg now
        (Registry.storeResult s o (cfg.safeResult r)) r q .remove))
        (s.operations o).generation,none)) ∨
    (s.lastAppliedRpcSequence < q ∧ r.success = true ∧
      s.generation = (s.operations o).generation ∧ s.worker = none ∧
      completeRemoveOperation cfg now s o r q =
      (Registry.reconcileGeneration (Registry.dropActive (satisfied cfg now s o r q))
        (s.operations o).generation,s.pendingRemove)) := by
  have hgen : ∀ r, ((Registry.storeResult s o r).operations o).generation =
      (s.operations o).generation := storeResult_generation s o o
  rcases Nat.lt_or_ge s.lastAppliedRpcSequence q with hq | hq
  swap
  · have hn : acceptRemove cfg now (Registry.storeResult s o (cfg.safeResult r)) o r q =
        (Registry.storeResult s o (cfg.safeResult r),none) := by
      unfold acceptRemove
      exact if_neg fun hn => absurd hn.2 (not_lt.mpr hq)
    exact Or.inl ⟨hq,completeRemove_eq hn ho (hgen _)⟩
  have hacc : (Registry.storeResult s o (cfg.safeResult r)).activeRemove = some o ∧
      (Registry.storeResult s o (cfg.safeResult r)).lastAppliedRpcSequence < q := ⟨ho,hq⟩
  by_cases hsat : r.success = true ∧ s.generation = (s.operations o).generation ∧ s.worker = none
  · have hn : acceptRemove cfg now (Registry.storeResult s o (cfg.safeResult r)) o r q =
        (satisfied cfg now s o r q,s.pendingRemove) := by
      unfold acceptRemove
      rw [if_pos hacc,← h.satisfyCleanup_eq r q hsat.2.1]
      exact if_pos ⟨hsat.1,hsat.2.1.trans (hgen _).symm,hsat.2.2⟩
    exact Or.inr (Or.inr ⟨hq,hsat.1,hsat.2.1,hsat.2.2,completeRemove_eq hn ho (hgen _)⟩)
  · have hn : acceptRemove cfg now (Registry.storeResult s o (cfg.safeResult r)) o r q =
        (applyResult cfg now (Registry.storeResult s o (cfg.safeResult r)) r q .remove,none) := by
      unfold acceptRemove
      rw [if_pos hacc]
      exact if_neg fun hn => hsat ⟨hn.1,hn.2.1.trans (hgen _),hn.2.2⟩
    exact Or.inr (Or.inl ⟨hq,hsat,completeRemove_eq hn ho (hgen _)⟩)

theorem satisfied (h : CleanupInv s) {o : ℕ} {r : CallResult}
    (hr : r.success = true) (q : ℕ) (hg : s.generation = (s.operations o).generation)
    (hw : s.worker = none) : CleanupInv (Registry.dropActive (satisfied cfg now s o r q)) := by
  obtain ⟨h₁,h₂,h₃,h₄,h₅⟩ := h
  unfold Registry.satisfied Registry.dropActive Registry.dropPending cacheRemoved applyResult
    applySequence recordResultLocked Registry.storeResult State.updateOperation
  constructor <;> grind [Config.safeResult_success]

theorem applyResult (h : CleanupInv s) (r : CallResult) (q : ℕ) (operation : Operation) :
    CleanupInv (applyResult cfg now s r q operation) :=
  h.of_eq rfl rfl fun _ => id

end CleanupInv
end FlaskXxlJob.Registry
