import FlaskXxlJob.Registry.Frames

/-!
The representation invariant of the process state. Its lifecycle clauses, its cleanup clauses
and its coordination clause are kept by different sections, so they are three structures.
-/
namespace FlaskXxlJob.Registry
open FlaskXxlJob.Client

variable {cfg : Config} {now : String} {s s' : State}

structure LifecycleInv (s : State) : Prop where
  worker : ∀ c, s.worker = some c → c < s.nextPrepared ∧
    (s.contexts c).generation = s.generation ∧ s.stoppingWorkers.lookup s.generation = none
  exclusive : ∀ c p, s.worker = some c → s.preparedStart ≠ some p
  stopping : ∀ g c, s.stoppingWorkers.lookup g = some c → c < s.nextPrepared ∧
    (s.contexts c).generation = g ∧ g ≤ s.generation ∧ (s.contexts c).stopEvent = true
  prepared : ∀ p, s.preparedStart = some p → p < s.nextPrepared ∧
    (s.contexts p).generation = s.generation + 1 ∧ (s.contexts p).preparedOwner = some p ∧
    (s.prepareds p).activateEvent = false
  owner : ∀ c p, (s.contexts c).preparedOwner = some p → p = c ∧ c < s.nextPrepared
  token : ∀ p, p < s.nextPrepared → (s.prepareds p).context = p ∧
    (s.contexts p).thread = some (s.prepareds p).thread

structure CleanupInv (s : State) : Prop where
  pending : ∀ o, s.pendingRemove = some o → s.worker = none ∧ o < s.nextOperation ∧
    (s.operations o).generation = s.generation ∧ (s.operations o).doneEvent = false ∧
    s.activeRemove ≠ some o ∧ s.lastSuccessfullyRemovedGeneration ≠ some s.generation
  active : ∀ o, s.activeRemove = some o → o < s.nextOperation ∧
    (s.operations o).generation ≤ s.generation ∧ (s.operations o).doneEvent = false ∧
    ((s.operations o).generation = s.generation →
      s.worker = none ∧ s.lastSuccessfullyRemovedGeneration ≠ some s.generation)
  removed : ∀ g, s.lastSuccessfullyRemovedGeneration = some g → g ≤ s.generation ∧
    (g = s.generation → s.worker = none ∧ s.lastRemoveRequestedGeneration = some g ∧
      ∃ r, s.lastSuccessfullyRemovedResult = some r ∧ r.success = true)
  requested : ∀ g, s.lastRemoveRequestedGeneration = some g → g ≤ s.generation
  coordination : ∀ k, s.registerCoordination = some k → k < s.nextCoordination ∧
    (s.coordinations k).generation = s.generation ∧
    (∀ c, s.worker = some c → (s.coordinations k).cleanupRequested = false)

/-- A coordination without a counted register is kept only while its requested cleanup is
represented by a Remove of the current generation. -/
def CoordinationInv (s : State) : Prop :=
  ∀ k, s.registerCoordination = some k → (s.coordinations k).inflightCount = 0 →
    (s.coordinations k).cleanupRequested = true ∧
    s.lastRemoveRequestedGeneration = some s.generation ∧
    ∃ o, (s.activeRemove = some o ∨ s.pendingRemove = some o) ∧
      (s.operations o).generation = s.generation

structure Rep (s : State) : Prop where
  lifecycle : LifecycleInv s
  cleanup : CleanupInv s
  coordination : CoordinationInv s

/-! ### Lifecycle sections -/

namespace LifecycleInv

theorem of_eq (h : LifecycleInv s) (he : s'.toLifecycle = s.toLifecycle) : LifecycleInv s' := by
  obtain ⟨h₁,h₂,h₃,h₄,h₅,h₆⟩ := h
  constructor <;> rw [he] <;> assumption

theorem publishPrepared (h : LifecycleInv s) (hr : prepareRefused s = false) (t : ℕ) :
    LifecycleInv (publishPrepared s t) := by
  have hw : s.worker = none := by
    cases hc : s.worker with
    | none => rfl
    | some c => simp [prepareRefused,hc,isCurrentWorker,(h.worker c hc).2.1] at hr
  obtain ⟨h₁,h₂,h₃,h₄,h₅,h₆⟩ := h
  unfold Registry.publishPrepared
  constructor <;> grind

theorem detachWorker (h : LifecycleInv s) {c : ℕ} (hc : s.worker = some c) :
    LifecycleInv (detachWorker s c) := by
  obtain ⟨h₁,h₂,h₃,h₄,h₅,h₆⟩ := h
  obtain ⟨hlt,hg,-⟩ := h₁ c hc
  have hp := h₂ c
  unfold Registry.detachWorker State.updateContext
  constructor
  · simp
  · simp
  · intro g d hd
    by_cases hgd : g = (s.contexts c).generation
    · grind [AList.lookup_insert]
    · rw [AList.lookup_insert_ne hgd] at hd
      grind
  · grind
  · grind
  · grind

theorem stopLocalLocked (h : LifecycleInv s) : LifecycleInv (stopLocalLocked s) := by
  unfold Registry.stopLocalLocked
  split
  · exact h
  · exact h.detachWorker ‹_›

theorem dropPrepared (h : LifecycleInv s) : LifecycleInv (dropPrepared s) :=
  { h with
    exclusive := by rintro _ _ _ ⟨⟩
    prepared := by rintro _ ⟨⟩ }

theorem cancelPrepared (h : LifecycleInv s) (p : ℕ) : LifecycleInv (cancelPrepared s p) := by
  obtain ⟨h₁,h₂,h₃,h₄,h₅,h₆⟩ := h
  unfold Registry.cancelPrepared disownPrepared Registry.dropPrepared State.updateContext
  constructor <;> grind

theorem publishWorker (h : LifecycleInv s) {p : ℕ} (hp : s.preparedStart = some p) :
    LifecycleInv (publishWorker s p) := by
  obtain ⟨h₁,h₂,h₃,h₄,h₅,h₆⟩ := h
  obtain ⟨hlt,hg,ho,-⟩ := h₄ p hp
  have hnew : s.stoppingWorkers.lookup (s.generation + 1) = none := by
    by_contra hne
    obtain ⟨c,hc⟩ := Option.ne_none_iff_exists'.mp hne
    have := (h₃ _ c hc).2.2.1
    omega
  unfold Registry.publishWorker
  constructor <;> grind

theorem updateContext (h : LifecycleInv s) (c : ℕ) {f : WorkerContext → WorkerContext}
    (hg : ∀ ctx, (f ctx).generation = ctx.generation)
    (hs : ∀ ctx, ctx.stopEvent = true → (f ctx).stopEvent = true)
    (ht : ∀ ctx, (f ctx).thread = ctx.thread)
    (ho : s.preparedStart = some c → (f (s.contexts c)).preparedOwner = some c)
    (hp : ∀ ctx p, (f ctx).preparedOwner = some p → ctx.preparedOwner = some p) :
    LifecycleInv (s.updateContext c f) := by
  obtain ⟨h₁,h₂,h₃,h₄,h₅,h₆⟩ := h
  unfold State.updateContext
  constructor <;> grind

theorem updatePrepared (h : LifecycleInv s) (p : ℕ) {f : PreparedRegistryStart → _}
    (hc : ∀ q, (f q).context = q.context) (ht : ∀ q, (f q).thread = q.thread)
    (hp : s.preparedStart ≠ some p) :
    LifecycleInv (s.updatePrepared p f) := by
  obtain ⟨h₁,h₂,h₃,h₄,h₅,h₆⟩ := h
  unfold State.updatePrepared
  constructor <;> grind

theorem waitForActive (h : LifecycleInv s) {c : ℕ} (hc : s.preparedStart = none) :
    LifecycleInv (waitForActive s c) := by
  unfold Registry.waitForActive
  split
  · exact h.updateContext c (fun _ => rfl) (fun _ hs => hs) (fun _ => rfl) (by simp [hc])
      fun _ _ => id
  · exact h

/-- Under the invariant a committed activation finds no Worker and its own token. -/
theorem of_committed (h : LifecycleInv s) {p : ℕ} (ha : activationOf s p = .committed) :
    s.worker = none ∧ s.preparedStart = some p ∧ (s.prepareds p).context = p := by
  have hp : s.preparedStart = some p := by
    by_contra hp
    simp [activationOf,hp] at ha
  refine ⟨?_,hp,(h.token p (h.prepared p hp).1).1⟩
  cases hc : s.worker with
  | none => rfl
  | some c => exact absurd hp (h.exclusive c p hc)

theorem commitActivation (h : LifecycleInv s) {p : ℕ} (ha : activationOf s p = .committed) :
    LifecycleInv (commitActivation s p).1 := by
  obtain ⟨hw,hp,hc⟩ := h.of_committed ha
  have hs : Registry.stopLocalLocked s = s := by simp [Registry.stopLocalLocked,hw]
  simp only [Registry.commitActivation,hs,hc]
  exact (h.publishWorker hp).waitForActive rfl

theorem forgetWorker (h : LifecycleInv s) {c : ℕ} (hp : s.preparedStart ≠ some c) :
    LifecycleInv (forgetWorker s c) := by
  obtain ⟨h₁,h₂,h₃,h₄,h₅,h₆⟩ := h
  have herase : ∀ g d, (s.stoppingWorkers.erase (s.contexts c).generation).lookup g = some d →
      s.stoppingWorkers.lookup g = some d := by
    intro g d hd
    by_cases hg : g = (s.contexts c).generation
    · rw [hg,AList.lookup_erase] at hd
      cases hd
    · rwa [AList.lookup_erase_ne hg] at hd
  have herase' : ∀ g, s.stoppingWorkers.lookup g = none →
      (s.stoppingWorkers.erase (s.contexts c).generation).lookup g = none := by
    intro g hg
    by_contra hne
    obtain ⟨d,hd⟩ := Option.ne_none_iff_exists'.mp hne
    simp [herase g d hd] at hg
  unfold Registry.forgetWorker State.updateContext
  constructor <;> grind

end LifecycleInv

end FlaskXxlJob.Registry
