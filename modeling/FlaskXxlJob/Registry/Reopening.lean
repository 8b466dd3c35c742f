import FlaskXxlJob.Registry.SingleCleanup

/-!
An accepted register and the cleanup of its generation. The register owes a cleanup afterwards
exactly when one was not ruled out before it or when the register itself reopens one.
-/
namespace FlaskXxlJob.Registry
open FlaskXxlJob.Client Interleaving

variable {cfg : Config} {now : String}

/-- An Active Remove of generation `g` exists whose RPC is still to come or is later than the
sequence `q`. -/
def LaterActive (s : System) (g q : ℕ) : Prop :=
  ∃ o, s.shared.activeRemove = some o ∧ (s.shared.operations o).generation = g ∧
    ∀ x ∈ s.rpcs, x.ofOperation o → q < x.sequence

/-- A Pending Remove of generation `g` exists. -/
def PendingOf (s : State) (g : ℕ) : Prop :=
  ∃ o, s.pendingRemove = some o ∧ (s.operations o).generation = g

/-- Neither marker rules out a new Remove of generation `g`. -/
def Eligible (s : State) (g : ℕ) : Prop :=
  s.lastRemoveRequestedGeneration ≠ some g ∧ s.lastSuccessfullyRemovedGeneration ≠ some g

/-- The cleanup that a register of generation `g` with sequence `q` needs will follow. -/
def CleanupOwed (s : System) (g q : ℕ) : Prop :=
  Eligible s.shared g ∨ PendingOf s.shared g ∨ LaterActive s g q

/-- Why a register of the coordination `k` may owe a cleanup: it reopens the responsibility of
generation zero, of a cached success or of a requested cleanup, or a cleanup is possible or
outstanding anyway. -/
def Reopenable (s : System) (g k q : ℕ) : Prop :=
  g = 0 ∨ s.shared.lastSuccessfullyRemovedGeneration = some g ∨
    (s.shared.coordinations k).cleanupRequested = true ∨
    s.shared.lastRemoveRequestedGeneration ≠ some g ∨ PendingOf s.shared g ∨ LaterActive s g q

section Register
variable {s : State} {k q : ℕ} {r : CallResult}

variable (cfg now) in
/-- An accepted successful register of the current coordination. -/
theorem acceptOneShot_current (h : Rep s) (hk : s.registerCoordination = some k)
    (hr : r.success = true) (hq : s.lastAppliedRpcSequence < q) :
    acceptOneShot cfg now s r q false (some s.generation) (some k) =
      if s.lastSuccessfullyRemovedGeneration = some s.generation ∨
        (s.coordinations k).cleanupRequested = true ∨ s.generation = 0
      then reopenCleanup (applyResult cfg now s r q .register)
      else applyResult cfg now s r q .register := by
  have hg := (h.cleanup.coordination k hk).2.1
  have hreopens : reopensCleanup (applyResult cfg now s r q .register) s.generation (some k) =
      decide (s.lastSuccessfullyRemovedGeneration = some s.generation ∨
        (s.coordinations k).cleanupRequested = true ∨ s.generation = 0) := by
    have hk' : (applyResult cfg now s r q .register).registerCoordination = some k := hk
    have hg' : ((applyResult cfg now s r q .register).coordinations k).generation =
      s.generation := hg
    simp only [reopensCleanup,Option.any_some,hk',hg']
    by_cases h₁ : s.lastSuccessfullyRemovedGeneration = some s.generation <;>
      cases h₂ : (s.coordinations k).cleanupRequested <;> simp [h₁,h₂]
  have hcur : (!false && r.success && decide (s.generation = s.generation) &&
      decide ((s.coordinations k).generation = s.generation) &&
      decide (s.registerCoordination = some k)) = true := by
    simp [hr,hg,hk]
  unfold acceptOneShot
  rw [if_pos hq]
  refine (if_pos hcur).trans ?_
  unfold invalidateSuccessfulCleanupLocked
  rw [if_neg (by simp)]
  simp only [Bool.false_eq_true,if_false,hreopens]
  by_cases hc : s.lastSuccessfullyRemovedGeneration = some s.generation ∨
    (s.coordinations k).cleanupRequested = true ∨ s.generation = 0 <;> simp [hc]

/-- After a reopening register the generation is eligible or already has its Pending. -/
theorem CleanupInv.reopened_owes (h : CleanupInv s) (hk : s.registerCoordination = some k)
    (hm : s.lastRemoveRequestedGeneration = none)
    (hs : s.lastSuccessfullyRemovedGeneration = none) :
    Eligible (Registry.releaseCoordination s k).1 s.generation ∨
      PendingOf (Registry.releaseCoordination s k).1 s.generation := by
  have hl := (h.leaveCoordination k).reconcile (k := k) hk
  rw [releaseCoordination_eq,if_pos hk]
  generalize reconcileRegisterCoordinationLocked (Registry.leaveCoordination s k) k = p at hl
  have hm' : (Registry.leaveCoordination s k).lastRemoveRequestedGeneration = none := hm
  have hs' : (Registry.leaveCoordination s k).lastSuccessfullyRemovedGeneration = none := hs
  cases hl with
  | waiting => exact Or.inl (by simp [Eligible,hm',hs'])
  | covered _ _ _ hc => simp [hm'] at hc
  | dropped => exact Or.inl (by simp [Eligible,Registry.dropCoordination,hm',hs'])
  | marked o _ _ hp => exact Or.inr ⟨o,hp,(h.pending o hp).2.2.1⟩
  | created => exact Or.inr ⟨_,rfl,by simp [Registry.createPending]; rfl⟩

/-- A register that requests nothing leaves the markers and the Pending slot. -/
theorem CleanupInv.unrequested_keeps (h : CleanupInv s) (hk : s.registerCoordination = some k)
    (hreq : (s.coordinations k).cleanupRequested = false) :
    (Registry.releaseCoordination s k).1.lastRemoveRequestedGeneration =
      s.lastRemoveRequestedGeneration ∧
    (Registry.releaseCoordination s k).1.lastSuccessfullyRemovedGeneration =
      s.lastSuccessfullyRemovedGeneration ∧
    (Registry.releaseCoordination s k).1.pendingRemove = s.pendingRemove ∧
    (Registry.releaseCoordination s k).1.operations = s.operations := by
  have hl := (h.leaveCoordination k).reconcile (k := k) hk
  have hreq' : ((Registry.leaveCoordination s k).coordinations k).cleanupRequested = false := by
    simpa [Registry.leaveCoordination,State.updateCoordination] using hreq
  rw [releaseCoordination_eq,if_pos hk]
  generalize reconcileRegisterCoordinationLocked (Registry.leaveCoordination s k) k = p at hl
  cases hl with
  | waiting | dropped => exact ⟨rfl,rfl,rfl,rfl⟩
  | covered _ _ hr | marked _ _ hr | created _ hr => simp [hreq'] at hr

end Register

/-- An instruction without an RPC and without an Active change keeps the later Active. -/
theorem laterActive_after {s : System} {t : ℕ} {i : Instr} {rest : List Instr} {ch : Choice}
    {g q : ℕ} (hi : i.issues s.shared ch = [])
    (ha : (effect cfg s.alive t s.next ch s.shared i).state.activeRemove = s.shared.activeRemove)
    (ho : ∀ o, s.shared.activeRemove = some o →
      ((effect cfg s.alive t s.next ch s.shared i).state.operations o).generation =
        (s.shared.operations o).generation) :
    LaterActive (s.after cfg t i rest ch) g q ↔ LaterActive s g q := by
  unfold LaterActive
  rw [System.rpcs_after,hi,List.append_nil]
  simp only [Sys.advance_shared,ha]
  refine exists_congr fun o => and_congr_right fun hact => ?_
  rw [ho o hact]

theorem cleanupOwed_after_register {s : System} (hinv : Invariant s) {t g k q : ℕ}
    {r : CallResult} {rest : List Instr} {ch : Choice}
    (hc : s.code t = .commit (.register (some k) g) q r :: rest) (hr : r.success = true)
    (hq : s.shared.lastAppliedRpcSequence < q) (hg : s.shared.generation = g)
    (hk : s.shared.registerCoordination = some k) :
    CleanupOwed (s.after cfg t (.commit (.register (some k) g) q r) rest ch) g q ↔
      Reopenable s g k q := by
  subst hg
  have hmem : .commit (.register (some k) s.shared.generation) q r ∈ s.code t := by simp [hc]
  have hgrow := effect_cleanup_grows cfg hinv.rep s.alive t s.next ch (hinv.owned hmem)
  have hlater : LaterActive (s.after cfg t (.commit (.register (some k) s.shared.generation) q r)
      rest ch) s.shared.generation q ↔ LaterActive s s.shared.generation q :=
    laterActive_after rfl (by simp [effect,commitRpc,commitRegister])
      fun o ho => (hgrow.operation o (hinv.rep.cleanup.active o ho).1).1
  unfold CleanupOwed Reopenable
  rw [hlater]
  have heq := acceptOneShot_current cfg ch.now hinv.rep hk hr hq
  by_cases hre : s.shared.lastSuccessfullyRemovedGeneration = some s.shared.generation ∨
    (s.shared.coordinations k).cleanupRequested = true ∨ s.shared.generation = 0
  · rw [if_pos hre] at heq
    have hacc : CleanupInv (reopenCleanup (applyResult cfg ch.now s.shared r q .register)) :=
      CleanupInv.reopenCleanup (hinv.rep.cleanup.applyResult r q .register)
    have howes : Eligible (releaseCoordination (reopenCleanup
        (applyResult cfg ch.now s.shared r q .register)) k).1 s.shared.generation ∨
        PendingOf (releaseCoordination (reopenCleanup
        (applyResult cfg ch.now s.shared r q .register)) k).1 s.shared.generation :=
      hacc.reopened_owes hk rfl rfl
    rw [← heq] at howes
    refine iff_of_true (or_assoc.mp (Or.inl howes)) ?_
    rcases hre with hs | hreq | h0
    · exact Or.inr (Or.inl hs)
    · exact Or.inr (Or.inr (Or.inl hreq))
    · exact Or.inl h0
  · rw [if_neg hre] at heq
    push Not at hre
    obtain ⟨hs,hreq,h0⟩ := hre
    obtain ⟨hm',hs',hp',ho'⟩ := (hinv.rep.cleanup.applyResult r q .register).unrequested_keeps
      (k := k) hk (by simpa using hreq)
    rw [← heq] at hm' hs' hp' ho'
    have helig : Eligible (releaseCoordination (acceptOneShot cfg ch.now s.shared r q false
        (some s.shared.generation) (some k)) k).1 s.shared.generation ↔
        s.shared.lastRemoveRequestedGeneration ≠ some s.shared.generation := by
      unfold Eligible
      rw [hm',hs',heq]
      exact and_iff_left hs
    have hpend : PendingOf (releaseCoordination (acceptOneShot cfg ch.now s.shared r q false
        (some s.shared.generation) (some k)) k).1 s.shared.generation ↔
        PendingOf s.shared s.shared.generation := by
      unfold PendingOf
      rw [hp',ho',heq]
      rfl
    have hreq : (s.shared.coordinations k).cleanupRequested = false := by simpa using hreq
    simp only [Sys.advance_shared,effect,commitRpc,commitRegister,helig,hpend,h0,hs,hreq,false_or,
      Bool.false_eq_true]

/-- An accepted successful register of the current coordination owes a cleanup exactly when its
generation is zero, its cleanup was cached or requested while it ran, or the markers, a Pending
or a later Active Remove provide for one. -/
theorem register_reopens_cleanup_iff {s s' : System} (h : Reachable cfg s) {t g k q : ℕ}
    {r : CallResult} {rest : List Instr} {ch : Choice}
    (hc : s.code t = .commit (.register (some k) g) q r :: rest) (hr : r.success = true)
    (hq : s.shared.lastAppliedRpcSequence < q) (hg : s.shared.generation = g)
    (hk : s.shared.registerCoordination = some k) (hs : step cfg s (.run t ch) = some s') :
    CleanupOwed s' g q ↔ Reopenable s g k q := by
  obtain ⟨i,rest',hc',-,rfl⟩ := step_run_cases hs
  obtain ⟨rfl,rfl⟩ := List.cons_eq_cons.mp (hc.symm.trans hc')
  exact cleanupOwed_after_register h.invariant hc hr hq hg hk

/-- A register before any cleanup, in a Worker's generation. -/
theorem register_reopens_cleanup_iff_stopped : ∃ s s' : System,
    (s.shared.generation = 1 ∧ s.shared.lastRemoveRequestedGeneration = none) ∧
    (CleanupOwed s' 1 1 ↔ Reopenable s 1 0 1) := by
  obtain ⟨s,hr,hp⟩ := Run.exists_of_schedule (f := step .plain) (s := .blank)
    (l := [.call .start, proceed 0, proceed 0, proceed 0, .call (.stop false), proceed 2,
      .call .registerExecutor, proceed 3, proceed 3, proceed 3])
    (p := fun s => s.code 3 = [.commit (.register (some 0) 1) 1 { success := true }] ∧
      s.shared.lastAppliedRpcSequence < 1 ∧ s.shared.generation = 1 ∧
      s.shared.registerCoordination = some 0 ∧
      s.shared.lastRemoveRequestedGeneration = none) (by decide +kernel)
  obtain ⟨hc,hq,hg,hk,hm⟩ := of_decide_eq_true hp
  exact ⟨s,_,⟨hg,hm⟩,register_reopens_cleanup_iff hr hc rfl hq hg hk
    (show step .plain s (proceed 3) = some _ from Machine.step_run_of hc rfl)⟩

/-- After a failed cleanup of a Worker's generation an accepted register owes nothing: the mark
of the failed request stays. -/
theorem register_after_failed_cleanup : ∃ s s' : System, Reachable .plain s ∧
    s.code 3 = [.commit (.register (some 0) 1) 2 { success := true }] ∧
    s.shared.lastAppliedRpcSequence < 2 ∧ s.shared.generation = 1 ∧
    s.shared.registerCoordination = some 0 ∧ s.shared.worker = none ∧
    step .plain s (proceed 3) = some s' ∧ ¬ CleanupOwed s' 1 2 := by
  obtain ⟨s,hr,hp⟩ := Run.exists_of_schedule (f := step .plain) (s := .blank)
    (l := [.call .start, proceed 0, proceed 0, proceed 0, .call (.stop true), proceed 2] ++
      List.replicate 5 (proceed 1) ++ [refuse 1, proceed 1, .call .registerExecutor, proceed 3,
      proceed 3, proceed 3])
    (p := fun s => s.code 3 = [.commit (.register (some 0) 1) 2 { success := true }] ∧
      s.shared.lastAppliedRpcSequence < 2 ∧ s.shared.generation = 1 ∧
      s.shared.registerCoordination = some 0 ∧ s.shared.worker = none ∧
      (step .plain s (proceed 3)).any fun s' => s'.shared.lastRemoveRequestedGeneration = some 1 ∧
        s'.shared.pendingRemove = none ∧ s'.shared.activeRemove = none) (by decide +kernel)
  obtain ⟨hc,hq,hg,hk,hw,hstep⟩ := of_decide_eq_true hp
  obtain ⟨s',hs,hs'⟩ := (Option.any_eq_true _ _).mp hstep
  obtain ⟨hm,hpend,hact⟩ := of_decide_eq_true hs'
  refine ⟨s,s',hr,hc,hq,hg,hk,hw,hs,?_⟩
  rintro (he | ⟨o,ho,-⟩ | ⟨o,ho,-⟩)
  · exact he.1 hm
  · cases hpend.symm.trans ho
  · cases hact.symm.trans ho

end FlaskXxlJob.Registry
