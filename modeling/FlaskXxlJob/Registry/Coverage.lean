import FlaskXxlJob.Registry.Calls
import FlaskXxlJob.Registry.Quiescence
import FlaskXxlJob.Registry.Reopening

/-!
A lifecycle cleanup and the registers counted before it. While one of them is counted the
cleanup is due; the last one to commit decides whether it is requested.
-/
namespace FlaskXxlJob.Registry
open FlaskXxlJob.Client Interleaving

variable {cfg : Config} {s s' s'' : State}

/-! ### The coordination of a requested cleanup -/

/-- From `s` to `s'` no register leaves the coordination `k`, it stays open while one is counted,
and a Pending Remove of generation `g` is lost only by `P`. -/
structure Continues (k g : ℕ) (P : Prop) (s s' : State) : Prop where
  inflight : (s'.coordinations k).inflightCount = (s.coordinations k).inflightCount
  coordination : s.registerCoordination = some k → 0 < (s.coordinations k).inflightCount →
    s'.registerCoordination = some k
  pending : PendingOf s g → PendingOf s' g ∨ P

namespace Continues
variable {k g : ℕ} {P : Prop}

theorem of_eq (hc : s'.coordinations = s.coordinations)
    (hk : s'.registerCoordination = s.registerCoordination)
    (hp : PendingOf s g → PendingOf s' g ∨ P) : Continues k g P s s' :=
  ⟨by rw [hc],fun h _ => hk.trans h,hp⟩

theorem refl (s : State) : Continues k g P s s := .of_eq rfl rfl Or.inl

theorem of_cleanup (h : s'.toCleanup = s.toCleanup) : Continues k g P s s' := by
  refine .of_eq (congrArg Cleanup.coordinations h) (congrArg Cleanup.registerCoordination h) ?_
  rintro ⟨o,ho,hg⟩
  exact Or.inl ⟨o,(congrArg Cleanup.pendingRemove h).trans ho,
    by rw [congrArg Cleanup.operations h]; exact hg⟩

theorem trans (h : Continues k g P s s') (h' : Continues k g P s' s'') :
    Continues k g P s s'' where
  inflight := h'.inflight.trans h.inflight
  coordination hk hi := h'.coordination (h.coordination hk hi) (by rw [h.inflight]; exact hi)
  pending hp := (h.pending hp).elim h'.pending Or.inr

theorem createPending (hp : s.pendingRemove = none) (g' : ℕ) :
    Continues k g P s (createPending s g') := by
  refine .of_eq rfl rfl ?_
  rintro ⟨o,ho,-⟩
  rw [hp] at ho
  cases ho

theorem reconciled {k' : ℕ} {p : State × Option ℕ} (hk : s.registerCoordination = some k')
    (h : Reconciled s k' p) : Continues k g P s p.1 := by
  cases h with
  | waiting | covered => exact .refl s
  | dropped hin =>
    refine ⟨rfl,fun hk' hi => ?_,Or.inl⟩
    obtain rfl := Option.some.inj (hk.symm.trans hk')
    omega
  | marked => exact .of_eq rfl rfl Or.inl
  | created _ _ hp => exact .createPending hp _

theorem requestCleanup (k' : ℕ) : Continues k g P s (requestCleanup s k') :=
  ⟨(requestCleanup_coordination s k' k).1,fun hk _ => hk,Or.inl⟩

theorem requested {p : State × Option ℕ} (h : Requested s p) : Continues k g P s p.1 := by
  cases h with
  | coordinated k' p hk hr => exact (requestCleanup k').trans (.reconciled hk hr)
  | notOwed => exact .refl s
  | marked => exact .of_eq rfl rfl Or.inl
  | created _ hp => exact .createPending hp _

theorem reconcileGeneration (h : CleanupInv s) (g' : ℕ) :
    Continues k g P s (Registry.reconcileGeneration s g') := by
  unfold Registry.reconcileGeneration
  split
  · split
    · exact .reconciled ‹_› (h.reconcile ‹_›)
    · exact .refl s
  · exact .refl s

theorem updateOperation (o : ℕ) {f : RemoveOperation → RemoveOperation}
    (hf : ∀ op, (f op).generation = op.generation) :
    Continues k g P s (s.updateOperation o f) := by
  refine .of_eq rfl rfl ?_
  rintro ⟨o',ho,hg⟩
  refine Or.inl ⟨o',ho,?_⟩
  by_cases hoo : o' = o
  · subst hoo
    simpa [State.updateOperation,hf] using hg
  · simpa [State.updateOperation,hoo] using hg

variable {now : String}

theorem acceptOneShot (r : CallResult) (q : ℕ) (remove : Bool) (g' k' : Option ℕ) :
    Continues k g P s (Registry.acceptOneShot cfg now s r q remove g' k') := by
  rcases acceptOneShot_cases cfg now s r q remove g' k' with
    ⟨-,he⟩ | ⟨-,he⟩ | ⟨-,-,-,-,-,-,he⟩ <;> rw [he]
  · exact .refl s
  · exact .of_eq rfl rfl Or.inl
  · exact .of_eq rfl rfl Or.inl

/-- Another coordination gives a token back. -/
theorem release (h : CleanupInv s) {k' : ℕ} (hne : k' ≠ k) :
    Continues k g P s (Registry.releaseCoordination s k').1 := by
  have hl : Continues k g P s (Registry.leaveCoordination s k') :=
    ⟨by simp [leaveCoordination_inflight,hne],fun hk _ => hk,Or.inl⟩
  rw [releaseCoordination_eq]
  split
  · exact hl.trans (.reconciled (s := Registry.leaveCoordination s k') ‹_›
      ((h.leaveCoordination k').reconcile ‹_›))
  · exact hl

/-- A completed Active Remove drops the Pending only when it is accepted. -/
theorem complete (h : CleanupInv s) {o : ℕ} (ho : s.activeRemove = some o) (r : CallResult)
    {q : ℕ} (hP : s.lastAppliedRpcSequence < q → P) :
    Continues k g P s (completeRemoveOperation cfg now s o r q).1 := by
  have hc := h.storeResult o (cfg.safeResult r)
  have hs : Continues k g P s (storeResult s o (cfg.safeResult r)) :=
    .updateOperation o fun _ => rfl
  rcases h.completeRemove_cases cfg now ho r q with ⟨-,he⟩ | ⟨-,-,he⟩ | ⟨hq,hr,hg,hw,he⟩
  all_goals rw [he]
  · have hd : Continues k g P s (Registry.dropActive (storeResult s o (cfg.safeResult r))) :=
      hs.trans (.of_eq rfl rfl Or.inl)
    exact hd.trans (.reconcileGeneration hc.dropActive _)
  · have hd : Continues k g P s (Registry.dropActive (applyResult cfg now
        (storeResult s o (cfg.safeResult r)) r q .remove)) := hs.trans (.of_eq rfl rfl Or.inl)
    exact hd.trans (.reconcileGeneration (hc.applyResult r q .remove).dropActive _)
  · have hd : Continues k g P s (Registry.dropActive (Registry.satisfied cfg now s o r q)) :=
      .of_eq rfl rfl fun _ => Or.inr (hP hq)
    exact hd.trans (.reconcileGeneration (h.satisfied hr q hg hw) _)

end Continues

section
variable (cfg) (alive : ℕ → Bool) (t fresh : ℕ) (ch : Choice) {i : Instr} {k g : ℕ}

/-- Without a Prepared start no generation begins. -/
theorem effect_unprepared (h : Rep s) (hp : s.preparedStart = none)
    (hi : ∀ b, i ≠ .prepareStart b) :
    (effect cfg alive t fresh ch s i).state.preparedStart = none ∧
    (effect cfg alive t fresh ch s i).state.generation = s.generation := by
  have hset : ∀ p, s.preparedStart ≠ some p := fun p => by simp [hp]
  by_cases hact : ∃ p, i = .activatePreparedStart p
  · obtain ⟨p,rfl⟩ := hact
    simp only [effect]
    rcases activatePreparedStart_cases t h.lifecycle p with ⟨-,he⟩ | ⟨hps,-⟩
    · rw [he]
      exact ⟨hp,rfl⟩
    · exact absurd hps (hset p)
  refine ⟨?_,effect_generation cfg alive t fresh ch fun p he => hact ⟨p,he⟩⟩
  by_cases hm : i.movesLifecycle = false
  · exact (congrArg Lifecycle.preparedStart (effect_toLifecycle cfg s t fresh alive ch hm)).trans hp
  cases i with
  | prepareStart b => exact absurd rfl (hi b)
  | activatePreparedStart p => exact absurd ⟨p,rfl⟩ hact
  | cancelPreparedStart p =>
    simp only [effect]
    rcases cancelPreparedStart_cases s p with ⟨-,he⟩ | ⟨hps,-⟩
    · rw [he]
      exact hp
    · exact absurd hps (hset p)
  | settlePrepared p =>
    simp only [effect]
    rcases settlePrepared_cases s p with he | ⟨hps,-⟩ | ⟨-,-,-,he⟩
    · rw [he]
      exact hp
    · exact absurd hps (hset p)
    · rw [he]
      exact hp
  | setStop c | setActivate p => exact hp
  | stop remove => cases remove <;> simp [effect,stop,stopSection]
  | shutdown deregister => simp [effect,shutdown]
  | finishWorker c =>
    simp only [effect]
    rcases finishWorker_cases s t c with ⟨o,-,-,-,he⟩ | ⟨-,he⟩ <;> simp [he,hp]
  | _ => simp [Instr.movesLifecycle] at hm

/-- A register's commit leaves its sequence applied or overtaken. -/
theorem effect_applied_register (k' : Option ℕ) (g' q : ℕ) (r : CallResult) :
    q ≤ (effect cfg alive t fresh ch s
      (.commit (.register k' g') q r)).state.lastAppliedRpcSequence := by
  have hq : q ≤ (acceptOneShot cfg ch.now s r q false (some g')
      k').lastAppliedRpcSequence := by
    rcases acceptOneShot_cases cfg ch.now s r q false (some g') k' with
      ⟨hq,he⟩ | ⟨-,he⟩ | ⟨-,-,-,-,-,-,he⟩ <;> rw [he]
    · exact hq
    · exact le_rfl
    · exact le_rfl
  cases k' with
  | none => exact hq
  | some k' => simpa [effect,commitRpc,commitRegister] using hq

/-- The Pending Remove has gone over to a thread that awaits its RPC, or an accepted Active
Remove has made it superfluous. -/
def HandedOn (s : State) (e : Step) (i : Instr) : Prop :=
  (∃ o, .network (.active o) ∈ e.push) ∨
  ∃ o q r, i = .commit (.active o) q r ∧ s.lastAppliedRpcSequence < q

/-- An instruction that holds no token of the requested coordination. -/
theorem effect_continues (h : Rep s) (hi : i.Owned s) (hp : s.preparedStart = none)
    (hstart : ch.startError = none) (hk : k < s.nextCoordination)
    (hreq : (s.coordinations k).cleanupRequested = true)
    (hno : ∀ g' q r, i ≠ .commit (.register (some k) g') q r) :
    Continues k g (HandedOn s (effect cfg alive t fresh ch s i) i) s
      (effect cfg alive t fresh ch s i).state := by
  have hc := h.cleanup
  cases i with
  | activatePreparedStart p =>
    simp only [effect]
    rcases activatePreparedStart_cases t h.lifecycle p with ⟨-,he⟩ | ⟨hps,-⟩
    · rw [he]
      exact .refl s
    · rw [hp] at hps
      cases hps
  | stop remove =>
    have hl : ∀ {P}, Continues k g P s (stopLocalLocked (dropPrepared s)) := .of_cleanup (by simp)
    cases remove with
    | false => exact hl
    | true =>
      have hc' : CleanupInv (stopLocalLocked (dropPrepared s)) :=
        hc.of_eq (by simp) (by simp) (by simp)
      exact hl.trans (.requested (hc'.requestOutcome (by simp)))
  | shutdown deregister =>
    refine ⟨by simp [effect,shutdown],fun hk _ => by simpa [effect,shutdown] using hk,?_⟩
    rintro ⟨o,ho,hg⟩
    exact Or.inl ⟨o,by simpa [effect,shutdown] using ho,by simpa [effect,shutdown] using hg⟩
  | shutdownRequest g' =>
    simp only [effect,shutdownRequest]
    split
    · exact .requested (hc.requestOutcome (hi.2 (Eq.symm ‹_›)))
    · exact .refl s
  | joinRegister =>
    simp only [effect,joinRegister]
    rcases hc.join_cases with ⟨k',-,-,he⟩ | ⟨k',hk',hno',he⟩ | ⟨hnone,he⟩ <;> rw [he]
    · exact .refl s
    · have hne : k' ≠ k := by
        rintro rfl
        simp [hreq] at hno'
      exact ⟨by simp [enterCoordination_inflight,hne],fun hk _ => hk,Or.inl⟩
    · have hne : s.nextCoordination ≠ k := hk.ne'
      refine ⟨?_,fun hk' => ?_,Or.inl⟩
      · simp [enterCoordination_inflight,hne,openCoordination,hne.symm]
      · rw [hnone] at hk'
        cases hk'
  | commit call q r =>
    cases call with
    | register k' g' =>
      cases k' with
      | none => exact .acceptOneShot r q false (some g') none
      | some k' =>
        have hne : k' ≠ k := fun he => hno g' q r (by rw [he])
        have ha : ∀ {P}, Continues k g P s
            (acceptOneShot cfg ch.now s r q false (some g') (some k')) :=
          .acceptOneShot r q false (some g') (some k')
        exact ha.trans (.release (hc.acceptOneShot cfg ch.now r q false (some g') (some k')) hne)
    | remove => exact .acceptOneShot r q true none none
    | worker c =>
      simp only [effect,commitRpc,commitWorker]
      rw [h.acceptWorker_eq]
      split
      · exact .of_eq rfl rfl Or.inl
      · exact .refl s
    | active o => exact .complete hc hi r fun hq => Or.inr ⟨o,q,r,rfl,hq⟩
  | finishWorker c =>
    simp only [effect]
    rcases finishWorker_cases s t c with ⟨o,-,-,-,he⟩ | ⟨-,he⟩ <;> rw [he]
    · exact .of_eq (by simp) (by simp) fun _ => Or.inr (Or.inl ⟨o,by simp⟩)
    · exact .of_cleanup (by simp)
  | terminalRemove g' =>
    simp only [effect,terminalRemove]
    split
    all_goals try exact .refl s
    refine .of_eq rfl rfl ?_
    rintro ⟨o,ho,hg⟩
    refine Or.inl ⟨o,ho,?_⟩
    have hlt := (hc.pending o ho).2.1
    simpa [publishActive,hlt.ne] using hg
  | schedulePendingRemove caller =>
    simp only [effect]
    rcases schedulePendingRemove_cases cfg ch.now s t fresh alive caller ch.startError with
      ⟨-,he⟩ | ⟨o,-,-,he⟩ | ⟨o,e,-,hse,-⟩
    · rw [he]
      exact .refl s
    · rw [he]
      refine .of_eq (by simp) (by simp) ?_
      rintro ⟨o',ho,hg⟩
      exact Or.inl ⟨o',by simpa using ho,by simpa using hg⟩
    · rw [hstart] at hse
      cases hse
  | runCleanupActor o =>
    simp only [effect]
    rcases runCleanupActor_cases s o with ⟨-,-,he⟩ | ⟨-,he⟩ <;> rw [he]
    · exact .of_eq rfl rfl fun _ => Or.inr (Or.inl ⟨o,by simp⟩)
    · exact .refl s
  | finishCleanupActor o =>
    refine .of_eq (by simp [effect]) (by simp [effect]) ?_
    rintro ⟨o',ho,hg⟩
    exact Or.inl ⟨o',by simpa [effect] using ho,by simpa [effect] using hg⟩
  | setOperationDone o =>
    exact .updateOperation (f := fun op => { op with doneEvent := true }) o fun _ => rfl
  | setCoordinationDone k' =>
    refine ⟨?_,fun hk _ => hk,Or.inl⟩
    by_cases hkk : k = k' <;> simp [effect,State.updateCoordination,hkk]
  | _ => exact .of_cleanup (effect_toCleanup cfg alive t fresh ch rfl)

end

/-! ### The last counted register -/

/-- A cleanup of generation `g` is requested, or will be once no register is counted. -/
def CleanupDue (s : State) (g : ℕ) : Prop :=
  (Eligible s g ∧ (0 < g ∨ s.registered = true)) ∨ PendingOf s g

section Release
variable {k q : ℕ} {r : CallResult} {now : String}

theorem CleanupInv.release_counted (h : CleanupInv s) (hk : s.registerCoordination = some k)
    (hin : 1 < (s.coordinations k).inflightCount) :
    (Registry.releaseCoordination s k).1 = Registry.leaveCoordination s k := by
  have hl := (h.leaveCoordination k).reconcile (k := k) hk
  have hpos : 0 < ((Registry.leaveCoordination s k).coordinations k).inflightCount := by
    rw [leaveCoordination_inflight,if_pos rfl]
    omega
  rw [releaseCoordination_eq,if_pos hk]
  generalize reconcileRegisterCoordinationLocked (Registry.leaveCoordination s k) k = p at hl
  cases hl with
  | waiting => rfl
  | covered _ h0 | dropped h0 | marked _ h0 | created h0 => omega

/-- The last register of a requested cleanup represents a due one as Pending. -/
theorem CleanupInv.due_release (h : CleanupInv s) (hk : s.registerCoordination = some k)
    (hreq : (s.coordinations k).cleanupRequested = true)
    (hone : (s.coordinations k).inflightCount = 1) (hd : CleanupDue s s.generation) :
    PendingOf (Registry.releaseCoordination s k).1 s.generation := by
  have hc := h.leaveCoordination k
  have hl := hc.reconcile (k := k) hk
  have hzero : ((Registry.leaveCoordination s k).coordinations k).inflightCount = 0 := by
    rw [leaveCoordination_inflight,if_pos rfl,hone]
  have hreq' : ((Registry.leaveCoordination s k).coordinations k).cleanupRequested = true := by
    simpa [Registry.leaveCoordination,State.updateCoordination] using hreq
  have hkeep : PendingOf s s.generation →
      PendingOf (Registry.releaseCoordination s k).1 s.generation := by
    intro hp
    have hcont : Continues k s.generation False (Registry.leaveCoordination s k)
        (Registry.releaseCoordination s k).1 := by
      rw [releaseCoordination_eq,if_pos hk]
      exact .reconciled (s := Registry.leaveCoordination s k) hk hl
    exact (hcont.pending hp).resolve_right id
  rcases hd with ⟨⟨hm,hs⟩,hown⟩ | hp
  · rw [releaseCoordination_eq,if_pos hk]
    generalize reconcileRegisterCoordinationLocked (Registry.leaveCoordination s k) k = p at hl
    cases hl with
    | waiting hpos => omega
    | covered o _ _ hmark => exact absurd hmark hm
    | dropped _ hwhy =>
      rcases hwhy with hno | hs' | ⟨h0,hr⟩ | ⟨hm',-⟩
      · rw [hreq'] at hno
        cases hno
      · exact absurd hs' hs
      · have h0 : s.generation = 0 := h0
        have hr : s.registered = false := hr
        rcases hown with hpos | hr'
        · omega
        · simp [hr] at hr'
      · exact absurd hm' hm
    | marked o _ _ ho => exact ⟨o,ho,(hc.pending o ho).2.2.1⟩
    | created => exact ⟨_,rfl,by simp [Registry.createPending]; rfl⟩
  · exact hkeep hp

variable (cfg now) in
/-- An accepted success makes the requested cleanup due, and no register takes that back. -/
theorem Rep.due_accept (h : Rep s) (hk : s.registerCoordination = some k)
    (hreq : (s.coordinations k).cleanupRequested = true)
    (hd : (r.success = true ∧ s.lastAppliedRpcSequence < q) ∨ CleanupDue s s.generation) :
    CleanupDue (Registry.acceptOneShot cfg now s r q false (some s.generation) (some k))
      s.generation := by
  by_cases hnew : r.success = true ∧ s.lastAppliedRpcSequence < q
  · rw [acceptOneShot_current cfg now h hk hnew.1 hnew.2,if_pos (Or.inr (Or.inl hreq))]
    exact Or.inl ⟨⟨by simp [Registry.reopenCleanup],by simp [Registry.reopenCleanup]⟩,
      Or.inr (by simp [Registry.reopenCleanup,applyResult,applySequence,recordResultLocked,hnew.1])⟩
  have hd := hd.resolve_left hnew
  rcases acceptOneShot_cases cfg now s r q false (some s.generation) (some k) with
    ⟨-,he⟩ | ⟨hq,he⟩ | ⟨hq,-,hr,-⟩
  · rw [he]
    exact hd
  · have hr : r.success = false := by
      by_contra hr
      exact hnew ⟨by simpa using hr,hq⟩
    rw [he]
    rcases hd with ⟨hel,hown⟩ | hrun
    · refine Or.inl ⟨hel,hown.imp_right fun hreg => ?_⟩
      simp [applyResult,applySequence,recordResultLocked,hr,hreg]
    · exact Or.inr hrun
  · exact absurd ⟨hr,hq⟩ hnew

end Release

/-! ### Registers counted before a cleanup -/

def RpcKind.isRemove : RpcKind → Bool
  | .remove | .active .. => true
  | .register _ | .worker .. => false

/-- A Remove RPC follows the sequence `q`. -/
def Covered (s : System) (q : ℕ) : Prop :=
  ∃ x ∈ s.rpcs, x.kind.isRemove = true ∧ q < x.sequence

/-- A thread has taken up a Remove operation whose RPC it still has to issue. -/
def Unsequenced (s : System) : Prop := ∃ t o, ∃ i ∈ s.code t, i.Awaits o

/-- Thread `t` holds a token of the coordination `k`. -/
def Counted (s : System) (k t : ℕ) : Prop :=
  ∃ i ∈ s.code t, i.plays (Role.holdsToken k) = true

/-- The successful registers of `counted` threads are each followed by a Remove. -/
def RegistersCovered (counted : ℕ → Prop) (g : ℕ) (s : System) : Prop :=
  ∀ t, counted t → ∀ q r, .rpc t q (.register g) r ∈ s.history → r.success = true → Covered s q

def Instr.prepares : Instr → Bool
  | .prepareStart _ => true
  | _ => false

/-- No start begins, and threads start. -/
def Undisturbed (s : System) : Action Choice Call → Bool
  | .call _ => true
  | .run t ch => ch.startError.isNone && (s.code t).head?.all fun i => !i.prepares

/-- The last counted register leaves no success uncovered: its own success is newer than every
applied completion, or the cleanup is due anyway, or a Remove is about to be issued. The last case,
in which every success has been followed by a Remove already, only widens the condition: a commit
that opens no cleanup is harmless then. -/
def LeavesCleanup (counted : ℕ → Prop) (g q : ℕ) (r : CallResult) (s : System) : Prop :=
  (r.success = true ∧ s.shared.lastAppliedRpcSequence < q) ∨ CleanupDue s.shared g ∨
    Unsequenced s ∨ RegistersCovered counted g s

/-- The step is undisturbed, and if it commits the last register of `k`, that leaves a cleanup. -/
def Sustains (counted : ℕ → Prop) (k g : ℕ) (s : System) (a : Action Choice Call) : Prop :=
  Undisturbed s a = true ∧ ∀ t ch q r rest, a = .run t ch →
    s.code t = .commit (.register (some k) g) q r :: rest →
    (s.shared.coordinations k).inflightCount = 1 → LeavesCleanup counted g q r s

/-- A cleanup of generation `g` is still to come after the coordination `k`. -/
def Outstanding (k g : ℕ) (s : System) : Prop :=
  0 < (s.shared.coordinations k).inflightCount ∨ PendingOf s.shared g ∨ Unsequenced s

/-- What every run after the cleanup keeps of the registers counted in `k`. -/
structure Covering (counted : ℕ → Prop) (k g : ℕ) (s : System) : Prop where
  generation : s.shared.generation = g
  worker : s.shared.worker = none
  unprepared : s.shared.preparedStart = none
  known : k < s.shared.nextCoordination
  requested : (s.shared.coordinations k).cleanupRequested = true
  coordination : 0 < (s.shared.coordinations k).inflightCount →
    s.shared.registerCoordination = some k
  holders : ∀ t, Counted s k t → counted t
  registers : ∀ t, counted t → ∀ i ∈ s.code t, i.registers = true →
    i.role = .call (.register (some k) g)
  named : ∀ t, counted t → t < s.next
  covered : ∀ t, counted t → ∀ q r, .rpc t q (.register g) r ∈ s.history → r.success = true →
    Covered s q ∨ .commit (.register (some k) g) q r ∈ s.code t ∨
    (q ≤ s.shared.lastAppliedRpcSequence ∧ Outstanding k g s)

theorem undisturbed_run {s : System} {t : ℕ} {ch : Choice} {i : Instr} {rest : List Instr}
    (h : Undisturbed s (.run t ch) = true) (hc : s.code t = i :: rest) :
    ch.startError = none ∧ ∀ b, i ≠ .prepareStart b := by
  simp only [Undisturbed,hc,List.head?_cons,Option.all_some,Bool.and_eq_true,
    Option.isNone_iff_eq_none,Bool.not_eq_true'] at h
  refine ⟨h.1,fun b he => ?_⟩
  subst he
  cases h.2

namespace Covering
variable {counted : ℕ → Prop} {k g : ℕ} {s : System}

theorem called (h : Covering counted k g s) (hinv : Invariant s) (c : Call) :
    Covering counted k g (s.called cfg c) := by
  have hcode : ∀ t, counted t → (s.called cfg c).code t = s.code t := fun t ht => by
    simp [Machine.start,(h.named t ht).ne]
  have hrpc : ∀ {t q k' r}, .rpc t q k' r ∈ (s.called cfg c).history →
      .rpc t q k' r ∈ s.history := by
    intro t q k' r he
    rcases List.mem_append.mp he with he | he
    · exact he
    · cases List.mem_singleton.mp he
  refine ⟨h.generation,h.worker,h.unprepared,h.known,h.requested,h.coordination,?_,
    fun t ht i hi => ?_,fun t ht => (h.named t ht).trans (Nat.lt_succ_self _),
    fun t ht q r he hr => ?_⟩
  · rintro t ⟨i,hi,hk⟩
    by_cases ht : t = s.next
    · subst ht
      have hp := Plain.entry cfg c i (by simpa [Machine.start,machine] using hi)
      simp [Instr.plays,hp,Role.holdsToken] at hk
    · exact h.holders t ⟨i,by simpa [Machine.start,ht] using hi,hk⟩
  · rw [hcode t ht] at hi
    exact h.registers t ht i hi
  · rw [hcode t ht]
    rcases h.covered t ht q r (hrpc he) hr with hcov | hcom | ⟨hq,hout⟩
    · refine Or.inl ?_
      unfold Covered
      rw [System.rpcs_called]
      exact hcov
    · exact Or.inr (Or.inl hcom)
    · refine Or.inr (Or.inr ⟨hq,hout.imp_right (Or.imp_right ?_)⟩)
      rintro ⟨t',o,i,hi,hw⟩
      exact ⟨t',o,i,Machine.mem_start hinv.named hi,hw⟩

section After
variable {t : ℕ} {i : Instr} {rest : List Instr} {ch : Choice}
variable (h : Covering counted k g s) (hinv : Invariant s) (hc : s.code t = i :: rest)

variable (cfg ch) in
omit h hinv hc in
theorem covered_after {q : ℕ} (hcov : Covered s q) : Covered (s.after cfg t i rest ch) q := by
  obtain ⟨x,hx,hrest⟩ := hcov
  refine ⟨x,?_,hrest⟩
  rw [System.rpcs_after]
  exact List.mem_append_left _ hx

variable (cfg ch) in
include hinv hc in
omit h in
/-- An awaited RPC is still awaited, or has just been issued and covers what went before. -/
theorem unsequenced_step (hst : Status cfg s) (hu : Unsequenced s) :
    Unsequenced (s.after cfg t i rest ch) ∨
    ∀ q ≤ s.shared.lastAppliedRpcSequence, Covered (s.after cfg t i rest ch) q := by
  obtain ⟨t',o,j,hj,hw⟩ := hu
  rcases Sys.mem_code_cases hc hj with ⟨rfl,rfl⟩ | hrest
  · have hlt : t' < s.next := hinv.named.lt (by simp [hc])
    rcases hw with rfl | rfl
    · refine Or.inl ⟨t',o,.rpc (.active o),?_,Or.inr rfl⟩
      rw [Sys.advance_code_self hlt]
      exact List.mem_append_left _ (by simp [effect,enterNetwork])
    · refine Or.inr fun q hq => ⟨⟨s.shared.rpcSequence + 1,(RpcCall.active o).kind s.shared,
        (RpcCall.active o).outcome ch.outcome⟩,?_,rfl,?_⟩
      · rw [System.rpcs_after]
        exact List.mem_append_right _ List.mem_cons_self
      · exact Nat.lt_succ_of_le (hq.trans hst.applied)
  · exact Or.inl ⟨t',o,j,Sys.mem_advance hinv.named hc hj hrest,hw⟩

include h hinv hc

omit hinv in
/-- The token commit of a counted register, as its thread runs it. -/
theorem token_commit {k' g' q : ℕ} {r : CallResult} (hi : i = .commit (.register (some k') g') q r)
    (hk : k' = k) : counted t ∧ g' = g := by
  subst hk hi
  have hmem : .commit (.register (some k') g') q r ∈ s.code t := by simp [hc]
  have ht : counted t := h.holders t ⟨_,hmem,by simp [Instr.plays,Role.holdsToken]⟩
  have hrole := h.registers t ht _ hmem rfl
  simp only [Instr.role_call,Role.call.injEq,RpcCall.register.injEq] at hrole
  exact ⟨ht,hrole.2⟩

/-- Unless a counted register commits, the cleanup stays outstanding. -/
theorem outstanding_step (hst : Status cfg s) (hu : Undisturbed s (.run t ch) = true)
    (hno : ∀ g' q r, i ≠ .commit (.register (some k) g') q r) (hout : Outstanding k g s) :
    Outstanding k g (s.after cfg t i rest ch) ∨
    ∀ q ≤ s.shared.lastAppliedRpcSequence, Covered (s.after cfg t i rest ch) q := by
  have hmem : i ∈ s.code t := by simp [hc]
  have hcont := effect_continues cfg s.alive t s.next ch (g := g) hinv.rep (hinv.owned hmem)
    h.unprepared (undisturbed_run hu hc).1 h.known h.requested hno
  rcases hout with hin | hp | hun
  · exact Or.inl (Or.inl (by rw [Sys.advance_shared,hcont.inflight]; exact hin))
  · rcases hcont.pending hp with hp | ⟨o,ho⟩ | ⟨o,q,r,rfl,hq⟩
    · exact Or.inl (Or.inr (Or.inl hp))
    · refine Or.inl (Or.inr (Or.inr ⟨t,o,_,?_,Or.inl rfl⟩))
      rw [Sys.advance_code_self (hinv.named.lt (by simp [hc]))]
      exact List.mem_append_left _ ho
    · exact Or.inr fun q' hq' => covered_after cfg ch
        ⟨_,hst.commits t _ hmem,rfl,hq'.trans_lt hq⟩
  · exact (unsequenced_step cfg ch hinv hc hst hun).imp_left fun hun => Or.inr (Or.inr hun)

/-- After the commit of a counted register every counted success is covered or outstanding. -/
theorem outstanding_commit {q : ℕ} {r : CallResult}
    (hi : i = .commit (.register (some k) g) q r)
    (hl : (s.shared.coordinations k).inflightCount = 1 → LeavesCleanup counted g q r s) :
    Outstanding k g (s.after cfg t i rest ch) ∨
    RegistersCovered counted g s := by
  subst hi
  have hmem : .commit (.register (some k) g) q r ∈ s.code t := by simp [hc]
  have hpos : 0 < (s.shared.coordinations k).inflightCount := hinv.owned hmem
  have hk := h.coordination hpos
  have hg := h.generation
  have hacc := hinv.rep.cleanup.acceptOneShot cfg ch.now r q false (some g) (some k)
  by_cases hone : (s.shared.coordinations k).inflightCount = 1
  · have hpend : (r.success = true ∧ s.shared.lastAppliedRpcSequence < q) ∨
        CleanupDue s.shared g → Outstanding k g
          (s.after cfg t (.commit (.register (some k) g) q r) rest ch) := by
      intro hd
      rw [← hg] at hd hacc ⊢
      have hdue := hinv.rep.due_accept cfg ch.now hk h.requested hd
      have hp := hacc.due_release (k := k) (by simpa using hk) (by simpa using h.requested)
        (by simpa using hone) (by simpa using hdue)
      rw [congrArg Lifecycle.generation (acceptOneShot_frame ..).1] at hp
      exact Or.inr (Or.inl hp)
    rcases hl hone with hnew | hdue | ⟨t',o,j,hj,hw⟩ | hall
    · exact Or.inl (hpend (Or.inl hnew))
    · exact Or.inl (hpend (Or.inr hdue))
    · refine Or.inl (Or.inr (Or.inr ⟨t',o,j,?_,hw⟩))
      rcases Sys.mem_code_cases hc hj with ⟨-,rfl⟩ | hrest
      · rcases hw with hw | hw <;> cases hw
      · exact Sys.mem_advance hinv.named hc hj hrest
    · exact Or.inr hall
  · refine Or.inl (Or.inl ?_)
    simp only [Sys.advance_shared,effect,commitRpc,commitRegister,releaseCoordination_frame,
      leaveCoordination_inflight,if_true,acceptOneShot_frame]
    omega

theorem coordination_step (hu : Undisturbed s (.run t ch) = true)
    (hin : 0 < ((s.after cfg t i rest ch).shared.coordinations k).inflightCount) :
    (s.after cfg t i rest ch).shared.registerCoordination = some k := by
  have hmem : i ∈ s.code t := by simp [hc]
  by_cases hno : ∀ g' q r, i ≠ .commit (.register (some k) g') q r
  · have hcont := effect_continues cfg s.alive t s.next ch (g := g) hinv.rep (hinv.owned hmem)
      h.unprepared (undisturbed_run hu hc).1 h.known h.requested hno
    rw [Sys.advance_shared,hcont.inflight] at hin
    exact hcont.coordination (h.coordination hin) hin
  push Not at hno
  obtain ⟨g',q,r,rfl⟩ := hno
  have hk := h.coordination (hinv.owned hmem)
  simp only [Sys.advance_shared,effect,commitRpc,commitRegister,releaseCoordination_frame,
    leaveCoordination_inflight,if_true,acceptOneShot_frame] at hin ⊢
  have hacc := hinv.rep.cleanup.acceptOneShot cfg ch.now r q false (some g') (some k)
  rw [hacc.release_counted (k := k) (by simpa using hk) (by simpa using by omega)]
  simpa [leaveCoordination,State.updateCoordination] using hk

theorem holders_step {t' : ℕ} (hk : Counted (s.after cfg t i rest ch) k t') : counted t' := by
  obtain ⟨j,hj,hr⟩ := hk
  obtain ⟨g',hrole⟩ := Instr.role_of_holdsToken hr
  rcases Calls.code_cases cfg ch hinv.named hc t' with
    ⟨rfl,he⟩ | ⟨rfl,body,hb,he⟩ | ⟨-,he⟩ <;> rw [he] at hj
  · rcases List.mem_append.mp hj with hj | hj
    · rcases effect_push_token cfg s.shared s.alive t' s.next ch hinv.rep.cleanup hj hrole with
        hi | ⟨-,-,-,hno | hnew⟩
      · exact h.holders t' ⟨i,by simp [hc],by simp [Instr.plays,hi,Role.holdsToken]⟩
      · rw [h.requested] at hno
        cases hno
      · exact absurd h.known (by omega)
    · exact h.holders t' ⟨j,by simp [hc,hj],hr⟩
  · have hno := (effect_spawn_registers cfg s.shared s.alive t s.next ch body hb j hj).1
    simp [Instr.registers_of_role hrole] at hno
  · exact h.holders t' ⟨j,hj,hr⟩

theorem registers_step {t' : ℕ} (ht : counted t') {j : Instr}
    (hj : j ∈ (s.after cfg t i rest ch).code t') (hr : j.registers = true) :
    j.role = .call (.register (some k) g) := by
  rcases Calls.code_cases cfg ch hinv.named hc t' with
    ⟨rfl,he⟩ | ⟨rfl,body,hb,he⟩ | ⟨-,he⟩ <;> rw [he] at hj
  · rcases List.mem_append.mp hj with hj | hj
    · rcases effect_push_register cfg s.shared s.alive t' s.next ch hj hr with
        ⟨rfl,-⟩ | ⟨k',g',rfl,rfl⟩ | ⟨k',g',rfl,rfl⟩
      · exact absurd (h.registers t' ht .joinRegister (by simp [hc]) rfl) (by simp)
      · exact h.registers t' ht (.network (.register k' g')) (by simp [hc]) rfl
      · exact h.registers t' ht (.rpc (.register k' g')) (by simp [hc]) rfl
    · exact h.registers t' ht j (by simp [hc,hj]) hr
  · exact absurd (h.named _ ht) (lt_irrefl _)
  · exact h.registers t' ht j hj hr

theorem covered_step (hst : Status cfg s) (hg : Sustains counted k g s (.run t ch)) {t' q : ℕ}
    {r : CallResult} (ht : counted t')
    (he : .rpc t' q (.register g) r ∈ (s.after cfg t i rest ch).history)
    (hr : r.success = true) :
    Covered (s.after cfg t i rest ch) q ∨
    .commit (.register (some k) g) q r ∈ (s.after cfg t i rest ch).code t' ∨
    (q ≤ (s.after cfg t i rest ch).shared.lastAppliedRpcSequence ∧
      Outstanding k g (s.after cfg t i rest ch)) := by
  have hmem : i ∈ s.code t := by simp [hc]
  rcases List.mem_append.mp he with hold | hnew
  swap
  · -- the register has just issued its RPC
    obtain ⟨rfl,k',g',rfl,-⟩ := Calls.rpc_of_effect hnew ⟨rfl,g,rfl⟩
    obtain ⟨rfl,rfl⟩ : k' = some k ∧ g' = g := by
      simpa using h.registers t' ht _ hmem rfl
    obtain ⟨-,rfl,-,rfl⟩ := Event.rpc.inj (List.mem_singleton.mp hnew)
    refine Or.inr (Or.inl ?_)
    rw [Sys.advance_code_self (hinv.named.lt (by simp [hc]))]
    exact List.mem_append_left _ List.mem_cons_self
  by_cases hno : ∀ g' q r, i ≠ .commit (.register (some k) g') q r
  · rcases h.covered t' ht q r hold hr with hcov | hcom | ⟨hq,hout⟩
    · exact Or.inl (covered_after cfg ch hcov)
    · rcases Sys.mem_code_cases hc hcom with ⟨-,hi⟩ | hrest
      · exact absurd hi.symm (hno g q r)
      · exact Or.inr (Or.inl (Sys.mem_advance hinv.named hc hcom hrest))
    · refine (h.outstanding_step hinv hc hst hg.1 hno hout).elim (fun hout => ?_)
        fun hcov => Or.inl (hcov q hq)
      refine Or.inr (Or.inr ⟨?_,hout⟩)
      rcases effect_lastApplied cfg s.shared s.alive t s.next ch hinv.rep (hinv.owned hmem) with
        heq | ⟨call,q',r',-,hlt,-,heq⟩ <;> rw [Sys.advance_shared,heq]
      · exact hq
      · omega
  · push Not at hno
    obtain ⟨g',q',r',rfl⟩ := hno
    obtain ⟨-,rfl⟩ := h.token_commit hc rfl rfl
    have hlast := effect_applied_register cfg s.alive t s.next ch (s := s.shared) (some k) g' q' r'
    have hmono : s.shared.lastAppliedRpcSequence ≤ (s.after cfg t
        (.commit (.register (some k) g') q' r') rest ch).shared.lastAppliedRpcSequence := by
      rcases effect_lastApplied cfg s.shared s.alive t s.next ch hinv.rep (hinv.owned hmem) with
        heq | ⟨call,q'',r'',-,hlt,-,heq⟩ <;> rw [Sys.advance_shared,heq]
      exact hlt.le
    rcases h.outstanding_commit hinv hc rfl (hg.2 t ch q' r' rest rfl hc) with hout | hall
    · rcases h.covered t' ht q r hold hr with hcov | hcom | ⟨hq,-⟩
      · exact Or.inl (covered_after cfg ch hcov)
      · rcases Sys.mem_code_cases hc hcom with ⟨-,hi⟩ | hrest
        · obtain ⟨-,rfl,rfl⟩ := Instr.commit.inj hi
          exact Or.inr (Or.inr ⟨hlast,hout⟩)
        · exact Or.inr (Or.inl (Sys.mem_advance hinv.named hc hcom hrest))
      · exact Or.inr (Or.inr ⟨hq.trans hmono,hout⟩)
    · exact Or.inl (covered_after cfg ch (hall t' ht q r hold hr))

theorem after (hst : Status cfg s) (hg : Sustains counted k g s (.run t ch)) :
    Covering counted k g (s.after cfg t i rest ch) := by
  have hmem : i ∈ s.code t := by simp [hc]
  have hl := effect_lifecycle_grows cfg hinv.rep.lifecycle s.alive t s.next ch i
  have hgrow := effect_cleanup_grows cfg hinv.rep s.alive t s.next ch (hinv.owned hmem)
  obtain ⟨hprep,hgen⟩ := effect_unprepared cfg s.alive t s.next ch hinv.rep h.unprepared
    (undisturbed_run hg.1 hc).2
  refine ⟨hgen.trans h.generation,?_,hprep,h.known.trans_le hgrow.coordinations,
    (hgrow.coordination k h.known).2 h.requested,h.coordination_step hinv hc hg.1,
    fun t' => h.holders_step hinv hc,fun t' ht j => h.registers_step hinv hc ht,
    fun t' ht => (h.named t' ht).trans_le (Sys.advance_next_le ..),
    fun t' ht q r => h.covered_step hinv hc hst hg ht⟩
  rw [Option.eq_none_iff_forall_ne_some]
  intro c hw
  rcases hl.worker c hw with hw | hlt
  · rw [h.worker] at hw
    cases hw
  · omega

end After
end Covering

/-! ### The cleanup -/

section Linearized
variable {k : ℕ}

/-- The section of a lifecycle cleanup that finds a counted register only requests. -/
theorem stop_requests (h : Rep s) (hk : s.registerCoordination = some k)
    (hin : 0 < (s.coordinations k).inflightCount) :
    (stop s true).state = requestCleanup (stopLocalLocked (dropPrepared s)) k := by
  have hc : CleanupInv (stopLocalLocked (dropPrepared s)) :=
    h.cleanup.of_eq (by simp) (by simp) (by simp)
  have hk' : (stopLocalLocked (dropPrepared s)).registerCoordination = some k := by simpa using hk
  have hout := hc.requestOutcome (by simp)
  simp only [stop,stopSection,if_true]
  generalize requestRemoveLocked (stopLocalLocked (dropPrepared s)) = p at hout
  cases hout with
  | coordinated k' p hk'' hr =>
    obtain rfl := Option.some.inj (hk'.symm.trans hk'')
    have hin' : 0 < ((requestCleanup (stopLocalLocked (dropPrepared s)) k).coordinations
        k).inflightCount := by simpa using hin
    cases hr with
    | waiting => rfl
    | covered _ h0 | dropped h0 | marked _ h0 | created h0 => omega
  | notOwed hnone | marked _ hnone | created hnone =>
    rw [hk'] at hnone
    cases hnone

theorem shutdown_requests (h : Rep s) (hen : cfg.enabled = true)
    (hk : s.registerCoordination = some k) : (shutdown cfg s true).state =
      requestCleanup { stopLocalLocked (dropPrepared s) with closeLogsWhenIdle := true } k := by
  have hg := (h.cleanup.coordination k hk).2.1
  have hk' : (stopLocalLocked (dropPrepared s)).registerCoordination = some k := by simpa using hk
  simp only [shutdown,shutdownLocal,hk']
  rw [if_pos ⟨hen,trivial,by simpa using hg⟩]

/-- The request of a lifecycle cleanup that finds a counted register. -/
structure Linearized (k : ℕ) (s s' : State) : Prop where
  generation : s'.generation = s.generation
  worker : s'.worker = none
  unprepared : s'.preparedStart = none
  next : s'.nextCoordination = s.nextCoordination
  requested : (s'.coordinations k).cleanupRequested = true
  coordination : s'.registerCoordination = s.registerCoordination

theorem effect_linearized (h : Rep s) (hen : cfg.enabled = true) (alive : ℕ → Bool) (t fresh : ℕ)
    (ch : Choice) {i : Instr} (hi : i = .stop true ∨ i = .shutdown true)
    (hk : s.registerCoordination = some k) (hin : 0 < (s.coordinations k).inflightCount) :
    Linearized k s (effect cfg alive t fresh ch s i).state := by
  rcases hi with rfl | rfl
  · simp only [effect,stop_requests h hk hin]
    constructor <;> simp [requestCleanup,State.updateCoordination]
  · simp only [effect,shutdown_requests h hen hk]
    constructor <;> simp [requestCleanup,State.updateCoordination]

end Linearized

/-- A register that holds a token and has issued its RPC waits for its commit. -/
theorem Calls.counted_commit {s : System} (h : Calls s) {k t q g : ℕ} {r : CallResult}
    (hg : (s.shared.coordinations k).generation = g) (ht : Counted s k t)
    (he : .rpc t q (.register g) r ∈ s.history) :
    .commit (.register (some k) g) q r ∈ s.code t := by
  obtain ⟨j,hj,hk⟩ := ht
  obtain ⟨g',hrole⟩ := Instr.role_of_holdsToken hk
  obtain rfl : g = g' := hg.symm.trans (h.tokens t j hj k g' hrole).2
  have hreg : Event.RegisterRpc t (.rpc t q (.register g) r) := ⟨rfl,g,rfl⟩
  cases j with
  | network | rpc =>
    obtain rfl := Role.call.inj hrole
    exact absurd hreg (h.waiting t _ hj rfl _ he)
  | commit call q' r' =>
    obtain rfl := Role.call.inj hrole
    have he' := h.unique t _ he _ (h.commits t _ hj (some k) g q' r' rfl) hreg ⟨rfl,g,rfl⟩
    obtain ⟨-,rfl,-,rfl⟩ := Event.rpc.inj he'
    exact hj
  | _ => cases hrole

theorem Covering.start {s : System} (h : Reachable cfg s) (hen : cfg.enabled = true) {t k : ℕ}
    {i : Instr} {rest : List Instr} {ch : Choice} (hc : s.code t = i :: rest)
    (hi : i = .stop true ∨ i = .shutdown true)
    (hk : s.shared.registerCoordination = some k)
    (hin : 0 < (s.shared.coordinations k).inflightCount) :
    Covering (Counted s k) k s.shared.generation (s.after cfg t i rest ch) := by
  have hinv := h.invariant
  have hcalls := h.calls
  obtain ⟨hlt,hgen,-⟩ := hinv.rep.cleanup.coordination k hk
  have hnoreg : i.registers = false := by rcases hi with rfl | rfl <;> rfl
  have hpush : ∀ j ∈ (effect cfg s.alive t s.next ch s.shared i).push, j.registers = false := by
    intro j hj
    by_contra hr
    rcases effect_push_register cfg s.shared s.alive t s.next ch hj (by simpa using hr) with
      ⟨rfl,-⟩ | ⟨k',g',rfl,-⟩ | ⟨k',g',rfl,-⟩ <;> simp at hi
  have hold : ∀ t' j, j ∈ (s.after cfg t i rest ch).code t' → j.registers = true →
      j ∈ s.code t' := by
    intro t' j hj hr
    rcases Calls.code_cases cfg ch hinv.named hc t' with ⟨rfl,he⟩ | ⟨rfl,body,hb,he⟩ | ⟨-,he⟩ <;>
      rw [he] at hj
    · rcases List.mem_append.mp hj with hj | hj
      · simp [hpush j hj] at hr
      · simp [hc,hj]
    · simp [(effect_spawn_registers cfg s.shared s.alive t s.next ch body hb j hj).1] at hr
    · exact hj
  obtain ⟨hg',hw',hp',hn',hq',hk'⟩ := effect_linearized hinv.rep hen s.alive t s.next ch hi hk hin
  refine ⟨hg',hw',hp',hlt.trans_eq hn'.symm,hq',fun _ => hk'.trans hk,?_,?_,?_,?_⟩
  · rintro t' ⟨j,hj,hr⟩
    obtain ⟨g',hrole⟩ := Instr.role_of_holdsToken hr
    exact ⟨j,hold t' j hj (Instr.registers_of_role hrole),hr⟩
  · rintro t' ⟨j',hj',hr'⟩ j hj hr
    obtain ⟨g',hrole⟩ := Instr.role_of_holdsToken hr'
    obtain rfl := hcalls.one_register (hold t' j hj hr) hj' hr (Instr.registers_of_role hrole)
    rw [hrole,← (hcalls.tokens t' j hj' k g' hrole).2,hgen]
  · rintro t' ⟨j,hj,-⟩
    exact (hinv.named.lt (List.ne_nil_of_mem hj)).trans_le (Sys.advance_next_le ..)
  · rintro t' ht q r he -
    rcases List.mem_append.mp he with he | he
    · have hcom := hcalls.counted_commit hgen ht he
      refine Or.inr (Or.inl (Sys.mem_advance hinv.named hc hcom ?_))
      rintro rfl
      rw [hc] at hcom
      refine (List.mem_cons.mp hcom).resolve_left ?_
      rintro rfl
      simp [Instr.registers] at hnoreg
    · obtain ⟨-,k',g',rfl,-⟩ := Calls.rpc_of_effect he ⟨rfl,_,rfl⟩
      simp at hi

/-- When all threads have finished, no Remove is left. -/
theorem Reachable.removes_finished {s : System} (h : Reachable cfg s) (hend : ∀ t, s.code t = []) :
    s.shared.pendingRemove = none ∧ s.shared.activeRemove = none := by
  have hq : Quiescent cfg s := quiescent_of_ended hend
  exact ⟨hq.pending h,hq.active h⟩

/-- Once the counted registers have finished, and with them all threads or at least every Remove,
each of them that succeeded is followed by a Remove. -/
theorem lifecycle_cleanup_covers_registers {s₀ s₁ s : System} (h : Reachable cfg s₀)
    (hen : cfg.enabled = true) {t k : ℕ} {i : Instr} {rest : List Instr} {ch : Choice}
    (hc : s₀.code t = i :: rest) (hi : i = .stop true ∨ i = .shutdown true)
    (hk : s₀.shared.registerCoordination = some k)
    (hin : 0 < (s₀.shared.coordinations k).inflightCount)
    (hs : step cfg s₀ (.run t ch) = some s₁)
    (hr : Run (step cfg) (Sustains (Counted s₀ k) k s₀.shared.generation) s₁ s)
    (hdone : ∀ t, Counted s₀ k t → s.code t = [])
    (hend : (∀ t, s.code t = []) ∨
      s.shared.pendingRemove = none ∧ s.shared.activeRemove = none) :
    RegistersCovered (Counted s₀ k) s₀.shared.generation s := by
  obtain ⟨i',rest',hc',hen',rfl⟩ := step_run_cases hs
  obtain ⟨rfl,rfl⟩ := List.cons_eq_cons.mp (hc.symm.trans hc')
  have hstep : Registry.step cfg s₀ (.run t ch) = some (s₀.after cfg t i rest ch) := hs
  have h₁ : Reachable cfg (s₀.after cfg t i rest ch) := h.tail _ trivial hstep
  have hall : Invariant s ∧ Status cfg s ∧ Numbered s ∧
      Covering (Counted s₀ k) k s₀.shared.generation s := by
    refine run_induct (I := fun s => Invariant s ∧ Status cfg s ∧ Numbered s ∧
      Covering (Counted s₀ k) k s₀.shared.generation s) h₁.invariant
      ⟨h₁.invariant,h₁.status,h₁.numbered,.start h hen hc hi hk hin⟩ ?_ ?_ hr
    · rintro s c hinv ⟨-,hst,hnum,hcov⟩ -
      exact ⟨hinv.start c,hst.called c,hnum.called c,hcov.called hinv c⟩
    · rintro s t i rest ch hinv ⟨-,hst,hnum,hcov⟩ hg hc hen
      exact ⟨hinv.advance hc hen,hst.after hinv hc hnum,hnum.after t i rest ch,
        hcov.after hinv hc hst hg⟩
  obtain ⟨hinv,-,-,hcov⟩ := hall
  have hreach : Reachable cfg s := h₁.trans (hr.mono fun _ _ _ => trivial)
  obtain ⟨hp,ha⟩ := hend.elim hreach.removes_finished id
  intro t' ht q r he hsucc
  rcases hcov.covered t' ht q r he hsucc with hcov' | hcom | ⟨-,hout⟩
  · exact hcov'
  · rw [hdone t' ht] at hcom
    cases hcom
  · rcases hout with hpos | ⟨o,ho,-⟩ | ⟨x,o,j,hj,hw⟩
    · rw [← hinv.tokens k] at hpos
      obtain ⟨x,j,hj,hr⟩ := System.exists_of_count hpos
      have hx := hcov.holders x ⟨j,hj,hr⟩
      rw [hdone x hx] at hj
      cases hj
    · rw [hp] at ho
      cases ho
    · have hact := hinv.executes hj hw.executes
      rw [ha] at hact
      cases hact

/-- The step is undisturbed, and the last register of a coordination to commit is a success newer
than every applied completion. -/
def CommitsNewest (s : System) (a : Action Choice Call) : Bool :=
  Undisturbed s a &&
    match a with
    | .call _ => true
    | .run t _ =>
      match s.code t with
      | .commit (.register (some k) _) q r :: _ =>
        decide ((s.shared.coordinations k).inflightCount ≠ 1) ||
          r.success && decide (s.shared.lastAppliedRpcSequence < q)
      | _ => true

theorem CommitsNewest.sustains {s : System} {a : Action Choice Call} (counted : ℕ → Prop)
    (k g : ℕ) (h : CommitsNewest s a = true) : Sustains counted k g s a := by
  obtain ⟨hu,hn⟩ := Bool.and_eq_true_iff.mp h
  refine ⟨hu,fun t ch q r rest ha hc hone => Or.inl ?_⟩
  simpa [ha,hc,hone] using hn

/-- Two registers, the first of which fails, commit after a `shutdown` has requested their
cleanup. -/
theorem lifecycle_cleanup_covers_registers_shutdown : ∃ s₀ s : System,
    (s.rpcs.map Rpc.kind = [.register 0, .register 0, .active 0 0] ∧
      s.rpcs.map (fun x => x.result.success) = [false, true, true] ∧
      Counted s₀ 0 0 ∧ Counted s₀ 0 1) ∧
    RegistersCovered (Counted s₀ 0) s₀.shared.generation s := by
  obtain ⟨s₀,h₀,hp₀⟩ := Run.exists_of_schedule (f := step .plain) (s := .blank)
    (l := [.call .registerExecutor, .call .registerExecutor, proceed 0, proceed 1, proceed 0,
      refuse 0, proceed 1, proceed 1, .call (.shutdown true)])
    (p := fun s => s.next = 3 ∧ s.code 2 = [.shutdown true] ∧
      (s.code 0).any (fun i => i.plays (Role.holdsToken 0)) = true ∧
      (s.code 1).any (fun i => i.plays (Role.holdsToken 0)) = true ∧
      s.shared.registerCoordination = some 0 ∧
      0 < (s.shared.coordinations 0).inflightCount ∧
      (step .plain s (proceed 2)).any fun s₁ =>
        (schedule (fun s a => if CommitsNewest s a then step .plain s a else none) s₁
          (List.replicate 2 (proceed 2) ++ List.replicate 3 (proceed 0) ++
            List.replicate 5 (proceed 1) ++ List.replicate 11 (proceed 3))).any fun s =>
        (∀ t < s.next, s.code t = []) ∧
          s.rpcs.map Rpc.kind = [.register 0, .register 0, .active 0 0] ∧
          s.rpcs.map (fun x => x.result.success) = [false, true, true]) (by decide +kernel)
  obtain ⟨hnext,hc,hc₀,hc₁,hk,hin,hstep⟩ := of_decide_eq_true hp₀
  obtain ⟨s₁,hs₁,hrun⟩ := (Option.any_eq_true _ _).mp hstep
  obtain ⟨s,hr,hp⟩ := Run.exists_within hrun
  obtain ⟨hidle,hrpcs,hmixed⟩ := of_decide_eq_true hp
  have hreach : Reachable .plain s :=
    (h₀.tail _ trivial hs₁).trans (hr.mono fun _ _ _ => trivial)
  have hend : ∀ t, s.code t = [] := hreach.invariant.named.ended hidle
  exact ⟨s₀,s,⟨hrpcs,hmixed,List.any_eq_true.mp hc₀,List.any_eq_true.mp hc₁⟩,
    lifecycle_cleanup_covers_registers h₀ rfl hc (Or.inr rfl) hk hin hs₁
      (hr.mono fun s a hg => CommitsNewest.sustains _ _ _ hg) (fun t _ => hend t) (Or.inl hend)⟩

/-- A failed register commits before an earlier successful one: `registered` stays false, and
generation zero ends without a Remove. -/
theorem overtaken_register_uncovered : ∃ s₀ s₁ s : System, Reachable .plain s₀ ∧
    s₀.code 2 = [.shutdown true] ∧ s₀.shared.registerCoordination = some 0 ∧
    (s₀.shared.coordinations 0).inflightCount = 2 ∧ step .plain s₀ (proceed 2) = some s₁ ∧
    Run (step .plain) (fun s a => Undisturbed s a = true) s₁ s ∧ (∀ t, s.code t = []) ∧
    s.shared.cleanupActors = ∅ ∧ s.shared.pendingRemove = none ∧ s.shared.activeRemove = none ∧
    ¬ RegistersCovered (Counted s₀ 0) s₀.shared.generation s := by
  obtain ⟨s₀,h₀,hp₀⟩ := Run.exists_of_schedule (f := step .plain) (s := .blank)
    (l := [.call .registerExecutor, .call .registerExecutor, proceed 0, proceed 1, proceed 0,
      proceed 0, proceed 1, refuse 1, .call (.shutdown true)])
    (p := fun s => s.code 2 = [.shutdown true] ∧
      s.code 0 = [.commit (.register (some 0) 0) 1 { success := true }] ∧
      s.shared.registerCoordination = some 0 ∧ s.shared.generation = 0 ∧
      (s.shared.coordinations 0).inflightCount = 2 ∧
      (step .plain s (proceed 2)).any fun s₁ =>
        (schedule (fun s a => if Undisturbed s a then step .plain s a else none) s₁
          [proceed 1, proceed 0, proceed 2, proceed 2, proceed 1, proceed 1, proceed 0, proceed 0,
            proceed 0, proceed 2]).any fun s =>
        (∀ t < s.next, s.code t = []) ∧
          s.shared.cleanupActors = ∅ ∧ s.shared.pendingRemove = none ∧
          s.shared.activeRemove = none ∧ s.rpcs.map Rpc.kind = [.register 0, .register 0] ∧
          .rpc 0 1 (.register 0) { success := true } ∈ s.history) (by decide +kernel)
  obtain ⟨hc,hc₀,hk,hg,hin,hstep⟩ := of_decide_eq_true hp₀
  obtain ⟨s₁,hs₁,hrun⟩ := (Option.any_eq_true _ _).mp hstep
  obtain ⟨s,hr,hp⟩ := Run.exists_within hrun
  obtain ⟨hidle,hactors,hpend,hact,hrpcs,hrpc⟩ := of_decide_eq_true hp
  have hreach : Reachable .plain s :=
    (h₀.tail _ trivial hs₁).trans (hr.mono fun _ _ _ => trivial)
  refine ⟨s₀,s₁,s,h₀,hc,hk,hin,hs₁,hr,hreach.invariant.named.ended hidle,hactors,hpend,hact,
    fun hall => ?_⟩
  rw [hg] at hall
  obtain ⟨x,hx,hrem,-⟩ := hall 0 ⟨_,by rw [hc₀]; exact List.mem_singleton_self _,rfl⟩ 1 _ hrpc rfl
  have hkind := List.mem_map_of_mem (f := Rpc.kind) hx
  rw [hrpcs] at hkind
  have hkind : x.kind = .register 0 := by simpa using hkind
  rw [hkind] at hrem
  cases hrem

end FlaskXxlJob.Registry
