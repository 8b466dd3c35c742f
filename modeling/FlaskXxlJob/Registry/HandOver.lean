import FlaskXxlJob.Registry.Layering

/-!
What a step hands over. A slot that a section empties leaves an Event to be set, a scheduler to
be run or a check of the logs on the stack of its thread.
-/
namespace FlaskXxlJob.Registry
open FlaskXxlJob.Client Interleaving

variable (cfg : Config) (now : String) {s s' : State}

/-! ### Remove operations -/

/-- The operations of the Remove slots stay there unless they meet `P`, and so do new ones. -/
structure Cleanup.Hands (P : ℕ → Prop) (c c' : Cleanup) : Prop where
  slots : ∀ o, c.pendingRemove = some o ∨ c.activeRemove = some o →
    c'.pendingRemove = some o ∨ c'.activeRemove = some o ∨ P o
  fresh : ∀ o, c.nextOperation ≤ o → o < c'.nextOperation →
    c'.pendingRemove = some o ∨ c'.activeRemove = some o ∨ P o

namespace Cleanup.Hands
variable {P : ℕ → Prop} {c c' c'' : Cleanup}

theorem of_slots (hp : c'.pendingRemove = c.pendingRemove) (ha : c'.activeRemove = c.activeRemove)
    (hn : c'.nextOperation = c.nextOperation) : Hands P c c' where
  slots o h := by rcases h with h | h <;> simp [hp,ha,h]
  fresh o h h' := absurd h (not_le.mpr (hn ▸ h'))

theorem refl (c : Cleanup) : Hands P c c := of_slots rfl rfl rfl

theorem trans (h : Hands P c c') (h' : Hands P c' c'') : Hands P c c'' where
  slots o ho := by
    rcases h.slots o ho with ho | ho | ho
    · exact h'.slots o (Or.inl ho)
    · exact h'.slots o (Or.inr ho)
    · exact Or.inr (Or.inr ho)
  fresh o ho ho' := by
    rcases Nat.lt_or_ge o c'.nextOperation with hlt | hge
    · rcases h.fresh o ho hlt with hs | hs | hs
      · exact h'.slots o (Or.inl hs)
      · exact h'.slots o (Or.inr hs)
      · exact Or.inr (Or.inr hs)
    · exact h'.fresh o hge ho'

/-- The slots are emptied of operations that meet `P`. -/
theorem of_dropped (hs : ∀ o, c.pendingRemove = some o ∨ c.activeRemove = some o →
      c'.pendingRemove = some o ∨ c'.activeRemove = some o ∨ P o)
    (hn : c'.nextOperation = c.nextOperation) : Hands P c c' where
  slots := hs
  fresh _ h h' := absurd h (not_le.mpr (hn ▸ h'))

end Cleanup.Hands

section
variable {P : ℕ → Prop}

theorem hands_createPending (hp : s.pendingRemove = none) (g : ℕ) :
    Cleanup.Hands P s.toCleanup (createPending s g).toCleanup where
  slots o ho := by
    rcases ho with ho | ho
    · simp [hp] at ho
    · exact Or.inr (Or.inl ho)
  fresh o h h' := by
    obtain rfl : o = s.nextOperation := le_antisymm (Nat.lt_succ_iff.mp h') h
    exact Or.inl rfl

theorem hands_publishActive (ha : s.activeRemove = none) (g : ℕ) :
    Cleanup.Hands P s.toCleanup (publishActive s g).toCleanup where
  slots o ho := by
    rcases ho with ho | ho
    · exact Or.inl ho
    · simp [ha] at ho
  fresh o h h' := by
    obtain rfl : o = s.nextOperation := le_antisymm (Nat.lt_succ_iff.mp h') h
    exact Or.inr (Or.inl rfl)

theorem hands_claimPending {o : ℕ} (hp : s.pendingRemove = some o) (ha : s.activeRemove = none) :
    Cleanup.Hands P s.toCleanup (claimPending s o).toCleanup := by
  refine .of_dropped (fun o' ho => ?_) rfl
  rcases ho with ho | ho
  · obtain rfl := Option.some.inj (hp.symm.trans ho)
    exact Or.inr (Or.inl rfl)
  · simp [ha] at ho

theorem hands_reconciled {k : ℕ} {p : State × Option ℕ} (h : Reconciled s k p) :
    Cleanup.Hands P s.toCleanup p.1.toCleanup := by
  cases h with
  | waiting | covered => exact .refl _
  | dropped | marked => exact .of_slots rfl rfl rfl
  | created _ _ hp => exact hands_createPending hp _

theorem hands_requested {p : State × Option ℕ} (h : Requested s p) :
    Cleanup.Hands P s.toCleanup p.1.toCleanup := by
  cases h with
  | coordinated k p _ hr =>
    have hc : Cleanup.Hands P s.toCleanup (requestCleanup s k).toCleanup := .of_slots rfl rfl rfl
    exact hc.trans (hands_reconciled hr)
  | notOwed => exact .refl _
  | marked => exact .of_slots rfl rfl rfl
  | created _ hp => exact hands_createPending hp _

theorem CleanupInv.hands_reconcileGeneration (h : CleanupInv s) (g : ℕ) :
    Cleanup.Hands P s.toCleanup (Registry.reconcileGeneration s g).toCleanup := by
  unfold Registry.reconcileGeneration
  split
  · split
    · exact hands_reconciled (h.reconcile ‹_›)
    · exact .refl _
  · exact .refl _

theorem CleanupInv.hands_release (h : CleanupInv s) (k : ℕ) :
    Cleanup.Hands P s.toCleanup (Registry.releaseCoordination s k).1.toCleanup := by
  have hl : Cleanup.Hands P s.toCleanup (Registry.leaveCoordination s k).toCleanup :=
    .of_slots rfl rfl rfl
  rw [releaseCoordination_eq]
  split
  · exact hl.trans (hands_reconciled ((h.leaveCoordination k).reconcile ‹_›))
  · exact hl

/-- A completed Active leaves its slot together with the Pending it cancels. -/
theorem CleanupInv.hands_complete (h : CleanupInv s) {o : ℕ} (ho : s.activeRemove = some o)
    (r : CallResult) (q : ℕ) (hP : P o)
    (hc : ∀ p, (completeRemoveOperation cfg now s o r q).2 = some p → P p) :
    Cleanup.Hands P s.toCleanup (completeRemoveOperation cfg now s o r q).1.toCleanup := by
  have hdrop : ∀ s' : State, s'.pendingRemove = s.pendingRemove →
      s'.nextOperation = s.nextOperation → CleanupInv (Registry.dropActive s') →
      Cleanup.Hands P s.toCleanup (Registry.reconcileGeneration (Registry.dropActive s')
        (s.operations o).generation).toCleanup := by
    intro s' hp hn hinv
    have hd : Cleanup.Hands P s.toCleanup (Registry.dropActive s').toCleanup := by
      refine .of_dropped (fun x hx => ?_) hn
      rcases hx with hx | hx
      · exact Or.inl (hp.trans hx)
      · obtain rfl := Option.some.inj (ho.symm.trans hx)
        exact Or.inr (Or.inr hP)
    exact hd.trans (hinv.hands_reconcileGeneration _)
  have hs := h.storeResult o (cfg.safeResult r)
  rcases h.completeRemove_cases cfg now ho r q with ⟨-,he⟩ | ⟨-,-,he⟩ | ⟨-,hr,hg,hw,he⟩
  all_goals rw [he] at hc ⊢
  · exact hdrop _ rfl rfl hs.dropActive
  · exact hdrop _ rfl rfl (hs.applyResult r q .remove).dropActive
  · have hd : Cleanup.Hands P s.toCleanup
        (Registry.dropActive (Registry.satisfied cfg now s o r q)).toCleanup := by
      refine .of_dropped (fun x hx => ?_) rfl
      rcases hx with hx | hx
      · exact Or.inr (Or.inr (hc x hx))
      · obtain rfl := Option.some.inj (ho.symm.trans hx)
        exact Or.inr (Or.inr hP)
    exact hd.trans ((h.satisfied hr q hg hw).hands_reconcileGeneration _)

/-- The operation whose actor did not start leaves its slot. -/
theorem CleanupInv.hands_failActorStart (h : CleanupInv s) {o : ℕ} (hp : s.pendingRemove = some o)
    (ha : s.activeRemove = none) (t : ℕ) (e : String) (hP : P o) :
    Cleanup.Hands P s.toCleanup (Registry.failActorStart cfg now s o t e).toCleanup := by
  have hc : CleanupInv (recordResultLocked cfg now
      (Registry.abandonOperation s o t (cfg.safeResult (startFailure e))) (startFailure e)
      .local) := (h.abandonOperation o t _).of_eq rfl rfl fun _ => id
  have hd : Cleanup.Hands P s.toCleanup (recordResultLocked cfg now
      (Registry.abandonOperation s o t (cfg.safeResult (startFailure e))) (startFailure e)
      .local).toCleanup := by
    refine .of_dropped (fun x hx => ?_) rfl
    rcases hx with hx | hx
    · obtain rfl := Option.some.inj (hp.symm.trans hx)
      exact Or.inr (Or.inr hP)
    · simp [ha] at hx
  exact hd.trans (hc.hands_reconcileGeneration _)

theorem effect_hands (h : Rep s) (alive : ℕ → Bool) (t fresh : ℕ) (ch : Choice) {i : Instr}
    (hi : i.Owned s) : Cleanup.Hands
      (fun o => .setOperationDone o ∈ (effect cfg alive t fresh ch s i).push)
      s.toCleanup (effect cfg alive t fresh ch s i).state.toCleanup := by
  have hc := h.cleanup
  cases hm : i.movesCleanup with
  | false =>
    rw [effect_toCleanup cfg alive t fresh ch hm]
    exact .refl _
  | true =>
    cases i with
    | activatePreparedStart p =>
      simp only [effect]
      rcases activatePreparedStart_cases t h.lifecycle p with ⟨-,he⟩ | ⟨-,-,he⟩ <;> rw [he]
      · exact .refl _
      · refine .of_dropped (fun o ho => ?_) (by simp [publishWorker])
        rcases ho with ho | ho
        · exact Or.inr (Or.inr (by simp [show s.pendingRemove = some o from ho]))
        · exact Or.inr (Or.inl (by simpa [publishWorker] using ho))
    | stop remove =>
      cases remove with
      | false => simp [Instr.movesCleanup] at hm
      | true =>
        have hs : (stopLocalLocked (dropPrepared s)).toCleanup = s.toCleanup := by simp
        have hr := hc.of_eq hs (by simp) (by simp)
        rw [← hs]
        exact hands_requested (hr.requestOutcome (by simp))
    | shutdown deregister =>
      simp only [effect,shutdown]
      exact .of_slots (by simp) (by simp) (by simp)
    | shutdownRequest g =>
      simp only [effect,shutdownRequest]
      split
      · exact hands_requested (hc.requestOutcome (hi.2 (Eq.symm ‹_›)))
      · exact .refl _
    | joinRegister =>
      simp only [effect,joinRegister]
      exact .of_slots (by simp) (by simp) (by simp)
    | commit call q r =>
      cases call with
      | register k g =>
        have ha : ∀ k, Cleanup.Hands (fun o => .setOperationDone o ∈
            (effect cfg alive t fresh ch s (.commit (.register k g) q r)).push)
            s.toCleanup (acceptOneShot cfg ch.now s r q false (some g) k).toCleanup := fun k =>
          .of_slots (by simp) (by simp) (by simp)
        cases k with
        | none => exact ha none
        | some k =>
          exact (ha (some k)).trans
            ((hc.acceptOneShot cfg ch.now r q false (some g) (some k)).hands_release k)
      | remove | worker =>
        simp only [effect,commitRpc,commitRemove,commitWorker]
        exact .of_slots (by simp) (by simp) (by simp)
      | active o =>
        refine hc.hands_complete cfg ch.now hi r q ?_ fun p hp => ?_
        · simp [effect,commitRpc,commitActive]
        · simp [effect,commitRpc,commitActive,hp]
    | finishWorker c =>
      simp only [effect]
      rcases finishWorker_cases s t c with ⟨o,hp,ha,-,he⟩ | ⟨-,he⟩ <;> rw [he]
      · exact (hands_claimPending hp ha).trans (.of_slots (by simp) (by simp) (by simp))
      · exact .of_slots (by simp) (by simp) (by simp)
    | terminalRemove g =>
      simp only [effect,terminalRemove]
      split
      case h_7 hv =>
        have hsaw := terminalView_saw s g
        rw [hv] at hsaw
        exact hands_publishActive hsaw.2.2.1 g
      all_goals exact .refl _
    | schedulePendingRemove caller =>
      simp only [effect]
      rcases schedulePendingRemove_cases cfg ch.now s t fresh alive caller ch.startError with
        ⟨-,he⟩ | ⟨o,-,-,he⟩ | ⟨o,e,ho,-,he⟩ <;> rw [he]
      · exact .refl _
      · exact .of_slots (by simp) (by simp) (by simp)
      · obtain ⟨hp,ha,-⟩ := schedulable_eq_some ho
        have hs : Cleanup.Hands (fun x => .setOperationDone x ∈ Instr.setOperationDone o ::
            caller.failed) s.toCleanup (associateActor s o fresh).toCleanup :=
          .of_slots (by simp) (by simp) (by simp)
        exact hs.trans ((hc.associateActor o fresh).hands_failActorStart cfg ch.now
          (by simpa using hp) (by simpa using ha) fresh e List.mem_cons_self)
    | runCleanupActor o =>
      simp only [effect]
      rcases runCleanupActor_cases s o with ⟨ha,hp,he⟩ | ⟨-,he⟩ <;> rw [he]
      · exact hands_claimPending hp ha
      · exact .refl _
    | finishCleanupActor o =>
      simp only [effect]
      exact .of_slots (by simp) (by simp) (by simp)
    | setOperationDone o | setCoordinationDone k => exact .of_slots rfl rfl rfl
    | _ => simp [Instr.movesCleanup] at hm

end

/-! ### The Pending Remove -/

/-- Somebody other than a scheduler takes care of the Pending Remove `o`: the executor of the
Active, the stopping Worker of its generation or its own cleanup actor. -/
def Attended (s : State) (o : ℕ) : Prop :=
  s.activeRemove ≠ none ∨ s.stoppingWorkers.lookup s.generation ≠ none ∨
    (s.operations o).thread ≠ none

theorem Attended.congr {o : ℕ} (h : Attended s o) (ha : s'.activeRemove = s.activeRemove)
    (hs : s'.stoppingWorkers = s.stoppingWorkers) (hg : s'.generation = s.generation)
    (ho : (s'.operations o).thread = (s.operations o).thread) : Attended s' o := by
  unfold Attended
  rwa [ha,hs,hg,ho]

/-- A step of another instruction keeps the Pending Remove as it is. -/
structure Leaves (s s' : State) (o : ℕ) : Prop where
  pending : s.pendingRemove = some o
  attended : Attended s o → Attended s' o

theorem Leaves.congr {o : ℕ} (ho : s'.pendingRemove = some o)
    (hp : s'.pendingRemove = s.pendingRemove) (ha : s'.activeRemove = s.activeRemove)
    (hs : s'.stoppingWorkers = s.stoppingWorkers) (hg : s'.generation = s.generation)
    (hop : s'.operations = s.operations) : Leaves s s' o :=
  ⟨hp ▸ ho,fun h => h.congr ha hs hg (by rw [hop])⟩

theorem Leaves.trans {s'' : State} {o : ℕ} (h : Leaves s s' o) (h' : Leaves s' s'' o) :
    Leaves s s'' o := ⟨h.pending,h'.attended ∘ h.attended⟩

/-- Reconciling without an operation to schedule touches no Pending Remove. -/
theorem leaves_reconciled {k o : ℕ} {p : State × Option ℕ} (h : Reconciled s k p)
    (ho : p.1.pendingRemove = some o) : p.2 ≠ none ∨ Leaves s p.1 o := by
  cases h with
  | waiting | covered | dropped => exact Or.inr (.congr ho rfl rfl rfl rfl rfl)
  | marked | created => exact Or.inl (by simp)

theorem leaves_requested {o : ℕ} {p : State × Option ℕ} (h : Requested s p)
    (ho : p.1.pendingRemove = some o) : p.2 ≠ none ∨ Leaves s p.1 o := by
  cases h with
  | coordinated k p _ hr =>
    refine (leaves_reconciled hr ho).imp_right fun hl => ?_
    exact ⟨hl.pending,fun ha => hl.attended (ha.congr rfl rfl rfl rfl)⟩
  | notOwed => exact Or.inr (.congr ho rfl rfl rfl rfl rfl)
  | marked | created => exact Or.inl (by simp)

theorem CleanupInv.leaves_release (h : CleanupInv s) (k : ℕ) {o : ℕ}
    (ho : (Registry.releaseCoordination s k).1.pendingRemove = some o) :
    (Registry.releaseCoordination s k).2.2 ≠ none ∨
      Leaves s (Registry.releaseCoordination s k).1 o := by
  have hl : s.pendingRemove = some o → Leaves s (Registry.leaveCoordination s k) o :=
    fun hp => .congr hp rfl rfl rfl rfl rfl
  rw [releaseCoordination_eq] at ho ⊢
  by_cases hk : s.registerCoordination = some k
  · simp only [if_pos hk] at ho ⊢
    refine (leaves_reconciled ((h.leaveCoordination k).reconcile hk) ho).imp_right fun hr => ?_
    exact (hl hr.pending).trans hr
  · simp only [if_neg hk] at ho ⊢
    exact Or.inr (hl ho)

/-- An operation to schedule is Pending. -/
theorem Reconciled.pending_of_some {k : ℕ} {p : State × Option ℕ} (h : Reconciled s k p)
    (hne : p.2 ≠ none) : p.1.pendingRemove ≠ none := by
  cases h with
  | waiting | covered | dropped => exact absurd rfl hne
  | marked o _ _ ho => simp [markRequested,ho]
  | created => simp [createPending]

theorem Requested.pending_of_some {p : State × Option ℕ} (h : Requested s p)
    (hne : p.2 ≠ none) : p.1.pendingRemove ≠ none := by
  cases h with
  | coordinated k p _ hr => exact hr.pending_of_some hne
  | notOwed => exact absurd rfl hne
  | marked o _ ho => simp [markRequested,ho]
  | created => simp [createPending]

/-- A failed start leaves no Pending Remove: an unfinished coordination without registers has
requested its cleanup once already. -/
theorem Rep.failActorStart_pending (h : Rep s) (o t : ℕ) (e : String) :
    (Registry.failActorStart cfg now s o t e).pendingRemove = none := by
  have hc : CleanupInv (recordResultLocked cfg now
      (abandonOperation s o t (cfg.safeResult (startFailure e))) (startFailure e) .local) :=
    (h.cleanup.abandonOperation o t _).of_eq rfl rfl fun _ => id
  unfold Registry.failActorStart
  dsimp only
  generalize hm : recordResultLocked cfg now
    (abandonOperation s o t (cfg.safeResult (startFailure e))) (startFailure e) .local = m at hc ⊢
  have hpend : m.pendingRemove = none := by rw [← hm]; rfl
  unfold Registry.reconcileGeneration
  split
  · rename_i k hk
    split
    · have hrec := hc.reconcile hk
      have hks : s.registerCoordination = some k := by rw [← hk,← hm]; rfl
      generalize reconcileRegisterCoordinationLocked m k = p at hrec ⊢
      cases hrec with
      | waiting | covered | dropped => exact hpend
      | marked _ _ _ ho => simp [hpend] at ho
      | created hin _ _ hne =>
        have hin' : (s.coordinations k).inflightCount = 0 := by rw [← hin,← hm]; rfl
        have hreq := (h.coordination k hks hin').2.1
        exact absurd (by rw [← hm]; exact hreq) hne
    · exact hpend
  · exact hpend

/-- A scheduler leaves a Pending Remove only where somebody takes care of it. -/
theorem Rep.schedule_attended (h : Rep s) (alive : ℕ → Bool) (t fresh : ℕ) (caller : Scheduler)
    (startError : Option String) {o : ℕ} (ho : (Registry.schedulePendingRemove cfg now alive s t
      fresh caller startError).state.pendingRemove = some o) :
    Attended (Registry.schedulePendingRemove cfg now alive s t fresh caller startError).state o := by
  rcases schedulePendingRemove_cases cfg now s t fresh alive caller startError with
    ⟨hn,he⟩ | ⟨o',hs,-,he⟩ | ⟨o',e,hs,-,he⟩ <;> rw [he] at ho ⊢
  · have hp : s.pendingRemove = some o := ho
    by_contra hna
    simp only [Attended,not_or,not_not] at hna
    obtain ⟨ha,hst,hth⟩ := hna
    rw [schedulable,hp] at hn
    rw [← (h.cleanup.pending o hp).2.2.1] at hst
    simp [Option.filter,ha,hth,hst] at hn
  · have hp := (schedulable_eq_some hs).1
    obtain rfl : o' = o := by simpa [hp] using ho
    right
    right
    simp [Registry.associateActor,State.updateOperation]
  · simp [(h.associateActor o' fresh).failActorStart_pending cfg now o' fresh e] at ho

/-- What a step leaves Pending is scheduled, taken care of, or as it was. -/
theorem effect_pending (h : Rep s) (alive : ℕ → Bool) (t fresh : ℕ) (ch : Choice) {i : Instr}
    (hi : i.Owned s) {o : ℕ}
    (ho : (effect cfg alive t fresh ch s i).state.pendingRemove = some o) :
    (∃ caller, .schedulePendingRemove caller ∈ (effect cfg alive t fresh ch s i).push) ∨
    Attended (effect cfg alive t fresh ch s i).state o ∨
    ((∀ caller, i ≠ .schedulePendingRemove caller) ∧
      Leaves s (effect cfg alive t fresh ch s i).state o) := by
  have hc := h.cleanup
  have hw : s.pendingRemove = some o → stopLocalLocked (dropPrepared s) = dropPrepared s := by
    intro hp
    simp [stopLocalLocked,dropPrepared,(hc.pending o hp).1]
  cases i with
  | prepareStart activate =>
    simp only [effect] at ho ⊢
    refine Or.inr (Or.inr ⟨by simp,?_⟩)
    rcases prepareStart_cases s t fresh activate ch.startError with
      he | ⟨e,he⟩ | ⟨-,he⟩ <;> rw [he] at ho ⊢ <;> exact .congr ho rfl rfl rfl rfl rfl
  | activatePreparedStart p =>
    simp only [effect] at ho ⊢
    rcases activatePreparedStart_cases t h.lifecycle p with ⟨-,he⟩ | ⟨-,-,he⟩ <;> rw [he] at ho ⊢
    · exact Or.inr (Or.inr ⟨by simp,.congr ho rfl rfl rfl rfl rfl⟩)
    · simp [publishWorker] at ho
  | cancelPreparedStart p =>
    simp only [effect] at ho ⊢
    refine Or.inr (Or.inr ⟨by simp,?_⟩)
    rcases cancelPreparedStart_cases s p with ⟨-,he⟩ | ⟨-,he⟩ <;> rw [he] at ho ⊢ <;>
      exact .congr ho rfl rfl rfl rfl rfl
  | settlePrepared p =>
    simp only [effect] at ho ⊢
    refine Or.inr (Or.inr ⟨by simp,?_⟩)
    rcases settlePrepared_cases s p with he | ⟨-,he⟩ | ⟨-,-,-,he⟩ <;> rw [he] at ho ⊢ <;>
      exact .congr ho rfl rfl rfl rfl rfl
  | stop remove =>
    cases remove with
    | false =>
      have hp : s.pendingRemove = some o := by simpa [effect,stop,stopSection] using ho
      refine Or.inr (Or.inr ⟨by simp,?_⟩)
      simp only [effect,stop,stopSection,hw hp] at ho ⊢
      exact .congr ho rfl rfl rfl rfl rfl
    | true =>
      have hs : CleanupInv (stopLocalLocked (dropPrepared s)) :=
        hc.of_eq (by simp) (by simp) (by simp)
      simp only [effect,stop,stopSection] at ho ⊢
      rcases leaves_requested (hs.requestOutcome (by simp)) ho with hop | hl
      · obtain ⟨x,hx⟩ := Option.ne_none_iff_exists'.mp hop
        exact Or.inl ⟨.stop,by simp [scheduleOrClose,hx]⟩
      · have hp : s.pendingRemove = some o := by simpa using hl.pending
        have hd : Leaves s (dropPrepared s) o := .congr hp rfl rfl rfl rfl rfl
        simp only [if_true,hw hp] at hl ⊢
        exact Or.inr (Or.inr ⟨by simp,hd.trans hl⟩)
  | shutdown deregister =>
    have hp : s.pendingRemove = some o := by simpa [effect,shutdown] using ho
    refine Or.inr (Or.inr ⟨by simp,hp,fun ha => ?_⟩)
    have hst : (shutdownLocal cfg s deregister).toLifecycle =
        (stopLocalLocked (dropPrepared s)).toLifecycle := by simp
    rw [hw hp] at hst
    refine ha.congr (by simp [effect,shutdown]) ?_ ?_ (by simp [effect,shutdown])
    · simp only [effect,shutdown]
      rw [hst]
      rfl
    · simp only [effect,shutdown]
      rw [hst]
      rfl
  | shutdownRequest g =>
    simp only [effect,shutdownRequest] at ho ⊢
    split at ho
    · rw [if_pos ‹_›]
      rcases leaves_requested (hc.requestOutcome (hi.2 (Eq.symm ‹_›))) ho with hop | hl
      · obtain ⟨x,hx⟩ := Option.ne_none_iff_exists'.mp hop
        exact Or.inl ⟨.shutdown,by simp [scheduleFor,hx]⟩
      · exact Or.inr (Or.inr ⟨by simp,hl⟩)
    · rw [if_neg ‹_›]
      exact Or.inr (Or.inr ⟨by simp,.congr ho rfl rfl rfl rfl rfl⟩)
  | schedulePendingRemove caller =>
    exact Or.inr (Or.inl (h.schedule_attended cfg ch.now alive t fresh caller ch.startError ho))
  | joinRegister =>
    simp only [effect,joinRegister] at ho ⊢
    exact Or.inr (Or.inr ⟨by simp,.congr ho (by simp) (by simp) (by simp) (by simp) (by simp)⟩)
  | commit call q r =>
    cases call with
    | register k g =>
      have hl : ∀ k, (acceptOneShot cfg ch.now s r q false (some g) k).pendingRemove = some o →
          Leaves s (acceptOneShot cfg ch.now s r q false (some g) k) o := fun k hk =>
        .congr hk (by simp) (by simp) (by simp) (by simp) (by simp)
      cases k with
      | none => exact Or.inr (Or.inr ⟨by simp,hl none ho⟩)
      | some k =>
        simp only [effect,commitRpc,commitRegister] at ho ⊢
        rcases (hc.acceptOneShot cfg ch.now r q false (some g) (some k)).leaves_release k ho with
          hop | hr
        · obtain ⟨x,hx⟩ := Option.ne_none_iff_exists'.mp hop
          exact Or.inl ⟨.quiet,by simp [scheduleFor,hx]⟩
        · exact Or.inr (Or.inr ⟨by simp,(hl (some k) hr.pending).trans hr⟩)
    | remove | worker =>
      simp only [effect,commitRpc,commitRemove,commitWorker] at ho ⊢
      exact Or.inr (Or.inr ⟨by simp,.congr ho (by simp) (by simp) (by simp) (by simp) (by simp)⟩)
    | active o' => exact Or.inl ⟨.quiet,by simp [effect,commitRpc,commitActive]⟩
  | finishWorker c =>
    simp only [effect] at ho ⊢
    rcases finishWorker_cases s t c with ⟨x,-,-,-,he⟩ | ⟨-,he⟩ <;> rw [he] at ho ⊢
    · simp [claimPending] at ho
    · exact Or.inl ⟨.quiet,by simp⟩
  | terminalRemove g =>
    simp only [effect,terminalRemove] at ho ⊢
    split at ho
    case h_7 hv => simp [(h.of_own hv).2.2.1] at ho
    all_goals
      refine Or.inr (Or.inr ⟨by simp,?_⟩)
      simp only [*]
      exact .congr ho rfl rfl rfl rfl rfl
  | runCleanupActor x =>
    simp only [effect] at ho ⊢
    rcases runCleanupActor_cases s x with ⟨-,-,he⟩ | ⟨-,he⟩ <;> rw [he] at ho ⊢
    · simp [claimPending] at ho
    · exact Or.inr (Or.inr ⟨by simp,.congr ho rfl rfl rfl rfl rfl⟩)
  | finishCleanupActor x => exact Or.inl ⟨.quiet,by simp [effect]⟩
  | setOperationDone x =>
    refine Or.inr (Or.inr ⟨by simp,ho,fun ha => ha.congr rfl rfl rfl ?_⟩)
    by_cases hx : o = x <;> simp [effect,State.updateOperation,hx]
  | runWorker c | workerLoop c | recheckWorker c | performWorkerRegistry c =>
    simp only [effect] at ho ⊢
    refine Or.inr (Or.inr ⟨by simp,?_⟩)
    rcases guardCurrent_cases s c _ with ⟨-,he⟩ | ⟨-,he⟩ <;> rw [he] at ho ⊢ <;>
      exact .congr ho rfl rfl rfl rfl rfl
  | network call =>
    simp only [effect] at ho ⊢
    refine Or.inr (Or.inr ⟨by simp,?_⟩)
    rcases enterNetwork_cases s t call with ⟨-,he⟩ | ⟨c,-,-,he⟩ <;> rw [he] at ho ⊢ <;>
      exact .congr ho rfl rfl rfl rfl rfl
  | removeOnce =>
    simp only [effect] at ho ⊢
    refine Or.inr (Or.inr ⟨by simp,?_⟩)
    rcases removeOnce_cases s t with ⟨-,he⟩ | ⟨-,he⟩ <;> rw [he] at ho ⊢ <;>
      exact .congr ho rfl rfl rfl rfl rfl
  | maybeCloseLogs =>
    refine Or.inr (Or.inr ⟨by simp,?_⟩)
    simp only [effect] at ho ⊢
    split at ho <;> simp only [*] <;> exact .congr ho rfl rfl rfl rfl rfl
  | _ => exact Or.inr (Or.inr ⟨by simp,.congr ho rfl rfl rfl rfl rfl⟩)

/-! ### Register coordinations -/

/-- A published coordination is done or counts a register. -/
def Accounted (s : State) (k : ℕ) : Prop :=
  (s.coordinations k).doneEvent = true ∨ 0 < (s.coordinations k).inflightCount

theorem Accounted.congr {k : ℕ} (h : Accounted s k)
    (hin : (s'.coordinations k).inflightCount = (s.coordinations k).inflightCount)
    (hd : (s'.coordinations k).doneEvent = (s.coordinations k).doneEvent) : Accounted s' k := by
  unfold Accounted
  rwa [hin,hd]

theorem accounted_enter {k k' : ℕ} (h : k' = k ∨ Accounted s k') :
    Accounted (enterCoordination s k) k' := by
  by_cases hk : k' = k
  · subst hk
    exact Or.inr (by simp [enterCoordination,State.updateCoordination])
  · exact (h.resolve_left hk).congr (by simp [enterCoordination,State.updateCoordination,hk])
      (by simp [enterCoordination,State.updateCoordination,hk])

theorem CleanupInv.accounted_join (h : CleanupInv s) {k : ℕ}
    (hk : k < (Registry.joinRegisterCoordination s).1.nextCoordination)
    (hc : k < s.nextCoordination → Accounted s k) :
    Accounted (Registry.joinRegisterCoordination s).1 k := by
  rcases h.join_cases with ⟨k',-,-,he⟩ | ⟨k',-,-,he⟩ | ⟨-,he⟩ <;> rw [he] at hk ⊢
  · exact hc hk
  · exact accounted_enter (Or.inr (hc hk))
  · have hlt : k < s.nextCoordination + 1 := hk
    by_cases hn : k = s.nextCoordination
    · exact accounted_enter (Or.inl hn)
    · refine accounted_enter (Or.inr ((hc (by omega)).congr ?_ ?_)) <;>
        simp [Registry.openCoordination,hn]

/-- The last counted register sets the Event of its coordination. -/
theorem accounted_release {k k' : ℕ} (h : Accounted s k') :
    Accounted (releaseCoordination s k).1 k' ∨ (k' = k ∧ (releaseCoordination s k).2.1 = true) := by
  have hco := (releaseCoordination_frame s k).2.2.2.2.2.2.2.2.1
  have hb : (releaseCoordination s k).2.1 = decide ((s.coordinations k).inflightCount - 1 = 0) := by
    rw [releaseCoordination_eq]
  unfold Accounted at h ⊢
  rw [hco,hb]
  by_cases hk : k' = k
  · subst hk
    simp only [leaveCoordination,State.updateCoordination,Function.update_self,decide_eq_true_eq,
      true_and]
    omega
  · simpa [leaveCoordination,State.updateCoordination,hk] using h

theorem effect_accounted (h : Rep s) (alive : ℕ → Bool) (t fresh : ℕ) (ch : Choice) {i : Instr}
    {k : ℕ} (hk : k < (effect cfg alive t fresh ch s i).state.nextCoordination)
    (hc : k < s.nextCoordination → Accounted s k) :
    Accounted (effect cfg alive t fresh ch s i).state k ∨
      .setCoordinationDone k ∈ (effect cfg alive t fresh ch s i).push := by
  have hframe : ∀ s' : State, s'.nextCoordination = s.nextCoordination →
      (s'.coordinations k).inflightCount = (s.coordinations k).inflightCount →
      (s'.coordinations k).doneEvent = (s.coordinations k).doneEvent →
      k < s'.nextCoordination → Accounted s' k := fun s' hn hin hd hk =>
    (hc (hn ▸ hk)).congr hin hd
  cases hm : i.movesCleanup with
  | false =>
    have he := effect_toCleanup cfg (s := s) alive t fresh ch hm
    exact Or.inl (hframe _ (by rw [he]) (by rw [he]) (by rw [he]) hk)
  | true =>
    cases i with
    | activatePreparedStart p =>
      left
      simp only [effect] at hk ⊢
      rcases activatePreparedStart_cases t h.lifecycle p with ⟨-,he⟩ | ⟨-,-,he⟩ <;> rw [he] at hk ⊢
      · exact hc hk
      · exact hframe _ (by simp [publishWorker]) (by simp [publishWorker])
          (by simp [publishWorker]) hk
    | stop remove =>
      cases remove with
      | false => simp [Instr.movesCleanup] at hm
      | true =>
        refine Or.inl (hframe _ ?_ ?_ ?_ hk) <;> simp [effect,stop,stopSection]
    | shutdown deregister =>
      refine Or.inl (hframe _ ?_ ?_ ?_ hk) <;> simp [effect,shutdown]
    | shutdownRequest g =>
      left
      simp only [effect,shutdownRequest] at hk ⊢
      split at hk
      · rw [if_pos ‹_›]
        exact hframe _ (by simp) (by simp) (by simp) hk
      · rw [if_neg ‹_›]
        exact hc hk
    | joinRegister => exact Or.inl (h.cleanup.accounted_join hk hc)
    | commit call q r =>
      cases call with
      | register k' g =>
        have ha : ∀ x, k < s.nextCoordination →
            Accounted (acceptOneShot cfg ch.now s r q false (some g) x) k := fun x hk =>
          (hc hk).congr (by simp) (by simp)
        cases k' with
        | none => exact Or.inl (ha none (by simpa [effect,commitRpc,commitRegister] using hk))
        | some k' =>
          have hlt : k < s.nextCoordination := by
            simpa [effect,commitRpc,commitRegister] using hk
          refine (accounted_release (ha (some k') hlt)).imp_right fun hrel => ?_
          simp only [effect,commitRpc,commitRegister]
          simp [hrel.1,hrel.2]
      | remove | worker | active =>
        refine Or.inl (hframe _ ?_ ?_ ?_ hk) <;>
          simp [effect,commitRpc,commitRemove,commitWorker,commitActive]
    | finishWorker c =>
      left
      simp only [effect] at hk ⊢
      rcases finishWorker_cases s t c with ⟨o,-,-,-,he⟩ | ⟨-,he⟩ <;> rw [he] at hk ⊢ <;>
        exact hframe _ (by simp) (by simp) (by simp) hk
    | terminalRemove g =>
      left
      revert hk
      simp only [effect,terminalRemove]
      split <;> intro hk <;> exact hframe _ (by simp) (by simp) (by simp) hk
    | schedulePendingRemove caller =>
      left
      simp only [effect] at hk ⊢
      rcases schedulePendingRemove_cases cfg ch.now s t fresh alive caller ch.startError with
        ⟨-,he⟩ | ⟨o,-,-,he⟩ | ⟨o,e,-,-,he⟩ <;> rw [he] at hk ⊢ <;>
        exact hframe _ (by simp) (by simp) (by simp) hk
    | runCleanupActor o =>
      left
      simp only [effect] at hk ⊢
      rcases runCleanupActor_cases s o with ⟨-,-,he⟩ | ⟨-,he⟩ <;> rw [he] at hk ⊢ <;>
        exact hframe _ (by simp) (by simp) (by simp) hk
    | finishCleanupActor o =>
      refine Or.inl (hframe _ ?_ ?_ ?_ hk) <;> simp [effect]
    | setOperationDone o => exact Or.inl (hframe _ rfl rfl rfl hk)
    | setCoordinationDone k' =>
      left
      by_cases hkk : k = k'
      · exact Or.inl (by simp [effect,State.updateCoordination,hkk])
      · exact hframe _ rfl (by simp [effect,State.updateCoordination,hkk])
          (by simp [effect,State.updateCoordination,hkk]) hk
    | _ => simp [Instr.movesCleanup] at hm

/-! ### Prepared tokens -/

/-- A token that is still Prepared or whose thread has been woken. -/
def Woken (s : State) (p : ℕ) : Prop :=
  s.preparedStart = some p ∨ (s.prepareds p).activateEvent = true

theorem mem_wake {p : ℕ} (h : s.preparedStart = some p) :
    Instr.setActivate p ∈ wakeCancelled s s.preparedStart := by
  simp [wakeCancelled,h]

/-- The thread of a token that leaves its slot is going to be woken. -/
theorem effect_woken (h : LifecycleInv s) (alive : ℕ → Bool) (t fresh : ℕ) (ch : Choice)
    {i : Instr} {p : ℕ} (hp : p < (effect cfg alive t fresh ch s i).state.nextPrepared)
    (hw : p < s.nextPrepared → Woken s p) :
    Woken (effect cfg alive t fresh ch s i).state p ∨
      .setActivate p ∈ (effect cfg alive t fresh ch s i).push := by
  have hg := effect_lifecycle_grows cfg h alive t fresh ch i
  have hsame : (effect cfg alive t fresh ch s i).state.nextPrepared = s.nextPrepared →
      (s.preparedStart = some p → (effect cfg alive t fresh ch s i).state.preparedStart = some p ∨
        .setActivate p ∈ (effect cfg alive t fresh ch s i).push) →
      Woken (effect cfg alive t fresh ch s i).state p ∨
        .setActivate p ∈ (effect cfg alive t fresh ch s i).push := by
    intro hn hkeep
    have hlt : p < s.nextPrepared := hn ▸ hp
    rcases hw hlt with hs | ha
    · exact (hkeep hs).imp_left Or.inl
    · exact Or.inl (Or.inr (hg.prepareds p hlt ha))
  cases hm : i.movesLifecycle with
  | false =>
    have he := effect_toLifecycle cfg s t fresh alive ch hm
    exact hsame (by rw [he]) fun hs => Or.inl (by rw [he]; exact hs)
  | true =>
    cases i with
    | prepareStart activate =>
      simp only [effect] at hp hsame ⊢
      rcases prepareStart_cases s t fresh activate ch.startError with
        he | ⟨e,he⟩ | ⟨hr,he⟩ <;> rw [he] at hp hsame ⊢
      · exact hsame rfl Or.inl
      · exact hsame rfl Or.inl
      · have hlt : p < s.nextPrepared + 1 := hp
        by_cases hn : p = s.nextPrepared
        · exact Or.inl (Or.inl (by rw [hn]; rfl))
        · refine Or.inl (Or.inr ?_)
          rcases hw (by omega) with hs | ha
          · simp [prepareRefused,hs] at hr
          · simpa [publishPrepared,hn] using ha
    | activatePreparedStart x =>
      simp only [effect] at hp hsame ⊢
      rcases activatePreparedStart_cases t h x with ⟨-,he⟩ | ⟨hx,-,he⟩ <;> rw [he] at hp hsame ⊢
      · exact hsame rfl Or.inl
      · refine hsame (by simp [publishWorker]) fun hs => ?_
        obtain rfl := Option.some.inj (hx.symm.trans hs)
        exact Or.inr (by simp)
    | cancelPreparedStart x =>
      simp only [effect] at hp hsame ⊢
      rcases cancelPreparedStart_cases s x with ⟨-,he⟩ | ⟨hx,he⟩ <;> rw [he] at hp hsame ⊢
      · exact hsame rfl Or.inl
      · refine hsame (by simp) fun hs => ?_
        obtain rfl := Option.some.inj (hx.symm.trans hs)
        exact Or.inr (by simp)
    | settlePrepared x =>
      simp only [effect] at hp hsame ⊢
      rcases settlePrepared_cases s x with he | ⟨hx,he⟩ | ⟨-,-,-,he⟩ <;> rw [he] at hp hsame ⊢
      · exact hsame rfl Or.inl
      · refine hsame (by simp) fun hs => ?_
        obtain rfl := Option.some.inj (hx.symm.trans hs)
        exact Or.inr (by simp)
      · exact hsame rfl Or.inl
    | setStop c => exact hsame rfl Or.inl
    | setActivate x => exact hsame rfl Or.inl
    | stop remove =>
      refine hsame (by cases remove <;> simp [effect,stop,stopSection]) fun hs => Or.inr ?_
      cases remove <;> exact List.mem_append_left _ (mem_wake hs)
    | shutdown deregister =>
      refine hsame (by simp [effect,shutdown]) fun hs => Or.inr ?_
      exact List.mem_append_left _ (List.mem_append_left _ (mem_wake hs))
    | finishWorker c =>
      simp only [effect] at hp hsame ⊢
      rcases finishWorker_cases s t c with ⟨o,-,-,-,he⟩ | ⟨-,he⟩ <;> rw [he] at hp hsame ⊢ <;>
        exact hsame (by simp) fun hs => Or.inl (by simpa using hs)
    | _ => simp [Instr.movesLifecycle] at hm

/-! ### The managed logs -/

/-- Nothing of the service is left that the managed logs are kept open for. -/
structure Vacant (s : State) : Prop where
  prepared : s.preparedStart = none
  worker : s.worker = none
  stopping : s.stoppingWorkers = ∅
  active : s.activeRemove = none
  pending : s.pendingRemove = none
  actors : s.cleanupActors = ∅
  coordination : s.registerCoordination = none

theorem closesLogs_iff :
    closesLogs s = true ↔ s.closeLogsWhenIdle = true ∧ Vacant s ∧ s.logsClosed = false := by
  have hst : s.stoppingWorkers.entries.isEmpty = true ↔ s.stoppingWorkers = ∅ := by
    rw [List.isEmpty_iff]
    exact ⟨fun h => AList.ext h,fun h => by rw [h]; rfl⟩
  simp only [closesLogs,Bool.and_eq_true,Option.isNone_iff_eq_none,hst,decide_eq_true_eq,
    Bool.not_eq_true']
  constructor
  · rintro ⟨⟨⟨⟨⟨⟨⟨⟨h₀,h₁⟩,h₂⟩,h₃⟩,h₄⟩,h₅⟩,h₆⟩,h₇⟩,h₈⟩
    exact ⟨h₀,⟨h₁,h₂,h₃,h₄,h₅,h₆,h₇⟩,h₈⟩
  · rintro ⟨h₀,⟨h₁,h₂,h₃,h₄,h₅,h₆,h₇⟩,h₈⟩
    exact ⟨⟨⟨⟨⟨⟨⟨⟨h₀,h₁⟩,h₂⟩,h₃⟩,h₄⟩,h₅⟩,h₆⟩,h₇⟩,h₈⟩

theorem Vacant.congr (h : Vacant s') (hl : s'.toLifecycle = s.toLifecycle)
    (ha : s'.activeRemove = s.activeRemove) (hp : s'.pendingRemove = s.pendingRemove)
    (hac : s'.cleanupActors = s.cleanupActors)
    (hk : s'.registerCoordination = s.registerCoordination) : Vacant s := by
  obtain ⟨h₁,h₂,h₃,h₄,h₅,h₆,h₇⟩ := h
  rw [hl] at h₁ h₂ h₃
  exact ⟨h₁,h₂,h₃,ha ▸ h₄,hp ▸ h₅,hac ▸ h₆,hk ▸ h₇⟩

/-- `stop` and `remove_executor` let the error of `Thread.start` through. -/
def Scheduler.propagates : Scheduler → Bool
  | .quiet | .shutdown => false
  | .stop | .observer .. => true

/-- The error of `Thread.start` is about to leave `stop` or `remove_executor`. -/
def Instr.raisesStartError (s : State) (alive : ℕ → Bool) (ch : Choice) : Instr → Bool
  | .schedulePendingRemove caller =>
    caller.propagates && (schedulable alive s).isSome && ch.startError.isSome
  | _ => false

/-- The private cancellations of `init_app`. -/
def Instr.cancels : Instr → Bool
  | .cancelPreparedStart _ | .settlePrepared _ => true
  | _ => false

/-- A step that empties the last slot goes on to check the logs, with three exceptions. -/
theorem effect_vacant (h : Rep s) (alive : ℕ → Bool) (t fresh : ℕ) (ch : Choice) {i : Instr}
    (hi : i.Owned s) (hv : Vacant (effect cfg alive t fresh ch s i).state) :
    Vacant s ∨ .maybeCloseLogs ∈ (effect cfg alive t fresh ch s i).push ∨ i.cancels = true ∨
      i.finalizes = true ∨ i.raisesStartError s alive ch = true := by
  have hc := h.cleanup
  cases i with
  | prepareStart activate =>
    simp only [effect] at hv ⊢
    rcases prepareStart_cases s t fresh activate ch.startError with
      he | ⟨e,he⟩ | ⟨-,he⟩ <;> rw [he] at hv ⊢
    · exact Or.inl hv
    · exact Or.inl hv
    · simpa [publishPrepared] using hv.prepared
  | activatePreparedStart p =>
    simp only [effect] at hv ⊢
    rcases activatePreparedStart_cases t h.lifecycle p with ⟨-,he⟩ | ⟨-,-,he⟩ <;> rw [he] at hv ⊢
    · exact Or.inl hv
    · simpa [publishWorker] using hv.worker
  | cancelPreparedStart | settlePrepared => exact Or.inr (Or.inr (Or.inl rfl))
  | shutdownRequest => exact Or.inr (Or.inr (Or.inr (Or.inl rfl)))
  | stop remove =>
    right
    left
    have hnone : (stopSection s remove).2.2 = none := by
      cases remove with
      | false => rfl
      | true =>
        have hs : CleanupInv (stopLocalLocked (dropPrepared s)) :=
          hc.of_eq (by simp) (by simp) (by simp)
        have hr := hs.requestOutcome (by simp)
        by_contra hne
        exact hr.pending_of_some hne hv.pending
    simp only [effect,stop,hnone,scheduleOrClose]
    simp
  | shutdown deregister => exact Or.inr (Or.inl (by simp [effect,shutdown]))
  | joinRegister =>
    have hk := hv.coordination
    simp only [effect,joinRegister] at hk
    rcases hc.join_cases with ⟨k,hk',-,he⟩ | ⟨k,hk',-,he⟩ | ⟨-,he⟩ <;> rw [he] at hk
    · simp [hk'] at hk
    · simp [enterCoordination,State.updateCoordination,hk'] at hk
    · simp [enterCoordination,State.updateCoordination,openCoordination] at hk
  | commit call q r =>
    cases call with
    | register k g =>
      cases k with
      | none => exact Or.inl (hv.congr (by simp [effect,commitRpc,commitRegister])
          (by simp [effect,commitRpc,commitRegister]) (by simp [effect,commitRpc,commitRegister])
          (by simp [effect,commitRpc,commitRegister]) (by simp [effect,commitRpc,commitRegister]))
      | some k => exact Or.inr (Or.inl (by simp [effect,commitRpc,commitRegister]))
    | remove | worker =>
      simp only [effect,commitRpc,commitRemove,commitWorker] at hv
      exact Or.inl (hv.congr (by simp) (by simp) (by simp) (by simp) (by simp))
    | active o => exact Or.inr (Or.inl (by simp [effect,commitRpc,commitActive]))
  | finishWorker c =>
    right
    left
    simp only [effect]
    rcases finishWorker_cases s t c with ⟨o,-,-,-,he⟩ | ⟨-,he⟩ <;> rw [he] <;> simp
  | terminalRemove g =>
    simp only [effect,terminalRemove] at hv ⊢
    split at hv
    case h_7 => simpa [publishActive] using hv.active
    all_goals exact Or.inl hv
  | schedulePendingRemove caller =>
    simp only [effect] at hv ⊢
    rcases schedulePendingRemove_cases cfg ch.now s t fresh alive caller ch.startError with
      ⟨-,he⟩ | ⟨o,-,-,he⟩ | ⟨o,e,ho,hse,he⟩ <;> rw [he] at hv ⊢
    · exact Or.inl hv
    · exact absurd hv.actors (Finset.insert_ne_empty _ _)
    · cases caller with
      | quiet => exact Or.inr (Or.inl (by simp [Scheduler.failed]))
      | shutdown => exact Or.inr (Or.inr (Or.inr (Or.inl rfl)))
      | stop | observer =>
        exact Or.inr (Or.inr (Or.inr (Or.inr (by
          simp [Instr.raisesStartError,Scheduler.propagates,ho,hse]))))
  | runCleanupActor o =>
    simp only [effect] at hv ⊢
    rcases runCleanupActor_cases s o with ⟨-,-,he⟩ | ⟨-,he⟩ <;> rw [he] at hv ⊢
    · simpa [claimPending] using hv.active
    · exact Or.inl hv
  | finishCleanupActor o => exact Or.inr (Or.inl (by simp [effect]))
  | runWorker c | workerLoop c | recheckWorker c | performWorkerRegistry c =>
    simp only [effect] at hv ⊢
    rcases guardCurrent_cases s c _ with ⟨-,he⟩ | ⟨-,he⟩ <;> rw [he] at hv ⊢ <;> exact Or.inl hv
  | network call =>
    simp only [effect] at hv ⊢
    rcases enterNetwork_cases s t call with ⟨-,he⟩ | ⟨c,-,-,he⟩ <;> rw [he] at hv ⊢ <;>
      exact Or.inl (hv.congr rfl rfl rfl rfl rfl)
  | removeOnce =>
    simp only [effect] at hv ⊢
    rcases removeOnce_cases s t with ⟨-,he⟩ | ⟨-,he⟩ <;> rw [he] at hv ⊢ <;> exact Or.inl hv
  | maybeCloseLogs =>
    simp only [effect] at hv ⊢
    split at hv <;> exact Or.inl (hv.congr rfl rfl rfl rfl rfl)
  | setStop | setActivate =>
    exact Or.inl ⟨hv.prepared,hv.worker,hv.stopping,hv.active,hv.pending,hv.actors,
      hv.coordination⟩
  | _ => exact Or.inl (hv.congr rfl rfl rfl rfl rfl)

/-- Only `shutdown` asks for the logs to be closed, and only the check closes them. -/
theorem effect_logClosing (alive : ℕ → Bool) (t fresh : ℕ) (ch : Choice) {i : Instr}
    (hm : i ≠ .maybeCloseLogs) (hs : ∀ b, i ≠ .shutdown b) :
    (effect cfg alive t fresh ch s i).state.toLogClosing = s.toLogClosing := by
  cases i with
  | prepareStart activate =>
    simp only [effect]
    rcases prepareStart_cases s t fresh activate ch.startError with
      he | ⟨e,he⟩ | ⟨-,he⟩ <;> rw [he]
    rfl
  | activatePreparedStart p =>
    simp only [effect,activatePreparedStart]
    split <;> simp
  | cancelPreparedStart p =>
    simp only [effect]
    rcases cancelPreparedStart_cases s p with ⟨-,he⟩ | ⟨-,he⟩ <;> rw [he]
    simp
  | settlePrepared p =>
    simp only [effect]
    rcases settlePrepared_cases s p with he | ⟨-,he⟩ | ⟨-,-,-,he⟩ <;> rw [he]
    simp
  | stop remove => cases remove <;> simp [effect,stop,stopSection]
  | shutdown b => exact absurd rfl (hs b)
  | shutdownRequest g =>
    simp only [effect,shutdownRequest]
    split <;> simp
  | runWorker c | workerLoop c | recheckWorker c | performWorkerRegistry c =>
    simp only [effect]
    rcases guardCurrent_cases s c _ with ⟨-,he⟩ | ⟨-,he⟩ <;> rw [he]
  | finishWorker c =>
    simp only [effect]
    rcases finishWorker_cases s t c with ⟨o,-,-,-,he⟩ | ⟨-,he⟩ <;> simp [he]
  | network call =>
    simp only [effect]
    rcases enterNetwork_cases s t call with ⟨-,he⟩ | ⟨c,-,-,he⟩ <;> rw [he]
  | commit call q r =>
    cases call with
    | register k g => cases k <;> simp [effect,commitRpc,commitRegister]
    | remove | worker | active =>
      simp [effect,commitRpc,commitRemove,commitWorker,commitActive]
  | joinRegister => simp [effect,joinRegister]
  | removeOnce =>
    simp only [effect]
    rcases removeOnce_cases s t with ⟨-,he⟩ | ⟨-,he⟩ <;> rw [he]
  | terminalRemove g =>
    simp only [effect,terminalRemove]
    split <;> simp
  | schedulePendingRemove caller =>
    simp only [effect]
    rcases schedulePendingRemove_cases cfg ch.now s t fresh alive caller ch.startError with
      ⟨-,he⟩ | ⟨o,-,-,he⟩ | ⟨o,e,-,-,he⟩ <;> simp [he]
  | runCleanupActor o =>
    simp only [effect]
    rcases runCleanupActor_cases s o with ⟨-,-,he⟩ | ⟨-,he⟩ <;> simp [he]
  | maybeCloseLogs => exact absurd rfl hm
  | _ => rfl

end FlaskXxlJob.Registry
