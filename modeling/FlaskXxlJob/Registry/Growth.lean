import FlaskXxlJob.Registry.Inversion

/-!
What only grows. No step takes back a generation, a name, the generation of a named object or a
stop flag, and each fills the Worker and Remove slots only in the ways listed here.
-/
namespace FlaskXxlJob.Registry
open FlaskXxlJob.Client Interleaving

/-- A later lifecycle. -/
structure Lifecycle.Grows (l l' : Lifecycle) : Prop where
  generation : l.generation ≤ l'.generation
  names : l.nextPrepared ≤ l'.nextPrepared
  contexts : ∀ c < l.nextPrepared, (l'.contexts c).generation = (l.contexts c).generation ∧
    ((l.contexts c).stopEvent = true → (l'.contexts c).stopEvent = true)
  waits : ∀ c < l.nextPrepared, l.preparedStart = some c ∨
    (l'.contexts c).waitRemoveEvent = (l.contexts c).waitRemoveEvent
  prepareds : ∀ p < l.nextPrepared,
    (l.prepareds p).activateEvent = true → (l'.prepareds p).activateEvent = true
  worker : ∀ c, l'.worker = some c → l.worker = some c ∨ l.generation < l'.generation
  prepared : ∀ p, l'.preparedStart = some p → l.preparedStart = some p ∨ l.nextPrepared ≤ p

/-- Later cleanup fields; the new operations are of generation `g`. -/
structure Cleanup.Grows (g : ℕ) (c c' : Cleanup) : Prop where
  operations : c.nextOperation ≤ c'.nextOperation
  coordinations : c.nextCoordination ≤ c'.nextCoordination
  operation : ∀ o < c.nextOperation,
    (c'.operations o).generation = (c.operations o).generation ∧
    ((c.operations o).doneEvent = true → (c'.operations o).doneEvent = true)
  fresh : ∀ o, c.nextOperation ≤ o → o < c'.nextOperation → (c'.operations o).generation = g
  coordination : ∀ k < c.nextCoordination,
    (c'.coordinations k).generation = (c.coordinations k).generation ∧
    ((c.coordinations k).cleanupRequested = true →
      (c'.coordinations k).cleanupRequested = true)
  unused : ∀ k, c'.nextCoordination ≤ k →
    (c'.coordinations k).inflightCount ≤ (c.coordinations k).inflightCount
  pending : ∀ o, c'.pendingRemove = some o → c.pendingRemove = some o ∨ c.nextOperation ≤ o
  active : ∀ o, c'.activeRemove = some o →
    c.activeRemove = some o ∨ c.pendingRemove = some o ∨ c.nextOperation ≤ o

namespace Lifecycle.Grows
variable {l l' l'' : Lifecycle}

theorem refl (l : Lifecycle) : l.Grows l :=
  ⟨le_rfl,le_rfl,fun _ _ => ⟨rfl,id⟩,fun _ _ => Or.inr rfl,fun _ _ => id,fun _ => Or.inl,
    fun _ => Or.inl⟩

theorem of_eq (h : l' = l) : l.Grows l' := h ▸ refl l

theorem trans (h : l.Grows l') (h' : l'.Grows l'') : l.Grows l'' where
  generation := h.generation.trans h'.generation
  names := h.names.trans h'.names
  contexts c hc := by
    obtain ⟨hg,hs⟩ := h.contexts c hc
    obtain ⟨hg',hs'⟩ := h'.contexts c (hc.trans_le h.names)
    exact ⟨hg'.trans hg,hs' ∘ hs⟩
  waits c hc := by
    rcases h.waits c hc with hp | hw
    · exact Or.inl hp
    · rcases h'.waits c (hc.trans_le h.names) with hp | hw'
      · exact (h.prepared c hp).elim Or.inl fun hle => absurd hc (not_lt.mpr hle)
      · exact Or.inr (hw'.trans hw)
  prepareds p hp := h'.prepareds p (hp.trans_le h.names) ∘ h.prepareds p hp
  worker c hc := by
    have hg := h.generation
    have hg' := h'.generation
    rcases h'.worker c hc with hc | hc
    · exact (h.worker c hc).imp_right fun hlt => by omega
    · exact Or.inr (by omega)
  prepared p hp := by
    rcases h'.prepared p hp with hp | hp
    · exact h.prepared p hp
    · exact Or.inr (h.names.trans hp)

end Lifecycle.Grows

namespace Cleanup.Grows
variable {g : ℕ} {c c' c'' : Cleanup}

theorem refl (c : Cleanup) : c.Grows g c :=
  ⟨le_rfl,le_rfl,fun _ _ => ⟨rfl,id⟩,fun _ h h' => absurd h (not_le.mpr h'),
    fun _ _ => ⟨rfl,id⟩,fun _ _ => le_rfl,fun _ => Or.inl,fun _ => Or.inl⟩

theorem of_eq (h : c' = c) : c.Grows g c' := by
  subst h
  exact refl c'

theorem trans (h : c.Grows g c') (h' : c'.Grows g c'') : c.Grows g c'' where
  operations := h.operations.trans h'.operations
  coordinations := h.coordinations.trans h'.coordinations
  operation o ho := by
    obtain ⟨hg,hd⟩ := h.operation o ho
    obtain ⟨hg',hd'⟩ := h'.operation o (ho.trans_le h.operations)
    exact ⟨hg'.trans hg,hd' ∘ hd⟩
  fresh o ho ho' := by
    rcases Nat.lt_or_ge o c'.nextOperation with hlt | hge
    · exact (h'.operation o hlt).1.trans (h.fresh o ho hlt)
    · exact h'.fresh o hge ho'
  coordination k hk := by
    obtain ⟨hg,hr⟩ := h.coordination k hk
    obtain ⟨hg',hr'⟩ := h'.coordination k (hk.trans_le h.coordinations)
    exact ⟨hg'.trans hg,hr' ∘ hr⟩
  unused k hk := (h'.unused k hk).trans (h.unused k (h'.coordinations.trans hk))
  pending o ho := by
    rcases h'.pending o ho with ho | ho
    · exact h.pending o ho
    · exact Or.inr (h.operations.trans ho)
  active o ho := by
    rcases h'.active o ho with ho | ho | ho
    · exact h.active o ho
    · exact Or.inr (h.pending o ho)
    · exact Or.inr (Or.inr (h.operations.trans ho))

end Cleanup.Grows

variable (cfg : Config) (now : String) {s : State}

/-! ### Lifecycle sections -/

theorem grows_updateContext (c : ℕ) {f : WorkerContext → WorkerContext}
    (hg : ∀ ctx, (f ctx).generation = ctx.generation)
    (hs : ∀ ctx, ctx.stopEvent = true → (f ctx).stopEvent = true)
    (hw : ∀ ctx, (f ctx).waitRemoveEvent = ctx.waitRemoveEvent) :
    s.toLifecycle.Grows (s.updateContext c f).toLifecycle := by
  refine ⟨le_rfl,le_rfl,fun d _ => ?_,fun d _ => Or.inr ?_,fun _ _ => id,fun _ => Or.inl,
    fun _ => Or.inl⟩
  · by_cases hd : d = c
    · subst hd
      simpa [State.updateContext,hg] using hs _
    · simp [State.updateContext,hd]
  · by_cases hd : d = c <;> simp [State.updateContext,hd,hw]

theorem grows_dropPrepared : s.toLifecycle.Grows (dropPrepared s).toLifecycle :=
  ⟨le_rfl,le_rfl,fun _ _ => ⟨rfl,id⟩,fun _ _ => Or.inr rfl,fun _ _ => id,fun _ => Or.inl,
    (fun _ h => by cases h)⟩

theorem grows_stopLocal : s.toLifecycle.Grows (stopLocalLocked s).toLifecycle := by
  unfold stopLocalLocked
  split
  · exact .refl _
  · rename_i c _
    have hd : s.toLifecycle.Grows { s.toLifecycle with
        worker := none
        stoppingWorkers := s.stoppingWorkers.insert (s.contexts c).generation c } :=
      ⟨le_rfl,le_rfl,fun _ _ => ⟨rfl,id⟩,fun _ _ => Or.inr rfl,fun _ _ => id,
        (fun _ h => by cases h),fun _ => Or.inl⟩
    exact hd.trans (grows_updateContext (s := { s with
      worker := none
      stoppingWorkers := s.stoppingWorkers.insert (s.contexts c).generation c }) c
      (fun _ => rfl) (fun _ _ => rfl) fun _ => rfl)

theorem grows_cancelPrepared (p : ℕ) : s.toLifecycle.Grows (cancelPrepared s p).toLifecycle := by
  refine (grows_dropPrepared (s := s)).trans ?_
  unfold cancelPrepared disownPrepared
  exact grows_updateContext _ (fun ctx => by split <;> rfl) (fun ctx => by split <;> exact id)
    fun ctx => by split <;> rfl

theorem grows_publishPrepared (t : ℕ) :
    s.toLifecycle.Grows (publishPrepared s t).toLifecycle := by
  refine ⟨le_rfl,Nat.le_succ _,fun c hc => ?_,fun c hc => Or.inr ?_,fun p hp => ?_,
    fun _ => Or.inl,fun p hp => Or.inr (Option.some.inj hp).le⟩
  · simp [publishPrepared,hc.ne]
  · simp [publishPrepared,hc.ne]
  · simp [publishPrepared,hp.ne]

theorem grows_commit {p : ℕ} (hp : s.preparedStart = some p)
    (hg : (s.contexts p).generation = s.generation + 1) :
    s.toLifecycle.Grows (waitForActive (publishWorker s p) p).toLifecycle := by
  have hother : ∀ c, c ≠ p →
      (waitForActive (publishWorker s p) p).contexts c = s.contexts c := by
    intro c hc
    unfold waitForActive
    split <;> simp [State.updateContext,publishWorker,hc]
  refine ⟨by simp [publishWorker,hg],by simp [publishWorker],fun c _ => ?_,fun c _ => ?_,
    fun q _ => by simp [publishWorker],fun _ _ => Or.inr (by simp [publishWorker,hg]),
    by simp [publishWorker]⟩
  · by_cases hc : c = p
    · subst hc
      unfold waitForActive
      split <;> simp [State.updateContext,publishWorker]
    · simp [hother c hc]
  · by_cases hc : c = p
    · exact Or.inl (hc ▸ hp)
    · exact Or.inr (by rw [hother c hc])

theorem grows_forgetWorker (c : ℕ) : s.toLifecycle.Grows (forgetWorker s c).toLifecycle := by
  have hd : s.toLifecycle.Grows { s.toLifecycle with
      stoppingWorkers := (forgetWorker s c).stoppingWorkers
      worker := (forgetWorker s c).worker } := by
    refine ⟨le_rfl,le_rfl,fun _ _ => ⟨rfl,id⟩,fun _ _ => Or.inr rfl,fun _ _ => id,
      fun d hd => Or.inl ?_,fun _ => Or.inl⟩
    by_cases hw : s.worker = some c
    · simp [hw] at hd
    · simpa [hw] using hd
  exact hd.trans (grows_updateContext (s := { s with
      stoppingWorkers := (forgetWorker s c).stoppingWorkers
      worker := (forgetWorker s c).worker }) c (fun _ => rfl) (fun _ => id) fun _ => rfl)

theorem effect_lifecycle_grows (h : LifecycleInv s) (alive : ℕ → Bool) (t fresh : ℕ)
    (ch : Choice) (i : Instr) :
    s.toLifecycle.Grows (effect cfg alive t fresh ch s i).state.toLifecycle := by
  cases hm : i.movesLifecycle with
  | false => exact .of_eq (effect_toLifecycle cfg s t fresh alive ch hm)
  | true =>
    cases i with
    | prepareStart activate =>
      simp only [effect]
      rcases prepareStart_cases s t fresh activate ch.startError with
        he | ⟨e,he⟩ | ⟨-,he⟩ <;> rw [he]
      · exact .refl _
      · exact .refl _
      · exact grows_publishPrepared fresh
    | activatePreparedStart p =>
      simp only [effect]
      rcases activatePreparedStart_cases t h p with ⟨-,he⟩ | ⟨hp,-,he⟩ <;> rw [he]
      · exact .refl _
      · exact grows_commit hp (h.prepared p hp).2.1
    | cancelPreparedStart p =>
      simp only [effect]
      rcases cancelPreparedStart_cases s p with ⟨-,he⟩ | ⟨-,he⟩ <;> rw [he]
      · exact .refl _
      · exact grows_cancelPrepared p
    | settlePrepared p =>
      simp only [effect]
      rcases settlePrepared_cases s p with he | ⟨-,he⟩ | ⟨-,-,-,he⟩ <;> rw [he]
      · exact .refl _
      · exact grows_cancelPrepared p
      · exact .refl _
    | setStop c => exact grows_updateContext c (fun _ => rfl) (fun _ _ => rfl) fun _ => rfl
    | setActivate p =>
      refine ⟨le_rfl,le_rfl,fun _ _ => ⟨rfl,id⟩,fun _ _ => Or.inr rfl,fun q _ => ?_,
        fun _ => Or.inl,fun _ => Or.inl⟩
      by_cases hq : q = p <;> simp [effect,State.updatePrepared,hq]
    | stop remove =>
      have hs := (grows_dropPrepared (s := s)).trans (grows_stopLocal (s := dropPrepared s))
      cases remove with
      | false => exact hs
      | true => exact hs.trans (.of_eq (by simp [effect,stop,stopSection]))
    | shutdown deregister =>
      have hs := (grows_dropPrepared (s := s)).trans (grows_stopLocal (s := dropPrepared s))
      exact hs.trans (.of_eq (by simp [effect,shutdown]))
    | finishWorker c =>
      simp only [effect]
      rcases finishWorker_cases s t c with ⟨o,-,-,-,he⟩ | ⟨-,he⟩ <;> rw [he]
      · exact grows_forgetWorker (s := claimPending s o) c
      · exact grows_forgetWorker c
    | _ => simp [Instr.movesLifecycle] at hm

/-! ### Cleanup sections -/

variable {n : ℕ}

theorem grows_updateOperation (o : ℕ) {f : RemoveOperation → RemoveOperation}
    (hg : ∀ op, (f op).generation = op.generation)
    (hd : ∀ op, op.doneEvent = true → (f op).doneEvent = true) :
    s.toCleanup.Grows n (s.updateOperation o f).toCleanup := by
  refine ⟨le_rfl,le_rfl,fun o' _ => ?_,fun _ h h' => absurd h (not_le.mpr h'),
    fun _ _ => ⟨rfl,id⟩,fun _ _ => le_rfl,fun _ => Or.inl,fun _ => Or.inl⟩
  by_cases ho : o' = o
  · subst ho
    simpa [State.updateOperation,hg] using hd _
  · simp [State.updateOperation,ho]

theorem grows_updateCoordination (k : ℕ) {f : RegisterCoordination → RegisterCoordination}
    (hg : ∀ c, (f c).generation = c.generation)
    (hr : ∀ c, c.cleanupRequested = true → (f c).cleanupRequested = true)
    (hi : k < s.nextCoordination ∨ ∀ c, (f c).inflightCount ≤ c.inflightCount) :
    s.toCleanup.Grows n (s.updateCoordination k f).toCleanup := by
  refine ⟨le_rfl,le_rfl,fun _ _ => ⟨rfl,id⟩,fun _ h h' => absurd h (not_le.mpr h'),
    fun k' _ => ?_,fun k' hk' => ?_,fun _ => Or.inl,fun _ => Or.inl⟩
  · by_cases hk : k' = k
    · subst hk
      simpa [State.updateCoordination,hg] using hr _
    · simp [State.updateCoordination,hk]
  · by_cases hk : k' = k
    · subst hk
      simpa [State.updateCoordination] using hi.resolve_left (not_lt.mpr hk') _
    · simp [State.updateCoordination,hk]

/-- A section that only empties slots or replaces markers, actors and coordination slots. -/
theorem grows_of_names {g : ℕ} {c c' : Cleanup} (ho : c'.nextOperation = c.nextOperation)
    (hk : c'.nextCoordination = c.nextCoordination) (hop : c'.operations = c.operations)
    (hco : c'.coordinations = c.coordinations)
    (hp : ∀ o, c'.pendingRemove = some o → c.pendingRemove = some o)
    (ha : ∀ o, c'.activeRemove = some o → c.activeRemove = some o ∨ c.pendingRemove = some o) :
    c.Grows g c' where
  operations := ho.ge
  coordinations := hk.ge
  operation o _ := by simp [hop]
  fresh o h h' := absurd h (not_le.mpr (ho ▸ h'))
  coordination k _ := by simp [hco]
  unused k _ := by simp [hco]
  pending o h := Or.inl (hp o h)
  active o h := (ha o h).imp_right Or.inl

theorem grows_createPending (g : ℕ) : s.toCleanup.Grows g (createPending s g).toCleanup where
  operations := Nat.le_succ _
  coordinations := le_rfl
  operation o ho := by simp [createPending,ho.ne]
  fresh o h h' := by
    obtain rfl : o = s.nextOperation := le_antisymm (Nat.lt_succ_iff.mp h') h
    simp [createPending]
  coordination _ _ := ⟨rfl,id⟩
  unused _ _ := le_rfl
  pending o h := Or.inr (Option.some.inj h).le
  active _ := Or.inl

theorem grows_publishActive (g : ℕ) : s.toCleanup.Grows g (publishActive s g).toCleanup where
  operations := Nat.le_succ _
  coordinations := le_rfl
  operation o ho := by simp [publishActive,ho.ne]
  fresh o h h' := by
    obtain rfl : o = s.nextOperation := le_antisymm (Nat.lt_succ_iff.mp h') h
    simp [publishActive]
  coordination _ _ := ⟨rfl,id⟩
  unused _ _ := le_rfl
  pending _ := Or.inl
  active o h := Or.inr (Or.inr (Option.some.inj h).le)

theorem grows_reconciled {k : ℕ} {p : State × Option ℕ} (h : Reconciled s k p) :
    s.toCleanup.Grows s.generation p.1.toCleanup := by
  cases h with
  | waiting | covered => exact .refl _
  | dropped | marked => exact grows_of_names rfl rfl rfl rfl (fun _ => id) fun _ => Or.inl
  | created => exact grows_createPending _

theorem grows_requestCleanup (k : ℕ) : s.toCleanup.Grows n (requestCleanup s k).toCleanup :=
  grows_updateCoordination k (fun _ => rfl) (fun _ _ => rfl) (Or.inr fun _ => le_rfl)

theorem grows_requested {p : State × Option ℕ} (h : Requested s p) :
    s.toCleanup.Grows s.generation p.1.toCleanup := by
  cases h with
  | coordinated k p _ hr => exact (grows_requestCleanup k).trans (grows_reconciled hr)
  | notOwed => exact .refl _
  | marked => exact grows_of_names rfl rfl rfl rfl (fun _ => id) fun _ => Or.inl
  | created => exact grows_createPending _

theorem CleanupInv.grows_reconcileGeneration (h : CleanupInv s) (g : ℕ) :
    s.toCleanup.Grows s.generation (Registry.reconcileGeneration s g).toCleanup := by
  unfold Registry.reconcileGeneration
  split
  · split
    · exact grows_reconciled (h.reconcile ‹_›)
    · exact .refl _
  · exact .refl _

theorem grows_openCoordination : s.toCleanup.Grows n (openCoordination s).toCleanup where
  operations := le_rfl
  coordinations := Nat.le_succ _
  operation _ _ := ⟨rfl,id⟩
  fresh _ h h' := absurd h (not_le.mpr h')
  coordination k hk := by simp [openCoordination,hk.ne]
  unused k hk := by simp [openCoordination,(Nat.lt_of_succ_le hk).ne']
  pending _ := Or.inl
  active _ := Or.inl

theorem CleanupInv.grows_join (h : CleanupInv s) :
    s.toCleanup.Grows s.generation (Registry.joinRegisterCoordination s).1.toCleanup := by
  rcases h.join_cases with ⟨k,-,-,he⟩ | ⟨k,hk,-,he⟩ | ⟨-,he⟩ <;> rw [he]
  · exact .refl _
  · exact grows_updateCoordination k (fun _ => rfl) (fun _ => id)
      (Or.inl (h.coordination k hk).1)
  · exact grows_openCoordination.trans
      (grows_updateCoordination (s := Registry.openCoordination s) _ (fun _ => rfl)
        (fun _ => id) (Or.inl (Nat.lt_succ_self _)))

theorem grows_acceptOneShot (r : CallResult) (q : ℕ) (remove : Bool) (g k : Option ℕ) :
    s.toCleanup.Grows n (acceptOneShot cfg now s r q remove g k).toCleanup := by
  rcases acceptOneShot_cases cfg now s r q remove g k with
    ⟨-,he⟩ | ⟨-,he⟩ | ⟨-,-,-,-,-,-,he⟩ <;> rw [he]
  · exact .refl _
  · exact .of_eq rfl
  · exact grows_of_names rfl rfl rfl rfl (fun _ => id) fun _ => Or.inl

theorem CleanupInv.grows_release (h : CleanupInv s) (k : ℕ) :
    s.toCleanup.Grows s.generation (Registry.releaseCoordination s k).1.toCleanup := by
  have hl : s.toCleanup.Grows s.generation (Registry.leaveCoordination s k).toCleanup :=
    grows_updateCoordination k (fun _ => rfl) (fun _ => id) (Or.inr fun _ => Nat.sub_le _ _)
  rw [releaseCoordination_eq]
  split
  · exact hl.trans (grows_reconciled ((h.leaveCoordination k).reconcile ‹_›))
  · exact hl

theorem grows_acceptWorker (c : ℕ) (r : CallResult) (q : ℕ) :
    s.toCleanup.Grows n (acceptWorker cfg now s c r q).toCleanup := by
  rcases acceptWorker_cases cfg now s r q c with ⟨-,he⟩ | ⟨-,-,he | ⟨-,-,he⟩⟩ <;> rw [he]
  · exact .refl _
  · exact .of_eq rfl
  · exact grows_of_names rfl rfl rfl rfl (fun _ => id) fun _ => Or.inl

theorem grows_storeResult (o : ℕ) (r : CallResult) :
    s.toCleanup.Grows n (storeResult s o r).toCleanup :=
  grows_updateOperation o (fun _ => rfl) fun _ => id

theorem grows_dropActive : s.toCleanup.Grows n (dropActive s).toCleanup :=
  grows_of_names rfl rfl rfl rfl (fun _ => id) (fun _ h => by cases h)

theorem grows_complete (h : CleanupInv s) {o : ℕ} (ho : s.activeRemove = some o)
    (r : CallResult) (q : ℕ) :
    s.toCleanup.Grows s.generation (completeRemoveOperation cfg now s o r q).1.toCleanup := by
  have hs : s.toCleanup.Grows s.generation (storeResult s o (cfg.safeResult r)).toCleanup :=
    grows_storeResult o (cfg.safeResult r)
  have hc := h.storeResult o (cfg.safeResult r)
  rcases h.completeRemove_cases cfg now ho r q with ⟨-,he⟩ | ⟨-,-,he⟩ | ⟨-,hr,hg,hw,he⟩
  all_goals rw [he]
  · exact (hs.trans grows_dropActive).trans (hc.dropActive.grows_reconcileGeneration _)
  · have hd : (storeResult s o (cfg.safeResult r)).toCleanup.Grows s.generation
        (dropActive (applyResult cfg now (storeResult s o (cfg.safeResult r)) r q
          .remove)).toCleanup :=
      grows_of_names rfl rfl rfl rfl (fun _ => id) (fun _ h => by cases h)
    exact (hs.trans hd).trans
      ((hc.applyResult r q .remove).dropActive.grows_reconcileGeneration _)
  · have hd : (storeResult s o (cfg.safeResult r)).toCleanup.Grows s.generation
        (dropActive (satisfied cfg now s o r q)).toCleanup :=
      grows_of_names rfl rfl rfl rfl (fun _ h => by cases h) (fun _ h => by cases h)
    exact (hs.trans hd).trans ((h.satisfied hr q hg hw).grows_reconcileGeneration _)

theorem grows_claimPending {o : ℕ} (ho : s.pendingRemove = some o) :
    s.toCleanup.Grows n (claimPending s o).toCleanup :=
  grows_of_names rfl rfl rfl rfl (fun _ h => by cases h) fun _ h =>
    Or.inr (ho.trans (congrArg some (Option.some.inj h)))

theorem grows_associateActor (o t : ℕ) :
    s.toCleanup.Grows n (associateActor s o t).toCleanup where
  operations := by simp
  coordinations := by simp
  operation o' _ := by simp
  fresh o' h h' := absurd h (not_le.mpr (by simpa using h'))
  coordination k _ := by simp
  unused k _ := by simp
  pending := by simp +contextual
  active := by simp +contextual

theorem grows_releaseActor (o t : ℕ) : s.toCleanup.Grows n (releaseActor s o t).toCleanup where
  operations := by simp
  coordinations := by simp
  operation o' _ := by simp
  fresh o' h h' := absurd h (not_le.mpr (by simpa using h'))
  coordination k _ := by simp
  unused k _ := by simp
  pending := by simp +contextual
  active := by simp +contextual

theorem grows_abandonOperation (o t : ℕ) (r : CallResult) :
    s.toCleanup.Grows n (abandonOperation s o t r).toCleanup := by
  have hd : s.toCleanup.Grows n { s.toCleanup with
      cleanupActors := s.cleanupActors.erase t
      pendingRemove := none
      activeRemove := if s.activeRemove = some o then none else s.activeRemove } := by
    refine grows_of_names rfl rfl rfl rfl (fun _ h => by cases h) fun o' h => Or.inl ?_
    by_cases ho : s.activeRemove = some o <;> simp [ho] at h
    exact h
  exact hd.trans (grows_updateOperation (s := { s with
      cleanupActors := s.cleanupActors.erase t
      pendingRemove := none
      activeRemove := if s.activeRemove = some o then none else s.activeRemove }) o
      (fun _ => rfl) fun _ => id)

theorem CleanupInv.grows_failActorStart (h : CleanupInv s) (o t : ℕ) (e : String) :
    s.toCleanup.Grows s.generation (Registry.failActorStart cfg now s o t e).toCleanup := by
  have hc : CleanupInv (recordResultLocked cfg now
      (Registry.abandonOperation s o t (cfg.safeResult (startFailure e))) (startFailure e)
      .local) := (h.abandonOperation o t _).of_eq rfl rfl fun _ => id
  exact (grows_abandonOperation o t _).trans (hc.grows_reconcileGeneration _)

/-- The instructions that touch the cleanup fields. -/
def Instr.movesCleanup : Instr → Bool
  | .activatePreparedStart _ | .stop true | .shutdown _ | .shutdownRequest _ | .joinRegister
  | .commit .. | .finishWorker _ | .terminalRemove _ | .schedulePendingRemove _
  | .runCleanupActor _ | .finishCleanupActor _ | .setOperationDone _
  | .setCoordinationDone _ => true
  | _ => false

theorem effect_toCleanup (alive : ℕ → Bool) (t fresh : ℕ) (ch : Choice) {i : Instr}
    (hi : i.movesCleanup = false) :
    (effect cfg alive t fresh ch s i).state.toCleanup = s.toCleanup := by
  cases i with
  | prepareStart activate =>
    simp only [effect]
    rcases prepareStart_cases s t fresh activate ch.startError with
      he | ⟨e,he⟩ | ⟨-,he⟩ <;> rw [he]
    simp
  | cancelPreparedStart p =>
    simp only [effect]
    rcases cancelPreparedStart_cases s p with ⟨-,he⟩ | ⟨-,he⟩ <;> rw [he]
    simp
  | settlePrepared p =>
    simp only [effect]
    rcases settlePrepared_cases s p with he | ⟨-,he⟩ | ⟨-,-,-,he⟩ <;> rw [he]
    simp
  | stop remove =>
    cases remove with
    | false => simp [effect,stop,stopSection]
    | true => simp [Instr.movesCleanup] at hi
  | runWorker c | workerLoop c | recheckWorker c | performWorkerRegistry c =>
    simp only [effect]
    rcases guardCurrent_cases s c _ with ⟨-,he⟩ | ⟨-,he⟩ <;> rw [he]
  | network call =>
    simp only [effect]
    rcases enterNetwork_cases s t call with ⟨-,he⟩ | ⟨c,-,-,he⟩ <;> rw [he]
  | removeOnce =>
    simp only [effect]
    rcases removeOnce_cases s t with ⟨-,he⟩ | ⟨-,he⟩ <;> rw [he]
  | maybeCloseLogs =>
    simp only [effect]
    split <;> rfl
  | _ => first | rfl | simp [Instr.movesCleanup] at hi

theorem CleanupInv.grows_stopSection (h : CleanupInv s) :
    s.toCleanup.Grows s.generation (stopSection s true).1.toCleanup := by
  have hs : (stopLocalLocked (Registry.dropPrepared s)).toCleanup = s.toCleanup := by simp
  have hc : CleanupInv (stopLocalLocked (Registry.dropPrepared s)) :=
    h.of_eq hs (by simp) (by simp)
  have hr := grows_requested (hc.requestOutcome (by simp))
  have hg : (stopLocalLocked (Registry.dropPrepared s)).generation = s.generation := by simp
  rw [hs,hg] at hr
  exact hr

theorem grows_shutdownLocal (deregister : Bool) :
    s.toCleanup.Grows s.generation (shutdownLocal cfg s deregister).toCleanup := by
  have hs : (stopLocalLocked (dropPrepared s)).toCleanup = s.toCleanup := by simp
  unfold shutdownLocal
  dsimp only
  split
  · split
    · exact (Cleanup.Grows.of_eq hs).trans (grows_requestCleanup (s := { stopLocalLocked
        (dropPrepared s) with closeLogsWhenIdle := true }) _)
    · exact .of_eq hs
  · exact .of_eq hs

theorem effect_cleanup_grows (h : Rep s) (alive : ℕ → Bool) (t fresh : ℕ) (ch : Choice)
    {i : Instr} (hi : i.Owned s) :
    s.toCleanup.Grows s.generation (effect cfg alive t fresh ch s i).state.toCleanup := by
  have hc := h.cleanup
  cases hm : i.movesCleanup with
  | false => exact .of_eq (effect_toCleanup cfg alive t fresh ch hm)
  | true =>
    cases i with
    | activatePreparedStart p =>
      simp only [effect]
      rcases activatePreparedStart_cases t h.lifecycle p with ⟨-,he⟩ | ⟨-,-,he⟩ <;> rw [he]
      · exact .refl _
      · refine grows_of_names ?_ ?_ ?_ ?_ ?_ ?_ <;> simp +contextual [publishWorker]
    | stop remove =>
      cases remove with
      | false => simp [Instr.movesCleanup] at hm
      | true => exact hc.grows_stopSection
    | shutdown deregister => exact grows_shutdownLocal cfg deregister
    | shutdownRequest g =>
      simp only [effect,shutdownRequest]
      split
      · exact grows_requested (hc.requestOutcome (hi.2 (Eq.symm ‹_›)))
      · exact .refl _
    | joinRegister => exact hc.grows_join
    | commit call q r =>
      cases call with
      | register k g =>
        cases k with
        | none => exact grows_acceptOneShot cfg ch.now r q false (some g) none
        | some k =>
          have hr := CleanupInv.grows_release
            (hc.acceptOneShot cfg ch.now r q false (some g) (some k)) k
          rw [(acceptOneShot_frame cfg ch.now s r q false (some g) (some k)).1] at hr
          exact (grows_acceptOneShot cfg ch.now r q false (some g) (some k)).trans hr
      | remove => exact grows_acceptOneShot cfg ch.now r q true none none
      | worker c => exact grows_acceptWorker cfg ch.now c r q
      | active o => exact grows_complete cfg ch.now hc hi r q
    | finishWorker c =>
      simp only [effect]
      rcases finishWorker_cases s t c with ⟨o,hp,-,-,he⟩ | ⟨-,he⟩ <;> rw [he]
      · exact (grows_claimPending hp).trans (.of_eq (by simp))
      · exact .of_eq (by simp)
    | terminalRemove g =>
      simp only [effect,terminalRemove]
      split
      case h_7 hv =>
        rw [(h.of_own hv).1]
        exact grows_publishActive g
      all_goals exact .refl _
    | schedulePendingRemove caller =>
      simp only [effect]
      rcases schedulePendingRemove_cases cfg ch.now s t fresh alive caller ch.startError with
        ⟨-,he⟩ | ⟨o,-,-,he⟩ | ⟨o,e,-,-,he⟩ <;> rw [he]
      · exact .refl _
      · exact grows_associateActor o fresh
      · have hf := (hc.associateActor o fresh).grows_failActorStart cfg ch.now o fresh e
        rw [(associateActor_frame s o fresh).1] at hf
        exact (grows_associateActor o fresh).trans hf
    | runCleanupActor o =>
      simp only [effect]
      rcases runCleanupActor_cases s o with ⟨-,hp,he⟩ | ⟨-,he⟩ <;> rw [he]
      · exact grows_claimPending hp
      · exact .refl _
    | finishCleanupActor o => exact grows_releaseActor o t
    | setOperationDone o => exact grows_updateOperation o (fun _ => rfl) fun _ _ => rfl
    | setCoordinationDone k => exact
        grows_updateCoordination k (fun _ => rfl) (fun _ => id) (Or.inr fun _ => le_rfl)
    | _ => simp [Instr.movesCleanup] at hm

end FlaskXxlJob.Registry
