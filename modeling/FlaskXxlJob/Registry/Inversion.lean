import FlaskXxlJob.Registry.Preservation

/-! What an instruction can do, one case lemma for each branching effect. -/
namespace FlaskXxlJob.Registry
open FlaskXxlJob.Client Interleaving

variable (cfg : Config) (now : String) (s : State) (t fresh : ℕ)

/-! ### Changes of the Pending slot -/

@[simp] theorem pendingEvents_same {s s' : State} (h : s'.pendingRemove = s.pendingRemove) :
    pendingEvents s s' = [] := by
  unfold pendingEvents
  rw [h]
  cases s.pendingRemove <;> simp

/-! ### Lifecycle -/

theorem prepareStart_cases (activate : Bool) (startError : Option String) :
    prepareStart s t fresh activate startError = { state := s } ∨
    (∃ e, prepareStart s t fresh activate startError =
      { state := s, events := [.raised t e] }) ∨
    (prepareRefused s = false ∧ prepareStart s t fresh activate startError =
      { state := publishPrepared s fresh
        push := if activate then [.activatePreparedStart s.nextPrepared] else []
        spawn := some [.waitActivate s.nextPrepared, .preparedWorkerEntry s.nextPrepared]
        events := [.prepared s.nextPrepared] }) := by
  unfold prepareStart
  split
  · exact Or.inl rfl
  · split
    · exact Or.inr (Or.inl ⟨_,rfl⟩)
    · exact Or.inr (Or.inr ⟨Bool.eq_false_iff.mpr ‹_›,rfl⟩)

/-- Under the invariant an activation that still owns the slot commits; it never raises. -/
theorem activationOf_cases {s : State} (h : LifecycleInv s) (p : ℕ) :
    (s.preparedStart ≠ some p ∧ activationOf s p = .refused) ∨
    (s.preparedStart = some p ∧ s.worker = none ∧ (s.prepareds p).context = p ∧
      activationOf s p = .committed) := by
  by_cases hp : s.preparedStart = some p
  · right
    obtain ⟨hlt,hg,ho,-⟩ := h.prepared p hp
    have hc := (h.token p hlt).1
    have hw : s.worker = none := by
      rw [Option.eq_none_iff_forall_ne_some]
      exact fun c hc => h.exclusive c p hc hp
    exact ⟨hp,hw,hc,by simp [activationOf,hp,hc,ho,hg,hw]⟩
  · exact Or.inl ⟨hp,by simp [activationOf,hp]⟩

theorem commitActivation_eq {s : State} {p : ℕ} (hw : s.worker = none)
    (hc : (s.prepareds p).context = p) :
    commitActivation s p =
      (waitForActive (publishWorker s p) p,s.pendingRemove,s.registerCoordination) := by
  have hs : stopLocalLocked s = s := by simp [stopLocalLocked,hw]
  simp only [commitActivation,hs,hc]

theorem activatePreparedStart_cases {s : State} (h : LifecycleInv s) (p : ℕ) :
    (s.preparedStart ≠ some p ∧ activatePreparedStart s t p = { state := s }) ∨
    (s.preparedStart = some p ∧ s.worker = none ∧ activatePreparedStart s t p =
      { state := waitForActive (publishWorker s p) p
        push := s.pendingRemove.toList.map .setOperationDone ++
          s.registerCoordination.toList.map .setCoordinationDone ++ [.setActivate p]
        events := pendingEvents s (waitForActive (publishWorker s p) p) ++
          [.committed p t] }) := by
  unfold activatePreparedStart
  rcases activationOf_cases h p with ⟨hp,ha⟩ | ⟨hp,hw,hc,ha⟩
  · exact Or.inl ⟨hp,by rw [ha]⟩
  · exact Or.inr ⟨hp,hw,by rw [ha,commitActivation_eq hw hc]⟩

theorem cancelPreparedStart_cases (p : ℕ) :
    (s.preparedStart ≠ some p ∧ cancelPreparedStart s p = { state := s }) ∨
    (s.preparedStart = some p ∧ cancelPreparedStart s p =
      { state := cancelPrepared s p
        push := [.setStop (s.prepareds p).context, .setActivate p]
        events := [.cancelled p] }) := by
  unfold cancelPreparedStart
  split
  · exact Or.inr ⟨‹_›,rfl⟩
  · exact Or.inl ⟨‹_›,rfl⟩

/-- A settlement cancels the token it owns or retries the Event of its committed Worker. -/
theorem settlePrepared_cases (p : ℕ) :
    settlePrepared s p = { state := s } ∨
    (s.preparedStart = some p ∧ settlePrepared s p =
      { state := cancelPrepared s p
        push := [.setStop (s.prepareds p).context, .setActivate p]
        events := [.cancelled p] }) ∨
    ((s.contexts (s.prepareds p).context).preparedOwner = some p ∧
      ownsLifecycle s (s.prepareds p).context = true ∧ s.preparedStart ≠ some p ∧
      settlePrepared s p = { state := s, push := [.setActivate p] }) := by
  unfold settlePrepared settlementOf
  dsimp only
  split
  · rename_i h
    split at h
    · exact Or.inr (Or.inl ⟨(‹_ ∧ _› : _ ∧ _).1,rfl⟩)
    · split at h <;> cases h
  · rename_i h
    split at h
    · cases h
    · rename_i hn
      split at h
      · rename_i hw
        exact Or.inr (Or.inr ⟨hw.1,hw.2.2,fun hp => hn ⟨hp,hw.1⟩,rfl⟩)
      · cases h
  · exact Or.inl rfl

theorem finishWorker_cases (c : ℕ) :
    (∃ o, s.pendingRemove = some o ∧ s.activeRemove = none ∧
      (s.operations o).generation = (s.contexts c).generation ∧ finishWorker s t c =
      { state := forgetWorker (claimPending s o) c
        push := [.network (.active o), .maybeCloseLogs]
        events := [.finished c t] }) ∨
    (workerClaim s c = none ∧ finishWorker s t c =
      { state := forgetWorker s c
        push := [.schedulePendingRemove .quiet, .maybeCloseLogs]
        events := [.finished c t] }) := by
  unfold finishWorker finishWorkerSection
  cases hc : workerClaim s c with
  | none => exact Or.inr ⟨rfl,rfl⟩
  | some o =>
    obtain ⟨hp,ho⟩ := Option.filter_eq_some_iff.mp hc
    simp only [Bool.and_eq_true,decide_eq_true_eq,Option.isNone_iff_eq_none] at ho
    exact Or.inl ⟨o,hp,ho.2,ho.1,rfl⟩

theorem guardCurrent_cases (c : ℕ) (i : Instr) :
    (workerIsCurrent s c = true ∧ guardCurrent s c i = { state := s, push := [i] }) ∨
    (workerIsCurrent s c = false ∧
      guardCurrent s c i = { state := s, push := [.finishWorker c] }) := by
  unfold guardCurrent
  cases workerIsCurrent s c <;> simp

/-! ### Calls -/

theorem enterNetwork_cases (call : RpcCall) :
    ((∀ c, call = .worker c → workerIsCurrent s c = true) ∧ enterNetwork s t call =
      { state := { s with networkLock := some t }, push := [.rpc call] }) ∨
    ∃ c, call = .worker c ∧ workerIsCurrent s c = false ∧
      enterNetwork s t call = { state := s, push := [.finishWorker c] } := by
  unfold enterNetwork
  cases call with
  | worker c =>
    cases hc : workerIsCurrent s c with
    | true => exact Or.inl ⟨by rintro _ ⟨⟩; exact hc,by simp [hc]⟩
    | false => exact Or.inr ⟨c,rfl,hc,by simp [hc]⟩
  | register | remove | active => exact Or.inl ⟨(fun _ h => by cases h),rfl⟩

/-- The outcomes of requesting the lifecycle cleanup of the current generation. -/
inductive Requested (s : State) : State × Option ℕ → Prop
  | coordinated (k : ℕ) (p : State × Option ℕ) : s.registerCoordination = some k →
      Reconciled (requestCleanup s k) k p → Requested s p
  | notOwed : s.registerCoordination = none → ((s.generation = 0 ∧ s.registered = false) ∨
      s.lastSuccessfullyRemovedGeneration = some s.generation ∨
      (s.pendingRemove = none ∧ s.lastRemoveRequestedGeneration = some s.generation)) →
      Requested s (s,none)
  | marked (o : ℕ) : s.registerCoordination = none → s.pendingRemove = some o →
      Requested s (markRequested s s.generation,some o)
  | created : s.registerCoordination = none → s.pendingRemove = none →
      s.lastRemoveRequestedGeneration ≠ some s.generation →
      s.lastSuccessfullyRemovedGeneration ≠ some s.generation →
      Requested s (createPending s s.generation,some s.nextOperation)

theorem CleanupInv.requestOutcome {s : State} (h : CleanupInv s) (hw : s.worker = none) :
    Requested s (Registry.requestRemoveLocked s) := by
  rw [h.requestRemove_eq hw]
  cases hk : s.registerCoordination with
  | some k => exact .coordinated k _ hk ((h.requestCleanup hw k).reconcile hk)
  | none =>
    dsimp only
    rcases ensurePending_cases s s.generation with
      ⟨he,hwhy⟩ | ⟨o,ho,-,-,he⟩ | ⟨hp,hm,hs,-,he⟩ <;> rw [he]
    · refine .notOwed hk ?_
      rcases hwhy with h0 | hs | ⟨o,ho,hog⟩ | hpm
      · exact Or.inl h0
      · exact Or.inr (Or.inl hs)
      · exact absurd (h.pending o ho).2.2.1 hog
      · exact Or.inr (Or.inr hpm)
    · exact .marked o hk ho
    · exact .created hk hp hm hs

theorem removeOnce_cases :
    (s.worker = none ∧ removeOnce s t =
      { state := s
        push := [.terminalRemove s.generation]
        events := [.enteredRemove t s.generation] }) ∨
    (s.worker ≠ none ∧ removeOnce s t = { state := s, push := [.network .remove] }) := by
  unfold removeOnce
  split
  · exact Or.inl ⟨by assumption,rfl⟩
  · exact Or.inr ⟨by simp [*],rfl⟩

theorem schedulable_eq_some {s : State} {alive : ℕ → Bool} {o : ℕ}
    (h : schedulable alive s = some o) :
    s.pendingRemove = some o ∧ s.activeRemove = none ∧
      s.stoppingWorkers.lookup (s.operations o).generation = none ∧
      ∀ d, (s.operations o).thread = some d → alive d = false := by
  obtain ⟨hp,ho⟩ := Option.filter_eq_some_iff.mp h
  simp only [Bool.and_eq_true,Option.isNone_iff_eq_none,Bool.not_eq_true'] at ho
  refine ⟨hp,ho.1.1,ho.1.2,fun d hd => ?_⟩
  simpa [hd] using ho.2

theorem schedulePendingRemove_cases (alive : ℕ → Bool) (caller : Scheduler)
    (startError : Option String) :
    (schedulable alive s = none ∧
      schedulePendingRemove cfg now alive s t fresh caller startError =
      { state := s, push := caller.returned }) ∨
    (∃ o, schedulable alive s = some o ∧ startError = none ∧
      schedulePendingRemove cfg now alive s t fresh caller startError =
      { state := associateActor s o fresh
        push := caller.returned
        spawn := some [.runCleanupActor o] }) ∨
    (∃ o e, schedulable alive s = some o ∧ startError = some e ∧
      schedulePendingRemove cfg now alive s t fresh caller startError =
      { state := failActorStart cfg now (associateActor s o fresh) o fresh e
        push := .setOperationDone o :: caller.failed
        events := .localFailure (startFailure e) now ::
          pendingEvents s (failActorStart cfg now (associateActor s o fresh) o fresh e) ++
          caller.raisedEvents t e }) := by
  unfold schedulePendingRemove
  split
  · exact Or.inl ⟨by assumption,rfl⟩
  · split
    · exact Or.inr (Or.inl ⟨_,by assumption,rfl,rfl⟩)
    · exact Or.inr (Or.inr ⟨_,_,by assumption,rfl,rfl⟩)

theorem runCleanupActor_cases (o : ℕ) :
    (s.activeRemove = none ∧ s.pendingRemove = some o ∧ runCleanupActor s o =
      { state := claimPending s o, push := [.network (.active o), .finishCleanupActor o] }) ∨
    (¬ (s.activeRemove = none ∧ s.pendingRemove = some o) ∧ runCleanupActor s o =
      { state := s, push := [.finishCleanupActor o] }) := by
  unfold runCleanupActor actorClaims
  split
  · rename_i h
    simp only [Bool.and_eq_true,Option.isNone_iff_eq_none,decide_eq_true_eq] at h
    exact Or.inl ⟨h.1,h.2,rfl⟩
  · rename_i h
    simp only [Bool.and_eq_true,Option.isNone_iff_eq_none,decide_eq_true_eq] at h
    exact Or.inr ⟨h,rfl⟩

/-! ### Frames of an instruction -/

/-- The instructions that touch the lifecycle fields. -/
def Instr.movesLifecycle : Instr → Bool
  | .prepareStart _ | .activatePreparedStart _ | .cancelPreparedStart _ | .settlePrepared _
  | .setStop _ | .setActivate _ | .stop _ | .shutdown _ | .finishWorker _ => true
  | _ => false

theorem effect_toLifecycle (alive : ℕ → Bool) (ch : Choice) {i : Instr}
    (hi : i.movesLifecycle = false) :
    (effect cfg alive t fresh ch s i).state.toLifecycle = s.toLifecycle := by
  cases i with
  | runWorker c | workerLoop c | recheckWorker c | performWorkerRegistry c =>
    simp only [effect]
    rcases guardCurrent_cases s c _ with ⟨-,he⟩ | ⟨-,he⟩ <;> rw [he]
  | network call =>
    simp only [effect]
    rcases enterNetwork_cases s t call with ⟨-,he⟩ | ⟨c,-,-,he⟩ <;> rw [he]
  | commit call q r =>
    cases call with
    | register k g => cases k <;> simp [effect,commitRpc,commitRegister]
    | remove | worker | active => simp [effect,commitRpc,commitRemove,commitWorker,commitActive]
  | shutdownRequest target =>
    simp only [effect,shutdownRequest]
    split <;> simp
  | joinRegister => simp [effect,joinRegister]
  | removeOnce =>
    simp only [effect]
    rcases removeOnce_cases s t with ⟨-,he⟩ | ⟨-,he⟩ <;> rw [he]
  | terminalRemove g =>
    simp only [effect,terminalRemove]
    split <;> simp
  | schedulePendingRemove caller =>
    simp only [effect]
    rcases schedulePendingRemove_cases cfg ch.now s t fresh alive caller ch.startError with
      ⟨-,he⟩ | ⟨o,-,-,he⟩ | ⟨o,e,-,-,he⟩
    · rw [he]
    · simp [he]
    · simp [he]
  | runCleanupActor o =>
    simp only [effect]
    rcases runCleanupActor_cases s o with ⟨-,-,he⟩ | ⟨-,he⟩ <;> simp [he]
  | maybeCloseLogs =>
    simp only [effect]
    split <;> rfl
  | _ => first | rfl | simp [Instr.movesLifecycle] at hi

/-- Only preparing a start and scheduling a Pending Remove start a thread. -/
theorem effect_spawn_cases (alive : ℕ → Bool) (ch : Choice) (i : Instr) :
    (effect cfg alive t fresh ch s i).spawn = none ∨
    (∃ activate, i = .prepareStart activate ∧ prepareRefused s = false ∧
      (effect cfg alive t fresh ch s i).state = publishPrepared s fresh ∧
      (effect cfg alive t fresh ch s i).spawn =
        some [.waitActivate s.nextPrepared, .preparedWorkerEntry s.nextPrepared]) ∨
    (∃ caller o, i = .schedulePendingRemove caller ∧ schedulable alive s = some o ∧
      (effect cfg alive t fresh ch s i).state = associateActor s o fresh ∧
      (effect cfg alive t fresh ch s i).spawn = some [.runCleanupActor o]) := by
  cases i with
  | prepareStart activate =>
    simp only [effect]
    rcases prepareStart_cases s t fresh activate ch.startError with
      he | ⟨e,he⟩ | ⟨hr,he⟩ <;> rw [he]
    · exact Or.inl rfl
    · exact Or.inl rfl
    · exact Or.inr (Or.inl ⟨activate,rfl,hr,rfl,rfl⟩)
  | schedulePendingRemove caller =>
    simp only [effect]
    rcases schedulePendingRemove_cases cfg ch.now s t fresh alive caller ch.startError with
      ⟨-,he⟩ | ⟨o,ho,-,he⟩ | ⟨o,e,-,-,he⟩ <;> rw [he]
    · exact Or.inl rfl
    · exact Or.inr (Or.inr ⟨caller,o,rfl,ho,rfl,rfl⟩)
    · exact Or.inl rfl
  | activatePreparedStart p =>
    left
    simp only [effect,activatePreparedStart]
    split <;> rfl
  | cancelPreparedStart p =>
    left
    simp only [effect,cancelPreparedStart]
    split <;> rfl
  | settlePrepared p =>
    left
    simp only [effect,settlePrepared]
    split <;> rfl
  | network call =>
    left
    simp only [effect]
    rcases enterNetwork_cases s t call with ⟨-,he⟩ | ⟨c,-,-,he⟩ <;> rw [he]
  | commit call q r =>
    cases call with
    | register k g => cases k <;> exact Or.inl rfl
    | remove | worker | active => exact Or.inl rfl
  | shutdownRequest target =>
    left
    simp only [effect,shutdownRequest]
    split <;> rfl
  | removeOnce =>
    left
    simp only [effect]
    rcases removeOnce_cases s t with ⟨-,he⟩ | ⟨-,he⟩ <;> rw [he]
  | terminalRemove g =>
    left
    simp only [effect,terminalRemove]
    split <;> rfl
  | runCleanupActor o =>
    left
    simp only [effect]
    rcases runCleanupActor_cases s o with ⟨-,-,he⟩ | ⟨-,he⟩ <;> rw [he]
  | maybeCloseLogs =>
    left
    simp only [effect]
    split <;> rfl
  | _ => exact Or.inl rfl

end FlaskXxlJob.Registry
