import FlaskXxlJob.Registry.Ownership

/-!
The account of Worker threads. A Prepared or committed context is one instruction of one
thread until `_finish_worker`, and only a committed context runs as a Worker.
-/
namespace FlaskXxlJob.Registry
open FlaskXxlJob.Client Interleaving

variable {s s' : State}

/-! ### Which contexts own a lifecycle -/

theorem ownsLifecycle_iff {c : ℕ} : ownsLifecycle s c = true ↔
    s.worker = some c ∨ s.stoppingWorkers.lookup (s.contexts c).generation = some c := by
  simp [ownsLifecycle]

theorem owns_congr (hw : s'.worker = s.worker) (hs : s'.stoppingWorkers = s.stoppingWorkers)
    {c : ℕ} (hg : (s'.contexts c).generation = (s.contexts c).generation) :
    ownsLifecycle s' c = ownsLifecycle s c := by
  unfold ownsLifecycle
  rw [hw,hs,hg]

theorem owns_of_toLifecycle (h : s'.toLifecycle = s.toLifecycle) (c : ℕ) :
    ownsLifecycle s' c = ownsLifecycle s c :=
  owns_congr (by rw [h]) (by rw [h]) (by rw [h])

theorem LifecycleInv.owned (h : LifecycleInv s) {c : ℕ} (hc : ownsLifecycle s c = true) :
    c < s.nextPrepared ∧ (s.contexts c).generation ≤ s.generation := by
  rcases ownsLifecycle_iff.mp hc with hc | hc
  · exact ⟨(h.worker c hc).1,(h.worker c hc).2.1.le⟩
  · exact ⟨(h.stopping _ c hc).1,(h.stopping _ c hc).2.2.1⟩

/-- A Prepared context is not committed yet. -/
theorem LifecycleInv.prepared_not_owned (h : LifecycleInv s) {p : ℕ}
    (hp : s.preparedStart = some p) : ownsLifecycle s p = false := by
  rw [Bool.eq_false_iff]
  intro ho
  have := (h.owned ho).2
  have := (h.prepared p hp).2.1
  omega

@[simp] theorem detachWorker_generation (s : State) (c d : ℕ) :
    ((detachWorker s c).contexts d).generation = (s.contexts d).generation := by
  by_cases h : d = c <;> simp [detachWorker,State.updateContext,h]

@[simp] theorem cancelPrepared_generation (s : State) (p d : ℕ) :
    ((cancelPrepared s p).contexts d).generation = (s.contexts d).generation := by
  unfold cancelPrepared disownPrepared State.updateContext
  by_cases h : d = (s.prepareds p).context
  · subst h
    simp only [dropPrepared_frame,Function.update_self]
    split <;> rfl
  · simp [h]

@[simp] theorem waitForActive_generation (s : State) (c d : ℕ) :
    ((waitForActive s c).contexts d).generation = (s.contexts d).generation := by
  unfold waitForActive State.updateContext
  split
  · by_cases h : d = c <;> simp [h]
  · rfl

@[simp] theorem stopLocalLocked_generation (s : State) (d : ℕ) :
    ((stopLocalLocked s).contexts d).generation = (s.contexts d).generation := by
  unfold stopLocalLocked
  split <;> simp

@[simp] theorem forgetWorker_generation (s : State) (c d : ℕ) :
    ((forgetWorker s c).contexts d).generation = (s.contexts d).generation := by
  by_cases h : d = c <;> simp [forgetWorker,State.updateContext,h]

theorem owns_stopLocal (h : LifecycleInv s) (c : ℕ) :
    ownsLifecycle (stopLocalLocked s) c = ownsLifecycle s c := by
  unfold stopLocalLocked
  cases hw : s.worker with
  | none => rfl
  | some w =>
    obtain ⟨-,hg,hno⟩ := h.worker w hw
    have hst : (detachWorker s w).stoppingWorkers =
        s.stoppingWorkers.insert (s.contexts w).generation w := rfl
    rw [Bool.eq_iff_iff,ownsLifecycle_iff,ownsLifecycle_iff,hst,detachWorker_generation]
    simp only [detachWorker_frame,hw,reduceCtorEq,false_or,Option.some.injEq]
    by_cases hc : (s.contexts c).generation = (s.contexts w).generation
    · rw [hc,AList.lookup_insert,hg,hno]
      simp
    · rw [AList.lookup_insert_ne hc]
      constructor
      · exact Or.inr
      · rintro (rfl | hl)
        · exact absurd rfl hc
        · exact hl

theorem owns_setStop (c d : ℕ) :
    ownsLifecycle (s.updateContext c fun ctx => { ctx with stopEvent := true }) d =
      ownsLifecycle s d := by
  have hw : (s.updateContext c fun ctx => { ctx with stopEvent := true }).worker = s.worker := rfl
  refine owns_congr hw rfl ?_
  by_cases hd : d = c <;> simp [State.updateContext,hd]

theorem owns_cancelPrepared (p c : ℕ) :
    ownsLifecycle (cancelPrepared s p) c = ownsLifecycle s c :=
  owns_congr (cancelPrepared_frame s p).2.2.2.2.2.1 rfl (by simp)

/-- Forgetting a finished Worker takes its own lifecycle away and no other. -/
theorem owns_forgetWorker (c d : ℕ) :
    ownsLifecycle (forgetWorker s c) d = (ownsLifecycle s d && decide (d ≠ c)) := by
  have hst : (forgetWorker s c).stoppingWorkers =
      if s.stoppingWorkers.lookup (s.contexts c).generation = some c then
        s.stoppingWorkers.erase (s.contexts c).generation else s.stoppingWorkers := rfl
  rw [Bool.eq_iff_iff,Bool.and_eq_true,decide_eq_true_eq,ownsLifecycle_iff,ownsLifecycle_iff,
    forgetWorker_generation,(forgetWorker_frame s c).2.2.2.2.2.2.2.2,hst]
  have hwork : (if s.worker = some c then none else s.worker) = some d ↔
      s.worker = some d ∧ d ≠ c := by grind
  have hstop : (if s.stoppingWorkers.lookup (s.contexts c).generation = some c then
      s.stoppingWorkers.erase (s.contexts c).generation else s.stoppingWorkers).lookup
        (s.contexts d).generation = some d ↔
      s.stoppingWorkers.lookup (s.contexts d).generation = some d ∧ d ≠ c := by
    by_cases hg : (s.contexts d).generation = (s.contexts c).generation
    · rw [hg]
      split
      · rw [AList.lookup_erase]
        grind
      · grind
    · have hne : d ≠ c := by
        rintro rfl
        exact hg rfl
      split
      · rw [AList.lookup_erase_ne hg]
        simp [hne]
      · simp [hne]
  rw [hwork,hstop,or_and_right]

theorem owns_commit (hw : s.worker = none) (p c : ℕ) :
    ownsLifecycle (waitForActive (publishWorker s p) p) c =
      (ownsLifecycle s c || decide (c = p)) := by
  have hwork : (publishWorker s p).worker = some p := rfl
  have hst : (publishWorker s p).stoppingWorkers = s.stoppingWorkers := rfl
  have hctx : (publishWorker s p).contexts = s.contexts := rfl
  rw [Bool.eq_iff_iff,Bool.or_eq_true,decide_eq_true_eq,ownsLifecycle_iff,ownsLifecycle_iff,
    waitForActive_generation,hctx]
  simp only [waitForActive_frame,hwork,hst,hw,reduceCtorEq,false_or,Option.some.injEq]
  rw [or_comm,eq_comm (a := p)]

theorem owns_publishPrepared (h : LifecycleInv s) (t c : ℕ) :
    ownsLifecycle (publishPrepared s t) c = ownsLifecycle s c := by
  by_cases hc : c = s.nextPrepared
  · have hl : ∀ g, s.stoppingWorkers.lookup g ≠ some c := fun g hg =>
      absurd (h.stopping g c hg).1 (by omega)
    have hw : s.worker ≠ some c := fun hw => absurd (h.worker c hw).1 (by omega)
    simp [ownsLifecycle,hl,hw]
  · have hg : ((publishPrepared s t).contexts c).generation = (s.contexts c).generation := by
      simp [publishPrepared,hc]
    exact owns_congr (publishPrepared_frame s t).2.2.2.2.2.1 rfl hg

/-! ### The account -/

/-- `r c` threads run the Worker `c` and `n c` threads may still enter it. -/
structure WorkerAccount (s : State) (r n : ℕ → ℕ) : Prop where
  running : ∀ c, 0 < r c → ownsLifecycle s c = true
  once : ∀ c, r c + n c ≤ 1
  owned : ∀ c, ownsLifecycle s c = true → r c + n c = 1
  prepared : ∀ p, s.preparedStart = some p → n p = 1
  fresh : ∀ c, s.nextPrepared ≤ c → r c + n c = 0

/-- What one instruction does to the threads of Workers: `r` and `n` count what it pushes and
starts. -/
inductive WorkerChange (s : State) (i : Instr) (s' : State) (r n : ℕ → ℕ) : Prop
  | quiet : (∀ c, r c = if i.plays (Role.runs c) then 1 else 0) →
      (∀ c, n c = if i.plays (Role.enters c) then 1 else 0) →
      (∀ c, ownsLifecycle s' c = ownsLifecycle s c) →
      (∀ p, s'.preparedStart = some p → s.preparedStart = some p) →
      s'.nextPrepared = s.nextPrepared → WorkerChange s i s' r n
  | published : i.role = .plain → (∀ c, r c = 0) →
      (∀ c, n c = if c = s.nextPrepared then 1 else 0) →
      (∀ c, ownsLifecycle s' c = ownsLifecycle s c) →
      s'.preparedStart = some s.nextPrepared → s'.nextPrepared = s.nextPrepared + 1 →
      WorkerChange s i s' r n
  | entered (c : ℕ) : i = .preparedWorkerEntry c →
      (∀ d, r d = if d = c ∧ ownsLifecycle s c = true then 1 else 0) → (∀ d, n d = 0) →
      s' = s → WorkerChange s i s' r n
  | finished (c : ℕ) : i = .finishWorker c → (∀ d, r d = 0) → (∀ d, n d = 0) →
      (∀ d, ownsLifecycle s' d = (ownsLifecycle s d && decide (d ≠ c))) →
      s'.preparedStart = s.preparedStart → s'.nextPrepared = s.nextPrepared →
      WorkerChange s i s' r n
  | committed (p : ℕ) : i = .activatePreparedStart p → (∀ c, r c = 0) → (∀ c, n c = 0) →
      s.preparedStart = some p → s'.preparedStart = none →
      s' = waitForActive (publishWorker s p) p →
      (∀ c, ownsLifecycle s' c = (ownsLifecycle s c || decide (c = p))) →
      s'.nextPrepared = s.nextPrepared → WorkerChange s i s' r n

section Change
variable (cfg : Config) (alive : ℕ → Bool) (t fresh : ℕ) (ch : Choice) {i : Instr}

/-- An instruction that hands no context on: plain before and after, or the same Worker's
thread. -/
theorem WorkerChange.of_plain {e : Step} (hi : i.role = .plain) (hp : Plain e.push)
    (hsp : e.spawn = none) (ho : ∀ c, ownsLifecycle e.state c = ownsLifecycle s c)
    (hpr : ∀ p, e.state.preparedStart = some p → s.preparedStart = some p)
    (hn : e.state.nextPrepared = s.nextPrepared) :
    WorkerChange s i e.state
      (fun c => e.push.countP (Instr.plays (Role.runs c)) +
        (e.spawn.getD []).countP (Instr.plays (Role.runs c)))
      (fun c => e.push.countP (Instr.plays (Role.enters c)) +
        (e.spawn.getD []).countP (Instr.plays (Role.enters c))) := by
  refine .quiet (fun c => ?_) (fun c => ?_) ho hpr hn
  · simp [hp,hsp,Instr.plays,hi,Role.runs]
  · simp [hp,hsp,Instr.plays,hi,Role.enters]

/-- The roles of a Worker's thread: what it plays between entering and finishing is handed on
unchanged by every other instruction. -/
structure WorkerRole (p : Role → Bool) : Prop where
  plain : p .plain = false
  actor : p .actor = false
  active : ∀ o, p (.call (.active o)) = false
  register : ∀ k g, p (.call (.register k g)) = false
  remove : p (.call .remove) = false
  worker : ∀ c, p (.call (.worker c)) = p (.worker c)

theorem workerRole_runs (c : ℕ) : WorkerRole (Role.runs c) :=
  ⟨rfl,rfl,fun _ => rfl,fun _ _ => rfl,rfl,fun d => by simp [Role.runs]⟩

theorem workerRole_enters (c : ℕ) : WorkerRole (Role.enters c) :=
  ⟨rfl,rfl,fun _ => rfl,fun _ _ => rfl,rfl,fun _ => rfl⟩

theorem balance_workerRole {p : Role → Bool} (hp : WorkerRole p) (hi : i.movesLifecycle = false)
    (hent : ∀ c, i ≠ .preparedWorkerEntry c) :
    (effect cfg alive t fresh ch s i).push.countP (Instr.plays p) +
      ((effect cfg alive t fresh ch s i).spawn.getD []).countP (Instr.plays p) =
      if i.plays p then 1 else 0 := by
  by_cases hs : i.simple = true
  · obtain ⟨hpl,hsp,-⟩ := effect_simple cfg s alive t fresh ch hs
    simp [hpl.plays hp.plain,hsp,Instr.plays,Instr.role_of_simple hs,hp.plain]
  by_cases hw : i.steers = none
  swap
  · obtain ⟨c,hc⟩ := Option.ne_none_iff_exists'.mp hw
    obtain ⟨-,hsp,-,hpush⟩ := effect_steers (s := s) cfg alive t fresh ch hc
    have hr : i.role = .worker c := by
      rcases Instr.role_of_steers hc with hr | hr
      · exact hr
      · cases i <;> simp [Instr.steers] at hc <;> simp at hr
        exact absurd rfl (hent _)
    rcases hpush with ⟨j,hj,hjr | hjr,-⟩ | ⟨-,he⟩
    · simp [hsp,hj,Instr.plays,hjr,hr]
    · simp [hsp,hj,Instr.plays,hjr,hr,hp.worker]
    · exact absurd he (hent c)
  have hplain : ∀ l : List Instr, Plain l → l.countP (Instr.plays p) = 0 :=
    fun l hl => hl.plays hp.plain
  cases i with
  | network call =>
    simp only [effect]
    rcases enterNetwork_cases s t call with ⟨-,he⟩ | ⟨c,rfl,-,he⟩ <;> rw [he]
    · simp [Instr.plays]
    · simp [Instr.plays,hp.worker]
  | rpc call => simp [effect,callRegistry,Instr.plays]
  | commit call q r =>
    cases call with
    | register k' g =>
      cases k' <;> simp [effect,commitRpc,commitRegister,Instr.plays,hp.register,hplain]
    | remove => simp [effect,commitRpc,commitRemove,Instr.plays,hp.plain,hp.remove]
    | worker c =>
      simp only [effect,commitRpc,commitWorker]
      split <;> simp [Instr.plays,hp.worker]
    | active o' =>
      simp [effect,commitRpc,commitActive,Instr.plays,hp.active,hplain]
  | joinRegister => simp [effect,joinRegister,Instr.plays,hp.plain,hp.register,hplain]
  | removeOnce =>
    simp only [effect]
    rcases removeOnce_cases s t with ⟨-,he⟩ | ⟨-,he⟩ <;> rw [he] <;>
      simp [Instr.plays,hp.plain,hp.remove]
  | terminalRemove g =>
    simp only [effect,terminalRemove]
    split <;> simp [Instr.plays,hp.plain,hp.remove,hp.active]
  | schedulePendingRemove caller =>
    simp only [effect]
    rcases schedulePendingRemove_cases cfg ch.now s t fresh alive caller ch.startError with
      ⟨-,he⟩ | ⟨o',-,-,he⟩ | ⟨o',e,-,-,he⟩
    all_goals rw [he]; simp [Instr.plays,hp.plain,hp.actor,hplain]
  | runCleanupActor o' =>
    simp only [effect]
    rcases runCleanupActor_cases s o' with ⟨-,-,he⟩ | ⟨-,he⟩ <;> rw [he] <;>
      simp [Instr.plays,hp.actor,hp.active]
  | finishCleanupActor => simp [effect,Instr.plays,hp.plain,hp.actor]
  | _ => simp [Instr.simple,Instr.steers,Instr.movesLifecycle] at hs hw hi

theorem workerChange (h : Rep s) :
    WorkerChange s i (effect cfg alive t fresh ch s i).state
      (fun c => (effect cfg alive t fresh ch s i).push.countP (Instr.plays (Role.runs c)) +
        ((effect cfg alive t fresh ch s i).spawn.getD []).countP (Instr.plays (Role.runs c)))
      (fun c => (effect cfg alive t fresh ch s i).push.countP (Instr.plays (Role.enters c)) +
        ((effect cfg alive t fresh ch s i).spawn.getD []).countP
          (Instr.plays (Role.enters c))) := by
  have hlife := h.lifecycle
  cases hm : i.movesLifecycle with
  | false =>
    by_cases hent : ∃ c, i = .preparedWorkerEntry c
    · obtain ⟨c,rfl⟩ := hent
      simp only [effect]
      cases ho : ownsLifecycle s c with
      | true =>
        refine .entered c rfl (fun d => ?_) (fun d => ?_) rfl
        · simp [Instr.plays,Role.runs,ho,eq_comm (a := d)]
        · simp [Instr.plays,Role.enters]
      | false =>
        refine .entered c rfl (fun d => ?_) (fun d => ?_) rfl
        · simp [ho]
        · simp
    · have hl := effect_toLifecycle cfg s t fresh alive ch hm
      have hne : ∀ c, i ≠ .preparedWorkerEntry c := fun c he => hent ⟨c,he⟩
      exact .quiet (fun c => balance_workerRole cfg alive t fresh ch (workerRole_runs c) hm hne)
        (fun c => balance_workerRole cfg alive t fresh ch (workerRole_enters c) hm hne)
        (owns_of_toLifecycle hl) (by rw [hl]; exact fun _ => id) (by rw [hl])
  | true =>
    cases i with
    | prepareStart activate =>
      simp only [effect]
      rcases prepareStart_cases s t fresh activate ch.startError with
        he | ⟨e,he⟩ | ⟨-,he⟩ <;> rw [he]
      · exact .of_plain rfl .nil rfl (fun _ => rfl) (fun _ => id) rfl
      · exact .of_plain rfl .nil rfl (fun _ => rfl) (fun _ => id) rfl
      · refine .published rfl (fun c => ?_) (fun c => ?_) (owns_publishPrepared hlife fresh) rfl rfl
        · cases activate <;> simp [Instr.plays,Role.runs]
        · cases activate <;> simp [Instr.plays,Role.enters,eq_comm]
    | activatePreparedStart p =>
      simp only [effect]
      rcases activatePreparedStart_cases t hlife p with ⟨-,he⟩ | ⟨hp,hw,he⟩ <;> rw [he]
      · exact .of_plain rfl .nil rfl (fun _ => rfl) (fun _ => id) rfl
      · have hpl : Plain (s.pendingRemove.toList.map .setOperationDone ++
            s.registerCoordination.toList.map .setCoordinationDone ++ [.setActivate p]) := by simp
        exact .committed p rfl (fun c => by simp only [hpl.runs]; rfl)
          (fun c => by simp only [hpl.enters]; rfl) hp (by simp [publishWorker]) rfl
          (owns_commit hw p) (by simp [publishWorker])
    | cancelPreparedStart p =>
      simp only [effect]
      rcases cancelPreparedStart_cases s p with ⟨-,he⟩ | ⟨hp,he⟩ <;> rw [he]
      · exact .of_plain rfl .nil rfl (fun _ => rfl) (fun _ => id) rfl
      · exact .of_plain rfl (by simp) rfl (owns_cancelPrepared p) (by simp) rfl
    | settlePrepared p =>
      simp only [effect]
      rcases settlePrepared_cases s p with he | ⟨hp,he⟩ | ⟨-,-,-,he⟩ <;> rw [he]
      · exact .of_plain rfl .nil rfl (fun _ => rfl) (fun _ => id) rfl
      · exact .of_plain rfl (by simp) rfl (owns_cancelPrepared p) (by simp) rfl
      · exact .of_plain rfl (by simp) rfl (fun _ => rfl) (fun _ => id) rfl
    | setStop c =>
      exact .of_plain rfl .nil rfl (owns_setStop c) (fun _ => id) rfl
    | setActivate p => exact .of_plain rfl .nil rfl (fun _ => rfl) (fun _ => id) rfl
    | stop remove =>
      have hd : LifecycleInv (dropPrepared s) := hlife.dropPrepared
      have ho : ∀ c, ownsLifecycle (stopLocalLocked (dropPrepared s)) c = ownsLifecycle s c :=
        fun c => owns_stopLocal hd c
      cases remove with
      | false =>
        exact .of_plain rfl (by simp [effect,stop,stopSection]) rfl ho
          (by simp [effect,stop,stopSection]) (by simp [effect,stop,stopSection])
      | true =>
        refine .of_plain rfl (by simp [effect,stop,stopSection]) rfl
          (fun c => (owns_of_toLifecycle ?_ c).trans (ho c))
          (by simp [effect,stop,stopSection]) (by simp [effect,stop,stopSection])
        simp [effect,stop,stopSection]
    | shutdown deregister =>
      have hd : LifecycleInv (dropPrepared s) := hlife.dropPrepared
      refine .of_plain rfl (by simp [effect,shutdown]) rfl
        (fun c => (owns_of_toLifecycle (s := stopLocalLocked (dropPrepared s)) ?_ c).trans
          (owns_stopLocal hd c)) (by simp [effect,shutdown]) (by simp [effect,shutdown])
      simp [effect,shutdown]
    | finishWorker c =>
      simp only [effect]
      rcases finishWorker_cases s t c with ⟨o,-,-,-,he⟩ | ⟨-,he⟩ <;> rw [he]
      · refine .finished c rfl (fun d => ?_) (fun d => ?_) (fun d => ?_) rfl rfl
        · simp [Instr.plays,Role.runs]
        · simp [Instr.plays,Role.enters]
        · exact owns_forgetWorker (s := claimPending s o) c d
      · refine .finished c rfl (fun d => ?_) (fun d => ?_) (owns_forgetWorker c) rfl rfl
        · simp [Instr.plays,Role.runs]
        · simp [Instr.plays,Role.enters]
    | _ => simp [Instr.movesLifecycle] at hm

end Change

/-! ### Worker threads through one step -/

/-- No instruction pushes the entry of a Prepared thread. -/
theorem effect_push_enters (cfg : Config) {s : State} (alive : ℕ → Bool) (t fresh : ℕ) (ch : Choice)
    (i : Instr) (c : ℕ) :
    (effect cfg alive t fresh ch s i).push.countP (Instr.plays (Role.enters c)) = 0 := by
  by_cases hs : i.simple = true
  · exact (effect_simple cfg s alive t fresh ch hs).1.enters c
  by_cases hent : ∃ d, i = .preparedWorkerEntry d
  · obtain ⟨d,rfl⟩ := hent
    simp only [effect]
    split <;> simp [Instr.plays,Role.enters]
  cases hm : i.movesLifecycle with
  | false =>
    have hb := balance_workerRole (s := s) cfg alive t fresh ch (workerRole_enters c) hm
      fun d hd => hent ⟨d,hd⟩
    have hx : i.plays (Role.enters c) = false := by
      cases i <;> simp [Instr.plays,Role.enters] at hent ⊢
    rw [if_neg (by simp [hx])] at hb
    omega
  | true =>
    cases i with
    | prepareStart activate =>
      simp only [effect]
      rcases prepareStart_cases s t fresh activate ch.startError with
        he | ⟨e,he⟩ | ⟨-,he⟩ <;> rw [he]
      · rfl
      · rfl
      · cases activate <;> simp [Instr.plays,Role.enters]
    | finishWorker d =>
      simp only [effect]
      rcases finishWorker_cases s t d with ⟨o,-,-,-,he⟩ | ⟨-,he⟩ <;> rw [he] <;>
        simp [Instr.plays,Role.enters]
    | _ => simp [Instr.simple,Instr.movesLifecycle] at hs hm

namespace WorkerAccount
variable {i : Instr} {r n r' n' x y : ℕ → ℕ}

theorem published (h : WorkerAccount s r n) (hrep : LifecycleInv s) (hr : ∀ c, r' c = r c)
    (hn : ∀ c, n' c = n c + if c = s.nextPrepared then 1 else 0)
    (ho : ∀ c, ownsLifecycle s' c = ownsLifecycle s c)
    (hp : s'.preparedStart = some s.nextPrepared) (hnext : s'.nextPrepared = s.nextPrepared + 1) :
    WorkerAccount s' r' n' := by
  have hfresh := h.fresh s.nextPrepared le_rfl
  constructor
  · intro c hc
    rw [ho c]
    exact h.running c (hr c ▸ hc)
  · intro c
    rw [hr c,hn c]
    split
    · rename_i hc
      subst hc
      omega
    · exact h.once c
  · intro c hc
    rw [ho c] at hc
    have hne : c ≠ s.nextPrepared := (hrep.owned hc).1.ne
    rw [hr c,hn c,if_neg hne]
    exact h.owned c hc
  · intro p hps
    obtain rfl := Option.some.inj (hps.symm.trans hp)
    rw [hn _,if_pos rfl]
    omega
  · intro c hc
    rw [hr c,hn c,if_neg (by omega)]
    exact h.fresh c (by omega)

/-- A thread enters its Worker: it runs it if the context owns a lifecycle, and ends here if
the token was cancelled. -/
theorem entered (h : WorkerAccount s r n) {c : ℕ} (hne : s.preparedStart ≠ some c)
    (hr : ∀ d, r' d = r d + if d = c ∧ ownsLifecycle s c = true then 1 else 0)
    (hn : ∀ d, n' d + (if d = c then 1 else 0) = n d) : WorkerAccount s r' n' := by
  have hc := hn c
  rw [if_pos rfl] at hc
  have hother : ∀ d, d ≠ c → r' d = r d ∧ n' d = n d := fun d hd => by
    have := hr d
    have := hn d
    simp only [hd,false_and,if_false] at *
    omega
  have hself : r' c + n' c = if ownsLifecycle s c = true then r c + n c else r c + n c - 1 := by
    have hrc := hr c
    simp only [true_and] at hrc
    split at hrc
    · rw [if_pos ‹_›]
      omega
    · rw [if_neg ‹_›]
      omega
  have honce := h.once c
  constructor
  · intro d hd
    by_cases hdc : d = c
    · subst hdc
      by_contra hno
      have := hr d
      rw [if_neg fun h => hno h.2] at this
      omega
    · exact h.running d ((hother d hdc).1 ▸ hd)
  · intro d
    by_cases hdc : d = c
    · subst hdc
      rw [hself]
      split <;> omega
    · rw [(hother d hdc).1,(hother d hdc).2]
      exact h.once d
  · intro d hd
    by_cases hdc : d = c
    · subst hdc
      rw [hself,if_pos hd]
      exact h.owned d hd
    · rw [(hother d hdc).1,(hother d hdc).2]
      exact h.owned d hd
  · intro p hp
    have hpc : p ≠ c := fun he => hne (he ▸ hp)
    rw [(hother p hpc).2]
    exact h.prepared p hp
  · intro d hd
    have hfresh := h.fresh d hd
    by_cases hdc : d = c
    · subst hdc
      omega
    · rw [(hother d hdc).1,(hother d hdc).2]
      exact hfresh

theorem finished (h : WorkerAccount s r n) {c : ℕ}
    (hr : ∀ d, r' d + (if d = c then 1 else 0) = r d) (hn : ∀ d, n' d = n d)
    (ho : ∀ d, ownsLifecycle s' d = (ownsLifecycle s d && decide (d ≠ c)))
    (hp : s'.preparedStart = s.preparedStart) (hnext : s'.nextPrepared = s.nextPrepared) :
    WorkerAccount s' r' n' := by
  have hother : ∀ d, d ≠ c → r' d = r d := fun d hd => by simpa [hd] using hr d
  have hc := hr c
  rw [if_pos rfl] at hc
  have honce := h.once c
  constructor
  · intro d hd
    have hdc : d ≠ c := by
      rintro rfl
      omega
    simp [ho d,h.running d (hother d hdc ▸ hd),hdc]
  · intro d
    have := hr d
    have := h.once d
    rw [hn d]
    omega
  · intro d hd
    simp only [ho d,Bool.and_eq_true,decide_eq_true_eq] at hd
    rw [hother d hd.2,hn d]
    exact h.owned d hd.1
  · intro p hps
    rw [hn p]
    exact h.prepared p (hp ▸ hps)
  · intro d hd
    have := hr d
    have := h.fresh d (hnext ▸ hd)
    rw [hn d]
    omega

theorem committed (h : WorkerAccount s r n) {p : ℕ} (hr : ∀ c, r' c = r c)
    (hn : ∀ c, n' c = n c) (hps : s.preparedStart = some p) (hps' : s'.preparedStart = none)
    (ho : ∀ c, ownsLifecycle s' c = (ownsLifecycle s c || decide (c = p)))
    (hnext : s'.nextPrepared = s.nextPrepared) : WorkerAccount s' r' n' := by
  obtain rfl : r' = r := funext hr
  obtain rfl : n' = n := funext hn
  refine ⟨fun c hc => by simp [ho c,h.running c hc],h.once,fun c hc => ?_,
    by simp [hps'],fun c hc => h.fresh c (hnext ▸ hc)⟩
  simp only [ho c,Bool.or_eq_true,decide_eq_true_eq] at hc
  rcases hc with hc | rfl
  · exact h.owned c hc
  · have := h.prepared c hps
    have := h.once c
    omega

theorem of_change (h : WorkerAccount s r n) (hrep : LifecycleInv s)
    (hent : ∀ c, i = .preparedWorkerEntry c → s.preparedStart ≠ some c)
    (hc : WorkerChange s i s' x y)
    (hr : ∀ c, r' c + (if i.plays (Role.runs c) then 1 else 0) = r c + x c)
    (hn : ∀ c, n' c + (if i.plays (Role.enters c) then 1 else 0) = n c + y c) :
    WorkerAccount s' r' n' := by
  have plain : i.role = .plain → ∀ c, i.plays (Role.runs c) = false ∧
      i.plays (Role.enters c) = false := fun hi c => by
    simp [Instr.plays,hi,Role.runs,Role.enters]
  cases hc with
  | quiet hx hy ho hp hnext =>
    obtain rfl : r' = r := funext fun c => by
      have := hr c
      rw [hx c] at this
      omega
    obtain rfl : n' = n := funext fun c => by
      have := hn c
      rw [hy c] at this
      omega
    exact ⟨fun c hc => (ho c).trans (h.running c hc),h.once,fun c hc => h.owned c (ho c ▸ hc),
      fun p hps => h.prepared p (hp p hps),fun c hc => h.fresh c (hnext ▸ hc)⟩
  | published hi hx hy ho hp hnext =>
    exact h.published hrep (fun c => by simpa [(plain hi c).1,hx c] using hr c)
      (fun c => by simpa [(plain hi c).2,hy c] using hn c) ho hp hnext
  | entered c hi hx hy hs =>
    subst hs
    refine h.entered (c := c) (hent c hi) (fun d => ?_) (fun d => ?_)
    · simpa [hi,Instr.plays,Role.runs,hx d] using hr d
    · simpa [hi,Instr.plays,Role.enters,hy d,eq_comm (a := c)] using hn d
  | finished c hi hx hy ho hp hnext =>
    refine h.finished (c := c) (fun d => ?_) (fun d => ?_) ho hp hnext
    · simpa [hi,Instr.plays,Role.runs,hx d,eq_comm (a := c)] using hr d
    · simpa [hi,Instr.plays,Role.enters,hy d] using hn d
  | committed p hi hx hy hp hp' _ ho hnext =>
    have hpl : i.role = .plain := by simp [hi]
    exact h.committed (fun c => by simpa [(plain hpl c).1,hx c] using hr c)
      (fun c => by simpa [(plain hpl c).2,hy c] using hn c) hp hp' ho hnext

end WorkerAccount

section
variable (cfg : Config) (alive : ℕ → Bool) (t fresh : ℕ) (ch : Choice) {i : Instr}

/-- A Worker goes on only where it was running or has just entered. -/
theorem effect_push_runs (h : Rep s) {c : ℕ} {j : Instr}
    (hj : j ∈ (effect cfg alive t fresh ch s i).push) (hr : j.plays (Role.runs c) = true) :
    i.plays (Role.runs c) = true ∨ i = .preparedWorkerEntry c := by
  have hpos : 0 < (effect cfg alive t fresh ch s i).push.countP (Instr.plays (Role.runs c)) :=
    List.countP_pos_iff.mpr ⟨j,hj,hr⟩
  cases workerChange cfg alive t fresh ch h (i := i) with
  | quiet hx =>
    have := hx c
    by_contra hn
    rw [if_neg fun hp => hn (Or.inl hp)] at this
    omega
  | published _ hx =>
    have := hx c
    omega
  | entered d hi hx =>
    have := hx c
    by_cases hc : c = d
    · exact Or.inr (hc ▸ hi)
    · rw [if_neg fun hp => hc hp.1] at this
      omega
  | finished d _ hx =>
    have := hx c
    omega
  | committed p _ hx =>
    have := hx c
    omega

/-- Only the activation of its token makes a context own a lifecycle. -/
theorem effect_owns (h : Rep s) {c : ℕ}
    (ho : ownsLifecycle (effect cfg alive t fresh ch s i).state c = true) :
    ownsLifecycle s c = true ∨ (i = .activatePreparedStart c ∧ s.preparedStart = some c ∧
      (effect cfg alive t fresh ch s i).state = waitForActive (publishWorker s c) c) := by
  cases workerChange cfg alive t fresh ch h (i := i) with
  | quiet _ _ hown => exact Or.inl ((hown c).symm.trans ho)
  | published _ _ _ hown => exact Or.inl ((hown c).symm.trans ho)
  | entered _ _ _ _ hs => exact Or.inl (hs ▸ ho)
  | finished _ _ _ _ hown =>
    rw [hown c,Bool.and_eq_true] at ho
    exact Or.inl ho.1
  | committed p hi _ _ hp _ hs hown =>
    rw [hown c,Bool.or_eq_true,decide_eq_true_eq] at ho
    rcases ho with ho | rfl
    · exact Or.inl ho
    · exact Or.inr ⟨hi,hp,hs⟩

end
end FlaskXxlJob.Registry
