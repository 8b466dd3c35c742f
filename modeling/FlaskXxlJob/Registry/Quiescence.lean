import FlaskXxlJob.Registry.Obligations

/-!
Where the service comes to rest. When no thread can take a step but a current Worker that sleeps,
every Remove, coordination and cancelled token has been settled and no thread waits for one.
-/
namespace FlaskXxlJob.Registry
open FlaskXxlJob.Client Interleaving

variable {cfg : Config} {s s' : State}

/-! ### What a Worker waits for -/

@[simp] theorem detachWorker_waits (c d : ℕ) :
    ((detachWorker s c).contexts d).waitRemoveEvent = (s.contexts d).waitRemoveEvent := by
  by_cases h : d = c <;> simp [detachWorker,State.updateContext,h]

@[simp] theorem stopLocalLocked_waits (d : ℕ) :
    ((stopLocalLocked s).contexts d).waitRemoveEvent = (s.contexts d).waitRemoveEvent := by
  unfold stopLocalLocked
  split <;> simp

@[simp] theorem forgetWorker_waits (c d : ℕ) :
    ((forgetWorker s c).contexts d).waitRemoveEvent = (s.contexts d).waitRemoveEvent := by
  by_cases h : d = c <;> simp [forgetWorker,State.updateContext,h]

@[simp] theorem cancelPrepared_waits (p d : ℕ) :
    ((cancelPrepared s p).contexts d).waitRemoveEvent = (s.contexts d).waitRemoveEvent := by
  unfold cancelPrepared disownPrepared State.updateContext
  by_cases h : d = (s.prepareds p).context
  · subst h
    simp only [dropPrepared_frame,Function.update_self]
    split <;> rfl
  · simp [h]

/-- A context waits for an operation that was Active at its activation. -/
theorem effect_waitRemoveEvent (cfg : Config) (h : LifecycleInv s) (alive : ℕ → Bool)
    (t fresh : ℕ) (ch : Choice) {i : Instr} {c o : ℕ}
    (hw : ((effect cfg alive t fresh ch s i).state.contexts c).waitRemoveEvent = some o) :
    (s.contexts c).waitRemoveEvent = some o ∨ s.activeRemove = some o := by
  cases hm : i.movesLifecycle with
  | false =>
    rw [effect_toLifecycle cfg s t fresh alive ch hm] at hw
    exact Or.inl hw
  | true =>
    cases i with
    | prepareStart activate =>
      simp only [effect] at hw
      rcases prepareStart_cases s t fresh activate ch.startError with
        he | ⟨e,he⟩ | ⟨-,he⟩ <;> rw [he] at hw
      · exact Or.inl hw
      · exact Or.inl hw
      · by_cases hc : c = s.nextPrepared <;> simp [publishPrepared,hc] at hw
        exact Or.inl hw
    | activatePreparedStart p =>
      simp only [effect] at hw
      rcases activatePreparedStart_cases t h p with ⟨-,he⟩ | ⟨-,-,he⟩ <;> rw [he] at hw
      · exact Or.inl hw
      · simp only [waitForActive] at hw
        split at hw
        · rename_i o' ha
          by_cases hc : c = p
          · simp [State.updateContext,hc] at hw
            exact Or.inr (hw ▸ ha)
          · simp [State.updateContext,hc] at hw
            exact Or.inl hw
        · exact Or.inl hw
    | cancelPreparedStart p =>
      simp only [effect] at hw
      rcases cancelPreparedStart_cases s p with ⟨-,he⟩ | ⟨-,he⟩ <;> rw [he] at hw
      · exact Or.inl hw
      · exact Or.inl (by simpa using hw)
    | settlePrepared p =>
      simp only [effect] at hw
      rcases settlePrepared_cases s p with he | ⟨-,he⟩ | ⟨-,-,-,he⟩ <;> rw [he] at hw
      · exact Or.inl hw
      · exact Or.inl (by simpa using hw)
      · exact Or.inl hw
    | setStop d =>
      left
      by_cases hc : c = d
      · subst hc
        simpa [effect,State.updateContext] using hw
      · simpa [effect,State.updateContext,hc] using hw
    | setActivate p => exact Or.inl hw
    | stop remove => exact Or.inl (by cases remove <;> simpa [effect,stop,stopSection] using hw)
    | shutdown deregister => exact Or.inl (by simpa [effect,shutdown] using hw)
    | finishWorker d =>
      simp only [effect] at hw
      rcases finishWorker_cases s t d with ⟨x,-,-,-,he⟩ | ⟨-,he⟩ <;> rw [he] at hw <;>
        exact Or.inl (by simpa using hw)
    | _ => simp [Instr.movesLifecycle] at hm

/-- A named operation that is not Pending and will not be again. -/
def Taken (s : State) (o : ℕ) : Prop := o < s.nextOperation ∧ s.pendingRemove ≠ some o

theorem Taken.grows {o n : ℕ} (h : Taken s o) (hc : s.toCleanup.Grows n s'.toCleanup) :
    Taken s' o := by
  refine ⟨h.1.trans_le hc.operations,fun hp => ?_⟩
  rcases hc.pending o hp with hp | hn
  · exact h.2 hp
  · exact absurd h.1 (not_lt.mpr hn)

namespace Instr

/-- What an instruction waits for, or goes on to wait for, has been published. -/
def Published (s : State) : Instr → Prop
  | .waitActivate p => p < s.nextPrepared
  | .waitRemove _ o => Taken s o
  | .waitOperation o | .schedulePendingRemove (.observer o _) => o < s.nextOperation
  | .waitCoordination k => k < s.nextCoordination
  | _ => True

/-- The instructions that name what they wait for. -/
def names : Instr → Bool
  | .waitActivate _ | .waitRemove .. | .waitOperation _ | .waitCoordination _
  | .schedulePendingRemove (.observer ..) => true
  | _ => false

theorem published_of_not {i : Instr} (h : i.names = false) : i.Published s := by
  cases i with
  | schedulePendingRemove caller => cases caller <;> simp_all [names,Published]
  | _ => simp_all [names,Published]

theorem Published.grows {n : ℕ} {i : Instr} (h : i.Published s)
    (hl : s.toLifecycle.Grows s'.toLifecycle) (hc : s.toCleanup.Grows n s'.toCleanup) :
    i.Published s' := by
  cases i with
  | waitActivate p => exact lt_of_lt_of_le h hl.names
  | waitRemove c o => exact Taken.grows h hc
  | waitOperation o => exact lt_of_lt_of_le h hc.operations
  | waitCoordination k => exact lt_of_lt_of_le h hc.coordinations
  | schedulePendingRemove caller =>
    cases caller with
    | observer o g => exact lt_of_lt_of_le h hc.operations
    | _ => trivial
  | _ => trivial

/-- Only a Worker's thread and `remove_executor` go on to wait for something. -/
theorem of_names_next {i j : Instr} (hn : i.Next j) (hj : j.names = true) :
    (∃ c, i = .runWorker c) ∨ (∃ g, i = .terminalRemove g) ∨
      ∃ o g, i = .schedulePendingRemove (.observer o g) := by
  cases i with
  | schedulePendingRemove caller =>
    cases caller <;> simp [Next,Scheduler.returned,Scheduler.failed] at hn <;> grind [names]
  | commit call q r => cases call <;> simp only [Next] at hn <;> grind [names]
  | network call => cases call <;> simp only [Next] at hn <;> grind [names]
  | rpc call =>
    obtain ⟨q,r,rfl⟩ := hn
    simp [names] at hj
  | _ => simp only [Next] at hn <;> grind [names]

end Instr

structure Published (s : System) : Prop where
  contexts : ∀ c o, (s.shared.contexts c).waitRemoveEvent = some o → Taken s.shared o
  threads : s.Everywhere fun _ i => i.Published s.shared

theorem effect_push_published (cfg : Config) (h : Rep s) (alive : ℕ → Bool) (t fresh : ℕ)
    (ch : Choice) {i j : Instr} (hi : i.Published s)
    (hw : ∀ c o, (s.contexts c).waitRemoveEvent = some o → Taken s o)
    (hj : j ∈ (effect cfg alive t fresh ch s i).push) :
    j.Published (effect cfg alive t fresh ch s i).state := by
  cases hjn : j.names with
  | false => exact Instr.published_of_not hjn
  | true =>
    have hc := h.cleanup
    rcases Instr.of_names_next (effect_push_next cfg s alive t fresh ch hj) hjn with
      ⟨c,rfl⟩ | ⟨g,rfl⟩ | ⟨o,g,rfl⟩
    · simp only [effect] at hj ⊢
      rcases guardCurrent_cases s c _ with ⟨-,he⟩ | ⟨-,he⟩ <;> rw [he] at hj ⊢ <;>
        simp only [List.mem_singleton] at hj <;> subst hj
      · split
        · exact hw c _ ‹_›
        · trivial
      · trivial
    · have hsaw := terminalView_saw s g
      simp only [effect,terminalRemove] at hj ⊢
      split at hj <;> rename_i hv <;> simp only [hv] at hsaw ⊢ <;>
        simp only [List.mem_cons,List.not_mem_nil,or_false] at hj
      · subst hj
        trivial
      · rcases hj with rfl | rfl
        · exact (hc.coordination _ hsaw.1).1
        · trivial
      · subst hj
        trivial
      · rcases hj with rfl | rfl
        · exact (hc.active _ hsaw.2.1).1
        · trivial
      · subst hj
        exact (hc.pending _ hsaw.2.2.1).2.1
      · rcases hj with rfl | rfl
        · rcases hsaw.1 with ha | hp
          · exact (hc.active _ ha).1
          · exact (hc.pending _ hp).2.1
        · trivial
      · rcases hj with rfl | rfl <;> trivial
    · have hg := effect_cleanup_grows cfg h alive t fresh ch
        (i := .schedulePendingRemove (.observer o g)) trivial
      have ho : o < s.nextOperation := hi
      have hlt := ho.trans_le hg.operations
      simp only [effect] at hj hlt ⊢
      rcases schedulePendingRemove_cases cfg ch.now s t fresh alive (.observer o g) ch.startError
        with ⟨-,he⟩ | ⟨x,-,-,he⟩ | ⟨x,e,-,-,he⟩ <;> rw [he] at hj hlt ⊢ <;>
        simp [Scheduler.returned,Scheduler.failed] at hj
      · rcases hj with rfl | rfl
        · exact hlt
        · trivial
      · rcases hj with rfl | rfl
        · exact hlt
        · trivial
      · subst hj
        trivial

theorem Reachable.published {s : System} (h : Reachable cfg s) : Published s := by
  refine h.induct ⟨fun c o hw => ?_,fun _ _ hi => ?_⟩ (fun s c _ hp => ?_)
    fun s t i rest ch hinv hp hc _ => ?_
  · simp [System.blank,State.blank] at hw
  · simp [System.blank] at hi
  · refine ⟨hp.contexts,Machine.Everywhere.start hp.threads fun i hi => ?_⟩
    rcases entry_cases cfg c with he | ⟨i',he,hr,-⟩ <;> simp [machine,he] at hi
    subst hi
    refine Instr.published_of_not ?_
    cases c <;> simp only [entry] at he <;> grind [Instr.names]
  · have hi : i.Owned s.shared := hinv.owned (t := t) (by simp [hc])
    have hl := effect_lifecycle_grows cfg hinv.rep.lifecycle s.alive t s.next ch i
    have hg := effect_cleanup_grows cfg hinv.rep s.alive t s.next ch hi
    refine ⟨fun c o hw => ?_,hp.threads.advance (hinv.named.lt (by simp [hc])) hc
      (fun _ j _ _ hj => hj.grows hl hg) (fun j hj => ?_) fun body hb j hj => ?_⟩
    · rcases effect_waitRemoveEvent cfg hinv.rep.lifecycle s.alive t s.next ch hw with hw | ha
      · exact (hp.contexts c o hw).grows hg
      · have hne : s.shared.pendingRemove ≠ some o := fun hp =>
          (hinv.rep.cleanup.pending o hp).2.2.2.2.1 ha
        exact Taken.grows ⟨(hinv.rep.cleanup.active o ha).1,hne⟩ hg
    · exact effect_push_published cfg hinv.rep s.alive t s.next ch
        (hp.threads t i (by simp [hc])) hp.contexts hj
    · rcases effect_spawn_cases cfg s.shared t s.next s.alive ch i with
        hs | ⟨a,-,-,hst,hs⟩ | ⟨c,o,-,-,-,hs⟩ <;> rw [hs] at hb
      · cases hb
      · obtain rfl := Option.some.inj hb
        simp only [List.mem_cons,List.not_mem_nil,or_false] at hj
        rcases hj with rfl | rfl
        · rw [Sys.advance_shared,hst]
          exact Nat.lt_succ_self _
        · trivial
      · obtain rfl := Option.some.inj hb
        obtain rfl := List.mem_singleton.mp hj
        trivial

/-! ### At rest -/

/-- No thread can take a step but a current Worker that sleeps. -/
def Quiescent (cfg : Config) (s : System) : Prop :=
  ∀ t ch s', step cfg s (.run t ch) = some s' →
    ∃ c rest, s.code t = .sleep c :: rest ∧ s.shared.worker = some c

/-- A system whose threads have all ended. -/
theorem quiescent_of_ended {s : System} (h : ∀ t, s.code t = []) : Quiescent cfg s := by
  intro t ch s' hs
  obtain ⟨i,rest,hc,-⟩ := step_run_cases hs
  rw [h t] at hc
  cases hc

/-- An instruction that no other thread will let go on, or the sleep of the current Worker. -/
def Instr.Blocked (s : State) : Instr → Prop
  | .waitActivate p => (s.prepareds p).activateEvent = false
  | .waitRemove _ o | .waitOperation o => (s.operations o).doneEvent = false
  | .waitCoordination k => (s.coordinations k).doneEvent = false
  | .sleep c => s.worker = some c
  | _ => False

/-- The instructions that a quiescent system may still hold. -/
def Instr.rests : Instr → Bool
  | .waitActivate _ | .preparedWorkerEntry _ | .waitRemove .. | .sleep _ | .terminalRemove _
  | .waitOperation _ | .waitCoordination _ | .operationResult _ | .pendingResult .. => true
  | _ => false

theorem Instr.Blocked.rests {i : Instr} (h : i.Blocked s) : i.rests = true := by
  cases i <;> first | rfl | exact h.elim

theorem Instr.Resumes.rests {i j : Instr} (h : i.Resumes j) : j.rests = true := by
  rcases h with ⟨p,-,rfl⟩ | ⟨-,hj⟩
  · rfl
  · cases j <;> simp_all [Instr.collects,Instr.rests]

theorem Instr.Blocked.waits {i : Instr} (h : i.Blocked s) : i.waits = true := by
  cases i <;> first | rfl | exact h.elim

namespace Quiescent
variable {s : System} {t : ℕ} {i : Instr} {rest : List Instr}

section
variable (h : Quiescent cfg s) (hr : Reachable cfg s)
include h hr

/-- The holder of the network lock could call Admin. -/
theorem unlocked : s.shared.networkLock = none := by
  have hinv := hr.invariant
  by_contra hn
  have hcount : 0 < s.count Instr.holdsNetwork := by
    rw [hinv.network,lockCount,if_pos (Option.isSome_iff_ne_none.mpr hn)]
    exact Nat.one_pos
  obtain ⟨t,i,hi,hlock⟩ := System.exists_of_count hcount
  cases hc : s.code t with
  | nil => simp [hc] at hi
  | cons j rest =>
    rw [hc] at hi
    rcases List.mem_cons.mp hi with rfl | hrest
    · obtain ⟨c,rest',hc',-⟩ := h t {} _ (Machine.step_run_of hc (exec_eq_some.mpr
        ⟨by cases i <;> simp_all [Instr.holdsNetwork,enabled],rfl⟩))
      rw [hc] at hc'
      obtain ⟨rfl,-⟩ := List.cons_eq_cons.mp hc'
      simp [Instr.holdsNetwork] at hlock
    · simp [(hr.layered.below hc hrest).idle] at hlock

theorem blocked (hc : s.code t = i :: rest) : i.Blocked s.shared := by
  by_contra hn
  have hlock := h.unlocked hr
  have hen : enabled s.shared { timeout := true } i = true := by
    cases i <;> simp_all [Instr.Blocked,enabled]
  obtain ⟨c,rest',hc',hw⟩ := h t _ _ (Machine.step_run_of hc (exec_eq_some.mpr ⟨hen,rfl⟩))
  rw [hc] at hc'
  obtain ⟨rfl,-⟩ := List.cons_eq_cons.mp hc'
  exact hn hw

/-- What a thread holds is blocked or goes on with what is. -/
theorem blocked_or (hi : i ∈ s.code t) : i.Blocked s.shared ∨ ∃ j : Instr, j.Resumes i := by
  cases hc : s.code t with
  | nil => simp [hc] at hi
  | cons j rest =>
    have hb := h.blocked hr hc
    rw [hc] at hi
    rcases List.mem_cons.mp hi with rfl | hi
    · exact Or.inl hb
    · exact Or.inr ⟨j,(hr.layered.below hc hi).resumes hb.waits⟩

theorem rests (hi : i ∈ s.code t) : i.rests = true := by
  rcases h.blocked_or hr hi with hb | ⟨j,hj⟩
  · exact hb.rests
  · exact hj.rests

/-- Nothing is owed any more. -/
theorem settled {P : Instr → Prop} (hs : s.Somewhere P) (hP : ∀ i, P i → i.rests = false) :
    False := by
  obtain ⟨t,i,hi,hp⟩ := hs
  simpa [h.rests hr hi] using hP i hp

theorem no_count {p : Instr → Bool} (hp : ∀ i, p i = true → i.rests = false) :
    s.count p = 0 := by
  by_contra hn
  obtain ⟨t,i,hi,hpi⟩ := System.exists_of_count (Nat.pos_of_ne_zero hn)
  simpa [h.rests hr hi] using hp i hpi

theorem active : s.shared.activeRemove = none := by
  rw [Option.eq_none_iff_forall_ne_some]
  intro o ho
  have hcount := hr.invariant.actives o
  rw [ho,slot_self,h.no_count hr fun i hi => ?_] at hcount
  · cases hcount
  · cases i <;> simp_all [Instr.plays,Role.executes,Instr.role,Instr.rests]

theorem idle (k : ℕ) : (s.shared.coordinations k).inflightCount = 0 := by
  rw [← hr.invariant.tokens k]
  refine h.no_count hr fun i hi => ?_
  cases i <;> simp_all [Instr.plays,Role.holdsToken,Instr.role,Instr.rests]

theorem actors : s.shared.cleanupActors = ∅ := by
  rw [Finset.eq_empty_iff_forall_notMem]
  intro t ht
  have hcount := hr.invariant.actors t
  rw [member_of_mem ht] at hcount
  obtain ⟨i,hi,hact⟩ := List.countP_pos_iff.mp (hcount ▸ Nat.one_pos)
  have := h.rests hr hi
  cases i <;> simp_all [Instr.plays,Role.acts,Instr.role,Instr.rests]

/-- An operation without a slot is done. -/
theorem done {o : ℕ} (ho : o < s.shared.nextOperation) (hp : s.shared.pendingRemove ≠ some o) :
    (s.shared.operations o).doneEvent = true := by
  rcases hr.obliged.operations o ho with (hd | hpend | ha) | hs
  · exact hd
  · exact absurd hpend hp
  · simp [h.active hr] at ha
  · exact (h.settled hr hs fun i hi => hi ▸ rfl).elim

/-- The thread of a cancelled or committed token has been woken. -/
theorem woken {p : ℕ} (hp : p < s.shared.nextPrepared) (hne : s.shared.preparedStart ≠ some p) :
    (s.shared.prepareds p).activateEvent = true := by
  rcases hr.obliged.tokens p hp with (hs | ha) | hs
  · exact absurd hs hne
  · exact ha
  · exact (h.settled hr hs fun i hi => hi ▸ rfl).elim

theorem accounted {k : ℕ} (hk : k < s.shared.nextCoordination) :
    (s.shared.coordinations k).doneEvent = true := by
  rcases hr.obliged.coordinations k hk with (hd | hin) | hs
  · exact hd
  · simp [h.idle hr k] at hin
  · exact (h.settled hr hs fun i hi => hi ▸ rfl).elim

/-- No Worker is on its way to its first RPC. -/
theorem no_entry {c : ℕ} (ho : ownsLifecycle s.shared c = true) :
    s.count (Instr.plays (Role.enters c)) = 0 := by
  have hinv := hr.invariant
  by_contra hn
  obtain ⟨t,i,hi,he⟩ := System.exists_of_count (Nat.pos_of_ne_zero hn)
  obtain rfl : i = .preparedWorkerEntry c := by
    cases i <;> simp_all [Instr.plays,Role.enters,Instr.role]
  rcases hinv.entries t c hi with hc | ⟨hc,-⟩
  · have hb : (s.shared.prepareds c).activateEvent = false := h.blocked hr hc
    have hne : s.shared.preparedStart ≠ some c := fun hp => by
      simp [hinv.rep.lifecycle.prepared_not_owned hp] at ho
    simp [h.woken hr (hinv.rep.lifecycle.owned ho).1 hne] at hb
  · exact h.blocked hr hc

/-- A Worker that is not the current one has finished. -/
theorem owned {c : ℕ} (ho : ownsLifecycle s.shared c = true) : s.shared.worker = some c := by
  have hinv := hr.invariant
  have hone := hinv.workers.owned c ho
  simp only [h.no_entry hr ho,Nat.add_zero] at hone
  obtain ⟨t,i,hi,hrun⟩ := System.exists_of_count (hone ▸ Nat.one_pos)
  have hrest := h.rests hr hi
  rcases h.blocked_or hr hi with hb | ⟨j,⟨p,-,rfl⟩ | ⟨-,hcol⟩⟩
  · cases i with
    | waitRemove d o =>
      obtain ⟨hlt,hne⟩ : Taken s.shared o := hr.published.threads t _ hi
      have hd : (s.shared.operations o).doneEvent = false := hb
      simp [h.done hr hlt hne] at hd
    | sleep d =>
      obtain rfl : d = c := by simpa [Instr.plays,Role.runs,Instr.role] using hrun
      exact hb
    | _ => simp_all [Instr.plays,Role.runs,Instr.role,Instr.rests]
  · simp [Instr.plays,Role.runs,Instr.role] at hrun
  · cases i <;> simp_all [Instr.plays,Role.runs,Instr.role,Instr.collects]

theorem stopping : s.shared.stoppingWorkers = ∅ := by
  have hinv := hr.invariant
  have hno : ∀ g, s.shared.stoppingWorkers.lookup g = none := by
    intro g
    rw [Option.eq_none_iff_forall_ne_some]
    intro c hc
    obtain ⟨-,hg,-⟩ := hinv.rep.lifecycle.stopping g c hc
    have hw := h.owned hr (ownsLifecycle_iff.mpr (Or.inr (hg.symm ▸ hc)))
    obtain ⟨-,hg',hn⟩ := hinv.rep.lifecycle.worker c hw
    rw [← hg',hg,hc] at hn
    cases hn
  refine AList.ext (List.eq_nil_iff_forall_not_mem.mpr fun x hx => ?_)
  have := AList.mem_lookup_iff.mpr hx
  simp [hno] at this

theorem pending : s.shared.pendingRemove = none := by
  rw [Option.eq_none_iff_forall_ne_some]
  intro o ho
  rcases hr.obliged.pending o ho with (ha | hs | hth) | hs
  · exact ha (h.active hr)
  · simp [h.stopping hr] at hs
  · obtain ⟨d,hd⟩ := Option.ne_none_iff_exists'.mp hth
    rcases hr.obliged.actors o d hd with hi | hi <;> simpa [Instr.rests] using h.rests hr hi
  · refine h.settled hr hs fun i hi => ?_
    cases i <;> simp_all [Instr.schedules,Instr.rests]

theorem coordination : s.shared.registerCoordination = none := by
  rw [Option.eq_none_iff_forall_ne_some]
  intro k hk
  obtain ⟨-,-,o,ho,-⟩ := hr.invariant.rep.coordination k hk (h.idle hr k)
  rcases ho with ho | ho
  · simp [h.active hr] at ho
  · simp [h.pending hr] at ho

/-- A thread at rest waits for its activation, is the sleeping Worker or has ended. -/
theorem stack (t : ℕ) : s.code t = [] ∨
    (∃ c, s.shared.worker = some c ∧ s.code t = [.sleep c]) ∨
    ∃ p rest, s.shared.preparedStart = some p ∧ s.code t = .waitActivate p :: rest := by
  cases hc : s.code t with
  | nil => exact Or.inl rfl
  | cons i rest =>
    right
    have hb := h.blocked hr hc
    have hpub := hr.published.threads t i (by simp [hc])
    have hres : ∀ j ∈ rest, i.Resumes j := fun j hj =>
      (hr.layered.below hc hj).resumes hb.waits
    cases i with
    | waitActivate p =>
      refine Or.inr ⟨p,rest,?_,rfl⟩
      by_contra hne
      have hb : (s.shared.prepareds p).activateEvent = false := hb
      simp [h.woken hr hpub hne] at hb
    | waitRemove c o =>
      have hb : (s.shared.operations o).doneEvent = false := hb
      simp [h.done hr hpub.1 hpub.2] at hb
    | waitOperation o =>
      have hb : (s.shared.operations o).doneEvent = false := hb
      simp [h.done hr hpub (by simp [h.pending hr])] at hb
    | waitCoordination k =>
      have hb : (s.shared.coordinations k).doneEvent = false := hb
      simp [h.accounted hr hpub] at hb
    | sleep c =>
      have hnil : rest = [] := List.eq_nil_iff_forall_not_mem.mpr fun j hj => by
        simpa [Instr.Resumes,Instr.observes] using hres j hj
      exact Or.inl ⟨c,hb,by rw [hnil]⟩
    | _ => exact hb.elim

end
end Quiescent

end FlaskXxlJob.Registry
