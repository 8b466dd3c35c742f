import FlaskXxlJob.Registry.Growth
import FlaskXxlJob.Registry.WorkerAccount

/-!
The invariant of every reachable system: the representation invariant of the process state and
the accounts that tie its slots, tokens and locks to instructions on the stacks.
-/
namespace FlaskXxlJob.Registry
open FlaskXxlJob.Client Interleaving

variable {cfg : Config} {s s' : State}

theorem Retired.grows {g : ℕ} (h : Retired s g) (hl : s.toLifecycle.Grows s'.toLifecycle) :
    Retired s' g := by
  have hg := hl.generation
  refine ⟨h.1.trans hg,fun he => ?_⟩
  rw [Option.eq_none_iff_forall_ne_some]
  intro c hc
  have h₁ := h.1
  rcases hl.worker c hc with hw | hlt
  · simp [h.2 (by omega)] at hw
  · omega

/-- A named operation that no slot holds any more. -/
def Abandoned (s : State) (o : ℕ) : Prop :=
  o < s.nextOperation ∧ s.pendingRemove ≠ some o ∧ s.activeRemove ≠ some o

theorem Abandoned.grows {o n : ℕ} (h : Abandoned s o) (hc : s.toCleanup.Grows n s'.toCleanup) :
    Abandoned s' o := by
  obtain ⟨hlt,hp,ha⟩ := h
  refine ⟨hlt.trans_le hc.operations,fun hp' => ?_,fun ha' => ?_⟩
  · rcases hc.pending o hp' with h | h
    · exact hp h
    · omega
  · rcases hc.active o ha' with h | h | h
    · exact ha h
    · exact hp h
    · omega

/-- A Prepared token that has left its slot. -/
def Settled (s : State) (p : ℕ) : Prop := p < s.nextPrepared ∧ s.preparedStart ≠ some p

theorem Settled.grows {p : ℕ} (h : Settled s p) (hl : s.toLifecycle.Grows s'.toLifecycle) :
    Settled s' p := by
  refine ⟨h.1.trans_le hl.names,fun hp => ?_⟩
  rcases hl.prepared p hp with hp | hp
  · exact h.2 hp
  · exact absurd h.1 (not_lt.mpr hp)

/-- What stays true of an instruction for as long as it waits on a stack. -/
def Instr.Standing (s : State) : Instr → Prop
  | .setOperationDone o => Abandoned s o
  | .setActivate p => Settled s p
  | .shutdownRequest g => Retired s g
  | _ => True

theorem Instr.Standing.grows {i : Instr} {n : ℕ} (h : i.Standing s)
    (hl : s.toLifecycle.Grows s'.toLifecycle) (hc : s.toCleanup.Grows n s'.toCleanup) :
    i.Standing s' := by
  cases i with
  | setOperationDone o => exact Abandoned.grows h hc
  | setActivate p => exact Settled.grows h hl
  | shutdownRequest g => exact Retired.grows h hl
  | _ => trivial

/-! ### Operations that leave their slot -/

section Abandon
variable {now : String} {o p : ℕ}

theorem CleanupInv.complete_abandons (h : CleanupInv s) (ho : s.activeRemove = some o)
    (r : CallResult) (q : ℕ) :
    Abandoned (Registry.completeRemoveOperation cfg now s o r q).1 o := by
  have hg := grows_complete cfg now h ho r q
  refine ⟨(h.active o ho).1.trans_le hg.operations,fun hp => ?_,by simp [ho]⟩
  rcases hg.pending o hp with hp | hp
  · exact (h.pending o hp).2.2.2.2.1 ho
  · exact absurd (h.active o ho).1 (by omega)

/-- An accepted success takes the cancelled Pending out of its slot. -/
theorem Rep.complete_cancels (h : Rep s) (ho : s.activeRemove = some o)
    (r : CallResult) (q : ℕ)
    (hp : (Registry.completeRemoveOperation cfg now s o r q).2 = some p) :
    s.pendingRemove = some p ∧
      (Registry.completeRemoveOperation cfg now s o r q).1.pendingRemove = none := by
  have hc := h.cleanup
  have hrep := (h.completeRemoveOperation cfg now ho r q).cleanup
  rcases hc.completeRemove_cases cfg now ho r q with
    ⟨-,he⟩ | ⟨-,-,he⟩ | ⟨-,-,hg,-,he⟩
  · rw [he] at hp
    cases hp
  · rw [he] at hp
    cases hp
  · rw [he] at hp hrep ⊢
    refine ⟨hp,?_⟩
    rw [Option.eq_none_iff_forall_ne_some]
    intro x hx
    apply (hrep.pending x hx).2.2.2.2.2
    have hgen : (Registry.reconcileGeneration (Registry.dropActive (Registry.satisfied cfg now s o r q))
        (s.operations o).generation).generation = s.generation := by
      rw [show ∀ x : State, x.generation = x.toLifecycle.generation from fun _ => rfl,
        (reconcileGeneration_frame _ _).1]
      rfl
    rw [hgen,(reconcileGeneration_frame _ _).2.2.2.2.1,hg]
    rfl

theorem CleanupInv.start_abandons (h : CleanupInv s) (hp : s.pendingRemove = some o)
    (ha : s.activeRemove = none) (t : ℕ) (e : String) :
    Abandoned (Registry.failActorStart cfg now s o t e) o := by
  obtain ⟨-,hlt,-⟩ := h.pending o hp
  refine ⟨hlt.trans_le (h.grows_failActorStart cfg now o t e).operations,fun hp' => ?_,
    by simp [ha]⟩
  have hc : CleanupInv (recordResultLocked cfg now
      (Registry.abandonOperation s o t (cfg.safeResult (startFailure e))) (startFailure e)
      .local) := (h.abandonOperation o t _).of_eq rfl rfl fun _ => id
  rcases (hc.grows_reconcileGeneration _).pending o hp' with hx | hx
  · cases hx
  · exact absurd hlt (not_lt.mpr hx)

theorem Rep.activate_abandons (h : Rep s) (hp : s.pendingRemove = some o) (c : ℕ) :
    Abandoned (waitForActive (publishWorker s c) c) o := by
  obtain ⟨-,hlt,-,-,hne,-⟩ := h.cleanup.pending o hp
  exact ⟨by simpa [publishWorker] using hlt,by simp [publishWorker],
    by simpa [publishWorker] using hne⟩

end Abandon

/-- The instructions that stand for something while they wait. -/
def Instr.stands : Instr → Bool
  | .setOperationDone _ | .setActivate _ | .shutdownRequest _ => true
  | _ => false

attribute [local simp] Instr.stands

theorem Instr.standing_of_not {i : Instr} (h : i.stands = false) : i.Standing s := by
  cases i <;> trivial

/-- A list of instructions none of which stands for anything. -/
def Idle (l : List Instr) : Prop := ∀ i ∈ l, i.stands = false

namespace Idle

@[simp] theorem nil : Idle [] := by simp [Idle]

@[simp] theorem cons {i : Instr} {l : List Instr} :
    Idle (i :: l) ↔ i.stands = false ∧ Idle l := by
  simp [Idle]

@[simp] theorem append {l l' : List Instr} : Idle (l ++ l') ↔ Idle l ∧ Idle l' := by
  simp only [Idle,List.mem_append]
  grind

@[simp] theorem scheduleFor (caller : Scheduler) (o : Option ℕ) : Idle (scheduleFor caller o) := by
  cases o <;> simp [Registry.scheduleFor]

@[simp] theorem scheduleOrClose (o : Option ℕ) : Idle (scheduleOrClose o) := by
  cases o <;> simp [Registry.scheduleOrClose]

@[simp] theorem setCoordinationDone (k : Option ℕ) :
    Idle (k.toList.map .setCoordinationDone) := by
  cases k <;> simp

@[simp] theorem returned (caller : Scheduler) : Idle caller.returned := by
  cases caller <;> simp [Scheduler.returned]

@[simp] theorem failed (caller : Scheduler) : Idle caller.failed := by
  cases caller <;> simp [Scheduler.failed]

theorem standing {l : List Instr} (h : Idle l) : ∀ i ∈ l, i.Standing s :=
  fun i hi => Instr.standing_of_not (h i hi)

end Idle

theorem standing_cons {i : Instr} {l : List Instr} (hi : i.Standing s)
    (hl : ∀ j ∈ l, j.Standing s) : ∀ j ∈ i :: l, j.Standing s := by
  intro j hj
  rcases List.mem_cons.mp hj with rfl | hj
  · exact hi
  · exact hl j hj

theorem standing_append {l l' : List Instr} (hl : ∀ j ∈ l, j.Standing s)
    (hl' : ∀ j ∈ l', j.Standing s) : ∀ j ∈ l ++ l', j.Standing s := by
  intro j hj
  rcases List.mem_append.mp hj with hj | hj
  · exact hl j hj
  · exact hl' j hj

theorem standing_cancelled {x : Option ℕ} (h : ∀ o, x = some o → Abandoned s o) :
    ∀ j ∈ x.toList.map Instr.setOperationDone, j.Standing s := by
  intro j hj
  obtain ⟨o,ho,rfl⟩ := List.mem_map.mp hj
  exact h o (by simpa using ho)

theorem standing_singleton {i : Instr} (hi : i.Standing s) : ∀ j ∈ [i], j.Standing s :=
  standing_cons hi (by simp)

theorem standing_wake {x : Option ℕ} (h : ∀ p, x = some p → Settled s' p) :
    ∀ j ∈ wakeCancelled s x, j.Standing s' := by
  cases x with
  | none => simp [wakeCancelled]
  | some p => exact standing_cons trivial (standing_singleton (h p rfl))

theorem LifecycleInv.drop_settles (h : LifecycleInv s) {p : ℕ} (hp : s.preparedStart = some p)
    (hl : s.toLifecycle.Grows s'.toLifecycle) (hs : s'.preparedStart = none) : Settled s' p :=
  ⟨(h.prepared p hp).1.trans_le hl.names,by simp [hs]⟩

theorem effect_spawn_idle (cfg : Config) (alive : ℕ → Bool) (t fresh : ℕ) (ch : Choice) (i : Instr) :
    Idle ((effect cfg alive t fresh ch s i).spawn.getD []) := by
  rcases effect_spawn_cases cfg s t fresh alive ch i with
    hs | ⟨a,-,-,-,hs⟩ | ⟨c,o,-,-,-,hs⟩ <;> rw [hs] <;> simp

/-- Every instruction pushes only what stands in the state it leaves. -/
theorem effect_push_standing (h : Rep s) (alive : ℕ → Bool) (t fresh : ℕ) (ch : Choice)
    {i : Instr} (hi : i.Owned s) : ∀ j ∈ (effect cfg alive t fresh ch s i).push,
      j.Standing (effect cfg alive t fresh ch s i).state := by
  have hl := h.lifecycle
  have hc := h.cleanup
  cases i with
  | prepareStart activate =>
    simp only [effect]
    rcases prepareStart_cases s t fresh activate ch.startError with
      he | ⟨e,he⟩ | ⟨-,he⟩ <;> rw [he]
    · exact Idle.nil.standing
    · exact Idle.nil.standing
    · exact Idle.standing (by cases activate <;> simp)
  | activatePreparedStart p =>
    simp only [effect]
    rcases activatePreparedStart_cases t hl p with ⟨-,he⟩ | ⟨hp,-,he⟩ <;> rw [he]
    · exact Idle.nil.standing
    · refine standing_append (standing_append
        (standing_cancelled fun o ho => h.activate_abandons ho p) (Idle.standing (by simp)))
        (standing_singleton ?_)
      exact hl.drop_settles hp (grows_commit hp (hl.prepared p hp).2.1) (by simp [publishWorker])
  | cancelPreparedStart p =>
    simp only [effect]
    rcases cancelPreparedStart_cases s p with ⟨-,he⟩ | ⟨hp,he⟩ <;> rw [he]
    · exact Idle.nil.standing
    · exact standing_cons trivial
        (standing_singleton (hl.drop_settles hp (grows_cancelPrepared p) rfl))
  | settlePrepared p =>
    simp only [effect]
    rcases settlePrepared_cases s p with he | ⟨hp,he⟩ | ⟨ho,-,hne,he⟩ <;> rw [he]
    · exact Idle.nil.standing
    · exact standing_cons trivial
        (standing_singleton (hl.drop_settles hp (grows_cancelPrepared p) rfl))
    · obtain ⟨hc,hlt⟩ := hl.owner _ p ho
      exact standing_singleton ⟨hc ▸ hlt,hne⟩
  | stop remove =>
    have hg := effect_lifecycle_grows cfg hl alive t fresh ch (.stop remove)
    cases remove with
    | false =>
      exact standing_append (standing_wake fun p hp => hl.drop_settles hp hg (by
        simp [effect,stop,stopSection])) (Idle.standing (by simp))
    | true =>
      exact standing_append (standing_wake fun p hp => hl.drop_settles hp hg (by
        simp [effect,stop,stopSection])) (Idle.standing (by simp))
  | shutdown deregister =>
    have hg := effect_lifecycle_grows cfg hl alive t fresh ch (.shutdown deregister)
    have hw : (shutdownLocal cfg s deregister).worker = none := by simp
    refine standing_append (standing_append (standing_wake fun p hp =>
      hl.drop_settles hp hg (by simp [effect,shutdown])) ?_)
      (Idle.standing (by simp))
    unfold exitRequest
    split
    · split
      · refine standing_cons ⟨le_rfl,fun _ => hw⟩ Idle.nil.standing
      · exact Idle.standing (by simp)
    · exact Idle.nil.standing
  | shutdownRequest g =>
    simp only [effect,shutdownRequest]
    split <;> exact Idle.standing (by simp)
  | runWorker c =>
    simp only [effect]
    rcases guardCurrent_cases s c _ with ⟨-,he⟩ | ⟨-,he⟩ <;> rw [he]
    · refine Idle.standing ?_
      split <;> simp
    · exact Idle.standing (by simp)
  | workerLoop c | recheckWorker c | performWorkerRegistry c =>
    simp only [effect]
    rcases guardCurrent_cases s c _ with ⟨-,he⟩ | ⟨-,he⟩ <;> rw [he] <;>
      exact Idle.standing (by simp)
  | finishWorker c =>
    simp only [effect]
    rcases finishWorker_cases s t c with ⟨o,-,-,-,he⟩ | ⟨-,he⟩ <;> rw [he] <;>
      exact Idle.standing (by simp)
  | network call =>
    simp only [effect]
    rcases enterNetwork_cases s t call with ⟨-,he⟩ | ⟨c,-,-,he⟩ <;> rw [he] <;>
      exact Idle.standing (by simp)
  | commit call q r =>
    cases call with
    | register k g =>
      cases k with
      | none => exact Idle.standing (by simp [effect,commitRpc,commitRegister])
      | some k =>
        refine Idle.standing ?_
        simp only [effect,commitRpc,commitRegister]
        split <;> simp
    | remove => exact Idle.standing (by simp [effect,commitRpc,commitRemove])
    | worker c =>
      refine Idle.standing ?_
      simp only [effect,commitRpc,commitWorker]
      split <;> simp
    | active o =>
      have ho : s.activeRemove = some o := hi
      have hcancel : ∀ p, (completeRemoveOperation cfg ch.now s o r q).2 = some p →
          Abandoned (completeRemoveOperation cfg ch.now s o r q).1 p := by
        intro p hp
        obtain ⟨hp,hnone⟩ := h.complete_cancels ho r q hp
        obtain ⟨-,hlt,-⟩ := hc.pending p hp
        exact ⟨hlt.trans_le (grows_complete cfg ch.now hc ho r q).operations,by simp [hnone],
          by simp [ho]⟩
      exact standing_append (standing_cons (hc.complete_abandons ho r q)
        (standing_cancelled hcancel)) (Idle.standing (by simp))
  | joinRegister => exact Idle.standing (by simp [effect,joinRegister])
  | removeOnce =>
    simp only [effect]
    rcases removeOnce_cases s t with ⟨-,he⟩ | ⟨-,he⟩ <;> rw [he] <;>
      exact Idle.standing (by simp)
  | terminalRemove g =>
    simp only [effect,terminalRemove]
    split <;> exact Idle.standing (by simp)
  | schedulePendingRemove caller =>
    simp only [effect]
    rcases schedulePendingRemove_cases cfg ch.now s t fresh alive caller ch.startError with
      ⟨-,he⟩ | ⟨o,-,-,he⟩ | ⟨o,e,ho,-,he⟩ <;> rw [he]
    · exact Idle.standing (by simp)
    · exact Idle.standing (by simp)
    · obtain ⟨hp,ha,-⟩ := schedulable_eq_some ho
      exact standing_cons ((hc.associateActor o fresh).start_abandons (by simpa using hp)
        (by simpa using ha) fresh e) (Idle.standing (by simp))
  | runCleanupActor o =>
    simp only [effect]
    rcases runCleanupActor_cases s o with ⟨-,-,he⟩ | ⟨-,he⟩ <;> rw [he] <;>
      exact Idle.standing (by simp)
  | maybeCloseLogs =>
    simp only [effect]
    split <;> exact Idle.standing (by simp)
  | pendingResult o g =>
    simp only [effect]
    split <;> exact Idle.standing (by simp)
  | preparedWorkerEntry c =>
    simp only [effect]
    split <;> exact Idle.standing (by simp)
  | sleep c =>
    simp only [effect]
    split <;> exact Idle.standing (by simp)
  | _ => exact Idle.standing (by simp [effect,callRegistry])

/-! ### The system -/

/-- How many instructions of the system meet `p`. -/
abbrev System.count (s : System) (p : Instr → Bool) : ℕ := total (tally p) s

structure Invariant (s : System) : Prop where
  named : s.Named
  rep : Rep s.shared
  actives : ∀ o, s.count (Instr.plays (Role.executes o)) = slot o s.shared.activeRemove
  tokens : ∀ k, s.count (Instr.plays (Role.holdsToken k)) =
    (s.shared.coordinations k).inflightCount
  unused : ∀ k, s.shared.nextCoordination ≤ k → (s.shared.coordinations k).inflightCount = 0
  network : s.count Instr.holdsNetwork = lockCount s.shared
  actors : ∀ t, (s.code t).countP (Instr.plays Role.acts) = member t s.shared.cleanupActors
  workers : WorkerAccount s.shared (fun c => s.count (Instr.plays (Role.runs c)))
    fun c => s.count (Instr.plays (Role.enters c))
  standing : s.Everywhere fun _ i => i.Standing s.shared
  entries : ∀ t c, .preparedWorkerEntry c ∈ s.code t →
    s.code t = [.waitActivate c, .preparedWorkerEntry c] ∨
    (s.code t = [.preparedWorkerEntry c] ∧ (s.shared.prepareds c).activateEvent = true)

theorem System.count_pos {s : System} (hn : s.Named) {t : ℕ} {i : Instr} {p : Instr → Bool}
    (hi : i ∈ s.code t) (hp : p i = true) : 0 < s.count p := by
  have h : tally p t i = 1 := if_pos hp
  exact (h ▸ Nat.one_pos).trans_le (le_total (f := tally p) hn hi)

theorem System.exists_of_count {s : System} {p : Instr → Bool} (h : 0 < s.count p) :
    ∃ t, ∃ i ∈ s.code t, p i = true := by
  obtain ⟨t,i,hi,hp⟩ := exists_of_total_pos h
  refine ⟨t,i,hi,?_⟩
  by_contra hn
  simp [tally,hn] at hp

theorem System.count_called (s : System) (c : Call) (p : Instr → Bool) :
    (s.called cfg c).count p = s.count p + (entry cfg c).countP p := by
  rw [← weigh_tally p s.next]
  exact total_start (machine cfg) c

theorem System.count_after (cfg : Config) {s : System} {t : ℕ} {i : Instr} {rest : List Instr}
    (ch : Choice) (hn : s.Named) (hc : s.code t = i :: rest) (p : Instr → Bool) :
    (s.after cfg t i rest ch).count p + (if p i then 1 else 0) =
      s.count p + ((effect cfg s.alive t s.next ch s.shared i).push.countP p +
        ((effect cfg s.alive t s.next ch s.shared i).spawn.getD []).countP p) := by
  have hmove := total_advance (f := tally p) hn hc (effect cfg s.alive t s.next ch s.shared i)
  simp only [weigh_tally] at hmove
  rw [← Nat.add_assoc]
  exact hmove

namespace Invariant
variable {s : System} {t : ℕ} {i : Instr} {rest : List Instr}

theorem executes (h : Invariant s) {o : ℕ} (hi : i ∈ s.code t)
    (hr : i.plays (Role.executes o) = true) : s.shared.activeRemove = some o := by
  have hp := System.count_pos h.named hi hr
  rw [h.actives o,slot] at hp
  by_contra hn
  simp [hn] at hp

theorem holdsToken (h : Invariant s) {k : ℕ} (hi : i ∈ s.code t)
    (hr : i.plays (Role.holdsToken k) = true) : 0 < (s.shared.coordinations k).inflightCount :=
  h.tokens k ▸ System.count_pos h.named hi hr

theorem runs (h : Invariant s) {c : ℕ} (hi : i ∈ s.code t)
    (hr : i.plays (Role.runs c) = true) : ownsLifecycle s.shared c = true :=
  h.workers.running c (System.count_pos h.named hi hr)

theorem holdsNetwork (h : Invariant s) (hi : i ∈ s.code t) (hr : i.holdsNetwork = true) :
    s.shared.networkLock ≠ none := by
  have hp := System.count_pos h.named hi hr
  rw [h.network,lockCount] at hp
  intro hn
  simp [hn] at hp

theorem acts (h : Invariant s) (hi : i ∈ s.code t) (hr : i.plays Role.acts = true) :
    t ∈ s.shared.cleanupActors := by
  have hp : 0 < (s.code t).countP (Instr.plays Role.acts) := List.countP_pos_iff.mpr ⟨i,hi,hr⟩
  rw [h.actors t,member] at hp
  by_contra hn
  simp [hn] at hp

/-- While one thread is inside the network lock no other one is. -/
theorem alone (h : Invariant s) (hc : s.code t = i :: rest) {t' : ℕ} {j : Instr}
    (hj : j ∈ s.code t') (hr : t' = t → j ∈ rest) (hn : j.holdsNetwork = true) :
    i.holdsNetwork = false := by
  by_contra hi
  have hle := add_le_total (f := tally Instr.holdsNetwork) h.named hc hj hr
  have hi : i.holdsNetwork = true := by simpa using hi
  have hlock : total (tally Instr.holdsNetwork) s ≤ 1 := by
    rw [show total (tally Instr.holdsNetwork) s = lockCount s.shared from h.network,lockCount]
    split <;> omega
  simp only [tally,hi,hn,if_true] at hle
  omega

/-- While one thread executes an operation no other one executes any. -/
theorem executes_alone (h : Invariant s) (hc : s.code t = i :: rest) {o p : ℕ}
    (hi : i.plays (Role.executes o) = true) {t' : ℕ} {j : Instr} (hj : j ∈ s.code t')
    (hr : t' = t → j ∈ rest) : j.plays (Role.executes p) = false := by
  by_contra hn
  have hn : j.plays (Role.executes p) = true := by simpa using hn
  have ho := h.executes (t := t) (by simp [hc]) hi
  obtain rfl := Option.some.inj (ho.symm.trans (h.executes hj hn))
  have hle := add_le_total (f := tally (Instr.plays (Role.executes o))) h.named hc hj hr
  have hone : total (tally (Instr.plays (Role.executes o))) s = 1 := by
    rw [show total (tally (Instr.plays (Role.executes o))) s = slot o s.shared.activeRemove from
      h.actives o,ho,slot_self]
  simp only [tally,hi,hn,if_true] at hle
  omega

theorem actor_alive (h : Invariant s) (ht : t ∈ s.shared.cleanupActors) : s.code t ≠ [] := by
  intro hc
  have ha := h.actors t
  rw [hc,member_of_mem ht] at ha
  simp at ha

theorem owned (h : Invariant s) (hi : i ∈ s.code t) : i.Owned s.shared := by
  cases i with
  | setOperationDone o => exact (h.standing t _ hi).2
  | setActivate p => exact (h.standing t _ hi).2
  | finishWorker c =>
    intro hp
    have ho := h.runs (c := c) hi (by simp [Instr.plays,Role.runs])
    simp [h.rep.lifecycle.prepared_not_owned hp] at ho
  | rpc call => exact h.holdsNetwork hi rfl
  | commit call q r =>
    cases call with
    | active o => exact h.executes hi (by simp [Instr.plays,Role.executes])
    | register k g =>
      cases k with
      | none => trivial
      | some k => exact h.holdsToken hi (by simp [Instr.plays,Role.holdsToken])
    | remove | worker => trivial
  | shutdownRequest g => exact h.standing t _ hi
  | _ => trivial

end Invariant

/-! ### Every run -/

/-- A call starts with at most one instruction. -/
theorem entry_cases (cfg : Config) (c : Call) : entry cfg c = [] ∨
    ∃ i, entry cfg c = [i] ∧ i.role = .plain ∧ i.stands = false := by
  cases c <;> simp only [entry] <;> (try split) <;> (try split) <;> simp

theorem Plain.entry (cfg : Config) (c : Call) : Plain (entry cfg c) := by
  rcases entry_cases cfg c with he | ⟨i,he,hr,-⟩ <;> simp [he]
  exact hr

theorem Idle.entry (cfg : Config) (c : Call) : Idle (entry cfg c) := by
  rcases entry_cases cfg c with he | ⟨i,he,-,hs⟩ <;> simp [he]
  exact hs

namespace Invariant
variable {s : System}

theorem blank : Invariant .blank where
  named _ _ := rfl
  rep := .blank
  actives o := rfl
  tokens k := rfl
  unused _ _ := rfl
  network := rfl
  actors _ := rfl
  workers := ⟨fun _ h => absurd h (lt_irrefl 0),fun _ => Nat.zero_le _,
    fun c h => by simp [ownsLifecycle,System.blank,State.blank] at h,
    (fun _ h => by cases h),fun _ _ => rfl⟩
  standing := fun _ _ h => by cases h
  entries := fun _ _ h => by cases h

theorem not_actor (h : Invariant s) {t : ℕ} (ht : s.next ≤ t) : t ∉ s.shared.cleanupActors :=
  fun ha => h.actor_alive ha (h.named t ht)

theorem start (h : Invariant s) (c : Call) : Invariant (s.called cfg c) := by
  have hpl := Plain.entry cfg c
  have hcount : ∀ p : Instr → Bool, (entry cfg c).countP p = 0 →
      System.count ((machine cfg).start s c) p = s.count p := by
    intro p hp
    rw [System.count_called,hp,Nat.add_zero]
  exact {
    named := Machine.Named.start h.named c
    rep := h.rep
    actives := fun o => (hcount _ (hpl.executes o)).trans (h.actives o)
    tokens := fun k => (hcount _ (hpl.holdsToken k)).trans (h.tokens k)
    unused := h.unused
    network := (hcount _ hpl.holdsNetwork).trans h.network
    actors := fun t => by
      by_cases ht : t = s.next
      · subst ht
        have hf := member_of_notMem (h.not_actor le_rfl)
        have hcode : ((machine cfg).start s c).code s.next = entry cfg c := by
          simp [Machine.start,machine]
        rw [hcode,hpl.acts]
        exact hf.symm
      · simpa [Machine.start,ht] using h.actors t
    workers := by
      have hr : (fun c' => System.count ((machine cfg).start s c) (Instr.plays (Role.runs c'))) =
          fun c' => s.count (Instr.plays (Role.runs c')) :=
        funext fun c' => hcount _ (hpl.runs c')
      have hn : (fun c' => System.count ((machine cfg).start s c)
          (Instr.plays (Role.enters c'))) = fun c' => s.count (Instr.plays (Role.enters c')) :=
        funext fun c' => hcount _ (hpl.enters c')
      rw [hr,hn]
      exact h.workers
    standing := Machine.Everywhere.start h.standing ((Idle.entry cfg c).standing)
    entries := fun t d hd => by
      by_cases ht : t = s.next
      · subst ht
        have hmem : Instr.preparedWorkerEntry d ∈ entry cfg c := by
          simpa [Machine.start,machine] using hd
        exact absurd (hpl _ hmem) (by simp)
      · simpa [Machine.start,ht] using h.entries t d (by simpa [Machine.start,ht] using hd) }

section Advance
variable {t : ℕ} {i : Instr} {rest : List Instr} {ch : Choice}

theorem entered_unprepared (h : Invariant s) {c : ℕ}
    (hc : s.code t = .preparedWorkerEntry c :: rest) : s.shared.preparedStart ≠ some c := by
  intro hp
  rcases h.entries t c (by simp [hc]) with he | ⟨-,ha⟩
  · simp [hc] at he
  · simp [(h.rep.lifecycle.prepared c hp).2.2.2] at ha

theorem entered_named (h : Invariant s) {c : ℕ} (hc : .preparedWorkerEntry c ∈ s.code t) :
    c < s.shared.nextPrepared := by
  by_contra hn
  have hf := h.workers.fresh c (not_lt.mp hn)
  have := System.count_pos (p := Instr.plays (Role.enters c)) h.named hc
    (by simp [Instr.plays,Role.enters])
  omega

theorem advance_entries (h : Invariant s) (hc : s.code t = i :: rest)
    (hen : enabled s.shared ch i = true) (t' c : ℕ)
    (hd : .preparedWorkerEntry c ∈ (s.after cfg t i rest ch).code t') :
    (s.after cfg t i rest ch).code t' = [.waitActivate c, .preparedWorkerEntry c] ∨
    ((s.after cfg t i rest ch).code t' = [.preparedWorkerEntry c] ∧
      ((effect cfg s.alive t s.next ch s.shared i).state.prepareds c).activateEvent = true) := by
  have ht : t < s.next := h.named.lt (by simp [hc])
  have hgrow := effect_lifecycle_grows cfg h.rep.lifecycle s.alive t s.next ch i
  rcases @Sys.advance_code_cases _ _ _ s t ((effect cfg s.alive t s.next ch s.shared i).push ++
    rest) (effect cfg s.alive t s.next ch s.shared i) ht t' with
    ⟨rfl,he⟩ | ⟨rfl,body,hb,he⟩ | ⟨-,he⟩ <;> rw [he] at hd ⊢
  · have hrest : .preparedWorkerEntry c ∈ rest := by
      refine (List.mem_append.mp hd).resolve_left fun hp => ?_
      have h0 := effect_push_enters cfg (s := s.shared) s.alive t' s.next ch i c
      rw [List.countP_eq_zero] at h0
      exact h0 _ hp (by simp [Instr.plays,Role.enters])
    rcases h.entries t' c (by simp [hc,hrest]) with hs | ⟨hs,-⟩
    · obtain ⟨rfl,rfl⟩ : i = .waitActivate c ∧ rest = [.preparedWorkerEntry c] := by
        simpa [hc] using hs
      exact Or.inr ⟨rfl,hen⟩
    · obtain ⟨rfl,rfl⟩ : i = .preparedWorkerEntry c ∧ rest = [] := by
        simpa [hc] using hs
      cases hrest
  · rcases effect_spawn_cases cfg s.shared t s.next s.alive ch i with
      hs | ⟨a,-,-,-,hs⟩ | ⟨k,o,-,-,-,hs⟩ <;> rw [hs] at hb
    · cases hb
    · obtain rfl := Option.some.inj hb
      obtain rfl : c = s.shared.nextPrepared := by simpa using hd
      exact Or.inl rfl
    · obtain rfl := Option.some.inj hb
      simp at hd
  · rcases h.entries t' c hd with hs | ⟨hs,ha⟩
    · exact Or.inl hs
    · exact Or.inr ⟨hs,hgrow.prepareds c (h.entered_named hd) ha⟩

theorem advance (h : Invariant s) (hc : s.code t = i :: rest)
    (hen : enabled s.shared ch i = true) :
    Invariant (s.after cfg t i rest ch) := by
  have ht : t < s.next := h.named.lt (by simp [hc])
  have hi : i.Owned s.shared := h.owned (t := t) (by simp [hc])
  have hl := effect_lifecycle_grows cfg h.rep.lifecycle s.alive t s.next ch i
  have hg := effect_cleanup_grows cfg h.rep s.alive t s.next ch hi
  have hnew := h.unused _ le_rfl
  have hmove := System.count_after cfg ch h.named hc
  refine ⟨h.named.advance ht,h.rep.effect cfg s.alive t s.next ch hi,fun o => ?_,fun k => ?_,
    fun k hk => ?_,?_,fun x => ?_,?_,?_,h.advance_entries hc hen⟩
  · have := hmove (Instr.plays (Role.executes o))
    have := balance_actives cfg s.alive t s.next ch hi o
    have := h.actives o
    simp only [Sys.advance_shared]
    omega
  · have := hmove (Instr.plays (Role.holdsToken k))
    have := balance_tokens cfg s.alive t s.next ch h.rep hi hnew k
    have := h.tokens k
    simp only [Sys.advance_shared]
    omega
  · have := hg.unused k hk
    have := h.unused k (hg.coordinations.trans hk)
    simp only [Sys.advance_shared]
    omega
  · have := hmove Instr.holdsNetwork
    have := balance_network cfg s.alive t s.next ch hi hen
    have := h.network
    simp only [Sys.advance_shared]
    omega
  · have htop : i ∈ s.code t := by simp [hc]
    obtain ⟨hself,hspawn,hother⟩ := balance_actors cfg s.alive t s.next ch (h.acts htop)
      (h.not_actor le_rfl) (fun d hd ha => h.actor_alive ha (by simpa [Sys.alive] using hd)) ht.ne
    have hw := weigh_advance (f := tally (Instr.plays Role.acts)) h.named hc
      (effect cfg s.alive t s.next ch s.shared i) x
    simp only [weigh_tally] at hw
    have hx := h.actors x
    simp only [System.after,Sys.advance_shared]
    by_cases hxt : x = t
    · subst hxt
      simp only [if_true,ht.ne,if_false] at hw
      have : tally (Instr.plays Role.acts) x i =
        if Instr.plays Role.acts i = true then 1 else 0 := rfl
      omega
    · by_cases hxn : x = s.next
      · subst hxn
        have h0 : (s.code s.next).countP (Instr.plays Role.acts) = 0 := by
          simp [h.named s.next le_rfl]
        simp only [if_true,hxt,if_false] at hw
        omega
      · have := hother x hxt hxn
        simp only [hxt,hxn,if_false] at hw
        omega
  · exact h.workers.of_change h.rep.lifecycle
      (fun c he => by subst he; exact h.entered_unprepared hc)
      (workerChange cfg s.alive t s.next ch h.rep) (fun c => hmove _) fun c => hmove _
  · refine h.standing.advance ht hc (fun _ j _ _ hj => hj.grows hl hg)
      (effect_push_standing h.rep s.alive t s.next ch hi) fun body hb j hj => ?_
    have hidle := effect_spawn_idle cfg (s := s.shared) s.alive t s.next ch i
    rw [hb] at hidle
    exact hidle.standing j hj

end Advance

theorem step (h : Invariant s) {s' : System} {a : Action Choice Call}
    (hs : step cfg s a = some s') : Invariant s' := by
  cases a with
  | call c =>
    obtain rfl := Option.some.inj hs
    exact h.start c
  | run t ch =>
    obtain ⟨i,rest,hc,hen,rfl⟩ := step_run_cases hs
    exact h.advance hc hen

end Invariant

theorem Reachable.invariant {s : System} (h : Reachable cfg s) : Invariant s :=
  Run.invariant .blank (fun _ _ _ hi _ hs => hi.step hs) h

/-- The induction over a guarded run, with the invariant at hand in every step. -/
theorem run_induct {guard : System → Action Choice Call → Prop} {I : System → Prop} {s s' : System}
    (h : Invariant s) (h0 : I s)
    (hcall : ∀ s c, Invariant s → I s → guard s (.call c) → I (s.called cfg c))
    (hrun : ∀ s t i rest ch, Invariant s → I s → guard s (.run t ch) → s.code t = i :: rest →
      enabled s.shared ch i = true → I (s.after cfg t i rest ch))
    (hr : Run (step cfg) guard s s') : I s' := by
  have hboth : I s' ∧ Invariant s' := by
    refine Run.invariant (I := fun s => I s ∧ Invariant s) ⟨h0,h⟩ ?_ hr
    rintro s a s'' ⟨hI,hinv⟩ hg hs
    refine ⟨?_,hinv.step hs⟩
    cases a with
    | call c =>
      obtain rfl := Option.some.inj hs
      exact hcall s c hinv hI hg
    | run t ch =>
      obtain ⟨i,rest,hc,hen,rfl⟩ := step_run_cases hs
      exact hrun s t i rest ch hinv hI hg hc hen
  exact hboth.1

theorem Reachable.induct {I : System → Prop} {s : System} (h0 : I .blank)
    (hcall : ∀ s c, Invariant s → I s → I (s.called cfg c))
    (hrun : ∀ s t i rest ch, Invariant s → I s → s.code t = i :: rest →
      enabled s.shared ch i = true → I (s.after cfg t i rest ch))
    (h : Reachable cfg s) : I s :=
  run_induct .blank h0 (fun s c hi hI _ => hcall s c hi hI)
    (fun s t i rest ch hi hI _ => hrun s t i rest ch hi hI) h

/-- An induction whose steps may use that the system so far is reachable. -/
theorem Reachable.induct_reachable {I : System → Prop} {s : System} (h0 : I .blank)
    (hcall : ∀ s c, Reachable cfg s → I s → I (s.called cfg c))
    (hrun : ∀ s t i rest ch, Reachable cfg s → I s → s.code t = i :: rest →
      enabled s.shared ch i = true → I (s.after cfg t i rest ch))
    (h : Reachable cfg s) : I s := by
  have hboth : I s ∧ Reachable cfg s := by
    induction h with
    | refl => exact ⟨h0,.refl⟩
    | tail a hr hg hs ih =>
      refine ⟨?_,hr.tail a hg hs⟩
      cases a with
      | call c =>
        obtain rfl := Option.some.inj hs
        exact hcall _ c ih.2 ih.1
      | run t ch =>
        obtain ⟨i,rest,hc,hen,rfl⟩ := step_run_cases hs
        exact hrun _ t i rest ch ih.2 ih.1 hc hen
  exact hboth.1

/-! ### The representation of the process state -/

/-- What the fields of the process state always mean. -/
structure Representation (s : State) : Prop where
  worker : ∀ c, s.worker = some c → (s.contexts c).generation = s.generation ∧
    (∀ g, s.stoppingWorkers.lookup g ≠ some c) ∧ s.preparedStart = none ∧
    s.pendingRemove = none ∧
    ∀ k, s.registerCoordination = some k → (s.coordinations k).cleanupRequested = false
  stopping : ∀ g c, s.stoppingWorkers.lookup g = some c → (s.contexts c).generation = g ∧
    g ≤ s.generation ∧ (s.contexts c).stopEvent = true
  pending : ∀ o, s.pendingRemove = some o → (s.operations o).generation = s.generation ∧
    s.activeRemove ≠ some o ∧ s.lastSuccessfullyRemovedGeneration ≠ some s.generation
  active : ∀ o, s.activeRemove = some o → (s.operations o).generation ≤ s.generation ∧
    (s.operations o).doneEvent = false
  removed : s.lastSuccessfullyRemovedGeneration = some s.generation → s.worker = none ∧
    s.lastRemoveRequestedGeneration = some s.generation ∧
    ∃ r, s.lastSuccessfullyRemovedResult = some r ∧ r.success = true
  prepared : ∀ p, s.preparedStart = some p →
    (s.contexts (s.prepareds p).context).generation = s.generation + 1
  coordination : ∀ k, s.registerCoordination = some k →
    (s.coordinations k).generation = s.generation ∧
    (0 < (s.coordinations k).inflightCount ∨ (s.coordinations k).cleanupRequested = true) ∧
    ((s.coordinations k).inflightCount = 0 → ∃ o,
      (s.pendingRemove = some o ∨ s.activeRemove = some o) ∧
      (s.operations o).generation = s.generation)

theorem Rep.representation {s : State} (h : Rep s) : Representation s where
  worker c hc := by
    obtain ⟨-,hg,hno⟩ := h.lifecycle.worker c hc
    refine ⟨hg,fun g hst => ?_,?_,?_,fun k hk => (h.cleanup.coordination k hk).2.2 c hc⟩
    · have hgc := (h.lifecycle.stopping g c hst).2.1
      rw [← hgc,hg,hno] at hst
      cases hst
    · exact Option.eq_none_iff_forall_ne_some.mpr fun p => h.lifecycle.exclusive c p hc
    · rw [Option.eq_none_iff_forall_ne_some]
      intro o ho
      simp [(h.cleanup.pending o ho).1] at hc
  stopping g c hc := (h.lifecycle.stopping g c hc).2
  pending o ho := by
    obtain ⟨-,-,hg,-,hne,hs⟩ := h.cleanup.pending o ho
    exact ⟨hg,hne,hs⟩
  active o ho := by
    obtain ⟨-,hg,hd,-⟩ := h.cleanup.active o ho
    exact ⟨hg,hd⟩
  removed hs := (h.cleanup.removed _ hs).2 rfl
  prepared p hp := by
    obtain ⟨hlt,hg,-⟩ := h.lifecycle.prepared p hp
    rw [(h.lifecycle.token p hlt).1]
    exact hg
  coordination k hk := by
    obtain ⟨-,hg,-⟩ := h.cleanup.coordination k hk
    have hidle := h.coordination k hk
    refine ⟨hg,?_,fun hin => ?_⟩
    · rcases Nat.eq_zero_or_pos (s.coordinations k).inflightCount with hin | hin
      · exact Or.inr (hidle hin).1
      · exact Or.inl hin
    · obtain ⟨-,-,o,ho,hog⟩ := hidle hin
      exact ⟨o,ho.symm,hog⟩

theorem reachable_representation {s : System} (h : Reachable cfg s) : Representation s.shared :=
  h.invariant.rep.representation

/-- A register in flight while `stop` requests the cleanup of its generation. -/
theorem reachable_representation_stopping : ∃ s : System, (s.shared.generation = 1 ∧
    s.shared.stoppingWorkers.lookup 1 = some 0 ∧ s.shared.registerCoordination = some 0) ∧
    Representation s.shared := by
  obtain ⟨s,hr,hp⟩ := Run.exists_of_schedule (f := Registry.step .plain) (s := .blank)
    (l := [.call .start, proceed 0, proceed 0, .call .registerExecutor, proceed 2,
      .call (.stop true), proceed 3])
    (p := fun s => s.shared.generation = 1 ∧ s.shared.stoppingWorkers.lookup 1 = some 0 ∧
      s.shared.registerCoordination = some 0) (by decide +kernel)
  exact ⟨s,by simpa using hp,reachable_representation hr⟩

end FlaskXxlJob.Registry
