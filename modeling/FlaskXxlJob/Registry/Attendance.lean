import FlaskXxlJob.Registry.Obligations

/-!
What a waiting thread waits for is still to come. A Pending Remove that has an actor is going to be
claimed by it, and a register window that counts a register is not done.
-/
namespace FlaskXxlJob.Registry
open FlaskXxlJob.Client Interleaving

variable {cfg : Config} {s s' s'' : State}

theorem associateActor_thread (s : State) (o t x : ℕ) :
    ((associateActor s o t).operations x).thread =
      if x = o then some t else (s.operations x).thread := by
  unfold associateActor
  by_cases hx : x = o <;> cases (s.operations o).thread <;> simp [State.updateOperation,hx]

/-! ### Steps that leave Pending Removes and register windows alone -/

/-- From `s` to `s'` a Pending Remove that stays keeps its actor and its way to the Active slot,
no register enters a window, and no Event of a window moves. -/
structure Steady (s s' : State) : Prop where
  names : s.nextOperation ≤ s'.nextOperation
  fresh : ∀ o, s'.pendingRemove = some o → s.pendingRemove = some o ∨ s.nextOperation ≤ o
  actor : ∀ o, s.pendingRemove = some o → s'.pendingRemove = some o →
    (s'.operations o).thread = none → (s.operations o).thread = none
  active : ∀ o, s.pendingRemove = some o → s'.pendingRemove = some o →
    s.activeRemove = none → s'.activeRemove = none
  windows : s'.nextCoordination = s.nextCoordination
  window : ∀ k, s'.registerCoordination = some k → s.registerCoordination = some k
  inflight : ∀ k, (s'.coordinations k).inflightCount ≤ (s.coordinations k).inflightCount
  done : ∀ k, (s'.coordinations k).doneEvent = (s.coordinations k).doneEvent

namespace Steady

theorem of_cleanup (h : s'.toCleanup = s.toCleanup) : Steady s s' := by
  constructor <;> rw [h]
  · exact fun _ => Or.inl
  · exact fun _ _ _ => id
  · exact fun _ _ _ => id
  · exact fun _ => id
  · exact fun _ => le_rfl
  · exact fun _ => rfl

theorem refl (s : State) : Steady s s := of_cleanup rfl

/-- Without a Pending Remove on both sides only the window matters. -/
theorem of_empty (hp : s.pendingRemove = none ∨ s'.pendingRemove = none)
    (hn : s.nextOperation ≤ s'.nextOperation)
    (hf : ∀ o, s'.pendingRemove = some o → s.nextOperation ≤ o)
    (hw : s'.nextCoordination = s.nextCoordination)
    (hk : ∀ k, s'.registerCoordination = some k → s.registerCoordination = some k)
    (hc : s'.coordinations = s.coordinations) : Steady s s' where
  names := hn
  fresh o ho := Or.inr (hf o ho)
  actor _ ho ho' := by rcases hp with hp | hp <;> simp_all
  active _ ho ho' := by rcases hp with hp | hp <;> simp_all
  windows := hw
  window := hk
  inflight k := by rw [hc]
  done k := by rw [hc]

theorem trans (hc : CleanupInv s) (h : Steady s s') (h' : Steady s' s'') : Steady s s'' := by
  have hmiddle : ∀ o, s.pendingRemove = some o → s''.pendingRemove = some o →
      s'.pendingRemove = some o := by
    intro o ho ho''
    rcases h'.fresh o ho'' with hm | hm
    · exact hm
    · have hlt := (hc.pending o ho).2.1
      have hn := h.names
      omega
  constructor
  · exact h.names.trans h'.names
  · intro o ho
    rcases h'.fresh o ho with hm | hm
    · exact h.fresh o hm
    · exact Or.inr (h.names.trans hm)
  · exact fun o ho ho' hd => h.actor o ho (hmiddle o ho ho') (h'.actor o (hmiddle o ho ho') ho' hd)
  · exact fun o ho ho' ha => h'.active o (hmiddle o ho ho') ho'
      (h.active o ho (hmiddle o ho ho') ha)
  · exact h'.windows.trans h.windows
  · exact fun k hk => h.window k (h'.window k hk)
  · exact fun k => (h'.inflight k).trans (h.inflight k)
  · exact fun k => (h'.done k).trans (h.done k)

/-- Changes of other fields of the operations and of the coordinations. -/
theorem of_fields (hp : s'.pendingRemove = s.pendingRemove)
    (ha : s.activeRemove = none → s'.activeRemove = none)
    (hn : s'.nextOperation = s.nextOperation)
    (ht : ∀ o, (s'.operations o).thread = none → (s.operations o).thread = none)
    (hw : s'.nextCoordination = s.nextCoordination)
    (hk : ∀ k, s'.registerCoordination = some k → s.registerCoordination = some k)
    (hi : ∀ k, (s'.coordinations k).inflightCount ≤ (s.coordinations k).inflightCount)
    (hd : ∀ k, (s'.coordinations k).doneEvent = (s.coordinations k).doneEvent) :
    Steady s s' where
  names := hn.ge
  fresh _ ho := Or.inl (hp ▸ ho)
  actor o _ _ := ht o
  active _ _ _ := ha
  windows := hw
  window := hk
  inflight := hi
  done := hd

theorem updateOperation (o : ℕ) {f : RemoveOperation → RemoveOperation}
    (hf : ∀ op, (f op).thread = none → op.thread = none) : Steady s (s.updateOperation o f) := by
  refine of_fields rfl id rfl (fun o' => ?_) rfl (fun _ => id) (fun _ => le_rfl) fun _ => rfl
  by_cases ho : o' = o
  · subst ho
    simpa [State.updateOperation] using hf (s.operations o')
  · simp [State.updateOperation,ho]

theorem createPending (hp : s.pendingRemove = none) (g : ℕ) : Steady s (createPending s g) := by
  refine of_empty (Or.inl hp) (Nat.le_succ _) (fun o ho => ?_) rfl (fun _ => id) rfl
  have ho : some s.nextOperation = some o := ho
  exact (Option.some.inj ho).le

theorem reconciled {k : ℕ} {p : State × Option ℕ} (h : Reconciled s k p) : Steady s p.1 := by
  cases h with
  | waiting | covered => exact refl s
  | dropped =>
    exact of_fields rfl id rfl (fun _ => id) rfl (fun _ hk => by cases hk) (fun _ => le_rfl)
      fun _ => rfl
  | marked =>
    exact of_fields rfl id rfl (fun _ => id) rfl (fun _ => id) (fun _ => le_rfl) fun _ => rfl
  | created _ _ hp => exact createPending hp _

theorem requestCleanup (k : ℕ) : Steady s (requestCleanup s k) := by
  refine of_fields rfl id rfl (fun _ => id) rfl (fun _ => id) ?_ ?_
  · exact fun k' => (requestCleanup_coordination s k k').1.le
  · intro k'
    by_cases hk : k' = k <;> simp [Registry.requestCleanup,State.updateCoordination,hk]

theorem requested (hc : CleanupInv s) {p : State × Option ℕ} (h : Requested s p) :
    Steady s p.1 := by
  cases h with
  | coordinated k p _ hr => exact (requestCleanup k).trans hc (reconciled hr)
  | notOwed => exact refl s
  | marked =>
    exact of_fields rfl id rfl (fun _ => id) rfl (fun _ => id) (fun _ => le_rfl) fun _ => rfl
  | created _ hp => exact createPending hp _

theorem reconcileGeneration (h : CleanupInv s) (g : ℕ) :
    Steady s (Registry.reconcileGeneration s g) := by
  unfold Registry.reconcileGeneration
  split
  · split
    · exact reconciled (h.reconcile ‹_›)
    · exact refl s
  · exact refl s

theorem release (h : CleanupInv s) (k : ℕ) : Steady s (releaseCoordination s k).1 := by
  have hl : Steady s (leaveCoordination s k) := by
    refine of_fields rfl id rfl (fun _ => id) rfl (fun _ => id) ?_ ?_
    · intro k'
      by_cases hk : k' = k <;> simp [leaveCoordination,State.updateCoordination,hk]
    · intro k'
      by_cases hk : k' = k <;> simp [leaveCoordination,State.updateCoordination,hk]
  rw [releaseCoordination_eq]
  split
  · exact hl.trans h (reconciled ((h.leaveCoordination k).reconcile ‹_›))
  · exact hl

theorem complete (cfg : Config) (now : String) (h : CleanupInv s) {o : ℕ}
    (ho : s.activeRemove = some o) (r : CallResult) (q : ℕ) :
    Steady s (completeRemoveOperation cfg now s o r q).1 := by
  have hs : Steady s (storeResult s o (cfg.safeResult r)) := updateOperation o fun _ => id
  have hdrop : ∀ x : State, x.toCleanup = (storeResult s o (cfg.safeResult r)).toCleanup →
      Steady s (dropActive x) := by
    intro x hx
    apply hs.trans h
    apply of_fields <;> simp [dropActive,hx]
  have hc := h.storeResult o (cfg.safeResult r)
  rcases h.completeRemove_cases cfg now ho r q with ⟨-,he⟩ | ⟨-,-,he⟩ | ⟨-,hr,hg,hw,he⟩
  all_goals rw [he]
  · exact (hdrop _ rfl).trans h (reconcileGeneration hc.dropActive _)
  · have hd := hdrop (applyResult cfg now (storeResult s o (cfg.safeResult r)) r q .remove) rfl
    exact hd.trans h (reconcileGeneration (hc.applyResult r q .remove).dropActive _)
  · have hd : Steady s (dropActive (satisfied cfg now s o r q)) :=
      of_empty (Or.inr rfl) le_rfl (fun _ ho' => by cases ho') rfl (fun _ => id) rfl
    exact hd.trans h (reconcileGeneration (h.satisfied hr q hg hw) _)

theorem associateActor (s : State) (o t : ℕ) : Steady s (associateActor s o t) := by
  refine of_fields (by simp) (by simp) (by simp) (fun x hx => ?_) (by simp) (by simp) (by simp)
    (by simp)
  rw [associateActor_thread] at hx
  split at hx
  · cases hx
  · exact hx

theorem failActorStart (cfg : Config) (now : String) (h : Rep s) (o t : ℕ) (e : String) :
    Steady s (failActorStart cfg now s o t e) := by
  have hc : CleanupInv (recordResultLocked cfg now
      (abandonOperation s o t (cfg.safeResult (startFailure e))) (startFailure e) .local) :=
    (h.cleanup.abandonOperation o t _).of_eq rfl rfl fun _ => id
  have hm : Steady s (recordResultLocked cfg now
      (abandonOperation s o t (cfg.safeResult (startFailure e))) (startFailure e) .local) :=
    of_empty (Or.inr rfl) le_rfl (fun _ ho => by cases ho) rfl (fun _ => id) rfl
  exact hm.trans h.cleanup (reconcileGeneration hc _)

end Steady

/-- The instructions that let a register into a window, end a window or dismiss an actor. -/
def Instr.unsteady : Instr → Bool
  | .joinRegister | .setCoordinationDone _ | .finishCleanupActor _ => true
  | _ => false

theorem effect_steady (cfg : Config) (h : Rep s) (alive : ℕ → Bool) (t fresh : ℕ) (ch : Choice)
    {i : Instr} (hi : i.Owned s) (hn : i.unsteady = false) :
    Steady s (effect cfg alive t fresh ch s i).state := by
  have hc := h.cleanup
  cases hm : i.movesCleanup with
  | false => exact .of_cleanup (effect_toCleanup cfg alive t fresh ch hm)
  | true =>
    cases i with
    | activatePreparedStart p =>
      simp only [effect]
      rcases activatePreparedStart_cases t h.lifecycle p with ⟨-,he⟩ | ⟨-,-,he⟩ <;> rw [he]
      · exact .refl s
      · apply Steady.of_empty <;> simp [publishWorker]
    | stop remove =>
      cases remove with
      | false => simp [Instr.movesCleanup] at hm
      | true =>
        have hs : CleanupInv (stopLocalLocked (dropPrepared s)) :=
          hc.of_eq (by simp) (by simp) (by simp)
        have hl : Steady s (stopLocalLocked (dropPrepared s)) := .of_cleanup (by simp)
        exact hl.trans hc (.requested hs (hs.requestOutcome (by simp)))
    | shutdown deregister =>
      apply Steady.of_fields <;> simp [effect,shutdown]
    | shutdownRequest g =>
      simp only [effect,shutdownRequest]
      split
      · exact .requested hc (hc.requestOutcome (hi.2 (Eq.symm ‹_›)))
      · exact .refl s
    | commit call q r =>
      cases call with
      | register k g =>
        have hone : Steady s (acceptOneShot cfg ch.now s r q false (some g) k) := by
          apply Steady.of_fields <;> simp
        cases k with
        | none => exact hone
        | some k =>
          exact hone.trans hc
            (.release (hc.acceptOneShot cfg ch.now r q false (some g) (some k)) k)
      | remove => apply Steady.of_fields <;> simp [effect,commitRpc,commitRemove]
      | worker c => apply Steady.of_fields <;> simp [effect,commitRpc,commitWorker]
      | active o => exact .complete cfg ch.now hc hi r q
    | finishWorker c =>
      simp only [effect]
      rcases finishWorker_cases s t c with ⟨o,-,-,-,he⟩ | ⟨-,he⟩ <;> rw [he]
      · apply Steady.of_empty <;> simp [claimPending]
      · apply Steady.of_cleanup
        simp
    | terminalRemove g =>
      simp only [effect,terminalRemove]
      split
      case h_7 hv =>
        have hp := (h.of_own hv).2.2.1
        refine .of_empty (Or.inl hp) (Nat.le_succ _) (fun o ho => ?_) rfl (fun _ => id) rfl
        have ho : s.pendingRemove = some o := ho
        simp [hp] at ho
      all_goals exact .refl s
    | schedulePendingRemove caller =>
      simp only [effect]
      rcases schedulePendingRemove_cases cfg ch.now s t fresh alive caller ch.startError with
        ⟨-,he⟩ | ⟨o,-,-,he⟩ | ⟨o,e,-,-,he⟩ <;> rw [he]
      · exact .refl s
      · exact .associateActor s o fresh
      · exact (Steady.associateActor s o fresh).trans hc
          (.failActorStart cfg ch.now (h.associateActor o fresh) o fresh e)
    | runCleanupActor o =>
      simp only [effect]
      rcases runCleanupActor_cases s o with ⟨-,-,he⟩ | ⟨-,he⟩ <;> rw [he]
      · apply Steady.of_empty <;> simp [claimPending]
      · exact .refl s
    | setOperationDone o =>
      exact .updateOperation o (f := fun op => { op with doneEvent := true }) fun _ => id
    | _ => simp [Instr.movesCleanup,Instr.unsteady] at hm hn

/-! ### The actor of the Pending Remove -/

/-- An operation gets its actor from the scheduler that starts it. -/
theorem effect_appoints (cfg : Config) (h : Rep s) (alive : ℕ → Bool) (t fresh : ℕ) (ch : Choice)
    {i : Instr} (hi : i.Owned s) : KeepsActors s (effect cfg alive t fresh ch s i).state ∨
    ∃ caller o, i = .schedulePendingRemove caller ∧ schedulable alive s = some o ∧
      (effect cfg alive t fresh ch s i).state = associateActor s o fresh ∧
      (effect cfg alive t fresh ch s i).spawn = some [.runCleanupActor o] := by
  rcases effect_actors cfg h alive t fresh ch hi with hk | ⟨o,hst,hsp⟩
  · exact Or.inl hk
  · rcases effect_spawn_cases cfg s t fresh alive ch i with
      hn | ⟨a,-,-,-,hp⟩ | ⟨caller,x,hcaller,hx,-,hp⟩
    · simp [hn] at hsp
    · simp [hp] at hsp
    · obtain rfl : x = o := by simpa [hp] using hsp
      exact Or.inr ⟨caller,x,hcaller,hx,hst,hsp⟩

/-- A thread is the actor of one operation at a time. -/
theorem acts_alone {s : System} (hinv : Invariant s) {t : ℕ} {i : Instr} {rest : List Instr}
    (hc : s.code t = i :: rest) (hi : i.plays Role.acts = true) :
    ∀ j ∈ rest, j.plays Role.acts = false := by
  intro j hj
  by_contra hn
  have hpos : 0 < rest.countP (Instr.plays Role.acts) :=
    List.countP_pos_iff.mpr ⟨j,hj,by simpa using hn⟩
  have hcount := hinv.actors t
  rw [hc,List.countP_cons,if_pos hi,member] at hcount
  split at hcount <;> omega

/-- A Pending Remove with an actor finds the Active slot free: the actor is going to claim it. -/
structure Acting (s : System) : Prop where
  named : ∀ o d, (s.shared.operations o).thread = some d → o < s.shared.nextOperation
  actor : ∀ o d, s.shared.pendingRemove = some o → (s.shared.operations o).thread = some d →
    s.shared.activeRemove = none ∧ .runCleanupActor o ∈ s.code d

namespace Acting
variable {s : System} {t : ℕ} {i : Instr} {rest : List Instr} {ch : Choice}

theorem blank : Acting .blank where
  named o d hd := by simp [System.blank,State.blank] at hd
  actor o d ho := by simp [System.blank,State.blank] at ho

theorem called (h : Acting s) (hs : s.Named) (c : Call) : Acting (s.called cfg c) where
  named := h.named
  actor o d ho hd := ⟨(h.actor o d ho hd).1,Machine.mem_start hs (h.actor o d ho hd).2⟩

/-- The claim of the actor takes the Pending Remove out of its slot. -/
theorem unclaimed (h : Acting s) {o d : ℕ} (hp : s.shared.pendingRemove = some o)
    (hd : (s.shared.operations o).thread = some d)
    (ho : (s.after cfg t i rest ch).shared.pendingRemove = some o) : i ≠ .runCleanupActor o := by
  rintro rfl
  have ha := (h.actor o d hp hd).1
  simp [effect,runCleanupActor,actorClaims,ha,hp,claimPending] at ho

section After
variable (h : Acting s) (hinv : Invariant s) (hc : s.code t = i :: rest)
include h hinv hc

theorem named_step {o d : ℕ}
    (hd : ((s.after cfg t i rest ch).shared.operations o).thread = some d) :
    o < (s.after cfg t i rest ch).shared.nextOperation := by
  have hi : i.Owned s.shared := hinv.owned (t := t) (by simp [hc])
  have hg := effect_cleanup_grows cfg hinv.rep s.alive t s.next ch hi
  apply lt_of_lt_of_le _ hg.operations
  rcases effect_appoints cfg hinv.rep s.alive t s.next ch hi with hk | ⟨-,x,-,hx,hst,-⟩
  · exact h.named o d (hk o d hd)
  · rw [Sys.advance_shared,hst,associateActor_thread] at hd
    split at hd
    next hox =>
      subst hox
      exact (hinv.rep.cleanup.pending o (schedulable_eq_some hx).1).2.1
    · exact h.named o d hd

theorem actor_step {o d : ℕ} (ho : (s.after cfg t i rest ch).shared.pendingRemove = some o)
    (hd : ((s.after cfg t i rest ch).shared.operations o).thread = some d) :
    (s.after cfg t i rest ch).shared.activeRemove = none ∧
      .runCleanupActor o ∈ (s.after cfg t i rest ch).code d := by
  have hi : i.Owned s.shared := hinv.owned (t := t) (by simp [hc])
  have hg := effect_cleanup_grows cfg hinv.rep s.alive t s.next ch hi
  rcases effect_appoints cfg hinv.rep s.alive t s.next ch hi with hk | ⟨-,x,-,hx,hst,hsp⟩
  · have hold := hk o d hd
    have hp : s.shared.pendingRemove = some o := by
      rcases hg.pending o ho with hp | hge
      · exact hp
      · have hlt := h.named o d hold
        omega
    obtain ⟨ha,hrun⟩ := h.actor o d hp hold
    have hne := h.unclaimed hp hold ho
    constructor
    · cases hst : i.unsteady with
      | false => exact (effect_steady cfg hinv.rep s.alive t s.next ch hi hst).active o hp ho ha
      | true =>
        cases i <;> simp [Instr.unsteady] at hst <;>
          simpa [effect,joinRegister,State.updateCoordination] using ha
    · apply Sys.mem_advance hinv.named hc hrun
      intro hdt
      rw [hdt,hc] at hrun
      exact (List.mem_cons.mp hrun).resolve_left (Ne.symm hne)
  · obtain ⟨hp,ha,-⟩ := schedulable_eq_some hx
    rw [Sys.advance_shared,hst] at ho hd ⊢
    obtain rfl : x = o := by simpa [hp] using ho
    rw [associateActor_thread,if_pos rfl] at hd
    obtain rfl := Option.some.inj hd
    constructor
    · simpa using ha
    · rw [Sys.advance_code_spawn hsp]
      simp

/-- An actor is not dismissed before it has claimed its operation. -/
theorem keeps {o : ℕ} (hp : s.shared.pendingRemove = some o)
    (ho : (s.after cfg t i rest ch).shared.pendingRemove = some o)
    (hd : ((s.after cfg t i rest ch).shared.operations o).thread = none) :
    (s.shared.operations o).thread = none := by
  have hi : i.Owned s.shared := hinv.owned (t := t) (by simp [hc])
  cases hst : i.unsteady with
  | false => exact (effect_steady cfg hinv.rep s.alive t s.next ch hi hst).actor o hp ho hd
  | true =>
    cases i with
    | joinRegister => simpa [effect,joinRegister] using hd
    | setCoordinationDone k => exact hd
    | finishCleanupActor x =>
      cases hth : (s.shared.operations o).thread with
      | none => rfl
      | some d =>
        obtain ⟨-,hrun⟩ := h.actor o d hp hth
        have hdt : d ≠ t := by
          rintro rfl
          rw [hc] at hrun
          rcases List.mem_cons.mp hrun with he | hrun
          · cases he
          · simpa [Instr.plays,Role.acts] using acts_alone hinv hc rfl _ hrun
        have hsame : (((releaseActor s.shared x t).operations o).thread) = some d := by
          by_cases hx : o = x
          · subst hx
            simp [releaseActor,State.updateOperation,hth,hdt]
          · simp [releaseActor,State.updateOperation,hx,hth]
        exact absurd (hsame.symm.trans hd) (by simp)
    | _ => simp [Instr.unsteady] at hst

end After
end Acting

theorem Reachable.acting {s : System} (h : Reachable cfg s) : Acting s :=
  h.induct .blank (fun _ c hinv ha => ha.called hinv.named c) fun _ _ _ _ _ hinv ha hc _ =>
    ⟨fun _ _ => ha.named_step hinv hc,fun _ _ => ha.actor_step hinv hc⟩

/-! ### The Event of a register window -/

/-- A window that is done counts no register: its Event may be set. -/
def Closed (s : State) (k : ℕ) : Prop :=
  k < s.nextCoordination ∧ (s.registerCoordination = some k → (s.coordinations k).inflightCount = 0)

theorem Closed.steady {k : ℕ} (h : Closed s k) (hs : Steady s s') : Closed s' k := by
  constructor
  · rw [hs.windows]
    exact h.1
  · intro hk
    have hle := hs.inflight k
    have hzero := h.2 (hs.window k hk)
    omega

/-- Registers enter the open window only, never one that is done. -/
theorem Rep.closed_join (h : Rep s) {k : ℕ} (hk : Closed s k) :
    Closed (Registry.joinRegisterCoordination s).1 k := by
  rcases h.cleanup.join_cases with ⟨k',-,-,he⟩ | ⟨k',hk',hreq,he⟩ | ⟨-,he⟩ <;> rw [he]
  · exact hk
  · refine ⟨hk.1,fun hcur => ?_⟩
    obtain rfl : k' = k := Option.some.inj (hk'.symm.trans hcur)
    have := (h.coordination k' hk' (hk.2 hk')).1
    simp [hreq] at this
  · refine ⟨hk.1.trans (Nat.lt_succ_self _),fun hcur => ?_⟩
    have hcur : some s.nextCoordination = some k := hcur
    have hlt := hk.1
    obtain rfl := Option.some.inj hcur
    omega

/-- The instructions that set the Event of a window follow the one that has closed it. -/
theorem Instr.of_setCoordinationDone_next {i : Instr} {k : ℕ}
    (hn : i.Next (.setCoordinationDone k)) :
    (∃ p, i = .activatePreparedStart p) ∨ i = .joinRegister ∨
      ∃ g q r, i = .commit (.register (some k) g) q r := by
  cases i with
  | schedulePendingRemove caller =>
    cases caller <;> simp [Next,Scheduler.returned,Scheduler.failed] at hn
  | commit call q r =>
    cases call <;> simp [Next] at hn
    exact Or.inr (Or.inr ⟨_,_,_,by rw [hn]⟩)
  | _ => simp [Next] at hn <;> simp

theorem effect_push_closed (cfg : Config) (h : Rep s) (alive : ℕ → Bool) (t fresh : ℕ)
    (ch : Choice) {i : Instr} {k : ℕ} (hi : ∀ g q r, i = .commit (.register (some k) g) q r →
      k < s.nextCoordination)
    (hj : .setCoordinationDone k ∈ (effect cfg alive t fresh ch s i).push) :
    Closed (effect cfg alive t fresh ch s i).state k := by
  rcases Instr.of_setCoordinationDone_next (effect_push_next cfg s alive t fresh ch hj) with
    ⟨p,rfl⟩ | rfl | ⟨g,q,r,rfl⟩
  · simp only [effect] at hj ⊢
    rcases activatePreparedStart_cases t h.lifecycle p with ⟨-,he⟩ | ⟨-,-,he⟩ <;> rw [he] at hj ⊢
    · cases hj
    · have hk : s.registerCoordination = some k := by simpa using hj
      have hlt := (h.cleanup.coordination k hk).1
      exact ⟨by simpa [publishWorker] using hlt,by simp [publishWorker]⟩
  · simp only [effect,joinRegister] at hj
    rcases h.cleanup.join_cases with ⟨k',-,-,he⟩ | ⟨k',-,-,he⟩ | ⟨-,he⟩ <;> simp [he] at hj
  · have hlt := hi g q r rfl
    simp only [effect,commitRpc,commitRegister] at hj ⊢
    have hzero : (releaseCoordination (acceptOneShot cfg ch.now s r q false (some g) (some k))
        k).2.1 = true := by
      by_contra hn
      cases hop : (releaseCoordination (acceptOneShot cfg ch.now s r q false (some g) (some k))
        k).2.2 <;> simp [hn,hop,scheduleFor] at hj
    refine ⟨by simpa using hlt,fun _ => ?_⟩
    simpa [releaseCoordination] using hzero

theorem Closed.after {s : System} {t : ℕ} {i : Instr} {rest : List Instr} {ch : Choice} {k : ℕ}
    (hk : Closed s.shared k) (hinv : Invariant s) (hc : s.code t = i :: rest) :
    Closed (s.after cfg t i rest ch).shared k := by
  have hi : i.Owned s.shared := hinv.owned (t := t) (by simp [hc])
  cases hst : i.unsteady with
  | false => exact hk.steady (effect_steady cfg hinv.rep s.alive t s.next ch hi hst)
  | true =>
    cases i with
    | joinRegister => exact hinv.rep.closed_join hk
    | setCoordinationDone x =>
      refine ⟨hk.1,fun hcur => ?_⟩
      have hzero := hk.2 hcur
      by_cases hx : k = x <;> simp [effect,State.updateCoordination,hx,← hzero]
    | finishCleanupActor x => simpa [Closed,effect] using hk
    | _ => simp [Instr.unsteady] at hst

/-- The window of every counted register is open, and only closed windows are going to be
announced. -/
structure Opened (s : System) : Prop where
  event : ∀ k, s.shared.registerCoordination = some k →
    0 < (s.shared.coordinations k).inflightCount → (s.shared.coordinations k).doneEvent = false
  closing : s.Everywhere fun _ i => ∀ k, i = .setCoordinationDone k → Closed s.shared k

namespace Opened
variable {s : System} {t : ℕ} {i : Instr} {rest : List Instr} {ch : Choice}

theorem blank : Opened .blank where
  event k hk := by simp [System.blank,State.blank] at hk
  closing t i hi := by simp [System.blank] at hi

theorem called (h : Opened s) (c : Call) : Opened (s.called cfg c) where
  event := h.event
  closing := by
    apply Machine.Everywhere.start h.closing
    rintro i hi k rfl
    have hi : .setCoordinationDone k ∈ entry cfg c := hi
    rcases c with _ | b | b | _ | _ | _ | p | p | p <;> simp only [entry] at hi
    all_goals grind

section After
variable (h : Opened s) (hinv : Invariant s) (hc : s.code t = i :: rest)
include h hinv hc

theorem event_step {k : ℕ} (hk : (s.after cfg t i rest ch).shared.registerCoordination = some k)
    (hin : 0 < ((s.after cfg t i rest ch).shared.coordinations k).inflightCount) :
    ((s.after cfg t i rest ch).shared.coordinations k).doneEvent = false := by
  have hi : i.Owned s.shared := hinv.owned (t := t) (by simp [hc])
  cases hst : i.unsteady with
  | false =>
    have hsteady := effect_steady cfg hinv.rep s.alive t s.next ch hi hst
    have hle := hsteady.inflight k
    have hopen := h.event k (hsteady.window k hk) (lt_of_lt_of_le hin hle)
    exact (hsteady.done k).trans hopen
  | true =>
    cases i with
    | joinRegister =>
      simp only [Sys.advance_shared,effect,joinRegister] at hk hin ⊢
      rcases hinv.rep.cleanup.join_cases with ⟨x,-,-,he⟩ | ⟨x,hx,-,he⟩ | ⟨-,he⟩ <;>
        rw [he] at hk hin ⊢
      · exact h.event k hk hin
      · obtain rfl : x = k := Option.some.inj (hx.symm.trans hk)
        simp [enterCoordination,State.updateCoordination]
      · obtain rfl : s.shared.nextCoordination = k := Option.some.inj hk
        simp [enterCoordination,State.updateCoordination]
    | setCoordinationDone x =>
      by_cases hx : k = x
      · subst hx
        have hclosed := h.closing t _ (by rw [hc]; exact List.mem_cons_self) k rfl
        have hzero := hclosed.2 hk
        simp [effect,State.updateCoordination,hzero] at hin
      · have hsame : (effect cfg s.alive t s.next ch s.shared
            (.setCoordinationDone x)).state.coordinations k = s.shared.coordinations k := by
          simp [effect,State.updateCoordination,hx]
        rw [Sys.advance_shared,hsame] at hin ⊢
        exact h.event k hk hin
    | finishCleanupActor x =>
      simp only [Sys.advance_shared,effect,releaseActor_frame] at hk hin ⊢
      exact h.event k hk hin
    | _ => simp [Instr.unsteady] at hst

theorem closing_step : (s.after cfg t i rest ch).Everywhere fun _ j =>
    ∀ k, j = .setCoordinationDone k → Closed (s.after cfg t i rest ch).shared k := by
  refine Sys.Everywhere.advance h.closing (hinv.named.lt (by simp [hc])) hc ?_ ?_ ?_
  · exact fun t' j hj _ hclosed k hk => (hclosed k hk).after hinv hc
  · rintro j hj k rfl
    refine effect_push_closed cfg hinv.rep s.alive t s.next ch (fun g q r hi => ?_) hj
    subst hi
    have hpos := hinv.holdsToken (k := k) (i := .commit (.register (some k) g) q r) (t := t)
      (by simp [hc]) (by simp [Instr.plays,Role.holdsToken])
    by_contra hge
    have := hinv.unused k (not_lt.mp hge)
    omega
  · rintro body hb j hj k rfl
    rcases effect_spawn_cases cfg s.shared t s.next s.alive ch i with
      hs | ⟨a,-,-,-,hs⟩ | ⟨caller,o,-,-,-,hs⟩ <;> rw [hs] at hb
    · cases hb
    · obtain rfl := Option.some.inj hb
      simp at hj
    · obtain rfl := Option.some.inj hb
      simp at hj

end After
end Opened

theorem Reachable.opened {s : System} (h : Reachable cfg s) : Opened s :=
  h.induct .blank (fun _ c _ ho => ho.called c) fun _ _ _ _ _ hinv ho hc _ =>
    ⟨fun _ => ho.event_step hinv hc,ho.closing_step hinv hc⟩

end FlaskXxlJob.Registry
