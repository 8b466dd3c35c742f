import FlaskXxlJob.Registry.Quiescence

/-!
Closing the managed logs. Whoever empties the last slot checks the logs, except that an error of
`Thread.start` leaves `stop` and `remove_executor` before their check.
-/
namespace FlaskXxlJob.Registry
open FlaskXxlJob.Client Interleaving

variable {cfg : Config} {s s' : State}

/-! ### The account of the close -/

/-- The instruction that calls `close_logs`. -/
def Instr.closes : Instr → Bool
  | .closeLogs => true
  | _ => false

/-- How often the logs have been closed, in the ghost history or soon. -/
def closed (s : State) : ℕ := if s.logsClosed then 1 else 0

theorem Instr.of_closeLogs_next {i : Instr} (hn : i.Next .closeLogs) : i = .maybeCloseLogs := by
  cases i with
  | schedulePendingRemove caller =>
    cases caller <;> simp [Next,Scheduler.returned,Scheduler.failed] at hn
  | commit call q r => cases call <;> simp [Next] at hn
  | _ => simp [Next] at hn <;> rfl

section
variable (cfg : Config) (alive : ℕ → Bool) (t fresh : ℕ) (ch : Choice)

theorem effect_logsClosed {i : Instr} (hm : i ≠ .maybeCloseLogs) :
    (effect cfg alive t fresh ch s i).state.logsClosed = s.logsClosed := by
  by_cases hs : ∃ b, i = .shutdown b
  · obtain ⟨b,rfl⟩ := hs
    simp [effect,shutdown]
  · have he := effect_logClosing cfg (s := s) alive t fresh ch hm fun b hb => hs ⟨b,hb⟩
    rw [he]

/-- Only `closeLogs` records a close and only the check that closes the logs goes on to it. -/
theorem balance_closed (i : Instr) :
    (effect cfg alive t fresh ch s i).events.count .logsClosed +
      ((effect cfg alive t fresh ch s i).push.countP Instr.closes +
        ((effect cfg alive t fresh ch s i).spawn.getD []).countP Instr.closes) + closed s =
    (if i.closes then 1 else 0) + closed (effect cfg alive t fresh ch s i).state := by
  have hspawn : ((effect cfg alive t fresh ch s i).spawn.getD []).countP Instr.closes = 0 := by
    rcases effect_spawn_cases cfg s t fresh alive ch i with
      hs | ⟨a,-,-,-,hs⟩ | ⟨c,o,-,-,-,hs⟩ <;> rw [hs] <;> simp [Instr.closes]
  by_cases hc : i = .closeLogs
  · subst hc
    simp [effect,Instr.closes]
  have hevents : (effect cfg alive t fresh ch s i).events.count .logsClosed = 0 := by
    rw [List.count_eq_zero]
    intro he
    have hem := effect_event_emits cfg s alive t fresh ch he
    cases i <;> simp [Instr.Emits,Event.OfPending] at hem hc
  by_cases hm : i = .maybeCloseLogs
  · subst hm
    rw [hevents,hspawn]
    simp only [effect]
    split
    · rename_i hcl
      simp [closed,Instr.closes,(closesLogs_iff.mp hcl).2.2]
    · simp [Instr.closes]
  have hpush : (effect cfg alive t fresh ch s i).push.countP Instr.closes = 0 := by
    rw [List.countP_eq_zero]
    intro j hj hcl
    have hn := effect_push_next cfg s alive t fresh ch hj
    cases j <;> simp [Instr.closes] at hcl
    exact hm (Instr.of_closeLogs_next hn)
  have hno : i.closes = false := by cases i <;> simp_all [Instr.closes]
  rw [hevents,hspawn,hpush,hno,closed,closed,effect_logsClosed cfg alive t fresh ch hm]
  simp

end

/-- What every reachable system knows of the close: it happens once, `shutdown` asks for it, and
the middle of `shutdown` has its check below. -/
structure Closing (s : System) : Prop where
  once : s.history.count .logsClosed + s.count Instr.closes = closed s.shared
  asked : ∀ t b, .called t (.shutdown b) ∈ s.history →
    s.shared.closeLogsWhenIdle = true ∨ .shutdown b ∈ s.code t
  checks : ∀ t, ∀ i ∈ s.code t, i.finalizes = true → .maybeCloseLogs ∈ s.code t

namespace Closing
variable {s : System} {t : ℕ} {i : Instr} {rest : List Instr} {ch : Choice}

theorem blank : Closing .blank where
  once := rfl
  asked _ _ h := by cases h
  checks _ _ h := by cases h

theorem called (h : Closing s) (hs : s.Named) (c : Call) : Closing (s.called cfg c) where
  once := by
    have hentry : (entry cfg c).countP Instr.closes = 0 := by
      cases c <;> simp only [entry] <;> (try split) <;> (try split) <;> simp [Instr.closes]
    rw [System.count_called,hentry]
    simpa [Machine.start,machine] using h.once
  asked t b ht := by
    rcases List.mem_append.mp ht with ht | ht
    · exact (h.asked t b ht).imp_right fun hi => Machine.mem_start hs hi
    · right
      obtain ⟨rfl,rfl⟩ : t = s.next ∧ Call.shutdown b = c := by simpa [machine] using ht
      simp [Machine.start,machine,entry]
  checks t i hi hf := by
    by_cases ht : t = s.next
    · subst ht
      have hi : i ∈ entry cfg c := by simpa [Machine.start,machine] using hi
      cases c <;> simp only [entry] at hi <;> (try split at hi) <;> (try split at hi) <;>
        simp at hi <;> simp [hi,Instr.finalizes] at hf
    · simp only [Machine.start,Function.update_of_ne ht] at hi ⊢
      exact h.checks t i hi hf

section After
variable (h : Closing s) (hinv : Invariant s) (hl : s.Layered Instr.Above)
  (hc : s.code t = i :: rest)
include h hinv hc

theorem once_step : (s.after cfg t i rest ch).history.count .logsClosed +
    (s.after cfg t i rest ch).count Instr.closes = closed (s.after cfg t i rest ch).shared := by
  have hmove := System.count_after cfg ch hinv.named hc Instr.closes
  have hbal := balance_closed cfg (s := s.shared) s.alive t s.next ch i
  have := h.once
  simp only [Sys.advance_history,Sys.advance_shared,List.count_append]
  omega

theorem asked_step {x : ℕ} {b : Bool}
    (hx : .called x (.shutdown b) ∈ (s.after cfg t i rest ch).history) :
    (s.after cfg t i rest ch).shared.closeLogsWhenIdle = true ∨
      .shutdown b ∈ (s.after cfg t i rest ch).code x := by
  have hold : .called x (.shutdown b) ∈ s.history := by
    refine (List.mem_append.mp hx).resolve_right fun he => ?_
    have hem := effect_event_emits cfg s.shared s.alive t s.next ch he
    cases i <;> simp [Instr.Emits,Event.OfPending] at hem
  by_cases hi : ∃ b, i = .shutdown b
  · obtain ⟨b',rfl⟩ := hi
    exact Or.inl (by simp [effect,shutdown])
  · have hkeep : s.shared.closeLogsWhenIdle = true →
        (s.after cfg t i rest ch).shared.closeLogsWhenIdle = true := by
      intro hs
      by_cases hm : i = .maybeCloseLogs
      · subst hm
        simp only [Sys.advance_shared,effect]
        split <;> exact hs
      · rw [Sys.advance_shared,effect_logClosing cfg s.alive t s.next ch hm fun b hb => hi ⟨b,hb⟩]
        exact hs
    refine (h.asked x b hold).imp hkeep fun hmem => ?_
    refine Sys.mem_advance hinv.named hc hmem fun ht => ?_
    subst ht
    rw [hc] at hmem
    exact (List.mem_cons.mp hmem).resolve_left fun he => hi ⟨b,he.symm⟩

include hl in
theorem checks_step {x : ℕ} {j : Instr} (hj : j ∈ (s.after cfg t i rest ch).code x)
    (hf : j.finalizes = true) : .maybeCloseLogs ∈ (s.after cfg t i rest ch).code x := by
  have ht : t < s.next := hinv.named.lt (by simp [hc])
  have hrest : ∀ j ∈ i :: rest, j.finalizes = true → .maybeCloseLogs ∈ rest := by
    intro j hj hf
    have hmem := h.checks t j (hc ▸ hj) hf
    rw [hc] at hmem
    refine (List.mem_cons.mp hmem).resolve_left fun hi => ?_
    subst hi
    rcases List.mem_cons.mp hj with rfl | hj
    · simp [Instr.finalizes] at hf
    · simpa [Instr.wakes] using (hl.below hc hj).wakes hf
  rcases @Sys.advance_code_cases _ _ _ s t ((effect cfg s.alive t s.next ch s.shared i).push ++
    rest) (effect cfg s.alive t s.next ch s.shared i) ht x with
    ⟨rfl,he⟩ | ⟨rfl,body,hb,he⟩ | ⟨-,he⟩ <;> rw [he] at hj ⊢
  · rcases List.mem_append.mp hj with hj | hj
    · by_cases hi : ∃ b, i = .shutdown b
      · obtain ⟨b,rfl⟩ := hi
        exact List.mem_append_left _ (by simp [effect,shutdown])
      · refine List.mem_append_right _ (hrest i List.mem_cons_self ?_)
        exact (Instr.finalizes_of_next (effect_push_next cfg s.shared s.alive x s.next ch hj)
          hf).resolve_right hi
    · exact List.mem_append_right _ (hrest j (List.mem_cons_of_mem _ hj) hf)
  · rcases effect_spawn_cases cfg s.shared t s.next s.alive ch i with
      hs | ⟨a,-,-,-,hs⟩ | ⟨c,o,-,-,-,hs⟩ <;> rw [hs] at hb
    · cases hb
    · obtain rfl := Option.some.inj hb
      simp at hj
      rcases hj with rfl | rfl <;> simp [Instr.finalizes] at hf
    · obtain rfl := Option.some.inj hb
      simp at hj
      simp [hj,Instr.finalizes] at hf
  · exact h.checks x j hj hf

end After
end Closing

theorem Reachable.closing {s : System} (h : Reachable cfg s) : Closing s :=
  h.induct_reachable .blank (fun _ c hr hcl => hcl.called hr.invariant.named c)
    fun _ _ _ _ _ hr hcl hc _ =>
      ⟨hcl.once_step hr.invariant hc,fun _ _ => hcl.asked_step hr.invariant hc,
        fun _ _ => hcl.checks_step hr.invariant hr.layered hc⟩

/-! ### Who checks the logs -/

/-- The calls of the public API. -/
def Call.isPublic : Call → Bool
  | .start | .stop _ | .shutdown _ | .registerExecutor | .removeExecutor => true
  | .prepareStart | .activatePreparedStart _ | .cancelPreparedStart _
  | .settlePreparedAfterPublishFailure _ => false

def callsPublic : Action Choice Call → Bool
  | .call c => c.isPublic
  | .run .. => true

/-- Nothing but a Pending Remove keeps the logs open. -/
structure LastPending (s : State) : Prop where
  prepared : s.preparedStart = none
  worker : s.worker = none
  stopping : s.stoppingWorkers = ∅
  actors : s.cleanupActors = ∅
  coordination : ∀ k, s.registerCoordination = some k → (s.coordinations k).inflightCount = 0

/-- After `shutdown` the start of the last cleanup actor raises in `stop` or `remove_executor`,
and no thread is going to check the logs. -/
structure LosesClose (s : System) (i : Instr) (ch : Choice) : Prop where
  raises : i.raisesStartError s.shared s.alive ch = true
  asked : s.shared.closeLogsWhenIdle = true
  unclosed : s.shared.logsClosed = false
  last : LastPending s.shared
  unchecked : ∀ t, .maybeCloseLogs ∉ s.code t

/-- Public calls only, and no step that loses the close. -/
def KeepsClose (s : System) : Action Choice Call → Prop
  | .call c => c.isPublic = true
  | .run t ch => ∀ i rest, s.code t = i :: rest → ¬ LosesClose s i ch

/-- A coordination that still counts a register is not reconciled away. -/
theorem CleanupInv.reconcileGeneration_busy (h : CleanupInv s) {k : ℕ}
    (hk : s.registerCoordination = some k) (hin : 0 < (s.coordinations k).inflightCount) (g : ℕ) :
    Registry.reconcileGeneration s g = s := by
  unfold Registry.reconcileGeneration
  simp only [hk]
  split
  · have hrec := h.reconcile hk
    generalize reconcileRegisterCoordinationLocked s k = p at hrec ⊢
    cases hrec with
    | waiting => rfl
    | covered _ h0 | dropped h0 | marked _ h0 | created h0 => omega
  · rfl

theorem CleanupInv.failActorStart_busy (cfg : Config) (h : CleanupInv s) {k : ℕ}
    (hk : s.registerCoordination = some k) (hin : 0 < (s.coordinations k).inflightCount)
    (now : String) (o t : ℕ) (e : String) :
    (Registry.failActorStart cfg now s o t e).registerCoordination = some k := by
  have hc : CleanupInv (recordResultLocked cfg now
      (Registry.abandonOperation s o t (cfg.safeResult (startFailure e))) (startFailure e)
      .local) := (h.abandonOperation o t _).of_eq rfl rfl fun _ => id
  unfold Registry.failActorStart
  dsimp only
  rw [hc.reconcileGeneration_busy hk hin]
  exact hk

theorem LosesClose.started {s : System} {i : Instr} {ch : Choice} (h : LosesClose s i ch) :
    ch.startError.isSome = true := by
  have hr := h.raises
  cases i with
  | schedulePendingRemove caller =>
    simp only [Instr.raisesStartError,Bool.and_eq_true] at hr
    exact hr.2
  | _ => simp [Instr.raisesStartError] at hr

/-- A failed start that empties the last slot took the last Pending Remove. -/
theorem Invariant.raises_vacant {s : System} (h : Invariant s) {t : ℕ} {i : Instr} {ch : Choice}
    (hr : i.raisesStartError s.shared s.alive ch = true)
    (hv : Vacant (effect cfg s.alive t s.next ch s.shared i).state) : LastPending s.shared := by
  cases i with
  | schedulePendingRemove caller =>
    simp only [effect] at hv
    rcases schedulePendingRemove_cases cfg ch.now s.shared t s.next s.alive caller ch.startError
      with ⟨ho,-⟩ | ⟨o,-,he,-⟩ | ⟨o,e,ho,-,he⟩
    · simp [Instr.raisesStartError,ho] at hr
    · simp [Instr.raisesStartError,he] at hr
    · rw [he] at hv
      have hdead : ∀ d, (s.shared.operations o).thread = some d → d ∉ s.shared.cleanupActors :=
        fun d hd ha => h.actor_alive ha (by
          simpa [Sys.alive] using (schedulable_eq_some ho).2.2.2 d hd)
      refine ⟨by simpa using hv.prepared,by simpa using hv.worker,by simpa using hv.stopping,
        ?_,fun k hk => ?_⟩
      · have ha := hv.actors
        simp only [failActorStart_frame,associateActor_actors _ _ _ hdead,
          Finset.erase_insert (h.not_actor le_rfl)] at ha
        exact ha
      · by_contra hin
        have hbusy := (h.rep.cleanup.associateActor o s.next).failActorStart_busy cfg
          (k := k) (by simpa using hk) (by simpa using Nat.pos_of_ne_zero hin) ch.now o s.next e
        exact absurd (hbusy.symm.trans hv.coordination) (by simp)
  | _ => simp [Instr.raisesStartError] at hr

/-- Until the logs are closed somebody who empties the last slot goes on to check them. -/
structure Checked (s : System) : Prop where
  committed : s.Everywhere fun _ i => i.cancels = false
  owed : s.shared.closeLogsWhenIdle = true → s.shared.logsClosed = false → Vacant s.shared →
    s.Somewhere (· = .maybeCloseLogs)

theorem Instr.not_cancels_of_next {i j : Instr} (hn : i.Next j) : j.cancels = false := by
  cases i with
  | schedulePendingRemove caller =>
    cases caller <;> simp [Next,Scheduler.returned,Scheduler.failed] at hn <;> grind [cancels]
  | commit call q r => cases call <;> simp only [Next] at hn <;> grind [cancels]
  | network call => simp only [Next] at hn; grind [cancels]
  | rpc call =>
    obtain ⟨q,r,rfl⟩ := hn
    rfl
  | _ => simp only [Next] at hn <;> grind [cancels]

namespace Checked
variable {s : System}

theorem blank : Checked .blank where
  committed _ _ h := by cases h
  owed h := by simp [System.blank,State.blank] at h

theorem called (h : Checked s) (hs : s.Named) {c : Call} (hc : c.isPublic = true) :
    Checked (s.called cfg c) where
  committed := Machine.Everywhere.start h.committed fun i hi => by
    have hi : i ∈ entry cfg c := hi
    cases c <;> simp [Call.isPublic] at hc <;> simp only [entry] at hi <;> (try split at hi) <;>
      (try split at hi) <;> simp at hi <;> subst hi <;> rfl
  owed ha hn hv := (h.owed ha hn hv).start hs c

theorem after (h : Checked s) (hr : Reachable cfg s) {t : ℕ} {i : Instr} {rest : List Instr}
    {ch : Choice} (hc : s.code t = i :: rest) (hg : ¬ LosesClose s i ch) :
    Checked (s.after cfg t i rest ch) := by
  have hinv := hr.invariant
  have htop : i ∈ s.code t := by simp [hc]
  have ht : t < s.next := hinv.named.lt (by simp [hc])
  refine ⟨h.committed.advance ht hc (fun _ _ _ _ => id)
    (fun j hj => Instr.not_cancels_of_next (effect_push_next cfg _ _ _ _ _ hj)) ?_,
    fun ha hn hv => ?_⟩
  · intro body hb j hj
    rcases effect_spawn_cases cfg s.shared t s.next s.alive ch i with
      hs | ⟨a,-,-,-,hs⟩ | ⟨c,o,-,-,-,hs⟩ <;> rw [hs] at hb
    · cases hb
    · obtain rfl := Option.some.inj hb
      simp at hj
      rcases hj with rfl | rfl <;> rfl
    · obtain rfl := Option.some.inj hb
      obtain rfl := List.mem_singleton.mp hj
      rfl
  · by_cases hs : ∃ b, i = .shutdown b
    · obtain ⟨b,rfl⟩ := hs
      exact .pushed ht (by simp [effect,shutdown]) rfl
    simp only [Sys.advance_shared] at ha hn hv
    by_cases hm : i = .maybeCloseLogs
    · -- the check itself closes the logs of a vacant service
      subst hm
      simp only [effect] at ha hn hv
      split at hn
      · cases hn
      · rename_i hno
        rw [if_neg hno] at ha hv
        exact absurd (closesLogs_iff.mpr ⟨ha,hv,hn⟩) hno
    have hlog := effect_logClosing cfg (s := s.shared) s.alive t s.next ch hm
      fun b hb => hs ⟨b,hb⟩
    rw [hlog] at ha hn
    rcases effect_vacant cfg hinv.rep s.alive t s.next ch (hinv.owned htop) hv with
      hv' | hpush | hcan | hfin | hraise
    · exact (h.owed ha hn hv').advance hinv.named hc hm
    · exact .pushed ht hpush rfl
    · simp [h.committed t i htop] at hcan
    · have hmem := hr.closing.checks t i htop hfin
      rw [hc] at hmem
      exact .below ht ((List.mem_cons.mp hmem).resolve_left fun he => hm he.symm) rfl
    · by_contra hno
      refine hg ⟨hraise,ha,hn,hinv.raises_vacant hraise hv,fun x hx => hno ?_⟩
      have hsome : s.Somewhere (· = .maybeCloseLogs) := ⟨x,_,hx,rfl⟩
      exact hsome.advance hinv.named hc hm

end Checked

theorem checked_of_run {s : System} (h : Run (step cfg) KeepsClose .blank s) : Checked s := by
  have hboth : Checked s ∧ Reachable cfg s := by
    induction h with
    | refl => exact ⟨.blank,.refl⟩
    | tail a _ hg hs ih =>
      refine ⟨?_,ih.2.tail a trivial hs⟩
      cases a with
      | call c =>
        obtain rfl := Option.some.inj hs
        exact ih.1.called ih.2.invariant.named hg
      | run t ch =>
        obtain ⟨i,rest,hc,-,rfl⟩ := step_run_cases hs
        exact ih.1.after ih.2 hc (hg i rest hc)
  exact hboth.1

/-! ### The service at rest -/

/-- No Remove is stranded and nobody waits for one; a service that has been shut down has closed
its logs once. -/
structure AtRest (s : System) : Prop where
  pending : s.shared.pendingRemove = none
  active : s.shared.activeRemove = none
  coordination : s.shared.registerCoordination = none
  stopping : s.shared.stoppingWorkers = ∅
  actors : s.shared.cleanupActors = ∅
  operations : ∀ o < s.shared.nextOperation, (s.shared.operations o).doneEvent = true
  coordinations : ∀ k < s.shared.nextCoordination, (s.shared.coordinations k).doneEvent = true
  threads : ∀ t, s.code t = [] ∨
    (∃ c, s.shared.worker = some c ∧ s.code t = [.sleep c]) ∨
    ∃ p rest, s.shared.preparedStart = some p ∧ s.code t = .waitActivate p :: rest
  logs : ∀ t b, .called t (.shutdown b) ∈ s.history → s.shared.worker = none →
    s.shared.preparedStart = none → s.shared.logsClosed = true ∧ s.history.count .logsClosed = 1

/-- At rest nobody is left to check the logs, so they have been closed. -/
theorem Quiescent.closed {s : System} (h : Quiescent cfg s) (hr : Reachable cfg s)
    (hch : Checked s) {t : ℕ} {b : Bool} (hb : .called t (.shutdown b) ∈ s.history)
    (hw : s.shared.worker = none) (hp : s.shared.preparedStart = none) :
    s.shared.logsClosed = true ∧ s.history.count .logsClosed = 1 := by
  have hvac : Vacant s.shared := ⟨hp,hw,h.stopping hr,h.active hr,h.pending hr,h.actors hr,
    h.coordination hr⟩
  have hasked : s.shared.closeLogsWhenIdle = true :=
    (hr.closing.asked t b hb).resolve_right fun hi => by
      simpa [Instr.rests] using h.rests hr hi
  have hclosed : s.shared.logsClosed = true := by
    by_contra hn
    refine h.settled hr (hch.owed hasked (by simpa using hn) hvac) fun i hi => ?_
    subst hi
    rfl
  refine ⟨hclosed,?_⟩
  have honce := hr.closing.once
  rw [h.no_count hr fun i hi => ?_,Registry.closed,if_pos hclosed] at honce
  · simpa using honce
  · cases i <;> simp_all [Instr.closes,Instr.rests]

theorem quiescent_at_rest {s : System} (hr : Run (step cfg) KeepsClose .blank s)
    (hq : Quiescent cfg s) : AtRest s := by
  have hreach : Reachable cfg s := hr.mono fun _ _ _ => trivial
  have hp := hq.pending hreach
  exact {
    pending := hp
    active := hq.active hreach
    coordination := hq.coordination hreach
    stopping := hq.stopping hreach
    actors := hq.actors hreach
    operations := fun o ho => hq.done hreach ho (by simp [hp])
    coordinations := fun k hk => hq.accounted hreach hk
    threads := hq.stack hreach
    logs := fun t b hb => hq.closed hreach (checked_of_run hr) hb }

/-- Every thread that is started runs. -/
def startsThreads : Action Choice Call → Bool
  | .call c => c.isPublic
  | .run _ ch => ch.startError.isNone

theorem keepsClose_of_starts {s : System} {a : Action Choice Call} (h : startsThreads a = true) :
    KeepsClose s a := by
  cases a with
  | call c => exact h
  | run t ch =>
    intro i rest _ hl
    have hsome := hl.started
    rw [Option.isNone_iff_eq_none.mp h] at hsome
    cases hsome

/-- The cleanup of a register, requested by `stop`, and a `shutdown` after it. -/
theorem quiescent_at_rest_cleaned : ∃ s : System, (s.shared.nextOperation = 1 ∧
    s.shared.rpcSequence = 2 ∧ s.history.count .logsClosed = 1) ∧ AtRest s := by
  have hex : (schedule (fun s a => if startsThreads a then step .plain s a else none) .blank
      ([.call .registerExecutor] ++ List.replicate 7 (proceed 0) ++ [.call (.stop true)] ++
        List.replicate 3 (proceed 1) ++ List.replicate 10 (proceed 2) ++
        [.call (.shutdown true)] ++ List.replicate 3 (proceed 3))).any
      (fun s => (∀ t < s.next, s.code t = []) ∧ s.shared.nextOperation = 1 ∧
        s.shared.rpcSequence = 2 ∧ s.history.count .logsClosed = 1) = true := by
    decide +kernel
  obtain ⟨s,hr,hp⟩ := Run.exists_within hex
  obtain ⟨hended,hfacts⟩ := of_decide_eq_true hp
  have hreach : Reachable .plain s := hr.mono fun _ _ _ => trivial
  have hrun : Run (step .plain) KeepsClose .blank s := hr.mono fun _ _ => keepsClose_of_starts
  exact ⟨s,hfacts,quiescent_at_rest hrun
    (quiescent_of_ended (hreach.invariant.named.ended hended))⟩

/-- A `stop` whose cleanup actor does not start after a `shutdown` has passed it by. -/
theorem quiescent_unclosed : ∃ s : System,
    Run (step .plain) (fun _ a => callsPublic a = true) .blank s ∧ Quiescent .plain s ∧
      ¬ AtRest s := by
  have hex : (schedule (fun s a => if callsPublic a then step .plain s a else none) .blank
      ([.call .registerExecutor] ++ List.replicate 7 (proceed 0) ++
        [.call (.stop true), proceed 1, .call (.shutdown false), proceed 2, proceed 2,
          .run 1 { startError := some "RuntimeError" }, proceed 1])).any
      (fun s => (∀ t < s.next, s.code t = []) ∧ .called 2 (.shutdown false) ∈ s.history ∧
        s.shared.worker = none ∧ s.shared.preparedStart = none ∧ s.shared.logsClosed = false) =
      true := by
    decide +kernel
  obtain ⟨s,hr,hp⟩ := Run.exists_within hex
  obtain ⟨hended,hcall,hw,hpr,hlogs⟩ := of_decide_eq_true hp
  have hreach : Reachable .plain s := hr.mono fun _ _ _ => trivial
  refine ⟨s,hr,quiescent_of_ended (hreach.invariant.named.ended hended),fun h => ?_⟩
  simp [(h.logs 2 false hcall hw hpr).1] at hlogs

end FlaskXxlJob.Registry
