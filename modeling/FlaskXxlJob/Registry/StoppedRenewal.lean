import FlaskXxlJob.Registry.PreparedStart

/-!
What a stop leaves of the renewal: the one RPC that already holds the network lock. Until a
token is committed there is no Worker, and every `remove_executor` is a terminal one.
-/
namespace FlaskXxlJob.Registry
open FlaskXxlJob.Client Interleaving

variable {cfg : Config}

/-- No step activates a token that is still in its slot. -/
def CommitsNothing (s : System) : Action Choice Call → Prop
  | .call _ => True
  | .run t _ => ∀ p rest, s.code t = .activatePreparedStart p :: rest →
      s.shared.preparedStart ≠ some p

/-- The sections of `stop` and `shutdown`. -/
def Instr.stops : Instr → Bool
  | .stop _ | .shutdown _ => true
  | _ => false

/-- A renewal that is about to be sent under the network lock. -/
def Instr.renews : Instr → Bool
  | .rpc (.worker _) => true
  | _ => false

def Rpc.isRenewal (x : Rpc) : Bool :=
  match x.kind with
  | .worker .. => true
  | _ => false

def System.renewals (s : System) : ℕ := s.rpcs.countP Rpc.isRenewal

theorem effect_stops (cfg : Config) (s : State) (alive : ℕ → Bool) (t fresh : ℕ) (ch : Choice)
    {i : Instr} (hi : i.stops = true) : (effect cfg alive t fresh ch s i).state.worker = none ∧
      (effect cfg alive t fresh ch s i).state.generation = s.generation := by
  cases i with
  | stop remove =>
    simp only [effect,stop,stopSection]
    split <;> simp
  | shutdown deregister => simp [effect,shutdown]
  | _ => cases hi

/-- Without a commit no Worker becomes current, and the generation stays. -/
theorem effect_keeps_stopped (cfg : Config) {s : State} (h : LifecycleInv s) (hw : s.worker = none)
    (alive : ℕ → Bool) (t fresh : ℕ) (ch : Choice) {i : Instr}
    (hi : ∀ p, i = .activatePreparedStart p → s.preparedStart ≠ some p) :
    (effect cfg alive t fresh ch s i).state.worker = none ∧
      (effect cfg alive t fresh ch s i).state.generation = s.generation := by
  cases hm : i.movesLifecycle with
  | false =>
    have hl := effect_toLifecycle cfg s t fresh alive ch hm
    exact ⟨(congrArg Lifecycle.worker hl).trans hw,congrArg Lifecycle.generation hl⟩
  | true =>
    cases i with
    | prepareStart activate =>
      simp only [effect]
      rcases prepareStart_cases s t fresh activate ch.startError with
        he | ⟨e,he⟩ | ⟨-,he⟩ <;> rw [he] <;> exact ⟨hw,rfl⟩
    | activatePreparedStart p =>
      simp only [effect]
      rcases activatePreparedStart_cases t h p with ⟨-,he⟩ | ⟨hp,-⟩
      · rw [he]
        exact ⟨hw,rfl⟩
      · exact absurd hp (hi p rfl)
    | cancelPreparedStart p =>
      simp only [effect]
      rcases cancelPreparedStart_cases s p with ⟨-,he⟩ | ⟨-,he⟩ <;> rw [he] <;> exact ⟨hw,rfl⟩
    | settlePrepared p =>
      simp only [effect]
      rcases settlePrepared_cases s p with he | ⟨-,he⟩ | ⟨-,-,-,he⟩ <;> rw [he] <;>
        exact ⟨hw,rfl⟩
    | setStop c => exact ⟨hw,rfl⟩
    | setActivate p => exact ⟨hw,rfl⟩
    | stop remove => exact effect_stops cfg s alive t fresh ch rfl
    | shutdown deregister => exact effect_stops cfg s alive t fresh ch rfl
    | finishWorker c =>
      simp only [effect]
      rcases finishWorker_cases s t c with ⟨o,-,-,-,he⟩ | ⟨-,he⟩ <;> rw [he] <;> simp [hw]
    | _ => simp [Instr.movesLifecycle] at hm

/-- A renewal is sent by an instruction that was ready to send it; no other one gets ready. -/
theorem effect_renews (cfg : Config) {s : State} (alive : ℕ → Bool) (t fresh : ℕ) (ch : Choice)
    {i : Instr} (hw : ∀ call, i = .network call → s.worker = none) :
    (i.issues s ch).countP Rpc.isRenewal = (if i.renews then 1 else 0) ∧
    (effect cfg alive t fresh ch s i).push.countP Instr.renews = 0 ∧
    ((effect cfg alive t fresh ch s i).spawn.getD []).countP Instr.renews = 0 := by
  refine ⟨?_,?_,?_⟩
  · cases i with
    | rpc call => cases call <;> rfl
    | _ => rfl
  · rw [List.countP_eq_zero]
    intro j hj hr
    have hnext := effect_push_next cfg s alive t fresh ch hj
    obtain ⟨c,rfl⟩ : ∃ c, j = .rpc (.worker c) := by
      cases j with
      | rpc call =>
        cases call with
        | worker c => exact ⟨c,rfl⟩
        | _ => cases hr
      | _ => cases hr
    cases i with
    | network call =>
      obtain rfl : call = .worker c := by
        rcases hnext with heq | ⟨d,-,heq⟩
        · exact (Instr.rpc.inj heq).symm
        · cases heq
      have hcur : workerIsCurrent s c = false := by
        simp [workerIsCurrent,isCurrentWorker,hw _ rfl]
      simp [effect,enterNetwork,hcur] at hj
    | commit call q r => cases call <;> simp [Instr.Next] at hnext
    | schedulePendingRemove caller =>
      cases caller <;> simp [Instr.Next,Scheduler.returned,Scheduler.failed] at hnext
    | _ => simp [Instr.Next] at hnext
  · rw [List.countP_eq_zero]
    intro j hj hr
    rcases effect_spawn_cases cfg s t fresh alive ch i with
      he | ⟨_,-,-,-,he⟩ | ⟨_,_,-,-,-,he⟩ <;> rw [he] at hj <;> simp at hj
    · rcases hj with rfl | rfl <;> cases hr
    · subst hj
      cases hr

/-- Once stopped: how much has been sent, and how many renewals are on their way. -/
structure Stopped (cfg : Config) (n g k : ℕ) (s : System) : Prop where
  reachable : Reachable cfg s
  worker : s.shared.worker = none
  generation : s.shared.generation = g
  renewals : s.renewals + s.count Instr.renews = k
  removes : cfg.enabled = true → cfg.registryError = none → ∀ t, n ≤ t →
    .called t .removeExecutor ∈ s.history →
      .removeOnce ∈ s.code t ∨ .enteredRemove t g ∈ s.history

namespace Stopped
variable {n g k : ℕ} {s : System}

theorem called (h : Stopped cfg n g k s) (c : Call) : Stopped cfg n g k (s.called cfg c) where
  reachable := h.reachable.tail (.call c) trivial rfl
  worker := h.worker
  generation := h.generation
  renewals := by
    have hentry : (entry cfg c).countP Instr.renews = 0 := by
      rw [List.countP_eq_zero]
      intro i hi hr
      rcases entry_cases cfg c with he | ⟨j,he,hj⟩ <;> rw [he] at hi
      · cases hi
      · obtain rfl := List.mem_singleton.mp hi
        cases i with
        | rpc call => simp [Instr.role] at hj
        | _ => cases hr
    rw [System.renewals,System.rpcs_called,System.count_called,hentry,Nat.add_zero]
    exact h.renewals
  removes hen hreg t ht hcall := by
    rcases List.mem_append.mp hcall with hcall | hcall
    · exact (h.removes hen hreg t ht hcall).imp
        (Machine.mem_start h.reachable.invariant.named) (List.mem_append_left _)
    · obtain ⟨rfl,rfl⟩ : t = s.next ∧ Call.removeExecutor = c := by simpa [machine] using hcall
      left
      simp [Machine.start,machine,entry,hen,hreg]

theorem after (h : Stopped cfg n g k s) {t : ℕ} {i : Instr} {rest : List Instr} {ch : Choice}
    (hs : step cfg s (.run t ch) = some (s.after cfg t i rest ch)) (hc : s.code t = i :: rest)
    (hg : CommitsNothing s (.run t ch)) : Stopped cfg n g k (s.after cfg t i rest ch) := by
  have hinv := h.reachable.invariant
  have hkeep := effect_keeps_stopped cfg hinv.rep.lifecycle h.worker s.alive t s.next ch
    (i := i) fun p hp => hg p rest (hp ▸ hc)
  obtain ⟨hissue,hpush,hspawn⟩ := effect_renews cfg s.alive t s.next ch (i := i)
    fun _ _ => h.worker
  refine ⟨h.reachable.tail _ trivial hs,hkeep.1,hkeep.2.trans h.generation,?_,?_⟩
  · have hcount := System.count_after cfg ch hinv.named hc Instr.renews
    have hold := h.renewals
    rw [System.renewals,System.rpcs_after,List.countP_append,hissue]
    rw [hpush,hspawn] at hcount
    simp only [System.renewals] at hold
    omega
  · intro hen hreg x hx hcall
    have hold : .called x .removeExecutor ∈ s.history := by
      refine (List.mem_append.mp hcall).resolve_right fun he => ?_
      have hem := effect_event_emits cfg s.shared s.alive t s.next ch he
      cases i <;> simp [Instr.Emits,Event.OfPending] at hem
    rcases h.removes hen hreg x hx hold with hmem | hent
    · by_cases hix : x = t ∧ i = .removeOnce
      · obtain ⟨rfl,rfl⟩ := hix
        refine Or.inr (List.mem_append_right _ ?_)
        rcases removeOnce_cases s.shared x with ⟨-,he⟩ | ⟨hne,-⟩
        · simp [effect,he,h.generation]
        · exact absurd h.worker hne
      · refine Or.inl (Sys.mem_advance hinv.named hc hmem fun hxt => ?_)
        subst hxt
        rw [hc] at hmem
        refine (List.mem_cons.mp hmem).resolve_left fun heq => hix ⟨rfl,heq.symm⟩
    · exact Or.inr (List.mem_append_left _ hent)

end Stopped

/-- At most one renewal is on its way: it holds the network lock. -/
theorem Reachable.renews_le {s : System} (h : Reachable cfg s) : s.count Instr.renews ≤ 1 := by
  by_contra hn
  have hinv := h.invariant
  have hle : s.count Instr.renews ≤ s.count Instr.holdsNetwork := by
    refine Finset.sum_le_sum fun t _ => ?_
    rw [weigh_tally,weigh_tally]
    refine List.countP_mono_left fun i _ hi => ?_
    cases i with
    | rpc call => rfl
    | _ => cases hi
  have hlock := hinv.network
  rw [lockCount] at hlock
  split at hlock <;> omega

/-- What holds from the section of a `stop` or `shutdown` until a token is committed. -/
structure StaysStopped (cfg : Config) (s s₁ s' : System) : Prop where
  worker : s'.shared.worker = none
  generation : s'.shared.generation = s.shared.generation
  renewals : s'.renewals ≤ s.renewals + 1
  silent : (∀ t c, .rpc (.worker c) ∉ s.code t) → s'.renewals ≤ s.renewals
  removes : cfg.enabled = true → cfg.registryError = none → ∀ t, s₁.next ≤ t →
    .called t .removeExecutor ∈ s'.history → s'.code t = [] →
      .enteredRemove t s.shared.generation ∈ s'.history

theorem stopped_renewal {s s' : System} {t : ℕ} {i : Instr} {rest : List Instr} {ch : Choice}
    (hr : Reachable cfg s) (hc : s.code t = i :: rest) (hi : i.stops = true)
    (h : Run (step cfg) CommitsNothing (s.after cfg t i rest ch) s') :
    StaysStopped cfg s (s.after cfg t i rest ch) s' := by
  have hinv := hr.invariant
  have hs : step cfg s (.run t ch) = some (s.after cfg t i rest ch) := by
    refine Machine.step_run_of hc (exec_eq_some.mpr ⟨?_,rfl⟩)
    cases i <;> first | rfl | cases hi
  have hr₁ : Reachable cfg (s.after cfg t i rest ch) := hr.tail (.run t ch) trivial hs
  obtain ⟨hworker,hgen⟩ := effect_stops cfg s.shared s.alive t s.next ch hi
  have hcount : (s.after cfg t i rest ch).renewals + (s.after cfg t i rest ch).count Instr.renews =
      s.renewals + s.count Instr.renews := by
    have hquiet : ∀ call, i = .network call → s.shared.worker = none := by
      rintro call rfl
      cases hi
    obtain ⟨hissue,hpush,hspawn⟩ := effect_renews cfg s.alive t s.next ch hquiet
    have hmoved := System.count_after cfg ch hinv.named hc Instr.renews
    rw [System.renewals,System.rpcs_after,List.countP_append,hissue]
    rw [hpush,hspawn] at hmoved
    simp only [System.renewals]
    omega
  have hstart : Stopped cfg (s.after cfg t i rest ch).next s.shared.generation
      (s.renewals + s.count Instr.renews) (s.after cfg t i rest ch) :=
    ⟨hr₁,hworker,hgen,hcount,fun _ _ x hx hcall =>
      absurd (hr₁.holders.callers x _ hcall) (not_lt.mpr hx)⟩
  have hend : Stopped cfg (s.after cfg t i rest ch).next s.shared.generation
      (s.renewals + s.count Instr.renews) s' := by
    refine Run.invariant (I := Stopped cfg (s.after cfg t i rest ch).next s.shared.generation
      (s.renewals + s.count Instr.renews)) hstart ?_ h
    intro x a y hx hg hstep
    cases a with
    | call c =>
      obtain rfl := Option.some.inj hstep
      exact hx.called c
    | run u ch' =>
      obtain ⟨j,rest',hc',-,rfl⟩ := step_run_cases hstep
      exact hx.after hstep hc' hg
  have hone := hr.renews_le
  have htotal := hend.renewals
  refine ⟨hend.worker,hend.generation,by omega,fun hno => ?_,fun hen hreg x hx hcall hnil => ?_⟩
  · have hzero : s.count Instr.renews = 0 := by
      by_contra hn
      obtain ⟨x,j,hj,hrenew⟩ := System.exists_of_count (Nat.pos_of_ne_zero hn)
      cases j with
      | rpc call =>
        cases call with
        | worker c => exact hno x c hj
        | _ => cases hrenew
      | _ => cases hrenew
    omega
  · refine (hend.removes hen hreg x hx hcall).resolve_left ?_
    simp [hnil]

/-- Activates no token at all. -/
def ActivatesNothing (s : System) : Action Choice Call → Bool
  | .call _ => true
  | .run t _ =>
    match s.code t with
    | .activatePreparedStart _ :: _ => false
    | _ => true

theorem ActivatesNothing.commitsNothing {s : System} {a : Action Choice Call}
    (h : ActivatesNothing s a = true) : CommitsNothing s a := by
  cases a with
  | call c => trivial
  | run t ch =>
    intro p rest hc
    simp [ActivatesNothing,hc] at h

/-- A renewal that holds the network lock when `stop` takes effect, and a later removal. -/
theorem stopped_renewal_in_flight : ∃ s s' : System,
    (s.renewals = 0 ∧ s'.rpcs.map Rpc.kind = [.worker 0 1,.active 0 1] ∧
      .called 3 .removeExecutor ∈ s'.history ∧ s'.code 3 = []) ∧
    StaysStopped .plain s (s.after .plain 2 (.stop false) [] {}) s' := by
  obtain ⟨s,hr,hp⟩ := Run.exists_of_schedule (f := step .plain) (s := .blank)
    (l := [.call .start] ++ List.replicate 3 (proceed 0) ++ List.replicate 6 (proceed 1) ++
      [.call (.stop false)])
    (p := fun s => s.renewals = 0 ∧ s.code 2 = [.stop false] ∧
      (schedule (fun s a => if ActivatesNothing s a then step .plain s a else none)
        (s.after .plain 2 (.stop false) [] {})
        (List.replicate 5 (proceed 1) ++ [.call .removeExecutor] ++
          List.replicate 10 (proceed 3))).any fun s' =>
        s'.rpcs.map Rpc.kind = [.worker 0 1,.active 0 1] ∧
          .called 3 .removeExecutor ∈ s'.history ∧ s'.code 3 = []) (by decide +kernel)
  obtain ⟨hzero,hc,hrun⟩ := of_decide_eq_true hp
  obtain ⟨s',hr',hp'⟩ := Run.exists_within hrun
  exact ⟨s,s',⟨hzero,by simpa using hp'⟩,stopped_renewal hr hc rfl
    (hr'.mono fun _ _ h => ActivatesNothing.commitsNothing h)⟩

end FlaskXxlJob.Registry
