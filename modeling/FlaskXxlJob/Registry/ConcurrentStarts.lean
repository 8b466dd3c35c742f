import FlaskXxlJob.Registry.PreparedStart

/-!
Concurrent `start` calls. The first one takes the Prepared slot, the others see the token or its
Worker, and the one token is committed once.
-/
namespace FlaskXxlJob.Registry
open FlaskXxlJob.Client Interleaving

variable {cfg : Config} {s : State}

/-- Some token has been committed. -/
def Event.isCommitted : Event → Bool
  | .committed .. => true
  | _ => false

theorem Event.settles_of_isCommitted {e : Event} (h : e.isCommitted = true) :
    e.settles = true := by
  cases e <;> first | rfl | cases h

/-- No step but those of `start` calls prepares a token or ends a lifecycle. -/
def Instr.leavesRenewal (ch : Choice) : Instr → Bool
  | .prepareStart activate => activate && ch.startError.isNone
  | .cancelPreparedStart _ | .settlePrepared _ | .stop _ | .shutdown _ => false
  | _ => true

def OnlyStarts (s : System) : Action Choice Call → Prop
  | .call _ => True
  | .run t ch => ∀ i rest, s.code t = i :: rest → i.leavesRenewal ch = true

/-- What a step does to the renewal while only `start` calls act on it. -/
inductive StartChange (s : State) (i : Instr) (e : Step) : Prop
  | kept : e.state.worker = s.worker → e.state.preparedStart = s.preparedStart →
      e.events.countP Event.isCommitted = 0 →
      (i = .prepareStart true → prepareRefused s = true) → StartChange s i e
  | prepared : i = .prepareStart true → e.state.worker = s.worker →
      e.state.preparedStart = some s.nextPrepared →
      e.push = [.activatePreparedStart s.nextPrepared] →
      e.events.countP Event.isCommitted = 0 → prepareRefused s = false → StartChange s i e
  | committed (p : ℕ) : i = .activatePreparedStart p → s.preparedStart = some p →
      e.state.worker = some p → e.state.preparedStart = none →
      e.events.countP Event.isCommitted = 1 → StartChange s i e
  | finished (d : ℕ) : i = .finishWorker d → s.worker = some d → StartChange s i e

theorem startChange (cfg : Config) (h : LifecycleInv s) (alive : ℕ → Bool) (t fresh : ℕ)
    {ch : Choice} {i : Instr} (hi : i.leavesRenewal ch = true) :
    StartChange s i (effect cfg alive t fresh ch s i) := by
  have hcount : ∀ l : List Event, settlementsOf l = [] → l.countP Event.isCommitted = 0 :=
    fun l hl => by rw [countP_settlements fun _ => Event.settles_of_isCommitted,hl]; rfl
  have hslot := slotChange cfg h alive t fresh ch i
  cases hm : i.movesLifecycle with
  | false =>
    have hl := effect_toLifecycle cfg s t fresh alive ch hm
    have hno : ∀ a, i ≠ .prepareStart a := fun a ha => by simp [ha,Instr.movesLifecycle] at hm
    cases hslot with
    | kept hp _ he =>
      exact .kept (by rw [hl]) hp (hcount _ he) fun ha => absurd ha (hno true)
    | published a ha => exact absurd ha (hno a)
    | committed p hp => simp [hp,Instr.movesLifecycle] at hm
    | cancelled p hp hnone =>
      rw [hl,hp] at hnone
      cases hnone
  | true =>
    cases i with
    | prepareStart activate =>
      obtain ⟨rfl,hstart⟩ : activate = true ∧ ch.startError = none := by
        simpa [Instr.leavesRenewal] using hi
      simp only [effect,prepareStart,hstart]
      split
      · exact .kept rfl rfl rfl fun _ => ‹_›
      · exact .prepared rfl rfl rfl rfl rfl (Bool.eq_false_iff.mpr ‹_›)
    | activatePreparedStart p =>
      simp only [effect] at hslot ⊢
      rcases activatePreparedStart_cases t h p with ⟨-,he⟩ | ⟨hp,-,he⟩ <;> rw [he] at hslot ⊢
      · exact .kept rfl rfl rfl (by simp)
      · refine .committed p rfl hp (by simp [publishWorker]) (by simp [publishWorker]) ?_
        rw [countP_settlements fun _ => Event.settles_of_isCommitted,settlementsOf_append,
          settlementsOf_pending]
        rfl
    | setStop d => exact .kept rfl rfl rfl (by simp)
    | setActivate p => exact .kept rfl rfl rfl (by simp)
    | finishWorker d =>
      by_cases hw : s.worker = some d
      · exact .finished d rfl hw
      · simp only [effect]
        rcases finishWorker_cases s t d with ⟨x,-,-,-,he⟩ | ⟨-,he⟩ <;> rw [he] <;>
          exact .kept (by simp [hw]) (by simp) rfl (by simp)
    | _ => simp [Instr.movesLifecycle,Instr.leavesRenewal] at hm hi

/-- Between the first `start` call after `n` threads and its commit, with `k` commits before. -/
inductive StartPhase (n k : ℕ) (s : System) : Prop
  | idle : s.shared.worker = none → s.shared.preparedStart = none →
      s.history.countP Event.isCommitted = k →
      (∀ t, n ≤ t → .called t .start ∈ s.history → .prepareStart true ∈ s.code t) →
      StartPhase n k s
  | preparing (p t : ℕ) : s.shared.worker = none → s.shared.preparedStart = some p →
      s.history.countP Event.isCommitted = k → .activatePreparedStart p ∈ s.code t →
      .called t .start ∈ s.history → StartPhase n k s
  | running (c : ℕ) : s.shared.worker = some c → s.shared.preparedStart = none →
      s.history.countP Event.isCommitted = k + 1 → StartPhase n k s

namespace StartPhase
variable {n k : ℕ} {s : System}

theorem called (h : StartPhase n k s) (hn : s.Named) (hen : cfg.enabled = true)
    (hreg : cfg.registryError = none) (c : Call) : StartPhase n k (s.called cfg c) := by
  have hcount : (s.called cfg c).history.countP Event.isCommitted =
      s.history.countP Event.isCommitted := by
    simp [Machine.start,machine,Event.isCommitted]
  cases h with
  | idle hw hp hk hs =>
    refine .idle hw hp (hcount.trans hk) fun t ht hcall => ?_
    rcases List.mem_append.mp hcall with hcall | hcall
    · exact Machine.mem_start hn (hs t ht hcall)
    · obtain ⟨rfl,rfl⟩ : t = s.next ∧ Call.start = c := by simpa [machine] using hcall
      simp [Machine.start,machine,entry,hen,hreg]
  | preparing p t hw hp hk hi hcall =>
    exact .preparing p t hw hp (hcount.trans hk) (Machine.mem_start hn hi)
      (List.mem_append_left _ hcall)
  | running c' hw hp hk => exact .running c' hw hp (hcount.trans hk)

theorem after (h : StartPhase n k s) (hr : Reachable cfg s) {t : ℕ} {i : Instr}
    {rest : List Instr} {ch : Choice} (hc : s.code t = i :: rest)
    (hi : i.leavesRenewal ch = true) : StartPhase n k (s.after cfg t i rest ch) := by
  have hinv := hr.invariant
  have ht : t < s.next := hinv.named.lt (by simp [hc])
  have hstart := startChange cfg hinv.rep.lifecycle s.alive t s.next hi
  have hold := hr.holders
  have hcount : ∀ m, (effect cfg s.alive t s.next ch s.shared i).events.countP
      Event.isCommitted = m → (s.after cfg t i rest ch).history.countP Event.isCommitted =
        s.history.countP Event.isCommitted + m := by
    intro m hm
    rw [Sys.advance_history,List.countP_append,hm]
  -- an instruction other than the running one stays on its stack
  have hstay : ∀ {x : ℕ} {j : Instr}, j ∈ s.code x → j ≠ i →
      j ∈ (s.after cfg t i rest ch).code x := by
    intro x j hj hne
    refine Sys.mem_advance hinv.named hc hj fun hx => ?_
    subst hx
    rw [hc] at hj
    exact (List.mem_cons.mp hj).resolve_left hne
  have hno : ∀ x, .called x .start ∈ (s.after cfg t i rest ch).history →
      .called x .start ∈ s.history := by
    intro x hx
    refine (List.mem_append.mp hx).resolve_right fun he => ?_
    have hem := effect_event_emits cfg s.shared s.alive t s.next ch he
    cases i <;> simp [Instr.Emits,Event.OfPending] at hem
  cases h with
  | idle hw hp hk hs =>
    have hfree : prepareRefused s.shared = false := by simp [prepareRefused,hw,hp]
    cases hstart with
    | kept hw' hp' he href =>
      refine .idle (hw'.trans hw) (hp'.trans hp) ((hcount 0 he).trans hk) fun x hx hcall => ?_
      refine hstay (hs x hx (hno x hcall)) fun hi => ?_
      simp [hfree] at href
      exact href hi.symm
    | prepared hi' hw' hp' hpush he =>
      subst hi'
      refine .preparing _ t (hw'.trans hw) hp' ((hcount 0 he).trans hk) ?_
        (List.mem_append_left _ (hold.held t (.prepareStart true) (by simp [hc])))
      rw [Sys.advance_code_self ht,hpush]
      simp
    | committed p _ hp' =>
      rw [hp] at hp'
      cases hp'
    | finished d _ hw' =>
      rw [hw] at hw'
      cases hw'
  | preparing p x hw hp hk hx hcall =>
    cases hstart with
    | kept hw' hp' he =>
      by_cases hix : .activatePreparedStart p = i
      · subst hix
        simp only [effect] at hw' hp'
        rcases activatePreparedStart_cases t hinv.rep.lifecycle p with ⟨hne,-⟩ | ⟨-,-,he'⟩
        · exact absurd hp hne
        · rw [he'] at hp'
          simp [publishWorker,hp] at hp'
      · exact .preparing p x (hw'.trans hw) (hp'.trans hp) ((hcount 0 he).trans hk)
          (hstay hx hix) (List.mem_append_left _ hcall)
    | prepared _ _ _ _ _ href => simp [prepareRefused,hp] at href
    | committed q _ hq hw' hp' he => exact .running q hw' hp' (by rw [hcount 1 he,hk])
    | finished d _ hw' =>
      rw [hw] at hw'
      cases hw'
  | running c hw hp hk =>
    have hcur : workerIsCurrent s.shared c = true :=
      workerIsCurrent_of hinv.rep.lifecycle hw (hold.unstopped c (Or.inl hw))
    cases hstart with
    | kept hw' hp' he => exact .running c (hw'.trans hw) (hp'.trans hp) ((hcount 0 he).trans hk)
    | prepared _ _ _ _ _ href =>
      simp only [workerIsCurrent,Bool.and_eq_true] at hcur
      simp [prepareRefused,hw,hcur.2] at href
    | committed p _ hp' =>
      rw [hp] at hp'
      cases hp'
    | finished d hi' hw' => exact absurd hw' (hold.leaving t i (by simp [hc]) d hi')

end StartPhase

/-- However many `start` calls run concurrently, they commit one Worker. -/
theorem starts_commit_one {s₀ s : System} (h₀ : Reachable cfg s₀) (hen : cfg.enabled = true)
    (hreg : cfg.registryError = none) (hw : s₀.shared.worker = none)
    (hp : s₀.shared.preparedStart = none) (hr : Run (step cfg) OnlyStarts s₀ s)
    (hcall : ∃ t, s₀.next ≤ t ∧ .called t .start ∈ s.history)
    (hdone : ∀ t, .called t .start ∈ s.history → s.code t = []) :
    (∃ c, s.shared.worker = some c) ∧ s.history.countP Event.isCommitted =
      s₀.history.countP Event.isCommitted + 1 := by
  have hphase : StartPhase s₀.next (s₀.history.countP Event.isCommitted) s ∧ Reachable cfg s := by
    refine Run.invariant (I := fun s => StartPhase s₀.next (s₀.history.countP Event.isCommitted) s ∧
      Reachable cfg s) ⟨.idle hw hp rfl fun t ht hc => ?_,h₀⟩ ?_ hr
    · exact absurd (h₀.holders.callers t _ hc) (not_lt.mpr ht)
    · rintro s a s' ⟨hph,hreach⟩ hg hs
      refine ⟨?_,hreach.tail a trivial hs⟩
      cases a with
      | call c =>
        obtain rfl := Option.some.inj hs
        exact hph.called hreach.invariant.named hen hreg c
      | run t ch =>
        obtain ⟨i,rest,hc,-,rfl⟩ := step_run_cases hs
        exact hph.after hreach hc (hg i rest hc)
  cases hphase.1 with
  | idle _ _ _ hs =>
    obtain ⟨t,ht,hc⟩ := hcall
    simpa [hdone t hc] using hs t ht hc
  | preparing p t _ _ _ hi hc => simp [hdone t hc] at hi
  | running c hw _ hk => exact ⟨⟨c,hw⟩,hk⟩

end FlaskXxlJob.Registry
