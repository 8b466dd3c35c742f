import FlaskXxlJob.Registry.Quiescence
import FlaskXxlJob.Registry.TokenThreads

/-!
The Prepared-start protocol. Only the activation of its exact token commits a Worker, preparing
and cancelling leave the Registry as it is, and no call stops the Worker of another token.
-/
namespace FlaskXxlJob.Registry
open FlaskXxlJob.Client Interleaving

variable {cfg : Config} {s : State}

/-! ### The current Worker -/

theorem workerIsCurrent_of (h : LifecycleInv s) {c : ℕ} (hw : s.worker = some c)
    (hs : (s.contexts c).stopEvent = false) : workerIsCurrent s c = true := by
  simp [workerIsCurrent,isCurrentWorker,hs,hw,(h.worker c hw).2.1]

@[simp] theorem cancelPrepared_stopEvent (p c : ℕ) :
    ((cancelPrepared s p).contexts c).stopEvent = (s.contexts c).stopEvent := by
  unfold cancelPrepared disownPrepared State.updateContext
  by_cases h : c = (s.prepareds p).context
  · subst h
    simp only [dropPrepared_frame,Function.update_self]
    split <;> rfl
  · simp [h]

@[simp] theorem waitForActive_stopEvent (d c : ℕ) :
    ((waitForActive s d).contexts c).stopEvent = (s.contexts c).stopEvent := by
  unfold waitForActive State.updateContext
  split
  · by_cases h : c = d <;> simp [h]
  · rfl

@[simp] theorem forgetWorker_stopEvent (d c : ℕ) :
    ((forgetWorker s d).contexts c).stopEvent = (s.contexts c).stopEvent := by
  by_cases h : c = d <;> simp [forgetWorker,State.updateContext,h]

/-- A context that a step leaves current or Prepared was so before, or is a new token's; only
`setStop` may have stopped it. -/
theorem effect_current (cfg : Config) (h : LifecycleInv s) (alive : ℕ → Bool) (t fresh : ℕ)
    (ch : Choice) (i : Instr) {c : ℕ}
    (hc : (effect cfg alive t fresh ch s i).state.worker = some c ∨
      (effect cfg alive t fresh ch s i).state.preparedStart = some c) :
    (s.nextPrepared ≤ c ∧
      ((effect cfg alive t fresh ch s i).state.contexts c).stopEvent = false) ∨
    ((s.worker = some c ∨ s.preparedStart = some c) ∧
      (((effect cfg alive t fresh ch s i).state.contexts c).stopEvent = true →
        (s.contexts c).stopEvent = true ∨ i = .setStop c)) := by
  cases hm : i.movesLifecycle with
  | false =>
    have hl := effect_toLifecycle cfg s t fresh alive ch hm
    rw [hl] at hc ⊢
    exact Or.inr ⟨hc,Or.inl⟩
  | true =>
    cases i with
    | prepareStart activate =>
      simp only [effect] at hc ⊢
      rcases prepareStart_cases s t fresh activate ch.startError with
        he | ⟨e,he⟩ | ⟨-,he⟩ <;> rw [he] at hc ⊢
      · exact Or.inr ⟨hc,Or.inl⟩
      · exact Or.inr ⟨hc,Or.inl⟩
      · rcases hc with hw | hp
        · have hw : s.worker = some c := hw
          have hne : c ≠ s.nextPrepared := (h.worker c hw).1.ne
          exact Or.inr ⟨Or.inl hw,fun hs => Or.inl (by simpa [publishPrepared,hne] using hs)⟩
        · obtain rfl : s.nextPrepared = c := Option.some.inj hp
          exact Or.inl ⟨le_rfl,by simp [publishPrepared]⟩
    | activatePreparedStart p =>
      simp only [effect] at hc ⊢
      rcases activatePreparedStart_cases t h p with ⟨-,he⟩ | ⟨hp,-,he⟩ <;> rw [he] at hc ⊢
      · exact Or.inr ⟨hc,Or.inl⟩
      · obtain rfl : p = c := by simpa [publishWorker] using hc
        exact Or.inr ⟨Or.inr hp,fun hs => Or.inl (by simpa [publishWorker] using hs)⟩
    | cancelPreparedStart p =>
      simp only [effect] at hc ⊢
      rcases cancelPreparedStart_cases s p with ⟨-,he⟩ | ⟨-,he⟩ <;> rw [he] at hc ⊢
      · exact Or.inr ⟨hc,Or.inl⟩
      · exact Or.inr ⟨Or.inl (by simpa using hc),fun hs => Or.inl (by simpa using hs)⟩
    | settlePrepared p =>
      simp only [effect] at hc ⊢
      rcases settlePrepared_cases s p with he | ⟨-,he⟩ | ⟨-,-,-,he⟩ <;> rw [he] at hc ⊢
      · exact Or.inr ⟨hc,Or.inl⟩
      · exact Or.inr ⟨Or.inl (by simpa using hc),fun hs => Or.inl (by simpa using hs)⟩
      · exact Or.inr ⟨hc,Or.inl⟩
    | setStop d =>
      refine Or.inr ⟨hc,fun hs => ?_⟩
      by_cases hcd : c = d
      · exact Or.inr (by rw [hcd])
      · exact Or.inl (by simpa [effect,State.updateContext,hcd] using hs)
    | setActivate p => exact Or.inr ⟨hc,Or.inl⟩
    | stop remove => cases remove <;> simp [effect,stop,stopSection] at hc
    | shutdown deregister => simp [effect,shutdown] at hc
    | finishWorker d =>
      simp only [effect] at hc ⊢
      rcases finishWorker_cases s t d with ⟨x,-,-,-,he⟩ | ⟨-,he⟩ <;> rw [he] at hc ⊢ <;>
        refine Or.inr ⟨?_,fun hs => Or.inl (by simpa using hs)⟩
      all_goals
        rcases hc with hw | hp
        · exact Or.inl (by simp at hw; exact hw.2)
        · exact Or.inr (by simpa using hp)
    | _ => simp [Instr.movesLifecycle] at hm

/-- Only a step that records the cancellation of a token goes on to stop its context. -/
theorem effect_push_setStop (cfg : Config) (h : LifecycleInv s) (alive : ℕ → Bool) (t fresh : ℕ)
    (ch : Choice) {i : Instr} {c : ℕ} (hj : .setStop c ∈ (effect cfg alive t fresh ch s i).push) :
    .cancelled c ∈ (effect cfg alive t fresh ch s i).events := by
  have hwake : .setStop c ∈ wakeCancelled s s.preparedStart →
      .cancelled c ∈ cancelledEvents s := by
    intro hw
    unfold wakeCancelled at hw
    split at hw
    · rename_i p hp
      simp only [List.mem_cons,List.not_mem_nil,or_false,Instr.setStop.injEq,reduceCtorEq] at hw
      rw [hw,(h.token p (h.prepared p hp).1).1]
      simp [cancelledEvents,hp]
    · simp at hw
  have hn := effect_push_next cfg s alive t fresh ch hj
  cases i with
  | cancelPreparedStart p =>
    simp only [effect] at hj ⊢
    rcases cancelPreparedStart_cases s p with ⟨-,he⟩ | ⟨hp,he⟩ <;> rw [he] at hj ⊢ <;> simp at hj
    simp [hj,(h.token p (h.prepared p hp).1).1]
  | settlePrepared p =>
    simp only [effect] at hj ⊢
    rcases settlePrepared_cases s p with he | ⟨hp,he⟩ | ⟨-,-,-,he⟩ <;> rw [he] at hj ⊢ <;>
      simp at hj
    simp [hj,(h.token p (h.prepared p hp).1).1]
  | stop remove =>
    have hp : (stopSection s remove).2.1 = s.preparedStart := by cases remove <;> rfl
    simp only [effect,stop,hp,List.mem_append] at hj ⊢
    refine Or.inl (hwake (hj.elim id fun hj => ?_))
    unfold scheduleOrClose at hj
    split at hj <;> simp at hj
  | shutdown deregister =>
    simp only [effect,shutdown,List.mem_append,List.mem_singleton] at hj ⊢
    rcases hj with (hj | hj) | hj
    · exact hwake hj
    · unfold exitRequest at hj
      split at hj
      · split at hj <;> simp at hj
      · simp at hj
    · cases hj
  | schedulePendingRemove caller =>
    cases caller <;> simp [Instr.Next,Scheduler.returned,Scheduler.failed] at hn
  | commit call q r => cases call <;> simp [Instr.Next] at hn
  | _ => simp [Instr.Next] at hn

/-- A Worker goes to its `_finish_worker` where it is not the current one. -/
theorem effect_push_finish (cfg : Config) (alive : ℕ → Bool) (t fresh : ℕ)
    (ch : Choice) {i : Instr} {c : ℕ}
    (hj : .finishWorker c ∈ (effect cfg alive t fresh ch s i).push) :
    workerIsCurrent s c = false ∧
      (effect cfg alive t fresh ch s i).state.worker = s.worker := by
  have hn := effect_push_next cfg s alive t fresh ch hj
  cases i with
  | runWorker d | workerLoop d | recheckWorker d | performWorkerRegistry d =>
    simp only [effect] at hj ⊢
    rcases guardCurrent_cases s d _ with ⟨-,he⟩ | ⟨hcur,he⟩ <;> rw [he] at hj ⊢ <;>
      simp only [List.mem_singleton] at hj
    · first
      | cases hj
      | split at hj <;> cases hj
    · cases hj
      exact ⟨hcur,rfl⟩
  | sleep d =>
    simp only [effect,List.mem_singleton] at hj ⊢
    split at hj
    · rename_i hs
      cases hj
      exact ⟨by simp [workerIsCurrent,hs],trivial⟩
    · cases hj
  | network call =>
    simp only [effect] at hj ⊢
    rcases enterNetwork_cases s t call with ⟨-,he⟩ | ⟨d,-,hcur,he⟩ <;> rw [he] at hj ⊢ <;>
      simp only [List.mem_singleton] at hj
    · cases hj
    · cases hj
      exact ⟨hcur,rfl⟩
  | commit call q r =>
    cases call with
    | worker d =>
      simp only [effect,commitRpc,commitWorker,List.mem_singleton] at hj ⊢
      split at hj
      · cases hj
      · rename_i hcur
        cases hj
        exact ⟨by simpa using hcur,by simp⟩
    | _ => simp [Instr.Next] at hn
  | schedulePendingRemove caller =>
    cases caller <;> simp [Instr.Next,Scheduler.returned,Scheduler.failed] at hn
  | _ => simp [Instr.Next] at hn

/-- A started thread begins with the wait of a token or with a cleanup actor. -/
theorem effect_spawn_plain (cfg : Config) (alive : ℕ → Bool) (t fresh : ℕ) (ch : Choice)
    {i j : Instr} {body : List Instr} (hb : (effect cfg alive t fresh ch s i).spawn = some body)
    (hj : j ∈ body) :
    (∃ p, j = .waitActivate p) ∨ (∃ p, j = .preparedWorkerEntry p) ∨
      ∃ o, j = .runCleanupActor o := by
  rcases effect_spawn_cases cfg s t fresh alive ch i with
    hs | ⟨a,-,-,-,hs⟩ | ⟨k,o,-,-,-,hs⟩ <;> rw [hs] at hb
  · cases hb
  · obtain rfl := Option.some.inj hb
    rcases List.mem_pair.mp hj with rfl | rfl
    · exact Or.inl ⟨_,rfl⟩
    · exact Or.inr (Or.inl ⟨_,rfl⟩)
  · obtain rfl := Option.some.inj hb
    exact Or.inr (Or.inr ⟨o,List.mem_singleton.mp hj⟩)

/-! ### Who holds a token -/

/-- The call of thread `t` may activate token `p`: it was given the token or it is a `start`. -/
def Holds (l : List Event) (t p : ℕ) : Prop :=
  .called t (.activatePreparedStart p) ∈ l ∨ .called t .start ∈ l

def Instr.HeldBy (l : List Event) (t : ℕ) : Instr → Prop
  | .prepareStart true => .called t .start ∈ l
  | .activatePreparedStart p => Holds l t p
  | _ => True

theorem Instr.HeldBy.append {l l' : List Event} {t : ℕ} {i : Instr} (h : i.HeldBy l t) :
    i.HeldBy (l ++ l') t := by
  cases i with
  | prepareStart activate =>
    cases activate with
    | true => exact List.mem_append_left _ h
    | false => trivial
  | activatePreparedStart p =>
    exact h.imp (List.mem_append_left _) (List.mem_append_left _)
  | _ => trivial

structure Holders (s : System) : Prop where
  stops : s.Everywhere fun _ i => ∀ c, i = .setStop c → .cancelled c ∈ s.history
  unstopped : ∀ c, s.shared.worker = some c ∨ s.shared.preparedStart = some c →
    (s.shared.contexts c).stopEvent = false
  leaving : s.Everywhere fun _ i => ∀ c, i = .finishWorker c → s.shared.worker ≠ some c
  held : s.Everywhere fun t i => i.HeldBy s.history t
  committers : ∀ p t, .committed p t ∈ s.history → Holds s.history t p
  callers : ∀ t c, .called t c ∈ s.history → t < s.next

namespace Holders
variable {s : System} {t : ℕ} {i : Instr} {rest : List Instr} {ch : Choice}

theorem blank : Holders .blank where
  stops _ _ h := by cases h
  unstopped c h := by simp [System.blank,State.blank] at h
  leaving _ _ h := by cases h
  held _ _ h := by cases h
  committers _ _ h := by cases h
  callers _ _ h := by cases h

theorem called (h : Holders s) (c : Call) : Holders (s.called cfg c) where
  stops := Machine.Everywhere.start
    (h.stops.mono fun _ _ _ hi d hd => List.mem_append_left _ (hi d hd)) fun i hi d hd => by
      subst hd
      rcases entry_cases cfg c with he | ⟨j,he,-⟩ <;> simp [machine,he] at hi
      subst hi
      cases c <;> simp only [entry] at he <;> grind
  unstopped := h.unstopped
  leaving := Machine.Everywhere.start h.leaving fun i hi d hd => by
    subst hd
    rcases entry_cases cfg c with he | ⟨j,he,-⟩ <;> simp [machine,he] at hi
    subst hi
    cases c <;> simp only [entry] at he <;> grind
  held := by
    refine Machine.Everywhere.start (h.held.mono fun _ _ _ hi => hi.append) fun i hi => ?_
    have hi : i ∈ entry cfg c := hi
    cases c <;> simp only [entry] at hi <;> (try split at hi) <;> (try split at hi) <;>
      simp at hi <;> subst hi <;>
      simp [Instr.HeldBy,Holds,machine]
  committers p t ht := by
    have hold : .committed p t ∈ s.history :=
      (List.mem_append.mp ht).resolve_right fun he => by simp [machine] at he
    exact (h.committers p t hold).imp (List.mem_append_left _) (List.mem_append_left _)
  callers t d ht := by
    rcases List.mem_append.mp ht with ht | ht
    · exact (h.callers t d ht).trans (Nat.lt_succ_self _)
    · obtain ⟨rfl,-⟩ : t = s.next ∧ d = c := by simpa [machine] using ht
      exact Nat.lt_succ_self _

section After
variable (h : Holders s) (hr : Reachable cfg s) (hc : s.code t = i :: rest)
include h hr hc

theorem stops_step : (s.after cfg t i rest ch).Everywhere fun _ j => ∀ c, j = .setStop c →
    .cancelled c ∈ (s.after cfg t i rest ch).history := by
  have hinv := hr.invariant
  refine h.stops.advance (hinv.named.lt (by simp [hc])) hc
    (fun _ j _ _ hj c hjc => List.mem_append_left _ (hj c hjc)) (fun j hj c hjc => ?_)
    fun body hb j hj c hjc => ?_
  · subst hjc
    exact List.mem_append_right _
      (effect_push_setStop cfg hinv.rep.lifecycle s.alive t s.next ch hj)
  · subst hjc
    rcases effect_spawn_plain cfg _ _ _ _ hb hj with ⟨p,he⟩ | ⟨p,he⟩ | ⟨o,he⟩ <;> cases he

omit h hc in
/-- A cancelled context is neither the current Worker nor Prepared. -/
theorem cancelled_idle {c : ℕ} (hcan : .cancelled c ∈ s.history) :
    s.shared.worker ≠ some c ∧ s.shared.preparedStart ≠ some c ∧
      ownsLifecycle s.shared c = false := by
  have hacc := hr.tokenAccount
  have hpos : 0 < s.history.countP (Event.cancels c) :=
    List.countP_pos_iff.mpr ⟨_,hcan,by simp [Event.cancels]⟩
  have hset := hacc.settled c
  have hfin := hacc.finished c
  have hle := Bool.toNat_le (hasLeft s.shared c)
  have hown : ownsLifecycle s.shared c = false := by
    cases ho : ownsLifecycle s.shared c with
    | false => rfl
    | true =>
      rw [ho,Bool.toNat_true] at hfin
      omega
  refine ⟨fun hw => ?_,fun hp => ?_,hown⟩
  · rw [ownsLifecycle_iff.mpr (Or.inl hw)] at hown
    cases hown
  · have : hasLeft s.shared c = false := by simp [hasLeft,hp]
    rw [this,Bool.toNat_false] at hset
    omega

theorem unstopped_step {c : ℕ} (hcur : (s.after cfg t i rest ch).shared.worker = some c ∨
    (s.after cfg t i rest ch).shared.preparedStart = some c) :
    ((s.after cfg t i rest ch).shared.contexts c).stopEvent = false := by
  rcases effect_current cfg hr.invariant.rep.lifecycle s.alive t s.next ch i hcur with
    ⟨-,hs⟩ | ⟨hold,hstop⟩
  · exact hs
  · by_contra hs
    rcases hstop (by simpa using hs) with hs | rfl
    · simp [h.unstopped c hold] at hs
    · obtain ⟨hw,hp,-⟩ := cancelled_idle hr (h.stops t _ (by simp [hc]) c rfl)
      exact hold.elim hw hp

theorem leaving_step : (s.after cfg t i rest ch).Everywhere fun _ j => ∀ c,
    j = .finishWorker c → (s.after cfg t i rest ch).shared.worker ≠ some c := by
  have hinv := hr.invariant
  refine h.leaving.advance (hinv.named.lt (by simp [hc])) hc
    (fun x j hj _ hold c hjc hw => ?_) (fun j hj c hjc hw => ?_) fun body hb j hj c hjc => ?_
  · subst hjc
    have hown : ownsLifecycle s.shared c = true :=
      hinv.runs hj (by simp [Instr.plays,Instr.role,Role.runs])
    rcases effect_current cfg hinv.rep.lifecycle s.alive t s.next ch i (Or.inl hw) with
      ⟨hle,-⟩ | ⟨hw | hp,-⟩
    · exact absurd (hinv.rep.lifecycle.owned hown).1 (not_lt.mpr hle)
    · exact hold c rfl hw
    · simp [hinv.rep.lifecycle.prepared_not_owned hp] at hown
  · subst hjc
    obtain ⟨hcur,hsame⟩ := effect_push_finish cfg s.alive t s.next ch hj
    rw [Sys.advance_shared,hsame] at hw
    simp [workerIsCurrent_of hinv.rep.lifecycle hw (h.unstopped c (Or.inl hw))] at hcur
  · subst hjc
    rcases effect_spawn_plain cfg _ _ _ _ hb hj with ⟨p,he⟩ | ⟨p,he⟩ | ⟨o,he⟩ <;> cases he

theorem held_step : (s.after cfg t i rest ch).Everywhere fun x j =>
    j.HeldBy (s.after cfg t i rest ch).history x := by
  have hinv := hr.invariant
  refine h.held.advance (hinv.named.lt (by simp [hc])) hc (fun _ j _ _ hj => hj.append)
    (fun j hj => ?_) fun body hb j hj => ?_
  · have hn := effect_push_next cfg s.shared s.alive t s.next ch hj
    cases j with
    | prepareStart activate =>
      cases i with
      | schedulePendingRemove caller =>
        cases caller <;> simp [Instr.Next,Scheduler.returned,Scheduler.failed] at hn
      | commit call q r => cases call <;> simp [Instr.Next] at hn
      | _ => simp [Instr.Next] at hn
    | activatePreparedStart p =>
      cases i with
      | prepareStart activate =>
        cases activate with
        | true => exact Or.inr (List.mem_append_left _ (h.held t (.prepareStart true) (by simp [hc])))
        | false =>
          simp only [effect] at hj
          rcases prepareStart_cases s.shared t s.next false ch.startError with
            he | ⟨e,he⟩ | ⟨-,he⟩ <;> rw [he] at hj <;> simp at hj
      | schedulePendingRemove caller =>
        cases caller <;> simp [Instr.Next,Scheduler.returned,Scheduler.failed] at hn
      | commit call q r => cases call <;> simp [Instr.Next] at hn
      | _ => simp [Instr.Next] at hn
    | _ => trivial
  · rcases effect_spawn_plain cfg _ _ _ _ hb hj with ⟨p,rfl⟩ | ⟨p,rfl⟩ | ⟨o,rfl⟩ <;> trivial

omit hr in
/-- The activation that commits a token is one of exactly that token. -/
theorem committers_step {p x : ℕ} (hx : .committed p x ∈ (s.after cfg t i rest ch).history) :
    Holds (s.after cfg t i rest ch).history x p := by
  have hgrow : Holds s.history x p → Holds (s.after cfg t i rest ch).history x p :=
    fun hh => hh.imp (List.mem_append_left _) (List.mem_append_left _)
  rcases List.mem_append.mp hx with hx | hx
  · exact hgrow (h.committers p x hx)
  · have hem := effect_event_emits cfg s.shared s.alive t s.next ch hx
    cases i with
    | activatePreparedStart q =>
      obtain ⟨rfl,rfl⟩ : p = q ∧ x = t := by simpa [Instr.Emits,Event.OfPending] using hem
      exact hgrow (h.held x (.activatePreparedStart p) (by simp [hc]))
    | _ => simp [Instr.Emits,Event.OfPending] at hem

omit hr hc in
theorem callers_step {x : ℕ} {c : Call}
    (hx : .called x c ∈ (s.after cfg t i rest ch).history) :
    x < (s.after cfg t i rest ch).next := by
  refine (h.callers x c ((List.mem_append.mp hx).resolve_right fun he => ?_)).trans_le
    (Sys.advance_next_le ..)
  have hem := effect_event_emits cfg s.shared s.alive t s.next ch he
  cases i <;> simp [Instr.Emits,Event.OfPending] at hem

end After
end Holders

theorem Reachable.holders {s : System} (h : Reachable cfg s) : Holders s :=
  h.induct_reachable .blank (fun _ c _ hh => hh.called c) fun _ _ _ _ _ hr hh hc _ =>
    ⟨hh.stops_step hr hc,fun _ => hh.unstopped_step hr hc,hh.leaving_step hr hc,
      hh.held_step hr hc,fun _ _ => hh.committers_step hc,fun _ _ => hh.callers_step⟩

end FlaskXxlJob.Registry
