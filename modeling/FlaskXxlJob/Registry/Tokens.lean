import FlaskXxlJob.Registry.History
import FlaskXxlJob.Registry.Layering

/-!
The account of Prepared tokens. A token leaves its slot once, committed by an activation of
exactly that token or cancelled, and a committed token's Worker finishes once.
-/
namespace FlaskXxlJob.Registry
open FlaskXxlJob.Client Interleaving

variable {cfg : Config} {s : State}

/-! ### Leaving the slot -/

namespace Event

/-- The end of a Prepared token. -/
def settles : Event → Bool
  | .committed .. | .cancelled _ => true
  | _ => false

def commits (p : ℕ) : Event → Bool
  | .committed q _ => q = p
  | _ => false

def cancels (p : ℕ) : Event → Bool
  | .cancelled q => q = p
  | _ => false

def finishes (c : ℕ) : Event → Bool
  | .finished d _ => d = c
  | _ => false

end Event

/-- The ends of Prepared tokens that a history records. -/
def settlementsOf (l : List Event) : List Event := l.filter Event.settles

@[simp] theorem settlementsOf_append (l l' : List Event) :
    settlementsOf (l ++ l') = settlementsOf l ++ settlementsOf l' := List.filter_append ..

theorem settlementsOf_eq_nil {l : List Event} (h : ∀ e ∈ l, e.settles = false) :
    settlementsOf l = [] := List.filter_eq_nil_iff.mpr fun e he => by simp [h e he]

@[simp] theorem settlementsOf_pending (s s' : State) : settlementsOf (pendingEvents s s') = [] :=
  settlementsOf_eq_nil fun e he => by
    rcases mem_pendingEvents he with ⟨o,rfl⟩ | ⟨o,g,rfl⟩ <;> rfl

theorem settlementsOf_silent {t : ℕ} {i : Instr} {l : List Event}
    (hl : ∀ e ∈ l, i.Emits t e) (hi : ∀ e, i.Emits t e → e.settles = false) :
    settlementsOf l = [] := settlementsOf_eq_nil fun e he => hi e (hl e he)

theorem countP_settlements {p : Event → Bool} (hp : ∀ e, p e = true → e.settles = true)
    (l : List Event) : l.countP p = (settlementsOf l).countP p := by
  rw [settlementsOf,List.countP_filter]
  refine List.countP_congr fun e _ => ?_
  simp only [Bool.and_eq_true]
  exact ⟨fun h => ⟨h,hp e h⟩,fun h => h.1⟩

theorem Event.settles_of_commits {p : ℕ} {e : Event} (h : e.commits p = true) :
    e.settles = true := by
  cases e <;> first | rfl | cases h

theorem Event.settles_of_cancels {p : ℕ} {e : Event} (h : e.cancels p = true) :
    e.settles = true := by
  cases e <;> first | rfl | cases h

/-- What one step does to the Prepared slot, and the end of a token that it records. -/
inductive SlotChange (s : State) (t : ℕ) (i : Instr) (e : Step) : Prop
  | kept : e.state.preparedStart = s.preparedStart → e.state.nextPrepared = s.nextPrepared →
      settlementsOf e.events = [] → SlotChange s t i e
  | published (activate : Bool) : i = .prepareStart activate → s.preparedStart = none →
      e.state.preparedStart = some s.nextPrepared →
      e.state.nextPrepared = s.nextPrepared + 1 → settlementsOf e.events = [] →
      SlotChange s t i e
  | committed (p : ℕ) : i = .activatePreparedStart p → s.preparedStart = some p →
      e.state.preparedStart = none → e.state.nextPrepared = s.nextPrepared →
      settlementsOf e.events = [.committed p t] → SlotChange s t i e
  | cancelled (p : ℕ) : s.preparedStart = some p → e.state.preparedStart = none →
      e.state.nextPrepared = s.nextPrepared → settlementsOf e.events = [.cancelled p] →
      SlotChange s t i e

/-- Dropping whatever token is in the slot. -/
theorem SlotChange.of_drop {t : ℕ} {i : Instr} {e : Step} (hs : e.state.preparedStart = none)
    (hn : e.state.nextPrepared = s.nextPrepared)
    (he : settlementsOf e.events = cancelledEvents s) : SlotChange s t i e := by
  cases hp : s.preparedStart with
  | none => exact .kept (hs.trans hp.symm) hn (by simp [he,cancelledEvents,hp])
  | some p => exact .cancelled p hp hs hn (by simp [he,cancelledEvents,hp])

theorem settlementsOf_cancelled (s : State) :
    settlementsOf (cancelledEvents s) = cancelledEvents s := by
  unfold cancelledEvents
  split <;> rfl

theorem slotChange (cfg : Config) (h : LifecycleInv s) (alive : ℕ → Bool) (t fresh : ℕ)
    (ch : Choice) (i : Instr) : SlotChange s t i (effect cfg alive t fresh ch s i) := by
  have hsilent : (∀ e, i.Emits t e → e.settles = false) →
      settlementsOf (effect cfg alive t fresh ch s i).events = [] :=
    settlementsOf_silent fun e he => effect_event_emits cfg s alive t fresh ch he
  cases hm : i.movesLifecycle with
  | false =>
    have hl := effect_toLifecycle cfg s t fresh alive ch hm
    refine .kept (by rw [hl]) (by rw [hl]) (hsilent fun e he => ?_)
    cases i <;> simp only [Instr.Emits] at he <;> simp only [Instr.movesLifecycle] at hm <;>
      grind [Event.settles,Event.OfPending]
  | true =>
    cases i with
    | prepareStart activate =>
      have hno := hsilent fun e he => by
        rcases he with ⟨x,rfl⟩ | ⟨p,rfl⟩ <;> rfl
      simp only [effect] at hno ⊢
      rcases prepareStart_cases s t fresh activate ch.startError with
        he | ⟨e,he⟩ | ⟨hr,he⟩ <;> rw [he] at hno ⊢
      · exact .kept rfl rfl rfl
      · exact .kept rfl rfl rfl
      · exact .published activate rfl (by
          simp only [prepareRefused,Bool.or_eq_false_iff] at hr
          simpa using hr.2) rfl rfl rfl
    | activatePreparedStart p =>
      simp only [effect]
      rcases activatePreparedStart_cases t h p with ⟨-,he⟩ | ⟨hp,-,he⟩ <;> rw [he]
      · exact .kept rfl rfl rfl
      · refine .committed p rfl hp (by simp [publishWorker]) (by simp [publishWorker]) ?_
        rw [settlementsOf_append,settlementsOf_pending]
        rfl
    | cancelPreparedStart p =>
      simp only [effect]
      rcases cancelPreparedStart_cases s p with ⟨-,he⟩ | ⟨hp,he⟩ <;> rw [he]
      · exact .kept rfl rfl rfl
      · exact .cancelled p hp rfl rfl rfl
    | settlePrepared p =>
      simp only [effect]
      rcases settlePrepared_cases s p with he | ⟨hp,he⟩ | ⟨-,-,-,he⟩ <;> rw [he]
      · exact .kept rfl rfl rfl
      · exact .cancelled p hp rfl rfl rfl
      · exact .kept rfl rfl rfl
    | setStop d => exact .kept rfl rfl rfl
    | setActivate p => exact .kept rfl rfl rfl
    | stop remove =>
      refine .of_drop ?_ ?_ ?_
      · cases remove <;> simp [effect,stop,stopSection]
      · cases remove <;> simp [effect,stop,stopSection]
      · simp [effect,stop,settlementsOf_cancelled]
    | shutdown deregister =>
      exact .of_drop (by simp [effect,shutdown]) (by simp [effect,shutdown])
        (settlementsOf_cancelled s)
    | finishWorker d =>
      have hno := hsilent fun e he => by
        rw [show e = .finished d t from he]
        rfl
      simp only [effect] at hno ⊢
      rcases finishWorker_cases s t d with ⟨x,-,-,-,he⟩ | ⟨-,he⟩ <;> rw [he] at hno ⊢ <;>
        exact .kept (by simp) (by simp) hno
    | _ => simp [Instr.movesLifecycle] at hm

/-! ### The account -/

/-- The token has been published and is no longer in the Prepared slot. -/
def hasLeft (s : State) (p : ℕ) : Bool :=
  decide (p < s.nextPrepared) && decide (s.preparedStart ≠ some p)

/-- A token that has left its slot was committed or cancelled, once; a committed one owns its
lifecycle until its Worker finishes, once. -/
structure TokenAccount (s : System) : Prop where
  settled : ∀ p, s.history.countP (Event.commits p) + s.history.countP (Event.cancels p) =
    (hasLeft s.shared p).toNat
  finished : ∀ c, s.history.countP (Event.commits c) =
    s.history.countP (Event.finishes c) + (ownsLifecycle s.shared c).toNat

theorem SlotChange.balance {t : ℕ} {i : Instr} {e : Step} (h : SlotChange s t i e)
    (hs : LifecycleInv s) (p : ℕ) :
    e.events.countP (Event.commits p) + e.events.countP (Event.cancels p) +
      (hasLeft s p).toNat = (hasLeft e.state p).toNat := by
  unfold hasLeft
  rw [countP_settlements (fun _ => Event.settles_of_commits),
    countP_settlements fun _ => Event.settles_of_cancels]
  cases h with
  | kept hp hn he => simp [hp,hn,he]
  | published a _ hnone hp hn he =>
    rw [hp,hn,he,hnone]
    by_cases hlt : p = s.nextPrepared
    · simp [hlt]
    · have : p < s.nextPrepared + 1 ↔ p < s.nextPrepared := by omega
      simp [this,Ne.symm hlt]
  | committed q _ hq hp hn he =>
    rw [hp,hn,he,hq]
    have hlt := (hs.prepared q hq).1
    by_cases hpq : q = p
    · subst hpq
      simp [Event.commits,Event.cancels,hlt]
    · simp [Event.commits,Event.cancels,hpq]
  | cancelled q hq hp hn he =>
    rw [hp,hn,he,hq]
    have hlt := (hs.prepared q hq).1
    by_cases hpq : q = p
    · subst hpq
      simp [Event.commits,Event.cancels,hlt]
    · simp [Event.commits,Event.cancels,hpq]

theorem balance_finished (cfg : Config) (h : Rep s) (alive : ℕ → Bool) (t fresh : ℕ) (ch : Choice)
    {i : Instr} (hi : ∀ d, i = .finishWorker d → ownsLifecycle s d = true) (c : ℕ) :
    (effect cfg alive t fresh ch s i).events.countP (Event.commits c) +
      (ownsLifecycle s c).toNat =
    (effect cfg alive t fresh ch s i).events.countP (Event.finishes c) +
      (ownsLifecycle (effect cfg alive t fresh ch s i).state c).toNat := by
  by_cases ha : ∃ p, i = .activatePreparedStart p
  · obtain ⟨p,rfl⟩ := ha
    simp only [effect]
    rcases activatePreparedStart_cases t h.lifecycle p with ⟨-,he⟩ | ⟨hp,hw,he⟩ <;> rw [he]
    · simp
    · have hpend : ∀ f : Event → Bool, (∀ e, e.OfPending → f e = false) →
          (pendingEvents s (waitForActive (publishWorker s p) p)).countP f = 0 := by
        intro f hf
        rw [List.countP_eq_zero]
        exact fun e he' => by simp [hf e (mem_pendingEvents he')]
      have hno := h.lifecycle.prepared_not_owned hp
      rw [List.countP_append,List.countP_append,hpend _ fun e he' => ?_,hpend _ fun e he' => ?_,
        owns_commit hw p c]
      · by_cases hc : c = p
        · subst hc
          simp [Event.commits,Event.finishes,hno]
        · simp [Event.commits,Event.finishes,hc,Ne.symm hc]
      · rcases he' with ⟨o,rfl⟩ | ⟨o,g,rfl⟩ <;> rfl
      · rcases he' with ⟨o,rfl⟩ | ⟨o,g,rfl⟩ <;> rfl
  by_cases hf : ∃ d, i = .finishWorker d
  · obtain ⟨d,rfl⟩ := hf
    have hown := hi d rfl
    have hforget : ownsLifecycle (effect cfg alive t fresh ch s (.finishWorker d)).state c =
        (ownsLifecycle s c && decide (c ≠ d)) ∧
        (effect cfg alive t fresh ch s (.finishWorker d)).events = [.finished d t] := by
      simp only [effect]
      rcases finishWorker_cases s t d with ⟨o,-,-,-,he⟩ | ⟨-,he⟩ <;> rw [he]
      · exact ⟨owns_forgetWorker (s := claimPending s o) d c,rfl⟩
      · exact ⟨owns_forgetWorker d c,rfl⟩
    rw [hforget.1,hforget.2]
    by_cases hc : c = d
    · subst hc
      simp [Event.commits,Event.finishes,hown]
    · simp [Event.commits,Event.finishes,hc,Ne.symm hc]
  have hown : ownsLifecycle (effect cfg alive t fresh ch s i).state c = ownsLifecycle s c := by
    cases workerChange cfg alive t fresh ch h (i := i) with
    | quiet _ _ ho => exact ho c
    | published _ _ _ ho => exact ho c
    | entered _ _ _ _ hs => rw [hs]
    | finished d hd => exact absurd ⟨d,hd⟩ hf
    | committed p hp => exact absurd ⟨p,hp⟩ ha
  have hnone : ∀ f : Event → Bool, (∀ e, i.Emits t e → f e = false) →
      (effect cfg alive t fresh ch s i).events.countP f = 0 := by
    intro f hf
    rw [List.countP_eq_zero]
    exact fun e he => by simp [hf e (effect_event_emits cfg s alive t fresh ch he)]
  rw [hown,hnone _ fun e he => ?_,hnone _ fun e he => ?_]
  · cases i <;> simp only [Instr.Emits] at he <;> grind [Event.finishes,Event.OfPending]
  · cases i <;> simp only [Instr.Emits] at he <;> grind [Event.commits,Event.OfPending]

theorem Reachable.tokenAccount {s : System} (h : Reachable cfg s) : TokenAccount s := by
  refine h.induct ⟨fun _ => rfl,fun _ => rfl⟩ (fun s c _ ha => ⟨fun p => ?_,fun p => ?_⟩)
    fun s t i rest ch hinv ha hc _ => ⟨fun p => ?_,fun c => ?_⟩
  · have := ha.settled p
    simpa [Machine.start,machine,Event.commits,Event.cancels] using this
  · have := ha.finished p
    simpa [Machine.start,machine,Event.commits,Event.finishes] using this
  · have hbal := (slotChange cfg hinv.rep.lifecycle s.alive t s.next ch i).balance
      hinv.rep.lifecycle p
    have := ha.settled p
    simp only [Sys.advance_history,Sys.advance_shared,List.countP_append]
    omega
  · have hruns : ∀ d, i = .finishWorker d → ownsLifecycle s.shared d = true := fun d hd =>
      hinv.runs (t := t) (i := i) (by simp [hc]) (by simp [hd,Instr.plays,Role.runs])
    have hbal := balance_finished cfg hinv.rep s.alive t s.next ch hruns c
    have := ha.finished c
    simp only [Sys.advance_history,Sys.advance_shared,List.countP_append]
    omega

end FlaskXxlJob.Registry
