import FlaskXxlJob.Registry.PreparedProtocol

/-!
A Registry service that its `init_app` prepares, cancels or settles, and does not activate.
-/
namespace FlaskXxlJob.Registry
open FlaskXxlJob.Client Interleaving

variable {cfg : Config}

/-- The private steps of an `init_app` that has not activated its token. -/
def Call.preparesOnly : Call → Bool
  | .prepareStart | .cancelPreparedStart _ | .settlePreparedAfterPublishFailure _ => true
  | _ => false

/-- Only the given calls are made. -/
def MadeOf (calls : List Call) (_ : System) : Action Choice Call → Prop
  | .call c => c ∈ calls
  | .run .. => True

def Instr.preparesOnly : Instr → Bool
  | .prepareStart activate => !activate
  | .cancelPreparedStart _ | .settlePrepared _ | .setStop _ | .setActivate _ | .waitActivate _
  | .preparedWorkerEntry _ => true
  | _ => false

/-- No Worker has been committed, and no thread is about to commit one. -/
structure Unstarted (s : System) : Prop where
  worker : s.shared.worker = none
  stopping : s.shared.stoppingWorkers = ∅
  unactivated : s.Everywhere fun _ i => i.preparesOnly = true
  rpcs : s.rpcs = []
  commits : ∀ p t, .committed p t ∉ s.history

/-- What one step of such a service does. -/
theorem effect_preparesOnly (cfg : Config) {s : State} (hw : s.worker = none)
    (hs : s.stoppingWorkers = ∅) (alive : ℕ → Bool) (t fresh : ℕ) (ch : Choice) {i : Instr}
    (hi : i.preparesOnly = true) : SameRegistry s (effect cfg alive t fresh ch s i).state ∧
      (∀ j ∈ (effect cfg alive t fresh ch s i).push, j.preparesOnly = true) ∧
      ∀ body, (effect cfg alive t fresh ch s i).spawn = some body →
        ∀ j ∈ body, j.preparesOnly = true := by
  cases i with
  | prepareStart activate =>
    obtain rfl : activate = false := by simpa [Instr.preparesOnly] using hi
    refine ⟨effect_handlesToken cfg s alive t fresh ch rfl,?_⟩
    simp only [effect]
    rcases prepareStart_cases s t fresh false ch.startError with
      he | ⟨e,he⟩ | ⟨-,he⟩ <;> rw [he] <;> simp [Instr.preparesOnly]
  | cancelPreparedStart p =>
    refine ⟨effect_handlesToken cfg s alive t fresh ch rfl,?_⟩
    simp only [effect]
    rcases cancelPreparedStart_cases s p with ⟨-,he⟩ | ⟨-,he⟩ <;> rw [he] <;>
      simp [Instr.preparesOnly]
  | settlePrepared p =>
    refine ⟨effect_handlesToken cfg s alive t fresh ch rfl,?_⟩
    simp only [effect]
    rcases settlePrepared_cases s p with he | ⟨-,he⟩ | ⟨-,-,-,he⟩ <;> rw [he] <;>
      simp [Instr.preparesOnly]
  | preparedWorkerEntry c =>
    have ho : ownsLifecycle s c = false := by simp [ownsLifecycle,hw,hs]
    simp only [effect,ho]
    exact ⟨.refl s,by simp,by simp⟩
  | setStop c =>
    exact ⟨effect_handlesToken cfg s alive t fresh ch rfl,by simp [effect],by simp [effect]⟩
  | setActivate p =>
    exact ⟨effect_handlesToken cfg s alive t fresh ch rfl,by simp [effect],by simp [effect]⟩
  | waitActivate p => exact ⟨.refl s,by simp [effect],by simp [effect]⟩
  | _ => simp [Instr.preparesOnly] at hi

namespace Unstarted
variable {s : System} {t : ℕ} {i : Instr} {rest : List Instr} {ch : Choice}

theorem blank : Unstarted .blank where
  worker := rfl
  stopping := rfl
  unactivated _ _ h := by cases h
  rpcs := rfl
  commits _ _ h := by cases h

theorem called (h : Unstarted s) {c : Call} (hc : c.preparesOnly = true) :
    Unstarted (s.called cfg c) where
  worker := h.worker
  stopping := h.stopping
  unactivated := Machine.Everywhere.start h.unactivated fun i hi => by
    cases c with
    | prepareStart =>
      simp only [machine,entry] at hi
      split at hi <;> simp at hi
      subst hi
      rfl
    | cancelPreparedStart p | settlePreparedAfterPublishFailure p =>
      obtain rfl := List.mem_singleton.mp hi
      rfl
    | _ => simp [Call.preparesOnly] at hc
  rpcs := (System.rpcs_called s c).trans h.rpcs
  commits p t hm := by
    rcases List.mem_append.mp hm with hm | hm
    · exact h.commits p t hm
    · simp [machine] at hm

theorem after (h : Unstarted s) (hn : s.Named) (hc : s.code t = i :: rest) :
    Unstarted (s.after cfg t i rest ch) := by
  have hi : i.preparesOnly = true := h.unactivated t i (by simp [hc])
  obtain ⟨hsame,hpush,hspawn⟩ :=
    effect_preparesOnly cfg h.worker h.stopping s.alive t s.next ch hi
  refine ⟨hsame.worker.trans h.worker,hsame.stopping.trans h.stopping,
    h.unactivated.advance (hn.lt (by simp [hc])) hc (fun _ _ _ _ h => h) hpush hspawn,?_,?_⟩
  · have hsilent : i.issues s.shared ch = [] := by
      cases i <;> first | rfl | cases hi
    rw [System.rpcs_after,h.rpcs,hsilent,List.append_nil]
  · intro p x hm
    refine (List.mem_append.mp hm).elim (h.commits p x) fun he => ?_
    have hem := effect_event_emits cfg s.shared s.alive t s.next ch he
    cases i <;> simp [Instr.Emits,Event.OfPending,Instr.preparesOnly] at hem hi

end Unstarted

variable {calls : List Call} {s s₁ : System}

theorem unstarted_of_madeOf (hcalls : ∀ c ∈ calls, c.preparesOnly = true)
    (h : Run (step cfg) (MadeOf calls) .blank s) : Unstarted s := by
  have hboth : Unstarted s ∧ s.Named := by
    refine Run.invariant (I := fun s => Unstarted s ∧ s.Named) ⟨.blank,fun _ _ => rfl⟩ ?_ h
    rintro s a s' ⟨hu,hn⟩ hg hs
    refine ⟨?_,Machine.Named.step hn hs⟩
    cases a with
    | call c =>
      obtain rfl := Option.some.inj hs
      exact hu.called (hcalls c hg)
    | run t ch =>
      obtain ⟨i,rest,hc,-,rfl⟩ := step_run_cases hs
      exact hu.after hn hc
  exact hboth.1

/-! ### A cancel or a settlement that has returned -/

/-- The call takes the token `p` out of the slot, with its one instruction. -/
inductive Call.Drops (p : ℕ) : Call → Instr → Prop
  | cancel : Drops p (.cancelPreparedStart p) (.cancelPreparedStart p)
  | settle : Drops p (.settlePreparedAfterPublishFailure p) (.settlePrepared p)

theorem entry_drops {p : ℕ} {c : Call} {i : Instr} (h : c.Drops p i) :
    entry cfg c = [i] := by
  cases h <;> rfl

/-- The slot no longer holds the token once the instruction has run. -/
theorem effect_drops {p : ℕ} {c : Call} {i : Instr} (h : c.Drops p i) (cfg : Config)
    {s : State} (hs : LifecycleInv s) (alive : ℕ → Bool) (t fresh : ℕ) (ch : Choice) :
    (effect cfg alive t fresh ch s i).state.preparedStart ≠ some p := by
  have hi : i = .cancelPreparedStart p ∨ i = .settlePrepared p := by
    cases h with
    | cancel => exact Or.inl rfl
    | settle => exact Or.inr rfl
  by_cases hp : s.preparedStart = some p
  · obtain ⟨hlt,-,howner,-⟩ := hs.prepared p hp
    have hsettle : settlementOf s p = .cancelUncommitted := by
      simp [settlementOf,hp,(hs.token p hlt).1,howner]
    rcases hi with rfl | rfl
    · simp [effect,cancelPreparedStart,hp]
    · simp [effect,settlePrepared,hsettle]
  · rw [(effect_stale cfg alive t fresh ch hi hp).1]
    exact hp

/-- While a token that has been published is in the slot, every call that drops it is still to
run its instruction. -/
def Dropping (n p : ℕ) (c : Call) (i : Instr) (s : System) : Prop :=
  p < s.shared.nextPrepared ∧
    (s.shared.preparedStart = some p → ∀ t, n ≤ t → .called t c ∈ s.history → i ∈ s.code t)

namespace Dropping
variable {n p : ℕ} {c : Call} {i : Instr} {s : System}

theorem called (h : Dropping n p c i s) (hn : s.Named) (hci : c.Drops p i) (d : Call) :
    Dropping n p c i (s.called cfg d) := by
  refine ⟨h.1,fun hp t ht hcall => ?_⟩
  rcases List.mem_append.mp hcall with hcall | hcall
  · exact Machine.mem_start hn (h.2 hp t ht hcall)
  · obtain ⟨rfl,rfl⟩ : t = s.next ∧ c = d := by simpa [machine] using hcall
    simp [Machine.start,machine,entry_drops hci]

theorem after (h : Dropping n p c i s) (hr : Reachable cfg s) (hci : c.Drops p i) {t : ℕ}
    {j : Instr} {rest : List Instr} {ch : Choice} (hc : s.code t = j :: rest) :
    Dropping n p c i (s.after cfg t j rest ch) := by
  have hinv := hr.invariant
  have hslot := slotChange cfg hinv.rep.lifecycle s.alive t s.next ch j
  refine ⟨?_,fun hp x hx hcall => ?_⟩
  · have hlt := h.1
    change p < (effect cfg s.alive t s.next ch s.shared j).state.nextPrepared
    cases hslot with
    | kept _ hn => omega
    | published _ _ _ _ hn => omega
    | committed _ _ _ _ hn => omega
    | cancelled _ _ _ hn => omega
  · replace hp : (effect cfg s.alive t s.next ch s.shared j).state.preparedStart = some p := hp
    have hbefore : s.shared.preparedStart = some p := by
      cases hslot with
      | kept hk => exact hk ▸ hp
      | published _ _ _ hk =>
        have heq := Option.some.inj (hk.symm.trans hp)
        exact absurd h.1 heq.le.not_gt
      | committed _ _ _ hk => cases hk.symm.trans hp
      | cancelled _ _ hk => cases hk.symm.trans hp
    have hold : .called x c ∈ s.history := by
      refine (List.mem_append.mp hcall).resolve_right fun he => ?_
      have hem := effect_event_emits cfg s.shared s.alive t s.next ch he
      cases j <;> simp [Instr.Emits,Event.OfPending] at hem
    have hmem := h.2 hbefore x hx hold
    refine Sys.mem_advance hinv.named hc hmem fun hxt => ?_
    subst hxt
    rw [hc] at hmem
    refine (List.mem_cons.mp hmem).resolve_left fun hij => ?_
    subst hij
    exact effect_drops hci cfg hinv.rep.lifecycle s.alive x s.next ch hp

end Dropping

/-- Once a cancel or a settlement of a published token has returned, the token is out of the
slot, whatever else has been called. -/
theorem dropped_of_returned {s₁ s : System} (h₁ : Reachable cfg s₁) {p : ℕ}
    (hp : p < s₁.shared.nextPrepared) {c : Call} {i : Instr} (hci : c.Drops p i)
    (h : Run (step cfg) (fun _ _ => True) s₁ s) {t : ℕ} (ht : s₁.next ≤ t)
    (hcall : .called t c ∈ s.history) (hdone : s.code t = []) :
    p < s.shared.nextPrepared ∧ s.shared.preparedStart ≠ some p := by
  have hboth : Dropping s₁.next p c i s ∧ Reachable cfg s := by
    refine Run.invariant (I := fun s => Dropping s₁.next p c i s ∧ Reachable cfg s)
      ⟨⟨hp,fun _ x hx hx' => ?_⟩,h₁⟩ ?_ h
    · exact absurd (h₁.holders.callers x c hx') (not_lt.mpr hx)
    · rintro s a s' ⟨hd,hr⟩ _ hs
      refine ⟨?_,hr.tail a trivial hs⟩
      cases a with
      | call d =>
        obtain rfl := Option.some.inj hs
        exact hd.called hr.invariant.named hci d
      | run x ch =>
        obtain ⟨j,rest,hc,-,rfl⟩ := step_run_cases hs
        exact hd.after hr hci hc
  refine ⟨hboth.1.1,fun hslot => ?_⟩
  have hmem := hboth.1.2 hslot t ht hcall
  simp [hdone] at hmem

/-! ### The two guarantees -/

/-- No RPC is sent, however often the calls are made and however they interleave. -/
def Silent (calls : List Call) : Prop :=
  ∀ cfg s, Run (step cfg) (MadeOf calls) .blank s → s.rpcs = []

/-- The calls include one that, made once the token has been prepared, leaves it cancelled. -/
def Cancels (calls : List Call) (p : ℕ) : Prop :=
  ∃ c ∈ calls, ∀ cfg s₁ s, Run (step cfg) (MadeOf calls) .blank s₁ →
    p < s₁.shared.nextPrepared → Run (step cfg) (MadeOf calls) s₁ s →
    ∀ t, s₁.next ≤ t → .called t c ∈ s.history → s.code t = [] →
      .cancelled p ∈ s.history ∧ s.shared.preparedStart ≠ some p

theorem silent_of_preparesOnly {calls : List Call}
    (hcalls : ∀ c ∈ calls, c.preparesOnly = true) : Silent calls :=
  fun _ _ h => (unstarted_of_madeOf hcalls h).rpcs

theorem cancels_of_preparesOnly {calls : List Call} {p : ℕ} {c : Call} {i : Instr}
    (hcalls : ∀ c ∈ calls, c.preparesOnly = true) (hc : c ∈ calls) (hci : c.Drops p i) :
    Cancels calls p := by
  refine ⟨c,hc,fun cfg s₁ s h₁ hp h t ht hcall hdone => ?_⟩
  have hr₁ : Reachable cfg s₁ := h₁.mono fun _ _ _ => trivial
  obtain ⟨hlt,hne⟩ := dropped_of_returned hr₁ hp hci (h.mono fun _ _ _ => trivial) ht hcall hdone
  refine ⟨?_,hne⟩
  have hr : Reachable cfg s := hr₁.trans (h.mono fun _ _ _ => trivial)
  have hleft : hasLeft s.shared p = true := by simp [hasLeft,hlt,hne]
  have hsettled := hr.tokenAccount.settled p
  have hcommits : s.history.countP (Event.commits p) = 0 := by
    rw [List.countP_eq_zero]
    intro e he hcom
    cases e with
    | committed q x => exact (unstarted_of_madeOf hcalls (h₁.trans h)).commits q x he
    | _ => simp [Event.commits] at hcom
  rw [hcommits,hleft,Bool.toNat_true] at hsettled
  obtain ⟨e,he,hcan⟩ := List.countP_pos_iff.mp (by omega : 0 < s.history.countP (Event.cancels p))
  cases e with
  | cancelled q =>
    obtain rfl : q = p := by simpa [Event.cancels,eq_comm] using hcan
    exact he
  | _ => simp [Event.cancels] at hcan

end FlaskXxlJob.Registry
