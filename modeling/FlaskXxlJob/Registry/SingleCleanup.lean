import FlaskXxlJob.Registry.Requests

/-!
Cleanup runs once for each responsibility: a successful Active Remove keeps its generation
clean, every operation issues at most one RPC, and a cancelled one issues none.
-/
namespace FlaskXxlJob.Registry
open FlaskXxlJob.Client Interleaving

variable {cfg : Config} {s s' : State}

/-! ### Successful cleanups -/

/-- Generation `g` has been cleaned up, or has passed, and no Active Remove of it is left. -/
def Clean (s : State) (g : ℕ) : Prop :=
  g ≤ s.generation ∧ (g = s.generation → s.lastSuccessfullyRemovedGeneration = some g) ∧
    ∀ o, s.activeRemove = some o → (s.operations o).generation ≠ g

theorem Rep.clean_complete (h : Rep s) {now : String} {o q : ℕ} {r : CallResult}
    (ho : s.activeRemove = some o) (hr : r.success = true) (hq : s.lastAppliedRpcSequence < q) :
    Clean (Registry.completeRemoveOperation cfg now s o r q).1 (s.operations o).generation := by
  obtain ⟨-,hle,-,hcur⟩ := h.cleanup.active o ho
  have hg : (Registry.completeRemoveOperation cfg now s o r q).1.generation = s.generation := by simp
  have ha : (Registry.completeRemoveOperation cfg now s o r q).1.activeRemove = none := by simp [ho]
  refine ⟨hg ▸ hle,fun he => ?_,fun p hp => by rw [ha] at hp; cases hp⟩
  rw [hg] at he
  rcases h.cleanup.completeRemove_cases cfg now ho r q with
    ⟨hq',-⟩ | ⟨-,hn,-⟩ | ⟨-,-,-,-,he'⟩
  · omega
  · exact absurd ⟨hr,he.symm,(hcur he).1⟩ hn
  · rw [he',(reconcileGeneration_frame _ _).2.2.2.2.1]
    rfl

section
variable (cfg) (s) (alive : ℕ → Bool) (t fresh : ℕ) (ch : Choice)

/-- Only an accepted register of the generation lets it be cleaned up again. -/
theorem effect_clean (h : Rep s) {i : Instr} (hi : i.Owned s) {g : ℕ} (hg : Clean s g) :
    (∃ e ∈ (effect cfg alive t fresh ch s i).events, e.Reopens g) ∨
    Clean (effect cfg alive t fresh ch s i).state g := by
  obtain ⟨hle,hrem,hact⟩ := hg
  have hrep := h.effect cfg alive t fresh ch hi
  have hgrow := effect_cleanup_grows cfg h alive t fresh ch hi
  cases effect_responsibility cfg alive t fresh ch h hi with
  | kept hu =>
    have hgen := hu.generation
    have hrem' : g = s.generation →
        (effect cfg alive t fresh ch s i).state.lastSuccessfullyRemovedGeneration = some g := by
      intro he
      rcases hu.removed with hr | hr
      · exact hr.trans (hrem he)
      · rw [hr,he]
    refine Or.inr ⟨hle.trans hgen.ge,fun he => hrem' (he.trans hgen),fun o ha hog => ?_⟩
    rcases effect_active h alive t fresh ch hi ha with ⟨hold,he⟩ | he
    · exact hact o hold (he.symm.trans hog)
    · have hcur := ((hrep.cleanup.active o ha).2.2.2 (he.trans hgen.symm)).2
      rw [hog] at he
      exact hcur (by rw [hrem' he,he,hgen])
  | renewed p hip hgen _ _ _ ha =>
    refine Or.inr ⟨by omega,fun he => by omega,fun o ho => ?_⟩
    rw [ha] at ho
    rw [(hgrow.operation o (h.cleanup.active o ho).1).1]
    exact hact o ho
  | reopened k q r hik hr hq hk hu =>
    have hgen : (effect cfg alive t fresh ch s i).state.generation = s.generation := hu.generation
    by_cases he : g = s.generation
    · obtain ⟨after,hev,hre⟩ := effect_reopened_events cfg s alive t fresh ch (k := k) hr hq
      subst hik he
      exact Or.inl ⟨_,by rw [hev]; exact List.mem_cons_self,hre⟩
    · refine Or.inr ⟨by omega,fun he' => by omega,fun o ha hog => ?_⟩
      rcases effect_active h alive t fresh ch hi ha with ⟨hold,he'⟩ | he'
      · exact hact o hold (he'.symm.trans hog)
      · exact he (hog.symm.trans he')

/-- An accepted success leaves its generation clean. -/
theorem effect_cleans (h : Rep s) {i : Instr} (hi : i.Owned s) {g : ℕ} {e : Event}
    (he : e ∈ (effect cfg alive t fresh ch s i).events) (hc : e.Cleans g) :
    Clean (effect cfg alive t fresh ch s i).state g := by
  cases e with
  | accepted x q k r now =>
    obtain ⟨⟨o,hk⟩,hr⟩ := hc
    obtain ⟨call,hik,hkind,hq,-⟩ := effect_accepted cfg s alive t fresh ch h hi he
    cases call with
    | active o' =>
      obtain ⟨rfl,rfl⟩ : o = o' ∧ g = (s.operations o').generation := by
        simpa [RpcCall.kind] using hk.symm.trans hkind
      subst hik
      exact h.clean_complete hi hr hq
    | _ => cases hk.symm.trans hkind
  | _ => exact hc.elim

end

structure Cleanups (s : System) : Prop where
  separated : ∀ g, Separated (Event.Cleans g) (Event.Issues g) (Event.Reopens g) s.history
  clean : ∀ g, Sealed (Event.Cleans g) (Event.Reopens g) s.history → Clean s.shared g

namespace Cleanups
variable {s : System} {t : ℕ} {i : Instr} {rest : List Instr} {ch : Choice}

theorem blank : Cleanups .blank where
  separated _ := separated_nil
  clean _ h := absurd h not_sealed_nil

theorem called (h : Cleanups s) (c : Call) : Cleanups (s.called cfg c) := by
  refine ⟨fun g => (h.separated g).append_silent fun e he => ?_,
    fun g hs => h.clean g (hs.of_append fun e he => ?_).1⟩
  all_goals rw [List.mem_singleton.mp he]; exact id

/-- An Active Remove that issues its RPC is not of a clean generation. -/
theorem issues_not_clean (hinv : Invariant s) (hc : s.code t = i :: rest) {g : ℕ} {e : Event}
    (he : e ∈ (effect cfg s.alive t s.next ch s.shared i).events) (hg : e.Issues g) :
    (effect cfg s.alive t s.next ch s.shared i).events = [e] ∧ ¬ Clean s.shared g := by
  have hem := effect_event_emits cfg s.shared s.alive t s.next ch he
  cases e with
  | rpc x q k r =>
    cases i with
    | rpc call =>
      have he := List.mem_singleton.mp he
      refine ⟨congrArg (fun e => [e]) he.symm,fun hclean => ?_⟩
      obtain ⟨o,rfl⟩ := hg
      cases call with
      | active o' =>
        obtain ⟨rfl,rfl⟩ : o = o' ∧ g = (s.shared.operations o').generation := by
          simpa [RpcCall.kind] using (Event.rpc.inj he).2.2.1
        have hmem : .rpc (.active o) ∈ s.code t := by simp [hc]
        exact hclean.2.2 o (hinv.executes hmem (by simp [Instr.plays,Role.executes])) rfl
      | _ => simp [RpcCall.kind] at he
    | _ => simp [Instr.Emits,Event.OfPending] at hem
  | _ => exact hg.elim

theorem after (h : Cleanups s) (hinv : Invariant s) (hc : s.code t = i :: rest) :
    Cleanups (s.after cfg t i rest ch) := by
  have hi : i.Owned s.shared := hinv.owned (t := t) (by simp [hc])
  refine ⟨fun g => ?_,fun g hs => ?_⟩
  · by_cases hno : ∃ e ∈ (effect cfg s.alive t s.next ch s.shared i).events, e.Issues g
    · obtain ⟨e,he,hg⟩ := hno
      obtain ⟨hone,hn⟩ := issues_not_clean hinv hc he hg
      rw [Sys.advance_history,hone,separated_concat]
      exact ⟨h.separated g,fun _ hs => hn (h.clean g hs)⟩
    · exact (h.separated g).append_silent fun e he hg => hno ⟨e,he,hg⟩
  · by_cases hno : ∃ e ∈ (effect cfg s.alive t s.next ch s.shared i).events, e.Cleans g
    · obtain ⟨e,he,hg⟩ := hno
      exact effect_cleans cfg s.shared s.alive t s.next ch hinv.rep hi he hg
    · obtain ⟨hs,hr⟩ := Sealed.of_append hs fun e he hg => hno ⟨e,he,hg⟩
      refine (effect_clean cfg s.shared s.alive t s.next ch hinv.rep hi
        (h.clean g hs)).resolve_left ?_
      rintro ⟨e,he,hre⟩
      exact hr e he hre

end Cleanups

/-! ### Operations and their RPCs -/

def Rpc.ofOperation (o : ℕ) (x : Rpc) : Prop := ∃ g, x.kind = .active o g

/-- An instruction that still has to issue the RPC of its operation. -/
def Instr.Awaits (o : ℕ) (i : Instr) : Prop :=
  i = .network (.active o) ∨ i = .rpc (.active o)

theorem Instr.Awaits.executes {o : ℕ} {i : Instr} (h : i.Awaits o) :
    i.plays (Role.executes o) = true := by
  rcases h with rfl | rfl <;> simp [Instr.plays,Role.executes]

/-- An instruction awaits an operation that it has just claimed, created or locked for. -/
theorem effect_push_awaits (cfg : Config) (s : State) (alive : ℕ → Bool) (t fresh : ℕ)
    (ch : Choice) {i j : Instr} {o : ℕ} (hj : j ∈ (effect cfg alive t fresh ch s i).push)
    (hw : j.Awaits o) : i.Awaits o ∨ s.pendingRemove = some o ∨ o = s.nextOperation := by
  have hnext := effect_push_next cfg s alive t fresh ch hj
  rcases hw with rfl | rfl
  · cases i with
    | finishWorker c =>
      simp only [effect] at hj
      rcases finishWorker_cases s t c with ⟨p,hp,-,-,he⟩ | ⟨-,he⟩ <;> rw [he] at hj <;>
        simp at hj
      subst hj
      exact Or.inr (Or.inl hp)
    | terminalRemove g =>
      simp only [effect,terminalRemove] at hj
      split at hj <;> simp at hj
      exact Or.inr (Or.inr hj)
    | runCleanupActor p =>
      simp only [effect] at hj
      rcases runCleanupActor_cases s p with ⟨-,hp,he⟩ | ⟨-,he⟩ <;> rw [he] at hj <;> simp at hj
      subst hj
      exact Or.inr (Or.inl hp)
    | commit call q r => cases call <;> simp [Instr.Next] at hnext
    | schedulePendingRemove caller =>
      cases caller <;> simp [Instr.Next,Scheduler.returned,Scheduler.failed] at hnext
    | _ => simp [Instr.Next] at hnext
  · cases i with
    | network call =>
      obtain rfl : .active o = call := by
        simpa [Instr.Next] using hnext
      exact Or.inl (Or.inl rfl)
    | commit call q r => cases call <;> simp [Instr.Next] at hnext
    | schedulePendingRemove caller =>
      cases caller <;> simp [Instr.Next,Scheduler.returned,Scheduler.failed] at hnext
    | _ => simp [Instr.Next] at hnext

/-- A cancelled Pending leaves its slot without becoming Active. -/
theorem effect_cancelled (cfg : Config) (s : State) (alive : ℕ → Bool) (t fresh : ℕ)
    (ch : Choice) (h : Rep s) {i : Instr} {o : ℕ}
    (ho : .pendingCancelled o ∈ (effect cfg alive t fresh ch s i).events) :
    s.pendingRemove = some o ∧ (effect cfg alive t fresh ch s i).state.pendingRemove = none ∧
      (effect cfg alive t fresh ch s i).state.activeRemove ≠ some o := by
  obtain ⟨pre,post,he,hno⟩ := effect_pendingEvents cfg s alive t fresh ch h i
  have hmem : .pendingCancelled o ∈ pendingEvents s (effect cfg alive t fresh ch s i).state := by
    by_contra hn
    refine hno (.pendingCancelled o) ?_ (Or.inl ⟨o,rfl⟩)
    rw [he] at ho
    simpa [hn] using ho
  unfold pendingEvents at hmem
  rcases List.mem_append.mp hmem with hmem | hmem
  · split at hmem
    · split at hmem <;> simp at hmem
      subst hmem
      exact ⟨by assumption,by tauto⟩
    · cases hmem
  · split at hmem
    · split at hmem <;> simp at hmem
    · cases hmem

/-- Each operation has issued its RPC at most once, and only while it was Active. -/
structure Issuance (s : System) : Prop where
  once : s.rpcs.Pairwise fun x y => ∀ o, x.ofOperation o → ¬ y.ofOperation o
  issued : ∀ x ∈ s.rpcs, ∀ o, x.ofOperation o → o < s.shared.nextOperation ∧
    s.shared.pendingRemove ≠ some o
  awaits : s.Everywhere fun _ i => ∀ o, i.Awaits o → ∀ x ∈ s.rpcs, ¬ x.ofOperation o
  cancelled : ∀ o, .pendingCancelled o ∈ s.history → Abandoned s.shared o ∧
    ∀ x ∈ s.rpcs, ¬ x.ofOperation o

namespace Issuance
variable {s : System} {t : ℕ} {i : Instr} {rest : List Instr} {ch : Choice}

theorem blank : Issuance .blank where
  once := .nil
  issued x hx := by simp [System.rpcs,System.blank] at hx
  awaits t i hi := by simp [System.blank] at hi
  cancelled o ho := by simp [System.blank] at ho

theorem called (h : Issuance s) (c : Call) : Issuance (s.called cfg c) := by
  refine ⟨?_,?_,?_,fun o ho => ?_⟩
  all_goals rw [System.rpcs_called]
  · exact h.once
  · exact h.issued
  · refine Machine.Everywhere.start h.awaits fun i hi o hw => ?_
    have hp := Plain.entry cfg c i hi
    rcases hw with rfl | rfl <;> simp at hp
  · rcases List.mem_append.mp ho with ho | ho
    · exact h.cancelled o ho
    · cases List.mem_singleton.mp ho

/-- The RPC of an operation is issued by the instruction that awaits it. -/
theorem of_issues {x : Rpc} (hx : x ∈ i.issues s.shared ch) {o : ℕ} (ho : x.ofOperation o) :
    i = .rpc (.active o) := by
  cases i with
  | rpc call =>
    obtain rfl := List.mem_singleton.mp hx
    obtain ⟨g,hg⟩ := ho
    cases call with
    | active o' =>
      obtain ⟨rfl,-⟩ : o' = o ∧ _ := by simpa [RpcCall.kind] using hg
      rfl
    | _ => simp [RpcCall.kind] at hg
  | _ => simp [Instr.issues] at hx

theorem after (h : Issuance s) (hinv : Invariant s) (hc : s.code t = i :: rest) :
    Issuance (s.after cfg t i rest ch) := by
  have hmem : i ∈ s.code t := by simp [hc]
  have hi : i.Owned s.shared := hinv.owned hmem
  have hg := effect_cleanup_grows cfg hinv.rep s.alive t s.next ch hi
  have hnew : ∀ x ∈ i.issues s.shared ch, ∀ o, x.ofOperation o →
      s.shared.activeRemove = some o ∧ ∀ y ∈ s.rpcs, ¬ y.ofOperation o := by
    intro x hx o ho
    obtain rfl := of_issues hx ho
    have hw : Instr.Awaits o (.rpc (.active o)) := Or.inr rfl
    exact ⟨hinv.executes hmem hw.executes,h.awaits t _ hmem o hw⟩
  have hissued : ∀ x ∈ s.rpcs ++ i.issues s.shared ch, ∀ o, x.ofOperation o →
      o < s.shared.nextOperation ∧ s.shared.pendingRemove ≠ some o := by
    intro x hx o ho
    rcases List.mem_append.mp hx with hx | hx
    · exact h.issued x hx o ho
    · have ha := (hnew x hx o ho).1
      exact ⟨(hinv.rep.cleanup.active o ha).1,
        fun hp => (hinv.rep.cleanup.pending o hp).2.2.2.2.1 ha⟩
  refine ⟨?_,?_,?_,?_⟩
  all_goals rw [System.rpcs_after]
  · refine List.pairwise_append.mpr ⟨h.once,?_,fun x hx y hy o hox hoy => ?_⟩
    · cases i <;> simp [Instr.issues]
    · exact (hnew y hy o hoy).2 x hx hox
  · intro x hx o ho
    obtain ⟨hlt,hp⟩ := hissued x hx o ho
    refine ⟨hlt.trans_le hg.operations,fun hp' => ?_⟩
    rcases hg.pending o hp' with hp' | hp'
    · exact hp hp'
    · omega
  · refine h.awaits.advance (hinv.named.lt (by simp [hc])) hc
      (fun t' j hj hr hw o ho x hx hox => ?_) (fun j hj o ho x hx hox => ?_)
      fun body hb j hj o ho => ?_
    · rcases List.mem_append.mp hx with hx | hx
      · exact hw o ho x hx hox
      · -- another thread would execute the same operation
        obtain rfl := of_issues hx hox
        have hno := hinv.executes_alone hc (Instr.Awaits.executes (Or.inr rfl)) (p := o) hj hr
        simp [ho.executes] at hno
    · rcases effect_push_awaits cfg s.shared s.alive t s.next ch hj ho with hw | hp | hn
      · rcases List.mem_append.mp hx with hx | hx
        · exact h.awaits t i hmem o hw x hx hox
        · obtain rfl := of_issues hx hox
          have hj := List.mem_singleton.mp hj
          rcases ho with rfl | rfl <;> cases hj
      · exact (hissued x hx o hox).2 hp
      · exact absurd (hissued x hx o hox).1 (by omega)
    · rcases effect_spawn_cases cfg s.shared t s.next s.alive ch i with
        hs | ⟨a,-,-,-,hs⟩ | ⟨k,p,-,-,-,hs⟩ <;> rw [hs] at hb
      · cases hb
      · obtain rfl := Option.some.inj hb
        simp only [List.mem_cons,List.not_mem_nil,or_false] at hj
        rcases hj with rfl | rfl <;> rcases ho with ho | ho <;> cases ho
      · obtain rfl := Option.some.inj hb
        obtain rfl := List.mem_singleton.mp hj
        rcases ho with ho | ho <;> cases ho
  · intro o ho
    rcases List.mem_append.mp ho with ho | ho
    · obtain ⟨ha,hno⟩ := h.cancelled o ho
      refine ⟨ha.grows hg,fun x hx hox => ?_⟩
      rcases List.mem_append.mp hx with hx | hx
      · exact hno x hx hox
      · exact ha.2.2 (hnew x hx o hox).1
    · obtain ⟨hp,hn,hna⟩ := effect_cancelled cfg s.shared s.alive t s.next ch hinv.rep ho
      refine ⟨⟨(hinv.rep.cleanup.pending o hp).2.1.trans_le hg.operations,by simp [hn],hna⟩,
        fun x hx hox => (hissued x hx o hox).2 hp⟩

end Issuance

/-! ### Concurrent cleanups -/

/-- The calls that only clean up. -/
def Call.CleansUp : Call → Prop
  | .stop _ | .shutdown _ | .removeExecutor => True
  | _ => False

/-- Not an instruction of a start, of a register, or of a Remove that does not clean up
generation `g`. A thread with calm instructions only may be in `stop`, in `shutdown`, in the
`remove_executor` of a service that has stopped at `g`, or be a Worker's or a cleanup actor's; in
`start_registry`, `register_executor`, the one-shot Remove of a service that has never started, or
the removal of another generation it is not. -/
def Instr.Calm (g : ℕ) : Instr → Prop
  | .prepareStart _ | .activatePreparedStart _ | .joinRegister => False
  | .network call | .rpc call | .commit call _ _ =>
    match call with
    | .register .. | .remove => False
    | .worker _ | .active _ => True
  | .terminalRemove g' | .pendingResult _ g' | .schedulePendingRemove (.observer _ g') => g' = g
  | _ => True

/-- A successful Remove for generation `g`. -/
def Rpc.Removes (g : ℕ) (x : Rpc) : Prop :=
  (x.kind = .remove ∨ ∃ o, x.kind = .active o g) ∧ x.result.success = true

/-- A successful Remove of generation `g` has been accepted, or will be. -/
def Removed (s : System) (g : ℕ) : Prop :=
  s.shared.lastSuccessfullyRemovedGeneration = some g ∨
  ∃ t o q r, .commit (.active o) q r ∈ s.code t ∧ r.success = true ∧
    s.shared.lastAppliedRpcSequence < q ∧ (s.shared.operations o).generation = g

/-- Only cleanups of generation `g` have run since the history `l`. -/
structure Cleaning (g : ℕ) (l : List Event) (s : System) : Prop where
  generation : s.shared.generation = g
  worker : s.shared.worker = none
  calm : s.Everywhere fun _ i => i.Calm g
  run : ∃ new, s.history = l ++ new ∧ (∀ e ∈ new, ∀ g', ¬ e.Reopens g') ∧
    ((∀ x ∈ rpcsOf new, ¬ x.Removes g) ∨
      ((rpcsOf new).Pairwise (fun x y => x.Removes g → ¬ y.Removes g) ∧ Removed s g))

namespace Cleaning
variable {g : ℕ} {l : List Event} {s : System} {t : ℕ} {i : Instr} {rest : List Instr}
  {ch : Choice}

theorem start (hw : s.shared.worker = none)
    (hcalm : s.Everywhere fun _ i => i.Calm s.shared.generation) :
    Cleaning s.shared.generation s.history s :=
  ⟨rfl,hw,hcalm,[],by simp,by simp,Or.inl (by simp)⟩

theorem called (h : Cleaning g l s) (hinv : Invariant s) {c : Call} (hc : c.CleansUp) :
    Cleaning g l (s.called cfg c) := by
  obtain ⟨new,hnew,hre,hone⟩ := h.run
  have hentry : ∀ i ∈ entry cfg c, i.Calm g := by
    intro i hi
    cases c <;> simp only [Call.CleansUp] at hc <;> simp only [entry] at hi <;>
      (try split at hi) <;> (try split at hi) <;> simp at hi <;> subst hi <;> trivial
  have hrpcs : rpcsOf (new ++ [.called s.next c]) = rpcsOf new := by
    simp [rpcsOf,Event.toRpc]
  refine ⟨h.generation,h.worker,Machine.Everywhere.start h.calm hentry,
    new ++ [.called s.next c],?_,fun e he => ?_,?_⟩
  · simp [Machine.start,machine,hnew]
  · rcases List.mem_append.mp he with he | he
    · exact hre e he
    · rw [List.mem_singleton.mp he]
      exact fun _ => id
  · rw [hrpcs]
    rcases hone with hnone | ⟨hp,hr⟩
    · exact Or.inl hnone
    · refine Or.inr ⟨hp,hr.imp_right ?_⟩
      rintro ⟨t,o,q,r,hc,hr⟩
      exact ⟨t,o,q,r,Machine.mem_start hinv.named hc,hr⟩

section After
variable (h : Cleaning g l s) (hinv : Invariant s) (hc : s.code t = i :: rest)
include h hinv hc

theorem calm_step : (s.after cfg t i rest ch).Everywhere fun _ j => j.Calm g := by
  have hi := h.calm t i (by simp [hc])
  refine h.calm.advance (hinv.named.lt (by simp [hc])) hc (fun _ _ _ _ => id) (fun j hj => ?_)
    fun body hb j hj => ?_
  · have hnext := effect_push_next cfg s.shared s.alive t s.next ch hj
    cases i with
    | removeOnce =>
      simp only [effect] at hj
      rcases removeOnce_cases s.shared t with ⟨-,he⟩ | ⟨hw,-⟩
      · rw [he] at hj
        rw [List.mem_singleton.mp hj]
        exact h.generation
      · exact absurd h.worker hw
    | terminalRemove g' =>
      obtain rfl : g' = g := hi
      have hsaw := terminalView_saw s.shared g'
      simp only [effect,terminalRemove] at hj
      cases hv : terminalView s.shared g' with
      | oneShot =>
        rw [hv] at hsaw
        exact absurd h.worker (hsaw h.generation)
      | _ =>
        simp only [hv,List.mem_cons,List.not_mem_nil,or_false] at hj
        rcases hj with rfl | rfl <;> first | rfl | trivial
    | schedulePendingRemove caller =>
      rcases hnext with ⟨o,rfl⟩ | hnext | hnext
      · trivial
      · cases caller <;> simp [Scheduler.returned] at hnext
        · subst hnext
          trivial
        · rcases hnext with rfl | rfl
          · trivial
          · exact hi
      · cases caller <;> simp [Scheduler.failed] at hnext
        subst hnext
        trivial
    | prepareStart | activatePreparedStart | joinRegister => exact hi.elim
    | cancelPreparedStart | settlePrepared => rcases hnext with ⟨c,rfl⟩ | rfl <;> trivial
    | preparedWorkerEntry | waitRemove | maybeCloseLogs | shutdownRequest =>
      obtain rfl := hnext
      trivial
    | runWorker | finishWorker => rcases hnext with ⟨o,rfl⟩ | rfl | rfl <;> trivial
    | recheckWorker | workerLoop | performWorkerRegistry | sleep | finishCleanupActor
    | runCleanupActor => rcases hnext with rfl | rfl <;> trivial
    | network call =>
      rcases hnext with rfl | ⟨c,rfl,rfl⟩
      · exact hi
      · trivial
    | rpc call =>
      obtain ⟨q,r,rfl⟩ := hnext
      exact hi
    | commit call q r =>
      cases call with
      | register | remove => exact hi.elim
      | worker => rcases hnext with rfl | rfl <;> trivial
      | active => rcases hnext with ⟨o,rfl⟩ | rfl | rfl <;> trivial
    | stop => rcases hnext with ⟨c,rfl⟩ | ⟨p,rfl⟩ | rfl | rfl <;> trivial
    | shutdown => rcases hnext with ⟨c,rfl⟩ | ⟨p,rfl⟩ | ⟨g,rfl⟩ | ⟨r,rfl⟩ | rfl <;> trivial
    | operationResult =>
      obtain ⟨r,rfl⟩ := hnext
      trivial
    | pendingResult =>
      rcases hnext with ⟨r,rfl⟩ | rfl
      · trivial
      · exact hi
    | _ => exact hnext.elim
  · rcases effect_spawn_cases cfg s.shared t s.next s.alive ch i with
      hs | ⟨a,-,-,-,hs⟩ | ⟨k,o,-,-,-,hs⟩ <;> rw [hs] at hb
    · cases hb
    · obtain rfl := Option.some.inj hb
      simp only [List.mem_cons,List.not_mem_nil,or_false] at hj
      rcases hj with rfl | rfl <;> trivial
    · obtain rfl := Option.some.inj hb
      obtain rfl := List.mem_singleton.mp hj
      trivial

omit h in
theorem reopens_step (hi : i.Calm g) {e : Event}
    (he : e ∈ (effect cfg s.alive t s.next ch s.shared i).events) (g' : ℕ) : ¬ e.Reopens g' := by
  intro hre
  have hown : i.Owned s.shared := hinv.owned (t := t) (by simp [hc])
  cases e with
  | accepted x q k r now =>
    obtain ⟨call,rfl,hkind,-⟩ :=
      effect_accepted cfg s.shared s.alive t s.next ch hinv.rep hown he
    cases call with
    | register => exact hi
    | _ => cases hre.1.symm.trans hkind
  | _ => exact hre

/-- The responsibility is not reopened by a calm instruction. -/
theorem unreopened_step :
    Unreopened s.shared (effect cfg s.alive t s.next ch s.shared i).state := by
  have hmem : i ∈ s.code t := by simp [hc]
  have hi := h.calm t i hmem
  cases effect_responsibility cfg s.alive t s.next ch hinv.rep (hinv.owned hmem) with
  | kept hu => exact hu
  | renewed p hip =>
    subst hip
    exact hi.elim
  | reopened k q r hik =>
    subst hik
    exact hi.elim

theorem worker_step : (effect cfg s.alive t s.next ch s.shared i).state.worker = none := by
  have hl := effect_lifecycle_grows cfg hinv.rep.lifecycle s.alive t s.next ch i
  rw [Option.eq_none_iff_forall_ne_some]
  intro c hw
  rcases hl.worker c hw with hw | hlt
  · rw [h.worker] at hw
    cases hw
  · have hu : Unreopened s.shared (effect cfg s.alive t s.next ch s.shared i).state :=
      h.unreopened_step hinv hc
    have := hu.generation
    omega

/-- An accepted success stays so until its commit, and the commit makes it the cached one. -/
theorem removed_step (hr : Removed s g) : Removed (s.after cfg t i rest ch) g := by
  have hmem : i ∈ s.code t := by simp [hc]
  have hu : Unreopened s.shared (effect cfg s.alive t s.next ch s.shared i).state :=
    h.unreopened_step hinv hc
  rcases hr with hs | ⟨t',o,q,r,hj,hr,hq,hg⟩
  · left
    rcases hu.removed with he | he
    · exact he.trans hs
    · rw [Sys.advance_shared,he,h.generation]
  have ho := hinv.executes (o := o) hj (by simp [Instr.plays,Role.executes])
  rcases Sys.mem_code_cases hc hj with ⟨rfl,rfl⟩ | hrest
  · left
    have hclean : Clean (completeRemoveOperation cfg ch.now s.shared o r q).1
        (s.shared.operations o).generation := hinv.rep.clean_complete ho hr hq
    rw [hg] at hclean
    exact hclean.2.1 (h.generation.symm.trans hu.generation.symm)
  · refine Or.inr ⟨t',o,q,r,Sys.mem_advance hinv.named hc hj hrest,hr,?_,?_⟩
    · rcases effect_lastApplied cfg s.shared s.alive t s.next ch hinv.rep (hinv.owned hmem) with
        he | ⟨call,q',r',rfl,-,hw,-⟩
      · exact he.trans_lt hq
      · have hi := h.calm t _ hmem
        cases call with
        | register | remove => exact hi.elim
        | worker c =>
          have hw := hw c rfl
          simp [workerIsCurrent,isCurrentWorker,h.worker] at hw
        | active o' =>
          have hno := hinv.executes_alone hc (o := o') (p := o)
            (by simp [Instr.plays,Role.executes]) hj hrest
          simp [Instr.plays,Role.executes] at hno
    · have hgrow := effect_cleanup_grows cfg hinv.rep s.alive t s.next ch (hinv.owned hmem)
      exact (hgrow.operation o (hinv.rep.cleanup.active o ho).1).1.trans hg

/-- A success is issued only by an Active Remove, and only before any other. -/
theorem issues_step (hst : Status cfg s) {x : Rpc} (hx : x ∈ i.issues s.shared ch)
    (hr : x.Removes g) : ¬ Removed s g ∧ Removed (s.after cfg t i rest ch) g := by
  have hmem : i ∈ s.code t := by simp [hc]
  have hi := h.calm t i hmem
  cases i with
  | rpc call =>
    obtain rfl := List.mem_singleton.mp hx
    obtain ⟨hkind,hsucc⟩ := hr
    cases call with
    | active o =>
      obtain hg : (s.shared.operations o).generation = g := by
        simpa [RpcCall.kind] using hkind
      have hplay : Instr.plays (Role.executes o) (.rpc (.active o)) = true := by
        simp [Instr.plays,Role.executes]
      have ho := hinv.executes hmem hplay
      have hcur := (hinv.rep.cleanup.active o ho).2.2.2 (hg.trans h.generation.symm)
      refine ⟨?_,Or.inr ⟨t,o,s.shared.rpcSequence + 1,(RpcCall.active o).outcome ch.outcome,?_,
        hsucc,?_,hg⟩⟩
      · rintro (hs | ⟨t',o',q,r,hj,-⟩)
        · exact hcur.2 (hs.trans (congrArg some h.generation.symm))
        · rcases Sys.mem_code_cases hc hj with ⟨-,he⟩ | hrest
          · cases he
          · have hno := hinv.executes_alone hc hplay (p := o') hj hrest
            simp [Instr.plays,Role.executes] at hno
      · rw [Sys.advance_code_self (hinv.named.lt (by simp [hc]))]
        exact List.mem_append_left _ List.mem_cons_self
      · have := hst.applied
        simp only [Sys.advance_shared,effect,callRegistry]
        omega
    | register | remove => exact hi.elim
    | worker c => simp [RpcCall.kind] at hkind
  | _ => simp [Instr.issues] at hx

theorem after (hst : Status cfg s) : Cleaning g l (s.after cfg t i rest ch) := by
  obtain ⟨new,hnew,hre,hone⟩ := h.run
  have hu : Unreopened s.shared (effect cfg s.alive t s.next ch s.shared i).state :=
    h.unreopened_step hinv hc
  refine ⟨hu.generation.trans h.generation,h.worker_step hinv hc,h.calm_step hinv hc,
    new ++ (effect cfg s.alive t s.next ch s.shared i).events,?_,fun e he => ?_,?_⟩
  · simp [hnew]
  · rcases List.mem_append.mp he with he | he
    · exact hre e he
    · exact reopens_step hinv hc (h.calm t i (by simp [hc])) he
  · rw [rpcsOf_append,(effect_rpcs cfg s.shared s.alive t s.next ch i).1]
    by_cases hx : ∃ x ∈ i.issues s.shared ch, x.Removes g
    · obtain ⟨x,hx,hr⟩ := hx
      obtain ⟨hno,hyes⟩ := h.issues_step hinv hc hst hx hr
      have hnone := hone.resolve_right fun hp => hno hp.2
      refine Or.inr ⟨List.pairwise_append.mpr ⟨?_,?_,fun y hy z _ hry => absurd hry (hnone y hy)⟩,
        hyes⟩
      · exact List.Pairwise.imp_of_mem (fun hy _ _ hry => absurd hry (hnone _ hy))
          (List.pairwise_of_forall (R := fun _ _ => True) fun _ _ => trivial)
      · cases i <;> simp [Instr.issues]
    · push Not at hx
      rcases hone with hnone | ⟨hp,hr⟩
      · left
        intro x hm
        rcases List.mem_append.mp hm with hm | hm
        · exact hnone x hm
        · exact hx x hm
      · refine Or.inr ⟨List.pairwise_append.mpr ⟨hp,?_,fun y _ z hz _ => hx z hz⟩,
          h.removed_step hinv hc hr⟩
        cases i <;> simp [Instr.issues]

end After
end Cleaning

variable {s : System}

/-- A run of cleanups keeps what the first state of the run guarantees. -/
theorem Cleaning.run_of {s s' : System} (hinv : Invariant s) (hst : Status cfg s)
    (hnum : Numbered s) (hrq : Requests s) {g : ℕ} {l : List Event} (h : Cleaning g l s)
    (hr : Run (step cfg) (fun _ a => ∀ c, a = .call c → c.CleansUp) s s') :
    Cleaning g l s' ∧ Requests s' := by
  have hall : (Status cfg s' ∧ Numbered s') ∧ Cleaning g l s' ∧ Requests s' := by
    refine run_induct (I := fun s => (Status cfg s ∧ Numbered s) ∧ Cleaning g l s ∧ Requests s)
      hinv ⟨⟨hst,hnum⟩,h,hrq⟩ ?_ ?_ hr
    · rintro s c hinv ⟨⟨hst,hnum⟩,hcl,hrq⟩ hg
      exact ⟨⟨hst.called c,hnum.called c⟩,hcl.called hinv (hg c rfl),hrq.called c⟩
    · rintro s t i rest ch hinv ⟨⟨hst,hnum⟩,hcl,hrq⟩ - hc -
      exact ⟨⟨hst.after hinv hc hnum,hnum.after t i rest ch⟩,hcl.after hinv hc hst,
        hrq.after hinv hc⟩
  exact hall.2

theorem Reachable.requests (h : Reachable cfg s) : Requests s :=
  h.induct .blank (fun _ c _ hr => hr.called c) fun _ _ _ _ _ hinv hr hc _ => hr.after hinv hc

theorem Reachable.cleanups (h : Reachable cfg s) : Cleanups s :=
  h.induct .blank (fun _ c _ hr => hr.called c) fun _ _ _ _ _ hinv hr hc _ => hr.after hinv hc

theorem Reachable.issuance (h : Reachable cfg s) : Issuance s :=
  h.induct .blank (fun _ c _ hr => hr.called c) fun _ _ _ _ _ hinv hr hc _ => hr.after hinv hc

/-- What the history of a system guarantees about its cleanups. -/
structure CleanedOnce (cfg : Config) (s : System) : Prop where
  /-- Between two Pending Removes of a generation a register of it is accepted. -/
  requested : ∀ g, Separated (Event.Requests g) (Event.Requests g) (Event.Reopens g) s.history
  /-- Between an accepted successful Active Remove of a generation and the RPC of another one a
  register of it is accepted. -/
  cleaned : ∀ g, Separated (Event.Cleans g) (Event.Issues g) (Event.Reopens g) s.history
  active : ∀ t t' i j o o', i ∈ s.code t → j ∈ s.code t' → i.plays (Role.executes o) = true →
    j.plays (Role.executes o') = true → s.shared.activeRemove = some o ∧ o = o' ∧ t = t'
  once : s.rpcs.Pairwise fun x y => ∀ o, x.ofOperation o → ¬ y.ofOperation o
  cancelled : ∀ o, .pendingCancelled o ∈ s.history → ∀ x ∈ s.rpcs, ¬ x.ofOperation o
  /-- Concurrent cleanups alone remove a generation successfully at most once, create at most
  one Pending for it and none for one that has already been requested. Calls in flight at the
  start of the run may be cleanups too: `Calm` excludes only those that register, start or remove
  something else. -/
  concurrent : s.shared.worker = none → (s.Everywhere fun _ i => i.Calm s.shared.generation) →
    ∀ s', Run (step cfg) (fun _ a => ∀ c, a = .call c → c.CleansUp) s s' →
    ∃ new, s'.history = s.history ++ new ∧
      (rpcsOf new).Pairwise (fun x y => x.Removes s.shared.generation →
        ¬ y.Removes s.shared.generation) ∧
      new.Pairwise (fun e e' => e.Requests s.shared.generation →
        ¬ e'.Requests s.shared.generation) ∧
      (Sealed (Event.Requests s.shared.generation) (Event.Reopens s.shared.generation)
        s.history → ∀ e ∈ new, ¬ e.Requests s.shared.generation)

theorem cleanup_requested_once (h : Reachable cfg s) : CleanedOnce cfg s := by
  have hinv := h.invariant
  have hrq := h.requests
  refine ⟨hrq.separated,h.cleanups.separated,?_,h.issuance.once,
    fun o ho => (h.issuance.cancelled o ho).2,fun hw hcalm s' hr => ?_⟩
  · intro t t' i j o o' hi hj hio hjo
    have ho := hinv.executes hi hio
    obtain rfl := Option.some.inj (ho.symm.trans (hinv.executes hj hjo))
    refine ⟨ho,rfl,?_⟩
    by_contra hne
    have hsum := weigh_add_le_total (f := tally (Instr.plays (Role.executes o))) hinv.named
      (Ne.symm hne)
    have hle := le_weigh (f := tally (Instr.plays (Role.executes o))) (t := t) hi
    have hle' := le_weigh (f := tally (Instr.plays (Role.executes o))) (t := t') hj
    have hone : total (tally (Instr.plays (Role.executes o))) s = 1 := by
      rw [show total (tally (Instr.plays (Role.executes o))) s =
        slot o s.shared.activeRemove from hinv.actives o,ho,slot_self]
    have hti : tally (Instr.plays (Role.executes o)) t i = 1 := if_pos hio
    have htj : tally (Instr.plays (Role.executes o)) t' j = 1 := if_pos hjo
    omega
  · obtain ⟨hcl,hrq'⟩ :=
      (Cleaning.start hw hcalm).run_of hinv h.status h.numbered hrq hr
    obtain ⟨new,hnew,hre,hone⟩ := hcl.run
    have hsep := hrq'.separated s.shared.generation
    rw [hnew] at hsep
    refine ⟨new,hnew,?_,hsep.pairwise fun e he => hre e he _,
      fun hs => hsep.silent_of_sealed hs fun e he => hre e he _⟩
    refine hone.elim (fun hno => ?_) And.left
    exact (List.pairwise_of_forall (R := fun _ _ => True) fun _ _ => trivial).imp_of_mem
      fun hx _ _ hrx => absurd hrx (hno _ hx)

/-- A register, its successful removal and two more cleanups that find it done. -/
theorem cleanup_requested_once_repeated : ∃ s : System,
    (s.rpcs.map Rpc.kind = [.register 0, .active 0 0] ∧
      s.shared.lastSuccessfullyRemovedGeneration = some 0) ∧ CleanedOnce .plain s := by
  obtain ⟨s,hr,hp⟩ := Run.exists_of_schedule (f := step .plain) (s := .blank)
    (l := [.call .registerExecutor] ++ List.replicate 7 (proceed 0) ++
      [.call .removeExecutor] ++ List.replicate 6 (proceed 1) ++
      [.call (.stop true), .call .removeExecutor, proceed 2, proceed 3, proceed 3, proceed 2])
    (p := fun s => s.rpcs.map Rpc.kind = [.register 0, .active 0 0] ∧
      s.shared.lastSuccessfullyRemovedGeneration = some 0) (by decide +kernel)
  exact ⟨s,by simpa using hp,cleanup_requested_once hr⟩

end FlaskXxlJob.Registry
