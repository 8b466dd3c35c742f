import FlaskXxlJob.Interleaving.Between
import FlaskXxlJob.Registry.Responsibility
import FlaskXxlJob.Registry.Fencing
import FlaskXxlJob.Registry.Status

/-!
Cleanup is requested once for each responsibility. Only an accepted register of a generation
lets it have a second Pending Remove, or another Active Remove after a successful one.
-/
namespace FlaskXxlJob.Registry
open FlaskXxlJob.Client Interleaving

variable {cfg : Config} {s s' : State}

/-! ### Marks of a history -/

/-- A Pending Remove of generation `g` is created. -/
def Event.Requests (g : ℕ) (e : Event) : Prop := ∃ o, e = .pendingCreated o g

/-- An explicit register that joined generation `g` is accepted with success. -/
def Event.Reopens (g : ℕ) : Event → Prop
  | .accepted _ _ k r _ => k = .register g ∧ r.success = true
  | _ => False

/-- An Active Remove of generation `g` is accepted with success. -/
def Event.Cleans (g : ℕ) : Event → Prop
  | .accepted _ _ k r _ => (∃ o, k = .active o g) ∧ r.success = true
  | _ => False

/-- An Active Remove of generation `g` issues its RPC. -/
def Event.Issues (g : ℕ) : Event → Prop
  | .rpc _ _ k _ => ∃ o, k = .active o g
  | _ => False

theorem Event.Requests.ofPending {g : ℕ} {e : Event} (h : e.Requests g) : e.OfPending :=
  Or.inr (h.imp fun _ he => ⟨g,he⟩)

/-! ### What one instruction requests -/

/-- The cleanup of generation `g` has been requested, or `g` has passed. -/
def Marked (s : State) (g : ℕ) : Prop :=
  g ≤ s.generation ∧ (g = s.generation → s.lastRemoveRequestedGeneration = some g)

theorem Unreopened.marked {g : ℕ} (hu : Unreopened s s') (h : Marked s g) : Marked s' g := by
  have hg := hu.generation
  refine ⟨h.1.trans hg.ge,fun he => ?_⟩
  rw [hg] at he
  rcases hu.requested with hr | hr
  · exact hr.trans (h.2 he)
  · rw [hr,he]

section
variable (cfg) (s) (alive : ℕ → Bool) (t fresh : ℕ) (ch : Choice)

/-- The changes of the Pending slot stand together in the events of an instruction. -/
theorem effect_pendingEvents (h : Rep s) (i : Instr) : ∃ pre post,
    (effect cfg alive t fresh ch s i).events =
      pre ++ pendingEvents s (effect cfg alive t fresh ch s i).state ++ post ∧
    ∀ e ∈ pre ++ post, ¬ e.OfPending := by
  have hplain : (effect cfg alive t fresh ch s i).state.pendingRemove = s.pendingRemove →
      (∀ e ∈ (effect cfg alive t fresh ch s i).events, ¬ e.OfPending) → ∃ pre post,
      (effect cfg alive t fresh ch s i).events =
        pre ++ pendingEvents s (effect cfg alive t fresh ch s i).state ++ post ∧
      ∀ e ∈ pre ++ post, ¬ e.OfPending := fun hp hno =>
    ⟨(effect cfg alive t fresh ch s i).events,[],by simp [hp],by simpa using hno⟩
  have hacc : ∀ b q k r, ∀ e ∈ acceptedEvents b t q k r ch.now, ¬ e.OfPending := by
    intro b q k r e he
    rw [mem_acceptedEvents he]
    rintro (⟨o,ho⟩ | ⟨o,g,ho⟩) <;> cases ho
  have hcan : ∀ e ∈ cancelledEvents s, ¬ e.OfPending := by
    intro e he
    obtain ⟨p,-,rfl⟩ := mem_cancelledEvents he
    rintro (⟨o,ho⟩ | ⟨o,g,ho⟩) <;> cases ho
  cases i with
  | activatePreparedStart p =>
    simp only [effect] at hplain ⊢
    rcases activatePreparedStart_cases t h.lifecycle p with ⟨-,he⟩ | ⟨-,-,he⟩ <;>
      rw [he] at hplain ⊢
    · exact hplain rfl (by simp)
    · refine ⟨[],[.committed p t],by simp,fun e he => ?_⟩
      rw [List.mem_singleton.mp he]
      rintro (⟨o,ho⟩ | ⟨o,g,ho⟩) <;> cases ho
  | stop remove =>
    exact ⟨cancelledEvents s,[],by simp [effect,stop],by simpa using hcan⟩
  | shutdown deregister => exact hplain (by simp [effect,shutdown]) hcan
  | shutdownRequest g =>
    simp only [effect,shutdownRequest] at hplain ⊢
    split
    · exact ⟨[],[],by simp,by simp⟩
    · exact ⟨[],[],by simp,by simp⟩
  | joinRegister => exact hplain (by simp [effect,joinRegister]) (by simp [effect,joinRegister])
  | commit call q r =>
    cases call with
    | register k g =>
      cases k with
      | none => exact hplain (by simp [effect,commitRpc,commitRegister]) (hacc _ _ _ _)
      | some k => exact ⟨_,[],(List.append_nil _).symm,by simpa using hacc _ _ _ _⟩
    | remove => exact hplain (by simp [effect,commitRpc,commitRemove]) (hacc _ _ _ _)
    | worker c => exact hplain (by simp [effect,commitRpc,commitWorker]) (hacc _ _ _ _)
    | active o => exact ⟨_,[],(List.append_nil _).symm,by simpa using hacc _ _ _ _⟩
  | finishWorker c =>
    simp only [effect] at hplain ⊢
    rcases finishWorker_cases s t c with ⟨o,hp,-,-,he⟩ | ⟨-,he⟩ <;> rw [he] at hplain ⊢
    · refine ⟨[.finished c t],[],by simp [pendingEvents,hp],fun e he => ?_⟩
      obtain rfl : e = .finished c t := by simpa using he
      rintro (⟨o,ho⟩ | ⟨o,g,ho⟩) <;> cases ho
    · refine hplain (by simp) fun e he => ?_
      rw [List.mem_singleton.mp he]
      rintro (⟨o,ho⟩ | ⟨o,g,ho⟩) <;> cases ho
  | terminalRemove g =>
    simp only [effect,terminalRemove] at hplain ⊢
    split <;> exact ⟨[],[],by simp,by simp⟩
  | schedulePendingRemove caller =>
    simp only [effect] at hplain ⊢
    rcases schedulePendingRemove_cases cfg ch.now s t fresh alive caller ch.startError with
      ⟨-,he⟩ | ⟨o,-,-,he⟩ | ⟨o,x,-,-,he⟩ <;> rw [he] at hplain ⊢
    · exact hplain rfl (by simp)
    · exact hplain (by simp) (by simp)
    · refine ⟨[.localFailure (startFailure x) ch.now],_,rfl,fun e he => ?_⟩
      cases caller <;> simp [Scheduler.raisedEvents] at he
      all_goals rintro (⟨o,rfl⟩ | ⟨o,g,rfl⟩) <;> simp at he
  | runCleanupActor o =>
    simp only [effect] at hplain ⊢
    rcases runCleanupActor_cases s o with ⟨-,hp,he⟩ | ⟨-,he⟩ <;> rw [he] at hplain ⊢
    · exact ⟨[],[],by simp [pendingEvents,hp,claimPending],by simp⟩
    · exact hplain rfl (by simp)
  | finishCleanupActor o => exact hplain (by simp [effect]) (by simp [effect])
  | setOperationDone o | setCoordinationDone k => exact hplain rfl (by simp [effect])
  | _ =>
    refine hplain ?_ fun e he hp => ?_
    · rw [show ∀ x : State, x.pendingRemove = x.toCleanup.pendingRemove from fun _ => rfl,
        effect_toCleanup cfg alive t fresh ch rfl]
    · have hem := effect_event_emits cfg s alive t fresh ch he
      rcases hp with ⟨o,rfl⟩ | ⟨o,g,rfl⟩ <;> simp [Instr.Emits] at hem

theorem pendingEvents_cases (s s' : State) :
    (∀ e ∈ pendingEvents s s', ∀ g, ¬ e.Requests g) ∨
    ∃ o, pendingEvents s s' = [.pendingCreated o (s'.operations o).generation] ∧
      s'.pendingRemove = some o ∧ s.pendingRemove ≠ some o := by
  unfold pendingEvents
  cases hp' : s'.pendingRemove with
  | none =>
    left
    rintro e he g ⟨o,rfl⟩
    cases hp : s.pendingRemove with
    | none => simp [hp] at he
    | some p =>
      simp only [hp] at he
      split at he <;> simp at he
  | some o =>
    by_cases hp : s.pendingRemove = some o
    · left
      simp [hp]
    · right
      refine ⟨o,?_,rfl,hp⟩
      cases hq : s.pendingRemove <;> simp [hq] at hp ⊢
      exact hp

/-- An instruction creates at most one Pending, which takes the slot. -/
theorem effect_requests (h : Rep s) {i : Instr} (hi : i.Owned s) :
    (∀ e ∈ (effect cfg alive t fresh ch s i).events, ∀ g, ¬ e.Requests g) ∨
    ∃ pre o post, (effect cfg alive t fresh ch s i).events =
        pre ++ .pendingCreated o (effect cfg alive t fresh ch s i).state.generation :: post ∧
      (∀ e ∈ pre, ∀ g, ¬ e.Requests g) ∧ (∀ e ∈ post, ∀ g, ¬ e.Requests g) ∧
      (effect cfg alive t fresh ch s i).state.pendingRemove = some o ∧
      s.pendingRemove ≠ some o := by
  obtain ⟨pre,post,he,hno⟩ := effect_pendingEvents cfg s alive t fresh ch h i
  have hpre : ∀ e ∈ pre, ∀ g, ¬ e.Requests g := fun e hm g hr =>
    hno e (by simp [hm]) hr.ofPending
  have hpost : ∀ e ∈ post, ∀ g, ¬ e.Requests g := fun e hm g hr =>
    hno e (by simp [hm]) hr.ofPending
  rcases pendingEvents_cases s (effect cfg alive t fresh ch s i).state with
    hp | ⟨o,hp,ho,hne⟩
  · left
    rw [he]
    intro e hm
    rcases List.mem_append.mp hm with hm | hm
    · rcases List.mem_append.mp hm with hm | hm
      · exact hpre e hm
      · exact hp e hm
    · exact hpost e hm
  · have hg := ((h.effect cfg alive t fresh ch hi).cleanup.pending o ho).2.2.1
    exact Or.inr ⟨pre,o,post,by rw [he,hp,hg]; simp,hpre,hpost,ho,hne⟩

/-- The register that reopens a responsibility is the first event of its instruction. -/
theorem effect_reopened_events {k q : ℕ} {r : CallResult} (hr : r.success = true)
    (hq : s.lastAppliedRpcSequence < q) : ∃ after,
    (effect cfg alive t fresh ch s (.commit (.register (some k) s.generation) q r)).events =
      .accepted t q (.register s.generation) r ch.now :: after ∧
    (Event.accepted t q (.register s.generation) r ch.now).Reopens s.generation :=
  ⟨_,by simp only [effect,commitRpc,commitRegister,acceptedEvents,hq,decide_true,if_true]; rfl,
    rfl,hr⟩

/-- Only an accepted register of the generation takes its mark. -/
theorem effect_marked (h : Rep s) {i : Instr} (hi : i.Owned s) {g : ℕ} (hg : Marked s g) :
    (∃ e ∈ (effect cfg alive t fresh ch s i).events, e.Reopens g) ∨
    Marked (effect cfg alive t fresh ch s i).state g := by
  cases effect_responsibility cfg alive t fresh ch h hi with
  | kept hu => exact Or.inr (hu.marked hg)
  | renewed p hip hgen =>
    have hle := hg.1
    exact Or.inr ⟨by omega,fun he => by omega⟩
  | reopened k q r hik hr hq hk hu =>
    obtain ⟨after,he,hre⟩ := effect_reopened_events cfg s alive t fresh ch (k := k) hr hq
    subst hik
    by_cases hgen : g = s.generation
    · subst hgen
      exact Or.inl ⟨_,by rw [he]; exact List.mem_cons_self,hre⟩
    · have hle := hg.1
      have hgen' : (effect cfg alive t fresh ch s
        (.commit (.register (some k) s.generation) q r)).state.generation = s.generation :=
        hu.generation
      exact Or.inr ⟨by omega,fun he => by omega⟩

/-- A new Pending marks its generation, which was not marked or has just been reopened. -/
theorem effect_created (h : Rep s) {i : Instr} (hi : i.Owned s) {pre post : List Event} {o : ℕ}
    (he : (effect cfg alive t fresh ch s i).events =
      pre ++ .pendingCreated o (effect cfg alive t fresh ch s i).state.generation :: post)
    (ho : (effect cfg alive t fresh ch s i).state.pendingRemove = some o)
    (hne : s.pendingRemove ≠ some o) :
    Marked (effect cfg alive t fresh ch s i).state
      (effect cfg alive t fresh ch s i).state.generation ∧
    ((∃ e ∈ pre, e.Reopens (effect cfg alive t fresh ch s i).state.generation) ∨
      ¬ Marked s (effect cfg alive t fresh ch s i).state.generation) := by
  cases effect_responsibility cfg alive t fresh ch h hi with
  | kept hu =>
    obtain ⟨hfree,hmark⟩ := (hu.pending o ho).resolve_left hne
    rw [hu.generation]
    refine ⟨⟨hu.generation.ge,fun _ => hmark⟩,Or.inr fun hm => hfree (hm.2 rfl)⟩
  | renewed p hip hgen hm hs hp =>
    rw [hp] at ho
    cases ho
  | reopened k q r hik hr hq hk hu =>
    obtain ⟨after,he',hre⟩ := effect_reopened_events cfg s alive t fresh ch (k := k) hr hq
    obtain ⟨-,hmark⟩ := (hu.pending o ho).resolve_left hne
    have hg : (effect cfg alive t fresh ch s i).state.generation = s.generation := hu.generation
    rw [hg]
    refine ⟨⟨hg.ge,fun _ => hmark⟩,Or.inl ?_⟩
    subst hik
    rw [he'] at he
    cases pre with
    | nil => cases (List.cons_eq_cons.mp he).1
    | cons e pre =>
      obtain ⟨rfl,-⟩ := List.cons_eq_cons.mp he
      exact ⟨_,List.mem_cons_self,hre⟩

end

/-! ### Pending Removes -/

/-- The request marker remembers the last Pending of the current generation until an accepted
register. -/
structure Requests (s : System) : Prop where
  separated : ∀ g, Separated (Event.Requests g) (Event.Requests g) (Event.Reopens g) s.history
  marked : ∀ g, Sealed (Event.Requests g) (Event.Reopens g) s.history → Marked s.shared g

namespace Requests
variable {s : System} {t : ℕ} {i : Instr} {rest : List Instr} {ch : Choice}

theorem blank : Requests .blank where
  separated _ := separated_nil
  marked _ h := absurd h not_sealed_nil

theorem called (h : Requests s) (c : Call) : Requests (s.called cfg c) := by
  have hno : ∀ g, ∀ e ∈ [Event.called s.next c], ¬ e.Requests g := by
    intro g e he
    rw [List.mem_singleton.mp he]
    rintro ⟨o,ho⟩
    cases ho
  exact ⟨fun g => (h.separated g).append_silent (hno g),
    fun g hs => h.marked g (hs.of_append (hno g)).1⟩

theorem after (h : Requests s) (hinv : Invariant s) (hc : s.code t = i :: rest) :
    Requests (s.after cfg t i rest ch) := by
  have hi : i.Owned s.shared := hinv.owned (t := t) (by simp [hc])
  have hsilent : ∀ g, (∀ e ∈ (effect cfg s.alive t s.next ch s.shared i).events,
      ¬ e.Requests g) → Sealed (Event.Requests g) (Event.Reopens g)
      (s.after cfg t i rest ch).history → Marked (s.after cfg t i rest ch).shared g := by
    intro g hno hs
    obtain ⟨hs,hr⟩ := Sealed.of_append hs hno
    refine (effect_marked cfg s.shared s.alive t s.next ch hinv.rep hi
      (h.marked g hs)).resolve_left ?_
    rintro ⟨e,he,hre⟩
    exact hr e he hre
  rcases effect_requests cfg s.shared s.alive t s.next ch hinv.rep hi with
    hno | ⟨pre,o,post,he,hpre,hpost,ho,hne⟩
  · exact ⟨fun g => (h.separated g).append_silent fun e hm => hno e hm g,
      fun g => hsilent g fun e hm => hno e hm g⟩
  obtain ⟨hmarked,hopen⟩ := effect_created cfg s.shared s.alive t s.next ch hinv.rep hi he ho hne
  have hother : ∀ g, g ≠ (effect cfg s.alive t s.next ch s.shared i).state.generation →
      ∀ e ∈ (effect cfg s.alive t s.next ch s.shared i).events, ¬ e.Requests g := by
    intro g hg e hm hr
    rw [he] at hm
    rcases List.mem_append.mp hm with hm | hm
    · exact hpre e hm g hr
    · rcases List.mem_cons.mp hm with rfl | hm
      · obtain ⟨o',ho'⟩ := hr
        cases ho'
        exact hg rfl
      · exact hpost e hm g hr
  refine ⟨fun g => ?_,fun g hs => ?_⟩
  · by_cases hg : g = (effect cfg s.alive t s.next ch s.shared i).state.generation
    · rw [Sys.advance_history,he]
      refine (h.separated g).append_one (fun e hm => hpre e hm g) (fun e hm => hpost e hm g)
        fun hs => ?_
      obtain ⟨hs,hr⟩ := hs.of_append fun e hm => hpre e hm g
      rcases hopen with ⟨e,hm,hre⟩ | hn
      · exact hr e hm (hg ▸ hre)
      · exact hn (hg ▸ h.marked g hs)
    · exact (h.separated g).append_silent (hother g hg)
  · by_cases hg : g = (effect cfg s.alive t s.next ch s.shared i).state.generation
    · exact hg ▸ hmarked
    · exact hsilent g (hother g hg) hs

end Requests
end FlaskXxlJob.Registry
