import FlaskXxlJob.Registry.HandOver

/-!
What every reachable system still owes. Each woken token, published operation, coordination and
Pending Remove is either settled or some thread has the instruction that will settle it.
-/
namespace FlaskXxlJob.Registry
open FlaskXxlJob.Client Interleaving

variable {cfg : Config}

/-! ### Actor associations -/

/-- No operation is associated with a new actor. -/
def KeepsActors (s s' : State) : Prop :=
  ∀ o d, (s'.operations o).thread = some d → (s.operations o).thread = some d

namespace KeepsActors
variable {s s' s'' : State}

theorem of_eq (h : s'.operations = s.operations) : KeepsActors s s' := by
  intro o d hd
  rwa [h] at hd

theorem trans (h : KeepsActors s s') (h' : KeepsActors s' s'') : KeepsActors s s'' :=
  fun o d hd => h o d (h' o d hd)

theorem updateOperation (o : ℕ) {f : RemoveOperation → RemoveOperation}
    (hf : ∀ op d, (f op).thread = some d → op.thread = some d) :
    KeepsActors s (s.updateOperation o f) := by
  intro o' d hd
  by_cases ho : o' = o
  · subst ho
    exact hf _ d (by simpa [State.updateOperation] using hd)
  · simpa [State.updateOperation,ho] using hd

theorem createPending (g : ℕ) : KeepsActors s (createPending s g) := by
  intro o d hd
  by_cases ho : o = s.nextOperation <;> simp_all [Registry.createPending]

theorem publishActive (g : ℕ) : KeepsActors s (publishActive s g) := by
  intro o d hd
  by_cases ho : o = s.nextOperation <;> simp_all [Registry.publishActive]

theorem reconciled {k : ℕ} {p : State × Option ℕ} (h : Reconciled s k p) : KeepsActors s p.1 := by
  cases h with
  | waiting | covered | dropped | marked => exact of_eq rfl
  | created => exact createPending _

theorem requested {p : State × Option ℕ} (h : Requested s p) : KeepsActors s p.1 := by
  cases h with
  | coordinated k p _ hr =>
    exact (show KeepsActors s (requestCleanup s k) from of_eq rfl).trans (reconciled hr)
  | notOwed | marked => exact of_eq rfl
  | created => exact createPending _

theorem reconcileGeneration (h : CleanupInv s) (g : ℕ) :
    KeepsActors s (reconcileGeneration s g) := by
  unfold Registry.reconcileGeneration
  split
  · split
    · exact reconciled (h.reconcile ‹_›)
    · exact of_eq rfl
  · exact of_eq rfl

theorem release (h : CleanupInv s) (k : ℕ) : KeepsActors s (releaseCoordination s k).1 := by
  rw [releaseCoordination_eq]
  split
  · exact (show KeepsActors s (leaveCoordination s k) from of_eq rfl).trans
      (reconciled ((h.leaveCoordination k).reconcile ‹_›))
  · exact of_eq rfl

theorem complete (cfg : Config) (now : String) (h : CleanupInv s) {o : ℕ}
    (ho : s.activeRemove = some o) (r : CallResult) (q : ℕ) :
    KeepsActors s (completeRemoveOperation cfg now s o r q).1 := by
  have hs : KeepsActors s (storeResult s o (cfg.safeResult r)) :=
    updateOperation o fun _ _ => id
  have hc := h.storeResult o (cfg.safeResult r)
  rcases h.completeRemove_cases cfg now ho r q with ⟨-,he⟩ | ⟨-,-,he⟩ | ⟨-,hr,hg,hw,he⟩
  all_goals rw [he]
  · exact hs.trans ((of_eq rfl).trans (reconcileGeneration hc.dropActive _))
  · exact hs.trans ((of_eq rfl).trans
      (reconcileGeneration (hc.applyResult r q .remove).dropActive _))
  · exact hs.trans ((of_eq rfl).trans (reconcileGeneration (h.satisfied hr q hg hw) _))

theorem failActorStart (cfg : Config) (now : String) (h : CleanupInv s) (o t : ℕ) (e : String) :
    KeepsActors s (failActorStart cfg now (associateActor s o t) o t e) := by
  have hc : CleanupInv (recordResultLocked cfg now (abandonOperation (associateActor s o t) o t
      (cfg.safeResult (startFailure e))) (startFailure e) .local) :=
    ((h.associateActor o t).abandonOperation o t _).of_eq rfl rfl fun _ => id
  refine KeepsActors.trans (fun o' d hd => ?_) (reconcileGeneration hc _)
  by_cases ho : o' = o
  · subst ho
    simp [abandonOperation,State.updateOperation,recordResultLocked] at hd
  · unfold associateActor at hd
    cases hth : (s.operations o).thread <;>
      simpa [abandonOperation,State.updateOperation,recordResultLocked,ho,hth] using hd

end KeepsActors

/-- Only a scheduler associates an operation with an actor: the one it starts. -/
theorem effect_actors (cfg : Config) {s : State} (h : Rep s) (alive : ℕ → Bool) (t fresh : ℕ)
    (ch : Choice) {i : Instr} (hi : i.Owned s) :
    KeepsActors s (effect cfg alive t fresh ch s i).state ∨
    ∃ o, (effect cfg alive t fresh ch s i).state = associateActor s o fresh ∧
      (effect cfg alive t fresh ch s i).spawn = some [.runCleanupActor o] := by
  have hc := h.cleanup
  cases hm : i.movesCleanup with
  | false => exact Or.inl (.of_eq (by rw [effect_toCleanup cfg alive t fresh ch hm]))
  | true =>
    cases i with
    | activatePreparedStart p =>
      left
      simp only [effect]
      rcases activatePreparedStart_cases t h.lifecycle p with ⟨-,he⟩ | ⟨-,-,he⟩ <;> rw [he]
      · exact .of_eq rfl
      · exact .of_eq (by simp [publishWorker])
    | stop remove =>
      cases remove with
      | false => simp [Instr.movesCleanup] at hm
      | true =>
        have hs : (stopLocalLocked (dropPrepared s)).toCleanup = s.toCleanup := by simp
        have hr := hc.of_eq hs (by simp) (by simp)
        exact Or.inl ((KeepsActors.of_eq (by simp)).trans
          (.requested (hr.requestOutcome (by simp))))
    | shutdown deregister => exact Or.inl (.of_eq (by simp [effect,shutdown]))
    | shutdownRequest g =>
      left
      simp only [effect,shutdownRequest]
      split
      · exact .requested (hc.requestOutcome (hi.2 (Eq.symm ‹_›)))
      · exact .of_eq rfl
    | joinRegister => exact Or.inl (.of_eq (by simp [effect,joinRegister]))
    | commit call q r =>
      left
      cases call with
      | register k g =>
        cases k with
        | none => exact .of_eq (by simp [effect,commitRpc,commitRegister])
        | some k =>
          exact (KeepsActors.of_eq (by simp)).trans
            (.release (hc.acceptOneShot cfg ch.now r q false (some g) (some k)) k)
      | remove | worker => exact .of_eq (by simp [effect,commitRpc,commitRemove,commitWorker])
      | active o => exact .complete cfg ch.now hc hi r q
    | finishWorker c =>
      left
      simp only [effect]
      rcases finishWorker_cases s t c with ⟨o,-,-,-,he⟩ | ⟨-,he⟩ <;> rw [he] <;>
        exact .of_eq (by simp)
    | terminalRemove g =>
      left
      simp only [effect,terminalRemove]
      split
      case h_7 => exact .publishActive g
      all_goals exact .of_eq rfl
    | schedulePendingRemove caller =>
      simp only [effect]
      rcases schedulePendingRemove_cases cfg ch.now s t fresh alive caller ch.startError with
        ⟨-,he⟩ | ⟨o,-,-,he⟩ | ⟨o,e,-,-,he⟩ <;> rw [he]
      · exact Or.inl (.of_eq rfl)
      · exact Or.inr ⟨o,rfl,rfl⟩
      · exact Or.inl (.failActorStart cfg ch.now hc o fresh e)
    | runCleanupActor o =>
      left
      simp only [effect]
      rcases runCleanupActor_cases s o with ⟨-,-,he⟩ | ⟨-,he⟩ <;> rw [he] <;>
        exact .of_eq rfl
    | finishCleanupActor o =>
      refine Or.inl (KeepsActors.trans (.of_eq rfl) (.updateOperation o fun op d hd => ?_))
      split at hd
      · cases hd
      · exact hd
    | setOperationDone o => exact Or.inl (.updateOperation o fun _ _ => id)
    | setCoordinationDone k => exact Or.inl (.of_eq rfl)
    | _ => simp [Instr.movesCleanup] at hm

/-! ### What is owed -/

/-- A published operation is done or still in a Remove slot. -/
def Tracked (s : State) (o : ℕ) : Prop :=
  (s.operations o).doneEvent = true ∨ s.pendingRemove = some o ∨ s.activeRemove = some o

def Instr.schedules : Instr → Bool
  | .schedulePendingRemove _ => true
  | _ => false

structure Obliged (s : System) : Prop where
  tokens : ∀ p < s.shared.nextPrepared, Woken s.shared p ∨ s.Somewhere (· = .setActivate p)
  operations : ∀ o < s.shared.nextOperation,
    Tracked s.shared o ∨ s.Somewhere (· = .setOperationDone o)
  coordinations : ∀ k < s.shared.nextCoordination,
    Accounted s.shared k ∨ s.Somewhere (· = .setCoordinationDone k)
  pending : ∀ o, s.shared.pendingRemove = some o →
    Attended s.shared o ∨ s.Somewhere fun i => i.schedules = true
  actors : ∀ o d, (s.shared.operations o).thread = some d →
    .runCleanupActor o ∈ s.code d ∨ .finishCleanupActor o ∈ s.code d

namespace Obliged
variable {s : System} {t : ℕ} {i : Instr} {rest : List Instr} {ch : Choice}

theorem blank : Obliged .blank where
  tokens p hp := absurd hp (Nat.not_lt_zero p)
  operations o ho := absurd ho (Nat.not_lt_zero o)
  coordinations k hk := absurd hk (Nat.not_lt_zero k)
  pending o ho := by simp [System.blank,State.blank] at ho
  actors o d hd := by simp [System.blank,State.blank] at hd

theorem called (h : Obliged s) (hs : s.Named) (c : Call) : Obliged (s.called cfg c) where
  tokens p hp := (h.tokens p hp).imp_right fun ho => ho.start hs c
  operations o ho := (h.operations o ho).imp_right fun ho => ho.start hs c
  coordinations k hk := (h.coordinations k hk).imp_right fun ho => ho.start hs c
  pending o ho := (h.pending o ho).imp_right fun ho => ho.start hs c
  actors o d hd := (h.actors o d hd).imp (Machine.mem_start hs) (Machine.mem_start hs)

section After
variable (h : Obliged s) (hinv : Invariant s) (hc : s.code t = i :: rest)
include h hinv hc

theorem tokens_step {p : ℕ} (hp : p < (s.after cfg t i rest ch).shared.nextPrepared) :
    Woken (s.after cfg t i rest ch).shared p ∨
      (s.after cfg t i rest ch).Somewhere (· = .setActivate p) := by
  have ht : t < s.next := hinv.named.lt (by simp [hc])
  by_cases hs : p < s.shared.nextPrepared ∧ s.Somewhere (· = .setActivate p)
  · by_cases hi : i = .setActivate p
    · subst hi
      exact Or.inl (Or.inr (by simp [effect,State.updatePrepared]))
    · exact Or.inr (hs.2.advance hinv.named hc hi)
  · have hw : p < s.shared.nextPrepared → Woken s.shared p := fun hlt =>
      (h.tokens p hlt).resolve_right fun hn => hs ⟨hlt,hn⟩
    rcases effect_woken cfg hinv.rep.lifecycle s.alive t s.next ch hp hw with hw | hpush
    · exact Or.inl hw
    · exact Or.inr (.pushed ht hpush rfl)

theorem operations_step {o : ℕ} (ho : o < (s.after cfg t i rest ch).shared.nextOperation) :
    Tracked (s.after cfg t i rest ch).shared o ∨
      (s.after cfg t i rest ch).Somewhere (· = .setOperationDone o) := by
  have ht : t < s.next := hinv.named.lt (by simp [hc])
  have hi : i.Owned s.shared := hinv.owned (t := t) (by simp [hc])
  have hh := effect_hands cfg hinv.rep s.alive t s.next ch hi
  have hg := effect_cleanup_grows cfg hinv.rep s.alive t s.next ch hi
  have hplace : ((effect cfg s.alive t s.next ch s.shared i).state.pendingRemove = some o ∨
      (effect cfg s.alive t s.next ch s.shared i).state.activeRemove = some o ∨
      .setOperationDone o ∈ (effect cfg s.alive t s.next ch s.shared i).push) →
      Tracked (s.after cfg t i rest ch).shared o ∨
        (s.after cfg t i rest ch).Somewhere (· = .setOperationDone o) := by
    rintro (hp | ha | hpush)
    · exact Or.inl (Or.inr (Or.inl hp))
    · exact Or.inl (Or.inr (Or.inr ha))
    · exact Or.inr (.pushed ht hpush rfl)
  rcases Nat.lt_or_ge o s.shared.nextOperation with hlt | hge
  · rcases h.operations o hlt with (hd | hs) | hsome
    · exact Or.inl (Or.inl ((hg.operation o hlt).2 hd))
    · exact hplace (hh.slots o hs)
    · by_cases hio : i = .setOperationDone o
      · subst hio
        exact Or.inl (Or.inl (by simp [effect,State.updateOperation]))
      · exact Or.inr (hsome.advance hinv.named hc hio)
  · exact hplace (hh.fresh o hge ho)

theorem coordinations_step {k : ℕ}
    (hk : k < (s.after cfg t i rest ch).shared.nextCoordination) :
    Accounted (s.after cfg t i rest ch).shared k ∨
      (s.after cfg t i rest ch).Somewhere (· = .setCoordinationDone k) := by
  have ht : t < s.next := hinv.named.lt (by simp [hc])
  by_cases hs : k < s.shared.nextCoordination ∧ s.Somewhere (· = .setCoordinationDone k)
  · by_cases hi : i = .setCoordinationDone k
    · subst hi
      exact Or.inl (Or.inl (by simp [effect,State.updateCoordination]))
    · exact Or.inr (hs.2.advance hinv.named hc hi)
  · have hw : k < s.shared.nextCoordination → Accounted s.shared k := fun hlt =>
      (h.coordinations k hlt).resolve_right fun hn => hs ⟨hlt,hn⟩
    rcases effect_accounted cfg hinv.rep s.alive t s.next ch hk hw with hw | hpush
    · exact Or.inl hw
    · exact Or.inr (.pushed ht hpush rfl)

theorem pending_step {o : ℕ} (ho : (s.after cfg t i rest ch).shared.pendingRemove = some o) :
    Attended (s.after cfg t i rest ch).shared o ∨
      (s.after cfg t i rest ch).Somewhere fun j => j.schedules = true := by
  have ht : t < s.next := hinv.named.lt (by simp [hc])
  have hi : i.Owned s.shared := hinv.owned (t := t) (by simp [hc])
  rcases effect_pending cfg hinv.rep s.alive t s.next ch hi ho with
    ⟨caller,hpush⟩ | ha | ⟨hno,hl⟩
  · exact Or.inr (.pushed ht hpush rfl)
  · exact Or.inl ha
  · rcases h.pending o hl.pending with ha | hsome
    · exact Or.inl (hl.attended ha)
    · refine Or.inr (hsome.advance hinv.named hc ?_)
      cases i with
      | schedulePendingRemove caller => exact absurd rfl (hno caller)
      | _ => simp [Instr.schedules]

theorem actors_step {o d : ℕ}
    (hd : ((s.after cfg t i rest ch).shared.operations o).thread = some d) :
    .runCleanupActor o ∈ (s.after cfg t i rest ch).code d ∨
      .finishCleanupActor o ∈ (s.after cfg t i rest ch).code d := by
  have ht : t < s.next := hinv.named.lt (by simp [hc])
  have hi : i.Owned s.shared := hinv.owned (t := t) (by simp [hc])
  have hold : (s.shared.operations o).thread = some d →
      .runCleanupActor o ∈ (s.after cfg t i rest ch).code d ∨
      .finishCleanupActor o ∈ (s.after cfg t i rest ch).code d := by
    intro hold
    have hkeep : ∀ j ∈ s.code d, (d = t → j ≠ i) → j ∈ (s.after cfg t i rest ch).code d := by
      intro j hj hne
      refine Sys.mem_advance hinv.named hc hj fun hdt => ?_
      subst hdt
      rw [hc] at hj
      exact (List.mem_cons.mp hj).resolve_left (hne rfl)
    rcases h.actors o d hold with hr | hf
    · by_cases hdt : d = t ∧ Instr.runCleanupActor o = i
      · obtain ⟨rfl,rfl⟩ := hdt
        right
        rw [Sys.advance_code_self ht]
        simp only [effect]
        rcases runCleanupActor_cases s.shared o with ⟨-,-,he⟩ | ⟨-,he⟩ <;> rw [he] <;> simp
      · exact Or.inl (hkeep _ hr fun hdt' he => hdt ⟨hdt',he⟩)
    · by_cases hdt : d = t ∧ Instr.finishCleanupActor o = i
      · obtain ⟨rfl,rfl⟩ := hdt
        simp [effect,releaseActor,State.updateOperation,hold] at hd
      · exact Or.inr (hkeep _ hf fun hdt' he => hdt ⟨hdt',he⟩)
  rcases effect_actors cfg hinv.rep s.alive t s.next ch hi with hk | ⟨x,hst,hsp⟩
  · exact hold (hk o d hd)
  · by_cases hx : o = x
    · subst hx
      have hth : ((associateActor s.shared o s.next).operations o).thread = some s.next := by
        simp [associateActor,State.updateOperation]
      rw [Sys.advance_shared,hst,hth] at hd
      obtain rfl := Option.some.inj hd
      left
      rw [Sys.advance_code_spawn hsp]
      simp
    · apply hold
      rw [Sys.advance_shared,hst] at hd
      unfold associateActor at hd
      cases hth : (s.shared.operations x).thread <;>
        simpa [State.updateOperation,hx,hth] using hd

end After
end Obliged

theorem Reachable.obliged {s : System} (h : Reachable cfg s) : Obliged s :=
  h.induct .blank (fun _ c hinv ho => ho.called hinv.named c) fun _ _ _ _ _ hinv ho hc _ =>
    ⟨fun _ => ho.tokens_step hinv hc,fun _ => ho.operations_step hinv hc,
      fun _ => ho.coordinations_step hinv hc,fun _ => ho.pending_step hinv hc,
      fun _ _ => ho.actors_step hinv hc⟩

end FlaskXxlJob.Registry
