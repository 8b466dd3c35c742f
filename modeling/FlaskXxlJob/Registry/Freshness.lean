import FlaskXxlJob.Registry.Coverage
import FlaskXxlJob.Registry.Disclosure
import FlaskXxlJob.Registry.PreparedStart
import FlaskXxlJob.Registry.Reopening

/-!
How fresh a success of `remove_executor` is. A successful Remove was sent after every register of
the generation that had succeeded before the call, unless one of them has left an older cached
success in place or has overtaken an Active Remove that is still to be completed.
-/
namespace FlaskXxlJob.Registry
open FlaskXxlJob.Client Interleaving

variable {cfg : Config}

/-! ### Results of operations -/

section Results
variable {now : String} {s : State} {o o' : ℕ} {r : CallResult}

theorem CleanupInv.result_reconcileGeneration (h : CleanupInv s) (g : ℕ)
    (hr : ((Registry.reconcileGeneration s g).operations o).result = some r) :
    (s.operations o).result = some r :=
  ((h.retains_reconcileGeneration (P := fun _ => False) g).operation o r hr).resolve_right id

/-- A completion stores its result in its own operation. -/
theorem CleanupInv.result_complete (h : CleanupInv s) (ho : s.activeRemove = some o')
    (hne : o ≠ o') {q : ℕ} {r' : CallResult}
    (hr : ((Registry.completeRemoveOperation cfg now s o' r' q).1.operations o).result = some r) :
    (s.operations o).result = some r := by
  have hc := h.storeResult o' (cfg.safeResult r')
  have hstore : ((Registry.storeResult s o' (cfg.safeResult r')).operations o).result =
      (s.operations o).result := by simp [Registry.storeResult,State.updateOperation,hne]
  rcases h.completeRemove_cases cfg now ho r' q with ⟨-,he⟩ | ⟨-,-,he⟩ | ⟨-,hs,hg,hw,he⟩
  all_goals rw [he] at hr
  · have := hc.dropActive.result_reconcileGeneration _ hr
    exact hstore.symm.trans this
  · have := (hc.applyResult r' q .remove).dropActive.result_reconcileGeneration _ hr
    exact hstore.symm.trans this
  · have := (h.satisfied hs q hg hw).result_reconcileGeneration _ hr
    exact hstore.symm.trans this

/-- A failed start stores its result in the operation that it gives up. -/
theorem CleanupInv.result_failActorStart (h : CleanupInv s) {t : ℕ} {e : String} (hne : o ≠ o')
    (hr : ((Registry.failActorStart cfg now s o' t e).operations o).result = some r) :
    (s.operations o).result = some r := by
  have hc : CleanupInv (recordResultLocked cfg now
      (Registry.abandonOperation s o' t (cfg.safeResult (startFailure e))) (startFailure e)
      .local) := (h.abandonOperation o' t _).of_eq rfl rfl fun _ => id
  have := hc.result_reconcileGeneration _ hr
  simpa [Registry.abandonOperation,State.updateOperation,recordResultLocked,hne] using this

/-- A new result belongs to an operation that has left its slots, and a new success to the Active
Remove that has just ended. -/
theorem effect_result (cfg : Config) (h : Rep s) (alive : ℕ → Bool) (t fresh : ℕ) (ch : Choice)
    {i : Instr} (hi : i.Owned s)
    (hr : ((effect cfg alive t fresh ch s i).state.operations o).result = some r) :
    (s.operations o).result = some r ∨ Abandoned (effect cfg alive t fresh ch s i).state o ∧
      (r.success = true → ∃ q r', i = .commit (.active o) q r' ∧ r'.success = true) := by
  have hc := h.cleanup
  -- whether threads start matters to the scheduler only
  have hkeep : (∀ o' q r', i ≠ .commit (.active o') q r') →
      (effect cfg alive t fresh { ch with startError := none } s i).state.toCleanup =
        (effect cfg alive t fresh ch s i).state.toCleanup → (s.operations o).result = some r := by
    intro hi' hsame
    have hstores : i.Stores cfg (fun _ => False) { ch with startError := none } :=
      ⟨fun o' q r' he => absurd he (hi' o' q r'),fun e he => by cases he⟩
    have hretains := effect_retains cfg h alive t fresh _ hi hstores
    rw [hsame] at hretains
    exact (hretains.operation o r hr).resolve_right id
  cases i with
  | commit call q r' =>
    cases call with
    | active o' =>
      simp only [effect,commitRpc,commitActive] at hr ⊢
      by_cases hne : o = o'
      · subst hne
        have hstored := (retains_complete (P := fun x => x.success = true → r'.success = true)
          cfg ch.now hc hi id id q).operation o r hr
        exact hstored.imp id fun hs => ⟨hc.complete_abandons hi r' q,fun hx => ⟨q,r',rfl,hs hx⟩⟩
      · exact Or.inl (hc.result_complete hi hne hr)
    | _ => exact Or.inl (hkeep (by simp) rfl)
  | schedulePendingRemove caller =>
    simp only [effect] at hr ⊢
    rcases schedulePendingRemove_cases cfg ch.now s t fresh alive caller ch.startError with
      ⟨-,he⟩ | ⟨o',-,-,he⟩ | ⟨o',e,ho,-,he⟩ <;> rw [he] at hr ⊢
    · exact Or.inl hr
    · exact Or.inl (by simpa using hr)
    · obtain ⟨hp,ha,-⟩ := schedulable_eq_some ho
      have ha' := hc.associateActor o' fresh
      by_cases hne : o = o'
      · subst hne
        have hstored := (ha'.retains_failActorStart (P := fun x => x.success = false) cfg ch.now o
          fresh (e := e) rfl).operation o r hr
        refine hstored.imp (by simp) fun hs => ⟨?_,fun hx => by simp [hs] at hx⟩
        exact ha'.start_abandons (by simpa using hp) (by simpa using ha) fresh e
      · exact Or.inl (by simpa using ha'.result_failActorStart hne hr)
  | prepareStart activate =>
    rw [effect_toCleanup cfg alive t fresh ch rfl] at hr
    exact Or.inl hr
  | _ => exact Or.inl (hkeep (by simp) rfl)

/-- The cached success stays, is taken back or is that of the Active Remove that has just ended. -/
theorem effect_removedGeneration (cfg : Config) (h : Rep s) (alive : ℕ → Bool) (t fresh : ℕ)
    (ch : Choice) {i : Instr} (hi : i.Owned s) :
    (effect cfg alive t fresh ch s i).state.lastSuccessfullyRemovedGeneration =
      s.lastSuccessfullyRemovedGeneration ∨
    (effect cfg alive t fresh ch s i).state.lastSuccessfullyRemovedGeneration = none ∨
    ∃ o q r, i = .commit (.active o) q r ∧ r.success = true ∧ s.lastAppliedRpcSequence < q := by
  have hc := h.cleanup
  cases i with
  | activatePreparedStart p =>
    simp only [effect]
    rcases activatePreparedStart_cases t h.lifecycle p with ⟨-,he⟩ | ⟨-,-,he⟩ <;> rw [he]
    · exact Or.inl rfl
    · exact Or.inl (by simp [publishWorker])
  | stop remove => exact Or.inl (by cases remove <;> simp [effect,stop,stopSection])
  | shutdown deregister => exact Or.inl (by simp [effect,shutdown])
  | shutdownRequest g =>
    simp only [effect,shutdownRequest]
    split
    · exact Or.inl (by simp)
    · exact Or.inl rfl
  | joinRegister => exact Or.inl (by simp [effect,joinRegister])
  | commit call q r =>
    cases call with
    | register k g =>
      have ha : (acceptOneShot cfg ch.now s r q false (some g) k).lastSuccessfullyRemovedGeneration
          = s.lastSuccessfullyRemovedGeneration ∨ (acceptOneShot cfg ch.now s r q false (some g)
          k).lastSuccessfullyRemovedGeneration = none := by
        rcases acceptOneShot_cases cfg ch.now s r q false (some g) k with
          ⟨-,he⟩ | ⟨-,he⟩ | ⟨-,-,-,-,-,-,he⟩ <;> rw [he]
        · exact Or.inl rfl
        · exact Or.inl rfl
        · exact Or.inr rfl
      cases k with
      | none => exact ha.imp id Or.inl
      | some k =>
        simp only [effect,commitRpc,commitRegister,releaseCoordination_frame]
        exact ha.imp id Or.inl
    | remove =>
      left
      simp only [effect,commitRpc,commitRemove]
      rcases acceptOneShot_cases cfg ch.now s r q true none none with
        ⟨-,he⟩ | ⟨-,he⟩ | ⟨-,hno,-⟩
      · rw [he]
      · rw [he]
        rfl
      · cases hno
    | worker c =>
      left
      simp only [effect,commitRpc,commitWorker]
      rw [h.acceptWorker_eq]
      split <;> rfl
    | active o =>
      simp only [effect,commitRpc,commitActive]
      rcases hc.completeRemove_cases cfg ch.now hi r q with ⟨-,he⟩ | ⟨-,-,he⟩ | ⟨hq,hr,-,-,-⟩
      · left
        rw [he]
        simp [dropActive]
      · left
        rw [he]
        simp [dropActive]
      · exact Or.inr (Or.inr ⟨o,q,r,rfl,hr,hq⟩)
  | finishWorker c =>
    simp only [effect]
    rcases finishWorker_cases s t c with ⟨o,-,-,-,he⟩ | ⟨-,he⟩ <;> rw [he] <;>
      exact Or.inl (by simp)
  | terminalRemove g =>
    simp only [effect,terminalRemove]
    split <;> exact Or.inl rfl
  | schedulePendingRemove caller =>
    simp only [effect]
    rcases schedulePendingRemove_cases cfg ch.now s t fresh alive caller ch.startError with
      ⟨-,he⟩ | ⟨o,-,-,he⟩ | ⟨o,e,-,-,he⟩ <;> rw [he] <;> exact Or.inl (by simp)
  | runCleanupActor o =>
    simp only [effect]
    rcases runCleanupActor_cases s o with ⟨-,-,he⟩ | ⟨-,he⟩ <;> rw [he] <;> exact Or.inl rfl
  | finishCleanupActor o => exact Or.inl (by simp [effect])
  | setOperationDone o | setCoordinationDone k => exact Or.inl rfl
  | _ =>
    left
    rw [effect_toCleanup cfg alive t fresh ch rfl]

end Results

/-! ### Registers and removals -/

/-- The register of generation `g` with the sequence `q` has committed a success. -/
def Registered (s : System) (g q : ℕ) : Prop :=
  ∃ t r, r.success = true ∧
    (.registerReturned t q g r ∈ s.history ∨ .returnRegister q g r ∈ s.code t)

/-- A successful Remove was sent after every register that meets `P`. -/
def Outlived (P : ℕ → Prop) (s : System) : Prop :=
  ∃ x ∈ s.rpcs, x.kind.isRemove = true ∧ x.result.success = true ∧ ∀ q, P q → q < x.sequence

variable {s s' : System} {t : ℕ} {i : Instr} {rest : List Instr} {ch : Choice} {P P' : ℕ → Prop}

theorem Outlived.mono (h : Outlived P s) (hP : ∀ q, P' q → P q) : Outlived P' s := by
  obtain ⟨x,hx,hk,hr,hq⟩ := h
  exact ⟨x,hx,hk,hr,fun q hp => hq q (hP q hp)⟩

/-- Of two Removes the later one outlives both. -/
theorem Outlived.or (h : Outlived P s) (h' : Outlived P' s) :
    Outlived (fun q => P q ∨ P' q) s := by
  obtain ⟨x,hx,hk,hr,hq⟩ := h
  obtain ⟨x',hx',hk',hr',hq'⟩ := h'
  rcases le_total x.sequence x'.sequence with hle | hle
  · exact ⟨x',hx',hk',hr',fun q hp => hp.elim (fun hp => (hq q hp).trans_le hle) (hq' q)⟩
  · exact ⟨x,hx,hk,hr,fun q hp => hp.elim (hq q) fun hp => (hq' q hp).trans_le hle⟩

theorem Outlived.called (h : Outlived P s) (c : Call) : Outlived P (s.called cfg c) := by
  obtain ⟨x,hx,hx'⟩ := h
  refine ⟨x,?_,hx'⟩
  rw [System.rpcs_called]
  exact hx

theorem Outlived.after (h : Outlived P s) : Outlived P (s.after cfg t i rest ch) := by
  obtain ⟨x,hx,hx'⟩ := h
  refine ⟨x,?_,hx'⟩
  rw [System.rpcs_after]
  exact List.mem_append_left _ hx

/-- What a step adds to the stacks. -/
theorem System.mem_after_cases (hn : s.Named) (hc : s.code t = i :: rest) {t' : ℕ} {j : Instr}
    (hj : j ∈ (s.after cfg t i rest ch).code t') : j ∈ s.code t' ∨
    (t' = t ∧ j ∈ (effect cfg s.alive t s.next ch s.shared i).push) ∨
    (t' = s.next ∧ ∃ body, (effect cfg s.alive t s.next ch s.shared i).spawn = some body ∧
      j ∈ body) := by
  rcases Calls.code_cases cfg ch hn hc t' with
    ⟨rfl,he⟩ | ⟨rfl,body,hb,he⟩ | ⟨-,he⟩ <;> rw [he] at hj
  · rcases List.mem_append.mp hj with hj | hj
    · exact Or.inr (Or.inl ⟨rfl,hj⟩)
    · exact Or.inl (by simp [hc,hj])
  · exact Or.inr (Or.inr ⟨rfl,body,hb,hj⟩)
  · exact Or.inl hj

namespace Registered
variable {g q : ℕ}

theorem of_called {c : Call} (h : Registered (s.called cfg c) g q) : Registered s g q := by
  obtain ⟨t,r,hr,hret | hcode⟩ := h
  · rcases List.mem_append.mp hret with hret | hret
    · exact ⟨t,r,hr,Or.inl hret⟩
    · cases List.mem_singleton.mp hret
  · by_cases ht : t = s.next
    · have hmem : .returnRegister q g r ∈ entry cfg c := by
        simpa [Machine.start,machine,ht] using hcode
      cases c <;> simp only [entry] at hmem <;> grind
    · exact ⟨t,r,hr,Or.inr (by simpa [Machine.start,ht] using hcode)⟩

theorem called (h : Registered s g q) (hn : s.Named) (c : Call) :
    Registered (s.called cfg c) g q := by
  obtain ⟨t,r,hr,hret | hcode⟩ := h
  · exact ⟨t,r,hr,Or.inl (List.mem_append_left _ hret)⟩
  · exact ⟨t,r,hr,Or.inr (Machine.mem_start hn hcode)⟩

section After
variable (hn : s.Named) (hc : s.code t = i :: rest)
include hn hc

theorem after (h : Registered s g q) : Registered (s.after cfg t i rest ch) g q := by
  obtain ⟨t',r,hr,hret | hcode⟩ := h
  · exact ⟨t',r,hr,Or.inl (List.mem_append_left _ hret)⟩
  · rcases Sys.mem_code_cases hc hcode with ⟨rfl,rfl⟩ | hrest
    · exact ⟨t',r,hr,Or.inl (List.mem_append_right _ List.mem_cons_self)⟩
    · exact ⟨t',r,hr,Or.inr (Sys.mem_advance hn hc hcode hrest)⟩

theorem of_after (h : Registered (s.after cfg t i rest ch) g q) : Registered s g q ∨
    ∃ k r, i = .commit (.register k g) q r ∧ r.success = true := by
  obtain ⟨t',r,hr,hret | hcode⟩ := h
  · rcases List.mem_append.mp hret with hret | hret
    · exact Or.inl ⟨t',r,hr,Or.inl hret⟩
    · have hemits := effect_event_emits cfg s.shared s.alive t s.next ch hret
      cases i with
      | returnRegister q' g' r' =>
        obtain ⟨-,rfl,rfl,rfl⟩ : t' = t ∧ q = q' ∧ g = g' ∧ r = r' := by
          simpa [Instr.Emits] using hemits
        exact Or.inl ⟨t,r,hr,Or.inr (by simp [hc])⟩
      | _ => simp [Instr.Emits,Event.OfPending] at hemits
  · rcases System.mem_after_cases hn hc hcode with hold | ⟨-,hj⟩ | ⟨-,body,hb,hj⟩
    · exact Or.inl ⟨t',r,hr,Or.inr hold⟩
    · right
      have hnext := effect_push_next cfg s.shared s.alive t s.next ch hj
      cases i with
      | commit call q' r' =>
        cases call with
        | register k g' =>
          obtain ⟨rfl,rfl,rfl⟩ : q = q' ∧ g = g' ∧ r = r' := by simpa [Instr.Next] using hnext
          exact ⟨k,r,rfl,hr⟩
        | _ => simp [Instr.Next] at hnext
      | schedulePendingRemove caller =>
        cases caller <;> simp [Instr.Next,Scheduler.returned,Scheduler.failed] at hnext
      | _ => simp [Instr.Next] at hnext
    · rcases effect_spawn_plain cfg _ _ _ _ hb hj with ⟨p,he⟩ | ⟨p,he⟩ | ⟨o,he⟩ <;> cases he

end After
end Registered

theorem applied_after (hinv : Invariant s) (hc : s.code t = i :: rest) :
    s.shared.lastAppliedRpcSequence ≤ (s.after cfg t i rest ch).shared.lastAppliedRpcSequence := by
  have hi : i.Owned s.shared := hinv.owned (t := t) (by simp [hc])
  rw [Sys.advance_shared]
  rcases effect_lastApplied cfg s.shared s.alive t s.next ch hinv.rep hi with
    he | ⟨call,q,r,-,hlt,-,he⟩ <;> omega

/-- A register that has committed has been applied or overtaken. -/
theorem Reachable.registered_le (h : Reachable cfg s) {g q : ℕ} (hq : Registered s g q) :
    q ≤ s.shared.lastAppliedRpcSequence := by
  have hall : ∀ g q, Registered s g q → q ≤ s.shared.lastAppliedRpcSequence := by
    apply h.induct
    · rintro g q ⟨t,r,-,hret | hcode⟩
      · cases hret
      · cases hcode
    · intro s c _ hs g q hq
      exact hs g q hq.of_called
    · intro s t i rest ch hinv hs hc _ g q hq
      rcases hq.of_after hinv.named hc with hold | ⟨k,r,rfl,-⟩
      · exact (hs g q hold).trans (applied_after hinv hc)
      · exact effect_applied_register cfg s.alive t s.next ch k g q r
  exact hall g q hq

/-- The result of an operation is stored when it has left its slots. -/
theorem Reachable.abandoned (h : Reachable cfg s) {o : ℕ} {r : CallResult}
    (hr : (s.shared.operations o).result = some r) : Abandoned s.shared o := by
  have hall : ∀ o r, (s.shared.operations o).result = some r → Abandoned s.shared o := by
    apply h.induct
    · intro o r hr
      simp [System.blank,State.blank] at hr
    · exact fun s c _ hs => hs
    · intro s t i rest ch hinv hs hc _ o r hr
      have hi : i.Owned s.shared := hinv.owned (t := t) (by simp [hc])
      rcases effect_result cfg hinv.rep s.alive t s.next ch hi hr with hold | ⟨hleft,-⟩
      · exact (hs o r hold).grows (effect_cleanup_grows cfg hinv.rep s.alive t s.next ch hi)
      · exact hleft
  exact hall o r hr

/-! ### Cached successes -/

/-- A successful register leaves the cached success of its generation in place, and no Remove has
succeeded after it. It has no coordination, a detached one, or an overtaken sequence. -/
def Instr.leavesCached (s : System) : Instr → Bool
  | .commit (.register k g) q r => r.success && s.shared.generation = g &&
      s.shared.lastSuccessfullyRemovedGeneration = some g &&
      (k.isNone || s.shared.registerCoordination ≠ k || q ≤ s.shared.lastAppliedRpcSequence) &&
      s.rpcs.all fun x => !(x.kind.isRemove && x.result.success && q < x.sequence)
  | _ => false

variable (cfg t ch) in
/-- A register takes back the cached success of its generation unless a later Remove succeeded. -/
theorem register_takes_back (h : Rep s.shared) {k : Option ℕ} {q : ℕ} {r : CallResult}
    (hr : r.success = true)
    (hcached : s.shared.lastSuccessfullyRemovedGeneration = some s.shared.generation)
    (hi : (Instr.commit (.register k s.shared.generation) q r).leavesCached s = false) :
    (effect cfg s.alive t s.next ch s.shared (.commit (.register k s.shared.generation) q
      r)).state.lastSuccessfullyRemovedGeneration = none ∨ Outlived (fun q' => q' = q) s := by
  by_cases hlater : ∃ x ∈ s.rpcs, x.kind.isRemove = true ∧ x.result.success = true ∧ q < x.sequence
  · obtain ⟨x,hx,hk,hs,hq⟩ := hlater
    exact Or.inr ⟨x,hx,hk,hs,by rintro q' rfl; exact hq⟩
  · left
    obtain ⟨k,rfl,hk,hq⟩ : ∃ k', k = some k' ∧ s.shared.registerCoordination = some k' ∧
        s.shared.lastAppliedRpcSequence < q := by
      have hall : (s.rpcs.all fun x =>
          !(x.kind.isRemove && x.result.success && q < x.sequence)) = true := by
        rw [List.all_eq_true]
        intro x hx
        by_contra hne
        exact hlater ⟨x,hx,by simpa [and_assoc] using hne⟩
      simp only [Instr.leavesCached,hr,hcached,hall] at hi
      cases k with
      | none => simp at hi
      | some k => exact ⟨k,rfl,by simpa using hi⟩
    simp only [effect,commitRpc,commitRegister,releaseCoordination_frame]
    rw [acceptOneShot_current cfg ch.now h hk hr hq,if_pos (Or.inl hcached)]
    rfl

/-- A cached success is that of a Remove later than every register of its generation. -/
def CacheFresh (s : System) : Prop :=
  s.shared.lastSuccessfullyRemovedGeneration = some s.shared.generation →
    Outlived (Registered s s.shared.generation) s

theorem CacheFresh.after (hf : CacheFresh s) (h : Reachable cfg s) (hc : s.code t = i :: rest)
    (hg : i.leavesCached s = false) : CacheFresh (s.after cfg t i rest ch) := by
  intro hcached
  have hinv := h.invariant
  have hi : i.Owned s.shared := hinv.owned (t := t) (by simp [hc])
  have hgrow := effect_lifecycle_grows cfg hinv.rep.lifecycle s.alive t s.next ch i
  rcases effect_removedGeneration cfg hinv.rep s.alive t s.next ch hi with
    he | he | ⟨o,q,r,hio,hr,hq⟩
  · have hold : s.shared.lastSuccessfullyRemovedGeneration =
        some (s.after cfg t i rest ch).shared.generation := he.symm.trans hcached
    have hgen : (s.after cfg t i rest ch).shared.generation = s.shared.generation :=
      le_antisymm (hinv.rep.cleanup.removed _ hold).1 hgrow.generation
    rw [hgen] at hold ⊢
    by_cases hreg : ∃ k q r, i = .commit (.register k s.shared.generation) q r ∧ r.success = true
    · obtain ⟨k,q,r,rfl,hr⟩ := hreg
      rcases register_takes_back cfg t ch hinv.rep hr hold hg with
        hnone | hlater
      · exact absurd (hnone.symm.trans hcached) (by simp)
      · refine ((hf hold).or hlater).after.mono fun q' hq' => ?_
        refine (hq'.of_after hinv.named hc).imp id ?_
        rintro ⟨k',r',he',-⟩
        cases he'
        rfl
    · refine (hf hold).after.mono fun q hq => (hq.of_after hinv.named hc).resolve_right ?_
      rintro ⟨k,r,he',hr⟩
      exact hreg ⟨k,q,r,he',hr⟩
  · exact absurd (he.symm.trans hcached) (by simp)
  · subst hio
    have hissued := h.status.commits t (.commit (.active o) q r) (by simp [hc])
    have hout : Outlived (Registered s (s.after cfg t (.commit (.active o) q r) rest
        ch).shared.generation) s :=
      ⟨_,hissued,rfl,hr,fun q' hq' => (h.registered_le hq').trans_lt hq⟩
    refine hout.after.mono fun q' hq' => (hq'.of_after hinv.named hc).resolve_right ?_
    rintro ⟨k,r',he',-⟩
    cases he'

/-- The operation whose result the instruction will return. -/
def Instr.observed : Instr → Option ℕ
  | .operationResult o | .pendingResult o _ | .schedulePendingRemove (.observer o _) => some o
  | _ => none

/-- A success on its way to the caller of `remove_executor`. -/
def Instr.reports : Instr → Bool
  | .commit .remove _ r | .returnRemove r => r.success
  | _ => false

/-- An operation that has not succeeded. -/
def Fruitless (s : State) (o : ℕ) : Prop :=
  o < s.nextOperation ∧ ∀ r, (s.operations o).result = some r → r.success = false

/-- An operation that is still in its slot has no result. -/
theorem Reachable.fruitless (h : Reachable cfg s) {o : ℕ}
    (ho : s.shared.activeRemove = some o ∨ s.shared.pendingRemove = some o) :
    Fruitless s.shared o := by
  have hc := h.invariant.rep.cleanup
  constructor
  · rcases ho with ha | hp
    · exact (hc.active o ha).1
    · exact (hc.pending o hp).2.1
  · intro r hr
    obtain ⟨-,hp',ha'⟩ := h.abandoned hr
    exact absurd ho (by simp [ha',hp'])

theorem Fruitless.observedResult {s : State} {o : ℕ} (h : Fruitless s o) {r : CallResult}
    (hr : cfg.observedResult s o = some r) : r.success = false := by
  obtain ⟨r',hr',rfl⟩ := Option.map_eq_some_iff.mp hr
  exact h.2 r' hr'

/-- The instruction has no success to report yet. -/
structure Instr.Unanswered (s : State) (i : Instr) : Prop where
  silent : i.reports = false
  observed : ∀ o, i.observed = some o → Fruitless s o

theorem Instr.unanswered_of_not {s : State} (hr : i.reports = false) (ho : i.observed = none) :
    i.Unanswered s :=
  ⟨hr,fun o h => by simp [ho] at h⟩

theorem Instr.of_answers_next {j : Instr} (hn : i.Next j)
    (hj : j.reports = true ∨ j.observed ≠ none) :
    (∃ q r, i = .commit .remove q r) ∨ i = .rpc .remove ∨ (∃ g, i = .terminalRemove g) ∨
      (∃ o, i = .operationResult o) ∨ (∃ o g, i = .pendingResult o g) ∨
      ∃ o g, i = .schedulePendingRemove (.observer o g) := by
  cases i with
  | schedulePendingRemove caller =>
    cases caller <;> simp [Next,Scheduler.returned,Scheduler.failed] at hn <;>
      grind [reports,observed]
  | commit call q r => cases call <;> simp only [Next] at hn <;> grind [reports,observed]
  | network call => cases call <;> simp only [Next] at hn <;> grind [reports,observed]
  | rpc call =>
    obtain ⟨q,r,rfl⟩ := hn
    cases call <;> simp_all [reports,observed]
  | _ => simp only [Next] at hn <;> grind [reports,observed]

/-- Every Active Remove that has succeeded and is still to be completed outlives `P`. -/
def ActivesLater (P : ℕ → Prop) (s : System) : Prop :=
  ∀ t o q r, .commit (.active o) q r ∈ s.code t → r.success = true → ∀ q', P q' → q' < q

theorem ActivesLater.outlived (ha : ActivesLater P s) (h : Reachable cfg s)
    (hc : s.code t = i :: rest) {o q : ℕ} {r : CallResult} (hi : i = .commit (.active o) q r)
    (hr : r.success = true) : Outlived P s := by
  have hmem : .commit (.active o) q r ∈ s.code t := by simp [hc,hi]
  exact ⟨_,h.status.commits t _ hmem,rfl,hr,ha t o q r hmem hr⟩

/-- What `remove_executor` has told its caller on thread `u` so far: no success. -/
structure Unreported (u : ℕ) (s : System) : Prop where
  code : ∀ i ∈ s.code u, i.Unanswered s.shared
  returned : ∀ r, .removeReturned u r ∈ s.history → r.success = false

section Step
variable (h : Reachable cfg s) (hP : ∀ q, P q → q ≤ s.shared.rpcSequence)
  (ha : ActivesLater P s)
  (hcache : s.shared.lastSuccessfullyRemovedGeneration = some s.shared.generation → Outlived P s)
  (hno : ¬ Outlived P (s.after cfg t i rest ch))

include h hcache hno in
/-- A caller in the terminal state returns a cached success or observes an operation that has no
result yet. -/
theorem unanswered_terminal {g : ℕ} (hi : i = .terminalRemove g) {j : Instr}
    (hj : j ∈ (terminalRemove cfg s.shared g).push) :
    j.Unanswered (s.after cfg t i rest ch).shared := by
  have hsame : (s.after cfg t i rest ch).shared = (terminalRemove cfg s.shared g).state := by
    rw [hi]
    rfl
  rw [hsame]
  have hsaw := terminalView_saw (s := s.shared) g
  unfold terminalRemove at hj ⊢
  cases hv : terminalView s.shared g with
  | oneShot | registers k | otherOperation o =>
    rw [hv] at hj
    simp only [List.mem_cons,List.not_mem_nil,or_false] at hj
    apply Instr.unanswered_of_not <;> grind [Instr.reports,Instr.observed]
  | cached r =>
    rw [hv] at hsaw
    obtain ⟨hg,hr,-⟩ := hsaw
    exact absurd (hcache (hg.symm ▸ hr)).after hno
  | sameActive o =>
    rw [hv] at hj hsaw
    have ho : Fruitless s.shared o := h.fruitless (Or.inl hsaw.2.1)
    simp only [List.mem_cons,List.not_mem_nil,or_false] at hj
    rcases hj with rfl | rfl
    · exact Instr.unanswered_of_not rfl rfl
    · exact ⟨rfl,fun o' he => Option.some.inj he ▸ ho⟩
  | samePending o =>
    rw [hv] at hj hsaw
    have ho : Fruitless s.shared o := h.fruitless (Or.inr hsaw.2.2.1)
    obtain rfl := List.mem_singleton.mp hj
    exact ⟨rfl,fun o' he => Option.some.inj he ▸ ho⟩
  | own =>
    rw [hv] at hj
    have ho : Fruitless (publishActive s.shared g) s.shared.nextOperation :=
      ⟨Nat.lt_succ_self _,fun r hr => by simp [publishActive] at hr⟩
    simp only [List.mem_cons,List.not_mem_nil,or_false] at hj
    rcases hj with rfl | rfl
    · exact Instr.unanswered_of_not rfl rfl
    · exact ⟨rfl,fun o' he => Option.some.inj he ▸ ho⟩

variable (hc : s.code t = i :: rest)
include h ha hno hc

/-- Only an Active Remove makes an operation succeed. -/
theorem Fruitless.after {o : ℕ} (ho : Fruitless s.shared o) :
    Fruitless (s.after cfg t i rest ch).shared o := by
  have hinv := h.invariant
  have hi : i.Owned s.shared := hinv.owned (t := t) (by simp [hc])
  have hgrow := effect_cleanup_grows cfg hinv.rep s.alive t s.next ch hi
  refine ⟨ho.1.trans_le hgrow.operations,fun r hr => ?_⟩
  rcases effect_result cfg hinv.rep s.alive t s.next ch hi hr with hr | ⟨-,hact⟩
  · exact ho.2 r hr
  · by_contra hs
    obtain ⟨q,r',hio,hr'⟩ := hact (by simpa using hs)
    exact hno (ha.outlived h hc hio hr').after

theorem Instr.Unanswered.after {j : Instr} (hj : j.Unanswered s.shared) :
    j.Unanswered (s.after cfg t i rest ch).shared :=
  ⟨hj.silent,fun o ho => (hj.observed o ho).after h ha hno hc⟩

include hP hcache

/-- One case for each instruction that may answer. -/
theorem unanswered_push (hi : i.Unanswered s.shared) {j : Instr}
    (hj : j ∈ (effect cfg s.alive t s.next ch s.shared i).push) :
    j.Unanswered (s.after cfg t i rest ch).shared := by
  have hnext := effect_push_next cfg s.shared s.alive t s.next ch hj
  by_cases hans : j.reports = true ∨ j.observed ≠ none
  · rcases Instr.of_answers_next hnext hans with
      ⟨q,r,rfl⟩ | rfl | ⟨g,rfl⟩ | ⟨o,rfl⟩ | ⟨o,g,rfl⟩ | ⟨o,g,rfl⟩
    · obtain rfl := List.mem_singleton.mp hj
      exact Instr.unanswered_of_not hi.silent rfl
    · -- the RPC that is issued now is later than all that has been applied
      obtain rfl := List.mem_singleton.mp hj
      refine Instr.unanswered_of_not ?_ rfl
      by_contra hs
      refine hno ⟨⟨s.shared.rpcSequence + 1,.remove,RpcCall.remove.outcome ch.outcome⟩,?_,rfl,
        by simpa [Instr.reports] using hs,fun q hq => ?_⟩
      · rw [System.rpcs_after]
        exact List.mem_append_right _ List.mem_cons_self
      · exact Nat.lt_succ_of_le (hP q hq)
    · exact unanswered_terminal h hcache hno rfl hj
    · obtain rfl := List.mem_singleton.mp hj
      refine Instr.unanswered_of_not ?_ rfl
      cases hr : cfg.observedResult s.shared o with
      | none => rfl
      | some r => exact (hi.observed o rfl).observedResult hr
    · simp only [effect,List.mem_singleton] at hj
      subst hj
      cases hr : cfg.observedResult s.shared o with
      | none => exact Instr.unanswered_of_not rfl rfl
      | some r => exact Instr.unanswered_of_not ((hi.observed o rfl).observedResult hr) rfl
    · -- the caller of the scheduler goes on to observe the operation that it has scheduled
      have ho := (hi.observed o rfl).after h ha hno hc
      simp only [Instr.Next,Scheduler.returned,Scheduler.failed] at hnext
      have hobs : j.reports = false ∧ (j.observed = none ∨ j.observed = some o) := by
        grind [Instr.reports,Instr.observed]
      refine ⟨hobs.1,fun o' he => ?_⟩
      rcases hobs.2 with hn | hs
      · cases hn.symm.trans he
      · exact Option.some.inj (hs.symm.trans he) ▸ ho
  · push Not at hans
    exact Instr.unanswered_of_not (by simpa using hans.1) hans.2

theorem Unreported.after {u : ℕ} (hu : Unreported u s) (hstarted : u < s.next) :
    Unreported u (s.after cfg t i rest ch) where
  code j hj := by
    rcases System.mem_after_cases h.invariant.named hc hj with hold | ⟨rfl,hj⟩ | ⟨rfl,-⟩
    · exact (hu.code j hold).after h ha hno hc
    · exact unanswered_push h hP ha hcache hno hc (hu.code i (by simp [hc])) hj
    · omega
  returned r hr := by
    rcases List.mem_append.mp hr with hr | hr
    · exact hu.returned r hr
    · have hemits := effect_event_emits cfg s.shared s.alive t s.next ch hr
      cases i with
      | returnRemove r' =>
        obtain ⟨rfl,rfl⟩ : u = t ∧ r = r' := by simpa [Instr.Emits] using hemits
        exact (hu.code (.returnRemove r) (by simp [hc])).silent
      | _ => simp [Instr.Emits,Event.OfPending] at hemits

end Step

theorem ActivesLater.called (ha : ActivesLater P s) (c : Call) :
    ActivesLater P (s.called cfg c) := by
  intro t o q r hmem hr
  by_cases ht : t = s.next
  · have hentry : .commit (.active o) q r ∈ entry cfg c := by
      simpa [Machine.start,machine,ht] using hmem
    cases c <;> simp only [entry] at hentry <;> grind
  · exact ha t o q r (by simpa [Machine.start,ht] using hmem) hr

theorem ActivesLater.after (ha : ActivesLater P s) (hn : s.Named)
    (hP : ∀ q, P q → q ≤ s.shared.rpcSequence) (hc : s.code t = i :: rest) :
    ActivesLater P (s.after cfg t i rest ch) := by
  intro t' o q r hmem hr q' hq'
  rcases System.mem_after_cases hn hc hmem with hold | ⟨-,hj⟩ | ⟨-,body,hb,hj⟩
  · exact ha t' o q r hold hr q' hq'
  · have hnext := effect_push_next cfg s.shared s.alive t s.next ch hj
    cases i with
    | rpc call =>
      obtain ⟨-,rfl,-⟩ : RpcCall.active o = call ∧ q = s.shared.rpcSequence + 1 ∧
          r = call.outcome ch.outcome := by simpa [effect,callRegistry] using hj
      exact Nat.lt_succ_of_le (hP q' hq')
    | commit call => cases call <;> simp [Instr.Next] at hnext
    | schedulePendingRemove caller =>
      cases caller <;> simp [Instr.Next,Scheduler.returned,Scheduler.failed] at hnext
    | _ => simp [Instr.Next] at hnext
  · rcases effect_spawn_plain cfg _ _ _ _ hb hj with ⟨p,he⟩ | ⟨p,he⟩ | ⟨o,he⟩ <;> cases he

/-- What holds from a call of `remove_executor` on, with `P` the registers before it. -/
structure Attending (cfg : Config) (u : ℕ) (P : ℕ → Prop) (s : System) : Prop where
  reachable : Reachable cfg s
  started : u < s.next
  issued : ∀ q, P q → q ≤ s.shared.rpcSequence
  actives : ActivesLater P s
  cached : s.shared.lastSuccessfullyRemovedGeneration = some s.shared.generation → Outlived P s
  answers : Outlived P s ∨ Unreported u s

namespace Attending
variable {u : ℕ}

theorem called (h : Attending cfg u P s) (c : Call) : Attending cfg u P (s.called cfg c) where
  reachable := h.reachable.tail (.call c) trivial rfl
  started := h.started.trans (Nat.lt_succ_self _)
  issued := h.issued
  actives := h.actives.called c
  cached hs := (h.cached hs).called c
  answers := by
    refine h.answers.imp (fun hout => hout.called c) fun hu => ⟨fun i hi => ?_,fun r hr => ?_⟩
    · have hne : u ≠ s.next := h.started.ne
      exact hu.code i (by simpa [Machine.start,hne] using hi)
    · exact hu.returned r (by simpa [Machine.start,machine] using hr)

/-- A cached success of the current generation is an old one or that of an Active Remove that has
just been accepted. -/
theorem cached_after (h : Attending cfg u P s) (hc : s.code t = i :: rest)
    (hs : (s.after cfg t i rest ch).shared.lastSuccessfullyRemovedGeneration =
      some (s.after cfg t i rest ch).shared.generation) : Outlived P (s.after cfg t i rest ch) := by
  have hinv := h.reachable.invariant
  have hi : i.Owned s.shared := hinv.owned (t := t) (by simp [hc])
  have hgrow := effect_lifecycle_grows cfg hinv.rep.lifecycle s.alive t s.next ch i
  rcases effect_removedGeneration cfg hinv.rep s.alive t s.next ch hi with
    he | he | ⟨o,q,r,hio,hr,-⟩
  · have hold : s.shared.lastSuccessfullyRemovedGeneration =
        some (s.after cfg t i rest ch).shared.generation := he.symm.trans hs
    have hgen : (s.after cfg t i rest ch).shared.generation = s.shared.generation :=
      le_antisymm (hinv.rep.cleanup.removed _ hold).1 hgrow.generation
    exact (h.cached (hgen ▸ hold)).after
  · exact absurd (he.symm.trans hs) (by simp)
  · exact (h.actives.outlived h.reachable hc hio hr).after

theorem after (h : Attending cfg u P s) (hc : s.code t = i :: rest)
    (hs : step cfg s (.run t ch) = some (s.after cfg t i rest ch)) :
    Attending cfg u P (s.after cfg t i rest ch) where
  reachable := h.reachable.tail (.run t ch) trivial hs
  started := h.started.trans_le (Sys.advance_next_le ..)
  issued q hq := by
    rw [Sys.advance_shared,(effect_rpcs cfg s.shared s.alive t s.next ch i).2]
    exact (h.issued q hq).trans (Nat.le_add_right _ _)
  actives := h.actives.after h.reachable.invariant.named h.issued hc
  cached := h.cached_after hc
  answers := by
    by_cases hno : Outlived P (s.after cfg t i rest ch)
    · exact Or.inl hno
    · right
      have hu : Unreported u s := h.answers.resolve_left fun hout => hno hout.after
      exact hu.after h.reachable h.issued h.actives h.cached hno hc h.started

end Attending

theorem Reachable.activesLater_of_idle (h : Reachable cfg s) (hidle : ∀ t < s.next, s.code t = []) :
    ActivesLater P s := by
  intro t o q r hmem
  simp [h.invariant.named.ended hidle t] at hmem

/-- `remove_executor`, called without a Worker, returns a success in a generation that stays, and
every successful Remove was sent before a register that had returned a success before the call. -/
structure StaleSuccess (s s' : System) : Prop where
  worker : s.shared.worker = none
  generation : s'.shared.generation = s.shared.generation
  returned : ∃ r, r.success = true ∧ .removeReturned s.next r ∈ s'.history
  register : ∃ t q r, r.success = true ∧ .registerReturned t q s.shared.generation r ∈ s.history ∧
    ∀ x ∈ s'.rpcs, x.kind.isRemove = true → x.result.success = true → x.sequence < q

theorem StaleSuccess.not_outlived (h : StaleSuccess s s') :
    ¬ Outlived (Registered s s.shared.generation) s' := by
  obtain ⟨t,q,r,hr,hreg,hall⟩ := h.register
  rintro ⟨x,hx,hk,hs,hq⟩
  have hlater : q < x.sequence := hq q ⟨t,r,hr,Or.inl hreg⟩
  have hearlier : x.sequence < q := hall x hx hk hs
  omega

/-- A failed register commits before an earlier successful one, whose commit then leaves the
cached success of a Remove before both in place. -/
theorem overtaken_register_stale : ∃ s s' : System, Reachable .plain s ∧
    ActivesLater (Registered s s.shared.generation) s ∧
    Run (step .plain) (fun _ _ => True) (s.called .plain .removeExecutor) s' ∧
    StaleSuccess s s' := by
  have hsched : (schedule (step .plain) .blank
      ([.call .removeExecutor] ++ List.replicate 10 (proceed 0) ++
        [.call .registerExecutor, .call .registerExecutor, proceed 1, proceed 2, proceed 1,
          proceed 1, proceed 2, refuse 2] ++ List.replicate 3 (proceed 2) ++
        List.replicate 4 (proceed 1))).any (fun s => s.next = 3 ∧ (∀ t < 3, s.code t = []) ∧
      s.shared.generation = 0 ∧ s.shared.worker = none ∧
      .registerReturned 1 2 0 { success := true } ∈ s.history ∧
      (schedule (step .plain) (s.called .plain .removeExecutor)
        (List.replicate 3 (proceed 3))).any fun s' => s'.shared.generation = 0 ∧
        .removeReturned 3 { success := true } ∈ s'.history ∧
          ∀ x ∈ s'.rpcs, x.kind.isRemove = true → x.sequence < 2) = true := by
    decide +kernel
  obtain ⟨s,h,hp⟩ := Run.exists_of_schedule hsched
  obtain ⟨hnext,hidle,hg,hw,hreg,hrun⟩ := of_decide_eq_true hp
  obtain ⟨s',h',hp'⟩ := Run.exists_of_schedule hrun
  obtain ⟨hg',hret,hrpcs⟩ := of_decide_eq_true hp'
  have hreach : Reachable .plain s := h
  exact ⟨s,s',h,hreach.activesLater_of_idle (hnext ▸ hidle),h',hw,hg'.trans hg.symm,
    ⟨_,rfl,hnext ▸ hret⟩,1,2,_,rfl,hg ▸ hreg,fun x hx hk _ => hrpcs x hx hk⟩

end FlaskXxlJob.Registry
