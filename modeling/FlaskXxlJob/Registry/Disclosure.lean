import FlaskXxlJob.Client.Disclosure
import FlaskXxlJob.Registry.ControlFlow
import FlaskXxlJob.Registry.Status

/-!
Where the results of Admin calls go. A register and a one-shot remove return the result of their
RPC as it is; what an operation or the cache keeps is redacted before it is stored and again when
it is returned.
-/
namespace FlaskXxlJob.Registry
open Python FlaskXxlJob.Client Interleaving

/-! ### Stored results -/

/-- Every result that `c'` stores was stored by `c` or meets `P`. -/
structure Cleanup.Retains (P : CallResult → Prop) (c c' : Cleanup) : Prop where
  operation : ∀ o r, (c'.operations o).result = some r → (c.operations o).result = some r ∨ P r
  removed : ∀ r, c'.lastSuccessfullyRemovedResult = some r →
    c.lastSuccessfullyRemovedResult = some r ∨ P r

namespace Cleanup.Retains
variable {P : CallResult → Prop} {c c' c'' : Cleanup}

theorem refl (c : Cleanup) : c.Retains P c := ⟨fun _ _ => Or.inl,fun _ => Or.inl⟩

theorem of_eq (h : c' = c) : c.Retains P c' := by
  subst h
  exact refl c'

theorem trans (h : c.Retains P c') (h' : c'.Retains P c'') : c.Retains P c'' where
  operation o r hr := (h'.operation o r hr).elim (h.operation o r) Or.inr
  removed r hr := (h'.removed r hr).elim (h.removed r) Or.inr

/-- A section that replaces neither operations nor the cached result. -/
theorem of_fields (ho : c'.operations = c.operations)
    (hr : c'.lastSuccessfullyRemovedResult = c.lastSuccessfullyRemovedResult) : c.Retains P c' where
  operation o r h := Or.inl (by rwa [ho] at h)
  removed r h := Or.inl (by rwa [hr] at h)

end Cleanup.Retains

variable (cfg : Config) (now : String) {P : CallResult → Prop} {s : State}

theorem retains_updateOperation (o : ℕ) {f : RemoveOperation → RemoveOperation}
    (hf : ∀ op r, (f op).result = some r → op.result = some r ∨ P r) :
    s.toCleanup.Retains P (s.updateOperation o f).toCleanup where
  operation o' r h := by
    by_cases ho : o' = o
    · subst ho
      exact hf _ r (by simpa [State.updateOperation] using h)
    · exact Or.inl (by simpa [State.updateOperation,ho] using h)
  removed _ := Or.inl

theorem retains_createPending (g : ℕ) : s.toCleanup.Retains P (createPending s g).toCleanup where
  operation o r h := by
    by_cases ho : o = s.nextOperation
    · simp [createPending,ho] at h
    · exact Or.inl (by simpa [createPending,ho] using h)
  removed _ := Or.inl

theorem retains_publishActive (g : ℕ) : s.toCleanup.Retains P (publishActive s g).toCleanup where
  operation o r h := by
    by_cases ho : o = s.nextOperation
    · simp [publishActive,ho] at h
    · exact Or.inl (by simpa [publishActive,ho] using h)
  removed _ := Or.inl

theorem retains_reopenCleanup : s.toCleanup.Retains P (reopenCleanup s).toCleanup where
  operation _ _ := Or.inl
  removed _ h := by cases h

theorem retains_reconciled {k : ℕ} {p : State × Option ℕ} (h : Reconciled s k p) :
    s.toCleanup.Retains P p.1.toCleanup := by
  cases h with
  | waiting | covered => exact .refl _
  | dropped | marked => exact .of_fields rfl rfl
  | created => exact retains_createPending _

theorem retains_requested {p : State × Option ℕ} (h : Requested s p) :
    s.toCleanup.Retains P p.1.toCleanup := by
  cases h with
  | coordinated k p _ hr =>
    have hc : s.toCleanup.Retains P (requestCleanup s k).toCleanup := .of_fields rfl rfl
    exact hc.trans (retains_reconciled hr)
  | notOwed => exact .refl _
  | marked => exact .of_fields rfl rfl
  | created => exact retains_createPending _

theorem CleanupInv.retains_reconcileGeneration (h : CleanupInv s) (g : ℕ) :
    s.toCleanup.Retains P (Registry.reconcileGeneration s g).toCleanup := by
  unfold Registry.reconcileGeneration
  split
  · split
    · exact retains_reconciled (h.reconcile ‹_›)
    · exact .refl _
  · exact .refl _

theorem CleanupInv.retains_join (h : CleanupInv s) :
    s.toCleanup.Retains P (Registry.joinRegisterCoordination s).1.toCleanup := by
  rcases h.join_cases with ⟨k,-,-,he⟩ | ⟨k,hk,-,he⟩ | ⟨-,he⟩ <;> rw [he]
  · exact .refl _
  · exact .of_fields rfl rfl
  · exact .of_fields rfl rfl

theorem retains_acceptOneShot (r : CallResult) (q : ℕ) (remove : Bool) (g k : Option ℕ) :
    s.toCleanup.Retains P (acceptOneShot cfg now s r q remove g k).toCleanup := by
  rcases acceptOneShot_cases cfg now s r q remove g k with
    ⟨-,he⟩ | ⟨-,he⟩ | ⟨-,-,-,-,-,-,he⟩ <;> rw [he]
  · exact .refl _
  · exact .of_fields rfl rfl
  · exact retains_reopenCleanup (s := applyResult cfg now s r q _)

theorem CleanupInv.retains_release (h : CleanupInv s) (k : ℕ) :
    s.toCleanup.Retains P (Registry.releaseCoordination s k).1.toCleanup := by
  have hl : s.toCleanup.Retains P (Registry.leaveCoordination s k).toCleanup := .of_fields rfl rfl
  rw [releaseCoordination_eq]
  split
  · exact hl.trans (retains_reconciled ((h.leaveCoordination k).reconcile ‹_›))
  · exact hl

theorem retains_acceptWorker (c : ℕ) (r : CallResult) (q : ℕ) :
    s.toCleanup.Retains P (acceptWorker cfg now s c r q).toCleanup := by
  rcases acceptWorker_cases cfg now s r q c with ⟨-,he⟩ | ⟨-,-,he | ⟨-,-,he⟩⟩ <;> rw [he]
  · exact .refl _
  · exact .of_fields rfl rfl
  · exact ⟨fun _ _ => Or.inl,(fun _ h => by cases h)⟩

/-- A completed operation stores its result redacted, and the cache redacts it once more. -/
theorem retains_complete (h : CleanupInv s) {o : ℕ} (ho : s.activeRemove = some o)
    {r : CallResult} (hr : P (cfg.safeResult r)) (hr' : P (cfg.safeResult (cfg.safeResult r)))
    (q : ℕ) : s.toCleanup.Retains P (completeRemoveOperation cfg now s o r q).1.toCleanup := by
  have hs : s.toCleanup.Retains P (storeResult s o (cfg.safeResult r)).toCleanup :=
    retains_updateOperation o fun op r' h' => Or.inr (by
      obtain rfl := Option.some.inj h'
      exact hr)
  have hc := h.storeResult o (cfg.safeResult r)
  rcases h.completeRemove_cases cfg now ho r q with ⟨-,he⟩ | ⟨-,-,he⟩ | ⟨-,hr₁,hg,hw,he⟩
  all_goals rw [he]
  · have hd : (storeResult s o (cfg.safeResult r)).toCleanup.Retains P
        (dropActive (storeResult s o (cfg.safeResult r))).toCleanup := .of_fields rfl rfl
    exact (hs.trans hd).trans (hc.dropActive.retains_reconcileGeneration _)
  · have hd : (storeResult s o (cfg.safeResult r)).toCleanup.Retains P (dropActive
        (applyResult cfg now (storeResult s o (cfg.safeResult r)) r q .remove)).toCleanup :=
      .of_fields rfl rfl
    exact (hs.trans hd).trans ((hc.applyResult r q .remove).dropActive.retains_reconcileGeneration _)
  · have hd : (storeResult s o (cfg.safeResult r)).toCleanup.Retains P
        (dropActive (satisfied cfg now s o r q)).toCleanup :=
      ⟨fun _ _ => Or.inl,fun r' h' => Or.inr (by
        obtain rfl := Option.some.inj h'
        exact hr')⟩
    exact (hs.trans hd).trans ((h.satisfied hr₁ q hg hw).retains_reconcileGeneration _)

theorem retains_associateActor (o t : ℕ) :
    s.toCleanup.Retains P (associateActor s o t).toCleanup where
  operation o' r h := Or.inl (by simpa using h)
  removed r h := Or.inl (by simpa using h)

theorem retains_releaseActor (o t : ℕ) :
    s.toCleanup.Retains P (releaseActor s o t).toCleanup where
  operation o' r h := Or.inl (by simpa using h)
  removed r h := Or.inl (by simpa using h)

theorem retains_abandonOperation (o t : ℕ) {r : CallResult} (hr : P r) :
    s.toCleanup.Retains P (abandonOperation s o t r).toCleanup where
  operation o' r' h := by
    by_cases ho : o' = o
    · subst ho
      have hr' : r = r' := by simpa [abandonOperation,State.updateOperation] using h
      exact Or.inr (hr' ▸ hr)
    · exact Or.inl (by simpa [abandonOperation,State.updateOperation,ho] using h)
  removed _ := Or.inl

theorem CleanupInv.retains_failActorStart (h : CleanupInv s) (o t : ℕ) {e : String}
    (he : P (cfg.safeResult (startFailure e))) :
    s.toCleanup.Retains P (Registry.failActorStart cfg now s o t e).toCleanup := by
  have hc : CleanupInv (recordResultLocked cfg now
      (Registry.abandonOperation s o t (cfg.safeResult (startFailure e))) (startFailure e)
      .local) := (h.abandonOperation o t _).of_eq rfl rfl fun _ => id
  exact (retains_abandonOperation o t he).trans (hc.retains_reconcileGeneration _)

/-! ### One instruction -/

/-- What an instruction may bring into the stored results. -/
structure Instr.Stores (cfg : Config) (P : CallResult → Prop) (ch : Choice) (i : Instr) : Prop where
  active : ∀ o q r, i = .commit (.active o) q r →
    P (cfg.safeResult r) ∧ P (cfg.safeResult (cfg.safeResult r))
  failed : ∀ e, ch.startError = some e → P (cfg.safeResult (startFailure e))

theorem effect_retains (h : Rep s) (alive : ℕ → Bool) (t fresh : ℕ) (ch : Choice) {i : Instr}
    (hi : i.Owned s) (hstores : i.Stores cfg P ch) :
    s.toCleanup.Retains P (effect cfg alive t fresh ch s i).state.toCleanup := by
  have hc := h.cleanup
  cases hm : i.movesCleanup with
  | false => exact .of_eq (effect_toCleanup cfg alive t fresh ch hm)
  | true =>
    cases i with
    | activatePreparedStart p =>
      simp only [effect]
      rcases activatePreparedStart_cases t h.lifecycle p with ⟨-,he⟩ | ⟨-,-,he⟩ <;> rw [he]
      · exact .refl _
      · refine .of_fields ?_ ?_ <;> simp [publishWorker]
    | stop remove =>
      cases remove with
      | false => simp [Instr.movesCleanup] at hm
      | true =>
        have hs : (stopLocalLocked (dropPrepared s)).toCleanup = s.toCleanup := by simp
        have hd : CleanupInv (stopLocalLocked (dropPrepared s)) :=
          hc.of_eq hs (by simp) (by simp)
        have hr := retains_requested (P := P) (hd.requestOutcome (by simp))
        rw [hs] at hr
        exact hr
    | shutdown deregister =>
      have hs : (stopLocalLocked (dropPrepared s)).toCleanup = s.toCleanup := by simp
      simp only [effect,shutdown,shutdownLocal]
      split
      · split
        · exact (Cleanup.Retains.of_eq hs).trans (.of_fields rfl rfl)
        · exact .of_eq hs
      · exact .of_eq hs
    | shutdownRequest g =>
      simp only [effect,shutdownRequest]
      split
      · exact retains_requested (hc.requestOutcome (hi.2 (Eq.symm ‹_›)))
      · exact .refl _
    | joinRegister => exact hc.retains_join
    | commit call q r =>
      cases call with
      | register k g =>
        cases k with
        | none => exact retains_acceptOneShot cfg ch.now r q false (some g) none
        | some k =>
          exact (retains_acceptOneShot cfg ch.now r q false (some g) (some k)).trans
            ((hc.acceptOneShot cfg ch.now r q false (some g) (some k)).retains_release k)
      | remove => exact retains_acceptOneShot cfg ch.now r q true none none
      | worker c => exact retains_acceptWorker cfg ch.now c r q
      | active o =>
        obtain ⟨hr,hr'⟩ := hstores.active o q r rfl
        exact retains_complete cfg ch.now hc hi hr hr' q
    | finishWorker c =>
      simp only [effect]
      rcases finishWorker_cases s t c with ⟨o,hp,-,-,he⟩ | ⟨-,he⟩ <;> rw [he]
      · refine .of_fields ?_ ?_ <;> simp
      · exact .of_eq (by simp)
    | terminalRemove g =>
      simp only [effect,terminalRemove]
      split
      case h_7 hv => exact retains_publishActive g
      all_goals exact .refl _
    | schedulePendingRemove caller =>
      simp only [effect]
      rcases schedulePendingRemove_cases cfg ch.now s t fresh alive caller ch.startError with
        ⟨-,he⟩ | ⟨o,-,-,he⟩ | ⟨o,e,-,hfail,he⟩ <;> rw [he]
      · exact .refl _
      · exact retains_associateActor o fresh
      · exact (retains_associateActor o fresh).trans
          ((hc.associateActor o fresh).retains_failActorStart cfg ch.now o fresh
            (hstores.failed e hfail))
    | runCleanupActor o =>
      simp only [effect]
      rcases runCleanupActor_cases s o with ⟨-,hp,he⟩ | ⟨-,he⟩ <;> rw [he]
      · exact .of_fields rfl rfl
      · exact .refl _
    | finishCleanupActor o => exact retains_releaseActor o t
    | setOperationDone o => exact retains_updateOperation o fun _ _ => Or.inl
    | setCoordinationDone k => exact .of_fields rfl rfl
    | _ => simp [Instr.movesCleanup] at hm

/-! ### Results that omit the token -/

/-- No text of the result shows the token, however often the result is redacted. -/
def Config.Keeps (token : String) (r : CallResult) : Prop :=
  ∀ n, (cfg.safeResult^[n] r).Omits token

variable {cfg} {token : String} {r : CallResult}

theorem Config.Keeps.omits (h : cfg.Keeps token r) : r.Omits token := h 0

theorem Config.Keeps.safe (h : cfg.Keeps token r) : cfg.Keeps token (cfg.safeResult r) :=
  fun n => h (n + 1)

theorem safeResult_iterate (cfg : Config) (n : ℕ) (r : CallResult) : cfg.safeResult^[n] r =
    { r with msg := r.msg.map cfg.redact^[n], error := r.error.map cfg.redact^[n] } := by
  induction n generalizing r with
  | zero => simp
  | succ n ih =>
    rw [Function.iterate_succ_apply,ih]
    simp [Config.safeResult,Function.comp_def]

/-- What is kept of a result whose texts omit the token however often they are redacted. -/
theorem Config.Keeps.of_texts (ha : ∀ text, r.address = some text → ¬ Contains text token)
    (ht : ∀ text, r.error = some text ∨ r.msg = some text →
      ∀ n, ¬ Contains (cfg.redact^[n + 1] text) token) :
    cfg.Keeps token (cfg.safeResult r) := by
  intro n
  rw [← Function.iterate_succ_apply,safeResult_iterate]
  refine ⟨?_,?_,ha⟩
  · intro text h
    obtain ⟨text',h',rfl⟩ := Option.map_eq_some_iff.mp h
    exact ht text' (Or.inl h') n
  · intro text h
    obtain ⟨text',h',rfl⟩ := Option.map_eq_some_iff.mp h
    exact ht text' (Or.inr h') n

variable (cfg token) in
/-- What an RPC may result in: what its caller returns as it is must omit the token, what an
operation stores must omit it once it is redacted. -/
def RpcCall.Admits (r : CallResult) : RpcCall → Prop
  | .register .. | .remove => r.Omits token
  | .active _ => cfg.Keeps token (cfg.safeResult r)
  | .worker _ => True

variable (cfg token) in
/-- The results on a stack that are still to be stored or returned. -/
def Instr.Keeps : Instr → Prop
  | .commit call _ r => call.Admits cfg token r
  | .returnRegister _ _ r | .returnRemove r => r.Omits token
  | _ => True

variable (token) in
def Event.Omits : Event → Prop
  | .registerReturned _ _ _ r | .removeReturned _ r => r.Omits token
  | _ => True

variable (cfg token) in
/-- No step brings the token into a result that is stored or returned. -/
def Admissible (s : System) : Action Choice Call → Prop
  | .call _ => True
  | .run t ch =>
    (∀ e, ch.startError = some e → cfg.Keeps token (cfg.safeResult (startFailure e))) ∧
    ∀ call rest, s.code t = .rpc call :: rest → call.Admits cfg token (call.outcome ch.outcome)

variable (cfg token) in
structure Undisclosed (s : System) : Prop where
  operations : ∀ o r, (s.shared.operations o).result = some r → cfg.Keeps token r
  removed : ∀ r, s.shared.lastSuccessfullyRemovedResult = some r → cfg.Keeps token r
  code : s.Everywhere fun _ i => i.Keeps cfg token
  returned : ∀ e ∈ s.history, e.Omits token

theorem terminalView_cached {g : ℕ} (h : terminalView s g = .cached r) :
    s.lastSuccessfullyRemovedResult = some r := by
  have hsaw := terminalView_saw s g
  rw [h] at hsaw
  exact hsaw.2.2

theorem Config.observedResult_keeps (h : ∀ o r, (s.operations o).result = some r → cfg.Keeps token r)
    {o : ℕ} (hr : cfg.observedResult s o = some r) : r.Omits token := by
  obtain ⟨r',hr',rfl⟩ := Option.map_eq_some_iff.mp hr
  exact (h o r' hr').safe.omits

theorem entry_keeps {c : Call} {i : Instr} (hi : i ∈ entry cfg c) : i.Keeps cfg token := by
  cases c <;> simp only [entry] at hi <;> (try split at hi) <;> (try split at hi) <;>
    simp at hi <;> subst hi <;> trivial

namespace Undisclosed
variable {s : System} (hnone : removalWithoutResult.Omits token)

theorem blank : Undisclosed cfg token .blank where
  operations _ _ h := by cases h
  removed _ h := by cases h
  code _ _ h := by cases h
  returned _ h := by cases h

theorem called (h : Undisclosed cfg token s) (c : Call) :
    Undisclosed cfg token (s.called cfg c) where
  operations := h.operations
  removed := h.removed
  code := by
    refine Machine.Everywhere.start h.code fun i hi => ?_
    exact entry_keeps hi
  returned e he := by
    rcases List.mem_append.mp he with he | he
    · exact h.returned e he
    · obtain rfl := List.mem_singleton.mp he
      trivial

include hnone in
/-- What an instruction pushes omits the token if what it has and reads does. -/
theorem push_keeps (h : Undisclosed cfg token s) {t : ℕ} {i j : Instr} {rest : List Instr}
    {ch : Choice} (hg : Admissible cfg token s (.run t ch)) (hc : s.code t = i :: rest)
    (hj : j ∈ (effect cfg s.alive t s.next ch s.shared i).push) : j.Keeps cfg token := by
  have hnext := effect_push_next cfg s.shared s.alive t s.next ch hj
  have hi := h.code t i (by simp [hc])
  cases i with
  | rpc call =>
    obtain rfl : j = .commit call (s.shared.rpcSequence + 1) (call.outcome ch.outcome) := by
      simpa [effect,callRegistry] using hj
    exact hg.2 call rest hc
  | commit call q r =>
    cases call with
    | register k g =>
      rcases hnext with ⟨_,-,rfl⟩ | rfl | rfl | rfl
      · trivial
      · trivial
      · trivial
      · exact hi
    | remove =>
      obtain rfl := hnext
      exact hi
    | worker c => rcases hnext with rfl | rfl <;> trivial
    | active o => rcases hnext with ⟨_,rfl⟩ | rfl | rfl <;> trivial
  | terminalRemove g =>
    simp only [effect,terminalRemove] at hj
    split at hj
    case h_3 r hv =>
      obtain rfl := List.mem_singleton.mp hj
      exact (h.removed r (terminalView_cached hv)).safe.omits
    all_goals
      simp only [List.mem_cons,List.not_mem_nil,or_false] at hj
      rcases hj with rfl | rfl <;> trivial
  | operationResult o =>
    obtain rfl := List.mem_singleton.mp hj
    cases hr : cfg.observedResult s.shared o with
    | none =>
      rw [Option.getD_none]
      exact hnone
    | some r =>
      rw [Option.getD_some]
      exact Config.observedResult_keeps h.operations hr
  | pendingResult o g =>
    obtain rfl := List.mem_singleton.mp hj
    cases hr : cfg.observedResult s.shared o with
    | none => trivial
    | some r => exact Config.observedResult_keeps h.operations hr
  | schedulePendingRemove caller =>
    cases j with
    | commit | returnRegister | returnRemove =>
      cases caller <;> simp [Instr.Next,Scheduler.returned,Scheduler.failed] at hnext
    | _ => trivial
  | _ =>
    cases j with
    | commit | returnRegister | returnRemove => simp [Instr.Next] at hnext
    | _ => trivial

include hnone in
theorem after (h : Undisclosed cfg token s) (hinv : Invariant s) {t : ℕ} {i : Instr}
    {rest : List Instr} {ch : Choice} (hg : Admissible cfg token s (.run t ch))
    (hc : s.code t = i :: rest) : Undisclosed cfg token (s.after cfg t i rest ch) := by
  have hmem : i ∈ s.code t := by simp [hc]
  have hi := h.code t i hmem
  have hstores : i.Stores cfg (cfg.Keeps token) ch := by
    refine ⟨?_,hg.1⟩
    rintro o q r rfl
    exact ⟨hi,Config.Keeps.safe hi⟩
  have hretains := effect_retains cfg hinv.rep s.alive t s.next ch (hinv.owned hmem) hstores
  refine ⟨?_,?_,?_,?_⟩
  · intro o r hr
    exact (hretains.operation o r hr).elim (h.operations o r) id
  · intro r hr
    exact (hretains.removed r hr).elim (h.removed r) id
  · refine h.code.advance (hinv.named.lt (by simp [hc])) hc (fun _ _ _ _ hk => hk)
      (fun j hj => h.push_keeps hnone hg hc hj) fun body hb j hj => ?_
    rcases effect_spawn_cases cfg s.shared t s.next s.alive ch i with
      hs | ⟨a,-,-,-,hs⟩ | ⟨k,o,-,-,-,hs⟩ <;> rw [hs] at hb
    · cases hb
    · obtain rfl := Option.some.inj hb
      simp only [List.mem_cons,List.not_mem_nil,or_false] at hj
      rcases hj with rfl | rfl <;> trivial
    · obtain rfl := Option.some.inj hb
      obtain rfl := List.mem_singleton.mp hj
      trivial
  · intro e he
    rcases List.mem_append.mp he with he | he
    · exact h.returned e he
    · have hemits := effect_event_emits cfg s.shared s.alive t s.next ch he
      cases e with
      | registerReturned t' q g r =>
        cases i with
        | returnRegister q' g' r' =>
          obtain ⟨-,-,-,rfl⟩ : t' = t ∧ q = q' ∧ g = g' ∧ r = r' := by
            simpa [Instr.Emits] using hemits
          exact hi
        | _ => simp [Instr.Emits,Event.OfPending] at hemits
      | removeReturned t' r =>
        cases i with
        | returnRemove r' =>
          obtain ⟨-,rfl⟩ : t' = t ∧ r = r' := by simpa [Instr.Emits] using hemits
          exact hi
        | _ => simp [Instr.Emits,Event.OfPending] at hemits
      | _ => trivial

end Undisclosed

/-- In an admissible run no returned result shows the token. -/
theorem undisclosed_of_run (hnone : removalWithoutResult.Omits token) {s : System}
    (h : Run (step cfg) (Admissible cfg token) .blank s) : Undisclosed cfg token s :=
  run_induct .blank .blank (fun _ c _ hI _ => hI.called c)
    (fun _ _ _ _ _ hinv hI hg hc _ => hI.after hnone hinv hg hc) h

/-! ### What a register returns -/

/-- A register that is about to return has the result of its RPC. -/
def Instr.Echoes (l : List Rpc) : Instr → Prop
  | .returnRegister q g r => (⟨q,.register g,r⟩ : Rpc) ∈ l
  | _ => True

structure Echoing (s : System) : Prop where
  code : s.Everywhere fun _ i => i.Echoes s.rpcs
  returned : ∀ t q g r, .registerReturned t q g r ∈ s.history → (⟨q,.register g,r⟩ : Rpc) ∈ s.rpcs

namespace Echoing
variable {s : System}

theorem blank : Echoing .blank where
  code _ _ h := by cases h
  returned _ _ _ _ h := by cases h

theorem called (h : Echoing s) (c : Call) : Echoing (s.called cfg c) where
  code := by
    rw [System.rpcs_called]
    refine Machine.Everywhere.start h.code fun i hi => ?_
    have hmem : i ∈ entry cfg c := hi
    cases c <;> simp only [entry] at hmem <;> (try split at hmem) <;> (try split at hmem) <;>
      simp at hmem <;> subst hmem <;> trivial
  returned t q g r hr := by
    rw [System.rpcs_called]
    rcases List.mem_append.mp hr with hr | hr
    · exact h.returned t q g r hr
    · cases List.mem_singleton.mp hr

theorem after (h : Echoing s) (hinv : Invariant s) (hst : Status cfg s) {t : ℕ} {i : Instr}
    {rest : List Instr} {ch : Choice} (hc : s.code t = i :: rest) :
    Echoing (s.after cfg t i rest ch) := by
  have hmem : i ∈ s.code t := by simp [hc]
  have hmono : ∀ x ∈ s.rpcs, x ∈ (s.after cfg t i rest ch).rpcs := fun x hx => by
    rw [System.rpcs_after]
    exact List.mem_append_left _ hx
  refine ⟨?_,?_⟩
  · refine h.code.advance (hinv.named.lt (by simp [hc])) hc (fun t' j hj _ he => ?_)
      (fun j hj => ?_) fun body hb j hj => ?_
    · cases j with
      | returnRegister q g r => exact hmono _ he
      | _ => trivial
    · have hnext := effect_push_next cfg s.shared s.alive t s.next ch hj
      cases j with
      | returnRegister q g r =>
        cases i with
        | commit call q' r' =>
          cases call with
          | register k g' =>
            obtain ⟨rfl,rfl,rfl⟩ : q = q' ∧ g = g' ∧ r = r' := by simpa [Instr.Next] using hnext
            exact hmono _ (hst.commits t _ hmem)
          | _ => simp [Instr.Next] at hnext
        | schedulePendingRemove caller =>
          cases caller <;> simp [Instr.Next,Scheduler.returned,Scheduler.failed] at hnext
        | _ => simp [Instr.Next] at hnext
      | _ => trivial
    · rcases effect_spawn_cases cfg s.shared t s.next s.alive ch i with
        hs | ⟨a,-,-,-,hs⟩ | ⟨k,o,-,-,-,hs⟩ <;> rw [hs] at hb
      · cases hb
      · obtain rfl := Option.some.inj hb
        simp only [List.mem_cons,List.not_mem_nil,or_false] at hj
        rcases hj with rfl | rfl <;> trivial
      · obtain rfl := Option.some.inj hb
        obtain rfl := List.mem_singleton.mp hj
        trivial
  · intro t' q g r hr
    rcases List.mem_append.mp hr with hr | hr
    · exact hmono _ (h.returned t' q g r hr)
    · have hemits := effect_event_emits cfg s.shared s.alive t s.next ch hr
      cases i with
      | returnRegister q' g' r' =>
        obtain ⟨-,rfl,rfl,rfl⟩ : t' = t ∧ q = q' ∧ g = g' ∧ r = r' := by
          simpa [Instr.Emits] using hemits
        exact hmono _ (h.code t _ hmem)
      | _ => simp [Instr.Emits,Event.OfPending] at hemits

end Echoing

/-- A returned register has the result of its own RPC. -/
theorem Reachable.register_returns {s : System} (h : Reachable cfg s) {t q g : ℕ} {r : CallResult}
    (hr : .registerReturned t q g r ∈ s.history) : (⟨q,.register g,r⟩ : Rpc) ∈ s.rpcs := by
  have hboth : Numbered s ∧ Status cfg s ∧ Echoing s := by
    refine h.induct (I := fun s => Numbered s ∧ Status cfg s ∧ Echoing s) ⟨⟨rfl⟩,.blank,.blank⟩
      (fun s c _ hi => ⟨hi.1.called c,hi.2.1.called c,hi.2.2.called c⟩) ?_
    rintro s t i rest ch hinv ⟨hnum,hst,he⟩ hc -
    exact ⟨hnum.after t i rest ch,hst.after hinv hc hnum,he.after hinv hst hc⟩
  exact hboth.2.2.returned t q g r hr

end FlaskXxlJob.Registry
