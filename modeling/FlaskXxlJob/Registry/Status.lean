import FlaskXxlJob.Registry.History

/-!
The status snapshot against the history. Completions are accepted in the order of their
sequences, and the snapshot is what the accepted completions and local failures make of it.
-/
namespace FlaskXxlJob.Registry
open FlaskXxlJob.Client Interleaving

/-- The completion an event accepts. -/
def Event.toCompletion : Event → Option Rpc
  | .accepted _ q k r _ => some ⟨q,k,r⟩
  | _ => none

def completionsOf (history : List Event) : List Rpc := history.filterMap Event.toCompletion

/-- The accepted completions, in the order of their acceptance. -/
def System.completions (s : System) : List Rpc := completionsOf s.history

@[simp] theorem completionsOf_nil : completionsOf [] = [] := rfl

@[simp] theorem completionsOf_append (l l' : List Event) :
    completionsOf (l ++ l') = completionsOf l ++ completionsOf l' := List.filterMap_append

/-- The registered flag after an accepted completion. -/
def Rpc.registers (registered : Bool) (x : Rpc) : Bool :=
  match x.kind with
  | .register _ => if x.result.success then true else registered
  | .remove | .active _ _ => if x.result.success then false else registered
  | .worker _ _ => x.result.success

/-- An event that writes the snapshot. -/
def Event.Records : Event → Prop
  | .accepted .. | .localFailure .. => True
  | _ => False

/-- The snapshot shows the result `r`, recorded at `now`. -/
structure Snapshot.Shows (cfg : Config) (n : Snapshot) (r : CallResult) (now : String) :
    Prop where
  result : n.lastResult = some (cfg.safeResult r)
  error : n.lastError = if r.success then none else some (cfg.safeResult r)
  time : n.lastRegistryTime = some now
  success : n.lastRegistrySuccess = some r.success
  address : n.lastRegistryAdminAddress = r.address
  errorType : n.lastRegistryErrorType = r.errorType
  message : n.lastRegistryMessage = (cfg.safeResult r).message

theorem Snapshot.shows_record (cfg : Config) (now : String) (s : State) (r : CallResult)
    (op : Operation) : (recordResultLocked cfg now s r op).toSnapshot.Shows cfg r now :=
  ⟨rfl,rfl,rfl,rfl,rfl,rfl,rfl⟩

theorem Snapshot.shows_apply (cfg : Config) (now : String) (s : State) (r : CallResult) (q : ℕ)
    (op : Operation) : (applyResult cfg now s r q op).toSnapshot.Shows cfg r now :=
  ⟨rfl,rfl,rfl,rfl,rfl,rfl,rfl⟩

/-- What the snapshot shows of a history: nothing if nothing was recorded, otherwise the last
record, which is a local failure or the completion with the greatest sequence so far. -/
inductive Snapshot.Describes (cfg : Config) (n : Snapshot) (history : List Event) : Prop
  | blank : (∀ e ∈ history, ¬ e.Records) → n = State.blank.toSnapshot → n.Describes cfg history
  | completion (before after : List Event) (t q : ℕ) (k : RpcKind) (r : CallResult)
      (now : String) : history = before ++ .accepted t q k r now :: after →
      (∀ e ∈ after, ¬ e.Records) → (∀ x ∈ completionsOf history, x.sequence ≤ q) →
      n.Shows cfg r now → n.Describes cfg history
  | localFailure (before after : List Event) (r : CallResult) (now : String) :
      history = before ++ .localFailure r now :: after → (∀ e ∈ after, ¬ e.Records) →
      n.Shows cfg r now → n.Describes cfg history

def RpcCall.operation : RpcCall → Operation
  | .register .. => .register
  | .remove | .active _ => .remove
  | .worker _ => .worker

theorem RpcCall.registers (cfg : Config) (now : String) (s s' : State) (call : RpcCall)
    (r : CallResult) (q : ℕ) : (recordResultLocked cfg now s r call.operation).registered =
      (⟨q,call.kind s',r⟩ : Rpc).registers s.registered := by
  cases call <;> rfl

/-! ### What one instruction records -/

/-- What one instruction does to the snapshot and records in the history. -/
inductive Recorded (cfg : Config) (s : State) (t : ℕ) (now : String) (i : Instr) (e : Step) : Prop
  | nothing : (∀ x ∈ e.events, ¬ x.Records) → e.state.toSnapshot = s.toSnapshot →
      Recorded cfg s t now i e
  | localFailure (r : CallResult) (after : List Event) :
      e.events = .localFailure r now :: after → (∀ x ∈ after, ¬ x.Records) →
      e.state.toSnapshot = (recordResultLocked cfg now s r .local).toSnapshot →
      Recorded cfg s t now i e
  | accepted (call : RpcCall) (q : ℕ) (r : CallResult) (after : List Event) :
      i = .commit call q r → s.lastAppliedRpcSequence < q →
      (∀ c, call = .worker c → workerIsCurrent s c = true) →
      e.events = .accepted t q (call.kind s) r now :: after → (∀ x ∈ after, ¬ x.Records) →
      e.state.toSnapshot = (applyResult cfg now s r q call.operation).toSnapshot →
      Recorded cfg s t now i e

theorem Event.OfPending.not_records {e : Event} (h : e.OfPending) : ¬ e.Records := by
  rcases h with ⟨o,rfl⟩ | ⟨o,g,rfl⟩ <;> exact id

/-- The instructions that may write the snapshot. -/
def Instr.records : Instr → Bool
  | .commit .. | .recordLocalFailure _ | .schedulePendingRemove _ => true
  | _ => false

section
variable (cfg : Config) (s : State) (alive : ℕ → Bool) (t fresh : ℕ) (ch : Choice)

theorem effect_toSnapshot {i : Instr} (hi : i.records = false) :
    (effect cfg alive t fresh ch s i).state.toSnapshot = s.toSnapshot := by
  cases i with
  | prepareStart activate =>
    simp only [effect]
    rcases prepareStart_cases s t fresh activate ch.startError with
      he | ⟨e,he⟩ | ⟨-,he⟩ <;> rw [he]
    simp
  | activatePreparedStart p =>
    simp only [effect,activatePreparedStart]
    split <;> simp
  | cancelPreparedStart p =>
    simp only [effect,cancelPreparedStart]
    split <;> simp
  | settlePrepared p =>
    simp only [effect]
    rcases settlePrepared_cases s p with he | ⟨-,he⟩ | ⟨-,-,-,he⟩ <;> rw [he]
    simp
  | stop remove => cases remove <;> simp [effect,stop,stopSection]
  | shutdown deregister => simp [effect,shutdown]
  | shutdownRequest g =>
    simp only [effect,shutdownRequest]
    split <;> simp
  | runWorker c | workerLoop c | recheckWorker c | performWorkerRegistry c =>
    simp only [effect]
    rcases guardCurrent_cases s c _ with ⟨-,he⟩ | ⟨-,he⟩ <;> rw [he]
  | finishWorker c =>
    simp only [effect]
    rcases finishWorker_cases s t c with ⟨o,-,-,-,he⟩ | ⟨-,he⟩ <;> simp [he]
  | network call =>
    simp only [effect]
    rcases enterNetwork_cases s t call with ⟨-,he⟩ | ⟨c,-,-,he⟩ <;> rw [he]
  | joinRegister => simp [effect,joinRegister]
  | removeOnce =>
    simp only [effect]
    rcases removeOnce_cases s t with ⟨-,he⟩ | ⟨-,he⟩ <;> rw [he]
  | terminalRemove g =>
    simp only [effect,terminalRemove]
    split <;> simp
  | runCleanupActor o =>
    simp only [effect]
    rcases runCleanupActor_cases s o with ⟨-,-,he⟩ | ⟨-,he⟩ <;> simp [he]
  | maybeCloseLogs =>
    simp only [effect]
    split <;> rfl
  | commit | recordLocalFailure | schedulePendingRemove => simp [Instr.records] at hi
  | _ => simp [effect,callRegistry,State.updateOperation,State.updateCoordination]

theorem recorded_of_silent {i : Instr} (hi : i.records = false) :
    Recorded cfg s t ch.now i (effect cfg alive t fresh ch s i) := by
  refine .nothing (fun e he hr => ?_) (effect_toSnapshot cfg s alive t fresh ch hi)
  have hem := effect_event_emits cfg s alive t fresh ch he
  cases e with
  | accepted | localFailure =>
    cases i <;> simp [Instr.Emits,Event.OfPending,Instr.records] at hem hi
  | _ => exact hr

theorem recorded_of_commit {call : RpcCall} {q : ℕ} {r : CallResult} {b : Bool} {e : Step}
    (after : List Event) (he : e.events = acceptedEvents b t q (call.kind s) r ch.now ++ after)
    (hafter : ∀ x ∈ after, ¬ x.Records)
    (hno : b = false → e.state.toSnapshot = s.toSnapshot)
    (hyes : b = true → s.lastAppliedRpcSequence < q ∧
      (∀ c, call = .worker c → workerIsCurrent s c = true) ∧
      e.state.toSnapshot = (applyResult cfg ch.now s r q call.operation).toSnapshot) :
    Recorded cfg s t ch.now (.commit call q r) e := by
  cases b with
  | false => exact .nothing (fun x hx => hafter x (by simpa [he,acceptedEvents] using hx)) (hno rfl)
  | true =>
    obtain ⟨hlt,hw,hst⟩ := hyes rfl
    exact .accepted call q r after rfl hlt hw (by simpa [acceptedEvents] using he) hafter hst

theorem acceptOneShot_snapshot (r : CallResult) (q : ℕ) (remove : Bool) (g k : Option ℕ) :
    (decide (s.lastAppliedRpcSequence < q) = false →
      (acceptOneShot cfg ch.now s r q remove g k).toSnapshot = s.toSnapshot) ∧
    (decide (s.lastAppliedRpcSequence < q) = true →
      (acceptOneShot cfg ch.now s r q remove g k).toSnapshot =
        (applyResult cfg ch.now s r q (if remove then .remove else .register)).toSnapshot) := by
  rcases acceptOneShot_cases cfg ch.now s r q remove g k with
    ⟨hq,he⟩ | ⟨hq,he⟩ | ⟨hq,rfl,-,-,-,-,he⟩ <;> rw [he]
  · exact ⟨fun _ => rfl,fun hn => absurd (of_decide_eq_true hn) (by omega)⟩
  · exact ⟨fun hn => absurd hq (of_decide_eq_false hn),fun _ => rfl⟩
  · exact ⟨fun hn => absurd hq (of_decide_eq_false hn),fun _ => rfl⟩

theorem recorded_active {o q : ℕ} {r : CallResult} (h : Rep s) (ha : s.activeRemove = some o) :
    Recorded cfg s t ch.now (.commit (.active o) q r)
      (commitActive cfg ch.now s t o q r) := by
  refine recorded_of_commit cfg s t ch (b := s.activeRemove = some o &&
    decide (s.lastAppliedRpcSequence < q)) _ rfl
    (fun x hx => (mem_pendingEvents hx).not_records) (fun hn => ?_) (fun hy => ?_)
  all_goals simp only [commitActive]
  all_goals rcases h.cleanup.completeRemove_cases cfg ch.now ha r q with
    ⟨hq,he⟩ | ⟨hq,-,he⟩ | ⟨hq,-,-,-,he⟩
  all_goals rw [he]
  · simp [dropActive]
  · simp [ha,hq] at hn
  · simp [ha,hq] at hn
  · simp [ha] at hy
    omega
  · exact ⟨hq,(fun _ h => by cases h),by simp only [reconcileGeneration_frame]; rfl⟩
  · exact ⟨hq,(fun _ h => by cases h),by simp only [reconcileGeneration_frame]; rfl⟩

theorem effect_recorded (h : Rep s) {i : Instr} (hi : i.Owned s) :
    Recorded cfg s t ch.now i (effect cfg alive t fresh ch s i) := by
  by_cases hrec : i.records = false
  · exact recorded_of_silent cfg s alive t fresh ch hrec
  cases i with
  | recordLocalFailure r => exact .localFailure r [] rfl (by simp) rfl
  | schedulePendingRemove caller =>
    simp only [effect]
    rcases schedulePendingRemove_cases cfg ch.now s t fresh alive caller ch.startError with
      ⟨-,he⟩ | ⟨o,-,-,he⟩ | ⟨o,e,-,-,he⟩ <;> rw [he]
    · exact .nothing (by simp) rfl
    · exact .nothing (by simp) (by simp)
    · refine .localFailure (startFailure e) _ rfl (fun x hx => ?_) ?_
      · rcases List.mem_append.mp hx with hx | hx
        · exact (mem_pendingEvents hx).not_records
        · cases caller <;> simp [Scheduler.raisedEvents] at hx <;> subst hx <;> exact id
      · simp only [failActorStart,reconcileGeneration_frame]
        have hs : (associateActor s o fresh).toSnapshot = s.toSnapshot := by simp
        have ha : ∀ s' : State, s'.toSnapshot = s.toSnapshot →
            (recordResultLocked cfg ch.now s' (startFailure e) .local).toSnapshot =
            (recordResultLocked cfg ch.now s (startFailure e) .local).toSnapshot := by
          intro s' hs'
          simp [recordResultLocked,hs']
        exact ha _ hs
  | commit call q r =>
    cases call with
    | register k g =>
      obtain ⟨hno,hyes⟩ := acceptOneShot_snapshot cfg s ch r q false (some g) k
      cases k with
      | none =>
        refine recorded_of_commit cfg s t ch []
          (List.append_nil _).symm (by simp) hno fun hy => ?_
        exact ⟨of_decide_eq_true hy,(fun _ h => by cases h),hyes hy⟩
      | some k =>
        refine recorded_of_commit cfg s t ch _ rfl (fun x hx => (mem_pendingEvents hx).not_records)
          (fun hn => ?_) fun hy => ?_
        · exact (releaseCoordination_frame _ k).2.1.trans (hno hn)
        · exact ⟨of_decide_eq_true hy,(fun _ h => by cases h),
            (releaseCoordination_frame _ k).2.1.trans (hyes hy)⟩
    | remove =>
      obtain ⟨hno,hyes⟩ := acceptOneShot_snapshot cfg s ch r q true none none
      refine recorded_of_commit cfg s t ch [] (List.append_nil _).symm (by simp) hno
        fun hy => ?_
      exact ⟨of_decide_eq_true hy,(fun _ h => by cases h),hyes hy⟩
    | worker c =>
      refine recorded_of_commit cfg s t ch [] (List.append_nil _).symm (by simp)
        (fun hn => ?_) fun hy => ?_
      all_goals simp only [effect,commitRpc,commitWorker]
      all_goals rcases acceptWorker_cases cfg ch.now s r q c with ⟨hq,he⟩ | ⟨hw,hq,he⟩
      · rw [he]
      · simp [hw,hq] at hn
      · rw [hq] at hy
        cases hy
      · refine ⟨hq,fun d hd => by cases hd; exact hw,?_⟩
        rcases he with he | ⟨-,-,he⟩ <;> rw [he] <;> rfl
    | active o => exact recorded_active cfg s t ch h hi
  | _ => simp [Instr.records] at hrec

/-- Every accepted completion is that of the commit that runs. -/
theorem effect_accepted (h : Rep s) {i : Instr} (hi : i.Owned s) {x q : ℕ} {k : RpcKind}
    {r : CallResult} {now : String}
    (he : .accepted x q k r now ∈ (effect cfg alive t fresh ch s i).events) :
    ∃ call, i = .commit call q r ∧ k = call.kind s ∧ s.lastAppliedRpcSequence < q ∧
      ∀ c, call = .worker c → workerIsCurrent s c = true := by
  cases effect_recorded cfg s alive t fresh ch h hi with
  | nothing hno => exact absurd trivial (hno _ he)
  | localFailure r' after hev hafter =>
    rw [hev] at he
    rcases List.mem_cons.mp he with he | he
    · cases he
    · exact absurd trivial (hafter _ he)
  | accepted call q' r' after hik hq hw hev hafter =>
    rw [hev] at he
    rcases List.mem_cons.mp he with he | he
    · obtain ⟨-,rfl,rfl,rfl,-⟩ := Event.accepted.inj he
      exact ⟨call,hik,rfl,hq,hw⟩
    · exact absurd trivial (hafter _ he)

/-- Only an accepted completion moves the applied sequence. -/
theorem effect_lastApplied (h : Rep s) {i : Instr} (hi : i.Owned s) :
    (effect cfg alive t fresh ch s i).state.lastAppliedRpcSequence = s.lastAppliedRpcSequence ∨
    ∃ call q r, i = .commit call q r ∧ s.lastAppliedRpcSequence < q ∧
      (∀ c, call = .worker c → workerIsCurrent s c = true) ∧
      (effect cfg alive t fresh ch s i).state.lastAppliedRpcSequence = q := by
  cases effect_recorded cfg s alive t fresh ch h hi with
  | nothing hno hst => exact Or.inl (by rw [hst])
  | localFailure r after hev hafter hst => exact Or.inl (by rw [hst]; rfl)
  | accepted call q r after hik hq hw hev hafter hst =>
    exact Or.inr ⟨call,q,r,hik,hq,hw,by rw [hst]; rfl⟩

end

/-! ### The status of every reachable system -/

/-- A completion that waits for its commit is an RPC of the history. -/
def Instr.Issued (s : State) (l : List Rpc) : Instr → Prop
  | .commit call q r => (⟨q,call.kind s,r⟩ : Rpc) ∈ l
  | _ => True

structure Status (cfg : Config) (s : System) : Prop where
  applied : s.shared.lastAppliedRpcSequence ≤ s.shared.rpcSequence
  bounded : ∀ x ∈ s.completions, x.sequence ≤ s.shared.lastAppliedRpcSequence
  ordered : s.completions.Pairwise fun x y => x.sequence < y.sequence
  issued : ∀ x ∈ s.completions, x ∈ s.rpcs
  registered : s.shared.registered = s.completions.foldl Rpc.registers false
  described : s.shared.toSnapshot.Describes cfg s.history
  commits : s.Everywhere fun _ i => i.Issued s.shared s.rpcs

theorem completionsOf_eq_nil {l : List Event} (h : ∀ e ∈ l, ¬ e.Records) :
    completionsOf l = [] := by
  unfold completionsOf
  rw [List.filterMap_eq_nil_iff]
  intro e he
  cases e with
  | accepted => exact absurd trivial (h _ he)
  | _ => rfl

theorem Snapshot.Describes.append {cfg : Config} {n : Snapshot} {l l' : List Event}
    (h : n.Describes cfg l) (hl : ∀ e ∈ l', ¬ e.Records) : n.Describes cfg (l ++ l') := by
  have hafter : ∀ after : List Event, (∀ e ∈ after, ¬ e.Records) →
      ∀ e ∈ after ++ l', ¬ e.Records := by
    intro after ha e he
    rcases List.mem_append.mp he with he | he
    · exact ha e he
    · exact hl e he
  cases h with
  | blank hno hn => exact .blank (hafter l hno) hn
  | completion before after t q k r now he ha hmax hs =>
    refine .completion before (after ++ l') t q k r now (by simp [he]) (hafter after ha) ?_ hs
    rw [completionsOf_append,completionsOf_eq_nil hl,List.append_nil]
    exact hmax
  | localFailure before after r now he ha hs =>
    exact .localFailure before (after ++ l') r now (by simp [he]) (hafter after ha) hs

namespace Status
variable {cfg : Config} {s : System}

theorem blank : Status cfg .blank where
  applied := le_rfl
  bounded x hx := by simp [System.completions,System.blank] at hx
  ordered := .nil
  issued x hx := by simp [System.completions,System.blank] at hx
  registered := rfl
  described := .blank (by simp [System.blank]) rfl
  commits t i hi := by simp [System.blank] at hi

theorem called (h : Status cfg s) (c : Call) : Status cfg (s.called cfg c) := by
  have hc : (s.called cfg c).completions = s.completions := by
    simp [System.completions,Machine.start,machine,completionsOf,Event.toCompletion]
  constructor
  · exact h.applied
  · rw [hc]
    exact h.bounded
  · rw [hc]
    exact h.ordered
  · rw [hc,System.rpcs_called]
    exact h.issued
  · rw [hc]
    exact h.registered
  · refine h.described.append fun e he => ?_
    obtain rfl := List.mem_singleton.mp he
    exact id
  · rw [System.rpcs_called]
    refine Machine.Everywhere.start h.commits fun i hi => ?_
    have hpl := Plain.entry cfg c i hi
    cases i with
    | commit => simp at hpl
    | _ => trivial

section After
variable {t : ℕ} {i : Instr} {rest : List Instr} {ch : Choice}
variable (h : Status cfg s) (hinv : Invariant s) (hc : s.code t = i :: rest)
include hinv hc

theorem commits_after (h : Status cfg s) : (s.after cfg t i rest ch).Everywhere fun _ j =>
    j.Issued (effect cfg s.alive t s.next ch s.shared i).state
      (s.rpcs ++ i.issues s.shared ch) := by
  have hmem : i ∈ s.code t := by simp [hc]
  have hl := effect_lifecycle_grows cfg hinv.rep.lifecycle s.alive t s.next ch i
  have hg := effect_cleanup_grows cfg hinv.rep s.alive t s.next ch (hinv.owned hmem)
  have hkind : ∀ call, ∀ t' j, j ∈ s.code t' → j.role = .call call →
      call.kind (effect cfg s.alive t s.next ch s.shared i).state = call.kind s.shared := by
    intro call t' j hj hr
    cases call with
    | worker c =>
      have ho := hinv.runs (c := c) hj (by simp [Instr.plays,hr,Role.runs])
      simp only [RpcCall.kind,(hl.contexts c (hinv.rep.lifecycle.owned ho).1).1]
    | active o =>
      have ha := hinv.executes (o := o) hj (by simp [Instr.plays,hr,Role.executes])
      simp only [RpcCall.kind,(hg.operation o (hinv.rep.cleanup.active o ha).1).1]
    | register | remove => rfl
  refine h.commits.advance (hinv.named.lt (by simp [hc])) hc (fun t' j hj _ hiss => ?_)
    (fun j hj => ?_) fun body hb j hj => ?_
  · cases j with
    | commit call q r =>
      refine List.mem_append_left _ ?_
      rw [hkind call t' _ hj rfl]
      exact hiss
    | _ => trivial
  · cases j with
    | commit call q r =>
      have hnext := effect_push_next cfg s.shared s.alive t s.next ch hj
      cases i with
      | rpc call' =>
        obtain ⟨rfl,rfl,rfl⟩ : call = call' ∧ q = s.shared.rpcSequence + 1 ∧
            r = call'.outcome ch.outcome := by
          simpa [effect,callRegistry] using hj
        exact List.mem_append_right _ (by simp [Instr.issues,hkind call t _ hmem rfl])
      | commit call' =>
        cases call' <;> simp [Instr.Next] at hnext
      | schedulePendingRemove caller =>
        cases caller <;> simp [Instr.Next,Scheduler.returned,Scheduler.failed] at hnext
      | _ => simp [Instr.Next] at hnext
    | _ => trivial
  · rcases effect_spawn_cases cfg s.shared t s.next s.alive ch i with
      hs | ⟨a,-,-,-,hs⟩ | ⟨k,o,-,-,-,hs⟩ <;> rw [hs] at hb
    · cases hb
    · obtain rfl := Option.some.inj hb
      simp only [List.mem_cons,List.not_mem_nil,or_false] at hj
      rcases hj with rfl | rfl <;> trivial
    · obtain rfl := Option.some.inj hb
      obtain rfl := List.mem_singleton.mp hj
      trivial

include h in
theorem after (hnum : Numbered s) : Status cfg (s.after cfg t i rest ch) := by
  have hmem : i ∈ s.code t := by simp [hc]
  have hcommits : (s.after cfg t i rest ch).Everywhere fun _ j =>
      j.Issued (s.after cfg t i rest ch).shared (s.after cfg t i rest ch).rpcs := by
    rw [System.rpcs_after]
    exact commits_after hinv hc h
  have hseq := (effect_rpcs cfg s.shared s.alive t s.next ch i).2
  have hcomp : (s.after cfg t i rest ch).completions = s.completions ++
      completionsOf (effect cfg s.alive t s.next ch s.shared i).events := by
    simp [System.completions]
  have hrpcs : ∀ x ∈ s.rpcs, x ∈ (s.after cfg t i rest ch).rpcs := fun x hx => by
    rw [System.rpcs_after]
    exact List.mem_append_left _ hx
  cases effect_recorded cfg s.shared s.alive t s.next ch hinv.rep (hinv.owned hmem) with
  | nothing hno hst =>
    have hnil := completionsOf_eq_nil hno
    have hsame : (s.after cfg t i rest ch).completions = s.completions := by rw [hcomp,hnil]; simp
    refine ⟨?_,?_,?_,?_,?_,?_,hcommits⟩
    all_goals try rw [hsame]
    all_goals try simp only [Sys.advance_shared,Sys.advance_history,hst]
    · have := h.applied
      omega
    · exact h.bounded
    · exact h.ordered
    · exact fun x hx => hrpcs x (h.issued x hx)
    · exact h.registered
    · exact h.described.append hno
  | localFailure r after he hafter hst =>
    have hnil : completionsOf (effect cfg s.alive t s.next ch s.shared i).events = [] := by
      rw [he]
      exact completionsOf_eq_nil (l := after) hafter
    have hsame : (s.after cfg t i rest ch).completions = s.completions := by rw [hcomp,hnil]; simp
    refine ⟨?_,?_,?_,?_,?_,?_,hcommits⟩
    all_goals try rw [hsame]
    all_goals try simp only [Sys.advance_shared,Sys.advance_history,hst]
    · have := h.applied
      simp only [recordResultLocked]
      omega
    · exact h.bounded
    · exact h.ordered
    · exact fun x hx => hrpcs x (h.issued x hx)
    · exact h.registered
    · exact .localFailure s.history after r ch.now (by rw [he]) hafter (Snapshot.shows_record ..)
  | accepted call q r after hi hlt hw he hafter hst =>
    subst hi
    have hone : completionsOf
        (effect cfg s.alive t s.next ch s.shared (.commit call q r)).events =
        [⟨q,call.kind s.shared,r⟩] := by
      rw [he]
      exact congrArg (List.cons _) (completionsOf_eq_nil hafter)
    have hsame : (s.after cfg t (.commit call q r) rest ch).completions = s.completions ++
        [⟨q,call.kind s.shared,r⟩] := by rw [hcomp,hone]
    have hissued : (⟨q,call.kind s.shared,r⟩ : Rpc) ∈ s.rpcs := h.commits t _ hmem
    have hq : q ≤ s.shared.rpcSequence := by
      have hmap : q ∈ s.rpcs.map Rpc.sequence := List.mem_map.mpr ⟨_,hissued,rfl⟩
      rw [hnum.sequences,List.mem_range'_1] at hmap
      omega
    refine ⟨?_,?_,?_,?_,?_,?_,hcommits⟩
    all_goals try rw [hsame]
    all_goals try simp only [Sys.advance_shared,Sys.advance_history,hst]
    · simp only [applyResult,applySequence]
      omega
    · intro x hx
      rcases List.mem_append.mp hx with hx | hx
      · exact (h.bounded x hx).trans hlt.le
      · obtain rfl := List.mem_singleton.mp hx
        exact le_rfl
    · refine List.pairwise_append.mpr ⟨h.ordered,List.pairwise_singleton _ _,fun x hx y hy => ?_⟩
      obtain rfl := List.mem_singleton.mp hy
      exact (h.bounded x hx).trans_lt hlt
    · intro x hx
      rcases List.mem_append.mp hx with hx | hx
      · exact hrpcs x (h.issued x hx)
      · obtain rfl := List.mem_singleton.mp hx
        exact hrpcs _ hissued
    · rw [List.foldl_append,← h.registered]
      exact RpcCall.registers cfg ch.now s.shared s.shared call r q
    · refine .completion s.history after t q (call.kind s.shared) r ch.now (by rw [he]) hafter ?_
        (Snapshot.shows_apply cfg ch.now s.shared r q call.operation)
      intro x hx
      rw [he,completionsOf_append] at hx
      rcases List.mem_append.mp hx with hx | hx
      · exact (h.bounded x hx).trans hlt.le
      · have hx : x ∈ (⟨q,call.kind s.shared,r⟩ : Rpc) :: completionsOf after := hx
        rw [completionsOf_eq_nil hafter,List.mem_singleton] at hx
        exact hx ▸ le_rfl

end After
end Status

variable {cfg : Config}

theorem Reachable.status {s : System} (h : Reachable cfg s) : Status cfg s := by
  have hboth : Numbered s ∧ Status cfg s := by
    refine h.induct (I := fun s => Numbered s ∧ Status cfg s) ⟨⟨rfl⟩,.blank⟩
      (fun s c _ hi => ⟨hi.1.called c,hi.2.called c⟩) ?_
    rintro s t i rest ch hinv ⟨hnum,hst⟩ hc -
    exact ⟨hnum.after t i rest ch,hst.after hinv hc hnum⟩
  exact hboth.2

/-- What one step adds to the completions: a Worker's only while that Worker is current. -/
theorem step_completions {s s' : System} {a : Action Choice Call} (hinv : Invariant s)
    (hs : step cfg s a = some s') : ∃ new, s'.completions = s.completions ++ new ∧
      ∀ x ∈ new, ∀ c g, x.kind = .worker c g → workerIsCurrent s.shared c = true := by
  cases a with
  | call c =>
    obtain rfl := Option.some.inj hs
    refine ⟨[],?_,by simp⟩
    simp [System.completions,Machine.start,machine,completionsOf,Event.toCompletion]
  | run t ch =>
    obtain ⟨i,rest,hc,-,rfl⟩ := step_run_cases hs
    have hmem : i ∈ s.code t := by simp [hc]
    refine ⟨completionsOf (effect cfg s.alive t s.next ch s.shared i).events,
      by simp [System.completions],fun x hx c g hk => ?_⟩
    cases effect_recorded cfg s.shared s.alive t s.next ch hinv.rep (hinv.owned hmem) with
    | nothing hno =>
      rw [completionsOf_eq_nil hno] at hx
      cases hx
    | localFailure r after he hafter =>
      rw [he] at hx
      have hx : x ∈ completionsOf after := hx
      rw [completionsOf_eq_nil hafter] at hx
      cases hx
    | accepted call q r after hi hlt hw he hafter =>
      rw [he] at hx
      have hx : x ∈ (⟨q,call.kind s.shared,r⟩ : Rpc) :: completionsOf after := hx
      rw [completionsOf_eq_nil hafter,List.mem_singleton] at hx
      subst hx
      cases call with
      | worker d =>
        simp only [RpcCall.kind,RpcKind.worker.injEq] at hk
        exact hw c (by rw [hk.1])
      | _ => cases hk

/-- The status of every reachable state is that of its accepted completions, which follow the
network order. -/
theorem registry_status_ordered {s : System} (h : Reachable cfg s) :
    s.shared.lastAppliedRpcSequence ≤ s.shared.rpcSequence ∧
    s.rpcs.Pairwise (fun x y => x.sequence ≠ y.sequence) ∧
    s.completions.Pairwise (fun x y => x.sequence < y.sequence) ∧
    (∀ x ∈ s.completions, x ∈ s.rpcs) ∧
    s.shared.registered = s.completions.foldl Rpc.registers false ∧
    s.shared.toSnapshot.Describes cfg s.history ∧
    ∀ a s', step cfg s a = some s' → ∃ new, s'.completions = s.completions ++ new ∧
      ∀ x ∈ new, ∀ c g, x.kind = .worker c g → workerIsCurrent s.shared c = true := by
  have hst := h.status
  exact ⟨hst.applied,h.numbered.sorted.imp fun hlt => hlt.ne,hst.ordered,hst.issued,
    hst.registered,hst.described,fun _ _ => step_completions h.invariant⟩

/-- A renewal that is overtaken by a later register is not accepted, and the status shows the
register. -/
theorem registry_status_ordered_overtaken : ∃ s : System,
    (s.shared.lastAppliedRpcSequence = 2 ∧ s.completions.length = 1 ∧ s.rpcs.length = 2) ∧
    s.shared.registered = s.completions.foldl Rpc.registers false ∧
    s.shared.toSnapshot.Describes .plain s.history := by
  obtain ⟨s,hr,hp⟩ := Run.exists_of_schedule (f := Registry.step .plain) (s := .blank)
    (l := [.call .start, proceed 0, proceed 0, proceed 0, proceed 1, proceed 1, proceed 1,
      proceed 1, proceed 1, proceed 1, refuse 1, .call .registerExecutor, proceed 2, proceed 2,
      proceed 2, proceed 2, proceed 1])
    (p := fun s => s.shared.lastAppliedRpcSequence = 2 ∧ s.completions.length = 1 ∧
      s.rpcs.length = 2) (by decide +kernel)
  have hst := registry_status_ordered hr
  exact ⟨s,by simpa using hp,hst.2.2.2.2.1,hst.2.2.2.2.2.1⟩

end FlaskXxlJob.Registry
