import FlaskXxlJob.Registry.Inversion

/-! The control flow of the service: what each instruction may push, and which events it may
record. -/
namespace FlaskXxlJob.Registry
open FlaskXxlJob.Client Interleaving

/-- `i.Next j`: running `i` may push `j`. -/
def Instr.Next : Instr → Instr → Prop
  | .prepareStart _, j => ∃ p, j = .activatePreparedStart p
  | .activatePreparedStart p, j =>
    (∃ o, j = .setOperationDone o) ∨ (∃ k, j = .setCoordinationDone k) ∨ j = .setActivate p
  | .cancelPreparedStart p, j | .settlePrepared p, j => (∃ c, j = .setStop c) ∨ j = .setActivate p
  | .preparedWorkerEntry c, j => j = .runWorker c
  | .runWorker c, j => (∃ o, j = .waitRemove c o) ∨ j = .workerLoop c ∨ j = .finishWorker c
  | .waitRemove c _, j => j = .recheckWorker c
  | .recheckWorker c, j => j = .workerLoop c ∨ j = .finishWorker c
  | .workerLoop c, j => j = .performWorkerRegistry c ∨ j = .finishWorker c
  | .performWorkerRegistry c, j => j = .network (.worker c) ∨ j = .finishWorker c
  | .sleep c, j => j = .recheckWorker c ∨ j = .finishWorker c
  | .finishWorker _, j => (∃ o, j = .network (.active o)) ∨ j = .schedulePendingRemove .quiet ∨
      j = .maybeCloseLogs
  | .network call, j => j = .rpc call ∨ ∃ c, call = .worker c ∧ j = .finishWorker c
  | .rpc call, j => ∃ q r, j = .commit call q r
  | .commit (.register k g) q r, j => (∃ k', k = some k' ∧ j = .setCoordinationDone k') ∨
      j = .schedulePendingRemove .quiet ∨ j = .maybeCloseLogs ∨ j = .returnRegister q g r
  | .commit .remove _ r, j => j = .returnRemove r
  | .commit (.worker c) _ _, j => j = .sleep c ∨ j = .finishWorker c
  | .commit (.active _) _ _, j => (∃ o, j = .setOperationDone o) ∨
      j = .schedulePendingRemove .quiet ∨ j = .maybeCloseLogs
  | .stop _, j => (∃ c, j = .setStop c) ∨ (∃ p, j = .setActivate p) ∨
      j = .schedulePendingRemove .stop ∨ j = .maybeCloseLogs
  | .shutdown _, j => (∃ c, j = .setStop c) ∨ (∃ p, j = .setActivate p) ∨
      (∃ g, j = .shutdownRequest g) ∨ (∃ r, j = .recordLocalFailure r) ∨ j = .maybeCloseLogs
  | .shutdownRequest _, j => j = .schedulePendingRemove .shutdown
  | .joinRegister, j => (∃ k, j = .setCoordinationDone k) ∨
      ∃ k g, j = .network (.register k g)
  | .removeOnce, j => (∃ g, j = .terminalRemove g) ∨ j = .network .remove
  | .terminalRemove g, j => j = .network .remove ∨ (∃ k, j = .waitCoordination k) ∨
      j = .terminalRemove g ∨ (∃ r, j = .returnRemove r) ∨ (∃ o, j = .waitOperation o) ∨
      (∃ o, j = .operationResult o) ∨ (∃ o, j = .schedulePendingRemove (.observer o g)) ∨
      ∃ o, j = .network (.active o)
  | .operationResult _, j => ∃ r, j = .returnRemove r
  | .pendingResult _ g, j => (∃ r, j = .returnRemove r) ∨ j = .terminalRemove g
  | .schedulePendingRemove caller, j => (∃ o, j = .setOperationDone o) ∨ j ∈ caller.returned ∨
      j ∈ caller.failed
  | .runCleanupActor o, j => j = .network (.active o) ∨ j = .finishCleanupActor o
  | .finishCleanupActor _, j => j = .schedulePendingRemove .quiet ∨ j = .maybeCloseLogs
  | .maybeCloseLogs, j => j = .closeLogs
  | _, _ => False

theorem mem_wakeCancelled {s : State} {x : Option ℕ} {j : Instr} (h : j ∈ wakeCancelled s x) :
    (∃ c, j = .setStop c) ∨ ∃ p, x = some p ∧ j = .setActivate p := by
  cases x with
  | none => simp [wakeCancelled] at h
  | some p =>
    simp only [wakeCancelled,List.mem_cons,List.not_mem_nil,or_false] at h
    rcases h with rfl | rfl
    · exact Or.inl ⟨_,rfl⟩
    · exact Or.inr ⟨p,rfl,rfl⟩

theorem effect_push_next (cfg : Config) (s : State) (alive : ℕ → Bool) (t fresh : ℕ)
    (ch : Choice) {i j : Instr} (hj : j ∈ (effect cfg alive t fresh ch s i).push) : i.Next j := by
  cases i with
  | prepareStart activate =>
    simp only [effect] at hj
    rcases prepareStart_cases s t fresh activate ch.startError with
      he | ⟨e,he⟩ | ⟨-,he⟩ <;> rw [he] at hj
    · simp at hj
    · simp at hj
    · cases activate <;> simp at hj
      exact ⟨_,hj⟩
  | activatePreparedStart p =>
    simp only [effect,activatePreparedStart] at hj
    split at hj
    · simp at hj
    · simp at hj
    · simp only [List.mem_append,List.mem_map,List.mem_singleton] at hj
      rcases hj with (⟨o,-,rfl⟩ | ⟨k,-,rfl⟩) | rfl <;> simp [Instr.Next]
  | cancelPreparedStart p =>
    simp only [effect] at hj
    rcases cancelPreparedStart_cases s p with ⟨-,he⟩ | ⟨-,he⟩ <;> rw [he] at hj <;>
      simp at hj
    rcases hj with rfl | rfl <;> simp [Instr.Next]
  | settlePrepared p =>
    simp only [effect] at hj
    rcases settlePrepared_cases s p with he | ⟨-,he⟩ | ⟨-,-,-,he⟩ <;> rw [he] at hj <;>
      simp at hj
    · rcases hj with rfl | rfl <;> simp [Instr.Next]
    · simp [Instr.Next,hj]
  | preparedWorkerEntry c =>
    simp only [effect] at hj
    split at hj <;> simp at hj
    exact hj
  | runWorker c =>
    simp only [effect] at hj
    rcases guardCurrent_cases s c _ with ⟨-,he⟩ | ⟨-,he⟩ <;> rw [he] at hj <;> simp at hj
    · split at hj <;> simp [Instr.Next,hj]
    · simp [Instr.Next,hj]
  | workerLoop c | recheckWorker c | performWorkerRegistry c =>
    simp only [effect] at hj
    rcases guardCurrent_cases s c _ with ⟨-,he⟩ | ⟨-,he⟩ <;> rw [he] at hj <;> simp at hj <;>
      simp [Instr.Next,hj]
  | waitRemove c o =>
    simp only [effect,List.mem_singleton] at hj
    exact hj
  | sleep c =>
    simp only [effect,List.mem_singleton] at hj
    split at hj <;> simp [Instr.Next,hj]
  | finishWorker c =>
    simp only [effect] at hj
    rcases finishWorker_cases s t c with ⟨o,-,-,-,he⟩ | ⟨-,he⟩ <;> rw [he] at hj <;> simp at hj <;>
      rcases hj with rfl | rfl <;> simp [Instr.Next]
  | network call =>
    simp only [effect] at hj
    rcases enterNetwork_cases s t call with ⟨-,he⟩ | ⟨c,rfl,-,he⟩ <;> rw [he] at hj <;>
      simp at hj <;> simp [Instr.Next,hj]
  | rpc call =>
    simp only [effect,callRegistry,List.mem_singleton] at hj
    exact ⟨_,_,hj⟩
  | commit call q r =>
    cases call with
    | register k g =>
      cases k with
      | none =>
        simp only [effect,commitRpc,commitRegister,List.mem_singleton] at hj
        simp [Instr.Next,hj]
      | some k =>
        simp only [effect,commitRpc,commitRegister,List.mem_append,List.mem_cons,
          List.not_mem_nil,or_false] at hj
        rcases hj with (hj | hj) | rfl | rfl
        · split at hj <;> simp at hj
          simp [Instr.Next,hj]
        · cases hop : (releaseCoordination (acceptOneShot cfg ch.now s r q false (some g)
            (some k)) k).2.2 <;> simp [hop,scheduleFor] at hj
          simp [Instr.Next,hj]
        · simp [Instr.Next]
        · simp [Instr.Next]
    | remove =>
      simp only [effect,commitRpc,commitRemove,List.mem_singleton] at hj
      exact hj
    | worker c =>
      simp only [effect,commitRpc,commitWorker,List.mem_singleton] at hj
      split at hj <;> simp [Instr.Next,hj]
    | active o =>
      simp only [effect,commitRpc,commitActive,List.mem_append,List.mem_cons,List.mem_map,
        List.not_mem_nil,or_false] at hj
      rcases hj with (rfl | ⟨p,-,rfl⟩) | rfl | rfl <;> simp [Instr.Next]
  | stop remove =>
    simp only [effect,stop,List.mem_append] at hj
    rcases hj with hj | hj
    · rcases mem_wakeCancelled hj with ⟨c,rfl⟩ | ⟨p,-,rfl⟩ <;> simp [Instr.Next]
    · unfold scheduleOrClose at hj
      split at hj <;> simp at hj <;> simp [Instr.Next,hj]
  | shutdown deregister =>
    simp only [effect,shutdown,List.mem_append,List.mem_singleton] at hj
    rcases hj with (hj | hj) | rfl
    · rcases mem_wakeCancelled hj with ⟨c,rfl⟩ | ⟨p,-,rfl⟩ <;> simp [Instr.Next]
    · unfold exitRequest at hj
      split at hj
      · split at hj <;> simp at hj <;> simp [Instr.Next,hj]
      · simp at hj
    · simp [Instr.Next]
  | shutdownRequest g =>
    simp only [effect,shutdownRequest] at hj
    split at hj
    · cases hop : (requestRemoveLocked s).2 <;> simp [hop,scheduleFor] at hj
      exact hj
    · simp at hj
  | joinRegister =>
    simp only [effect,joinRegister,List.mem_append,List.mem_map,List.mem_singleton] at hj
    rcases hj with ⟨k,-,rfl⟩ | rfl <;> simp [Instr.Next]
  | removeOnce =>
    simp only [effect] at hj
    rcases removeOnce_cases s t with ⟨-,he⟩ | ⟨-,he⟩ <;> rw [he] at hj <;> simp at hj <;>
      simp [Instr.Next,hj]
  | terminalRemove g =>
    simp only [effect,terminalRemove] at hj
    split at hj <;> simp at hj
    all_goals rcases hj with rfl | rfl
    all_goals simp [Instr.Next]
  | operationResult o =>
    simp only [effect,List.mem_singleton] at hj
    exact ⟨_,hj⟩
  | pendingResult o g =>
    simp only [effect,List.mem_singleton] at hj
    split at hj <;> simp [Instr.Next,hj]
  | schedulePendingRemove caller =>
    simp only [effect] at hj
    rcases schedulePendingRemove_cases cfg ch.now s t fresh alive caller ch.startError with
      ⟨-,he⟩ | ⟨o,-,-,he⟩ | ⟨o,e,-,-,he⟩ <;> rw [he] at hj
    · exact Or.inr (Or.inl hj)
    · exact Or.inr (Or.inl hj)
    · rcases List.mem_cons.mp hj with rfl | hj
      · exact Or.inl ⟨o,rfl⟩
      · exact Or.inr (Or.inr hj)
  | runCleanupActor o =>
    simp only [effect] at hj
    rcases runCleanupActor_cases s o with ⟨-,-,he⟩ | ⟨-,he⟩ <;> rw [he] at hj <;> simp at hj
    · rcases hj with rfl | rfl <;> simp [Instr.Next]
    · simp [Instr.Next,hj]
  | finishCleanupActor o =>
    simp only [effect,List.mem_cons,List.not_mem_nil,or_false] at hj
    rcases hj with rfl | rfl <;> simp [Instr.Next]
  | maybeCloseLogs =>
    simp only [effect] at hj
    split at hj <;> simp at hj
    exact hj
  | _ => simp [effect] at hj

/-! ### Events -/

/-- A change of the Pending slot. -/
def Event.OfPending (e : Event) : Prop :=
  (∃ o, e = .pendingCancelled o) ∨ ∃ o g, e = .pendingCreated o g

/-- `i.Emits t e`: running `i` on thread `t` may record `e`. -/
def Instr.Emits (t : ℕ) : Instr → Event → Prop
  | .prepareStart _, e => (∃ x, e = .raised t x) ∨ ∃ p, e = .prepared p
  | .activatePreparedStart p, e => (∃ x, e = .raised t x) ∨ e.OfPending ∨ e = .committed p t
  | .cancelPreparedStart p, e | .settlePrepared p, e => e = .cancelled p
  | .finishWorker c, e => e = .finished c t
  | .rpc _, e => ∃ q k r, e = .rpc t q k r
  | .commit _ q r, e => (∃ k now, e = .accepted t q k r now) ∨ e.OfPending
  | .stop _, e => (∃ p, e = .cancelled p) ∨ e.OfPending
  | .shutdown _, e => ∃ p, e = .cancelled p
  | .shutdownRequest _, e => e.OfPending
  | .recordLocalFailure r, e => ∃ now, e = .localFailure r now
  | .removeOnce, e => ∃ g, e = .enteredRemove t g
  | .schedulePendingRemove _, e =>
    (∃ r now, e = .localFailure r now) ∨ e.OfPending ∨ ∃ x, e = .raised t x
  | .closeLogs, e => e = .logsClosed
  | .returnRegister q g r, e => e = .registerReturned t q g r
  | .returnRemove r, e => e = .removeReturned t r
  | _, _ => False

theorem mem_pendingEvents {s s' : State} {e : Event} (h : e ∈ pendingEvents s s') :
    e.OfPending := by
  unfold pendingEvents at h
  rcases List.mem_append.mp h with h | h
  · split at h
    · split at h <;> simp at h
      exact Or.inl ⟨_,h⟩
    · simp at h
  · split at h
    · split at h <;> simp at h
      exact Or.inr ⟨_,_,h⟩
    · simp at h

theorem mem_cancelledEvents {s : State} {e : Event} (h : e ∈ cancelledEvents s) :
    ∃ p, s.preparedStart = some p ∧ e = .cancelled p := by
  unfold cancelledEvents at h
  split at h <;> simp at h
  exact ⟨_,by assumption,h⟩

theorem mem_acceptedEvents {b : Bool} {t q : ℕ} {k : RpcKind} {r : CallResult} {now : String}
    {e : Event} (h : e ∈ acceptedEvents b t q k r now) : e = .accepted t q k r now := by
  unfold acceptedEvents at h
  split at h <;> simp at h
  exact h

theorem effect_event_emits (cfg : Config) (s : State) (alive : ℕ → Bool) (t fresh : ℕ)
    (ch : Choice) {i : Instr} {e : Event} (he : e ∈ (effect cfg alive t fresh ch s i).events) :
    i.Emits t e := by
  cases i with
  | prepareStart activate =>
    simp only [effect] at he
    rcases prepareStart_cases s t fresh activate ch.startError with
      hp | ⟨x,hp⟩ | ⟨-,hp⟩ <;> rw [hp] at he <;> simp at he
    · exact Or.inl ⟨x,he⟩
    · exact Or.inr ⟨_,he⟩
  | activatePreparedStart p =>
    simp only [effect,activatePreparedStart] at he
    split at he
    · simp at he
    · exact Or.inl ⟨_,List.mem_singleton.mp he⟩
    · rcases List.mem_append.mp he with he | he
      · exact Or.inr (Or.inl (mem_pendingEvents he))
      · exact Or.inr (Or.inr (List.mem_singleton.mp he))
  | cancelPreparedStart p =>
    simp only [effect] at he
    rcases cancelPreparedStart_cases s p with ⟨-,hp⟩ | ⟨-,hp⟩ <;> rw [hp] at he <;> simp at he
    exact he
  | settlePrepared p =>
    simp only [effect] at he
    rcases settlePrepared_cases s p with hp | ⟨-,hp⟩ | ⟨-,-,-,hp⟩ <;> rw [hp] at he <;>
      simp at he
    exact he
  | runWorker c | workerLoop c | recheckWorker c | performWorkerRegistry c =>
    simp only [effect] at he
    rcases guardCurrent_cases s c _ with ⟨-,hp⟩ | ⟨-,hp⟩ <;> rw [hp] at he <;> simp at he
  | finishWorker c =>
    simp only [effect] at he
    rcases finishWorker_cases s t c with ⟨o,-,-,-,hp⟩ | ⟨-,hp⟩ <;> rw [hp] at he <;>
      exact List.mem_singleton.mp he
  | network call =>
    simp only [effect] at he
    rcases enterNetwork_cases s t call with ⟨-,hp⟩ | ⟨c,-,-,hp⟩ <;> rw [hp] at he <;> simp at he
  | rpc call =>
    exact ⟨_,_,_,List.mem_singleton.mp he⟩
  | commit call q r =>
    have hcases : ∀ {b : Bool} {k : RpcKind} {s' : State},
        e ∈ acceptedEvents b t q k r ch.now ++ pendingEvents s s' →
        (Instr.commit call q r).Emits t e := by
      intro b k s' he
      rcases List.mem_append.mp he with he | he
      · exact Or.inl ⟨_,_,mem_acceptedEvents he⟩
      · exact Or.inr (mem_pendingEvents he)
    cases call with
    | register k g =>
      cases k with
      | none => exact Or.inl ⟨_,_,mem_acceptedEvents he⟩
      | some k => exact hcases he
    | remove => exact Or.inl ⟨_,_,mem_acceptedEvents he⟩
    | worker c => exact Or.inl ⟨_,_,mem_acceptedEvents he⟩
    | active o => exact hcases he
  | stop remove =>
    simp only [effect,stop] at he
    rcases List.mem_append.mp he with he | he
    · obtain ⟨p,-,he⟩ := mem_cancelledEvents he
      exact Or.inl ⟨p,he⟩
    · exact Or.inr (mem_pendingEvents he)
  | shutdown deregister =>
    obtain ⟨p,-,he⟩ := mem_cancelledEvents he
    exact ⟨p,he⟩
  | shutdownRequest g =>
    simp only [effect,shutdownRequest] at he
    split at he
    · exact mem_pendingEvents he
    · simp at he
  | recordLocalFailure r => exact ⟨_,List.mem_singleton.mp he⟩
  | removeOnce =>
    simp only [effect] at he
    rcases removeOnce_cases s t with ⟨-,hp⟩ | ⟨-,hp⟩ <;> rw [hp] at he <;> simp at he
    exact ⟨_,he⟩
  | terminalRemove g =>
    simp only [effect,terminalRemove] at he
    split at he <;> simp at he
  | schedulePendingRemove caller =>
    simp only [effect] at he
    rcases schedulePendingRemove_cases cfg ch.now s t fresh alive caller ch.startError with
      ⟨-,hp⟩ | ⟨o,-,-,hp⟩ | ⟨o,x,-,-,hp⟩ <;> rw [hp] at he
    · simp at he
    · simp at he
    · rcases List.mem_append.mp he with he | he
      · rcases List.mem_cons.mp he with he | he
        · exact Or.inl ⟨_,_,he⟩
        · exact Or.inr (Or.inl (mem_pendingEvents he))
      · cases caller <;> simp [Scheduler.raisedEvents] at he
        all_goals exact Or.inr (Or.inr ⟨_,he⟩)
  | runCleanupActor o =>
    simp only [effect] at he
    rcases runCleanupActor_cases s o with ⟨-,-,hp⟩ | ⟨-,hp⟩ <;> rw [hp] at he <;> simp at he
  | maybeCloseLogs =>
    simp only [effect] at he
    split at he <;> simp at he
  | closeLogs => exact List.mem_singleton.mp he
  | returnRegister q g r => exact List.mem_singleton.mp he
  | returnRemove r => exact List.mem_singleton.mp he
  | _ => simp [effect,joinRegister] at he

end FlaskXxlJob.Registry
