import FlaskXxlJob.Registry.ConcurrentStarts

/-! The Prepared-start protocol as a whole, in every reachable system. -/
namespace FlaskXxlJob.Registry
open FlaskXxlJob.Client Interleaving

variable {cfg : Config}

/-- Everything of the Registry but its Prepared tokens: the committed lifecycle, the Removes and
the coordination, the status snapshot, the log closing and the network. -/
structure SameRegistry (s s' : State) : Prop where
  generation : s'.generation = s.generation
  worker : s'.worker = s.worker
  stopping : s'.stoppingWorkers = s.stoppingWorkers
  cleanup : s'.toCleanup = s.toCleanup
  snapshot : s'.toSnapshot = s.toSnapshot
  logClosing : s'.toLogClosing = s.toLogClosing
  network : s'.toNetwork = s.toNetwork

theorem SameRegistry.refl (s : State) : SameRegistry s s := ⟨rfl,rfl,rfl,rfl,rfl,rfl,rfl⟩

/-- Preparing a token, cancelling or settling it and setting its Events. -/
def Instr.handlesToken : Instr → Bool
  | .prepareStart _ | .cancelPreparedStart _ | .settlePrepared _ | .setStop _ | .setActivate _ =>
    true
  | _ => false

theorem effect_handlesToken (cfg : Config) (s : State) (alive : ℕ → Bool) (t fresh : ℕ) (ch : Choice)
    {i : Instr} (hi : i.handlesToken = true) :
    SameRegistry s (effect cfg alive t fresh ch s i).state := by
  cases i with
  | prepareStart activate =>
    simp only [effect]
    rcases prepareStart_cases s t fresh activate ch.startError with
      he | ⟨e,he⟩ | ⟨-,he⟩ <;> rw [he]
    · exact .refl s
    · exact .refl s
    · exact ⟨rfl,rfl,rfl,rfl,rfl,rfl,rfl⟩
  | cancelPreparedStart p =>
    simp only [effect]
    rcases cancelPreparedStart_cases s p with ⟨-,he⟩ | ⟨-,he⟩ <;> rw [he]
    · exact .refl s
    · exact ⟨rfl,rfl,rfl,rfl,rfl,rfl,rfl⟩
  | settlePrepared p =>
    simp only [effect]
    rcases settlePrepared_cases s p with he | ⟨-,he⟩ | ⟨-,-,-,he⟩ <;> rw [he]
    · exact .refl s
    · exact ⟨rfl,rfl,rfl,rfl,rfl,rfl,rfl⟩
    · exact .refl s
  | setStop c => exact ⟨rfl,rfl,rfl,rfl,rfl,rfl,rfl⟩
  | setActivate p => exact ⟨rfl,rfl,rfl,rfl,rfl,rfl,rfl⟩
  | _ => simp [Instr.handlesToken] at hi

/-- A cancel or settlement that does not own the slot any more only retries the Event of its own
committed Worker. -/
theorem effect_stale (cfg : Config) {s : State} (alive : ℕ → Bool) (t fresh : ℕ) (ch : Choice)
    {i : Instr} {p : ℕ} (hi : i = .cancelPreparedStart p ∨ i = .settlePrepared p)
    (hp : s.preparedStart ≠ some p) : (effect cfg alive t fresh ch s i).state = s ∧
      ∀ j ∈ (effect cfg alive t fresh ch s i).push, j = .setActivate p := by
  rcases hi with rfl | rfl
  · simp only [effect]
    rcases cancelPreparedStart_cases s p with ⟨-,he⟩ | ⟨hp',-⟩
    · rw [he]
      exact ⟨rfl,by simp⟩
    · exact absurd hp' hp
  · simp only [effect]
    rcases settlePrepared_cases s p with he | ⟨hp',-⟩ | ⟨-,-,-,he⟩
    · rw [he]
      exact ⟨rfl,by simp⟩
    · exact absurd hp' hp
    · rw [he]
      exact ⟨rfl,by simp⟩

/-- The Prepared-start protocol. -/
structure PreparedProtocol (cfg : Config) (s : System) : Prop where
  outcome : ∀ p, s.history.countP (Event.commits p) + s.history.countP (Event.cancels p) ≤ 1
  holder : ∀ p t, .committed p t ∈ s.history → Holds s.history t p
  commit : ∀ t i rest ch p x, s.code t = i :: rest →
    .committed p x ∈ (effect cfg s.alive t s.next ch s.shared i).events →
    x = t ∧ i = .activatePreparedStart p ∧ s.shared.preparedStart = some p
  unchanged : ∀ t i rest ch, s.code t = i :: rest → i.handlesToken = true →
    SameRegistry s.shared (effect cfg s.alive t s.next ch s.shared i).state ∧
      rpcsOf (effect cfg s.alive t s.next ch s.shared i).events = []
  silent : ∀ p < s.shared.nextPrepared, s.history.countP (Event.commits p) = 0 →
    ∀ e ∈ s.history, e.performedBy (threadOf s.shared p) = false
  cancelled : ∀ p, .cancelled p ∈ s.history →
    ∀ e ∈ s.history, e.performedBy (threadOf s.shared p) = false
  finishes : ∀ p < s.shared.nextPrepared,
    s.history.countP (Event.finishes p) ≤ s.history.countP (Event.commits p) ∧
    (s.code (threadOf s.shared p) = [] →
      s.history.countP (Event.finishes p) = s.history.countP (Event.commits p))
  finisher : ∀ p t, .finished p t ∈ s.history → t = threadOf s.shared p
  settled : Quiescent cfg s → ∀ p, s.shared.worker ≠ some p →
    s.history.countP (Event.finishes p) = s.history.countP (Event.commits p)
  running : ∀ c, s.shared.worker = some c → s.history.countP (Event.finishes c) = 0 ∧
    ∃ i ∈ s.code (threadOf s.shared c), i.attends c = true ∧ i ≠ .finishWorker c
  stale : ∀ t i rest ch p, s.code t = i :: rest →
    i = .cancelPreparedStart p ∨ i = .settlePrepared p → s.shared.preparedStart ≠ some p →
    (effect cfg s.alive t s.next ch s.shared i).state = s.shared ∧
      ∀ j ∈ (effect cfg s.alive t s.next ch s.shared i).push, j = .setActivate p
  stops : ∀ t c, .setStop c ∈ s.code t → .cancelled c ∈ s.history ∧
    ownsLifecycle s.shared c = false
  waits : ∀ t p, .waitActivate p ∈ s.code t → t = threadOf s.shared p
  starts : cfg.enabled = true → cfg.registryError = none → s.shared.worker = none →
    s.shared.preparedStart = none → ∀ s', Run (step cfg) OnlyStarts s s' →
    (∃ t, s.next ≤ t ∧ .called t .start ∈ s'.history) →
    (∀ t, .called t .start ∈ s'.history → s'.code t = []) →
    (∃ c, s'.shared.worker = some c) ∧
      s'.history.countP Event.isCommitted = s.history.countP Event.isCommitted + 1

section
variable {s : System} (h : Reachable cfg s)
include h

theorem Reachable.commits_le (p : ℕ) :
    s.history.countP (Event.commits p) + s.history.countP (Event.cancels p) ≤ 1 :=
  (h.tokenAccount.settled p).trans_le (Bool.toNat_le _)

/-- A Worker whose lifecycle is not over has a thread that is still to finish it. -/
theorem Reachable.attended {c : ℕ} (ho : ownsLifecycle s.shared c = true) :
    ∃ i ∈ s.code (threadOf s.shared c), i.attends c = true := by
  have hinv := h.invariant
  have hone := hinv.workers.owned c ho
  have hsome : ∃ t, ∃ i ∈ s.code t, i.attends c = true := by
    rcases Nat.eq_zero_or_pos (s.count (Instr.plays (Role.runs c))) with h0 | hpos
    · have hn : 0 < s.count (Instr.plays (Role.enters c)) := by omega
      obtain ⟨t,i,hi,hp⟩ := System.exists_of_count hn
      exact ⟨t,i,hi,by simp [Instr.attends,hp]⟩
    · obtain ⟨t,i,hi,hp⟩ := System.exists_of_count hpos
      exact ⟨t,i,hi,by simp [Instr.attends,hp]⟩
  obtain ⟨t,i,hi,ha⟩ := hsome
  obtain ⟨-,rfl⟩ := h.tokenThreads.attended t i hi c ha
  exact ⟨i,hi,ha⟩

theorem Reachable.finishes_eq {p : ℕ} (ho : ownsLifecycle s.shared p = false) :
    s.history.countP (Event.finishes p) = s.history.countP (Event.commits p) := by
  have := h.tokenAccount.finished p
  rw [ho,Bool.toNat_false] at this
  omega

theorem prepared_protocol : PreparedProtocol cfg s where
  outcome := h.commits_le
  holder := h.holders.committers
  commit t i rest ch p x hc he := by
    have hem := effect_event_emits cfg s.shared s.alive t s.next ch he
    cases i with
    | activatePreparedStart q =>
      obtain ⟨rfl,rfl⟩ : p = q ∧ x = t := by simpa [Instr.Emits,Event.OfPending] using hem
      refine ⟨rfl,rfl,?_⟩
      simp only [effect] at he
      rcases activatePreparedStart_cases x h.invariant.rep.lifecycle p with ⟨-,hp⟩ | ⟨hp,-⟩
      · simp [hp] at he
      · exact hp
    | _ => simp [Instr.Emits,Event.OfPending] at hem
  unchanged t i rest ch _ hi := by
    refine ⟨effect_handlesToken cfg s.shared s.alive t s.next ch hi,
      effect_silent cfg s.shared s.alive t s.next ch fun call hcall => ?_⟩
    subst hcall
    cases hi
  silent p hp h0 := (h.tokenThreads.waiting p hp h0).2
  cancelled p hcan := by
    have hpos : 0 < s.history.countP (Event.cancels p) :=
      List.countP_pos_iff.mpr ⟨_,hcan,by simp [Event.cancels]⟩
    have hle := h.commits_le p
    have hset := h.tokenAccount.settled p
    have hlt : p < s.shared.nextPrepared := by
      by_contra hn
      have : hasLeft s.shared p = false := by simp [hasLeft,hn]
      rw [this,Bool.toNat_false] at hset
      omega
    exact (h.tokenThreads.waiting p hlt (by omega)).2
  finishes p hp := by
    have hfin := h.tokenAccount.finished p
    refine ⟨by omega,fun hnil => h.finishes_eq ?_⟩
    rw [Bool.eq_false_iff]
    intro ho
    obtain ⟨i,hi,-⟩ := h.attended ho
    simp [hnil] at hi
  finisher p t hf := (h.tokenThreads.finished p t hf).2
  settled hq p hne := by
    apply h.finishes_eq
    rw [Bool.eq_false_iff]
    exact fun ho => hne (hq.owned h ho)
  running c hw := by
    have ho : ownsLifecycle s.shared c = true := ownsLifecycle_iff.mpr (Or.inl hw)
    have hfin := h.tokenAccount.finished c
    have hle := h.commits_le c
    rw [ho,Bool.toNat_true] at hfin
    obtain ⟨i,hi,ha⟩ := h.attended ho
    exact ⟨by omega,i,hi,ha,fun he => h.holders.leaving _ i hi c he hw⟩
  stale t i rest ch p _ hi hp := effect_stale cfg s.alive t s.next ch hi hp
  stops t c hi := by
    have hcan := h.holders.stops t _ hi c rfl
    exact ⟨hcan,(Holders.cancelled_idle h hcan).2.2⟩
  waits t p hi := (h.tokenThreads.attended t _ hi p (by simp [Instr.attends])).2
  starts hen hreg hw hp s' hr hcall hdone := starts_commit_one h hen hreg hw hp hr hcall hdone

end

/-- One token committed by `start`, stopped before its first RPC and finished, and one that
`stop` cancelled. -/
theorem prepared_protocol_stopped : ∃ s : System, (s.shared.nextPrepared = 2 ∧
    .committed 0 0 ∈ s.history ∧ .finished 0 1 ∈ s.history ∧ .cancelled 1 ∈ s.history ∧
    s.rpcs = []) ∧ PreparedProtocol .plain s := by
  obtain ⟨s,hr,hp⟩ := Run.exists_of_schedule (f := step .plain) (s := .blank)
    (l := [.call .start, proceed 0, proceed 0, proceed 0, .call (.stop false), proceed 2,
      proceed 1, proceed 1, proceed 1, proceed 1, .call .prepareStart, proceed 3,
      .call (.stop false), proceed 5])
    (p := fun s => s.shared.nextPrepared = 2 ∧ .committed 0 0 ∈ s.history ∧
      .finished 0 1 ∈ s.history ∧ .cancelled 1 ∈ s.history ∧ s.rpcs = []) (by decide +kernel)
  exact ⟨s,by simpa using hp,prepared_protocol hr⟩

end FlaskXxlJob.Registry
