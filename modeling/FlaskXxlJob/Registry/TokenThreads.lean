import FlaskXxlJob.Registry.Tokens

/-!
The threads of Prepared tokens. A token's thread does nothing before its commit and nothing but
its own Worker after it; only a cancelled context is stopped from outside the state lock.
-/
namespace FlaskXxlJob.Registry
open FlaskXxlJob.Client Interleaving

variable {cfg : Config} {s : State}

/-- The thread that a token was prepared with. -/
def threadOf (s : State) (p : ℕ) : ℕ := (s.prepareds p).thread

/-- No step changes the thread of a published token. -/
theorem effect_threadOf (cfg : Config) (h : LifecycleInv s) (alive : ℕ → Bool) (t fresh : ℕ)
    (ch : Choice) (i : Instr) {p : ℕ} (hp : p < s.nextPrepared) :
    threadOf (effect cfg alive t fresh ch s i).state p = threadOf s p := by
  unfold threadOf
  cases hm : i.movesLifecycle with
  | false => rw [effect_toLifecycle cfg s t fresh alive ch hm]
  | true =>
    cases i with
    | prepareStart activate =>
      simp only [effect]
      rcases prepareStart_cases s t fresh activate ch.startError with
        he | ⟨e,he⟩ | ⟨-,he⟩ <;> rw [he]
      simp [publishPrepared,hp.ne]
    | activatePreparedStart p =>
      simp only [effect]
      rcases activatePreparedStart_cases t h p with ⟨-,he⟩ | ⟨-,-,he⟩ <;> rw [he]
      simp [publishWorker]
    | cancelPreparedStart p =>
      simp only [effect]
      rcases cancelPreparedStart_cases s p with ⟨-,he⟩ | ⟨-,he⟩ <;> rw [he]
      simp
    | settlePrepared p =>
      simp only [effect]
      rcases settlePrepared_cases s p with he | ⟨-,he⟩ | ⟨-,-,-,he⟩ <;> rw [he]
      simp
    | setStop d => rfl
    | setActivate q => by_cases hq : p = q <;> simp [effect,State.updatePrepared,hq]
    | stop remove => cases remove <;> simp [effect,stop,stopSection]
    | shutdown deregister => simp [effect,shutdown]
    | finishWorker d =>
      simp only [effect]
      rcases finishWorker_cases s t d with ⟨x,-,-,-,he⟩ | ⟨-,he⟩ <;> rw [he] <;> simp
    | _ => simp [Instr.movesLifecycle] at hm

/-- The instructions of the thread of token `c`, up to its `_finish_worker`. -/
def Instr.attends (c : ℕ) (i : Instr) : Bool :=
  i.plays (Role.runs c) || i.plays (Role.enters c) || decide (i = .waitActivate c)

/-- The RPCs and the ends of Workers that thread `t` has performed. -/
def Event.performedBy (t : ℕ) : Event → Bool
  | .rpc x .. | .finished _ x => x = t
  | _ => false

theorem Event.performer {t x : ℕ} {i : Instr} {e : Event} (he : i.Emits t e)
    (hx : e.performedBy x = true) :
    x = t ∧ ((∃ call, i = .rpc call) ∨ ∃ c, i = .finishWorker c) := by
  cases i <;> simp only [Instr.Emits] at he <;> grind [Event.performedBy,Event.OfPending]

theorem effect_push_attends (cfg : Config) (h : Rep s) (alive : ℕ → Bool) (t fresh : ℕ)
    (ch : Choice) {i j : Instr} {c : ℕ} (hj : j ∈ (effect cfg alive t fresh ch s i).push)
    (ha : j.attends c = true) : i.attends c = true := by
  simp only [Instr.attends,Bool.or_eq_true,decide_eq_true_eq] at ha ⊢
  rcases ha with (hr | he) | rfl
  · rcases effect_push_runs cfg alive t fresh ch h hj hr with hi | rfl
    · exact Or.inl (Or.inl hi)
    · exact Or.inl (Or.inr (by simp [Instr.plays,Role.enters]))
  · have h0 := effect_push_enters cfg (s := s) alive t fresh ch i c
    rw [List.countP_eq_zero] at h0
    exact absurd he (h0 j hj)
  · have hn := effect_push_next cfg s alive t fresh ch hj
    cases i with
    | schedulePendingRemove caller =>
      cases caller <;> simp [Instr.Next,Scheduler.returned,Scheduler.failed] at hn
    | commit call q r => cases call <;> simp [Instr.Next] at hn
    | _ => simp [Instr.Next] at hn

/-- A step publishes a token only together with its thread. -/
theorem effect_publishes (cfg : Config) (h : LifecycleInv s) (alive : ℕ → Bool) (t fresh : ℕ)
    (ch : Choice) (i : Instr) :
    (effect cfg alive t fresh ch s i).state.nextPrepared = s.nextPrepared ∨
    ((effect cfg alive t fresh ch s i).state = publishPrepared s fresh ∧
      (effect cfg alive t fresh ch s i).spawn =
        some [.waitActivate s.nextPrepared, .preparedWorkerEntry s.nextPrepared] ∧
      (effect cfg alive t fresh ch s i).events = [.prepared s.nextPrepared]) := by
  cases slotChange cfg h alive t fresh ch i with
  | kept _ hn => exact Or.inl hn
  | committed _ _ _ _ hn => exact Or.inl hn
  | cancelled _ _ _ hn => exact Or.inl hn
  | published activate hi _ _ hn =>
    subst hi
    simp only [effect] at hn ⊢
    rcases prepareStart_cases s t fresh activate ch.startError with
      he | ⟨e,he⟩ | ⟨-,he⟩ <;> rw [he] at hn ⊢
    · exact Or.inl rfl
    · exact Or.inl rfl
    · exact Or.inr ⟨rfl,rfl,rfl⟩

structure TokenThreads (s : System) : Prop where
  named : ∀ p < s.shared.nextPrepared, threadOf s.shared p < s.next
  acted : ∀ t, ∀ e ∈ s.history, e.performedBy t = true → t < s.next
  attended : s.Everywhere fun t i => ∀ c, i.attends c = true →
    c < s.shared.nextPrepared ∧ t = threadOf s.shared c
  waiting : ∀ p < s.shared.nextPrepared, s.history.countP (Event.commits p) = 0 →
    (∀ i ∈ s.code (threadOf s.shared p), i = .waitActivate p ∨ i = .preparedWorkerEntry p) ∧
    ∀ e ∈ s.history, e.performedBy (threadOf s.shared p) = false
  finished : ∀ c t, .finished c t ∈ s.history → c < s.shared.nextPrepared ∧ t = threadOf s.shared c

namespace TokenThreads
variable {s : System} {t : ℕ} {i : Instr} {rest : List Instr} {ch : Choice}

theorem blank : TokenThreads .blank where
  named p hp := absurd hp (Nat.not_lt_zero p)
  acted _ _ h := by cases h
  attended _ _ h := by cases h
  waiting p hp := absurd hp (Nat.not_lt_zero p)
  finished _ _ h := by cases h

theorem called (h : TokenThreads s) (c : Call) : TokenThreads (s.called cfg c) where
  named p hp := (h.named p hp).trans (Nat.lt_succ_self _)
  acted t e he hp := by
    rcases List.mem_append.mp he with he | he
    · exact (h.acted t e he hp).trans (Nat.lt_succ_self _)
    · obtain rfl : e = .called s.next c := by simpa [machine] using he
      simp [Event.performedBy] at hp
  attended := by
    refine Machine.Everywhere.start h.attended fun i hi d hd => ?_
    rcases entry_cases cfg c with he | ⟨j,he,hr,-⟩ <;> simp [machine,he] at hi
    subst hi
    simp only [Instr.attends,Instr.plays,hr,Role.runs,Role.enters] at hd
    cases c <;> simp only [entry] at he <;> grind
  waiting p hp h0 := by
    have hne : threadOf s.shared p ≠ s.next := (h.named p hp).ne
    have h0' : s.history.countP (Event.commits p) = 0 := by
      simpa [Machine.start,machine,Event.commits] using h0
    obtain ⟨hcode,hev⟩ := h.waiting p hp h0'
    refine ⟨fun i hi => hcode i (by simpa [Machine.start,hne] using hi),fun e he => ?_⟩
    rcases List.mem_append.mp he with he | he
    · exact hev e he
    · obtain rfl : e = .called s.next c := by simpa [machine] using he
      rfl
  finished d t ht := by
    refine h.finished d t ((List.mem_append.mp ht).resolve_right fun he => ?_)
    simp [machine] at he

/-- A token after a step is an old one with its thread, or a new one on a new thread. -/
theorem token_cases (hinv : Invariant s) {p : ℕ}
    (hp : p < (s.after cfg t i rest ch).shared.nextPrepared) :
    (p < s.shared.nextPrepared ∧
      threadOf (s.after cfg t i rest ch).shared p = threadOf s.shared p) ∨
    (p = s.shared.nextPrepared ∧ threadOf (s.after cfg t i rest ch).shared p = s.next ∧
      (effect cfg s.alive t s.next ch s.shared i).spawn =
        some [.waitActivate p, .preparedWorkerEntry p] ∧
      (effect cfg s.alive t s.next ch s.shared i).events = [.prepared p]) := by
  by_cases hlt : p < s.shared.nextPrepared
  · exact Or.inl ⟨hlt,effect_threadOf cfg hinv.rep.lifecycle s.alive t s.next ch i hlt⟩
  · right
    rw [Sys.advance_shared] at hp ⊢
    rcases effect_publishes cfg hinv.rep.lifecycle s.alive t s.next ch i with
      hn | ⟨hst,hsp,hev⟩
    · omega
    · rw [hst] at hp ⊢
      obtain rfl : p = s.shared.nextPrepared := by
        have : p < s.shared.nextPrepared + 1 := hp
        omega
      exact ⟨rfl,by simp [threadOf,publishPrepared],hsp,hev⟩

section After
variable (h : TokenThreads s) (hinv : Invariant s) (hc : s.code t = i :: rest)
include h hinv hc

omit hc in
theorem named_step {p : ℕ} (hp : p < (s.after cfg t i rest ch).shared.nextPrepared) :
    threadOf (s.after cfg t i rest ch).shared p < (s.after cfg t i rest ch).next := by
  rcases token_cases hinv hp with ⟨hlt,hth⟩ | ⟨-,hth,hsp,-⟩ <;> rw [hth]
  · exact (h.named p hlt).trans_le (Sys.advance_next_le ..)
  · simp [Sys.advance,hsp]

omit hinv in
theorem acted_step (hn : s.Named) {x : ℕ} {e : Event}
    (he : e ∈ (s.after cfg t i rest ch).history) (hx : e.performedBy x = true) :
    x < (s.after cfg t i rest ch).next := by
  refine lt_of_lt_of_le ?_ (Sys.advance_next_le ..)
  rcases List.mem_append.mp he with he | he
  · exact h.acted x e he hx
  · rw [(Event.performer (effect_event_emits cfg _ _ _ _ _ he) hx).1]
    exact hn.lt (by simp [hc])

theorem attended_step : (s.after cfg t i rest ch).Everywhere fun x j =>
    ∀ c, j.attends c = true → c < (s.after cfg t i rest ch).shared.nextPrepared ∧
      x = threadOf (s.after cfg t i rest ch).shared c := by
  have hl := effect_lifecycle_grows cfg hinv.rep.lifecycle s.alive t s.next ch i
  have hold : ∀ x c, c < s.shared.nextPrepared ∧ x = threadOf s.shared c →
      c < (s.after cfg t i rest ch).shared.nextPrepared ∧
        x = threadOf (s.after cfg t i rest ch).shared c := by
    rintro x c ⟨hlt,rfl⟩
    exact ⟨hlt.trans_le hl.names,
      (effect_threadOf cfg hinv.rep.lifecycle s.alive t s.next ch i hlt).symm⟩
  refine h.attended.advance (hinv.named.lt (by simp [hc])) hc
    (fun x j _ _ hj c hcj => hold x c (hj c hcj)) (fun j hj c hcj => ?_) fun body hb j hj c hcj => ?_
  · have hi := effect_push_attends cfg hinv.rep s.alive t s.next ch hj hcj
    exact hold t c (h.attended t i (by simp [hc]) c hi)
  · rcases effect_spawn_cases cfg s.shared t s.next s.alive ch i with
      hs | ⟨a,-,-,hst,hs⟩ | ⟨k,o,-,-,-,hs⟩ <;> rw [hs] at hb
    · cases hb
    · obtain rfl := Option.some.inj hb
      have hcn : s.shared.nextPrepared = c := by
        rcases List.mem_pair.mp hj with rfl | rfl <;>
          simpa [Instr.attends,Instr.plays,Instr.role,Role.runs,Role.enters] using hcj
      subst hcn
      rw [Sys.advance_shared,hst]
      exact ⟨Nat.lt_succ_self _,by simp [threadOf,publishPrepared]⟩
    · obtain rfl := Option.some.inj hb
      obtain rfl := List.mem_singleton.mp hj
      simp [Instr.attends,Instr.plays,Instr.role,Role.runs,Role.enters] at hcj

/-- Before its commit the thread of a token passes its two instructions and no more. -/
theorem waiting_step (hacc : TokenAccount s) {p : ℕ}
    (hp : p < (s.after cfg t i rest ch).shared.nextPrepared)
    (h0 : (s.after cfg t i rest ch).history.countP (Event.commits p) = 0) :
    (∀ j ∈ (s.after cfg t i rest ch).code (threadOf (s.after cfg t i rest ch).shared p),
      j = .waitActivate p ∨ j = .preparedWorkerEntry p) ∧
    ∀ e ∈ (s.after cfg t i rest ch).history,
      e.performedBy (threadOf (s.after cfg t i rest ch).shared p) = false := by
  have ht : t < s.next := hinv.named.lt (by simp [hc])
  rcases token_cases hinv hp with ⟨hlt,hth⟩ | ⟨hpn,hth,hsp,hev⟩ <;> rw [hth]
  · have h0' : s.history.countP (Event.commits p) = 0 := by
      simp only [Sys.advance_history,List.countP_append] at h0
      omega
    obtain ⟨hcode,hpast⟩ := h.waiting p hlt h0'
    have hown : ownsLifecycle s.shared p = false := by
      have := hacc.finished p
      cases ho : ownsLifecycle s.shared p with
      | false => rfl
      | true =>
        rw [ho] at this
        simp at this
        omega
    have hne : threadOf s.shared p ≠ s.next := (h.named p hlt).ne
    by_cases hx : threadOf s.shared p = t
    · have htop := hcode i (by simp [hx,hc])
      have hpush : (effect cfg s.alive t s.next ch s.shared i).push = [] ∧
          (effect cfg s.alive t s.next ch s.shared i).events = [] := by
        rcases htop with rfl | rfl <;> simp [effect,hown]
      refine ⟨fun j hj => ?_,fun e he => ?_⟩
      · rw [hx,Sys.advance_code_self ht,hpush.1] at hj
        exact hcode j (by rw [hx,hc]; exact List.mem_cons_of_mem _ hj)
      · rw [Sys.advance_history,hpush.2,List.append_nil] at he
        exact hpast e he
    · refine ⟨fun j hj => hcode j ?_,fun e he => ?_⟩
      · rwa [Sys.advance_code_other hx (Or.inl hne)] at hj
      · rcases List.mem_append.mp he with he | he
        · exact hpast e he
        · by_contra hb
          exact hx (Event.performer (effect_event_emits cfg _ _ _ _ _ he) (by simpa using hb)).1
  · refine ⟨fun j hj => ?_,fun e he => ?_⟩
    · rw [Sys.advance_code_spawn hsp] at hj
      simpa using hj
    · rcases List.mem_append.mp he with he | he
      · by_contra hb
        exact lt_irrefl _ (h.acted _ e he (by simpa using hb))
      · rw [hev] at he
        obtain rfl := List.mem_singleton.mp he
        rfl

theorem finished_step {c x : ℕ} (hf : .finished c x ∈ (s.after cfg t i rest ch).history) :
    c < (s.after cfg t i rest ch).shared.nextPrepared ∧
      x = threadOf (s.after cfg t i rest ch).shared c := by
  have hl := effect_lifecycle_grows cfg hinv.rep.lifecycle s.alive t s.next ch i
  have hboth : c < s.shared.nextPrepared ∧ x = threadOf s.shared c := by
    rcases List.mem_append.mp hf with hf | hf
    · exact h.finished c x hf
    · have hem := effect_event_emits cfg s.shared s.alive t s.next ch hf
      cases i with
      | finishWorker d =>
        obtain ⟨rfl,rfl⟩ : c = d ∧ x = t := by simpa [Instr.Emits] using hem
        exact h.attended x (.finishWorker c) (by simp [hc]) c (by
          simp [Instr.attends,Instr.plays,Instr.role,Role.runs])
      | _ => simp [Instr.Emits,Event.OfPending] at hem
  obtain ⟨hlt,rfl⟩ := hboth
  exact ⟨hlt.trans_le hl.names,
    (effect_threadOf cfg hinv.rep.lifecycle s.alive t s.next ch i hlt).symm⟩

end After
end TokenThreads

theorem Reachable.tokenThreads {s : System} (h : Reachable cfg s) : TokenThreads s :=
  h.induct_reachable .blank (fun _ c _ hth => hth.called c) fun _ _ _ _ _ hr hth hc _ =>
    ⟨fun _ => hth.named_step hr.invariant,fun _ _ => hth.acted_step hc hr.invariant.named,
      hth.attended_step hr.invariant hc,
      fun _ => hth.waiting_step hr.invariant hc hr.tokenAccount,
      fun _ _ => hth.finished_step hr.invariant hc⟩

end FlaskXxlJob.Registry
