import FlaskXxlJob.Registry.PreparedStart
import FlaskXxlJob.Registry.Prices
import FlaskXxlJob.Registry.Quiescence

/-!
The service settles. Between two calls and two renewal intervals its threads take finitely many
steps, whatever Admin answers and whichever threads fail to start. Then every call has returned
and every Remove, register and cancelled token has been dealt with.
-/
namespace FlaskXxlJob.Registry
open FlaskXxlJob.Client Interleaving

variable {cfg : Config} {s s' : System} {t : ℕ} {i : Instr} {rest : List Instr} {ch : Choice}

/-- No call is made, and no Worker that is to go on wakes up from its interval. -/
def Unprompted (s : System) : Action Choice Call → Prop
  | .call _ => False
  | .run t _ => ∀ c rest, s.code t = .sleep c :: rest → (s.shared.contexts c).stopEvent = true

/-! ### Passes of a waiting caller -/

/-- A caller that waits has gone through its passes since it was woken. -/
def Instr.rank (s : State) : Instr → ℕ
  | .waitOperation o => if (s.operations o).doneEvent then 4 else 0
  | .waitCoordination k => if (s.coordinations k).doneEvent then 4 else 0
  | .pendingResult .. => 3
  | .terminalRemove _ => 2
  | .schedulePendingRemove (.observer o _) => if (s.operations o).doneEvent then 5 else 1
  | _ => 0

theorem Instr.rank_collects {s : State} (h : i.collects = true) : i.rank s ≤ 3 := by
  cases i <;> simp [collects] at h <;> simp [rank]

/-- Below a caller that waits stands only what goes on with what it has waited for. -/
theorem Reachable.rank_below (hr : Reachable cfg s) (hc : s.code t = i :: rest)
    (hw : i.waits = true) (ho : ∀ p, i ≠ .waitActivate p) : top (Instr.rank s.shared) rest ≤ 3 := by
  cases rest with
  | nil => exact Nat.zero_le _
  | cons j rest =>
    rcases (hr.layered.below hc List.mem_cons_self).resumes hw with ⟨p,hp,-⟩ | ⟨-,hj⟩
    · exact absurd hp (ho p)
    · exact Instr.rank_collects hj

/-- A pass that costs nothing changes nothing and brings its caller closer to waiting again. -/
theorem Reachable.circles (hr : Reachable cfg s) (hc : s.code t = i :: rest)
    (hen : enabled s.shared ch i = true) (hi : i.circles = true)
    (hs : (effect cfg s.alive t s.next ch s.shared i).spawn = none) :
    prices (effect cfg s.alive t s.next ch s.shared i).push < i.price ∨
      (effect cfg s.alive t s.next ch s.shared i).state = s.shared ∧
      top (Instr.rank s.shared) ((effect cfg s.alive t s.next ch s.shared i).push ++ rest) <
        i.rank s.shared := by
  have hinv := hr.invariant
  have hclean := hinv.rep.cleanup
  cases i with
  | waitOperation o =>
    right
    have hdone : (s.shared.operations o).doneEvent = true := hen
    have hbelow := hr.rank_below hc rfl (by simp)
    refine ⟨rfl,?_⟩
    show top (Instr.rank s.shared) rest < (Instr.waitOperation o).rank s.shared
    simp only [Instr.rank,hdone,if_true]
    omega
  | waitCoordination k =>
    right
    have hdone : (s.shared.coordinations k).doneEvent = true := hen
    have hbelow := hr.rank_below hc rfl (by simp)
    refine ⟨rfl,?_⟩
    show top (Instr.rank s.shared) rest < (Instr.waitCoordination k).rank s.shared
    simp only [Instr.rank,hdone,if_true]
    omega
  | pendingResult o g =>
    simp only [effect]
    split
    · left
      simp [Instr.price]
    · right
      simp [top,Instr.rank]
  | terminalRemove g =>
    have hsaw := terminalView_saw (s := s.shared) g
    simp only [effect,terminalRemove]
    split <;> rename_i hv <;> rw [hv] at hsaw
    · left
      simp [Instr.price,RpcCall.price]
    · right
      have hopen := hr.opened.event _ hsaw.1 hsaw.2
      exact ⟨rfl,by simp [top,Instr.rank,hopen]⟩
    · left
      simp [Instr.price]
    · right
      have hopen := (hclean.active _ hsaw.2.1).2.2.1
      exact ⟨rfl,by simp [top,Instr.rank,hopen]⟩
    · right
      have hopen := (hclean.pending _ hsaw.2.2.1).2.2.2.1
      exact ⟨rfl,by simp [top,Instr.rank,hopen]⟩
    · right
      rcases hsaw.1 with ha | hp
      · have hopen := (hclean.active _ ha).2.2.1
        exact ⟨rfl,by simp [top,Instr.rank,hopen]⟩
      · have hopen := (hclean.pending _ hp).2.2.2.1
        exact ⟨rfl,by simp [top,Instr.rank,hopen]⟩
    · left
      simp [Instr.price,RpcCall.price]
  | schedulePendingRemove caller =>
    cases caller with
    | observer o g =>
      simp only [effect] at hs ⊢
      rcases schedulePendingRemove_cases cfg ch.now s.shared t s.next s.alive (.observer o g)
        ch.startError with ⟨-,he⟩ | ⟨x,-,-,he⟩ | ⟨x,e,-,-,he⟩ <;> rw [he] at hs ⊢
      · right
        refine ⟨rfl,?_⟩
        cases hd : (s.shared.operations o).doneEvent <;>
          simp [top,Instr.rank,Scheduler.returned,hd]
      · cases hs
      · left
        simp [Scheduler.failed,Instr.price]
    | _ => simp [Instr.circles] at hi
  | _ => simp [Instr.circles] at hi

/-! ### Descent -/

def priced (s : System) : ℕ := total (fun _ => Instr.price) s + debt s.shared

/-- Every unprompted step pays, or it brings its caller closer to waiting. -/
theorem Reachable.descends (hr : Reachable cfg s) {a : Action Choice Call}
    (hg : Unprompted s a) (hs : step cfg s a = some s') :
    priced s' < priced s ∨
      priced s' ≤ priced s ∧ ranks (Instr.rank s'.shared) s' < ranks (Instr.rank s.shared) s := by
  cases a with
  | call c => exact hg.elim
  | run t ch =>
    obtain ⟨i,rest,hc,hen,rfl⟩ := step_run_cases hs
    have hinv := hr.invariant
    have hmove : total (fun _ => Instr.price) (s.after cfg t i rest ch) + i.price =
        total (fun _ => Instr.price) s +
          prices (effect cfg s.alive t s.next ch s.shared i).push +
          prices ((effect cfg s.alive t s.next ch s.shared i).spawn.getD []) :=
      total_advance hinv.named hc (effect cfg s.alive t s.next ch s.shared i)
    have howes := hr.owes ch hc
    have hprice := effect_prices cfg s.shared s.alive t s.next ch (i := i) fun c hi =>
      hg c rest (hi ▸ hc)
    unfold priced
    rcases hprice with hlt | ⟨hcircle,hle⟩
    · left
      rcases howes with ⟨hsp,hdebt⟩ | hdebt
      · simp only [hsp,Option.getD_none,prices_nil] at hmove
        omega
      · omega
    · have hfree : i.reserve = 0 := by
        cases i <;> simp [Instr.circles] at hcircle <;> rfl
      rcases howes with ⟨hsp,hdebt⟩ | hdebt
      · simp only [hsp,Option.getD_none,prices_nil] at hmove
        rcases hr.circles hc hen hcircle hsp with hlt | ⟨hst,hrank⟩
        · left
          omega
        · right
          constructor
          · omega
          · rw [show (s.after cfg t i rest ch).shared = s.shared from hst]
            exact ranks_advance hinv.named hc hsp hrank
      · left
        omega

theorem Reachable.acc (hr : Reachable cfg s) : Acc (Follows (step cfg) Unprompted) s :=
  acc_follows (I := Reachable cfg) (fun _ a _ h _ hs => h.tail a trivial hs)
    (fun _ _ _ h hg hs => h.descends hg hs) s hr

/-! ### Threads of calls -/

/-- The instructions on the thread of a Worker until it has finished. -/
def Instr.ofWorker : Instr → Bool
  | .waitActivate _ | .preparedWorkerEntry _ | .runWorker _ | .waitRemove .. | .workerLoop _
  | .performWorkerRegistry _ | .sleep _ | .recheckWorker _ | .finishWorker _
  | .network (.worker _) | .rpc (.worker _) | .commit (.worker _) _ _ => true
  | _ => false

theorem Instr.ofWorker_of_next {i j : Instr} (hn : i.Next j) (hj : j.ofWorker = true) :
    i.ofWorker = true := by
  cases i with
  | schedulePendingRemove caller =>
    cases caller <;> simp [Next,Scheduler.returned,Scheduler.failed] at hn <;> grind [ofWorker]
  | commit call q r => cases call <;> simp only [Next] at hn <;> grind [ofWorker]
  | network call => cases call <;> simp only [Next] at hn <;> grind [ofWorker]
  | rpc call =>
    obtain ⟨q,r,rfl⟩ := hn
    cases call <;> simp_all [ofWorker]
  | _ => simp only [Next] at hn <;> grind [ofWorker]

theorem Instr.Emits.not_called {x : ℕ} {c : Call} : ¬ i.Emits t (.called x c) := by
  cases i <;> simp [Emits,Event.OfPending]

/-- A thread that serves a call does not run a Worker. -/
def Serving (s : System) : Prop :=
  s.Everywhere fun t i => ∀ c, .called t c ∈ s.history → i.ofWorker = false

theorem Reachable.serving (h : Reachable cfg s) : Serving s := by
  apply h.induct_reachable
  · intro t i hi
    simp [System.blank] at hi
  · intro s c hr hs
    have hn := hr.invariant.named
    refine Machine.Everywhere.start (P := fun t i => ∀ d, .called t d ∈ (s.called cfg c).history →
      i.ofWorker = false) (hs.mono fun t i hi ho d hd => ?_) fun i hi d _ => ?_
    · have hlt : t < s.next := hn.lt (List.ne_nil_of_mem hi)
      apply ho d
      refine (List.mem_append.mp hd).resolve_right fun hd => ?_
      have : t = s.next ∧ d = c := by simpa [machine] using hd
      omega
    · have hi : i ∈ entry cfg c := hi
      cases c <;> simp only [entry] at hi <;> grind [Instr.ofWorker]
  · intro s t i rest ch hr hs hc _
    have hn := hr.invariant.named
    have hold : ∀ {x d}, .called x d ∈ (s.after cfg t i rest ch).history →
        .called x d ∈ s.history := fun hd =>
      (List.mem_append.mp hd).resolve_right fun he =>
        (effect_event_emits cfg s.shared s.alive t s.next ch he).not_called
    refine hs.advance (hn.lt (by simp [hc])) hc (fun _ _ _ _ ho d hd => ho d (hold hd))
      (fun j hj d hd => ?_) fun body _ j _ d hd => ?_
    · by_contra hw
      have hi := Instr.ofWorker_of_next (effect_push_next cfg _ _ _ _ _ hj) (by simpa using hw)
      simp [hs t i (by simp [hc]) d (hold hd)] at hi
    · have hlt := hr.holders.callers _ d (hold hd)
      omega

/-! ### Where the descent ends -/

/-- No unprompted step is left. -/
def Final (cfg : Config) (s : System) : Prop :=
  ∀ a s', Unprompted s a → step cfg s a ≠ some s'

/-- A Worker that sleeps and has not been stopped is the current one. -/
theorem Reachable.current (hr : Reachable cfg s) {c : ℕ} (hi : .sleep c ∈ s.code t)
    (hstop : (s.shared.contexts c).stopEvent = false) : s.shared.worker = some c := by
  have hinv := hr.invariant
  have hcount : 0 < s.count (Instr.plays (Role.runs c)) :=
    System.count_pos hinv.named hi (by simp [Instr.plays,Role.runs])
  rcases ownsLifecycle_iff.mp (hinv.workers.running c hcount) with hw | hl
  · exact hw
  · have hset := (hinv.rep.lifecycle.stopping _ c hl).2.2.2
    simp [hset] at hstop

theorem Reachable.quiescent_of_final (hr : Reachable cfg s) (h : Final cfg s) :
    Quiescent cfg s := by
  intro t ch s' hs
  have hg : ¬ Unprompted s (.run t ch) := fun hg => h _ _ hg hs
  simp only [Unprompted,not_forall] at hg
  obtain ⟨c,rest,hc,hstop⟩ := hg
  exact ⟨c,rest,hc,hr.current (t := t) (by simp [hc]) (by simpa using hstop)⟩

/-- Every call has returned, and nothing is left to do for any Remove or register. -/
structure Idled (cfg : Config) (s : System) : Prop where
  quiescent : Quiescent cfg s
  returned : ∀ t c, .called t c ∈ s.history → s.code t = []
  pending : s.shared.pendingRemove = none
  active : s.shared.activeRemove = none
  coordination : s.shared.registerCoordination = none
  stopping : s.shared.stoppingWorkers = ∅
  actors : s.shared.cleanupActors = ∅
  operations : ∀ o < s.shared.nextOperation, (s.shared.operations o).doneEvent = true
  coordinations : ∀ k < s.shared.nextCoordination, (s.shared.coordinations k).doneEvent = true
  tokens : ∀ p < s.shared.nextPrepared, s.shared.preparedStart ≠ some p →
    (s.shared.prepareds p).activateEvent = true

theorem Quiescent.idled (h : Quiescent cfg s) (hr : Reachable cfg s) : Idled cfg s where
  quiescent := h
  returned t c ht := by
    rcases h.stack hr t with hnil | ⟨d,-,hc⟩ | ⟨p,rest,-,hc⟩
    · exact hnil
    · have hno := hr.serving t (.sleep d) (by simp [hc]) c ht
      cases hno
    · have hno := hr.serving t (.waitActivate p) (by simp [hc]) c ht
      cases hno
  pending := h.pending hr
  active := h.active hr
  coordination := h.coordination hr
  stopping := h.stopping hr
  actors := h.actors hr
  operations o ho := h.done hr ho (by simp [h.pending hr])
  coordinations k := h.accounted hr
  tokens p := h.woken hr

/-- Left to itself the service comes to rest, in whatever order its threads run. -/
structure Settles (cfg : Config) (s : System) : Prop where
  ends : ∀ (run : ℕ → System) (a : ℕ → Action Choice Call), run 0 = s →
    (∀ n, step cfg (run n) (a n) = some (run (n + 1))) → ∃ n, ¬ Unprompted (run n) (a n)
  rests : ∀ s', Run (step cfg) Unprompted s s' → Final cfg s' → Idled cfg s'
  reaches : ∃ s', Run (step cfg) Unprompted s s' ∧ Final cfg s'

theorem registry_settles (hr : Reachable cfg s) : Settles cfg s := by
  constructor
  · intro run a h0 hrun
    exact exists_unguarded hr.acc run a h0 hrun
  · intro s' hs hfinal
    have hr' : Reachable cfg s' := hr.trans (hs.mono fun _ _ _ => trivial)
    exact (hr'.quiescent_of_final hfinal).idled hr'
  · exact exists_final hr.acc

/-- A stopped Worker, a `stop` and a `remove_executor` that have a Pending Remove before them. -/
theorem registry_settles_stopping : ∃ s : System, (s.shared.pendingRemove = some 0 ∧
    s.shared.worker = none ∧ (∀ t < 4, t ≠ 0 → s.code t ≠ [])) ∧ Settles .plain s := by
  have hex : (schedule (step .plain) .blank
      ([.call .start] ++ List.replicate 3 (proceed 0) ++ List.replicate 2 (proceed 1) ++
        [.call (.stop true), proceed 2, .call .removeExecutor, proceed 3, proceed 3])).any
      (fun s => s.shared.pendingRemove = some 0 ∧ s.shared.worker = none ∧
        ∀ t < 4, t ≠ 0 → s.code t ≠ []) = true := by
    decide +kernel
  obtain ⟨s,hr,hp⟩ := Run.exists_of_schedule hex
  exact ⟨s,of_decide_eq_true hp,registry_settles hr⟩

end FlaskXxlJob.Registry
