import FlaskXxlJob.Registry.History

/-!
Generation fencing. A Worker registers only after every Active Remove of an older generation,
and an Active Remove only after every Worker of its own generation.
-/
namespace FlaskXxlJob.Registry
open FlaskXxlJob.Client Interleaving

variable {cfg : Config}

/-- Whether an RPC of the first kind may precede one of the second. -/
def RpcKind.Before : RpcKind → RpcKind → Prop
  | .worker _ g, .worker _ g' => g ≤ g'
  | .active _ g, .worker _ g' => g < g'
  | .worker _ g, .active _ g' => g ≤ g'
  | _, _ => True

/-- Worker `c` does not wait for an older Active Remove. -/
def PastWait (s : State) (c : ℕ) : Prop :=
  ∀ o, s.activeRemove = some o → (s.contexts c).generation ≤ (s.operations o).generation

/-- What holds of a Worker's thread at each point of its loop, after the RPCs `l`. -/
def Instr.Fenced (s : State) (l : List Rpc) : Instr → Prop
  | .waitRemove c o => (s.contexts c).waitRemoveEvent = some o
  | .workerLoop c | .performWorkerRegistry c | .sleep c | .recheckWorker c
  | .network (.worker c) | .commit (.worker c) _ _ => PastWait s c
  | .rpc (.worker c) => PastWait s c ∧
      ∀ x ∈ l, x.kind.Before (.worker c (s.contexts c).generation)
  | _ => True

structure Fencing (s : System) : Prop where
  workers : ∀ x ∈ s.rpcs, ∀ c g, x.kind = .worker c g → g ≤ s.shared.generation ∧
    ∀ o, s.shared.activeRemove = some o → g ≤ (s.shared.operations o).generation
  actives : ∀ x ∈ s.rpcs, ∀ o g, x.kind = .active o g → Retired s.shared g
  awaited : ∀ c, ownsLifecycle s.shared c = true → ∀ o, s.shared.activeRemove = some o →
    (s.shared.contexts c).waitRemoveEvent = some o ∨
    (s.shared.contexts c).generation ≤ (s.shared.operations o).generation
  threads : s.Everywhere fun _ i => i.Fenced s.shared s.rpcs
  order : s.rpcs.Pairwise fun x y => x.kind.Before y.kind

/-- A Remove becomes Active only in its own generation. -/
theorem effect_active {s : State} (h : Rep s) (alive : ℕ → Bool) (t fresh : ℕ) (ch : Choice)
    {i : Instr} (hi : i.Owned s) {o : ℕ}
    (ho : (effect cfg alive t fresh ch s i).state.activeRemove = some o) :
    (s.activeRemove = some o ∧ ((effect cfg alive t fresh ch s i).state.operations o).generation =
      (s.operations o).generation) ∨
    ((effect cfg alive t fresh ch s i).state.operations o).generation = s.generation := by
  have hg := effect_cleanup_grows cfg h alive t fresh ch hi
  have hlt := ((h.effect cfg alive t fresh ch hi).cleanup.active o ho).1
  rcases hg.active o ho with ha | hp | hn
  · exact Or.inl ⟨ha,(hg.operation o (h.cleanup.active o ha).1).1⟩
  · obtain ⟨-,hlt,hgen,-⟩ := h.cleanup.pending o hp
    exact Or.inr ((hg.operation o hlt).1.trans hgen)
  · exact Or.inr (hg.fresh o hn hlt)

/-- The thread that runs `i` has its Worker. -/
theorem Instr.Fenced.of_no_worker {s : State} {l : List Rpc} {i : Instr}
    (h : ∀ c, i.plays (Role.runs c) = false) : i.Fenced s l := by
  cases i with
  | waitRemove c | workerLoop c | performWorkerRegistry c | sleep c | recheckWorker c =>
    simp [Instr.plays,Role.runs] at h
  | network call | rpc call | commit call =>
    cases call with
    | worker c => simp [Instr.plays,Role.runs] at h
    | _ => trivial
  | _ => trivial

theorem Invariant.pastWait_grows {s : System} (hinv : Invariant s) {t : ℕ} {i : Instr}
    (hi : i ∈ s.code t) (ch : Choice) {c : ℕ} (ho : ownsLifecycle s.shared c = true)
    (hp : PastWait s.shared c) :
    PastWait (effect cfg s.alive t s.next ch s.shared i).state c := by
  intro o ha
  obtain ⟨hlt,hle⟩ := hinv.rep.lifecycle.owned ho
  have hl := effect_lifecycle_grows cfg hinv.rep.lifecycle s.alive t s.next ch i
  rw [(hl.contexts c hlt).1]
  rcases effect_active hinv.rep s.alive t s.next ch (hinv.owned hi) ha with
    ⟨hold,hg⟩ | hg <;> rw [hg]
  · exact hp o hold
  · exact hle

namespace Fencing
variable {s : System} {t : ℕ} {i : Instr} {rest : List Instr} {ch : Choice}

section Step
variable (h : Fencing s) (hinv : Invariant s) (hc : s.code t = i :: rest)
include h hinv hc

theorem awaited_step {c : ℕ}
    (hown : ownsLifecycle (effect cfg s.alive t s.next ch s.shared i).state c = true) {o : ℕ}
    (ha : (effect cfg s.alive t s.next ch s.shared i).state.activeRemove = some o) :
    ((effect cfg s.alive t s.next ch s.shared i).state.contexts c).waitRemoveEvent = some o ∨
    ((effect cfg s.alive t s.next ch s.shared i).state.contexts c).generation ≤
      ((effect cfg s.alive t s.next ch s.shared i).state.operations o).generation := by
  have hl := effect_lifecycle_grows cfg hinv.rep.lifecycle s.alive t s.next ch i
  rcases effect_owns cfg s.alive t s.next ch hinv.rep hown with ho | ⟨-,-,hst⟩
  · obtain ⟨hlt,hle⟩ := hinv.rep.lifecycle.owned ho
    have hw : ((effect cfg s.alive t s.next ch s.shared i).state.contexts c).waitRemoveEvent =
        (s.shared.contexts c).waitRemoveEvent := by
      refine (hl.waits c hlt).resolve_left fun hp => ?_
      simp [hinv.rep.lifecycle.prepared_not_owned hp] at ho
    rw [hw,(hl.contexts c hlt).1]
    rcases effect_active hinv.rep s.alive t s.next ch (hinv.owned (t := t) (by simp [hc])) ha with
      ⟨hold,hg⟩ | hg <;> rw [hg]
    · exact h.awaited c ho o hold
    · exact Or.inr hle
  · left
    rw [hst] at ha ⊢
    have hact : s.shared.activeRemove = some o := by simpa [publishWorker] using ha
    simp [waitForActive,publishWorker,hact,State.updateContext]

/-- What a Worker's thread goes on with holds in the state its instruction leaves. -/
theorem push_step (hen : enabled s.shared ch i = true) {j : Instr}
    (hj : j ∈ (effect cfg s.alive t s.next ch s.shared i).push) :
    j.Fenced (effect cfg s.alive t s.next ch s.shared i).state
      (s.rpcs ++ i.issues s.shared ch) := by
  by_cases hno : ∀ c, j.plays (Role.runs c) = false
  · exact .of_no_worker hno
  push Not at hno
  obtain ⟨c,hr⟩ := hno
  have hmem : i ∈ s.code t := by simp [hc]
  have hfen := h.threads t i hmem
  rcases effect_push_runs cfg s.alive t s.next ch hinv.rep hj (by simpa using hr) with hi | rfl
  swap
  · simp only [effect] at hj
    split at hj <;> simp at hj
    subst hj
    trivial
  have hown := hinv.runs hmem hi
  cases i with
  | runWorker d =>
    obtain rfl : d = c := by simpa [Instr.plays,Role.runs] using hi
    simp only [effect] at hj ⊢
    rcases guardCurrent_cases s.shared d _ with ⟨-,he⟩ | ⟨-,he⟩ <;> rw [he] at hj ⊢ <;>
      simp only [List.mem_singleton] at hj <;> subst hj
    · cases hw : (s.shared.contexts d).waitRemoveEvent with
      | none =>
        intro o ha
        simpa [hw] using h.awaited d hown o ha
      | some o => exact hw
    · trivial
  | waitRemove d o =>
    obtain rfl : d = c := by simpa [Instr.plays,Role.runs] using hi
    simp only [effect,List.mem_singleton] at hj
    subst hj
    -- the old Active has left its slot before its Event is set
    intro o' ha
    refine (h.awaited d hown o' ha).resolve_left fun hw => ?_
    have hw' : (s.shared.contexts d).waitRemoveEvent = some o := hfen
    obtain rfl := Option.some.inj (hw.symm.trans hw')
    have hd : (s.shared.operations o').doneEvent = true := hen
    simp [(hinv.rep.cleanup.active o' ha).2.2.1] at hd
  | workerLoop d | recheckWorker d | performWorkerRegistry d =>
    obtain rfl : d = c := by simpa [Instr.plays,Role.runs] using hi
    simp only [effect] at hj ⊢
    rcases guardCurrent_cases s.shared d _ with ⟨-,he⟩ | ⟨-,he⟩ <;> rw [he] at hj ⊢ <;>
      simp only [List.mem_singleton] at hj <;> subst hj
    · exact hfen
    · trivial
  | sleep d =>
    obtain rfl : d = c := by simpa [Instr.plays,Role.runs] using hi
    simp only [effect,List.mem_singleton] at hj
    subst hj
    split
    · trivial
    · exact hfen
  | finishWorker d =>
    simp only [effect] at hj
    rcases finishWorker_cases s.shared t d with ⟨o,-,-,-,he⟩ | ⟨-,he⟩ <;> rw [he] at hj <;>
      simp only [List.mem_cons,List.not_mem_nil,or_false] at hj <;>
      rcases hj with rfl | rfl <;> trivial
  | network call =>
    obtain rfl : call = .worker c := by simpa [Instr.plays,Role.runs] using hi
    simp only [effect] at hj ⊢
    rcases enterNetwork_cases s.shared t (.worker c) with ⟨hcur,he⟩ | ⟨d,-,-,he⟩ <;>
      rw [he] at hj ⊢ <;> simp only [List.mem_singleton] at hj <;> subst hj
    · obtain ⟨-,hw,hg⟩ : (s.shared.contexts c).stopEvent = false ∧
          s.shared.worker = some c ∧ s.shared.generation = (s.shared.contexts c).generation := by
        simpa [workerIsCurrent,isCurrentWorker] using hcur c rfl
      refine ⟨hfen,fun x hx => ?_⟩
      simp only [Instr.issues,List.append_nil] at hx
      rw [← hg]
      cases hk : x.kind with
      | worker d g => exact (h.workers x hx d g hk).1
      | active o g =>
        obtain ⟨hle,hnone⟩ := h.actives x hx o g hk
        refine lt_of_le_of_ne hle fun he => ?_
        simp [hnone he] at hw
      | register | remove => trivial
    · trivial
  | rpc call =>
    obtain rfl : call = .worker c := by simpa [Instr.plays,Role.runs] using hi
    simp only [effect,callRegistry,List.mem_singleton] at hj
    subst hj
    exact hfen.1
  | commit call q r =>
    obtain rfl : call = .worker c := by simpa [Instr.plays,Role.runs] using hi
    have hfen : PastWait s.shared c := hfen
    simp only [effect,commitRpc,commitWorker,List.mem_singleton] at hj ⊢
    subst hj
    split
    · intro o ha
      simpa using hfen o (by simpa using ha)
    · trivial
  | _ => simp [Instr.plays,Role.runs] at hi

omit h in
theorem keep_step {t' : ℕ} {j : Instr} (hj : j ∈ s.code t') (hr : t' = t → j ∈ rest)
    (hf : j.Fenced s.shared s.rpcs) :
    j.Fenced (effect cfg s.alive t s.next ch s.shared i).state
      (s.rpcs ++ i.issues s.shared ch) := by
  have hl := effect_lifecycle_grows cfg hinv.rep.lifecycle s.alive t s.next ch i
  have hpast : ∀ c, j.plays (Role.runs c) = true → PastWait s.shared c →
      PastWait (effect cfg s.alive t s.next ch s.shared i).state c :=
    fun c hp => hinv.pastWait_grows (t := t) (by simp [hc]) ch (hinv.runs hj hp)
  cases j with
  | waitRemove c o =>
    have ho := hinv.runs (c := c) hj (by simp [Instr.plays,Role.runs])
    refine ((hl.waits c (hinv.rep.lifecycle.owned ho).1).resolve_left fun hp => ?_).trans hf
    simp [hinv.rep.lifecycle.prepared_not_owned hp] at ho
  | workerLoop c | performWorkerRegistry c | sleep c | recheckWorker c =>
    exact hpast c (by simp [Instr.plays,Role.runs]) hf
  | network call | commit call =>
    cases call with
    | worker c => exact hpast c (by simp [Instr.plays,Role.runs]) hf
    | _ => trivial
  | rpc call =>
    cases call with
    | worker c =>
      have hno := hinv.alone hc hj hr rfl
      have hissue : i.issues s.shared ch = [] := by
        cases i <;> first | rfl | cases hno
      have ho := hinv.runs (c := c) hj (by simp [Instr.plays,Role.runs])
      refine ⟨hpast c (by simp [Instr.plays,Role.runs]) hf.1,?_⟩
      rw [hissue,List.append_nil,(hl.contexts c (hinv.rep.lifecycle.owned ho).1).1]
      exact hf.2
    | _ => trivial
  | _ => trivial

/-- The RPC that is issued may follow every earlier one. -/
theorem issue_step {x y : Rpc} (hx : x ∈ s.rpcs) (hy : y ∈ i.issues s.shared ch) :
    x.kind.Before y.kind := by
  have hmem : i ∈ s.code t := by simp [hc]
  cases i with
  | rpc call =>
    obtain rfl : y = ⟨s.shared.rpcSequence + 1,call.kind s.shared,call.outcome ch.outcome⟩ := by
      simpa [Instr.issues] using hy
    cases call with
    | worker c => exact (h.threads t _ hmem).2 x hx
    | active o =>
      have ha := hinv.executes (o := o) hmem (by simp [Instr.plays,Role.executes])
      cases hk : x.kind with
      | worker c g => exact (h.workers x hx c g hk).2 o ha
      | _ => trivial
    | register | remove => cases x.kind <;> trivial
  | _ => simp [Instr.issues] at hy

theorem workers_step {x : Rpc} (hx : x ∈ s.rpcs ++ i.issues s.shared ch) {c g : ℕ}
    (hk : x.kind = .worker c g) :
    g ≤ (effect cfg s.alive t s.next ch s.shared i).state.generation ∧
    ∀ o, (effect cfg s.alive t s.next ch s.shared i).state.activeRemove = some o →
      g ≤ ((effect cfg s.alive t s.next ch s.shared i).state.operations o).generation := by
  have hmem : i ∈ s.code t := by simp [hc]
  have hl := effect_lifecycle_grows cfg hinv.rep.lifecycle s.alive t s.next ch i
  have hold : g ≤ s.shared.generation ∧
      ∀ o, s.shared.activeRemove = some o → g ≤ (s.shared.operations o).generation := by
    rcases List.mem_append.mp hx with hx | hx
    · exact h.workers x hx c g hk
    cases i with
    | rpc call =>
      obtain rfl := List.mem_singleton.mp hx
      cases call with
      | worker d =>
        obtain ⟨rfl,rfl⟩ : d = c ∧ (s.shared.contexts d).generation = g := by
          simpa [RpcCall.kind] using hk
        have ho := hinv.runs (c := d) hmem (by simp [Instr.plays,Role.runs])
        exact ⟨(hinv.rep.lifecycle.owned ho).2,(h.threads t _ hmem).1⟩
      | _ => simp [RpcCall.kind] at hk
    | _ => simp [Instr.issues] at hx
  refine ⟨hold.1.trans hl.generation,fun o ha => ?_⟩
  rcases effect_active hinv.rep s.alive t s.next ch (hinv.owned hmem) ha with
    ⟨ha,hg⟩ | hg <;> rw [hg]
  · exact hold.2 o ha
  · exact hold.1

theorem actives_step {x : Rpc} (hx : x ∈ s.rpcs ++ i.issues s.shared ch) {o g : ℕ}
    (hk : x.kind = .active o g) :
    Retired (effect cfg s.alive t s.next ch s.shared i).state g := by
  have hmem : i ∈ s.code t := by simp [hc]
  have hl := effect_lifecycle_grows cfg hinv.rep.lifecycle s.alive t s.next ch i
  refine Retired.grows ?_ hl
  rcases List.mem_append.mp hx with hx | hx
  · exact h.actives x hx o g hk
  cases i with
  | rpc call =>
    obtain rfl := List.mem_singleton.mp hx
    cases call with
    | active p =>
      obtain ⟨rfl,rfl⟩ : p = o ∧ (s.shared.operations p).generation = g := by
        simpa [RpcCall.kind] using hk
      have ha := hinv.executes (o := p) hmem (by simp [Instr.plays,Role.executes])
      obtain ⟨-,hle,-,hw⟩ := hinv.rep.cleanup.active p ha
      exact ⟨hle,fun he => (hw he).1⟩
    | _ => simp [RpcCall.kind] at hk
  | _ => simp [Instr.issues] at hx

theorem advance (hen : enabled s.shared ch i = true) :
    Fencing (s.after cfg t i rest ch) := by
  refine ⟨?_,?_,fun c ho o ha => h.awaited_step hinv hc ho ha,?_,?_⟩
  all_goals rw [System.rpcs_after]
  · exact fun x hx c g hk => h.workers_step hinv hc hx hk
  · exact fun x hx o g hk => h.actives_step hinv hc hx hk
  · refine h.threads.advance (hinv.named.lt (by simp [hc])) hc
      (fun t' j hj hr hf => keep_step hinv hc hj hr hf) (fun j hj => h.push_step hinv hc hen hj)
      fun body hb j hj => ?_
    rcases effect_spawn_cases cfg s.shared t s.next s.alive ch i with
      hs | ⟨a,-,-,-,hs⟩ | ⟨k,o,-,-,-,hs⟩ <;> rw [hs] at hb
    · cases hb
    · obtain rfl := Option.some.inj hb
      simp only [List.mem_cons,List.not_mem_nil,or_false] at hj
      rcases hj with rfl | rfl <;> trivial
    · obtain rfl := Option.some.inj hb
      obtain rfl := List.mem_singleton.mp hj
      trivial
  · refine List.pairwise_append.mpr ⟨h.order,?_,fun x hx y hy => h.issue_step hinv hc hx hy⟩
    cases i <;> simp [Instr.issues]

end Step

theorem start (h : Fencing s) (c : Call) : Fencing (s.called cfg c) := by
  refine ⟨?_,?_,h.awaited,?_,?_⟩
  all_goals rw [System.rpcs_called]
  · exact h.workers
  · exact h.actives
  · refine Machine.Everywhere.start h.threads fun i hi => .of_no_worker fun d => ?_
    simp [Instr.plays,Plain.entry cfg c i hi,Role.runs]
  · exact h.order

theorem blank : Fencing .blank where
  workers x hx := by simp [System.rpcs,System.blank] at hx
  actives x hx := by simp [System.rpcs,System.blank] at hx
  awaited c ho := by simp [System.blank,State.blank,ownsLifecycle] at ho
  threads t i hi := by simp [System.blank] at hi
  order := .nil

end Fencing

theorem Reachable.fencing {s : System} (h : Reachable cfg s) : Fencing s :=
  h.induct .blank (fun _ c _ hf => hf.start c)
    fun _ _ _ _ _ hinv hf hc hen => hf.advance hinv hc hen

/-- What the history of Registry RPCs guarantees across generations. -/
structure FencedRpcs (s : System) : Prop where
  /-- No two threads are between taking the network lock and the end of their RPC. -/
  exclusive : ∀ t t' call call', .rpc call ∈ s.code t → .rpc call' ∈ s.code t' → t = t'
  numbered : s.rpcs.map Rpc.sequence = List.range' 1 s.rpcs.length
  workers : ∀ x ∈ s.rpcs, ∀ y ∈ s.rpcs, ∀ c c' g g', x.kind = .worker c g →
    y.kind = .worker c' g' → g < g' → x.sequence < y.sequence
  removes : ∀ x ∈ s.rpcs, ∀ y ∈ s.rpcs, ∀ o c g g', x.kind = .active o g →
    y.kind = .worker c g' →
    (g' ≤ g → y.sequence < x.sequence) ∧ (g < g' → x.sequence < y.sequence)

theorem registry_rpcs_fenced {s : System} (h : Reachable cfg s) : FencedRpcs s := by
  have hinv := h.invariant
  have hnum := h.numbered
  have hfen := h.fencing
  refine ⟨?_,?_,?_,?_⟩
  · intro t t' call call' hc hc'
    by_contra hne
    have hsum := weigh_add_le_total (f := tally Instr.holdsNetwork) hinv.named (Ne.symm hne)
    have hle := le_weigh (f := tally Instr.holdsNetwork) (t := t) hc
    have hle' := le_weigh (f := tally Instr.holdsNetwork) (t := t') hc'
    have hlock : total (tally Instr.holdsNetwork) s ≤ 1 := by
      rw [show total (tally Instr.holdsNetwork) s = lockCount s.shared from hinv.network,
        lockCount]
      split <;> omega
    have hone : ∀ x y, tally Instr.holdsNetwork x (.rpc y) = 1 := fun _ _ => rfl
    rw [hone] at hle hle'
    omega
  · have hlen : s.rpcs.length = s.shared.rpcSequence := by
      simpa using congrArg List.length hnum.sequences
    rw [hlen]
    exact hnum.sequences
  · intro x hx y hy c c' g g' hk hk' hlt
    by_contra hn
    rcases Nat.lt_or_eq_of_le (not_lt.mp hn) with hs | hs
    · have hb := hnum.of_sequence_lt hfen.order hy hx hs
      rw [hk,hk'] at hb
      have hb : g' ≤ g := hb
      omega
    · obtain rfl := hnum.eq_of_sequence hy hx hs
      rw [hk] at hk'
      cases hk'
      omega
  · intro x hx y hy o c g g' hk hk'
    have hne : x.sequence ≠ y.sequence := by
      intro he
      obtain rfl := hnum.eq_of_sequence hx hy he
      rw [hk] at hk'
      cases hk'
    rcases Nat.lt_or_gt_of_ne hne with hs | hs
    · have hb := hnum.of_sequence_lt hfen.order hx hy hs
      rw [hk,hk'] at hb
      have hb : g < g' := hb
      exact ⟨fun _ => by omega,fun _ => hs⟩
    · have hb := hnum.of_sequence_lt hfen.order hy hx hs
      rw [hk,hk'] at hb
      have hb : g' ≤ g := hb
      exact ⟨fun _ => hs,fun _ => by omega⟩

/-- A stopping Worker removes its generation while the next Worker waits to register. -/
theorem registry_rpcs_fenced_restart : ∃ s : System,
    s.rpcs.map Rpc.kind = [.worker 0 1, .active 0 1, .worker 1 2] ∧ FencedRpcs s := by
  obtain ⟨s,hr,hp⟩ := Run.exists_of_schedule (f := step .plain) (s := .blank)
    (l := [.call .start, proceed 0, proceed 0, proceed 0] ++ List.replicate 8 (proceed 1) ++
      [.call (.stop true), proceed 2, proceed 1, proceed 1, .call .start, proceed 3, proceed 3,
        proceed 3, proceed 4, proceed 4, proceed 4] ++ List.replicate 4 (proceed 1) ++
      List.replicate 6 (proceed 4))
    (p := fun s => s.rpcs.map Rpc.kind = [.worker 0 1, .active 0 1, .worker 1 2])
    (by decide +kernel)
  exact ⟨s,by simpa using hp,registry_rpcs_fenced hr⟩

end FlaskXxlJob.Registry
