import FlaskXxlJob.Runtime.Memory

/-!
Processes that are forked share no Registry state. A process works on states that it has created
itself, whose services have started blank, and it keeps the first one that no concurrent call
replaces.
-/
namespace FlaskXxlJob.Runtime
open FlaskXxlJob.Client Interleaving

variable {cfg : Registry.Config}

/-- The state was created in this process, which has run its service from the start. -/
structure Owns (cfg : Registry.Config) (s : Process) (st : ℕ) : Prop where
  created : .createdState st ∈ s.history
  named : st < s.shared.nextState
  pid : s.shared.statePid st = s.shared.pid
  service : Registry.Reachable cfg (s.shared.service st)

/-- The state that an instruction works on or is about to publish. -/
def Instr.state : Instr → Option ℕ
  | .storeProcessState st _ | .useState st => some st
  | _ => none

/-- A process works on states of its own only, and its slot holds one of them unless it still has
that of another process. -/
structure Isolated (cfg : Registry.Config) (s : Process) : Prop where
  named : s.Named
  slot : s.shared.processState < s.shared.nextState
  current : s.shared.statePid s.shared.processState = s.shared.pid →
    Owns cfg s s.shared.processState
  code : s.Everywhere fun _ i => ∀ st, i.state = some st → Owns cfg s st
  used : ∀ t st, .used t st ∈ s.history → t < s.next ∧ Owns cfg s st

section Step
variable {s : Process} {t : ℕ} {i : Instr} {rest : List Instr} {ch : Choice}

theorem Purpose.mem_resume {p : Purpose} {st : ℕ} {j : Instr} (hj : j ∈ p.resume st) :
    j = .useState st := by
  cases p with
  | enter => exact List.mem_singleton.mp hj
  | check st₀ =>
    simp only [Purpose.resume] at hj
    split at hj
    · exact List.mem_singleton.mp hj
    · cases hj

/-- A state keeps its pid, and its service goes on from where it is. -/
theorem effect_keeps (cfg : Registry.Config) (ch : Choice) (m : Memory) (t : ℕ) (i : Instr) :
    (effect cfg ch m t i).state.pid = m.pid ∧
    m.nextState ≤ (effect cfg ch m t i).state.nextState ∧
    ∀ st < m.nextState, (effect cfg ch m t i).state.statePid st = m.statePid st ∧
      (Registry.Reachable cfg (m.service st) →
        Registry.Reachable cfg ((effect cfg ch m t i).state.service st)) := by
  cases i with
  | getProcessState p =>
    simp only [effect,getProcessState]
    split
    · exact ⟨rfl,le_rfl,fun st _ => ⟨rfl,id⟩⟩
    · refine ⟨rfl,Nat.le_succ _,fun st hst => ?_⟩
      simp [newProcessState,hst.ne]
  | useState st =>
    refine ⟨rfl,le_rfl,fun st' _ => ⟨rfl,fun h => ?_⟩⟩
    by_cases hne : st' = st
    · subst hne
      simp only [effect,useState,Function.update_self]
      cases ha : ch.action.bind (Registry.step cfg (m.service st')) with
      | none => exact h
      | some n =>
        obtain ⟨a,-,hs⟩ := Option.bind_eq_some_iff.mp ha
        exact h.tail a trivial hs
    · simpa [effect,useState,hne] using h
  | _ => exact ⟨rfl,le_rfl,fun st _ => ⟨rfl,id⟩⟩

/-- Only a new state is stored in the slot. -/
theorem effect_slot (cfg : Registry.Config) (ch : Choice) (m : Memory) (t : ℕ) (i : Instr) :
    (effect cfg ch m t i).state.processState = m.processState ∨
    ∃ st p, i = .storeProcessState st p ∧ (effect cfg ch m t i).state.processState = st := by
  cases i with
  | getProcessState p =>
    left
    simp only [effect,getProcessState]
    split <;> rfl
  | storeProcessState st p => exact Or.inr ⟨st,p,rfl,rfl⟩
  | _ => exact Or.inl rfl

theorem effect_used {m : Memory} {t' st : ℕ} (h : .used t' st ∈ (effect cfg ch m t i).events) :
    t' = t ∧ i = .useState st := by
  cases i with
  | getProcessState p =>
    simp only [effect,getProcessState] at h
    split at h <;> simp at h
  | useState st' =>
    obtain ⟨rfl,rfl⟩ : t' = t ∧ st = st' := by simpa [effect,useState] using h
    exact ⟨rfl,rfl⟩
  | _ => simp [effect,ensureProcessState,storeCloseLock] at h

theorem Owns.after {st : ℕ} (h : Owns cfg s st) : Owns cfg (s.after cfg t i rest ch) st := by
  obtain ⟨hpid,hle,hkeep⟩ := effect_keeps cfg ch s.shared t i
  obtain ⟨hsame,hreach⟩ := hkeep st h.named
  exact {
    created := List.mem_append_left _ h.created
    named := h.named.trans_le hle
    pid := hsame.trans (h.pid.trans hpid.symm)
    service := hreach h.service }

/-- A thread that is started checks its state first. -/
theorem effect_spawn {m : Memory} {body : List Instr} (hb : (effect cfg ch m t i).spawn = some body)
    {j : Instr} (hj : j ∈ body) : ∃ st, j = .getProcessState (.check st) := by
  cases i with
  | getProcessState p =>
    simp only [effect,getProcessState] at hb
    split at hb <;> cases hb
  | useState st =>
    simp only [effect,useState] at hb
    split at hb
    · obtain rfl := Option.some.inj hb
      exact ⟨st,List.mem_singleton.mp hj⟩
    · cases hb
  | _ => cases hb

/-- What an instruction pushes works on the state of the instruction, on the one in the slot, or on
one that it has just created. -/
theorem effect_state (h : Isolated cfg s) (hi : ∀ st, i.state = some st → Owns cfg s st)
    {j : Instr} (hj : j ∈ (effect cfg ch s.shared t i).push) {st : ℕ}
    (hs : j.state = some st) : Owns cfg (s.after cfg t i rest ch) st := by
  cases i with
  | getProcessState p =>
    simp only [effect,getProcessState] at hj
    by_cases hcur : s.shared.statePid s.shared.processState = s.shared.pid
    · rw [if_pos hcur] at hj
      have hj : j ∈ p.resume s.shared.processState := by simpa using hj
      obtain rfl := Purpose.mem_resume hj
      obtain rfl := Option.some.inj hs
      exact (h.current hcur).after
    · rw [if_neg hcur] at hj
      obtain rfl : j = .storeProcessState s.shared.nextState p := by simpa using hj
      obtain rfl := Option.some.inj hs
      have heff : effect cfg ch s.shared t (.getProcessState p) = {
          state := newProcessState s.shared
          push := [.storeProcessState s.shared.nextState p]
          events := [.createdState s.shared.nextState] } := if_neg hcur
      exact {
        created := by simp [heff]
        named := by simp [heff,newProcessState]
        pid := by simp [heff,newProcessState]
        service := by simpa [heff,newProcessState] using .refl }
  | storeProcessState st' p =>
    have hj : j ∈ p.resume st' := by simpa [effect] using hj
    obtain rfl := Purpose.mem_resume hj
    obtain rfl := Option.some.inj hs
    exact (hi _ rfl).after
  | useState st' =>
    have hst : st = st' := by
      simp only [effect,useState] at hj
      split at hj
      · cases hj
      · obtain rfl := List.mem_singleton.mp hj
        exact (Option.some.inj hs).symm
      · obtain rfl := List.mem_singleton.mp hj
        cases hs
    rw [hst]
    exact (hi st' rfl).after
  | ensureProcessState =>
    simp only [effect,ensureProcessState] at hj
    split at hj <;> simp at hj <;> subst hj <;> cases hs
  | testClosed l | releaseCloseLock l =>
    simp only [effect] at hj
    split at hj <;> simp at hj <;> subst hj <;> cases hs
  | _ =>
    simp [effect,storeCloseLock] at hj
    subst hj
    cases hs

theorem Isolated.after (h : Isolated cfg s) (hc : s.code t = i :: rest) :
    Isolated cfg (s.after cfg t i rest ch) := by
  have ht : t < s.next := h.named.lt (by simp [hc])
  have hi : ∀ st, i.state = some st → Owns cfg s st := h.code t i (by simp [hc])
  obtain ⟨hpid,hle,hkeep⟩ := effect_keeps cfg ch s.shared t i
  exact {
    named := h.named.advance ht
    slot := by
      rcases effect_slot cfg ch s.shared t i with he | ⟨st,p,hip,he⟩
      · exact he.symm ▸ h.slot.trans_le hle
      · exact he.symm ▸ (hi st (by simp [hip,Instr.state])).named.trans_le hle
    current := fun hcur => by
      rcases effect_slot cfg ch s.shared t i with he | ⟨st,p,hip,he⟩
      · rw [Sys.advance_shared,he,(hkeep _ h.slot).1,hpid] at hcur
        rw [Sys.advance_shared,he]
        exact (h.current hcur).after
      · rw [Sys.advance_shared,he]
        exact (hi st (by simp [hip,Instr.state])).after
    code := h.code.advance ht hc
      (fun _ _ _ _ hj st hs => (hj st hs).after)
      (fun j hj st hs => effect_state h hi hj hs)
      (fun body hb j hj st hs => by
        obtain ⟨st',rfl⟩ := effect_spawn hb hj
        cases hs)
    used := fun t' st hu => by
      rcases List.mem_append.mp hu with hu | hu
      · obtain ⟨hlt,hown⟩ := h.used t' st hu
        exact ⟨hlt.trans_le (Sys.advance_next_le ..),hown.after⟩
      · obtain ⟨rfl,rfl⟩ := effect_used hu
        exact ⟨ht.trans_le (Sys.advance_next_le ..),(hi st rfl).after⟩ }

theorem Owns.called {st : ℕ} (h : Owns cfg s st) (c : Call) :
    Owns cfg ((machine cfg).start s c) st where
  created := List.mem_append_left _ h.created
  named := h.named
  pid := h.pid
  service := h.service

theorem Isolated.called (h : Isolated cfg s) (c : Call) :
    Isolated cfg ((machine cfg).start s c) where
  named := Machine.Named.start h.named c
  slot := h.slot
  current hcur := (h.current hcur).called c
  code := by
    apply Machine.Everywhere.start
    · exact h.code.mono fun _ _ _ hi st hs => (hi st hs).called c
    · intro i hi st hs
      cases c <;> obtain rfl := List.mem_singleton.mp hi <;> cases hs
  used t st hu := by
    have hold : .used t st ∈ s.history := by simpa [Machine.start,machine] using hu
    obtain ⟨hlt,hown⟩ := h.used t st hold
    exact ⟨hlt.trans (Nat.lt_succ_self _),hown.called c⟩

theorem Isolated.step {s' : Process} {a : Action Choice Call} (h : Isolated cfg s)
    (hs : step cfg s a = some s') : Isolated cfg s' := by
  cases a with
  | call c =>
    obtain rfl := Option.some.inj hs
    exact h.called c
  | run t ch =>
    obtain ⟨i,rest,hc,-,rfl⟩ := step_run_cases hs
    exact h.after hc

theorem Isolated.root (pid : ℕ) : Isolated cfg (Process.root pid) where
  named t _ := rfl
  slot := Nat.one_pos
  current _ := {
    created := List.mem_cons_self
    named := Nat.one_pos
    pid := rfl
    service := .refl }
  code t i hi := by cases hi
  used t st hu := by simp [Process.root] at hu

/-- A child has nothing of its own yet. -/
theorem Isolated.forked (h : Isolated cfg s) {pid : ℕ} (hpid : FreshPid s pid) :
    Isolated cfg (s.forked Memory.inherit pid) where
  named t _ := rfl
  slot := h.slot
  current hcur := absurd hcur hpid.1
  code t i hi := by cases hi
  used t st hu := by cases hu

/-! ### The state that stays -/

/-- The process has a state of its own and no call is about to replace it. -/
structure Settled (s : Process) : Prop where
  own : s.shared.statePid s.shared.processState = s.shared.pid
  storing : s.Everywhere fun _ i => ∀ st p, i ≠ .storeProcessState st p

/-- The calls made from thread `n` on have used the state `st₀` only. -/
structure Serving (n st₀ : ℕ) (s : Process) : Prop where
  settled : Settled s
  slot : s.shared.processState = st₀
  started : n ≤ s.next
  code : s.Everywhere fun t i => n ≤ t → ∀ st, i.state = some st → st = st₀
  used : ∀ t st, n ≤ t → .used t st ∈ s.history → st = st₀

theorem Serving.refl (h : Isolated cfg s) (hs : Settled s) :
    Serving s.next s.shared.processState s where
  settled := hs
  slot := rfl
  started := le_rfl
  code _ _ hi hle := absurd (h.named.lt (List.ne_nil_of_mem hi)) (not_lt.mpr hle)
  used _ st hle hu := absurd (h.used _ st hu).1 (not_lt.mpr hle)

variable {n st₀ : ℕ}

theorem Serving.called (h : Serving n st₀ s) (c : Call) :
    Serving n st₀ ((machine cfg).start s c) where
  settled := by
    refine ⟨h.settled.own,?_⟩
    apply Machine.Everywhere.start h.settled.storing
    intro i hi
    cases c <;> obtain rfl := List.mem_singleton.mp hi <;> simp
  slot := h.slot
  started := h.started.trans (Nat.le_succ _)
  code := by
    apply Machine.Everywhere.start h.code
    intro i hi _ st hs
    cases c <;> obtain rfl := List.mem_singleton.mp hi <;> cases hs
  used t st hle hu := h.used t st hle (by simpa [Machine.start,machine] using hu)

/-- While the slot holds a state of the process, no other one is published or resumed. -/
theorem effect_settled {m : Memory} (hown : m.statePid m.processState = m.pid)
    (hi : ∀ st p, i ≠ .storeProcessState st p) {j : Instr}
    (hj : j ∈ (effect cfg ch m t i).push) : (∀ st p, j ≠ .storeProcessState st p) ∧
      ∀ st, j.state = some st → st = m.processState ∨ i.state = some st := by
  cases i with
  | getProcessState p =>
    have heff : effect cfg ch m t (.getProcessState p) =
        { state := m, push := p.resume m.processState } := if_pos hown
    rw [heff] at hj
    obtain rfl := Purpose.mem_resume hj
    exact ⟨by simp,fun st hs => Or.inl (Option.some.inj hs).symm⟩
  | storeProcessState st p => exact absurd rfl (hi st p)
  | useState st =>
    simp only [effect,useState] at hj
    cases hcont : ch.continuation <;> simp only [hcont] at hj <;> grind [Instr.state]
  | _ =>
    simp only [effect,ensureProcessState,storeCloseLock] at hj
    grind [Instr.state]

theorem Serving.after (h : Serving n st₀ s) (hinv : Isolated cfg s) (hc : s.code t = i :: rest) :
    Serving n st₀ (s.after cfg t i rest ch) := by
  have ht : t < s.next := hinv.named.lt (by simp [hc])
  have hmem : i ∈ s.code t := by simp [hc]
  have hst := h.settled.storing t i hmem
  have hown := h.settled.own
  obtain ⟨hpid,-,hkeep⟩ := effect_keeps cfg ch s.shared t i
  have hslot : (effect cfg ch s.shared t i).state.processState = s.shared.processState := by
    rcases effect_slot cfg ch s.shared t i with he | ⟨st,p,hip,-⟩
    · exact he
    · exact absurd hip (hst st p)
  exact {
    settled := {
      own := by
        rw [Sys.advance_shared,hslot,(hkeep _ hinv.slot).1,hpid]
        exact hown
      storing := h.settled.storing.advance ht hc (fun _ _ _ _ hj => hj)
        (fun j hj => (effect_settled hown hst hj).1)
        (fun body hb j hj => by
          obtain ⟨st,rfl⟩ := effect_spawn hb hj
          simp) }
    slot := hslot.trans h.slot
    started := h.started.trans (Sys.advance_next_le ..)
    code := h.code.advance ht hc (fun _ _ _ _ hj => hj)
      (fun j hj hle st hs => by
        rcases (effect_settled hown hst hj).2 st hs with he | hi
        · exact he.trans h.slot
        · exact h.code t i hmem hle st hi)
      (fun body hb j hj hle st hs => by
        obtain ⟨st',rfl⟩ := effect_spawn hb hj
        cases hs)
    used := fun t' st hle hu => by
      rcases List.mem_append.mp hu with hu | hu
      · exact h.used t' st hle hu
      · obtain ⟨rfl,hi⟩ := effect_used hu
        exact h.code t' i hmem hle st (by simp [hi,Instr.state]) }

theorem Serving.of_run (h : Isolated cfg s) (hs : Settled s) {s' : Process}
    (hr : Run (step cfg) (fun _ _ => True) s s') : Serving s.next s.shared.processState s' := by
  have hboth : Serving s.next s.shared.processState s' ∧ Isolated cfg s' := by
    induction hr with
    | refl => exact ⟨.refl h hs,h⟩
    | tail a _ _ hs' ih =>
      refine ⟨?_,ih.2.step hs'⟩
      cases a with
      | call c =>
        obtain rfl := Option.some.inj hs'
        exact ih.1.called c
      | run t ch =>
        obtain ⟨i,rest,hc,-,rfl⟩ := step_run_cases hs'
        exact ih.1.after ih.2 hc
  exact hboth.1

end Step
/-- The worlds of one runtime: processes forked from the one that has made it. -/
abbrev Forks (cfg : Registry.Config) : World Memory Instr Event → World Memory Instr Event → Prop :=
  Run (worldStep cfg) (Locally (fun _ _ => True) FreshPid)

theorem isolated_of_forks {pid : ℕ} {w : World Memory Instr Event}
    (h : Forks cfg (.root (Process.root pid)) w) {x : ℕ} (hx : x < w.next) :
    Isolated cfg (w.process x) :=
  World.everywhere (Isolated.root pid) (fun _ _ _ hs _ => hs.step) (fun _ _ hs => hs.forked) h x hx

/-- A process that has a state and runs no thread has settled on it. -/
theorem Isolated.settled {s : Process} (h : Isolated cfg s)
    (hown : s.shared.statePid s.shared.processState = s.shared.pid)
    (hidle : ∀ t < s.next, s.code t = []) : Settled s where
  own := hown
  storing t i hi := by
    have hlt : t < s.next := h.named.lt (List.ne_nil_of_mem hi)
    simp [hidle t hlt] at hi

/-- Every state that a process uses is its own, and from the moment it has settled on one every
call of the process uses that one. -/
theorem forked_processes_isolated {pid : ℕ} {w : World Memory Instr Event}
    (h : Forks cfg (.root (Process.root pid)) w) {x : ℕ} (hx : x < w.next) :
    (∀ t st, .used t st ∈ (w.process x).history → Owns cfg (w.process x) st) ∧
    (Settled (w.process x) → ∀ w', Forks cfg w w' → ∀ t st, (w.process x).next ≤ t →
      .used t st ∈ (w'.process x).history → st = (w.process x).shared.processState) := by
  have hiso : Isolated cfg (w.process x) := isolated_of_forks h hx
  constructor
  · exact fun t st hu => (hiso.used t st hu).2
  · intro hset w' hw t st hle hu
    obtain ⟨-,hrun⟩ := World.process_run hw hx
    exact (Serving.of_run hiso hset hrun).used t st hle hu

/-- A child makes a state for its first call and keeps it for the next one. -/
theorem forked_processes_isolated_child : ∃ w w' : World Memory Instr Event,
    (.used 0 1 ∈ (w.process 1).history ∧ .used 1 1 ∈ (w'.process 1).history) ∧
    Owns .plain (w.process 1) 1 ∧ 1 = (w.process 1).shared.processState := by
  have hsched : (schedule (fun w a => if decide (Locally (fun _ _ => True) FreshPid w a) then
      worldStep .plain w a else none) (.root (Process.root 10)) [.fork 0 20,
        .within 1 (.call .service), .within 1 (.run 0 {}), .within 1 (.run 0 {}),
        .within 1 (.run 0 {})]).any (fun w => 1 < w.next ∧ (w.process 1).next ≤ 1 ∧
      .used 0 1 ∈ (w.process 1).history ∧ (∀ t < (w.process 1).next, (w.process 1).code t = []) ∧
      (w.process 1).shared.statePid (w.process 1).shared.processState = (w.process 1).shared.pid ∧
      (schedule (fun w a => if decide (Locally (fun _ _ => True) FreshPid w a) then
        worldStep .plain w a else none) w [.within 1 (.call .service), .within 1 (.run 1 {}),
          .within 1 (.run 1 {})]).any fun w' => .used 1 1 ∈ (w'.process 1).history) = true := by
    decide +kernel
  obtain ⟨w,hrun,hp⟩ := Run.exists_within hsched
  obtain ⟨hx,hnext,hused,hidle,hown,hsched'⟩ := of_decide_eq_true hp
  obtain ⟨w',hrun',hp'⟩ := Run.exists_within hsched'
  have hused' := of_decide_eq_true hp'
  have h : Forks .plain (.root (Process.root 10)) w := hrun.mono fun _ _ => of_decide_eq_true
  have h' : Forks .plain w w' := hrun'.mono fun _ _ => of_decide_eq_true
  have hset := (isolated_of_forks h hx).settled hown hidle
  obtain ⟨hall,hsame⟩ := forked_processes_isolated h hx
  exact ⟨w,w',⟨hused,hused'⟩,hall 0 1 hused,hsame hset w' h' 1 1 hnext hused'⟩

/-- Two calls that overlap as the first ones of a child work on different states. -/
theorem overlapping_calls_split : ∃ w : World Memory Instr Event,
    Forks .plain (.root (Process.root 10)) w ∧ .used 0 1 ∈ (w.process 1).history ∧
    .used 1 2 ∈ (w.process 1).history := by
  have hsched : (schedule (fun w a => if decide (Locally (fun _ _ => True) FreshPid w a) then
      worldStep .plain w a else none) (.root (Process.root 10)) ([.fork 0 20,
        .within 1 (.call .service), .within 1 (.call .service)] ++
        (List.replicate 3 [.within 1 (.run 0 {}), .within 1 (.run 1 {})]).flatten)).any
      (fun w => .used 0 1 ∈ (w.process 1).history ∧ .used 1 2 ∈ (w.process 1).history) = true := by
    decide +kernel
  obtain ⟨w,hrun,hp⟩ := Run.exists_within hsched
  exact ⟨w,hrun.mono fun _ _ => of_decide_eq_true,of_decide_eq_true hp⟩

end FlaskXxlJob.Runtime
