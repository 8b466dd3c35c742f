import FlaskXxlJob.Interleaving.Accounting
import FlaskXxlJob.Runtime.Isolation

/-!
How often a runtime is shut down. In every process of a fork tree `close` starts at most one
shutdown and waits for no lock of another process, provided that no thread enters `close` while
another one replaces what the process has inherited.
-/
namespace FlaskXxlJob.Runtime
open FlaskXxlJob.Client Interleaving

variable {cfg : Registry.Config}

namespace Instr

/-- `_ensure_process_state` replaces what the process has inherited. -/
def resets : Instr → Bool
  | .storePid | .storeCloseLock | .storeClosed => true
  | _ => false

/-- The thread is past `_ensure_process_state`. -/
def closes : Instr → Bool
  | .loadCloseLock | .acquireCloseLock _ | .testClosed _ | .setClosed _ | .releaseCloseLock .. |
    .shutdown => true
  | _ => false

def holds : Instr → Bool
  | .testClosed _ | .setClosed _ | .releaseCloseLock .. => true
  | _ => false

/-- The thread has set `_closed` and has yet to start the shutdown. -/
def owes : Instr → Bool
  | .releaseCloseLock _ first => first
  | .shutdown => true
  | _ => false

/-- The thread is in `close` and has yet to see or set `_closed`. -/
def undecided : Instr → Bool
  | .ensureProcessState | .storePid | .storeCloseLock | .storeClosed | .loadCloseLock |
    .acquireCloseLock _ | .testClosed _ | .setClosed _ => true
  | _ => false

/-- The thread works on Registry states. -/
def serves : Instr → Bool
  | .getProcessState _ | .storeProcessState .. | .useState _ => true
  | _ => false

def lock : Instr → Option ℕ
  | .acquireCloseLock l | .testClosed l | .setClosed l | .releaseCloseLock l _ => some l
  | _ => none

variable {i : Instr}

theorem serves_flags (h : i.serves = true) :
    i.resets = false ∧ i.closes = false ∧ i.holds = false ∧ i.owes = false ∧ i.lock = none := by
  cases i with
  | getProcessState | storeProcessState | useState => exact ⟨rfl,rfl,rfl,rfl,rfl⟩
  | _ => cases h

theorem holds_of_closes (h : i.closes = false) : i.holds = false := by
  cases i with
  | testClosed | setClosed | releaseCloseLock => cases h
  | _ => rfl

theorem owes_of_closes (h : i.closes = false) : i.owes = false := by
  cases i with
  | releaseCloseLock | shutdown => cases h
  | _ => rfl

theorem lock_of_closes (h : i.closes = false) : i.lock = none := by
  cases i with
  | acquireCloseLock | testClosed | setClosed | releaseCloseLock => cases h
  | _ => rfl

end Instr

/-- No thread enters `close` while another one replaces what the process has inherited. -/
def Serial (s : Process) : Action Choice Call → Prop
  | .call _ => True
  | .run t _ => (s.code t).head? = some .ensureProcessState → total (tally Instr.resets) s = 0

instance (s : Process) (a : Action Choice Call) : Decidable (Serial s a) :=
  match a with
  | .call _ => inferInstanceAs (Decidable True)
  | .run _ _ => inferInstanceAs (Decidable (_ → _))

def Event.isShutdown : Event → Bool
  | .shutdown _ => true
  | _ => false

/-- The shutdowns that a process has started. -/
def shutdowns (s : Process) : ℕ := s.history.countP Event.isShutdown

/-- The process still has the close state of another one, which at most one thread replaces. -/
structure Inherited (s : Process) : Prop where
  single : total (tally Instr.resets) s ≤ 1
  replacing : s.shared.runtimePid = s.shared.pid → total (tally Instr.resets) s = 1
  idle : total (tally Instr.closes) s = 0
  unshut : shutdowns s = 0
  stored : s.Everywhere fun _ i => i = .storeCloseLock ∨ i = .storeClosed →
    s.shared.runtimePid = s.shared.pid
  renewed : s.Everywhere fun _ i => i = .storeClosed →
    .createdLock s.shared.closeLock ∈ s.history ∧ s.shared.locked s.shared.closeLock = false
  decided : ∀ t, .called t .close ∈ s.history → ∃ i ∈ s.code t, i.undecided = true

/-- The close state is that of the process: its lock has at most one holder, and `_closed` is set
exactly when a shutdown is due or has started. -/
structure Own (s : Process) : Prop where
  pid : s.shared.runtimePid = s.shared.pid
  replaced : total (tally Instr.resets) s = 0
  created : .createdLock s.shared.closeLock ∈ s.history
  held : total (tally Instr.holds) s = (s.shared.locked s.shared.closeLock).toNat
  once : total (tally Instr.owes) s + shutdowns s = s.shared.closed.toNat
  locks : s.Everywhere fun _ i => ∀ l, i.lock = some l → l = s.shared.closeLock
  setting : s.Everywhere fun _ i => ∀ l, i = .setClosed l → s.shared.closed = false
  decided : ∀ t, .called t .close ∈ s.history →
    (∃ i ∈ s.code t, i.undecided = true) ∨ s.shared.closed = true

section Step
variable {s : Process} {t : ℕ} {i : Instr} {rest : List Instr} {ch : Choice}

variable (cfg ch) in
/-- Threads that are started are not in `close`. -/
theorem total_after (hn : s.Named) (hc : s.code t = i :: rest) {p : Instr → Bool}
    (hp : ∀ q, p (.getProcessState q) = false) :
    total (tally p) (s.after cfg t i rest ch) + (p i).toNat =
      total (tally p) s + (effect cfg ch s.shared t i).push.countP p := by
  have h := total_advance (f := tally p) hn hc (effect cfg ch s.shared t i)
  have hspawn : weigh (tally p) s.next ((effect cfg ch s.shared t i).spawn.getD []) = 0 := by
    rw [weigh_tally]
    cases hb : (effect cfg ch s.shared t i).spawn with
    | none => rfl
    | some body =>
      apply List.countP_eq_zero.mpr
      intro j hj
      obtain ⟨st,rfl⟩ := effect_spawn hb hj
      simp [hp]
  rw [hspawn,weigh_tally] at h
  have hi : tally p t i = (p i).toNat := by cases hpi : p i <;> simp [tally,hpi]
  rw [hi] at h
  exact h

/-- What is counted zero times occurs nowhere. -/
theorem absent_of_total (hn : s.Named) {p : Instr → Bool} (h : total (tally p) s = 0) {j : Instr}
    (hj : j ∈ s.code t) : p j = false := by
  have hle := le_total (f := tally p) hn hj
  by_contra hp
  simp [tally,hp,h] at hle

/-- Every instruction of a thread is an old one, pushed by the step, or at work on a state. -/
theorem mem_after (hn : s.Named) (hc : s.code t = i :: rest) {t' : ℕ} {j : Instr}
    (hj : j ∈ (s.after cfg t i rest ch).code t') : (j ∈ s.code t' ∧ (t' = t → j ∈ rest)) ∨
      j ∈ (effect cfg ch s.shared t i).push ∨ j.serves = true := by
  rcases @Sys.advance_code_cases _ _ _ s t ((effect cfg ch s.shared t i).push ++ rest)
    (effect cfg ch s.shared t i) (hn.lt (by simp [hc])) t' with
    ⟨rfl,he⟩ | ⟨rfl,body,hb,he⟩ | ⟨hne,he⟩ <;> rw [he] at hj
  · rcases List.mem_append.mp hj with hj | hj
    · exact Or.inr (Or.inl hj)
    · exact Or.inl ⟨by simp [hc,hj],fun _ => hj⟩
  · obtain ⟨st,rfl⟩ := effect_spawn hb hj
    exact Or.inr (Or.inr rfl)
  · exact Or.inl ⟨hj,fun h => absurd h hne⟩

variable (cfg s t i rest ch) in
theorem shutdowns_after : shutdowns (s.after cfg t i rest ch) =
    shutdowns s + (effect cfg ch s.shared t i).events.countP Event.isShutdown := by
  simp [shutdowns]

variable (cfg t ch) in
/-- A thread that leaves `close` undecided has found `_closed` set or sets it now. -/
theorem effect_undecided (m : Memory) (hi : i.undecided = true) :
    (∃ j ∈ (effect cfg ch m t i).push, j.undecided = true) ∨
      i.holds = true ∧ (effect cfg ch m t i).state.closed = true := by
  cases i with
  | ensureProcessState =>
    simp only [effect,ensureProcessState]
    split <;> simp [Instr.undecided]
  | testClosed l =>
    simp only [effect]
    cases m.closed <;> simp [Instr.undecided,Instr.holds]
  | _ => simp_all [effect,storeCloseLock,Instr.undecided,Instr.holds]

theorem effect_called {m : Memory} {t' : ℕ} {c : Call} :
    .called t' c ∉ (effect cfg ch m t i).events := by
  cases i with
  | getProcessState p =>
    simp only [effect,getProcessState]
    split <;> simp
  | _ => simp [effect,useState,ensureProcessState,storeCloseLock]

theorem undecided_after (hn : s.Named) (hc : s.code t = i :: rest) {t' : ℕ}
    (hd : ∃ j ∈ s.code t', j.undecided = true) :
    (∃ j ∈ (s.after cfg t i rest ch).code t', j.undecided = true) ∨
      i.holds = true ∧ (s.after cfg t i rest ch).shared.closed = true := by
  obtain ⟨j,hj,hund⟩ := hd
  rcases Sys.mem_code_cases hc hj with ⟨rfl,rfl⟩ | hrest
  · refine (effect_undecided cfg t' ch s.shared hund).imp ?_ id
    rintro ⟨j',hj',hund'⟩
    refine ⟨j',?_,hund'⟩
    rw [Sys.advance_code_self (hn.lt (by simp [hc]))]
    exact List.mem_append_left _ hj'
  · exact Or.inl ⟨j,Sys.mem_advance hn hc hj hrest,hund⟩

variable (cfg t ch) in
/-- Work on the Registry states leaves the close state alone. -/
theorem effect_serves (m : Memory) (hi : i.serves = true) :
    (∀ j ∈ (effect cfg ch m t i).push, j.serves = true) ∧
    (effect cfg ch m t i).events.countP Event.isShutdown = 0 ∧
    (effect cfg ch m t i).state.pid = m.pid ∧
    (effect cfg ch m t i).state.runtimePid = m.runtimePid ∧
    (effect cfg ch m t i).state.closeLock = m.closeLock ∧
    (effect cfg ch m t i).state.locked = m.locked ∧
    (effect cfg ch m t i).state.closed = m.closed := by
  cases i with
  | getProcessState p =>
    simp only [effect,getProcessState]
    split
    · refine ⟨fun j hj => ?_,rfl,rfl,rfl,rfl,rfl,rfl⟩
      rw [Purpose.mem_resume hj]
      rfl
    · refine ⟨fun j hj => ?_,rfl,rfl,rfl,rfl,rfl,rfl⟩
      rw [List.mem_singleton.mp hj]
      rfl
  | storeProcessState st p =>
    refine ⟨fun j hj => ?_,rfl,rfl,rfl,rfl,rfl,rfl⟩
    rw [Purpose.mem_resume hj]
    rfl
  | useState st =>
    refine ⟨fun j hj => ?_,rfl,rfl,rfl,rfl,rfl,rfl⟩
    simp only [effect,useState] at hj
    cases hcont : ch.continuation <;> simp only [hcont] at hj <;> grind [Instr.serves]
  | _ => cases hi

theorem called_before {t' : ℕ} {c : Call}
    (h : .called t' c ∈ (s.after cfg t i rest ch).history) : .called t' c ∈ s.history :=
  (List.mem_append.mp h).resolve_right effect_called

/-- What a step does to a close state of the process: the lock follows its holder, and `_closed`
the shutdown that is due. -/
structure Balanced (m : Memory) (i : Instr) (e : Step) : Prop where
  pid : e.state.runtimePid = e.state.pid
  lock : e.state.closeLock = m.closeLock
  replaced : e.push.countP Instr.resets = 0
  held : e.push.countP Instr.holds + (m.locked m.closeLock).toNat =
    i.holds.toNat + (e.state.locked m.closeLock).toNat
  once : e.push.countP Instr.owes + e.events.countP Event.isShutdown + m.closed.toNat =
    i.owes.toNat + e.state.closed.toNat
  locks : ∀ j ∈ e.push, ∀ l, j.lock = some l → l = m.closeLock
  setting : ∀ j ∈ e.push, ∀ l, j = .setClosed l → e.state.closed = false
  closed : e.state.closed = m.closed ∨ i.holds = true ∧ e.state.closed = true

theorem countP_serves {l : List Instr} (h : ∀ j ∈ l, j.serves = true) {p : Instr → Bool}
    (hp : ∀ j, j.serves = true → p j = false) : l.countP p = 0 :=
  List.countP_eq_zero.mpr fun j hj => by simp [hp j (h j hj)]

section Balanced
variable {m : Memory}

variable (cfg t ch) in
theorem balanced_serves (hpid : m.runtimePid = m.pid) (hs : i.serves = true) :
    Balanced m i (effect cfg ch m t i) := by
  obtain ⟨hpush,hev,hp,hr,hlock,hlocked,hclosed⟩ := effect_serves cfg t ch m hs
  obtain ⟨-,-,hholds,howes,-⟩ := Instr.serves_flags hs
  exact {
    pid := hr.trans (hpid.trans hp.symm)
    lock := hlock
    replaced := countP_serves hpush fun _ hj => (Instr.serves_flags hj).1
    held := by
      rw [countP_serves hpush fun _ hj => (Instr.serves_flags hj).2.2.1,hlocked,hholds]
      rfl
    once := by
      rw [countP_serves hpush fun _ hj => (Instr.serves_flags hj).2.2.2.1,hev,hclosed,howes]
      rfl
    locks := fun j hj l hl => by
      rw [(Instr.serves_flags (hpush j hj)).2.2.2.2] at hl
      cases hl
    setting := fun j hj l hl => by
      have hserves := hpush j hj
      simp [hl,Instr.serves] at hserves
    closed := Or.inl hclosed }

/-- The thread goes on in the same phase. -/
theorem Balanced.pass {j : Instr} (hpid : m.runtimePid = m.pid) (hr : j.resets = false)
    (hh : j.holds = i.holds) (ho : j.owes = i.owes) (hl : ∀ l, j.lock = some l → l = m.closeLock)
    (hs : ∀ l, j = .setClosed l → m.closed = false) :
    Balanced m i { state := m, push := [j] } where
  pid := hpid
  lock := rfl
  replaced := by simp [hr]
  held := by cases hi : i.holds <;> simp [hh,hi]
  once := by cases hi : i.owes <;> simp [ho,hi]
  locks j' hj l hl' := by
    obtain rfl := List.mem_singleton.mp hj
    exact hl l hl'
  setting j' hj l hl' := by
    obtain rfl := List.mem_singleton.mp hj
    exact hs l hl'
  closed := Or.inl rfl

variable (cfg t ch) in
theorem balanced_acquireCloseLock (hpid : m.runtimePid = m.pid)
    (hfree : m.locked m.closeLock = false) :
    Balanced m (.acquireCloseLock m.closeLock)
      (effect cfg ch m t (.acquireCloseLock m.closeLock)) where
  pid := hpid
  lock := rfl
  replaced := rfl
  held := by simp [effect,hfree,Instr.holds]
  once := rfl
  locks j hj l hl := by
    obtain rfl := List.mem_singleton.mp hj
    exact (Option.some.inj hl).symm
  setting j hj l hl := by
    obtain rfl := List.mem_singleton.mp hj
    cases hl
  closed := Or.inl rfl

variable (cfg t ch) in
theorem balanced_setClosed (hpid : m.runtimePid = m.pid) (hfalse : m.closed = false) :
    Balanced m (.setClosed m.closeLock) (effect cfg ch m t (.setClosed m.closeLock)) where
  pid := hpid
  lock := rfl
  replaced := rfl
  held := rfl
  once := by simp [effect,hfalse,Instr.owes]
  locks j hj l hl := by
    obtain rfl := List.mem_singleton.mp hj
    exact (Option.some.inj hl).symm
  setting j hj l hl := by
    obtain rfl := List.mem_singleton.mp hj
    cases hl
  closed := Or.inr ⟨rfl,rfl⟩

variable (cfg t ch) in
theorem balanced_releaseCloseLock (hpid : m.runtimePid = m.pid)
    (hlocked : m.locked m.closeLock = true) (first : Bool) :
    Balanced m (.releaseCloseLock m.closeLock first)
      (effect cfg ch m t (.releaseCloseLock m.closeLock first)) where
  pid := hpid
  lock := rfl
  replaced := by cases first <;> rfl
  held := by cases first <;> simp [effect,hlocked,Instr.holds]
  once := by cases first <;> rfl
  locks j hj l hl := by
    cases first with
    | false => cases hj
    | true =>
      obtain rfl := List.mem_singleton.mp hj
      cases hl
  setting j hj l hl := by
    cases first with
    | false => cases hj
    | true =>
      obtain rfl := List.mem_singleton.mp hj
      cases hl
  closed := Or.inl rfl

variable (cfg t ch) in
theorem balanced_shutdown (hpid : m.runtimePid = m.pid) :
    Balanced m .shutdown (effect cfg ch m t .shutdown) where
  pid := hpid
  lock := rfl
  replaced := rfl
  held := rfl
  once := rfl
  locks j hj l hl := by
    obtain rfl := List.mem_singleton.mp hj
    cases hl
  setting j hj l hl := by
    obtain rfl := List.mem_singleton.mp hj
    cases hl
  closed := Or.inl rfl

variable (cfg t ch) in
theorem effect_balanced (hpid : m.runtimePid = m.pid) (hi : i.resets = false)
    (hl : ∀ l, i.lock = some l → l = m.closeLock)
    (hheld : i.holds = true → m.locked m.closeLock = true)
    (hset : ∀ l, i = .setClosed l → m.closed = false) (hen : enabled m i = true) :
    Balanced m i (effect cfg ch m t i) := by
  cases i with
  | getProcessState | storeProcessState | useState => exact balanced_serves cfg t ch hpid rfl
  | storePid | storeCloseLock | storeClosed => cases hi
  | ensureProcessState =>
    have heff : effect cfg ch m t .ensureProcessState =
        { state := m, push := [.loadCloseLock] } := by
      simp [effect,ensureProcessState,hpid]
    rw [heff]
    exact .pass hpid rfl rfl rfl (fun _ h => by cases h) fun _ h => by cases h
  | loadCloseLock =>
    exact .pass hpid rfl rfl rfl (fun _ h => (Option.some.inj h).symm) fun _ h => by cases h
  | acquireCloseLock l =>
    obtain rfl := hl l rfl
    exact balanced_acquireCloseLock cfg t ch hpid (by simpa [enabled] using hen)
  | testClosed l =>
    obtain rfl := hl l rfl
    simp only [effect]
    cases hclosed : m.closed with
    | true =>
      exact .pass hpid rfl rfl rfl (fun _ h => (Option.some.inj h).symm) fun _ h => by cases h
    | false =>
      exact .pass hpid rfl rfl rfl (fun _ h => (Option.some.inj h).symm) fun _ _ => hclosed
  | setClosed l =>
    obtain rfl := hl l rfl
    exact balanced_setClosed cfg t ch hpid (hset _ rfl)
  | releaseCloseLock l first =>
    obtain rfl := hl l rfl
    exact balanced_releaseCloseLock cfg t ch hpid (hheld rfl) first
  | shutdown => exact balanced_shutdown cfg t ch hpid

end Balanced

/-- Two threads never hold the lock at once. -/
theorem Own.alone (h : Own s) (hn : s.Named) (hc : s.code t = i :: rest) (hi : i.holds = true)
    {t' : ℕ} {j : Instr} (hj : j ∈ s.code t') (hr : t' = t → j ∈ rest) : j.holds = false := by
  have hle := add_le_total (f := tally Instr.holds) hn hc hj hr
  have hheld := h.held
  by_contra hne
  simp only [tally,hi,if_true,Bool.not_eq_false] at hle hne
  rw [if_pos hne] at hle
  have hbound := Bool.toNat_le (s.shared.locked s.shared.closeLock)
  omega

theorem Own.after (h : Own s) (hn : s.Named) (hc : s.code t = i :: rest)
    (hen : enabled s.shared i = true) : Own (s.after cfg t i rest ch) := by
  have hmem : i ∈ s.code t := by simp [hc]
  have ht : t < s.next := hn.lt (by simp [hc])
  have hi : i.resets = false := absent_of_total hn h.replaced hmem
  have hheld : i.holds = true → s.shared.locked s.shared.closeLock = true := by
    intro hh
    cases hfree : s.shared.locked s.shared.closeLock with
    | true => rfl
    | false =>
      have hzero := h.held
      rw [hfree] at hzero
      simp [absent_of_total hn hzero hmem] at hh
  have hb := effect_balanced cfg t ch h.pid hi (h.locks t i hmem) hheld
    (h.setting t i hmem) hen
  have hR := total_after cfg ch hn hc (p := Instr.resets) fun _ => rfl
  have hH := total_after cfg ch hn hc (p := Instr.holds) fun _ => rfl
  have hO := total_after cfg ch hn hc (p := Instr.owes) fun _ => rfl
  exact {
    pid := hb.pid
    replaced := by
      rw [hb.replaced,h.replaced,hi] at hR
      simpa using hR
    created := by
      rw [Sys.advance_shared,hb.lock]
      exact List.mem_append_left _ h.created
    held := by
      have hbal := hb.held
      have hold := h.held
      rw [Sys.advance_shared,hb.lock]
      omega
    once := by
      have hbal := hb.once
      have hold := h.once
      rw [Sys.advance_shared,shutdowns_after]
      omega
    locks := by
      intro t' j hj l hl
      rw [Sys.advance_shared,hb.lock]
      rcases mem_after hn hc hj with ⟨hold,-⟩ | hpush | hserves
      · exact h.locks t' j hold l hl
      · exact hb.locks j hpush l hl
      · rw [(Instr.serves_flags hserves).2.2.2.2] at hl
        cases hl
    setting := by
      intro t' j hj l hl
      rcases mem_after hn hc hj with ⟨hold,hr⟩ | hpush | hserves
      · rcases hb.closed with he | ⟨hh,-⟩
        · exact he.trans (h.setting t' j hold l hl)
        · have hnot := h.alone hn hc hh hold hr
          simp [hl,Instr.holds] at hnot
      · exact hb.setting j hpush l hl
      · simp [hl,Instr.serves] at hserves
    decided := fun t' ht' => by
      rcases h.decided t' (called_before ht') with hund | hset
      · exact (undecided_after hn hc hund).imp id And.right
      · right
        rcases hb.closed with he | ⟨-,he⟩
        · exact he.trans hset
        · exact he }

namespace Inherited

theorem outside (h : Inherited s) (hn : s.Named) {t' : ℕ} {j : Instr} (hj : j ∈ s.code t') :
    j.closes = false :=
  absent_of_total hn h.idle hj

theorem decided_after (h : Inherited s) (hn : s.Named) (hc : s.code t = i :: rest) {t' : ℕ}
    (ht' : .called t' .close ∈ (s.after cfg t i rest ch).history) :
    ∃ j ∈ (s.after cfg t i rest ch).code t', j.undecided = true := by
  refine (undecided_after hn hc (h.decided t' (called_before ht'))).resolve_right ?_
  rintro ⟨hh,-⟩
  have hi : i.closes = false := h.outside hn (by rw [hc]; exact List.mem_cons_self)
  rw [Instr.holds_of_closes hi] at hh
  cases hh

variable (cfg ch) in
theorem idle_after (h : Inherited s) (hn : s.Named) (hc : s.code t = i :: rest)
    (hpush : (effect cfg ch s.shared t i).push.countP Instr.closes = 0) :
    total (tally Instr.closes) (s.after cfg t i rest ch) = 0 := by
  have hC := total_after cfg ch hn hc (p := Instr.closes) fun _ => rfl
  rw [hpush,h.idle] at hC
  omega

variable (cfg ch) in
theorem unshut_after (h : Inherited s)
    (hev : (effect cfg ch s.shared t i).events.countP Event.isShutdown = 0) :
    shutdowns (s.after cfg t i rest ch) = 0 := by
  rw [shutdowns_after,hev,h.unshut]

/-- Two threads never replace the close state at once. -/
theorem alone (h : Inherited s) (hn : s.Named) (hc : s.code t = i :: rest) (hi : i.resets = true)
    {t' : ℕ} {j : Instr} (hj : j ∈ s.code t') (hr : t' = t → j ∈ rest) : j.resets = false := by
  have hle := add_le_total (f := tally Instr.resets) hn hc hj hr
  have hsingle := h.single
  by_contra hne
  simp only [tally,hi,if_true,Bool.not_eq_false] at hle hne
  rw [if_pos hne] at hle
  omega

theorem serve (h : Inherited s) (hn : s.Named) (hc : s.code t = i :: rest)
    (hs : i.serves = true) : Inherited (s.after cfg t i rest ch) := by
  obtain ⟨hpush,hev,hp,hr,hlock,hlocked,-⟩ := effect_serves cfg t ch s.shared hs
  have hsame : total (tally Instr.resets) (s.after cfg t i rest ch) =
      total (tally Instr.resets) s := by
    have hR := total_after cfg ch hn hc (p := Instr.resets) fun _ => rfl
    rw [countP_serves hpush fun _ hj => (Instr.serves_flags hj).1,(Instr.serves_flags hs).1] at hR
    exact hR
  exact {
    single := hsame.trans_le h.single
    replacing := fun hown => hsame.trans (h.replacing (hr.symm.trans (hown.trans hp)))
    idle := h.idle_after cfg ch hn hc
      (countP_serves hpush fun _ hj => (Instr.serves_flags hj).2.1)
    unshut := h.unshut_after cfg ch hev
    stored := by
      intro t' j hj he
      rw [Sys.advance_shared,hr,hp]
      rcases mem_after hn hc hj with ⟨hold,-⟩ | hin | hin
      · exact h.stored t' j hold he
      · have := hpush j hin
        rcases he with rfl | rfl <;> cases this
      · rcases he with rfl | rfl <;> cases hin
    renewed := by
      intro t' j hj he
      rw [Sys.advance_shared,hlock,hlocked]
      rcases mem_after hn hc hj with ⟨hold,-⟩ | hin | hin
      · obtain ⟨hcreated,hfree⟩ := h.renewed t' j hold he
        exact ⟨List.mem_append_left _ hcreated,hfree⟩
      · have := hpush j hin
        rw [he] at this
        cases this
      · rw [he] at hin
        cases hin
    decided := fun _ ht' => h.decided_after hn hc ht' }

theorem ensureProcessState (h : Inherited s) (hn : s.Named)
    (hc : s.code t = .ensureProcessState :: rest) (hg : Serial s (.run t ch)) :
    Inherited (s.after cfg t .ensureProcessState rest ch) := by
  have hzero : total (tally Instr.resets) s = 0 := hg (by rw [hc]; rfl)
  have hpid : s.shared.runtimePid ≠ s.shared.pid := by
    intro he
    have hone := h.replacing he
    omega
  have heff : effect cfg ch s.shared t .ensureProcessState =
      { state := s.shared, push := [.storePid] } := by
    simp [effect,Runtime.ensureProcessState,hpid]
  have hnew : total (tally Instr.resets) (s.after cfg t .ensureProcessState rest ch) = 1 := by
    have hR := total_after cfg ch hn hc (p := Instr.resets) fun _ => rfl
    rw [heff,hzero] at hR
    exact hR
  exact {
    single := hnew.le
    replacing := fun _ => hnew
    idle := h.idle_after cfg ch hn hc (by rw [heff]; rfl)
    unshut := h.unshut_after cfg ch (by rw [heff]; rfl)
    stored := by
      intro t' j hj he
      rcases mem_after hn hc hj with ⟨hold,-⟩ | hin | hin
      · exact h.stored t' j hold he
      · rw [heff,List.mem_singleton] at hin
        rcases he with rfl | rfl <;> cases hin
      · rcases he with rfl | rfl <;> cases hin
    renewed := by
      intro t' j hj he
      rcases mem_after hn hc hj with ⟨hold,-⟩ | hin | hin
      · obtain ⟨hcreated,hfree⟩ := h.renewed t' j hold he
        exact ⟨List.mem_append_left _ hcreated,hfree⟩
      · rw [heff,List.mem_singleton,he] at hin
        cases hin
      · rw [he] at hin
        cases hin
    decided := fun _ ht' => h.decided_after hn hc ht' }

theorem storePid (h : Inherited s) (hn : s.Named) (hc : s.code t = .storePid :: rest) :
    Inherited (s.after cfg t .storePid rest ch) := by
  have hnew : total (tally Instr.resets) (s.after cfg t .storePid rest ch) = 1 := by
    have hle := le_total (f := tally Instr.resets) hn (t := t) (i := .storePid) (by simp [hc])
    have hsingle := h.single
    have hR : total (tally Instr.resets) (s.after cfg t .storePid rest ch) + 1 =
        total (tally Instr.resets) s + 1 := total_after cfg ch hn hc fun _ => rfl
    change 1 ≤ _ at hle
    omega
  exact {
    single := hnew.le
    replacing := fun _ => hnew
    idle := h.idle_after cfg ch hn hc rfl
    unshut := h.unshut_after cfg ch rfl
    stored := fun _ _ _ _ => rfl
    renewed := by
      intro t' j hj he
      rcases mem_after hn hc hj with ⟨hold,-⟩ | hin | hin
      · obtain ⟨hcreated,hfree⟩ := h.renewed t' j hold he
        exact ⟨List.mem_append_left _ hcreated,hfree⟩
      · obtain rfl := List.mem_singleton.mp hin
        cases he
      · rw [he] at hin
        cases hin
    decided := fun _ ht' => h.decided_after hn hc ht' }

theorem storeCloseLock (h : Inherited s) (hn : s.Named) (hc : s.code t = .storeCloseLock :: rest) :
    Inherited (s.after cfg t .storeCloseLock rest ch) := by
  have hmem : .storeCloseLock ∈ s.code t := by rw [hc]; exact List.mem_cons_self
  have hpid := h.stored t _ hmem (Or.inl rfl)
  have hnew : total (tally Instr.resets) (s.after cfg t .storeCloseLock rest ch) = 1 := by
    have hone := h.replacing hpid
    have hR : total (tally Instr.resets) (s.after cfg t .storeCloseLock rest ch) + 1 =
        total (tally Instr.resets) s + 1 := total_after cfg ch hn hc fun _ => rfl
    omega
  exact {
    single := hnew.le
    replacing := fun _ => hnew
    idle := h.idle_after cfg ch hn hc rfl
    unshut := h.unshut_after cfg ch rfl
    stored := fun _ _ _ _ => hpid
    renewed := by
      intro t' j hj he
      rcases mem_after hn hc hj with ⟨hold,hr⟩ | hin | hin
      · have hnot := h.alone hn hc rfl hold hr
        rw [he] at hnot
        cases hnot
      · exact ⟨List.mem_append_right _ List.mem_cons_self,Function.update_self ..⟩
      · rw [he] at hin
        cases hin
    decided := fun _ ht' => h.decided_after hn hc ht' }

/-- The last store makes the close state that of the process. -/
theorem storeClosed (h : Inherited s) (hn : s.Named) (hc : s.code t = .storeClosed :: rest) :
    Own (s.after cfg t .storeClosed rest ch) := by
  have hmem : .storeClosed ∈ s.code t := by rw [hc]; exact List.mem_cons_self
  have hpid := h.stored t _ hmem (Or.inr rfl)
  obtain ⟨hcreated,hfree⟩ := h.renewed t _ hmem rfl
  have hR : total (tally Instr.resets) (s.after cfg t .storeClosed rest ch) + 1 =
      total (tally Instr.resets) s := total_after cfg ch hn hc fun _ => rfl
  have hH : total (tally Instr.holds) (s.after cfg t .storeClosed rest ch) =
      total (tally Instr.holds) s := total_after cfg ch hn hc (p := Instr.holds) fun _ => rfl
  have hO : total (tally Instr.owes) (s.after cfg t .storeClosed rest ch) =
      total (tally Instr.owes) s := total_after cfg ch hn hc (p := Instr.owes) fun _ => rfl
  have hholds : total (tally Instr.holds) s = 0 := total_eq_zero_of fun _ _ hj => by
    simp [tally,Instr.holds_of_closes (h.outside hn hj)]
  have howes : total (tally Instr.owes) s = 0 := total_eq_zero_of fun _ _ hj => by
    simp [tally,Instr.owes_of_closes (h.outside hn hj)]
  exact {
    pid := hpid
    replaced := by
      have hone := h.replacing hpid
      omega
    created := List.mem_append_left _ hcreated
    held := by
      rw [hH,hholds]
      exact (congrArg Bool.toNat hfree).symm
    once := by
      rw [hO,howes,h.unshut_after cfg ch rfl]
      rfl
    locks := by
      intro t' j hj l hl
      rcases mem_after hn hc hj with ⟨hold,-⟩ | hin | hin
      · rw [Instr.lock_of_closes (h.outside hn hold)] at hl
        cases hl
      · obtain rfl := List.mem_singleton.mp hin
        cases hl
      · rw [(Instr.serves_flags hin).2.2.2.2] at hl
        cases hl
    setting := fun _ _ _ _ _ => rfl
    decided := fun _ ht' => Or.inl (h.decided_after hn hc ht') }

theorem after (h : Inherited s) (hn : s.Named) (hc : s.code t = i :: rest)
    (hg : Serial s (.run t ch)) :
    Inherited (s.after cfg t i rest ch) ∨ Own (s.after cfg t i rest ch) := by
  have hi : i.closes = false := h.outside hn (by rw [hc]; exact List.mem_cons_self)
  cases i with
  | getProcessState | storeProcessState | useState => exact Or.inl (h.serve hn hc rfl)
  | ensureProcessState => exact Or.inl (h.ensureProcessState hn hc hg)
  | storePid => exact Or.inl (h.storePid hn hc)
  | storeCloseLock => exact Or.inl (h.storeCloseLock hn hc)
  | storeClosed => exact Or.inr (h.storeClosed hn hc)
  | loadCloseLock | acquireCloseLock | testClosed | setClosed | releaseCloseLock | shutdown =>
    cases hi

end Inherited

/-- A call that has just been made is in none of the phases that are counted. -/
theorem total_called (c : Call) {p : Instr → Bool} (hp : ∀ q, p (.getProcessState q) = false)
    (he : p .ensureProcessState = false) :
    total (tally p) ((machine cfg).start s c) = total (tally p) s := by
  rw [total_start,weigh_tally]
  cases c <;> simp [machine,entry,hp,he]

theorem shutdowns_called (c : Call) : shutdowns ((machine cfg).start s c) = shutdowns s := by
  simp [shutdowns,Machine.start,machine,Event.isShutdown]

theorem mem_called {c : Call} {t' : ℕ} {j : Instr} (hj : j ∈ ((machine cfg).start s c).code t') :
    j ∈ s.code t' ∨ j.serves = true ∨ j = .ensureProcessState := by
  by_cases ht : t' = s.next
  · have hentry : j ∈ entry c := by simpa [Machine.start,machine,ht] using hj
    cases c with
    | service =>
      obtain rfl := List.mem_singleton.mp hentry
      exact Or.inr (Or.inl rfl)
    | close => exact Or.inr (Or.inr (List.mem_singleton.mp hentry))
  · exact Or.inl (by simpa [Machine.start,ht] using hj)

/-- A new call of `close` is undecided. -/
theorem decided_called (hn : s.Named) {c : Call} {t' : ℕ} {P : Prop}
    (hd : .called t' .close ∈ s.history → (∃ j ∈ s.code t', j.undecided = true) ∨ P)
    (ht' : .called t' .close ∈ ((machine cfg).start s c).history) :
    (∃ j ∈ ((machine cfg).start s c).code t', j.undecided = true) ∨ P := by
  rcases List.mem_append.mp ht' with hold | hnew
  · refine (hd hold).imp ?_ id
    rintro ⟨j,hj,hund⟩
    exact ⟨j,Machine.mem_start hn hj,hund⟩
  · obtain ⟨rfl,rfl⟩ : t' = s.next ∧ .close = c := by simpa [machine] using hnew
    exact Or.inl ⟨.ensureProcessState,by simp [Machine.start,machine,entry],rfl⟩

theorem Inherited.called (h : Inherited s) (hn : s.Named) (c : Call) :
    Inherited ((machine cfg).start s c) where
  single := (total_called c (fun _ => rfl) rfl).trans_le h.single
  replacing hown := (total_called c (fun _ => rfl) rfl).trans (h.replacing hown)
  idle := (total_called c (fun _ => rfl) rfl).trans h.idle
  unshut := (shutdowns_called c).trans h.unshut
  stored t j hj he := by
    rcases mem_called hj with hold | hin | rfl
    · exact h.stored t j hold he
    · rcases he with rfl | rfl <;> cases hin
    · rcases he with he | he <;> cases he
  renewed t j hj he := by
    rcases mem_called hj with hold | hin | rfl
    · obtain ⟨hcreated,hfree⟩ := h.renewed t j hold he
      exact ⟨List.mem_append_left _ hcreated,hfree⟩
    · simp [he,Instr.serves] at hin
    · cases he
  decided t ht := by
    simpa using decided_called (P := False) hn (fun hold => Or.inl (h.decided t hold)) ht

theorem Own.called (h : Own s) (hn : s.Named) (c : Call) : Own ((machine cfg).start s c) where
  pid := h.pid
  replaced := (total_called c (fun _ => rfl) rfl).trans h.replaced
  created := List.mem_append_left _ h.created
  held := (total_called c (fun _ => rfl) rfl).trans h.held
  once := by
    rw [total_called c (fun _ => rfl) rfl,shutdowns_called]
    exact h.once
  locks t j hj l hl := by
    rcases mem_called hj with hold | hin | rfl
    · exact h.locks t j hold l hl
    · cases j <;> simp [Instr.serves,Instr.lock] at hin hl
    · cases hl
  setting t j hj l hl := by
    rcases mem_called hj with hold | hin | rfl
    · exact h.setting t j hold l hl
    · simp [hl,Instr.serves] at hin
    · cases hl
  decided t ht := decided_called hn (h.decided t) ht

end Step

/-- A process still has the close state of another one, or it has its own. -/
structure Closing (s : Process) : Prop where
  named : s.Named
  phase : Inherited s ∨ Own s

theorem Closing.step {s s' : Process} {a : Action Choice Call} (h : Closing s) (hg : Serial s a)
    (hs : step cfg s a = some s') : Closing s' := by
  refine ⟨Machine.Named.step h.named hs,?_⟩
  cases a with
  | call c =>
    obtain rfl := Option.some.inj hs
    exact h.phase.imp (fun hi => hi.called h.named c) fun ho => ho.called h.named c
  | run t ch =>
    obtain ⟨i,rest,hc,hen,rfl⟩ := step_run_cases hs
    rcases h.phase with hi | ho
    · exact hi.after h.named hc hg
    · exact Or.inr (ho.after h.named hc hen)

theorem Closing.root (pid : ℕ) : Closing (Process.root pid) where
  named _ _ := rfl
  phase := Or.inr {
    pid := rfl
    replaced := rfl
    created := by simp [Process.root]
    held := rfl
    once := rfl
    locks := fun t j hj => by cases hj
    setting := fun t j hj => by cases hj
    decided := fun t ht => by simp [Process.root] at ht }

theorem Closing.forked {s : Process} {pid : ℕ} (hpid : FreshPid s pid) :
    Closing (s.forked Memory.inherit pid) where
  named _ _ := rfl
  phase := Or.inl {
    single := Nat.zero_le _
    replacing := fun hown => absurd hown hpid.2
    idle := rfl
    unshut := rfl
    stored := fun t j hj => by cases hj
    renewed := fun t j hj => by cases hj
    decided := fun t ht => by cases ht }

/-- The worlds in which each process replaces what it inherits before another thread closes. -/
abbrev SerialForks (cfg : Registry.Config) :
    World Memory Instr Event → World Memory Instr Event → Prop :=
  Run (worldStep cfg) (Locally Serial FreshPid)

theorem closing_of_forks {pid : ℕ} {w : World Memory Instr Event}
    (h : SerialForks cfg (.root (Process.root pid)) w) {x : ℕ} (hx : x < w.next) :
    Closing (w.process x) :=
  World.everywhere (Closing.root pid) (fun _ _ _ hs hg hstep => hs.step hg hstep)
    (fun _ _ _ hpid => Closing.forked hpid) h x hx

/-- However many threads close the runtime in a process, at most one of them shuts it down; once
all are through, one has done so; and a thread waits only for a lock of the process that one of
its threads holds. -/
theorem runtime_closes_once {pid : ℕ} {w : World Memory Instr Event}
    (h : SerialForks cfg (.root (Process.root pid)) w) {x : ℕ} (hx : x < w.next) :
    shutdowns (w.process x) ≤ 1 ∧
    ((∃ t, .called t .close ∈ (w.process x).history) → (∀ t, (w.process x).code t = []) →
      shutdowns (w.process x) = 1) ∧
    ∀ t l, .acquireCloseLock l ∈ (w.process x).code t →
      .createdLock l ∈ (w.process x).history ∧
      ((w.process x).shared.locked l = true →
        ∃ t', ∃ i ∈ (w.process x).code t', i.holds = true ∧ i.lock = some l) := by
  have hclosing := closing_of_forks h hx
  have hn := hclosing.named
  rcases hclosing.phase with hin | hown
  · refine ⟨hin.unshut.trans_le (Nat.zero_le _),?_,fun t l hj => ?_⟩
    · rintro ⟨t,ht⟩ hidle
      obtain ⟨i,hi,-⟩ := hin.decided t ht
      simp [hidle t] at hi
    · cases absent_of_total hn hin.idle hj
  · have honce := hown.once
    refine ⟨?_,?_,fun t l hj => ?_⟩
    · have hbound := Bool.toNat_le (w.process x).shared.closed
      omega
    · rintro ⟨t,ht⟩ hidle
      have hclosed : (w.process x).shared.closed = true := by
        refine (hown.decided t ht).resolve_left ?_
        rintro ⟨i,hi,-⟩
        simp [hidle t] at hi
      have howes : total (tally Instr.owes) (w.process x) = 0 :=
        total_eq_zero_of fun t i hi => by simp [hidle t] at hi
      rw [howes,hclosed] at honce
      simpa using honce
    · obtain rfl := hown.locks t _ hj l rfl
      refine ⟨hown.created,fun hlocked => ?_⟩
      have hheld := hown.held
      rw [hlocked] at hheld
      obtain ⟨t',i,hi,hpos⟩ := exists_of_total_pos (f := tally Instr.holds) (s := w.process x)
        (by rw [hheld]; exact Nat.one_pos)
      have hih : i.holds = true := by
        by_contra hne
        simp [tally,hne] at hpos
      refine ⟨t',i,hi,hih,?_⟩
      cases i with
      | testClosed l | setClosed l | releaseCloseLock l =>
        have hl := hown.locks t' _ hi l rfl
        simp [Instr.lock,hl]
      | _ => cases hih

/-- A child closes the runtime that its parent has closed, on two threads. -/
theorem runtime_closes_once_child : ∃ w : World Memory Instr Event,
    (shutdowns (w.process 0) = 1 ∧ .called 0 .close ∈ (w.process 1).history ∧
      .called 1 .close ∈ (w.process 1).history) ∧ shutdowns (w.process 1) = 1 := by
  have hsched : (schedule (fun w a => if decide (Locally Serial FreshPid w a) then
      worldStep .plain w a else none) (.root (Process.root 10))
      ([.within 0 (.call .close)] ++ List.replicate 9 (.within 0 (.run 0 {})) ++ [.fork 0 20,
        .within 1 (.call .close), .within 1 (.call .close)] ++
        List.replicate 4 (.within 1 (.run 0 {})) ++ [.within 1 (.run 1 {})] ++
        List.replicate 3 (.within 1 (.run 0 {})) ++ [.within 1 (.run 1 {})] ++
        List.replicate 6 (.within 1 (.run 0 {})) ++ List.replicate 3 (.within 1 (.run 1 {})))).any
      (fun w => 1 < w.next ∧ (∀ t < (w.process 1).next, (w.process 1).code t = []) ∧
        shutdowns (w.process 0) = 1 ∧ .called 0 .close ∈ (w.process 1).history ∧
        .called 1 .close ∈ (w.process 1).history) = true := by
    decide +kernel
  obtain ⟨w,hrun,hp⟩ := Run.exists_within hsched
  obtain ⟨hx,hidle,hparent,hfirst,hsecond⟩ := of_decide_eq_true hp
  have h : SerialForks .plain (.root (Process.root 10)) w := hrun.mono fun _ _ => of_decide_eq_true
  obtain ⟨-,hone,-⟩ := runtime_closes_once h hx
  exact ⟨w,⟨hparent,hfirst,hsecond⟩,hone ⟨0,hfirst⟩ ((closing_of_forks h hx).named.ended hidle)⟩

/-- Two threads of a child that both find the pid of the parent shut the runtime down twice. -/
theorem overlapping_closes_twice : ∃ w : World Memory Instr Event,
    Forks .plain (.root (Process.root 10)) w ∧ shutdowns (w.process 1) = 2 := by
  have hsched : (schedule (fun w a => if decide (Locally (fun _ _ => True) FreshPid w a) then
      worldStep .plain w a else none) (.root (Process.root 10)) ([.fork 0 20,
        .within 1 (.call .close), .within 1 (.call .close), .within 1 (.run 0 {})] ++
        List.replicate 10 (.within 1 (.run 1 {})) ++ List.replicate 9 (.within 1 (.run 0 {})))).any
      (fun w => shutdowns (w.process 1) = 2) = true := by
    decide +kernel
  obtain ⟨w,hrun,hp⟩ := Run.exists_within hsched
  exact ⟨w,hrun.mono fun _ _ => of_decide_eq_true,of_decide_eq_true hp⟩

/-- A thread that enters between the two stores waits for the lock of the parent, which is held
for ever. -/
theorem inherited_lock_blocks : ∃ w : World Memory Instr Event,
    Forks .plain (.root (Process.root 10)) w ∧ (w.process 1).code 1 = [.acquireCloseLock 0] ∧
    (w.process 1).shared.locked 0 = true ∧ .createdLock 0 ∉ (w.process 1).history := by
  have hsched : (schedule (fun w a => if decide (Locally (fun _ _ => True) FreshPid w a) then
      worldStep .plain w a else none) (.root (Process.root 10)) ([.within 0 (.call .close)] ++
        List.replicate 3 (.within 0 (.run 0 {})) ++ [.fork 0 20, .within 1 (.call .close),
        .within 1 (.call .close)] ++ List.replicate 2 (.within 1 (.run 0 {})) ++
        List.replicate 2 (.within 1 (.run 1 {})))).any
      (fun w => (w.process 1).code 1 = [.acquireCloseLock 0] ∧
        (w.process 1).shared.locked 0 = true ∧ .createdLock 0 ∉ (w.process 1).history) = true := by
    decide +kernel
  obtain ⟨w,hrun,hp⟩ := Run.exists_within hsched
  exact ⟨w,hrun.mono fun _ _ => of_decide_eq_true,of_decide_eq_true hp⟩

end FlaskXxlJob.Runtime
