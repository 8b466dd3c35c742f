import Mathlib.Logic.Function.Basic
import Mathlib.Order.Nat

/-!
Interleaved threads over one shared state. A thread is a stack of instructions. One step
executes the top instruction of one thread atomically, pushes its continuation, possibly
starts another thread and extends a ghost history.
-/
namespace Interleaving

/-- What one instruction does: the new shared state, the instructions it pushes on its own
stack, the stack of a thread it starts, and the history it records. -/
structure Effect (σ ι ε : Type*) where
  state : σ
  push : List ι := []
  spawn : Option (List ι) := none
  events : List ε := []

/-- `exec alive t fresh i c s` runs `i` on thread `t`. A thread it starts is named `fresh`;
`none` means that `i` is blocked. -/
structure Machine (σ ι χ κ ε : Type*) where
  exec : (ℕ → Bool) → ℕ → ℕ → ι → χ → σ → Option (Effect σ ι ε)
  entry : κ → List ι
  called : ℕ → κ → List ε

structure Sys (σ ι ε : Type*) where
  shared : σ
  code : ℕ → List ι
  next : ℕ
  history : List ε

inductive Action (χ κ : Type*) where
  | call (c : κ)
  | run (t : ℕ) (ch : χ)

variable {σ ι χ κ ε : Type*}

namespace Sys

def alive (s : Sys σ ι ε) (t : ℕ) : Bool := !(s.code t).isEmpty

@[simp] theorem alive_iff (s : Sys σ ι ε) (t : ℕ) : s.alive t = true ↔ s.code t ≠ [] := by
  simp [alive]

/-- Thread `t` continues with `stack` after the effect `e`. -/
def advance (s : Sys σ ι ε) (t : ℕ) (stack : List ι) (e : Effect σ ι ε) : Sys σ ι ε where
  shared := e.state
  code :=
    match e.spawn with
    | none => Function.update s.code t stack
    | some body => Function.update (Function.update s.code t stack) s.next body
  next := if e.spawn.isSome then s.next + 1 else s.next
  history := s.history ++ e.events

/-- No thread runs under a name that has not been given out. -/
def Named (s : Sys σ ι ε) : Prop := ∀ t, s.next ≤ t → s.code t = []

theorem Named.lt {s : Sys σ ι ε} (h : s.Named) {t : ℕ} (ht : s.code t ≠ []) : t < s.next := by
  by_contra hn
  exact ht (h t (not_lt.mp hn))

theorem Named.ended {s : Sys σ ι ε} (h : s.Named) (hend : ∀ t < s.next, s.code t = []) (t : ℕ) :
    s.code t = [] :=
  (lt_or_ge t s.next).elim (hend t) (h t)

section Advance
variable (s : Sys σ ι ε) (t : ℕ) (stack : List ι) (e : Effect σ ι ε)

@[simp] theorem advance_shared : (s.advance t stack e).shared = e.state := rfl

@[simp] theorem advance_history : (s.advance t stack e).history = s.history ++ e.events := rfl

theorem advance_next_le : s.next ≤ (s.advance t stack e).next := by
  simp only [advance]
  split <;> omega

variable {s t stack e}

theorem advance_code_self (ht : t < s.next) : (s.advance t stack e).code t = stack := by
  unfold advance
  cases e.spawn with
  | none => simp
  | some body => simp [Function.update_of_ne ht.ne]

theorem advance_code_spawn {body : List ι} (h : e.spawn = some body) :
    (s.advance t stack e).code s.next = body := by
  simp [advance,h]

theorem advance_code_other {t' : ℕ} (hne : t' ≠ t) (hf : t' ≠ s.next ∨ e.spawn = none) :
    (s.advance t stack e).code t' = s.code t' := by
  unfold advance
  cases he : e.spawn with
  | none => simp [Function.update_of_ne hne]
  | some body =>
    have hn : t' ≠ s.next := by simpa [he] using hf
    simp [Function.update_of_ne hne,Function.update_of_ne hn]

/-- Every stack after a step is the stepping thread's, the started thread's, or an old one. -/
theorem advance_code_cases (ht : t < s.next) (t' : ℕ) :
    (t' = t ∧ (s.advance t stack e).code t' = stack) ∨
    (t' = s.next ∧ ∃ body, e.spawn = some body ∧ (s.advance t stack e).code t' = body) ∨
    (t' ≠ t ∧ (s.advance t stack e).code t' = s.code t') := by
  by_cases h : t' = t
  · exact Or.inl ⟨h,by rw [h]; exact advance_code_self ht⟩
  by_cases hn : t' = s.next
  · cases he : e.spawn with
    | none => exact Or.inr (Or.inr ⟨h,advance_code_other h (Or.inr he)⟩)
    | some body =>
      exact Or.inr (Or.inl ⟨hn,body,rfl,by rw [hn]; exact advance_code_spawn he⟩)
  · exact Or.inr (Or.inr ⟨h,advance_code_other h (Or.inl hn)⟩)

theorem Named.advance (hs : s.Named) (ht : t < s.next) : (s.advance t stack e).Named := by
  intro t' hle
  have hlt : s.next ≤ t' := (advance_next_le s t stack e).trans hle
  have hne : t' ≠ t := (ht.trans_le hlt).ne'
  rw [advance_code_other hne]
  · exact hs t' hlt
  · cases he : e.spawn with
    | none => exact Or.inr rfl
    | some body =>
      left
      have hn : s.next + 1 ≤ t' := by simpa [Sys.advance,he] using hle
      omega

variable {i j : ι} {rest : List ι}

/-- An instruction of the system is the one at the top of thread `t` or stays there. -/
theorem mem_code_cases (hc : s.code t = i :: rest) {t' : ℕ} (hj : j ∈ s.code t') :
    (t' = t ∧ j = i) ∨ (t' = t → j ∈ rest) := by
  by_cases ht : t' = t
  · subst ht
    rw [hc] at hj
    exact (List.mem_cons.mp hj).imp (⟨rfl,·⟩) fun hr _ => hr
  · exact Or.inr fun h => absurd h ht

theorem mem_advance (hs : s.Named) (hc : s.code t = i :: rest) {t' : ℕ} (hj : j ∈ s.code t')
    (hr : t' = t → j ∈ rest) : j ∈ (s.advance t (e.push ++ rest) e).code t' := by
  have hlt : ∀ {x : ℕ}, s.code x ≠ [] → x < s.next := hs.lt
  have ht : t < s.next := hlt (by simp [hc])
  by_cases h : t' = t
  · subst h
    rw [advance_code_self ht]
    exact List.mem_append_right _ (hr rfl)
  · rw [advance_code_other h (Or.inl (hlt (List.ne_nil_of_mem hj)).ne)]
    exact hj

end Advance

/-- Every instruction on every stack meets `P`. -/
def Everywhere (P : ℕ → ι → Prop) (s : Sys σ ι ε) : Prop := ∀ t, ∀ i ∈ s.code t, P t i

namespace Everywhere
variable {P P' : ℕ → ι → Prop} {s : Sys σ ι ε} {t : ℕ} {i : ι} {rest : List ι} {e : Effect σ ι ε}

theorem mono (h : s.Everywhere P) (hm : ∀ t i, i ∈ s.code t → P t i → P' t i) :
    s.Everywhere P' := fun t i hi => hm t i hi (h t i hi)

/-- A step moves from `P` to `P'` everywhere if what stays on the stacks does, and if what the
effect pushes and starts meets `P'`. -/
theorem advance (h : s.Everywhere P) (ht : t < s.next) (hc : s.code t = i :: rest)
    (hkeep : ∀ t' j, j ∈ s.code t' → (t' = t → j ∈ rest) → P t' j → P' t' j)
    (hpush : ∀ j ∈ e.push, P' t j)
    (hspawn : ∀ body, e.spawn = some body → ∀ j ∈ body, P' s.next j) :
    (s.advance t (e.push ++ rest) e).Everywhere P' := by
  intro t' j hj
  rcases @advance_code_cases _ _ _ s t (e.push ++ rest) e ht t' with
    ⟨rfl,he⟩ | ⟨rfl,body,hb,he⟩ | ⟨hne,he⟩ <;> rw [he] at hj
  · rcases List.mem_append.mp hj with hj | hj
    · exact hpush j hj
    · have hmem : j ∈ s.code t' := by simp [hc,hj]
      exact hkeep t' j hmem (fun _ => hj) (h t' j hmem)
  · exact hspawn body hb j hj
  · exact hkeep t' j hj (fun ht' => absurd ht' hne) (h t' j hj)

end Everywhere
end Sys

namespace Machine
variable (M : Machine σ ι χ κ ε)

def start (s : Sys σ ι ε) (c : κ) : Sys σ ι ε where
  shared := s.shared
  code := Function.update s.code s.next (M.entry c)
  next := s.next + 1
  history := s.history ++ M.called s.next c

def step (s : Sys σ ι ε) : Action χ κ → Option (Sys σ ι ε)
  | .call c => some (M.start s c)
  | .run t ch =>
    match s.code t with
    | [] => none
    | i :: rest => (M.exec s.alive t s.next i ch s.shared).map fun e =>
        s.advance t (e.push ++ rest) e

variable {M}

theorem step_run {s s' : Sys σ ι ε} {t : ℕ} {ch : χ} (h : M.step s (.run t ch) = some s') :
    ∃ i rest e, s.code t = i :: rest ∧ M.exec s.alive t s.next i ch s.shared = some e ∧
      s' = s.advance t (e.push ++ rest) e := by
  unfold step at h
  cases hc : s.code t with
  | nil => simp [hc] at h
  | cons i rest =>
    obtain ⟨e,he,hs⟩ := Option.map_eq_some_iff.mp (by simpa [hc] using h)
    exact ⟨i,rest,e,rfl,he,hs.symm⟩

theorem step_run_of {s : Sys σ ι ε} {t : ℕ} {ch : χ} {i : ι} {rest : List ι}
    {e : Effect σ ι ε} (hc : s.code t = i :: rest)
    (he : M.exec s.alive t s.next i ch s.shared = some e) :
    M.step s (.run t ch) = some (s.advance t (e.push ++ rest) e) := by
  simp [step,hc,he]

theorem Named.start {s : Sys σ ι ε} (h : s.Named) (c : κ) : (M.start s c).Named := by
  intro t ht
  have hlt : s.next + 1 ≤ t := ht
  have hne : t ≠ s.next := by omega
  simpa [Machine.start,Function.update_of_ne hne] using h t (by omega)

theorem mem_start {s : Sys σ ι ε} (h : s.Named) {c : κ} {t : ℕ} {i : ι} (hi : i ∈ s.code t) :
    i ∈ (M.start s c).code t := by
  have hne : t ≠ s.next := (h.lt (List.ne_nil_of_mem hi)).ne
  simpa [Machine.start,Function.update_of_ne hne] using hi

theorem Everywhere.start {P : ℕ → ι → Prop} {s : Sys σ ι ε} (h : s.Everywhere P) {c : κ}
    (hentry : ∀ i ∈ M.entry c, P s.next i) : (M.start s c).Everywhere P := by
  intro t i hi
  by_cases ht : t = s.next
  · subst ht
    exact hentry i (by simpa [Machine.start] using hi)
  · exact h t i (by simpa [Machine.start,ht] using hi)

theorem Named.step {s s' : Sys σ ι ε} {a : Action χ κ} (h : s.Named)
    (hs : M.step s a = some s') : s'.Named := by
  cases a with
  | call c =>
    obtain rfl := Option.some.inj hs
    exact Named.start h c
  | run t ch =>
    obtain ⟨i,rest,e,hc,-,rfl⟩ := step_run hs
    exact h.advance (h.lt (by simp [hc]))

end Machine

/-- Runs of a partial step function whose every step meets `guard`. -/
inductive Run {S A : Type*} (step : S → A → Option S) (guard : S → A → Prop) (s₀ : S) : S → Prop
  | refl : Run step guard s₀ s₀
  | tail {s s' : S} (a : A) : Run step guard s₀ s → guard s a → step s a = some s' →
      Run step guard s₀ s'

namespace Run
variable {S A : Type*} {step : S → A → Option S} {guard guard' : S → A → Prop} {s₀ s₁ s₂ : S}

theorem trans (h : Run step guard s₀ s₁) (h' : Run step guard s₁ s₂) : Run step guard s₀ s₂ := by
  induction h' with
  | refl => exact h
  | tail a _ hg hs ih => exact ih.tail a hg hs

theorem mono (h : Run step guard s₀ s₁) (hg : ∀ s a, guard s a → guard' s a) :
    Run step guard' s₀ s₁ := by
  induction h with
  | refl => exact .refl
  | tail a _ hs hst ih => exact ih.tail a (hg _ _ hs) hst

/-- What holds initially and is kept by every guarded step holds after every guarded run. -/
theorem invariant {I : S → Prop} (h0 : I s₀)
    (hstep : ∀ s a s', I s → guard s a → step s a = some s' → I s')
    (h : Run step guard s₀ s₁) : I s₁ := by
  induction h with
  | refl => exact h0
  | tail a _ hg hs ih => exact hstep _ a _ ih hg hs

/-- A step relation that is reflexive and transitive relates the two ends of a run. -/
theorem relation {R : S → S → Prop} (hrefl : ∀ s, R s s)
    (htrans : ∀ s s' s'', R s s' → R s' s'' → R s s'')
    (hstep : ∀ s a s', guard s a → step s a = some s' → R s s')
    (h : Run step guard s₀ s₁) : R s₀ s₁ := by
  induction h with
  | refl => exact hrefl _
  | tail a _ hg hs ih => exact htrans _ _ _ ih (hstep _ a _ hg hs)

end Run

/-- Execute a finite schedule. -/
def schedule {S A : Type*} (step : S → A → Option S) : S → List A → Option S
  | s, [] => some s
  | s, a :: as => (step s a).bind fun s' => schedule step s' as

theorem Run.of_schedule {S A : Type*} {step : S → A → Option S} {s s' : S} {as : List A}
    (h : schedule step s as = some s') : Run step (fun _ _ => True) s s' := by
  induction as generalizing s with
  | nil => exact Option.some.inj h ▸ .refl
  | cons a as ih =>
    obtain ⟨m,hm,hr⟩ := Option.bind_eq_some_iff.mp h
    exact (Run.refl.tail a trivial hm).trans (ih hr)

/-- A schedule whose last state meets `p` reaches a state that meets `p`. -/
theorem Run.exists_of_schedule {S A : Type*} {f : S → A → Option S} {s : S} {l : List A}
    {p : S → Bool} (h : (schedule f s l).any p = true) :
    ∃ s', Run f (fun _ _ => True) s s' ∧ p s' = true := by
  cases hs : schedule f s l with
  | none => simp [hs] at h
  | some s' => exact ⟨s',.of_schedule hs,by simpa [hs] using h⟩

/-- The same for a schedule whose every step meets a guard. -/
theorem Run.exists_within {S A : Type*} {f : S → A → Option S} {guard : S → A → Bool} {s : S}
    {l : List A} {p : S → Bool}
    (h : (schedule (fun s a => if guard s a then f s a else none) s l).any p = true) :
    ∃ s', Run f (fun s a => guard s a = true) s s' ∧ p s' = true := by
  obtain ⟨s',hr,hp⟩ := Run.exists_of_schedule h
  refine ⟨s',?_,hp⟩
  clear hp h
  induction hr with
  | refl => exact .refl
  | tail a _ _ hs ih =>
    split at hs
    · exact ih.tail a ‹_› hs
    · cases hs

end Interleaving
