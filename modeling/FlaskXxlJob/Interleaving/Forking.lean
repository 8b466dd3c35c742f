import FlaskXxlJob.Interleaving.Machine

/-!
Processes that run one machine, each on its own memory. A fork copies the memory of a process but
none of its threads, and tells the copy which process it now belongs to.
-/
namespace Interleaving

variable {σ ι χ κ ε π : Type*}

structure World (σ ι ε : Type*) where
  process : ℕ → Sys σ ι ε
  next : ℕ

inductive WorldAction (χ κ π : Type*) where
  | within (x : ℕ) (a : Action χ κ)
  | fork (x : ℕ) (child : π)

/-- A process of its own, with no threads and nothing in its history yet. -/
def Sys.forked (inherit : π → σ → σ) (s : Sys σ ι ε) (child : π) : Sys σ ι ε where
  shared := inherit child s.shared
  code := fun _ => []
  next := 0
  history := []

/-- The first process. The entries from `next` on mean nothing. -/
def World.root (s : Sys σ ι ε) : World σ ι ε := { process := fun _ => s, next := 1 }

def Machine.worldStep (M : Machine σ ι χ κ ε) (inherit : π → σ → σ) (w : World σ ι ε) :
    WorldAction χ κ π → Option (World σ ι ε)
  | .within x a =>
    if x < w.next then
      (M.step (w.process x) a).map fun s => { w with process := Function.update w.process x s }
    else none
  | .fork x child =>
    if x < w.next then
      some {
        process := Function.update w.process w.next ((w.process x).forked inherit child)
        next := w.next + 1 }
    else none

/-- A guard on the steps and the forks of single processes. -/
def Locally (G : Sys σ ι ε → Action χ κ → Prop) (F : Sys σ ι ε → π → Prop) (w : World σ ι ε) :
    WorldAction χ κ π → Prop
  | .within x a => G (w.process x) a
  | .fork x child => F (w.process x) child

instance (G : Sys σ ι ε → Action χ κ → Prop) (F : Sys σ ι ε → π → Prop) (w : World σ ι ε)
    (a : WorldAction χ κ π) [∀ s a, Decidable (G s a)] [∀ s c, Decidable (F s c)] :
    Decidable (Locally G F w a) :=
  match a with
  | .within x a => inferInstanceAs (Decidable (G (w.process x) a))
  | .fork x c => inferInstanceAs (Decidable (F (w.process x) c))

section World
variable {M : Machine σ ι χ κ ε} {inherit : π → σ → σ} {w w' : World σ ι ε}
  {G : Sys σ ι ε → Action χ κ → Prop} {F : Sys σ ι ε → π → Prop}

theorem Machine.worldStep_within {x : ℕ} {a : Action χ κ}
    (h : M.worldStep inherit w (.within x a) = some w') : x < w.next ∧ ∃ s,
      M.step (w.process x) a = some s ∧
      w' = { w with process := Function.update w.process x s } := by
  simp only [worldStep] at h
  split at h
  · obtain ⟨s,hs,rfl⟩ := Option.map_eq_some_iff.mp h
    exact ⟨‹_›,s,hs,rfl⟩
  · cases h

theorem Machine.worldStep_fork {x : ℕ} {child : π}
    (h : M.worldStep inherit w (.fork x child) = some w') : x < w.next ∧
      w' = { process := Function.update w.process w.next ((w.process x).forked inherit child)
             next := w.next + 1 } := by
  simp only [worldStep] at h
  split at h
  · exact ⟨‹_›,(Option.some.inj h).symm⟩
  · cases h

/-- What holds in the first process, is kept by the steps of a process and passes to its forks
holds in every process. -/
theorem World.everywhere {P : Sys σ ι ε → Prop} {s₀ : Sys σ ι ε} (hroot : P s₀)
    (hstep : ∀ s a s', P s → G s a → M.step s a = some s' → P s')
    (hfork : ∀ s child, P s → F s child → P (s.forked inherit child))
    (h : Run (M.worldStep inherit) (Locally G F) (World.root s₀) w) :
    ∀ x < w.next, P (w.process x) := by
  induction h with
  | refl => exact fun x _ => hroot
  | @tail v _ a _ hg hs ih =>
    cases a with
    | within x a =>
      obtain ⟨hx,s,hin,rfl⟩ := Machine.worldStep_within hs
      intro y hy
      by_cases hyx : y = x
      · subst hyx
        simpa using hstep _ a s (ih y hy) hg hin
      · simpa [hyx] using ih y hy
    | fork x child =>
      obtain ⟨hx,rfl⟩ := Machine.worldStep_fork hs
      intro y hy
      by_cases hyn : y = v.next
      · subst hyn
        simpa using hfork _ child (ih x hx) hg
      · have hlt := lt_of_le_of_ne (Nat.le_of_lt_succ hy) hyn
        simpa [hyn] using ih y hlt

/-- A process is never touched by the steps and forks of the others. -/
theorem World.process_run {x : ℕ} (h : Run (M.worldStep inherit) (Locally G F) w w')
    (hx : x < w.next) : x < w'.next ∧ Run M.step G (w.process x) (w'.process x) := by
  induction h with
  | refl => exact ⟨hx,.refl⟩
  | tail a _ hg hs ih =>
    obtain ⟨hx',hrun⟩ := ih
    cases a with
    | within y a =>
      obtain ⟨-,s,hin,rfl⟩ := Machine.worldStep_within hs
      refine ⟨hx',?_⟩
      by_cases hxy : x = y
      · subst hxy
        simpa using hrun.tail a hg hin
      · simpa [hxy] using hrun
    | fork y child =>
      obtain ⟨-,rfl⟩ := Machine.worldStep_fork hs
      refine ⟨hx'.trans (Nat.lt_succ_self _),?_⟩
      simpa [hx'.ne] using hrun

end World
end Interleaving
