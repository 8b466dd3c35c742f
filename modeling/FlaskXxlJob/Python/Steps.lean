import Mathlib.Data.List.Infix

/-! Steps that run in order until one of them raises. -/
namespace Python

variable {ι σ ε : Type} {run : ι → σ → Option ε × σ}

/-- The first exception and the state it leaves, or the state after the last step. -/
def runSteps (run : ι → σ → Option ε × σ) : List ι → σ → Option ε × σ
  | [], s => (none,s)
  | i :: steps, s =>
    match run i s with
    | (some e,s') => (some e,s')
    | (none,s') => runSteps run steps s'

theorem runSteps_append {done rest : List ι} {s s' : σ} (h : runSteps run done s = (none,s')) :
    runSteps run (done ++ rest) s = runSteps run rest s' := by
  induction done generalizing s with
  | nil =>
    cases h
    rfl
  | cons i done ih =>
    rw [List.cons_append,runSteps]
    rw [runSteps] at h
    split at h
    · cases h
    · exact ih h

/-- A sequence that raises has a step that raises after all steps before it have returned. -/
theorem runSteps_raised {steps : List ι} {s s' : σ} {e : ε}
    (h : runSteps run steps s = (some e,s')) : ∃ done i rest s₁, steps = done ++ i :: rest ∧
      runSteps run done s = (none,s₁) ∧ run i s₁ = (some e,s') := by
  induction steps generalizing s with
  | nil => cases h
  | cons i steps ih =>
    rw [runSteps] at h
    split at h
    next e' s₁ hi =>
      cases h
      exact ⟨[],i,steps,s,rfl,rfl,hi⟩
    next s₁ hi =>
      obtain ⟨done,j,rest,s₂,hsteps,hdone,hj⟩ := ih h
      exact ⟨i :: done,j,rest,s₂,by rw [hsteps,List.cons_append],by rw [runSteps,hi]; exact hdone,
        hj⟩

/-- What a state has to do with the steps that are still to run is kept if each step keeps it. -/
theorem runSteps_invariant {I : List ι → σ → Prop}
    (hstep : ∀ i rest s s', I (i :: rest) s → run i s = (none,s') → I rest s')
    {done rest : List ι} {s s' : σ} (h0 : I (done ++ rest) s)
    (h : runSteps run done s = (none,s')) : I rest s' := by
  induction done generalizing s with
  | nil =>
    cases h
    exact h0
  | cons i done ih =>
    rw [runSteps] at h
    split at h
    · cases h
    next s₁ hi => exact ih (hstep i (done ++ rest) s s₁ h0 hi) h

end Python
