import FlaskXxlJob.Interleaving.Machine

/-!
What a system still owes. An obligation is an instruction that some stack holds: it lasts until
its own step. A layering says which instructions may wait below which, so that a blocked one
never keeps an obligation from its turn.
-/
namespace Interleaving

variable {σ ι χ κ ε : Type*}

namespace Sys

/-- Some stack holds an instruction that meets `P`. -/
def Somewhere (P : ι → Prop) (s : Sys σ ι ε) : Prop := ∃ t, ∃ i ∈ s.code t, P i

namespace Somewhere
variable {P P' : ι → Prop} {s : Sys σ ι ε} {t : ℕ} {i j : ι} {rest body : List ι}
  {e : Effect σ ι ε}

theorem mono (h : s.Somewhere P) (hm : ∀ i, P i → P' i) : s.Somewhere P' := by
  obtain ⟨t,i,hi,hP⟩ := h
  exact ⟨t,i,hi,hm i hP⟩

/-- An obligation outlasts the step of any other instruction. -/
theorem advance (h : s.Somewhere P) (hs : s.Named) (hc : s.code t = i :: rest) (hi : ¬ P i) :
    (s.advance t (e.push ++ rest) e).Somewhere P := by
  obtain ⟨t',j,hj,hP⟩ := h
  refine ⟨t',j,mem_advance hs hc hj fun ht => ?_,hP⟩
  subst ht
  rw [hc] at hj
  rcases List.mem_cons.mp hj with rfl | hj
  · exact absurd hP hi
  · exact hj

theorem pushed (ht : t < s.next) (hj : j ∈ e.push) (hP : P j) :
    (s.advance t (e.push ++ rest) e).Somewhere P := by
  refine ⟨t,j,?_,hP⟩
  rw [advance_code_self ht]
  exact List.mem_append_left _ hj

theorem below (ht : t < s.next) (hj : j ∈ rest) (hP : P j) :
    (s.advance t (e.push ++ rest) e).Somewhere P := by
  refine ⟨t,j,?_,hP⟩
  rw [advance_code_self ht]
  exact List.mem_append_right _ hj

theorem start {M : Machine σ ι χ κ ε} (h : s.Somewhere P) (hs : s.Named) (c : κ) :
    (M.start s c).Somewhere P := by
  obtain ⟨t,i,hi,hP⟩ := h
  exact ⟨t,i,Machine.mem_start hs hi,hP⟩

end Somewhere

/-- Whatever waits on a stack may wait below all that is above it. -/
def Layered (above : ι → ι → Prop) (s : Sys σ ι ε) : Prop := ∀ t, (s.code t).Pairwise above

namespace Layered
variable {above : ι → ι → Prop} {s : Sys σ ι ε} {t : ℕ} {i : ι} {rest : List ι} {e : Effect σ ι ε}

/-- What an instruction pushes takes its place above the rest. -/
theorem advance (h : s.Layered above) (ht : t < s.next) (hc : s.code t = i :: rest)
    (hpush : e.push.Pairwise above) (hplace : ∀ j ∈ e.push, ∀ b, above i b → above j b)
    (hspawn : ∀ body, e.spawn = some body → body.Pairwise above) :
    (s.advance t (e.push ++ rest) e).Layered above := by
  intro t'
  rcases @advance_code_cases _ _ _ s t (e.push ++ rest) e ht t' with
    ⟨-,he⟩ | ⟨-,body,hb,he⟩ | ⟨-,he⟩ <;> rw [he]
  · have hstack := h t
    rw [hc,List.pairwise_cons] at hstack
    exact List.pairwise_append.mpr ⟨hpush,hstack.2,fun j hj b hb =>
      hplace j hj b (hstack.1 b hb)⟩
  · exact hspawn body hb
  · exact h t'

theorem start {M : Machine σ ι χ κ ε} (h : s.Layered above) (c : κ)
    (hentry : (M.entry c).Pairwise above) : (M.start s c).Layered above := by
  intro t
  by_cases ht : t = s.next
  · simpa [Machine.start,ht] using hentry
  · simpa [Machine.start,ht] using h t

theorem below (h : s.Layered above) (hc : s.code t = i :: rest) {j : ι} (hj : j ∈ rest) :
    above i j := by
  have hstack := h t
  rw [hc,List.pairwise_cons] at hstack
  exact hstack.1 j hj

end Layered
end Sys
end Interleaving
