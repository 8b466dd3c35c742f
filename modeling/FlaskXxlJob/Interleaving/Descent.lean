import FlaskXxlJob.Interleaving.Accounting

/-!
Runs that come to an end. Every step pays for the instructions it pushes and starts, or it pays
nothing and lowers the rank of the instruction on top of its thread's stack.
-/
namespace Interleaving
open scoped BigOperators

variable {σ ι ε : Type*}

/-- The rank of a stack is the rank of its top. -/
def top (r : ι → ℕ) : List ι → ℕ
  | [] => 0
  | i :: _ => r i

def ranks (r : ι → ℕ) (s : Sys σ ι ε) : ℕ := ∑ t ∈ Finset.range s.next, top r (s.code t)

/-- A thread that goes on with a lower top lowers the sum of the ranks. -/
theorem ranks_advance {r : ι → ℕ} {s : Sys σ ι ε} {t : ℕ} {i : ι} {rest : List ι}
    {e : Effect σ ι ε} (hs : s.Named) (hc : s.code t = i :: rest) (he : e.spawn = none)
    (hr : top r (e.push ++ rest) < r i) :
    ranks r (s.advance t (e.push ++ rest) e) < ranks r s := by
  have ht : t < s.next := hs.lt (by simp [hc])
  have hnext : (s.advance t (e.push ++ rest) e).next = s.next := by simp [Sys.advance,he]
  unfold ranks
  rw [hnext]
  apply Finset.sum_lt_sum
  · intro x hx
    by_cases hxt : x = t
    · subst hxt
      rw [Sys.advance_code_self ht,hc]
      exact hr.le
    · rw [Sys.advance_code_other hxt (Or.inr he)]
  · refine ⟨t,Finset.mem_range.mpr ht,?_⟩
    rw [Sys.advance_code_self ht,hc]
    exact hr

section Descent
variable {S A : Type*} {step : S → A → Option S} {guard : S → A → Prop}

/-- `s'` is one guarded step after `s`. -/
def Follows (step : S → A → Option S) (guard : S → A → Prop) (s' s : S) : Prop :=
  ∃ a, guard s a ∧ step s a = some s'

/-- Guarded steps that lower `price`, or keep it and lower `rank`, cannot go on forever. -/
theorem acc_follows {I : S → Prop} {price rank : S → ℕ}
    (hkeep : ∀ s a s', I s → guard s a → step s a = some s' → I s')
    (hlower : ∀ s a s', I s → guard s a → step s a = some s' →
      price s' < price s ∨ (price s' ≤ price s ∧ rank s' < rank s)) :
    ∀ s, I s → Acc (Follows step guard) s := by
  have hall : ∀ n m s, price s = n → rank s = m → I s → Acc (Follows step guard) s := by
    intro n
    induction n using Nat.strong_induction_on with
    | _ n ihPrice =>
      intro m
      induction m using Nat.strong_induction_on with
      | _ m ihRank =>
        intro s hn hm hI
        apply Acc.intro
        rintro s' ⟨a,hg,hs⟩
        have hI' : I s' := hkeep s a s' hI hg hs
        rcases hlower s a s' hI hg hs with hlt | ⟨hle,hlt⟩
        · exact ihPrice _ (hn ▸ hlt) _ s' rfl rfl hI'
        · rcases Nat.lt_or_ge (price s') n with hlt' | hge
          · exact ihPrice _ hlt' _ s' rfl rfl hI'
          · have heq : price s' = n := by omega
            exact ihRank _ (hm ▸ hlt) s' heq rfl hI'
  exact fun s hI => hall _ _ s rfl rfl hI

/-- An endless run takes an unguarded step. -/
theorem exists_unguarded {s : S} (h : Acc (Follows step guard) s) (run : ℕ → S) (a : ℕ → A)
    (h0 : run 0 = s) (hrun : ∀ n, step (run n) (a n) = some (run (n + 1))) :
    ∃ n, ¬ guard (run n) (a n) := by
  induction h generalizing run a with
  | intro s _ ih =>
    by_cases hg : guard (run 0) (a 0)
    · have hs : Follows step guard (run 1) s := ⟨a 0,h0 ▸ hg,h0 ▸ hrun 0⟩
      obtain ⟨n,hn⟩ := ih (run 1) hs (fun n => run (n + 1)) (fun n => a (n + 1)) rfl
        fun n => hrun (n + 1)
      exact ⟨n + 1,hn⟩
    · exact ⟨0,hg⟩

/-- The guarded steps lead to a state that has none. -/
theorem exists_final {s : S} (h : Acc (Follows step guard) s) :
    ∃ s', Run step guard s s' ∧ ∀ a s'', guard s' a → step s' a ≠ some s'' := by
  induction h with
  | intro s _ ih =>
    by_cases hnext : ∃ s', Follows step guard s' s
    · obtain ⟨s',hs'⟩ := hnext
      obtain ⟨last,hr,hlast⟩ := ih s' hs'
      obtain ⟨a,hg,hs⟩ := hs'
      exact ⟨last,(Run.refl.tail a hg hs).trans hr,hlast⟩
    · exact ⟨s,.refl,fun a s'' hg hs => hnext ⟨s'',a,hg,hs⟩⟩

end Descent
end Interleaving
