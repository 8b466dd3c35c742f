import FlaskXxlJob.Interleaving.Machine
import Mathlib.Algebra.BigOperators.Group.Finset.Basic
import Mathlib.Algebra.GroupWithZero.Nat
import Mathlib.Algebra.Order.BigOperators.Group.Finset

/-!
Accounting over instruction stacks. A weight counts the instructions that stand for one unit
of a resource; a step changes its total by what it pushes and starts minus what it pops.
-/
namespace Interleaving
open scoped BigOperators

variable {σ ι χ κ ε : Type*}

/-- The weight of one stack of thread `t`. -/
def weigh (f : ℕ → ι → ℕ) (t : ℕ) (stack : List ι) : ℕ := (stack.map (f t)).sum

@[simp] theorem weigh_nil (f : ℕ → ι → ℕ) (t : ℕ) : weigh f t [] = 0 := rfl

@[simp] theorem weigh_cons (f : ℕ → ι → ℕ) (t : ℕ) (i : ι) (l : List ι) :
    weigh f t (i :: l) = f t i + weigh f t l := by simp [weigh]

@[simp] theorem weigh_append (f : ℕ → ι → ℕ) (t : ℕ) (l l' : List ι) :
    weigh f t (l ++ l') = weigh f t l + weigh f t l' := by simp [weigh]

theorem le_weigh {f : ℕ → ι → ℕ} {t : ℕ} {i : ι} {l : List ι} (h : i ∈ l) :
    f t i ≤ weigh f t l := List.le_sum_of_mem (List.mem_map_of_mem h)

theorem exists_of_weigh_pos {f : ℕ → ι → ℕ} {t : ℕ} {l : List ι} (h : 0 < weigh f t l) :
    ∃ i ∈ l, 0 < f t i := by
  by_contra hn
  push Not at hn
  have : weigh f t l = 0 := by
    apply List.sum_eq_zero
    intro x hx
    obtain ⟨i,hi,rfl⟩ := List.mem_map.mp hx
    exact Nat.le_zero.mp (hn i hi)
  omega

/-- The weight of all stacks. -/
def total (f : ℕ → ι → ℕ) (s : Sys σ ι ε) : ℕ := ∑ t ∈ Finset.range s.next, weigh f t (s.code t)

variable {f : ℕ → ι → ℕ} {s : Sys σ ι ε} {t : ℕ} {i : ι} {rest stack : List ι}

theorem weigh_le_total (hs : s.Named) (f : ℕ → ι → ℕ) (t : ℕ) :
    weigh f t (s.code t) ≤ total f s := by
  by_cases h : s.code t = []
  · simp [h]
  · exact Finset.single_le_sum (f := fun t => weigh f t (s.code t)) (fun _ _ => Nat.zero_le _)
      (Finset.mem_range.mpr (hs.lt h))

theorem le_total (hs : s.Named) (h : i ∈ s.code t) : f t i ≤ total f s :=
  (le_weigh h).trans (weigh_le_total hs f t)

theorem weigh_add_le_total (hs : s.Named) {t t' : ℕ} (hne : t' ≠ t) :
    weigh f t (s.code t) + weigh f t' (s.code t') ≤ total f s := by
  by_cases h : s.code t = []
  · simpa [h] using weigh_le_total hs f t'
  by_cases h' : s.code t' = []
  · simpa [h'] using weigh_le_total hs f t
  have hmem : t ∈ Finset.range s.next := Finset.mem_range.mpr (hs.lt h)
  have hmem' : t' ∈ (Finset.range s.next).erase t :=
    Finset.mem_erase.mpr ⟨hne,Finset.mem_range.mpr (hs.lt h')⟩
  have hsum : total f s = weigh f t (s.code t) +
      ∑ x ∈ (Finset.range s.next).erase t, weigh f x (s.code x) :=
    (Finset.add_sum_erase _ _ hmem).symm
  have hle : weigh f t' (s.code t') ≤
      ∑ x ∈ (Finset.range s.next).erase t, weigh f x (s.code x) :=
    Finset.single_le_sum (f := fun x => weigh f x (s.code x)) (fun _ _ => Nat.zero_le _) hmem'
  omega

/-- The instruction about to run and another one weigh no more than all together. -/
theorem add_le_total (hs : s.Named) (hc : s.code t = i :: rest) {t' : ℕ} {j : ι}
    (hj : j ∈ s.code t') (hr : t' = t → j ∈ rest) : f t i + f t' j ≤ total f s := by
  by_cases ht : t' = t
  · subst ht
    have hle := le_weigh (f := f) (t := t') (hr rfl)
    have := weigh_le_total hs f t'
    rw [hc,weigh_cons] at this
    omega
  · have hsum := weigh_add_le_total (f := f) hs ht
    have := le_weigh (f := f) (t := t') hj
    rw [hc,weigh_cons] at hsum
    omega

theorem exists_of_total_pos (h : 0 < total f s) : ∃ t, ∃ i ∈ s.code t, 0 < f t i := by
  obtain ⟨t,-,ht⟩ := Finset.exists_ne_zero_of_sum_ne_zero h.ne'
  obtain ⟨i,hi,hf⟩ := exists_of_weigh_pos (Nat.pos_of_ne_zero ht)
  exact ⟨t,i,hi,hf⟩

theorem total_eq_zero_of (h : ∀ t, ∀ i ∈ s.code t, f t i = 0) : total f s = 0 := by
  by_contra hn
  obtain ⟨t,i,hi,hf⟩ := exists_of_total_pos (Nat.pos_of_ne_zero hn)
  exact hf.ne' (h t i hi)

theorem total_advance (hs : s.Named) (hc : s.code t = i :: rest) (e : Effect σ ι ε) :
    total f (s.advance t (e.push ++ rest) e) + f t i =
      total f s + weigh f t e.push + weigh f s.next (e.spawn.getD []) := by
  have ht : t < s.next := hs.lt (by simp [hc])
  have hmem : t ∈ Finset.range s.next := Finset.mem_range.mpr ht
  have hold : total f s = weigh f t (s.code t) +
      ∑ x ∈ (Finset.range s.next).erase t, weigh f x (s.code x) :=
    (Finset.add_sum_erase _ _ hmem).symm
  have hrange : ∑ x ∈ Finset.range s.next, weigh f x ((s.advance t (e.push ++ rest) e).code x) =
      weigh f t (e.push ++ rest) +
        ∑ x ∈ (Finset.range s.next).erase t, weigh f x (s.code x) := by
    rw [← Finset.add_sum_erase _ _ hmem,Sys.advance_code_self ht]
    congr 1
    apply Finset.sum_congr rfl
    intro x hx
    obtain ⟨hne,hx⟩ := Finset.mem_erase.mp hx
    rw [Sys.advance_code_other hne (Or.inl (Finset.mem_range.mp hx).ne)]
  have hnew : total f (s.advance t (e.push ++ rest) e) =
      ∑ x ∈ Finset.range s.next, weigh f x ((s.advance t (e.push ++ rest) e).code x) +
        weigh f s.next (e.spawn.getD []) := by
    cases he : e.spawn with
    | none => simp [total,Sys.advance,he]
    | some body =>
      have hn : (s.advance t (e.push ++ rest) e).next = s.next + 1 := by simp [Sys.advance,he]
      rw [total,hn,Finset.sum_range_succ,Sys.advance_code_spawn he]
      rfl
  rw [hnew,hrange,hold,hc]
  simp only [weigh_append,weigh_cons]
  omega

theorem total_start (M : Machine σ ι χ κ ε) (c : κ) :
    total f (M.start s c) = total f s + weigh f s.next (M.entry c) := by
  unfold total Machine.start
  rw [Finset.sum_range_succ]
  simp only [Function.update_self]
  congr 1
  apply Finset.sum_congr rfl
  intro x hx
  rw [Function.update_of_ne (Finset.mem_range.mp hx).ne]

/-- The weight of one thread's stack moves only with that thread. -/
theorem weigh_advance (hs : s.Named) (hc : s.code t = i :: rest) (e : Effect σ ι ε) (x : ℕ) :
    weigh f x ((s.advance t (e.push ++ rest) e).code x) + (if x = t then f t i else 0) =
      weigh f x (s.code x) + (if x = t then weigh f t e.push else 0) +
        (if x = s.next then weigh f s.next (e.spawn.getD []) else 0) := by
  have ht : t < s.next := hs.lt (by simp [hc])
  rcases @Sys.advance_code_cases _ _ _ s t (e.push ++ rest) e ht x with
    ⟨rfl,h⟩ | ⟨rfl,body,hb,h⟩ | ⟨hne,h⟩
  · simp only [h,hc,weigh_append,weigh_cons,if_true,ht.ne,if_false]
    omega
  · simp only [h,hb,hs _ le_rfl,weigh_nil,ht.ne',if_false,if_true,Option.getD_some]
    omega
  · by_cases hx : x = s.next
    · subst hx
      rw [h,hs _ le_rfl]
      cases he : e.spawn with
      | none => simp [hne]
      | some body =>
        have hb := @Sys.advance_code_spawn _ _ _ s t (e.push ++ rest) e body he
        rw [h,hs _ le_rfl] at hb
        simp [hne,← hb]
    · simp [h,hne,hx]

/-- The weight that counts the instructions meeting `p`. -/
def tally (p : ι → Bool) : ℕ → ι → ℕ := fun _ i => if p i = true then 1 else 0

@[simp] theorem weigh_tally (p : ι → Bool) (t : ℕ) (l : List ι) :
    weigh (tally p) t l = l.countP p := by
  induction l with
  | nil => rfl
  | cons i l ih =>
    rw [weigh_cons,ih,List.countP_cons,add_comm]
    rfl

end Interleaving
