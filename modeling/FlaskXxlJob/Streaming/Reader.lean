import Mathlib.Data.List.Basic
import Mathlib.Data.Nat.Notation

/-!
A stream hands out a sequence in pieces of its own choosing. A bounded read takes pieces until
its budget is spent or the stream has ended, so what it gets depends only on the sequence.
-/
namespace Streaming

variable {α σ : Type*}

/-- `read s n` answers with at most `n` elements of what is `left`, none only at the end. -/
structure Reader (α σ : Type*) where
  read : σ → ℕ → List α × σ
  left : σ → List α
  exact : ∀ s n, (read s n).1 ++ left (read s n).2 = left s
  bounded : ∀ s n, (read s n).1.length ≤ n
  lively : ∀ s n, 0 < n → (read s n).1 = [] → left s = []

/-- A stream over `l` that cuts its pieces at the lengths it is given. -/
def Reader.cutting (α : Type*) : Reader α (List ℕ × List α) where
  read s n := match s with
    | ([],l) => (l.take n,[],l.drop n)
    | (c :: cs,l) => (l.take (min n (c + 1)),cs,l.drop (min n (c + 1)))
  left s := s.2
  exact s n := by rcases s with ⟨_ | ⟨c,cs⟩,l⟩ <;> simp
  bounded s n := by
    rcases s with ⟨_ | ⟨c,cs⟩,l⟩
    · exact List.length_take_le n l
    · exact Nat.le_trans (List.length_take_le _ l) (Nat.min_le_left n (c + 1))
  lively s n hn h := by
    rcases s with ⟨_ | ⟨c,cs⟩,l⟩
    · exact (List.take_eq_nil_iff.mp h).resolve_left (by omega)
    · exact (List.take_eq_nil_iff.mp h).resolve_left (by omega)

/-- The sizes asked for, the pieces received and the stream afterwards. -/
structure Reading (α σ : Type*) where
  asked : List ℕ
  chunks : List (List α)
  stream : σ

namespace Reading

def nothing (s : σ) : Reading α σ := ⟨[],[],s⟩

def bytes (r : Reading α σ) : List α := r.chunks.flatten

/-- No request exceeds what the earlier pieces have left of the budget. -/
def WithinBudget (r : Reading α σ) (budget : ℕ) : Prop :=
  ∀ i n, r.asked[i]? = some n → 0 < n ∧ n + (r.chunks.take i).flatten.length ≤ budget

theorem nothing_withinBudget (s : σ) (budget : ℕ) :
    (nothing s : Reading α σ).WithinBudget budget := by
  intro i n h
  simp [nothing] at h

/-- One more request in front, answered by `c`. -/
theorem WithinBudget.cons {asked : List ℕ} {chunks : List (List α)} {s : σ} {c : List α}
    {budget : ℕ} (hb : 0 < budget) (hc : c.length ≤ budget)
    (h : WithinBudget ⟨asked,chunks,s⟩ (budget - c.length)) :
    WithinBudget ⟨budget :: asked,c :: chunks,s⟩ budget := by
  intro i n hi
  cases i with
  | zero =>
    obtain rfl : budget = n := by simpa using hi
    exact ⟨hb,by simp⟩
  | succ i =>
    obtain ⟨hn,hle⟩ := h i n (by simpa using hi)
    refine ⟨hn,?_⟩
    have hle' : n + (chunks.take i).flatten.length ≤ budget - c.length := hle
    simp only [List.take_succ_cons, List.flatten_cons, List.length_append]
    omega

end Reading

/-- Reads until the budget is spent or a piece is empty. -/
def Reader.readUpTo (R : Reader α σ) (s : σ) (remaining : ℕ) : Reading α σ :=
  if remaining = 0 then .nothing s
  else
    match R.read s remaining with
    | ([],s') => ⟨[remaining],[],s'⟩
    | (a :: chunk,s') =>
      let rest := R.readUpTo s' (remaining - (a :: chunk).length)
      ⟨remaining :: rest.asked,(a :: chunk) :: rest.chunks,rest.stream⟩
termination_by remaining
decreasing_by simp only [List.length_cons]; omega

variable (R : Reader α σ) (s : σ) (remaining : ℕ)

/-- What is read is the longest prefix within the budget, and nothing else is consumed. -/
theorem Reader.readUpTo_exact :
    (R.readUpTo s remaining).bytes = (R.left s).take remaining ∧
    R.left (R.readUpTo s remaining).stream = (R.left s).drop remaining := by
  fun_induction Reader.readUpTo R s remaining with
  | case1 s => simp [Reading.nothing, Reading.bytes]
  | case2 s n hn s' hread =>
    have hend := R.lively s n (by omega) (by rw [hread])
    have hleft := R.exact s n
    rw [hread, hend] at hleft
    simpa [Reading.bytes, hend] using hleft
  | case3 s n hn a chunk s' hread rest ih =>
    have hleft := R.exact s n
    have hlen := R.bounded s n
    rw [hread] at hleft hlen
    simp only at hleft hlen
    obtain ⟨hbytes,hstream⟩ := ih
    rw [← hleft, List.take_append, List.drop_append, List.take_of_length_le hlen,
      List.drop_of_length_le hlen, List.nil_append]
    exact ⟨by rw [← hbytes]; rfl,hstream⟩

/-- Every piece but the last is paid for by an element, so the reads are within the budget. -/
theorem Reader.readUpTo_reads : (R.readUpTo s remaining).asked.length ≤ remaining := by
  fun_induction Reader.readUpTo R s remaining with
  | case1 s => simp [Reading.nothing]
  | case2 s n hn s' hread =>
    simp only [List.length_singleton]
    omega
  | case3 s n hn a chunk s' hread rest ih =>
    have hrest : rest.asked.length ≤ n - (chunk.length + 1) := ih
    simp only [List.length_cons]
    omega

theorem Reader.readUpTo_withinBudget : (R.readUpTo s remaining).WithinBudget remaining := by
  fun_induction Reader.readUpTo R s remaining with
  | case1 s => exact Reading.nothing_withinBudget s 0
  | case2 s n hn s' hread =>
    intro i m hi
    obtain ⟨rfl,rfl⟩ : i = 0 ∧ n = m := by cases i <;> simp_all
    exact ⟨by omega,by simp⟩
  | case3 s n hn a chunk s' hread rest ih =>
    have hlen := R.bounded s n
    rw [hread] at hlen
    exact ih.cons (by omega) hlen

end Streaming
