import Mathlib.Data.List.Infix

/-!
Sequences of segments between separators. Doubled separators, and separators at the ends, are
where a sequence has an empty segment.
-/
namespace Delimited

variable {α : Type*} {a : α} {x y s : List α} {segments : List (List α)}

/-! ### Doubled separators -/

theorem doubled_cons (h : x.head? ≠ some a) (hx : [a,a] <:+: a :: x) : [a,a] <:+: x := by
  rcases List.infix_cons_iff.mp hx with hp | hi
  · obtain ⟨rest,hrest⟩ := hp
    simp only [List.cons_append,List.nil_append,List.cons.injEq,true_and] at hrest
    exact absurd (by simp [← hrest]) h
  · exact hi

theorem doubled_concat (h : x.getLast? ≠ some a) (hx : [a,a] <:+: x ++ [a]) : [a,a] <:+: x := by
  have hrev : [a,a] <:+: a :: x.reverse := by
    have := List.reverse_infix.mpr hx
    simpa using this
  have hhead : x.reverse.head? ≠ some a := by simpa using h
  have := List.reverse_infix.mpr (doubled_cons hhead hrev)
  simpa using this

theorem doubled_append (ha : a ∉ s) (hx : [a,a] <:+: s ++ y) : [a,a] <:+: y := by
  induction s with
  | nil => exact hx
  | cons b s ih =>
    rcases List.infix_cons_iff.mp hx with hp | hi
    · obtain ⟨rfl,-⟩ := List.cons_prefix_cons.mp hp
      exact absurd List.mem_cons_self ha
    · exact ih (fun hs => ha (List.mem_cons_of_mem b hs)) hi

theorem doubled_segment (hs : s ≠ []) (ha : a ∉ s) (hx : [a,a] <:+: a :: (s ++ y)) :
    [a,a] <:+: y := by
  have hhead : (s ++ y).head? ≠ some a := by
    cases s with
    | nil => exact absurd rfl hs
    | cons b s =>
      rintro ⟨⟩
      exact ha List.mem_cons_self
  exact doubled_append ha (doubled_cons hhead hx)

/-! ### Segments -/

/-- Segments that a text between separators is made of. -/
structure Segmented (a : α) (segments : List (List α)) : Prop where
  nonempty : segments ≠ []
  segment : ∀ s ∈ segments, a ∉ s

theorem Segmented.tail {t : List α} (h : Segmented a (s :: t :: segments)) :
    Segmented a (t :: segments) :=
  ⟨List.cons_ne_nil t segments,fun x hx => h.segment x (List.mem_cons_of_mem s hx)⟩

theorem segmented_splitOn [DecidableEq α] (a : α) (x : List α) : Segmented a (x.splitOn a) where
  nonempty := List.splitOn_ne_nil a x
  segment := by
    induction x with
    | nil => simp
    | cons b x ih =>
      rw [List.splitOn_cons_eq_if_modifyHead]
      split
      next => simpa using ih
      next hb =>
        obtain ⟨s,segments,hs⟩ := List.exists_cons_of_ne_nil (List.splitOn_ne_nil a x)
        rw [hs] at ih ⊢
        rw [List.forall_mem_cons] at ih
        rw [List.modifyHead_cons,List.forall_mem_cons,List.mem_cons,not_or]
        exact ⟨⟨fun h => hb (by simp [h]),ih.1⟩,ih.2⟩

/-- An element of a text stands in a segment, or separates two. -/
theorem mem_intercalate {b : α} (h : b ∈ [a].intercalate segments) :
    b = a ∨ ∃ s ∈ segments, b ∈ s := by
  induction segments with
  | nil => simp at h
  | cons s segments ih =>
    cases segments with
    | nil => exact Or.inr ⟨s,List.mem_cons_self,by simpa using h⟩
    | cons t segments =>
      rw [List.intercalate_cons_cons,List.append_assoc,List.mem_append] at h
      rcases h with hs | hrest
      · exact Or.inr ⟨s,List.mem_cons_self,hs⟩
      · rcases List.mem_cons.mp hrest with ha | htail
        · exact Or.inl ha
        · rcases ih htail with ha | ⟨u,hu,hb⟩
          · exact Or.inl ha
          · exact Or.inr ⟨u,List.mem_cons_of_mem s hu,hb⟩

theorem mem_intercalate_of_mem {b : α} (hs : s ∈ segments) (hb : b ∈ s) :
    b ∈ [a].intercalate segments := by
  induction segments with
  | nil => simp at hs
  | cons t segments ih =>
    cases segments with
    | nil =>
      obtain rfl := List.mem_singleton.mp hs
      simpa using hb
    | cons u segments =>
      rw [List.intercalate_cons_cons,List.append_assoc,List.mem_append]
      rcases List.mem_cons.mp hs with rfl | hs
      · exact Or.inl hb
      · exact Or.inr (List.mem_cons_of_mem a (ih hs))

/-- Between two more separators, a text doubles a separator just at its empty segments. -/
theorem Segmented.doubled_iff (h : Segmented a segments) :
    [a,a] <:+: a :: ([a].intercalate segments ++ [a]) ↔ [] ∈ segments := by
  induction segments with
  | nil => exact absurd rfl h.nonempty
  | cons s segments ih =>
    have ha := h.segment s List.mem_cons_self
    cases segments with
    | nil =>
      rw [List.intercalate_singleton,List.mem_singleton]
      constructor
      · intro hx
        by_contra hs
        have := (doubled_segment (Ne.symm hs) ha hx).length_le
        simp at this
      · rintro rfl
        exact List.infix_rfl
    | cons t segments =>
      have ih := ih h.tail
      rw [List.intercalate_cons_cons,List.append_assoc,List.append_assoc,List.mem_cons,← ih]
      constructor
      · intro hx
        by_cases hs : s = []
        · exact Or.inl hs.symm
        · exact Or.inr (doubled_segment hs ha hx)
      · rintro (rfl | hx)
        · exact ⟨[],_,rfl⟩
        · exact hx.trans (List.suffix_append (a :: s) _).isInfix

/-- Segments none of which is empty. -/
structure Proper (a : α) (segments : List (List α)) : Prop extends Segmented a segments where
  full : [] ∉ segments

namespace Proper

variable (h : Proper a segments)
include h

theorem not_doubled : ¬ [a,a] <:+: a :: ([a].intercalate segments ++ [a]) :=
  h.toSegmented.doubled_iff.not.mpr h.full

theorem join_ne_nil : [a].intercalate segments ≠ [] := by
  intro hx
  have := h.not_doubled
  rw [hx] at this
  exact this List.infix_rfl

theorem head_ne : ([a].intercalate segments).head? ≠ some a := by
  intro hx
  obtain ⟨y,hy⟩ := List.head?_eq_some_iff.mp hx
  apply h.not_doubled
  rw [hy]
  exact ⟨[],y ++ [a],rfl⟩

theorem last_ne : ([a].intercalate segments).getLast? ≠ some a := by
  intro hx
  obtain ⟨y,hy⟩ := List.getLast?_eq_some_iff.mp hx
  apply h.not_doubled
  rw [hy]
  exact ⟨a :: y,[],by simp⟩

end Proper

end Delimited
