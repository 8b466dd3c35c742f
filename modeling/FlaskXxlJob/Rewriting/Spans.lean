import Mathlib.Data.List.Infix
import Mathlib.Data.Nat.Notation

/-!
Rewriting disjoint spans of a sequence. A marker that begins and ends with a separator cannot
help to form a word without separators, so rewriting with such markers never creates one.
-/
namespace Rewriting

variable {α : Type*}

/-- Some disjoint spans `s` of the first sequence replaced by an `r` with `R s r`. -/
inductive Spans (R : List α → List α → Prop) : List α → List α → Prop
  | kept (k : List α) : Spans R k k
  | span {k s r rest rest' : List α} : R s r → Spans R rest rest' →
      Spans R (k ++ s ++ rest) (k ++ r ++ rest')

variable {word k x y l : List α} {a b : α}

/-! ### Words and separators -/

/-- A word without `a` that starts before it ends before it. -/
theorem prefix_append_cons (ha : a ∉ word) (h : word <+: x ++ a :: y) : word <+: x := by
  rcases List.prefix_or_prefix_of_prefix h (List.prefix_append x (a :: y)) with hw | hx
  · exact hw
  · obtain ⟨t,rfl⟩ := hx
    have ht : t <+: a :: y := (List.prefix_append_right_inj x).mp h
    cases t with
    | nil => simp
    | cons c t =>
      obtain ⟨rfl,-⟩ := List.cons_prefix_cons.mp ht
      exact absurd (by simp) ha

/-- A word without `a` lies on one side of it. -/
theorem infix_append_cons (ha : a ∉ word) (h : word <:+: x ++ a :: y) :
    word <:+: x ∨ word <:+: y := by
  induction x with
  | nil =>
    rcases List.infix_cons_iff.mp h with hp | hi
    · have hnil := prefix_append_cons (x := []) ha hp
      exact Or.inl hnil.isInfix
    · exact Or.inr hi
  | cons c x ih =>
    rcases List.infix_cons_iff.mp h with hp | hi
    · exact Or.inl (prefix_append_cons (x := c :: x) ha hp).isInfix
    · exact (ih hi).imp_left fun hx => hx.trans (List.suffix_cons c x).isInfix

/-- A marker between separators, after a piece `p` of what it replaces. -/
structure Marker (word s r : List α) : Prop where
  shape : ∃ p a m b, r = p ++ a :: (m ++ [b]) ∧ p <+: s ∧ a ∉ word ∧ b ∉ word ∧ ¬ word <:+: m

/-- A word is not formed at the seams of a rewriting. -/
theorem Spans.free {R : List α → List α → Prop} {l' : List α} (h : Spans R l l')
    (hmarker : ∀ s r, R s r → Marker word s r) (hl : ¬ word <:+: l) : ¬ word <:+: l' := by
  induction h with
  | kept k => exact hl
  | @span k s r rest rest' hr _ ih =>
    obtain ⟨p,a,m,b,rfl,hp,ha,hb,hm⟩ := (hmarker s r hr).shape
    have hrest : ¬ word <:+: rest := fun hw => hl (hw.trans (List.suffix_append _ _).isInfix)
    intro hw
    have heq : k ++ (p ++ a :: (m ++ [b])) ++ rest' = (k ++ p) ++ a :: (m ++ b :: rest') := by
      simp
    rw [heq] at hw
    rcases infix_append_cons ha hw with hkp | htail
    · have hpre : k ++ p <+: k ++ s ++ rest :=
        ((List.prefix_append_right_inj k).mpr hp).trans (List.prefix_append _ _)
      exact hl (hkp.trans hpre.isInfix)
    · rcases infix_append_cons hb htail with hm' | hrest'
      · exact hm hm'
      · exact ih hrest hrest'

/-! ### Replacing a word -/

/-- The pieces around the replaced occurrences have no occurrence left. -/
inductive Replaced (word marker : List α) : List α → List α → Prop
  | kept {k : List α} : ¬ word <:+: k → Replaced word marker k k
  | found {k rest rest' : List α} : ¬ word <:+: k → Replaced word marker rest rest' →
      Replaced word marker (k ++ word ++ rest) (k ++ marker ++ rest')

/-- An element in front of a scanned text joins the first piece. -/
theorem Replaced.cons {marker l' : List α} {c : α} (h : Replaced word marker l l')
    (hc : ¬ word <+: c :: l) : Replaced word marker (c :: l) (c :: l') := by
  cases h with
  | kept hk =>
    apply Replaced.kept
    intro hw
    exact (List.infix_cons_iff.mp hw).elim hc hk
  | @found k rest rest' hk hrest =>
    have hck : ¬ word <:+: c :: k := by
      intro hw
      rcases List.infix_cons_iff.mp hw with hp | hi
      · have hl : c :: k <+: c :: (k ++ word ++ rest) := ⟨word ++ rest,by simp⟩
        exact hc (hp.trans hl)
      · exact hk hi
    exact Replaced.found hck hrest

/-- Nothing of the word is left, not even across the seams of its markers. -/
theorem Replaced.free {marker l' : List α} (h : Replaced word marker l l')
    (hmarker : Marker word [] marker) : ¬ word <:+: l' := by
  obtain ⟨p,a,m,b,rfl,hp,ha,hb,hm⟩ := hmarker.shape
  obtain rfl := List.prefix_nil.mp hp
  induction h with
  | kept hk => exact hk
  | @found k rest rest' hk _ ih =>
    intro hw
    have heq : k ++ ([] ++ a :: (m ++ [b])) ++ rest' = k ++ a :: (m ++ b :: rest') := by simp
    rw [heq] at hw
    rcases infix_append_cons ha hw with hkw | htail
    · exact hk hkw
    · exact (infix_append_cons hb htail).elim hm ih

variable [DecidableEq α]

/-- Replaces `word` from left to right; the first argument counts elements still to skip. -/
def replaceFrom (word marker : List α) : ℕ → List α → List α
  | _,[] => []
  | skip + 1,_ :: l => replaceFrom word marker skip l
  | 0,c :: l =>
    if word <+: c :: l then marker ++ replaceFrom word marker (word.length - 1) l
    else c :: replaceFrom word marker 0 l

def replaceAll (word marker l : List α) : List α := replaceFrom word marker 0 l

theorem replaceFrom_skip (word marker : List α) (n : ℕ) (l : List α) :
    replaceFrom word marker n l = replaceFrom word marker 0 (l.drop n) := by
  induction n generalizing l with
  | zero => rfl
  | succ n ih =>
    cases l with
    | nil => simp [replaceFrom]
    | cons c l =>
      rw [replaceFrom, ih, List.drop_succ_cons]

theorem replaceAll_append (hword : word ≠ []) (marker rest : List α) :
    replaceAll word marker (word ++ rest) = marker ++ replaceAll word marker rest := by
  cases word with
  | nil => exact absurd rfl hword
  | cons w word =>
    have hp : w :: word <+: w :: (word ++ rest) := ⟨rest,rfl⟩
    have hdrop : (word ++ rest).drop word.length = rest := List.drop_left
    simp only [replaceAll,List.cons_append]
    rw [replaceFrom,if_pos hp,replaceFrom_skip,List.length_cons,Nat.add_sub_cancel,hdrop]

theorem replaceAll_cons {c : α} (marker : List α) (h : ¬ word <+: c :: l) :
    replaceAll word marker (c :: l) = c :: replaceAll word marker l := by
  rw [replaceAll,replaceFrom,if_neg h,replaceAll]

theorem replaceAll_replaced (hword : word ≠ []) (marker l : List α) :
    Replaced word marker l (replaceAll word marker l) := by
  induction hn : l.length using Nat.strong_induction_on generalizing l with
  | _ n ih =>
    cases l with
    | nil => exact .kept (by simpa using hword)
    | cons c l =>
      by_cases hp : word <+: c :: l
      · obtain ⟨rest,hrest⟩ := hp
        have hlen : rest.length < n := by
          have hpos := List.length_pos_of_ne_nil hword
          have := congrArg List.length hrest
          simp only [List.length_append,List.length_cons] at this hn
          omega
        have htail := ih rest.length hlen rest rfl
        rw [← hrest,replaceAll_append hword]
        exact Replaced.found (k := []) (by simpa using hword) htail
      · have hlen : l.length < n := by
          simp only [List.length_cons] at hn
          omega
        rw [replaceAll_cons marker hp]
        exact (ih l.length hlen l rfl).cons hp

theorem replaceAll_free {marker : List α} (hword : word ≠ [])
    (hmarker : Marker word [] marker) (l : List α) :
    ¬ word <:+: replaceAll word marker l :=
  (replaceAll_replaced hword marker l).free hmarker

end Rewriting
