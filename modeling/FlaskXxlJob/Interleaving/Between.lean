import Mathlib.Data.List.Induction

/-!
What has to happen between two marks of a history. A mark seals the history until a reset
reopens it; a history separates its marks if no second mark is made while it is sealed.
-/
namespace Interleaving

variable {ε : Type*} {A B R : ε → Prop} {l es : List ε} {e : ε}

/-- The last `A` of the history has no `R` after it. -/
def Sealed (A R : ε → Prop) (l : List ε) : Prop :=
  ∃ l₁ a l₂, l = l₁ ++ a :: l₂ ∧ A a ∧ ∀ e ∈ l₂, ¬ R e

/-- Between every `A` and every later `B` there is an `R`. -/
def Separated (A B R : ε → Prop) (l : List ε) : Prop :=
  ∀ l₁ a l₂ b l₃, l = l₁ ++ a :: (l₂ ++ b :: l₃) → A a → B b → ∃ e ∈ l₂, R e

theorem not_sealed_nil : ¬ Sealed A R [] := by
  rintro ⟨l₁,a,l₂,h,-⟩
  simp at h

theorem sealed_concat : Sealed A R (l ++ [e]) ↔ A e ∨ (Sealed A R l ∧ ¬ R e) := by
  constructor
  · rintro ⟨l₁,a,l₂,h,ha,hr⟩
    rcases List.eq_nil_or_concat l₂ with rfl | ⟨l₂,b,rfl⟩
    · obtain ⟨-,rfl⟩ := List.concat_inj.mp (by simpa using h)
      exact Or.inl ha
    · have h' : l ++ [e] = (l₁ ++ a :: l₂) ++ [b] := by simpa using h
      obtain ⟨rfl,rfl⟩ := List.append_singleton_inj.mp h'
      exact Or.inr ⟨⟨l₁,a,l₂,rfl,ha,fun x hx => hr x (by simp [hx])⟩,hr e (by simp)⟩
  · rintro (ha | ⟨⟨l₁,a,l₂,rfl,ha,hr⟩,he⟩)
    · exact ⟨l,e,[],rfl,ha,by simp⟩
    · refine ⟨l₁,a,l₂ ++ [e],by simp,ha,fun x hx => ?_⟩
      rcases List.mem_append.mp hx with hx | hx
      · exact hr x hx
      · exact List.mem_singleton.mp hx ▸ he

/-- New events without an `A` do not seal. -/
theorem Sealed.of_append (h : Sealed A R (l ++ es)) (hno : ∀ e ∈ es, ¬ A e) :
    Sealed A R l ∧ ∀ e ∈ es, ¬ R e := by
  induction es using List.reverseRecOn with
  | nil => exact ⟨by simpa using h,by simp⟩
  | append_singleton es e ih =>
    rw [← List.append_assoc,sealed_concat] at h
    obtain ⟨h,hr⟩ := h.resolve_left (hno e (by simp))
    obtain ⟨hl,hrs⟩ := ih h fun x hx => hno x (by simp [hx])
    refine ⟨hl,fun x hx => ?_⟩
    rcases List.mem_append.mp hx with hx | hx
    · exact hrs x hx
    · exact List.mem_singleton.mp hx ▸ hr

theorem separated_nil : Separated A B R [] := by
  intro l₁ a l₂ b l₃ h
  simp at h

theorem separated_concat :
    Separated A B R (l ++ [e]) ↔ Separated A B R l ∧ (B e → ¬ Sealed A R l) := by
  constructor
  · refine fun h => ⟨fun l₁ a l₂ b l₃ hl ha hb => ?_,?_⟩
    · exact h l₁ a l₂ b (l₃ ++ [e]) (by simp [hl]) ha hb
    · rintro hb ⟨l₁,a,l₂,rfl,ha,hr⟩
      obtain ⟨x,hx,hrx⟩ := h l₁ a l₂ e [] (by simp) ha hb
      exact hr x hx hrx
  · rintro ⟨h,hb'⟩ l₁ a l₂ b l₃ hl ha hb
    rcases List.eq_nil_or_concat l₃ with rfl | ⟨l₃,c,rfl⟩
    · have hl' : l ++ [e] = (l₁ ++ a :: l₂) ++ [b] := by simpa using hl
      obtain ⟨rfl,rfl⟩ := List.append_singleton_inj.mp hl'
      by_contra hn
      push Not at hn
      exact hb' hb ⟨l₁,a,l₂,rfl,ha,hn⟩
    · have hl' : l ++ [e] = (l₁ ++ a :: (l₂ ++ b :: l₃)) ++ [c] := by simpa using hl
      obtain ⟨rfl,rfl⟩ := List.append_singleton_inj.mp hl'
      exact h l₁ a l₂ b l₃ rfl ha hb

/-- New events keep the separation if each `B` among them finds the history reopened. -/
theorem Separated.append (h : Separated A B R l)
    (hb : ∀ l₁ b l₂, es = l₁ ++ b :: l₂ → B b → ¬ Sealed A R (l ++ l₁)) :
    Separated A B R (l ++ es) := by
  induction es using List.reverseRecOn with
  | nil => simpa using h
  | append_singleton es e ih =>
    rw [← List.append_assoc,separated_concat]
    refine ⟨ih fun l₁ b l₂ he => hb l₁ b (l₂ ++ [e]) (by simp [he]),hb es e [] rfl⟩

theorem Separated.append_silent (h : Separated A B R l) (hb : ∀ e ∈ es, ¬ B e) :
    Separated A B R (l ++ es) :=
  h.append fun l₁ b l₂ he hB => absurd hB (hb b (by simp [he]))

/-- Without a reset a sealed history takes no further `B`. -/
theorem Separated.silent_of_sealed (h : Separated A B R (l ++ es)) (hs : Sealed A R l)
    (hr : ∀ e ∈ es, ¬ R e) : ∀ e ∈ es, ¬ B e := by
  intro e he hb
  obtain ⟨l₁,a,l₂,rfl,ha,hl⟩ := hs
  obtain ⟨m₁,m₂,rfl⟩ := List.append_of_mem he
  obtain ⟨x,hx,hrx⟩ := h l₁ a (l₂ ++ m₁) e m₂ (by simp) ha hb
  rcases List.mem_append.mp hx with hx | hx
  · exact hl x hx hrx
  · exact hr x (by simp [hx]) hrx

/-- Without a reset no `B` follows an `A`. -/
theorem Separated.pairwise (h : Separated A B R (l ++ es)) (hr : ∀ e ∈ es, ¬ R e) :
    es.Pairwise fun a b => A a → ¬ B b := by
  induction es using List.reverseRecOn with
  | nil => exact .nil
  | append_singleton es e ih =>
    rw [← List.append_assoc,separated_concat] at h
    refine List.pairwise_append.mpr ⟨ih h.1 fun x hx => hr x (by simp [hx]),
      List.pairwise_singleton _ _,fun a ha b hb hA hB => ?_⟩
    obtain rfl := List.mem_singleton.mp hb
    obtain ⟨m₁,m₂,rfl⟩ := List.append_of_mem ha
    exact h.2 hB ⟨l ++ m₁,a,m₂,by simp,hA,fun x hx => hr x (by simp [hx])⟩

/-- A list has one splitting at the only element that meets `p`. -/
theorem splitting_unique {p : ε → Prop} {l₁ l₂ m₁ m₂ : List ε} {b c : ε}
    (h : l₁ ++ b :: l₂ = m₁ ++ c :: m₂) (hb : p b) (h₁ : ∀ x ∈ m₁, ¬ p x)
    (h₂ : ∀ x ∈ m₂, ¬ p x) : l₁ = m₁ := by
  induction m₁ generalizing l₁ with
  | nil =>
    cases l₁ with
    | nil => rfl
    | cons a l₁ =>
      obtain ⟨-,h⟩ := List.cons_eq_cons.mp h
      exact absurd hb (h₂ b (by simp [← h]))
  | cons d m₁ ih =>
    cases l₁ with
    | nil =>
      obtain ⟨rfl,-⟩ := List.cons_eq_cons.mp h
      exact absurd hb (h₁ b (by simp))
    | cons a l₁ =>
      obtain ⟨rfl,htail⟩ := List.cons_eq_cons.mp h
      rw [ih htail fun x hx => h₁ x (by simp [hx])]

/-- A single new `B` has to find the history reopened. -/
theorem Separated.append_one {m₁ m₂ : List ε} {b : ε} (h : Separated A B R l)
    (h₁ : ∀ x ∈ m₁, ¬ B x) (h₂ : ∀ x ∈ m₂, ¬ B x) (hs : ¬ Sealed A R (l ++ m₁)) :
    Separated A B R (l ++ (m₁ ++ b :: m₂)) :=
  h.append fun _ _ _ he hb => by rwa [splitting_unique he.symm hb h₁ h₂]

end Interleaving
