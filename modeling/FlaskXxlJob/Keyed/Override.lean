import Mathlib.Data.List.Nodup
import Mathlib.Data.List.Perm.Basic

/-!
A partial map overridden by a list of entries. With distinct keys the order of the entries does
not matter, and overriding is the same as writing them one after the other.
-/
namespace Keyed

variable {κ φ : Type*} {m m' : κ → Option φ} {l l' : List (κ × φ)} {k : κ} {v : φ}

/-- `m'` is `m` with the entries of `l` in place of whatever `m` has at their keys. -/
def Overrides (l : List (κ × φ)) (m m' : κ → Option φ) : Prop :=
  ∀ k v, m' k = some v ↔ (k,v) ∈ l ∨ (k ∉ l.map Prod.fst ∧ m k = some v)

namespace Overrides

theorem nil_iff : Overrides [] m m' ↔ m' = m := by
  constructor
  · intro h
    funext k
    exact Option.ext fun v => by simpa using h k v
  · rintro rfl k v
    simp

theorem unique {m'' : κ → Option φ} (h : Overrides l m m') (h' : Overrides l m m'') :
    m' = m'' := by
  funext k
  exact Option.ext fun v => (h k v).trans (h' k v).symm

theorem perm (h : Overrides l m m') (hp : l'.Perm l) : Overrides l' m m' := by
  intro k v
  rw [h k v, hp.mem_iff, (hp.map Prod.fst).mem_iff]

theorem keeps (h : Overrides l m m') (hk : k ∉ l.map Prod.fst) : m' k = m k :=
  Option.ext fun v => by
    rw [h k v]
    have hmem : (k,v) ∉ l := fun hw => hk (List.mem_map_of_mem hw)
    simp [hmem, hk]

/-- One entry and then others at other keys. -/
theorem cons {e : κ × φ} {m'' : κ → Option φ} (hk : e.1 ∉ l.map Prod.fst)
    (h : Overrides [e] m m') (h' : Overrides l m' m'') : Overrides (e :: l) m m'' := by
  intro k v
  by_cases hkk : k = e.1
  · subst hkk
    have hmem : (e.1,v) ∉ l := fun hw => hk (List.mem_map.mpr ⟨_,hw,rfl⟩)
    rw [h' e.1 v, h e.1 v]
    simp [hmem, hk]
  · have hne : (k,v) ≠ e := fun he => hkk (congrArg Prod.fst he)
    rw [h' k v, h.keeps (by simpa using hkk)]
    simp [hne, hkk]

end Overrides

/-- `m'` has every entry of `m`. -/
def Extends (m m' : κ → Option φ) : Prop := ∀ k v, m k = some v → m' k = some v

theorem Extends.refl (m : κ → Option φ) : Extends m m := fun _ _ h => h

theorem Extends.trans {m'' : κ → Option φ} (h : Extends m m') (h' : Extends m' m'') :
    Extends m m'' := fun k v hk => h' k v (h k v hk)

/-- Overriding free keys only loses nothing. -/
theorem Overrides.extends (h : Overrides l m m') (hfree : ∀ e ∈ l, m e.1 = none) :
    Extends m m' := by
  intro k v hk
  by_cases hmem : k ∈ l.map Prod.fst
  · obtain ⟨e,he,rfl⟩ := List.mem_map.mp hmem
    rw [hfree e he] at hk
    cases hk
  · exact (h.keeps hmem).trans hk

/-- `m` where it is defined and `d` elsewhere. -/
def fallback (m d : κ → Option φ) : κ → Option φ := fun k => m k <|> d k

theorem fallback_extends (m d : κ → Option φ) : Extends m (fallback m d) := by
  intro k v h
  simp [fallback, h]

theorem fallback_idem (m d : κ → Option φ) : fallback (fallback m d) d = fallback m d := by
  funext k
  cases h : m k <;> cases h' : d k <;> simp [fallback, h, h']

end Keyed
