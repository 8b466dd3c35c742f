import FlaskXxlJob.Callback.Atomicity

/-!
Sequences of registrations. The members of a batch can be set one by one in any order, and
without `replace` nothing that is registered is ever lost.
-/
namespace FlaskXxlJob.Callback
open Python Keyed

variable {φ : Type} (callable : φ → Bool) (replace : Bool)

/-! ### Members one by one -/

/-- The `set_*` call for one member of a batch. -/
def setMember : Place × φ → Method φ Unit
  | (.run key,func) => setRun callable key func replace
  | (.single .idleBeat,func) => setIdleBeat callable (some func) replace
  | (.single .kill,func) => setKill callable (some func) replace
  | (.single .log,func) => setLog callable (some func) replace

/-- A batch of one. -/
def Batch.ofMember : Place × φ → Batch φ
  | (.run key,func) => { run := some (.mapping [(key,func)] (List.nodup_singleton key)) }
  | (.single .idleBeat,func) => { idleBeat := some func }
  | (.single .kill,func) => { kill := some func }
  | (.single .log,func) => { log := some func }

theorem Batch.ofMember_members (m : Place × φ) : (Batch.ofMember m).members = [m] := by
  obtain ⟨_ | slot,f⟩ := m
  · rfl
  · cases slot <;> rfl

theorem Batch.ofMember_run (m : Place × φ) : (Batch.ofMember m).run ≠ some .notMapping := by
  obtain ⟨_ | slot,f⟩ := m
  · simp [Batch.ofMember]
  · cases slot <;> simp [Batch.ofMember]

theorem setMember_eq (m : Place × φ) :
    setMember callable replace m = registerCallbacks callable (.ofMember m) replace := by
  obtain ⟨_ | slot,f⟩ := m
  · rfl
  · cases slot <;> rfl

variable {callable replace}

theorem setMember_accepted {s : Slots φ} {m : Place × φ} (hv : m.1.Valid)
    (ha : Accepted callable replace m.2 (s.at m.1)) :
    ∃ s', invoke (setMember callable replace m) s = (.ok (),s') ∧ Overrides [m] s.at s'.at := by
  have hok : ¬ Rejected callable s (.ofMember m) replace := by
    rw [not_rejected_iff, Batch.ofMember_members]
    refine ⟨Batch.ofMember_run m,fun m' hm' => ?_⟩
    obtain rfl := List.mem_singleton.mp hm'
    exact ⟨hv,ha⟩
  rcases registerCallbacks_spec callable replace (.ofMember m) s with ⟨hrej,-⟩ | ⟨-,s',hs',hov⟩
  · exact absurd hrej hok
  · rw [Batch.ofMember_members] at hov
    exact ⟨s',by rw [setMember_eq]; exact hs',hov⟩

/-- Accepted members at different places do not get in each other's way. -/
theorem setMembers_accepted {l : List (Place × φ)} (hnd : (l.map Prod.fst).Nodup) (s : Slots φ)
    (hall : ∀ m ∈ l, m.1.Valid ∧ Accepted callable replace m.2 (s.at m.1)) :
    ∃ s', invoke (l.forM (setMember callable replace)) s = (.ok (),s') ∧
      Overrides l s.at s'.at := by
  induction l generalizing s with
  | nil => exact ⟨s,rfl,Overrides.nil_iff.mpr rfl⟩
  | cons m l ih =>
    obtain ⟨hm,hl⟩ := List.nodup_cons.mp hnd
    obtain ⟨hv,ha⟩ := hall m List.mem_cons_self
    obtain ⟨s₁,hs₁,hov⟩ := setMember_accepted hv ha
    have hrest : ∀ m' ∈ l, m'.1.Valid ∧ Accepted callable replace m'.2 (s₁.at m'.1) := by
      intro m' hm'
      have hne : m'.1 ≠ m.1 := fun he => hm (List.mem_map.mpr ⟨m',hm',he⟩)
      rw [hov.keeps (by simpa using hne)]
      exact hall m' (List.mem_cons_of_mem _ hm')
    obtain ⟨s₂,hs₂,hov₂⟩ := ih hl s₁ hrest
    refine ⟨s₂,?_,Overrides.cons hm hov hov₂⟩
    have hbind := invoke_bind (setMember callable replace m) (l.forM (setMember callable replace)) s
    rw [hs₁] at hbind
    exact hbind.trans hs₂

/-- Any order of the members of an accepted batch reaches the state of the batch. -/
theorem setMembers_perm {b : Batch φ} {s s' : Slots φ} {l : List (Place × φ)}
    (hrej : ¬ Rejected callable s b replace) (hs' : Overrides b.members s.at s'.at)
    (hl : l.Perm b.members) :
    invoke (l.forM (setMember callable replace)) s = (.ok (),s') := by
  obtain ⟨-,hall⟩ := not_rejected_iff.mp hrej
  have hnd : (l.map Prod.fst).Nodup := (hl.map Prod.fst).nodup_iff.mpr b.members_nodup
  obtain ⟨s'',hs'',hov⟩ := setMembers_accepted hnd s fun m hm => hall m (hl.mem_iff.mp hm)
  have heq : s''.at = s'.at := hov.unique (hs'.perm hl)
  rw [hs'', Slots.ext_at heq]

/-! ### Seeding -/

theorem seedFrom_at (self other : Slots φ) :
    (seedFrom self other).at = fallback self.at other.at := by
  funext place
  cases place with
  | run key =>
    cases key with
    | other => rfl
    | str name =>
      by_cases hn : name ∈ self.run
      · obtain ⟨f,hf⟩ := Finmap.mem_iff.mp hn
        simp [Slots.at, named, seedFrom, fallback, Finmap.lookup_union_left hn, hf]
      · simp [Slots.at, named, seedFrom, fallback, Finmap.lookup_union_right hn,
          Finmap.lookup_eq_none.mpr hn]
  | single slot => cases slot <;> rfl

theorem seedFrom_extends (self other : Slots φ) : Extends self.at (seedFrom self other).at := by
  rw [seedFrom_at]
  exact fallback_extends _ _

theorem seedFrom_twice (self other : Slots φ) :
    seedFrom (seedFrom self other) other = seedFrom self other := by
  apply Slots.ext_at
  rw [seedFrom_at, seedFrom_at, fallback_idem]

/-! ### Runs -/

inductive Operation (φ : Type) where
  | registerCallbacks (batch : Batch φ) (replace : Bool)
  | setRun (executorHandler : HandlerKey) (func : φ) (replace : Bool)
  | setIdleBeat (func : Option φ) (replace : Bool)
  | setKill (func : Option φ) (replace : Bool)
  | setLog (func : Option φ) (replace : Bool)
  | seedFrom (other : Slots φ)

def Operation.replaces : Operation φ → Bool
  | registerCallbacks _ replace | setRun _ _ replace | setIdleBeat _ replace
  | setKill _ replace | setLog _ replace => replace
  | seedFrom _ => false

variable (callable)

/-- The registry after an operation, whether it raised or not. -/
def perform (self : Slots φ) : Operation φ → Slots φ
  | .registerCallbacks batch replace => (invoke (registerCallbacks callable batch replace) self).2
  | .setRun key func replace => (invoke (setRun callable key func replace) self).2
  | .setIdleBeat func replace => (invoke (setIdleBeat callable func replace) self).2
  | .setKill func replace => (invoke (setKill callable func replace) self).2
  | .setLog func replace => (invoke (setLog callable func replace) self).2
  | .seedFrom other => seedFrom self other

/-- A registry reached from a new one; it is only seeded from another such registry. -/
inductive Reachable : Slots φ → Prop
  | new : Reachable {}
  | perform {self : Slots φ} (op : Operation φ) : Reachable self →
      (∀ other, op = .seedFrom other → Reachable other) → Reachable (perform callable self op)

/-- An operation registers a batch or seeds. -/
theorem perform_cases (self : Slots φ) (op : Operation φ) :
    (∃ batch, perform callable self op =
      (invoke (registerCallbacks callable batch op.replaces) self).2) ∨
    ∃ other, op = .seedFrom other ∧ perform callable self op = seedFrom self other := by
  cases op with
  | seedFrom other => exact Or.inr ⟨other,rfl,rfl⟩
  | registerCallbacks batch replace => exact Or.inl ⟨batch,rfl⟩
  | _ => exact Or.inl ⟨_,rfl⟩

theorem perform_extends (self : Slots φ) {op : Operation φ} (h : op.replaces = false) :
    Extends self.at (perform callable self op).at := by
  rcases perform_cases callable self op with ⟨batch,hb⟩ | ⟨other,-,ho⟩
  · rw [hb, h]
    rcases registerCallbacks_spec callable false batch self with ⟨-,e,he⟩ | ⟨hrej,s',hs',hov⟩
    · rw [he]
      exact Extends.refl _
    · rw [hs']
      refine hov.extends fun m hm => ?_
      have hacc := (not_rejected_iff.mp hrej).2 m hm
      simpa using hacc.2.2
  · rw [ho]
    exact seedFrom_extends self other

theorem performs_extends (self : Slots φ) {ops : List (Operation φ)}
    (h : ∀ op ∈ ops, op.replaces = false) :
    Extends self.at (ops.foldl (perform callable) self).at := by
  induction ops generalizing self with
  | nil => exact Extends.refl _
  | cons op ops ih =>
    exact (perform_extends callable self (h op List.mem_cons_self)).trans
      (ih _ fun op' hop => h op' (List.mem_cons_of_mem _ hop))

/-- Every stored name is one `validate_executor_handler` lets through. -/
def Named (s : Slots φ) : Prop := ∀ key f, s.at (.run key) = some f → key.Valid

variable {callable}

theorem registerCallbacks_named {self : Slots φ} (h : Named self) (batch : Batch φ) :
    Named (invoke (registerCallbacks callable batch replace) self).2 := by
  rcases registerCallbacks_spec callable replace batch self with ⟨-,e,he⟩ | ⟨hrej,s',hs',hov⟩
  · rw [he]
    exact h
  · rw [hs']
    intro key f hf
    rcases (hov (.run key) f).mp hf with hm | ⟨-,hold⟩
    · exact ((not_rejected_iff.mp hrej).2 _ hm).1
    · exact h key f hold

theorem seedFrom_named {self other : Slots φ} (h : Named self) (ho : Named other) :
    Named (seedFrom self other) := by
  intro key f hf
  rw [seedFrom_at] at hf
  cases hs : self.at (.run key) with
  | some g => exact h key g hs
  | none =>
    simp only [fallback, hs] at hf
    exact ho key f (by simpa using hf)

theorem Reachable.named {s : Slots φ} (h : Reachable callable s) : Named s := by
  induction h with
  | new =>
    intro key f hf
    cases key <;> simp [Slots.at, Callback.named] at hf
  | @perform self op _ _ ih iho =>
    rcases perform_cases callable self op with ⟨batch,hb⟩ | ⟨other,hop,ho⟩
    · rw [hb]
      exact registerCallbacks_named ih batch
    · rw [ho]
      exact seedFrom_named ih (iho other hop)

variable (callable replace)

/-- Registration is atomic and independent of the order, and nothing registered is lost without
`replace`. -/
theorem register_callbacks_atomic (s : Slots φ) (b : Batch φ) :
    (Rejected callable s b replace ↔
      ∃ e, invoke (registerCallbacks callable b replace) s = (.error e,s)) ∧
    (¬ Rejected callable s b replace → ∃ s',
      invoke (registerCallbacks callable b replace) s = (.ok (),s') ∧
      Overrides b.members s.at s'.at ∧
      ∀ l : List (Place × φ), l.Perm b.members → invoke (l.forM (setMember callable replace)) s = (.ok (),s')) ∧
    (∀ other, Extends s.at (seedFrom s other).at ∧
      seedFrom (seedFrom s other) other = seedFrom s other) ∧
    (∀ ops : List (Operation φ), (∀ op ∈ ops, op.replaces = false) →
      Extends s.at (ops.foldl (perform callable) s).at) ∧
    (Reachable callable s → ∀ name f, s.run.lookup name = some f → ValidName name) := by
  refine ⟨?_,?_,?_,?_,?_⟩
  · rcases registerCallbacks_spec callable replace b s with ⟨hrej,herr⟩ | ⟨hrej,s',hs',-⟩
    · exact iff_of_true hrej herr
    · refine iff_of_false hrej ?_
      rintro ⟨e,he⟩
      rw [hs'] at he
      cases he
  · intro hrej
    rcases registerCallbacks_spec callable replace b s with ⟨h,-⟩ | ⟨-,s',hs',hov⟩
    · exact absurd h hrej
    · exact ⟨s',hs',hov,fun l hl => setMembers_perm hrej hov hl⟩
  · exact fun other => ⟨seedFrom_extends s other,seedFrom_twice s other⟩
  · exact fun ops h => performs_extends callable s h
  · exact fun h name f hf => h.named (.str name) f hf

end FlaskXxlJob.Callback
