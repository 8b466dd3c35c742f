import FlaskXxlJob.Callback.Registry

/-!
A batch is committed as a whole or not at all, and committing it is the same as committing its
members one by one in any order.
-/
namespace FlaskXxlJob.Callback
open Python Keyed

variable {φ : Type} {callable : φ → Bool} {replace : Bool}

/-- The outcome of a method and the attributes it leaves. -/
def invoke (method : Method φ Unit) (self : Slots φ) : Except RegistrationError Unit × Slots φ :=
  (method.run).run self

theorem invoke_bind (x y : Method φ Unit) (s : Slots φ) :
    invoke (x >>= fun _ => y) s = match invoke x s with
      | (.ok _,s') => invoke y s'
      | (.error e,s') => (.error e,s') := by
  simp only [invoke, ExceptT.run_bind, StateT.run_bind]
  rcases hx : StateT.run (ExceptT.run x) s with ⟨_ | _,s'⟩ <;> rfl

/-! ### The loop over the run mapping -/

/-- What lets one member of a batch through; `occupant` is what its place holds. -/
def Accepted (callable : φ → Bool) (replace : Bool) (func : φ) (occupant : Option φ) : Prop :=
  callable func = true ∧ (replace = true ∨ occupant = none)

def HandlerKey.Valid : HandlerKey → Prop
  | .str name => ValidName name
  | .other _ => False

def Place.Valid : Place → Prop
  | .run key => key.Valid
  | .single _ => True

theorem validateExecutorHandler_ok {key : HandlerKey} (h : key.Valid) :
    ∃ name, key = .str name ∧ validateExecutorHandler key = .ok name := by
  cases key with
  | other => exact h.elim
  | str name =>
    refine ⟨name,rfl,if_neg ?_⟩
    rintro (hn | hn)
    · exact h.1 hn
    · exact hn h.2

theorem validateExecutorHandler_error {key : HandlerKey} (h : ¬ key.Valid) :
    validateExecutorHandler key = .error .invalidName := by
  cases key with
  | other => rfl
  | str name =>
    refine if_pos ?_
    by_cases hn : name = ""
    · exact Or.inl hn
    · exact Or.inr fun hs => h ⟨hn,hs⟩

variable (callable replace) in
/-- One round of the loop. -/
theorem registerRun_cons (key : HandlerKey) (func : φ) (items : List (HandlerKey × φ))
    (newRun : Finmap (fun _ : String => φ)) :
    (∃ name, key = .str name ∧ key.Valid ∧ Accepted callable replace func (named newRun key) ∧
      registerRun callable replace ((key,func) :: items) newRun =
        registerRun callable replace items (newRun.insert name func)) ∨
    ((¬ key.Valid ∨ ¬ Accepted callable replace func (named newRun key)) ∧
      ∃ e, registerRun callable replace ((key,func) :: items) newRun = .error e) := by
  by_cases hkey : key.Valid
  · obtain ⟨name,rfl,hname⟩ := validateExecutorHandler_ok hkey
    have hocc : name ∈ newRun ↔ named newRun (.str name) ≠ none := by
      simp [named, Finmap.lookup_eq_none]
    cases hc : callable func with
    | false =>
      refine Or.inr ⟨Or.inr fun h => by simp [Accepted, hc] at h,.runNotCallable name,?_⟩
      simp [registerRun, hname, validateCallback, hc, bind, Except.bind]
    | true =>
      by_cases hfree : name ∈ newRun ∧ replace = false
      · refine Or.inr ⟨Or.inr ?_,.runOccupied name,?_⟩
        · rintro ⟨-,hr | hn⟩
          · simp [hfree.2] at hr
          · exact hocc.mp hfree.1 hn
        · simp [registerRun, hname, validateCallback, hc, hfree, bind, Except.bind, throw,
            throwThe, MonadExceptOf.throw]
      · refine Or.inl ⟨name,rfl,hkey,⟨hc,?_⟩,?_⟩
        · cases hr : replace with
          | true => exact Or.inl rfl
          | false => exact Or.inr (by_contra fun hn => hfree ⟨hocc.mpr hn,hr⟩)
        · simp [registerRun, hname, validateCallback, hc, hfree, bind, Except.bind]
  · refine Or.inr ⟨Or.inl hkey,.invalidName,?_⟩
    simp [registerRun, validateExecutorHandler_error hkey, bind, Except.bind]

theorem named_insert_self (run : Finmap (fun _ : String => φ)) (name : String) (func : φ) :
    named (run.insert name func) (.str name) = some func := Finmap.lookup_insert run

theorem named_insert_ne (run : Finmap (fun _ : String => φ)) {name : String} {key : HandlerKey}
    (func : φ) (h : key ≠ .str name) : named (run.insert name func) key = named run key := by
  cases key with
  | other => rfl
  | str name' => exact Finmap.lookup_insert_of_ne run fun hn => h (congrArg _ hn)

theorem insert_overrides (run : Finmap (fun _ : String => φ)) (name : String) (func : φ) :
    Overrides [(.str name,func)] (named run) (named (run.insert name func)) := by
  intro key f
  by_cases hk : key = .str name
  · subst hk
    simp [named_insert_self, eq_comm]
  · simp [named_insert_ne run func hk, hk]

/-- The loop accepts the items as a whole, each against the mapping it started from. -/
theorem registerRun_spec {items : List (HandlerKey × φ)} (hnd : (items.map Prod.fst).Nodup)
    (newRun : Finmap (fun _ : String => φ)) :
    ((∀ item ∈ items, item.1.Valid ∧ Accepted callable replace item.2 (named newRun item.1)) ∧
      ∃ run, registerRun callable replace items newRun = .ok run ∧
        Overrides items (named newRun) (named run)) ∨
    ((∃ item ∈ items, ¬ (item.1.Valid ∧
        Accepted callable replace item.2 (named newRun item.1))) ∧
      ∃ e, registerRun callable replace items newRun = .error e) := by
  induction items generalizing newRun with
  | nil => exact Or.inl ⟨by simp,newRun,rfl,Overrides.nil_iff.mpr rfl⟩
  | cons item items ih =>
    obtain ⟨key,func⟩ := item
    obtain ⟨hkey,hitems⟩ := List.nodup_cons.mp hnd
    rcases registerRun_cons callable replace key func items newRun with
      ⟨name,rfl,hvalid,hacc,heq⟩ | ⟨hbad,herr⟩
    · rw [heq]
      have hother : ∀ item ∈ items, named (newRun.insert name func) item.1 =
          named newRun item.1 := fun item hi =>
        named_insert_ne newRun func fun hk => hkey (List.mem_map.mpr ⟨item,hi,hk⟩)
      rcases ih hitems (newRun.insert name func) with ⟨hall,run,hrun,hov⟩ | ⟨⟨item,hi,hbad⟩,herr⟩
      · refine Or.inl ⟨?_,run,hrun,?_⟩
        · intro item hi
          rcases List.mem_cons.mp hi with rfl | hi
          · exact ⟨hvalid,hacc⟩
          · rw [← hother item hi]
            exact hall item hi
        · exact Overrides.cons hkey (insert_overrides newRun name func) hov
      · refine Or.inr ⟨⟨item,List.mem_cons_of_mem _ hi,?_⟩,herr⟩
        rw [← hother item hi]
        exact hbad
    · refine Or.inr ⟨⟨_,List.mem_cons_self,?_⟩,herr⟩
      rintro ⟨hv,ha⟩
      exact hbad.elim (· hv) (· ha)

/-! ### One batch -/

/-- A single slot is refused, or accepted as it is. -/
theorem validateSingle_spec (slot : Single) (func existing : Option φ) :
    (validateSingle callable slot func existing replace = .ok () ∨
      ∃ e, validateSingle callable slot func existing replace = .error e) ∧
    (validateSingle callable slot func existing replace = .ok () ↔
      ∀ f, func = some f → Accepted callable replace f existing) := by
  cases func with
  | none => exact ⟨Or.inl rfl,by simp [validateSingle]⟩
  | some f =>
    cases hc : callable f <;> cases existing <;> cases replace <;>
      simp [validateSingle, validateCallback, Accepted, hc, bind, Except.bind, throw, throwThe,
        MonadExceptOf.throw, pure, Except.pure]

variable (callable replace) in
theorem validateRun_spec (b : Batch φ) (existing : Finmap (fun _ : String => φ)) :
    ((b.run ≠ some .notMapping ∧ ∀ item ∈ b.items,
        item.1.Valid ∧ Accepted callable replace item.2 (named existing item.1)) ∧
      ∃ run, validateRun callable b.run existing replace = .ok run ∧
        Overrides b.items (named existing) (named run)) ∨
    ((b.run = some .notMapping ∨ ∃ item ∈ b.items,
        ¬ (item.1.Valid ∧ Accepted callable replace item.2 (named existing item.1))) ∧
      ∃ e, validateRun callable b.run existing replace = .error e) := by
  cases hrun : b.run with
  | none =>
    have hitems : b.items = [] := by simp [Batch.items, hrun]
    refine Or.inl ⟨⟨by simp,by simp [hitems]⟩,existing,rfl,?_⟩
    rw [hitems]
    exact Overrides.nil_iff.mpr rfl
  | some arg =>
    cases arg with
    | notMapping => exact Or.inr ⟨Or.inl rfl,.notMapping,rfl⟩
    | mapping items hnd =>
      have hitems : b.items = items := by simp [Batch.items, hrun]
      rw [hitems]
      exact (registerRun_spec hnd existing).imp (fun h => ⟨⟨by simp,h.1⟩,h.2⟩)
        fun h => ⟨Or.inr h.1,h.2⟩

/-- The conditions under which a batch is refused. -/
def Rejected (callable : φ → Bool) (s : Slots φ) (b : Batch φ) (replace : Bool) : Prop :=
  b.run = some .notMapping ∨ (∃ m ∈ b.members, ¬ m.1.Valid) ∨
  (∃ m ∈ b.members, callable m.2 = false) ∨
  (replace = false ∧ ∃ m ∈ b.members, s.at m.1 ≠ none)

theorem not_rejected_iff {s : Slots φ} {b : Batch φ} :
    ¬ Rejected callable s b replace ↔ b.run ≠ some .notMapping ∧
      ∀ m ∈ b.members, m.1.Valid ∧ Accepted callable replace m.2 (s.at m.1) := by
  unfold Rejected Accepted
  constructor
  · intro h
    push Not at h
    obtain ⟨hmap,hvalid,hcall,hfree⟩ := h
    refine ⟨hmap,fun m hm => ⟨hvalid m hm,by simpa using hcall m hm,?_⟩⟩
    cases hr : replace with
    | true => exact Or.inl rfl
    | false => exact Or.inr (hfree hr m hm)
  · rintro ⟨hmap,hall⟩ (h | ⟨m,hm,h⟩ | ⟨m,hm,h⟩ | ⟨hr,m,hm,h⟩)
    · exact hmap h
    · exact h (hall m hm).1
    · simp [(hall m hm).2.1] at h
    · rcases (hall m hm).2.2 with hr' | hn
      · simp [hr] at hr'
      · exact h hn

/-- What `register_callbacks` commits. -/
def Batch.commit (b : Batch φ) (s : Slots φ) (run : Finmap (fun _ : String => φ)) : Slots φ where
  run := run
  idleBeat := b.idleBeat <|> s.idleBeat
  kill := b.kill <|> s.kill
  log := b.log <|> s.log

theorem Batch.commit_overrides {b : Batch φ} {s : Slots φ} {run : Finmap (fun _ : String => φ)}
    (h : Overrides b.items (named s.run) (named run)) :
    Overrides b.members s.at (b.commit s run).at := by
  intro place f
  cases place with
  | run key =>
    have hkeys : Place.run key ∉ b.members.map Prod.fst ↔ key ∉ b.items.map Prod.fst := by
      simp [List.mem_map]
    rw [hkeys, run_mem_members]
    exact h key f
  | single slot =>
    have hkeys : Place.single slot ∉ b.members.map Prod.fst ↔ b.single slot = none := by
      simp [List.mem_map, Option.eq_none_iff_forall_ne_some]
    have hat : (b.commit s run).at (.single slot) = (b.single slot <|> s.single slot) := by
      cases slot <;> rfl
    rw [hkeys, single_mem_members, hat]
    cases b.single slot <;> simp [Slots.at]


theorem rejected_of_single {b : Batch φ} {s : Slots φ} {e : RegistrationError} (slot : Single)
    (h : validateSingle callable slot (b.single slot) (s.single slot) replace = .error e) :
    Rejected callable s b replace := by
  by_contra hn
  have hall := (not_rejected_iff.mp hn).2
  have hok := (validateSingle_spec slot (b.single slot) (s.single slot)).2.mpr fun f hf =>
    (hall (.single slot,f) (by simpa using hf)).2
  rw [h] at hok
  cases hok

theorem invoke_registerCallbacks (b : Batch φ) (s : Slots φ) :
    invoke (registerCallbacks callable b replace) s =
      match validateRun callable b.run s.run replace,
        validateSingle callable .idleBeat b.idleBeat s.idleBeat replace,
        validateSingle callable .kill b.kill s.kill replace,
        validateSingle callable .log b.log s.log replace with
      | .ok run,.ok _,.ok _,.ok _ => (.ok (),b.commit s run)
      | .error e,_,_,_ | .ok _,.error e,_,_ | .ok _,.ok _,.error e,_
      | .ok _,.ok _,.ok _,.error e => (.error e,s) := by
  have h : invoke (registerCallbacks callable b replace) s = invoke (do
      let newRun ← MonadExcept.ofExcept (validateRun callable b.run s.run replace)
      MonadExcept.ofExcept (validateSingle callable .idleBeat b.idleBeat s.idleBeat replace)
      MonadExcept.ofExcept (validateSingle callable .kill b.kill s.kill replace)
      MonadExcept.ofExcept (validateSingle callable .log b.log s.log replace)
      set (b.commit s newRun)) s := rfl
  rw [h]
  rcases validateRun callable b.run s.run replace with _ | _
  · rfl
  rcases validateSingle callable .idleBeat b.idleBeat s.idleBeat replace with _ | _
  · rfl
  rcases validateSingle callable .kill b.kill s.kill replace with _ | _
  · rfl
  rcases validateSingle callable .log b.log s.log replace with _ | _ <;> rfl

variable (callable replace) in
/-- A rejected batch leaves no trace, another one is committed as a whole. -/
theorem registerCallbacks_spec (b : Batch φ) (s : Slots φ) :
    (Rejected callable s b replace ∧
      ∃ e, invoke (registerCallbacks callable b replace) s = (.error e,s)) ∨
    (¬ Rejected callable s b replace ∧
      ∃ s', invoke (registerCallbacks callable b replace) s = (.ok (),s') ∧
        Overrides b.members s.at s'.at) := by
  rw [invoke_registerCallbacks]
  rcases validateRun_spec callable replace b s.run with
    ⟨⟨hmap,hitems⟩,run,hrun,hov⟩ | ⟨hbad,e,he⟩
  · rw [hrun]
    rcases (validateSingle_spec .idleBeat b.idleBeat s.idleBeat).1 with h₁ | ⟨e,h₁⟩
    · rcases (validateSingle_spec .kill b.kill s.kill).1 with h₂ | ⟨e,h₂⟩
      · rcases (validateSingle_spec .log b.log s.log).1 with h₃ | ⟨e,h₃⟩
        · rw [h₁, h₂, h₃]
          refine Or.inr ⟨not_rejected_iff.mpr ⟨hmap,?_⟩,_,rfl,b.commit_overrides hov⟩
          rintro ⟨place,f⟩ hm
          cases place with
          | run key => exact hitems (key,f) (by simpa using hm)
          | single slot =>
            have hf : b.single slot = some f := by simpa using hm
            cases slot with
            | idleBeat => exact ⟨trivial,(validateSingle_spec _ _ _).2.mp h₁ f hf⟩
            | kill => exact ⟨trivial,(validateSingle_spec _ _ _).2.mp h₂ f hf⟩
            | log => exact ⟨trivial,(validateSingle_spec _ _ _).2.mp h₃ f hf⟩
        · exact Or.inl ⟨rejected_of_single .log h₃,e,by rw [h₁, h₂, h₃]⟩
      · exact Or.inl ⟨rejected_of_single .kill h₂,e,by rw [h₁, h₂]⟩
    · exact Or.inl ⟨rejected_of_single .idleBeat h₁,e,by rw [h₁]⟩
  · rw [he]
    refine Or.inl ⟨by_contra fun hn => ?_,e,rfl⟩
    obtain ⟨hmap,hall⟩ := not_rejected_iff.mp hn
    rcases hbad with hbad | ⟨item,hi,hbad⟩
    · exact hmap hbad
    · exact hbad (hall (.run item.1,item.2) (by simpa using hi))

end FlaskXxlJob.Callback
