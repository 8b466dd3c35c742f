import FlaskXxlJob.Extension.InitProgress
import FlaskXxlJob.Registry.Unstarted

/-!
A failed `init_app`: what it owns at the step that raises is undone, each part of it whatever
becomes of the others, unless its Blueprint has been published.
-/
namespace FlaskXxlJob.Extension
open Python Registry

/-! ### The cleanup, one action at a time -/

namespace CleanupAction
variable (env : Env) (s : InitState) (a : CleanupAction)

/-- What no action changes. -/
theorem run_same : (run env s a).prepared = s.prepared ∧ (run env s a).cliAdded = s.cliAdded ∧
    (run env s a).runtime = s.runtime ∧ (run env s a).applicationAdded = s.applicationAdded ∧
    (run env s a).registryService = s.registryService ∧ (run env s a).attached = s.attached ∧
    (run env s a).app.isPublished = s.app.isPublished := by
  unfold run
  split
  · cases a with
    | removeCommand | removeExtension =>
      simp only [perform]
      split <;> exact ⟨rfl,rfl,rfl,rfl,rfl,rfl,rfl⟩
    | _ => exact ⟨rfl,rfl,rfl,rfl,rfl,rfl,rfl⟩
  · exact ⟨rfl,rfl,rfl,rfl,rfl,rfl,rfl⟩

@[simp] theorem run_prepared : (run env s a).prepared = s.prepared := (run_same env s a).1

@[simp] theorem run_cliAdded : (run env s a).cliAdded = s.cliAdded := (run_same env s a).2.1

@[simp] theorem run_runtime : (run env s a).runtime = s.runtime := (run_same env s a).2.2.1

@[simp] theorem run_applicationAdded : (run env s a).applicationAdded = s.applicationAdded :=
  (run_same env s a).2.2.2.1

@[simp] theorem run_registryService : (run env s a).registryService = s.registryService :=
  (run_same env s a).2.2.2.2.1

@[simp] theorem run_attached : (run env s a).attached = s.attached :=
  (run_same env s a).2.2.2.2.2.1

@[simp] theorem run_isPublished : (run env s a).app.isPublished = s.app.isPublished :=
  (run_same env s a).2.2.2.2.2.2

theorem run_finalizer : (run env s a).finalizer =
    if a = .detachFinalizer ∧ env.cleanupRaises a = false then s.finalizer.map fun _ => false
    else s.finalizer := by
  unfold run
  cases a <;> cases hf : s.finalizer <;> simp [taken,perform,apply_ite InitState.finalizer,hf]

theorem run_logManager : (run env s a).logManager =
    if a = .closeLogManager ∧ env.cleanupRaises a = false then s.logManager.map fun _ => false
    else s.logManager := by
  unfold run
  cases a <;> cases hl : s.logManager <;> simp [taken,perform,apply_ite InitState.logManager,hl]

theorem run_recorded : (run env s a).recorded =
    if a = .discardApplication ∧ env.cleanupRaises a = false ∧ s.applicationAdded = true then false
    else s.recorded := by
  unfold run
  cases a <;> cases ha : s.applicationAdded <;>
    simp [taken,perform,apply_ite InitState.recorded,ha]

theorem run_command : (run env s a).app.command =
    if a = .removeCommand ∧ env.cleanupRaises a = false ∧ s.cliAdded = true then
      s.app.command.filter fun c => !c.isXxljobCli
    else s.app.command := by
  unfold run
  cases a with
  | removeCommand =>
    cases ha : s.cliAdded <;> cases hc : s.app.command with
    | none => simp [taken,perform,ha,hc]
    | some c =>
      cases hx : c.isXxljobCli <;> cases env.cleanupRaises .removeCommand <;>
        simp [taken,perform,Option.filter,ha,hc,hx]
  | _ => simp [perform,apply_ite InitState.app,apply_ite App.command]

theorem run_extension : (run env s a).app.extension =
    if a = .removeExtension ∧ env.cleanupRaises a = false ∧ s.runtime = true then
      s.app.extension.filter (· ≠ .own)
    else s.app.extension := by
  unfold run
  cases a with
  | removeExtension =>
    have hnone : ∀ app : App, App.extension { app with extensions := some none } = none :=
      fun _ => rfl
    cases ha : s.runtime <;> cases hc : s.app.extension with
    | none => simp [taken,perform,ha,hc]
    | some r =>
      by_cases hx : r = .own <;> cases env.cleanupRaises .removeExtension <;>
        simp [taken,perform,Option.filter,ha,hc,hx,hnone]
  | removeCommand =>
    simp only [perform]
    split <;> [split; skip] <;> simp [App.extension]
  | _ => simp [perform,apply_ite InitState.app]

theorem run_calls : (run env s a).registryCalls = s.registryCalls ++
    (if env.cleanupRaises a then [] else
      match a with
      | .cancelPreparedStart =>
        if s.registryService then s.prepared.toList.map .cancelPreparedStart else []
      | .settlePrepared => s.prepared.toList.map .settlePreparedAfterPublishFailure
      | _ => []) := by
  unfold run
  cases env.cleanupRaises a <;> cases a <;> cases hp : s.prepared <;>
    cases hs : s.registryService <;> simp [taken,perform,apply_ite InitState.registryCalls,hp,hs]

end CleanupAction

/-- The host and the call after a cleanup, given what it owned before. -/
structure Closed (env : Env) (s s' : InitState) : Prop where
  prepared : s'.prepared = s.prepared
  published : s'.app.isPublished = s.app.isPublished
  finalizer : env.cleanupRaises .detachFinalizer = false →
    s'.finalizer = s.finalizer.map fun _ => false
  logManager : env.cleanupRaises .closeLogManager = false →
    s'.logManager = s.logManager.map fun _ => false
  recorded : s'.recorded = if env.cleanupRaises .discardApplication = false ∧ s.applicationAdded = true
    then false else s.recorded
  command : s'.app.command = if env.cleanupRaises .removeCommand = false ∧ s.cliAdded = true then
    s.app.command.filter (fun c => !c.isXxljobCli) else s.app.command
  extension : s'.app.extension = if env.cleanupRaises .removeExtension = false ∧ s.runtime = true then
    s.app.extension.filter (· ≠ .own) else s.app.extension
  calls : s'.registryCalls = s.registryCalls ++
    if env.cleanupRaises .cancelPreparedStart = false ∧ s.registryService = true then
      s.prepared.toList.map .cancelPreparedStart else []

theorem close_closed (env : Env) (s : InitState) :
    Closed env s (closeUncommittedRuntimeResources env s) := by
  unfold closeUncommittedRuntimeResources
  simp only [List.foldl_cons,List.foldl_nil]
  constructor
  · simp
  · simp
  · intro hr
    simp [CleanupAction.run_finalizer,hr]
  · intro hr
    simp [CleanupAction.run_logManager,hr]
  · simp [CleanupAction.run_recorded]
  · simp [CleanupAction.run_command]
  · simp [CleanupAction.run_extension]
  · cases hr : env.cleanupRaises .cancelPreparedStart <;> simp [CleanupAction.run_calls,hr]

/-! ### A failed call -/

/-- The step that raises `e`, after all steps before it have returned, leaves `s₁`. -/
def RaisedBy (env : Env) (s : InitState) (e : InitError) (s₁ : InitState) : Prop :=
  ∃ done i rest s₀, plan = done ++ i :: rest ∧
    runSteps (InitStep.run env) done s = (none,s₀) ∧ i.run env s₀ = (some e,s₁)

/-- Nothing of the call is left: each field depends on its own action alone. -/
structure Undone (env : Env) (app : App) (recorded : Bool) (s₁ s' : InitState) : Prop where
  runtime : env.cleanupRaises .removeExtension = false → s'.app.extension ≠ some .own
  replacedRuntime : s₁.app.extension ≠ some .own → s'.app.extension = s₁.app.extension
  command : env.cleanupRaises .removeCommand = false → s'.app.command ≠ some (.xxljobCli true)
  replacedCommand : s₁.app.command ≠ some (.xxljobCli true) → s'.app.command = s₁.app.command
  preexistingCommand : (∀ i a, (env.interfere i a).command = a.command) →
    ∀ c, app.command = some c → s'.app.command = some c
  recorded : env.cleanupRaises .discardApplication = false → s'.recorded = true → recorded = true
  finalizer : env.cleanupRaises .detachFinalizer = false → s'.finalizer ≠ some true
  logManager : env.cleanupRaises .closeLogManager = false → s'.logManager ≠ some true
  prepared : env.cleanupRaises .cancelPreparedStart = false →
    ∀ p, s'.prepared = some p → Cancels s'.registryCalls p
  silent : Silent s'.registryCalls

/-- The call keeps what it has published, and settles its token. -/
structure Kept (env : Env) (s₁ s' : InitState) : Prop where
  app : s'.app = s₁.app
  runtime : (∀ i a, (env.interfere i a).extensions = a.extensions) → s'.app.extension = some .own
  recorded : s'.recorded = true
  attached : s'.attached = true
  finalizer : s'.finalizer = some true
  logManager : s'.logManager = some true
  settled : env.cleanupRaises .settlePrepared = false →
    ∀ p, s'.prepared = some p → .settlePreparedAfterPublishFailure p ∈ s'.registryCalls
  unactivated : .activatePreparedStart 0 ∉ s'.registryCalls → Silent s'.registryCalls ∧
    (env.cleanupRaises .settlePrepared = false →
      ∀ p, s'.prepared = some p → Cancels s'.registryCalls p)

namespace Owned
variable {env : Env} {app : App} {recorded : Bool} {s₁ s' : InitState}

theorem undone (h : Owned env app recorded s₁) (ha : app.Untouched)
    (hpub : s₁.app.isPublished = false) (hc : Closed env s₁ s') :
    Undone env app recorded s₁ s' := by
  have hkept : s₁.app.command ≠ some (.xxljobCli true) → s'.app.command = s₁.app.command := by
    intro hne
    rw [hc.command]
    split
    next hadd =>
      cases hcmd : s₁.app.command with
      | none => rfl
      | some c =>
        cases c with
        | other n => rfl
        | xxljobCli b =>
          cases b with
          | true => exact absurd hcmd hne
          | false => exact absurd (hadd.2.symm.trans (h.present hcmd)) (by decide)
    next => rfl
  have hcalls : ∀ c ∈ s'.registryCalls, c.preparesOnly = true := by
    rw [hc.calls]
    intro c hmem
    rcases List.mem_append.mp hmem with hmem | hmem
    · rcases h.calls with he | he | ⟨-,ht⟩
      · simp [he] at hmem
      · obtain rfl : c = .prepareStart := by simpa [he] using hmem
        rfl
      · exact absurd (hpub.symm.trans ht) (by decide)
    · split at hmem
      · obtain ⟨p,-,rfl⟩ := List.mem_map.mp hmem
        rfl
      · cases hmem
  refine ⟨fun hr he => ?_,fun hne => ?_,fun hr he => ?_,hkept,fun hq c happ => ?_,fun hr hrec => ?_,
    fun hr => ?_,fun hr => ?_,fun hr p hp => ?_,silent_of_preparesOnly hcalls⟩
  · rw [hc.extension] at he
    split at he
    · simp [Option.filter_eq_some_iff] at he
    next hn => exact hn ⟨hr,h.extension he⟩
  · rw [hc.extension]
    split
    · cases hx : s₁.app.extension with
      | none => rfl
      | some r =>
        have : r ≠ .own := fun hr => hne (hx.trans (congrArg some hr))
        simp [Option.filter,this]
    · rfl
  · rw [hc.command] at he
    split at he
    · simp [Option.filter_eq_some_iff,Command.isXxljobCli] at he
    next hn => exact hn ⟨hr,h.command he⟩
  · have hold := h.preexisting hq c happ
    refine (hkept fun hown => ?_).trans hold
    exact ha.command (happ.trans (hold.symm.trans hown))
  · rw [hc.recorded] at hrec
    split at hrec
    · cases hrec
    next hn => exact (h.recorded hrec).resolve_right fun hadd => hn ⟨hr,hadd⟩
  · rw [hc.finalizer hr]
    cases s₁.finalizer <;> simp
  · rw [hc.logManager hr]
    cases s₁.logManager <;> simp
  · have hp₁ : s₁.prepared = some p := hc.prepared ▸ hp
    refine cancels_of_preparesOnly (c := .cancelPreparedStart p) (i := .cancelPreparedStart p)
      hcalls ?_ .cancel
    rw [hc.calls,if_pos ⟨hr,(h.prepared p hp₁).2⟩,hp₁]
    simp

theorem kept (h : Owned env app recorded s₁) (hpub : s₁.app.isPublished = true) :
    Kept env s₁ (CleanupAction.run env s₁ .settlePrepared) := by
  obtain ⟨hrec,hatt,hfin,hlog,hrun⟩ := h.published hpub
  have happ : (CleanupAction.run env s₁ .settlePrepared).app = s₁.app := by
    unfold CleanupAction.run
    split <;> rfl
  have hcalls := CleanupAction.run_calls env s₁ .settlePrepared
  refine ⟨happ,fun hq => ?_,?_,?_,?_,?_,fun hr p hp => ?_,fun hno => ?_⟩
  · rw [happ]
    exact hrun hq
  · simp [CleanupAction.run_recorded,hrec]
  · simp [hatt]
  · simp [CleanupAction.run_finalizer,hfin]
  · simp [CleanupAction.run_logManager,hlog]
  · rw [CleanupAction.run_prepared] at hp
    rw [hcalls,hr,hp]
    simp
  · have hprep : ∀ c ∈ (CleanupAction.run env s₁ .settlePrepared).registryCalls,
        c.preparesOnly = true := by
      intro c hmem
      rw [hcalls] at hmem hno
      rcases List.mem_append.mp hmem with hmem | hmem
      · rcases h.calls with he | he | ⟨he,-⟩
        · simp [he] at hmem
        · obtain rfl : c = .prepareStart := by simpa [he] using hmem
          rfl
        · simp [he] at hno
      · split at hmem
        · cases hmem
        · obtain ⟨p,-,rfl⟩ := List.mem_map.mp hmem
          rfl
    refine ⟨silent_of_preparesOnly hprep,fun hr p hp => ?_⟩
    rw [CleanupAction.run_prepared] at hp
    refine cancels_of_preparesOnly (c := .settlePreparedAfterPublishFailure p)
      (i := .settlePrepared p) hprep ?_ .settle
    rw [hcalls,hr,hp]
    simp

end Owned

section
variable {env : Env} {app : App} {recorded : Bool} {e : InitError} {s s₀ s' : InitState}

/-- Where a failed call has raised, and what it has done then. -/
theorem initApp_raised (h : initApp env s = (some e,s')) : ∃ done i rest s₀ s₁,
    plan = done ++ i :: rest ∧ runSteps (InitStep.run env) done s = (none,s₀) ∧
    i.run env s₀ = (some e,s₁) ∧
    ((i ∈ preflight ∧ s' = s₁) ∨
      (i ∈ preparation ∧ s' = closeUncommittedRuntimeResources env s₁) ∨
      (i ∈ commit ∧ s' = if s₁.blueprintPublished then CleanupAction.run env s₁ .settlePrepared
        else closeUncommittedRuntimeResources env s₁)) := by
  unfold initApp at h
  split at h
  next e' s₁ hpre =>
    cases h
    obtain ⟨done,i,rest,s₀,hsteps,hdone,hi⟩ := runSteps_raised hpre
    exact ⟨done,i,_,s₀,_,by rw [plan,hsteps,List.append_assoc,List.cons_append],hdone,hi,
      Or.inl ⟨by simp [hsteps],rfl⟩⟩
  next sp hpre =>
    split at h
    next e' s₁ hprep =>
      cases h
      obtain ⟨done,i,rest,s₀,hsteps,hdone,hi⟩ := runSteps_raised hprep
      exact ⟨preflight ++ done,i,rest ++ commit,s₀,s₁,by simp [plan,hsteps],
        (runSteps_append hpre).trans hdone,hi,Or.inr (Or.inl ⟨by simp [hsteps],rfl⟩)⟩
    next sq hprep =>
      split at h
      next e' s₁ hcom =>
        cases h
        obtain ⟨done,i,rest,s₀,hsteps,hdone,hi⟩ := runSteps_raised hcom
        exact ⟨preflight ++ (preparation ++ done),i,rest,s₀,s₁,by simp [plan,hsteps],
          (runSteps_append hpre).trans ((runSteps_append hprep).trans hdone),hi,
          Or.inr (Or.inr ⟨by simp [hsteps],rfl⟩)⟩
      next => cases h

/-- A step before the commit leaves nothing when it raises. -/
theorem raised_before_commit {i : InitStep} {rest : List InitStep} {s₁ : InitState}
    (hf : ∀ i, Foreign (env.interfere i)) (h : Progress env app recorded (i :: rest) s₀)
    (hi : i ∈ preflight ++ preparation) (hr : i.run env s₀ = (some e,s₁)) :
    Progress env app recorded (i :: rest) s₁ ∧ s₁.app.isPublished = false := by
  have hs : s₁ = i.found env s₀ := by
    rcases InitStep.run_raised hr with rfl | rfl
    · rfl
    · cases i <;> first | rfl | exact absurd hi (by decide)
  have hfound := hs ▸ h.found (hf i)
  have hlast : .registerBlueprint ∈ i :: rest := by
    refine List.mem_cons_of_mem _ ?_
    rw [rest_eq hfound.suffix]
    exact register_last i hi
  refine ⟨hfound,?_⟩
  rw [hfound.published,decide_eq_false (not_not.mpr hlast),Bool.and_false]

/-- The preflight creates nothing. -/
theorem undone_preflight {i : InitStep} {rest : List InitStep} {s₁ : InitState}
    (ha : app.Untouched) (h : Progress env app recorded (i :: rest) s₁) (hi : i ∈ preflight)
    (hown : Owned env app recorded s₁) (hpub : s₁.app.isPublished = false) :
    Undone env app recorded s₁ s₁ := by
  have hafter : ∀ j ∈ preparation ++ commit, j ∈ i :: rest := by
    intro j hj
    refine List.mem_cons_of_mem _ ?_
    rw [rest_eq h.suffix]
    exact preflight_first i hi j hj
  have hfin : s₁.finalizer = none := by
    rw [h.finalizer,if_pos (hafter .installRuntimeFinalizer (by decide))]
  have hlog : s₁.logManager = none := by
    rw [h.logManager,if_pos (hafter .logManager (by decide))]
  have hadd : s₁.applicationAdded = false := by
    rw [h.added,decide_eq_false (not_not.mpr (hafter .addApplication (by decide)))]
  have hrun : s₁.runtime = false := by
    rw [h.runtime,decide_eq_false (not_not.mpr (hafter .runtime (by decide)))]
  have hserv : s₁.registryService = false := by
    rw [h.registryService,decide_eq_false (not_not.mpr (hafter .registryService (by decide)))]
  have hcli := h.unadded (hafter .registerCli (by decide))
  refine hown.undone ha hpub ⟨rfl,rfl,fun _ => ?_,fun _ => ?_,?_,?_,?_,?_⟩
  · rw [hfin,Option.map_none]
  · rw [hlog,Option.map_none]
  · simp [hadd]
  · simp [hcli]
  · simp [hrun]
  · simp [hserv]

/-- A failed `init_app` re-raises the exception of its first failing step. Unless its Blueprint is
visible it leaves nothing of its own and no Registry RPC is sent; a visible Blueprint keeps its
Runtime. -/
theorem failed_init_undone (hf : ∀ i, Foreign (env.interfere i)) (ha : app.Untouched)
    (h : initApp env { app, recorded } = (some e,s')) : ∃ s₁,
      RaisedBy env { app, recorded } e s₁ ∧
      (s'.app.isPublished = false → Undone env app recorded s₁ s') ∧
      (s'.app.isPublished = true → Kept env s₁ s') := by
  obtain ⟨done,i,rest,s₀,s₁,hplan,hdone,hi,hcases⟩ := initApp_raised h
  have hprog : Progress env app recorded (i :: rest) s₀ :=
    runSteps_invariant (I := Progress env app recorded)
      (fun _ _ _ _ hp hr => hp.step hf hr) (hplan ▸ .initial env ha recorded) hdone
  have hown := hprog.raised hf hi
  refine ⟨s₁,⟨done,i,rest,s₀,hplan,hdone,hi⟩,?_⟩
  rcases hcases with ⟨hpre,rfl⟩ | ⟨hprep,rfl⟩ | ⟨-,rfl⟩
  · obtain ⟨hat,hvis⟩ := raised_before_commit hf hprog (List.mem_append_left _ hpre) hi
    refine ⟨fun _ => undone_preflight ha hat hpre hown hvis,fun hn => ?_⟩
    exact absurd (hn.symm.trans hvis) (by decide)
  · obtain ⟨-,hvis⟩ := raised_before_commit hf hprog (List.mem_append_right _ hprep) hi
    have hclosed := close_closed env s₁
    refine ⟨fun _ => hown.undone ha hvis hclosed,fun hn => ?_⟩
    exact absurd (hn.symm.trans (hclosed.published.trans hvis)) (by decide)
  · cases hpub : s₁.blueprintPublished with
    | true =>
      have hvis : s₁.app.isPublished = true := hown.noted.symm.trans hpub
      have hkept := hown.kept hvis
      refine ⟨fun hn => ?_,fun _ => hkept⟩
      rw [if_pos rfl,hkept.app] at hn
      exact absurd (hn.symm.trans hvis) (by decide)
    | false =>
      have hvis : s₁.app.isPublished = false := hown.noted.symm.trans hpub
      have hclosed := close_closed env s₁
      refine ⟨fun _ => hown.undone ha hvis hclosed,fun hn => ?_⟩
      exact absurd (hn.symm.trans (hclosed.published.trans hvis)) (by decide)

end

/-- An enabled application with automatic registration. -/
def App.plain : App where
  name := "app"
  extensions := some none
  command := none
  rules := []
  blueprints := []

/-- One step raises, and so does the removal of the command. -/
def Env.failing (i : InitStep) : Env where
  library := .localhost
  mapping := [("XXL_JOB_ADMIN_ADDRESSES",.list [.str "http://localhost:8080"]),
    ("XXL_JOB_EXECUTOR_ADDRESS",.str "http://localhost:9999")]
  interfere _ app := app
  raises j := if j = i then some (.other "RuntimeError") else none
  cleanupRaises a := a = .removeCommand
  publishes := false
  activates := true

/-- `register_blueprint` raises: the command is still there, and everything else is undone. -/
theorem failed_init_undone_unregistered : ∃ s', initApp (.failing .registerBlueprint)
      { app := .plain, recorded := false } = (some (.other "RuntimeError"),s') ∧
    s'.app.command = some (.xxljobCli true) ∧ s'.app.extension ≠ some .own ∧
    s'.recorded = false ∧ s'.finalizer ≠ some true ∧ Cancels s'.registryCalls 0 ∧
    Silent s'.registryCalls := by
  obtain ⟨s',h,hpub,hcmd,hrec,hprep⟩ : ∃ s', initApp (.failing .registerBlueprint)
        { app := .plain, recorded := false } = (some (.other "RuntimeError"),s') ∧
      s'.app.isPublished = false ∧ s'.app.command = some (.xxljobCli true) ∧
      s'.recorded = false ∧ s'.prepared = some 0 := ⟨_,rfl,rfl,rfl,rfl,rfl⟩
  have hforeign : ∀ i, Foreign ((Env.failing .registerBlueprint).interfere i) := fun _ =>
    { extension := fun _ h => h, command := fun _ _ h => h, published := fun _ => rfl }
  have huntouched : App.plain.Untouched :=
    { extension := by decide, command := by decide, published := rfl }
  obtain ⟨s₁,-,hundone,-⟩ := failed_init_undone hforeign huntouched h
  have hu := hundone hpub
  exact ⟨s',h,hcmd,hu.runtime rfl,hrec,hu.finalizer rfl,hu.prepared rfl 0 hprep,hu.silent⟩

end FlaskXxlJob.Extension
