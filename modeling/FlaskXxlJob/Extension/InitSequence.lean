import FlaskXxlJob.Extension.InitFailure

/-!
Calls of `init_app` on one application, one after the other. The first one that returns publishes
everything; those after it raise and change nothing.
-/
namespace FlaskXxlJob.Extension
open Python

/-! ### A call that returns -/

/-- What a call that has returned leaves. The activation of its prepared start may have found the
token taken by another call of the service. -/
structure Initialized (env : Env) (s : InitState) : Prop where
  runtime : s.app.extension = some .own
  command : (∀ i a, (env.interfere i a).command = a.command) →
    ∃ b, s.app.command = some (.xxljobCli b)
  recorded : s.recorded = true
  attached : s.attached = true
  finalizer : s.finalizer = some true
  logManager : s.logManager = some true
  published : s.app.isPublished = s.config.enabled
  started : s.config.enabled = true → s.config.autoRegister = true →
    s.registryCalls = [.prepareStart,.activatePreparedStart 0] ∧ s.activated = env.activates
  idle : (s.config.enabled && s.config.autoRegister) = false → s.registryCalls = []

section
variable {env : Env} {app : App} {recorded : Bool} {s s' : InitState}

theorem initApp_returned (h : initApp env s = (none,s')) :
    runSteps (InitStep.run env) plan s = (none,s') := by
  unfold initApp at h
  split at h
  · cases h
  next sp hpre =>
    split at h
    · cases h
    next sq hprep =>
      split at h
      · cases h
      next hcom =>
        cases h
        exact (runSteps_append hpre).trans ((runSteps_append hprep).trans hcom)

theorem initialized (hf : ∀ i, Foreign (env.interfere i))
    (hq : ∀ i a, (env.interfere i a).extensions = a.extensions) (ha : app.Untouched)
    (h : initApp env { app, recorded } = (none,s')) : Initialized env s' := by
  have hdone : Progress env app recorded [] s' :=
    runSteps_invariant (I := Progress env app recorded)
      (fun _ _ _ _ hp hr => hp.step hf hr) (by simpa using .initial env ha recorded)
      (initApp_returned h)
  refine ⟨hdone.installed hq (by simp),fun hc => hdone.registered hc (by simp),?_,?_,?_,?_,?_,
    fun hen hauto => ?_,fun hidle => ?_⟩
  · rw [hdone.recorded,hdone.added]
    simp
  · rw [hdone.attached]
    simp
  · rw [hdone.finalizer]
    simp
  · rw [hdone.logManager]
    simp
  · rw [hdone.published]
    simp
  · cases hdone.token with
    | absent hn => cases hn.symm.trans (hdone.started (by simp) hen hauto)
    | prepared _ _ _ _ hm => cases hm
    | activated _ hc _ _ hact => exact ⟨hc,hact⟩
  · cases hdone.token with
    | absent _ hc => exact hc
    | prepared _ _ _ ht => simp [ht] at hidle
    | activated _ _ _ ht => simp [ht] at hidle

/-- A call on an application that has a Runtime raises at its first check. -/
theorem initApp_initialized (hq : ∀ i a, (env.interfere i a).extensions = a.extensions)
    (h : s.app.extension.isSome = true) : ∃ e, initApp env s =
      (some e,{ s with app := env.interfere .checkInitialized s.app }) := by
  have hext : (env.interfere .checkInitialized s.app).extension.isSome = true := by
    rw [App.extension,hq]
    exact h
  obtain ⟨r,hr⟩ := Option.isSome_iff_exists.mp hext
  have hcheck : ∃ e, InitStep.run env .checkInitialized s =
      (some e,{ s with app := env.interfere .checkInitialized s.app }) := by
    cases hraise : env.raises .checkInitialized with
    | some e => exact ⟨e,by simp [InitStep.run,InitStep.taken,InitStep.abandon,hraise]⟩
    | none =>
      simp only [InitStep.run,InitStep.taken,hraise,InitStep.perform,checkInitialized,hr]
      exact ⟨_,rfl⟩
  obtain ⟨e,he⟩ := hcheck
  exact ⟨e,by rw [initApp,preflight,runSteps,he]⟩

end

/-! ### Sequences of calls -/

/-- The objects of call `k`, as the next call finds them. -/
def Identity.adopt (k : ℕ) : Identity → Identity
  | own => other k
  | other n => other n

def Command.adopt : Command → Command
  | xxljobCli _ => xxljobCli false
  | other n => other n

def App.adopt (k : ℕ) (app : App) : App :=
  { app with
    extensions := app.extensions.map fun entry => entry.map (Identity.adopt k)
    command := app.command.map Command.adopt
    blueprints := app.blueprints.map fun item => (item.1,item.2.adopt k) }

/-- The outcomes of the calls in order, each on the application the last one has left. -/
def initApps : List Env → App → Bool → List (Env × Option InitError × InitState)
  | [],_,_ => []
  | env :: envs,app,recorded =>
    let outcome := initApp env { app, recorded }
    (env,outcome) :: initApps envs (outcome.2.app.adopt envs.length) outcome.2.recorded

theorem Identity.adopt_ne (k : ℕ) (r : Identity) : r.adopt k ≠ .own := by
  cases r <;> simp [adopt]

theorem App.adopt_extension (k : ℕ) (app : App) :
    (app.adopt k).extension = app.extension.map (Identity.adopt k) := by
  cases he : app.extensions <;> simp [adopt,extension,he]

theorem App.adopt_untouched (k : ℕ) (app : App) : (app.adopt k).Untouched where
  extension h := by
    rw [adopt_extension,Option.map_eq_some_iff] at h
    obtain ⟨r,-,hr⟩ := h
    exact r.adopt_ne k hr
  command h := by
    obtain ⟨c,-,hc⟩ := Option.map_eq_some_iff.mp h
    cases c <;> simp [Command.adopt] at hc
  published := by
    simp only [isPublished,adopt,List.any_map]
    rw [List.any_eq_false]
    intro item _
    simpa using item.2.adopt_ne k

/-- The call has raised at its first check: no resource, no call on a Registry service. -/
def Refused (o : Env × Option InitError × InitState) : Prop :=
  o.2.1 ≠ none ∧ ∃ app : App, app.extension.isSome = true ∧
    o.2.2 = { app := o.1.interfere .checkInitialized app, recorded := true }

/-- Another thread may change the host, but not what this extension owns of it. -/
structure Env.Quiet (env : Env) : Prop where
  foreign : ∀ i, Foreign (env.interfere i)
  extensions : ∀ i a, (env.interfere i a).extensions = a.extensions

theorem initApps_refused {envs : List Env} (hq : ∀ env ∈ envs, env.Quiet) {app : App}
    (h : app.extension.isSome = true) : ∀ o ∈ initApps envs app true, Refused o := by
  induction envs generalizing app with
  | nil => simp [initApps]
  | cons env envs ih =>
    have henv := hq env (by simp)
    obtain ⟨e,he⟩ := initApp_initialized (s := { app, recorded := true }) henv.extensions h
    intro o ho
    rw [initApps,List.mem_cons,he] at ho
    rcases ho with rfl | ho
    · exact ⟨by simp,app,h,rfl⟩
    · refine ih (fun env hm => hq env (List.mem_cons_of_mem _ hm)) ?_ o ho
      rw [App.adopt_extension,Option.isSome_map,App.extension,henv.extensions]
      exact h

/-- Of all calls on one application at most one returns. It has published its Runtime and, if
Flask-XXLJob is enabled, its Blueprint; every later call raises at once. -/
theorem init_apps_once {envs : List Env} (hq : ∀ env ∈ envs, env.Quiet) {app : App}
    (ha : app.Untouched) (recorded : Bool) :
    (∀ o ∈ initApps envs app recorded, o.2.1 = none → Initialized o.1 o.2.2) ∧
    (initApps envs app recorded).Pairwise fun o o' => o.2.1 = none → Refused o' := by
  induction envs generalizing app recorded with
  | nil => simp [initApps]
  | cons env envs ih =>
    have henv := hq env (by simp)
    have hrest : ∀ env ∈ envs, env.Quiet := fun env hm => hq env (List.mem_cons_of_mem _ hm)
    have hfirst : (initApp env { app, recorded }).1 = none →
        Initialized env (initApp env { app, recorded }).2 := fun hn =>
      initialized henv.foreign henv.extensions ha (Prod.ext hn rfl)
    obtain ⟨hall,hpair⟩ := ih hrest
      ((initApp env { app, recorded }).2.app.adopt_untouched envs.length)
      (initApp env { app, recorded }).2.recorded
    rw [initApps]
    refine ⟨fun o ho hn => ?_,List.pairwise_cons.mpr ⟨fun o ho hn => ?_,hpair⟩⟩
    · rcases List.mem_cons.mp ho with rfl | ho
      · exact hfirst hn
      · exact hall o ho hn
    · have hinit := hfirst hn
      rw [hinit.recorded] at ho
      refine initApps_refused hrest ?_ o ho
      rw [App.adopt_extension,hinit.runtime]
      rfl

/-- A failed call, one that returns, and one that is refused. -/
theorem init_apps_once_retried : ∃ o₁ o₂ o₃, initApps [.failing .registerBlueprint,
      .failing .logCancelled,.failing .logCancelled] .plain false = [o₁,o₂,o₃] ∧
    o₁.2.1 = some (.other "RuntimeError") ∧ Initialized o₂.1 o₂.2.2 ∧ Refused o₃ := by
  have hquiet : ∀ i, (Env.failing i).Quiet := fun i =>
    { foreign := fun _ =>
        { extension := fun _ h => h, command := fun _ _ h => h, published := fun _ => rfl }
      extensions := fun _ _ => rfl }
  have huntouched : App.plain.Untouched :=
    { extension := by decide, command := by decide, published := rfl }
  obtain ⟨o₁,o₂,o₃,h,h₁,h₂⟩ : ∃ o₁ o₂ o₃, initApps [.failing .registerBlueprint,
        .failing .logCancelled,.failing .logCancelled] .plain false = [o₁,o₂,o₃] ∧
      o₁.2.1 = some (.other "RuntimeError") ∧ o₂.2.1 = none := ⟨_,_,_,rfl,rfl,rfl⟩
  have hall : ∀ env ∈ [Env.failing .registerBlueprint,.failing .logCancelled,
      .failing .logCancelled], env.Quiet := by simp [hquiet]
  obtain ⟨hall,hpair⟩ := init_apps_once hall huntouched false
  rw [h] at hall hpair
  refine ⟨o₁,o₂,o₃,h,h₁,hall o₂ (by simp) h₂,?_⟩
  exact List.rel_of_pairwise_cons (List.pairwise_cons.mp hpair).2 (by simp) h₂

end FlaskXxlJob.Extension
