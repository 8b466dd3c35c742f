import FlaskXxlJob.Extension.InitApp

/-!
How far an `init_app` has come. The state between two steps says which steps are done, and with
them what the call owns when the next one raises.
-/
namespace FlaskXxlJob.Extension
open Python

/-- Another thread never installs the Runtime or the Blueprint of this call, nor the project's
command, and it does not unregister the Blueprint. -/
structure Foreign (f : App → App) : Prop where
  extension : ∀ a, (f a).extension = some .own → a.extension = some .own
  command : ∀ a b, (f a).command = some (.xxljobCli b) → a.command = some (.xxljobCli b)
  published : ∀ a, (f a).isPublished = a.isPublished

/-- A host without anything of this call. -/
structure App.Untouched (app : App) : Prop where
  extension : app.extension ≠ some .own
  command : app.command ≠ some (.xxljobCli true)
  published : app.isPublished = false

def plan : List InitStep := preflight ++ (preparation ++ commit)

/-- How far the token of the call has come. -/
inductive Token (env : Env) (rem : List InitStep) (s : InitState) : Prop
  | absent : s.prepared = none → s.registryCalls = [] → Token env rem s
  | prepared : s.prepared = some 0 → s.registryCalls = [.prepareStart] → .prepareStart ∉ rem →
      s.config.enabled = true ∧ s.config.autoRegister = true → .activatePreparedStart ∈ rem →
      Token env rem s
  | activated : s.prepared = some 0 →
      s.registryCalls = [.prepareStart,.activatePreparedStart 0] →
      .activatePreparedStart ∉ rem → s.config.enabled = true ∧ s.config.autoRegister = true →
      s.activated = env.activates → Token env rem s

/-- The state of the call while the steps `rem` of its plan are still to run. -/
structure Progress (env : Env) (app : App) (recorded : Bool) (rem : List InitStep)
    (s : InitState) : Prop where
  suffix : rem <:+ plan
  logManager : s.logManager = if .logManager ∈ rem then none else some true
  registryService : s.registryService = decide (.registryService ∉ rem)
  runtime : s.runtime = decide (.runtime ∉ rem)
  finalizer : s.finalizer = if .installRuntimeFinalizer ∈ rem then none else some true
  recorded : s.recorded = (recorded || s.applicationAdded)
  added : s.applicationAdded = decide (.addApplication ∉ rem)
  attached : s.attached = decide (.attachFinalizer ∉ rem)
  token : Token env rem s
  started : .prepareStart ∉ rem → s.config.enabled = true → s.config.autoRegister = true →
    s.prepared = some 0
  extension : s.app.extension = some .own → .publishRuntime ∉ rem
  installed : (∀ i a, (env.interfere i a).extensions = a.extensions) → .publishRuntime ∉ rem →
    s.app.extension = some .own
  command : s.app.command = some (.xxljobCli true) → s.cliAdded = true ∧ .registerCli ∉ rem
  present : s.app.command = some (.xxljobCli false) → s.cliAdded = false
  unadded : .registerCli ∈ rem → s.cliAdded = false
  preexisting : (∀ i a, (env.interfere i a).command = a.command) →
    ∀ c, app.command = some c → s.app.command = some c
  registered : (∀ i a, (env.interfere i a).command = a.command) → .registerCli ∉ rem →
    ∃ b, s.app.command = some (.xxljobCli b)
  built : .buildBlueprint ∉ rem → s.config.enabled = true → s.blueprint.isSome = true
  published : s.app.isPublished = (s.config.enabled && decide (.registerBlueprint ∉ rem))
  noted : s.blueprintPublished = s.app.isPublished

namespace InitStep
variable {env : Env} {i : InitStep} {s s' : InitState}

/-- The host as the step finds it. -/
def found (env : Env) (i : InitStep) (s : InitState) : InitState :=
  { s with app := env.interfere i s.app }

theorem run_raised {e : InitError} (h : i.run env s = (some e,s')) :
    s' = i.found env s ∨ s' = i.abandon env (i.found env s) := by
  simp only [run] at h
  split at h
  · split at h
    · cases h
      exact Or.inr rfl
    · split at h
      · cases h
        exact Or.inl rfl
      · cases h
  · cases h

/-- Steps that only check, log, or build what the call does not undo. -/
def isIdle : InitStep → Bool
  | checkInitialized | validateRegistry | ensureExecutorRoutesAvailable
  | ensureBlueprintNameAvailable | ensureCliAvailable | callbackRegistry | seedFrom | adminClient
  | callbackClient | logInitialized | logCancelled => true
  | _ => false

/-- What a step that returns has done. -/
inductive Performed (env : Env) (s : InitState) : InitStep → InitState → Prop
  | idle {i : InitStep} : i.isIdle = true → Performed env s i s
  | configured (config) : Performed env s .fromMapping { s with config }
  | built (name : String) : Performed env s .buildBlueprint { s with blueprint := some name }
  | logManager : Performed env s .logManager { s with logManager := some true }
  | registryService : Performed env s .registryService { s with registryService := true }
  | runtime : Performed env s .runtime { s with runtime := true }
  | prepared : Performed env s .prepareStart
      { s with prepared := some 0, registryCalls := s.registryCalls ++ [.prepareStart] }
  | finalizer : Performed env s .installRuntimeFinalizer { s with finalizer := some true }
  | commandAdded : s.app.command = none → Performed env s .registerCli
      { s with app := { s.app with command := some (.xxljobCli true) }, cliAdded := true }
  | commandKept (b : Bool) : s.app.command = some (.xxljobCli b) →
      Performed env s .registerCli { s with cliAdded := false }
  | extensions : Performed env s .ensureExtensions
      { s with app := { s.app with extensions := some s.app.extension } }
  | installed : Performed env s .publishRuntime
      { s with app := { s.app with extensions := some (some .own) } }
  | recorded : Performed env s .addApplication { s with recorded := true, applicationAdded := true }
  | attached : Performed env s .attachFinalizer { s with attached := true }
  | registered : Performed env s .registerBlueprint (noteBlueprint (addBlueprint s))
  | activated : Performed env s .activatePreparedStart
      { s with
        activated := env.activates
        registryCalls := s.registryCalls ++ s.prepared.toList.map .activatePreparedStart }

theorem performed (h : i.perform env s = .ok s') : Performed env s i s' := by
  cases i with
  | checkInitialized | validateRegistry | ensureExecutorRoutesAvailable
  | ensureBlueprintNameAvailable | ensureCliAvailable =>
    obtain ⟨_,-,h⟩ := bind_ok_iff.mp h
    cases h
    exact .idle rfl
  | fromMapping =>
    obtain ⟨config,-,h⟩ := bind_ok_iff.mp h
    cases h
    exact .configured config
  | registerCli =>
    obtain ⟨_,hcli,h⟩ := bind_ok_iff.mp h
    cases h
    cases hc : s.app.command with
    | none =>
      simp only [Extension.registerCli,hc]
      exact .commandAdded hc
    | some c =>
      simp only [Extension.registerCli,hc]
      cases c with
      | xxljobCli b => exact .commandKept b hc
      | other n => simp [Extension.ensureCliAvailable,hc] at hcli
  | publishRuntime =>
    simp only [perform,Extension.publishRuntime] at h
    split at h <;> cases h
    exact .installed
  | callbackRegistry | seedFrom | adminClient | callbackClient | logInitialized | logCancelled =>
    cases h
    exact .idle rfl
  | _ =>
    cases h
    constructor

namespace Performed
variable (h : Performed env s i s')
include h

theorem locals : s'.logManager = (if i = .logManager then some true else s.logManager) ∧
    s'.registryService = (decide (i = .registryService) || s.registryService) ∧
    s'.runtime = (decide (i = .runtime) || s.runtime) ∧
    s'.finalizer = (if i = .installRuntimeFinalizer then some true else s.finalizer) ∧
    s'.recorded = (decide (i = .addApplication) || s.recorded) ∧
    s'.applicationAdded = (decide (i = .addApplication) || s.applicationAdded) ∧
    s'.attached = (decide (i = .attachFinalizer) || s.attached) := by
  cases h with
  | idle hi => cases i <;> simp [isIdle] at hi ⊢
  | registered =>
    simp only [addBlueprint]
    split <;> simp [noteBlueprint]
  | _ => simp

theorem extension :
    s'.app.extension = if i = .publishRuntime then some .own else s.app.extension := by
  cases h with
  | idle hi => cases i <;> simp [isIdle] at hi ⊢
  | registered =>
    simp only [addBlueprint]
    split <;> simp [noteBlueprint,App.extension]
  | _ => simp [App.extension]

/-- The command and the flag change where this call adds the command. -/
theorem command : (i = .registerCli ∧ s.app.command = none ∧
      s'.app.command = some (.xxljobCli true) ∧ s'.cliAdded = true) ∨
    (i = .registerCli ∧ (∃ b, s.app.command = some (.xxljobCli b)) ∧
      s'.app.command = s.app.command ∧ s'.cliAdded = false) ∨
    (i ≠ .registerCli ∧ s'.app.command = s.app.command ∧ s'.cliAdded = s.cliAdded) := by
  cases h with
  | idle hi => cases i <;> simp [isIdle] at hi ⊢
  | commandAdded hc => exact Or.inl ⟨rfl,hc,rfl,rfl⟩
  | commandKept b hc => exact Or.inr (Or.inl ⟨rfl,⟨b,hc⟩,rfl,rfl⟩)
  | registered =>
    simp only [addBlueprint]
    split <;> simp [noteBlueprint]
  | _ => simp

/-- The Blueprint that a step builds or registers. -/
theorem blueprint : (i ≠ .fromMapping → s'.config = s.config) ∧
    (if i = .buildBlueprint then s'.blueprint.isSome = true else s'.blueprint = s.blueprint) ∧
    (if i = .registerBlueprint then s.blueprint.isSome = true → s'.app.isPublished = true
      else s'.app.isPublished = s.app.isPublished) ∧
    s'.blueprintPublished =
      if i = .registerBlueprint then s'.app.isPublished else s.blueprintPublished := by
  cases h with
  | idle hi => cases i <;> simp [isIdle] at hi ⊢
  | registered =>
    simp only [addBlueprint]
    split <;> simp_all [noteBlueprint,App.isPublished]
  | _ => simp [App.isPublished]

theorem token : s'.prepared = (if i = .prepareStart then some 0 else s.prepared) ∧
    s'.registryCalls = s.registryCalls ++
      (if i = .prepareStart then [.prepareStart]
        else if i = .activatePreparedStart then s.prepared.toList.map .activatePreparedStart
        else []) ∧
    s'.activated = if i = .activatePreparedStart then env.activates else s.activated := by
  cases h with
  | idle hi => cases i <;> simp [isIdle] at hi ⊢
  | registered =>
    simp only [addBlueprint]
    split <;> simp [noteBlueprint]
  | _ => simp

end Performed

end InitStep

/-! ### The state between two steps -/

theorem plan_nodup : plan.Nodup := by decide

/-- A step of the plan determines what comes after it. -/
theorem rest_eq {i : InitStep} {rest : List InitStep} (h : i :: rest <:+ plan) :
    rest = (plan.dropWhile (· != i)).tail := by
  obtain ⟨done,hd⟩ := h
  have hi : ∀ j ∈ done, j != i := by
    intro j hj
    have hn := plan_nodup
    rw [← hd,List.nodup_append] at hn
    simpa using hn.2.2 j hj i (by simp)
  rw [← hd,List.dropWhile_append_of_pos hi]
  simp

theorem Token.tail {env : Env} {i : InitStep} {rest : List InitStep} {s : InitState}
    (h : Token env (i :: rest) s) (hi : i = .activatePreparedStart → s.prepared = none) :
    Token env rest s := by
  cases h with
  | absent hp hc => exact .absent hp hc
  | prepared hp hc hn hen ha =>
    refine .prepared hp hc (fun h => hn (List.mem_cons_of_mem _ h)) hen
      ((List.mem_cons.mp ha).resolve_left fun he => ?_)
    cases hp.symm.trans (hi he.symm)
  | activated hp hc hn hen hact =>
    exact .activated hp hc (fun h => hn (List.mem_cons_of_mem _ h)) hen hact

namespace Progress
variable {env : Env} {app : App} {recorded : Bool} {i : InitStep} {rest : List InitStep}
  {s s' : InitState}

theorem found (h : Progress env app recorded (i :: rest) s) (hf : Foreign (env.interfere i)) :
    Progress env app recorded (i :: rest) (i.found env s) where
  suffix := h.suffix
  logManager := h.logManager
  registryService := h.registryService
  runtime := h.runtime
  finalizer := h.finalizer
  recorded := h.recorded
  added := h.added
  attached := h.attached
  token := by
    cases h.token with
    | absent hp hc => exact .absent hp hc
    | prepared hp hc hi hen ha => exact .prepared hp hc hi hen ha
    | activated hp hc hi hen hact => exact .activated hp hc hi hen hact
  started := h.started
  extension he := h.extension (hf.extension _ he)
  installed hq hi := by
    have := h.installed hq hi
    simpa [InitStep.found,App.extension,hq] using this
  command hc := h.command (hf.command _ _ hc)
  present hc := h.present (hf.command _ _ hc)
  unadded := h.unadded
  preexisting hq c hc := (hq i s.app).trans (h.preexisting hq c hc)
  registered hq hi := by
    obtain ⟨b,hb⟩ := h.registered hq hi
    exact ⟨b,(hq _ s.app).trans hb⟩
  built := h.built
  published := (hf.published s.app).trans h.published
  noted := h.noted.trans (hf.published s.app).symm

theorem skip (h : Progress env app recorded (i :: rest) s) (hi : i.taken s = false) :
    Progress env app recorded rest s := by
  have hne : ∀ j : InitStep, (∀ s, j.taken s = true) → (j ∈ i :: rest ↔ j ∈ rest) := by
    intro j hj
    rw [List.mem_cons,or_iff_right]
    rintro rfl
    exact Bool.noConfusion (hi.symm.trans (hj s))
  exact {
    suffix := (List.suffix_cons i rest).trans h.suffix
    logManager := by simpa only [hne .logManager fun _ => rfl] using h.logManager
    registryService := by simpa only [hne .registryService fun _ => rfl] using h.registryService
    runtime := by simpa only [hne .runtime fun _ => rfl] using h.runtime
    finalizer := by simpa only [hne .installRuntimeFinalizer fun _ => rfl] using h.finalizer
    recorded := h.recorded
    added := by simpa only [hne .addApplication fun _ => rfl] using h.added
    attached := by simpa only [hne .attachFinalizer fun _ => rfl] using h.attached
    token := h.token.tail fun he => by
      subst he
      simpa [InitStep.taken] using hi
    started := fun hn hen hauto => by
      refine h.started (fun hm => ?_) hen hauto
      rcases List.mem_cons.mp hm with rfl | hm
      · simp [InitStep.taken,hen,hauto] at hi
      · exact hn hm
    extension := by simpa only [hne .publishRuntime fun _ => rfl] using h.extension
    installed := by simpa only [hne .publishRuntime fun _ => rfl] using h.installed
    command := by simpa only [hne .registerCli fun _ => rfl] using h.command
    present := h.present
    unadded := by simpa only [hne .registerCli fun _ => rfl] using h.unadded
    preexisting := h.preexisting
    registered := by simpa only [hne .registerCli fun _ => rfl] using h.registered
    built := fun hb hen => by
      refine h.built (fun hm => ?_) hen
      rcases List.mem_cons.mp hm with rfl | hm
      · simp [InitStep.taken,hen] at hi
      · exact hb hm
    published := by
      rw [h.published]
      cases hen : s.config.enabled with
      | false => rfl
      | true =>
        have : .registerBlueprint ≠ i := by
          rintro rfl
          simp [InitStep.taken,hen] at hi
        simp [this]
    noted := h.noted }

theorem token_step (h : Progress env app recorded (i :: rest) s)
    (hp : InitStep.Performed env s i s')
    (ht : i.taken s = true) : Token env rest s' := by
  have hrest := rest_eq h.suffix
  obtain ⟨hprep,hcalls,hdone⟩ := hp.token
  obtain ⟨hcfg,-⟩ := hp.blueprint
  by_cases hi : i = .prepareStart
  · subst hi
    have hen : s.config.enabled = true ∧ s.config.autoRegister = true := by
      simpa only [InitStep.taken,Bool.and_eq_true] using ht
    have hnil : s.registryCalls = [] := by
      cases h.token with
      | absent _ hc => exact hc
      | prepared _ _ hi => simp at hi
      | activated _ _ hi =>
        refine absurd (List.mem_cons_of_mem _ ?_) hi
        rw [hrest]
        decide
    refine .prepared (by simpa using hprep) (by simpa [hnil] using hcalls) ?_
      (by rw [hcfg (by decide)]; exact hen) ?_
    · rw [hrest]
      decide
    · rw [hrest]
      decide
  rw [if_neg hi] at hprep hcalls
  by_cases ha : i = .activatePreparedStart
  · subst ha
    rw [if_pos rfl] at hcalls hdone
    have hnot : .activatePreparedStart ∉ rest := by
      rw [hrest]
      decide
    cases h.token with
    | absent hn => simp [InitStep.taken,hn] at ht
    | prepared hn hc _ hen _ =>
      exact .activated (hprep.trans hn) (by simpa [hn,hc] using hcalls) hnot
        (by rw [hcfg (by decide)]; exact hen) hdone
    | activated _ _ hi => simp at hi
  rw [if_neg ha,List.append_nil] at hcalls
  rw [if_neg ha] at hdone
  by_cases hm : i = .fromMapping
  · subst hm
    cases h.token with
    | absent hn hc => exact .absent (hprep.trans hn) (hcalls.trans hc)
    | prepared _ _ hi =>
      refine absurd (List.mem_cons_of_mem _ ?_) hi
      rw [hrest]
      decide
    | activated _ _ hi =>
      refine absurd (List.mem_cons_of_mem _ ?_) hi
      rw [hrest]
      decide
  cases h.token.tail (fun he => absurd he ha) with
  | absent hn hc => exact .absent (hprep.trans hn) (hcalls.trans hc)
  | prepared hn hc hi hen hact =>
    exact .prepared (hprep.trans hn) (hcalls.trans hc) hi (by rw [hcfg hm]; exact hen) hact
  | activated hn hc hi hen hact =>
    exact .activated (hprep.trans hn) (hcalls.trans hc) hi (by rw [hcfg hm]; exact hen)
      (hdone.trans hact)

theorem performed (h : Progress env app recorded (i :: rest) s)
    (hp : InitStep.Performed env s i s') (ht : i.taken s = true) :
    Progress env app recorded rest s' := by
  have hrest := rest_eq h.suffix
  have hself : i ∉ rest := by
    obtain ⟨done,hd⟩ := h.suffix
    have hn := plan_nodup
    rw [← hd,List.nodup_append] at hn
    exact (List.nodup_cons.mp hn.2.1).1
  have hmap : i = .fromMapping →
      .buildBlueprint ∈ rest ∧ .registerBlueprint ∈ rest ∧ .prepareStart ∈ rest := by
    rintro rfl
    rw [hrest]
    decide
  have hreg : i = .registerBlueprint → .buildBlueprint ∉ rest ∧ s.config.enabled = true := by
    rintro rfl
    refine ⟨?_,ht⟩
    rw [hrest]
    decide
  obtain ⟨hlog,hservice,hruntime,hfin,hrec,hadd,hatt⟩ := hp.locals
  obtain ⟨hcfg,hblue,hpub,hnote⟩ := hp.blueprint
  refine {
    suffix := (List.suffix_cons i rest).trans h.suffix
    logManager := ?_
    registryService := ?_
    runtime := ?_
    finalizer := ?_
    recorded := ?_
    added := ?_
    attached := ?_
    token := h.token_step hp ht
    started := ?_
    extension := ?_
    installed := ?_
    command := ?_
    present := ?_
    unadded := ?_
    preexisting := ?_
    registered := ?_
    built := ?_
    published := ?_
    noted := ?_ }
  · rw [hlog,h.logManager]
    grind
  · rw [hservice,h.registryService]
    grind
  · rw [hruntime,h.runtime]
    grind
  · rw [hfin,h.finalizer]
    grind
  · rw [hrec,hadd,h.recorded]
    grind
  · rw [hadd,h.added]
    grind
  · rw [hatt,h.attached]
    grind
  · rw [hp.token.1]
    have := h.started
    grind
  · rw [hp.extension]
    have := h.extension
    grind
  · rw [hp.extension]
    have := h.installed
    grind
  · have := h.command
    rcases hp.command with ⟨hi,-,hc,ha⟩ | ⟨hi,hc,hk,-⟩ | ⟨hi,hk,ha⟩
    · exact fun _ => ⟨ha,hi ▸ hself⟩
    · intro hadded
      exact absurd (by simp [hi]) (this (hk ▸ hadded)).2
    · intro hadded
      obtain ⟨hcli,hn⟩ := this (hk ▸ hadded)
      exact ⟨ha.trans hcli,fun hr => hn (List.mem_cons_of_mem _ hr)⟩
  · intro hpresent
    rcases hp.command with ⟨-,-,hc,-⟩ | ⟨-,-,-,ha⟩ | ⟨-,hk,ha⟩
    · cases hc.symm.trans hpresent
    · exact ha
    · exact ha.trans (h.present (hk ▸ hpresent))
  · intro hr
    rcases hp.command with ⟨hi,-⟩ | ⟨-,-,-,ha⟩ | ⟨-,-,ha⟩
    · exact absurd (hi ▸ hr) hself
    · exact ha
    · exact ha.trans (h.unadded (List.mem_cons_of_mem _ hr))
  · intro hq c hc
    have hold := h.preexisting hq c hc
    rcases hp.command with ⟨-,hnone,-⟩ | ⟨-,-,hk,-⟩ | ⟨-,hk,-⟩
    · rw [hnone] at hold
      cases hold
    · exact hk.trans hold
    · exact hk.trans hold
  · intro hq hn
    rcases hp.command with ⟨-,-,hc,-⟩ | ⟨-,⟨b,hb⟩,hk,-⟩ | ⟨hi,hk,-⟩
    · exact ⟨true,hc⟩
    · exact ⟨b,hk.trans hb⟩
    · obtain ⟨b,hb⟩ := h.registered hq fun hm =>
        hn ((List.mem_cons.mp hm).resolve_left (Ne.symm hi))
      exact ⟨b,hk.trans hb⟩
  · have := h.built
    grind
  · have := h.published
    have := h.built
    grind
  · rw [hnote]
    have := h.noted
    grind

theorem step (hf : ∀ i, Foreign (env.interfere i)) (h : Progress env app recorded (i :: rest) s)
    (hr : i.run env s = (none,s')) : Progress env app recorded rest s' := by
  have hfound := h.found (hf i)
  simp only [InitStep.run] at hr
  split at hr
  next ht =>
    split at hr
    · cases hr
    · split at hr
      · cases hr
      next hp =>
        cases hr
        exact hfound.performed (InitStep.performed hp) ht
  next ht =>
    cases hr
    exact hfound.skip (Bool.eq_false_iff.mpr ht)

theorem initial (env : Env) {app : App} (h : app.Untouched) (recorded : Bool) :
    Progress env app recorded plan { app, recorded } where
  suffix := List.suffix_rfl
  logManager := rfl
  registryService := rfl
  runtime := rfl
  finalizer := rfl
  recorded := by simp
  added := rfl
  attached := rfl
  token := .absent rfl rfl
  started hn := absurd (by decide) hn
  extension he := absurd he h.extension
  installed _ hn := absurd (by decide) hn
  command hc := absurd hc h.command
  present _ := rfl
  unadded _ := rfl
  preexisting _ _ hc := hc
  registered _ hn := absurd (by decide) hn
  built hn := absurd (by decide) hn
  published := h.published
  noted := h.published.symm

end Progress

/-! ### The state at the step that raises -/

/-- What a call owns when one of its steps has raised. -/
structure Owned (env : Env) (app : App) (recorded : Bool) (s : InitState) : Prop where
  extension : s.app.extension = some .own → s.runtime = true
  command : s.app.command = some (.xxljobCli true) → s.cliAdded = true
  present : s.app.command = some (.xxljobCli false) → s.cliAdded = false
  preexisting : (∀ i a, (env.interfere i a).command = a.command) →
    ∀ c, app.command = some c → s.app.command = some c
  recorded : s.recorded = true → recorded = true ∨ s.applicationAdded = true
  prepared : ∀ p, s.prepared = some p → p = 0 ∧ s.registryService = true
  calls : s.registryCalls = [] ∨ s.registryCalls = [.prepareStart] ∨
    s.registryCalls = [.prepareStart,.activatePreparedStart 0] ∧ s.app.isPublished = true
  noted : s.blueprintPublished = s.app.isPublished
  published : s.app.isPublished = true → s.recorded = true ∧ s.attached = true ∧
    s.finalizer = some true ∧ s.logManager = some true ∧
    ((∀ i a, (env.interfere i a).extensions = a.extensions) → s.app.extension = some .own)

/-! What comes before what in the plan. -/

theorem preflight_first : ∀ i ∈ preflight, ∀ j ∈ preparation ++ commit,
    j ∈ (plan.dropWhile (· != i)).tail := by decide

theorem register_last : ∀ i ∈ preflight ++ preparation,
    .registerBlueprint ∈ (plan.dropWhile (· != i)).tail := by decide

theorem runtime_before : ∀ rem ∈ plan.tails, .publishRuntime ∉ rem → .runtime ∉ rem := by decide

theorem service_before : ∀ rem ∈ plan.tails, .prepareStart ∉ rem → .registryService ∉ rem := by
  decide

theorem register_before : ∀ rem ∈ plan.tails,
    .activatePreparedStart ∉ rem → .prepareStart ∉ rem ∧ .registerBlueprint ∉ rem := by decide

theorem attach_before : ∀ rem ∈ plan.tails,
    .registerBlueprint ∉ rem ∨ rem.head? = some .registerBlueprint → .attachFinalizer ∉ rem := by
  decide

theorem commit_before : ∀ rem ∈ plan.tails, .attachFinalizer ∉ rem →
    .addApplication ∉ rem ∧ .publishRuntime ∉ rem ∧ .installRuntimeFinalizer ∉ rem ∧
      .logManager ∉ rem := by decide

namespace Progress
variable {env : Env} {app : App} {recorded : Bool} {i : InitStep} {rem rest : List InitStep}
  {s s' : InitState}

theorem mem_tails (h : Progress env app recorded rem s) : rem ∈ plan.tails :=
  (List.mem_tails _ _).mpr h.suffix

/-- What has to be done before the Blueprint may be registered. -/
theorem committed (h : Progress env app recorded rem s) (hn : .attachFinalizer ∉ rem) :
    s.recorded = true ∧ s.attached = true ∧ s.finalizer = some true ∧ s.logManager = some true ∧
      ((∀ i a, (env.interfere i a).extensions = a.extensions) → s.app.extension = some .own) := by
  obtain ⟨hadd,hpub,hfin,hlog⟩ := commit_before rem h.mem_tails hn
  refine ⟨?_,?_,?_,?_,fun hq => h.installed hq hpub⟩
  · rw [h.recorded,h.added]
    simp [hadd]
  · rw [h.attached]
    simp [hn]
  · rw [h.finalizer,if_neg hfin]
  · rw [h.logManager,if_neg hlog]

theorem owned (h : Progress env app recorded rem s) : Owned env app recorded s := by
  have hrun := runtime_before rem h.mem_tails
  have hserv := service_before rem h.mem_tails
  have hact := register_before rem h.mem_tails
  have hreg := attach_before rem h.mem_tails
  refine ⟨fun he => ?_,fun hc => (h.command hc).1,h.present,h.preexisting,fun hr => ?_,
    fun p hp => ?_,?_,h.noted,fun hpub => h.committed (hreg (Or.inl fun hn => ?_))⟩
  · rw [h.runtime]
    simpa using hrun (h.extension he)
  · rwa [h.recorded,Bool.or_eq_true] at hr
  · cases h.token with
    | absent hn => cases hn.symm.trans hp
    | prepared hs _ hn =>
      refine ⟨Option.some.inj (hp.symm.trans hs),?_⟩
      rw [h.registryService]
      simpa using hserv hn
    | activated hs _ hn =>
      refine ⟨Option.some.inj (hp.symm.trans hs),?_⟩
      rw [h.registryService]
      simpa using hserv (hact hn).1
  · cases h.token with
    | absent _ hc => exact Or.inl hc
    | prepared _ hc => exact Or.inr (Or.inl hc)
    | activated _ hc hn hen =>
      refine Or.inr (Or.inr ⟨hc,?_⟩)
      rw [h.published,hen.1]
      simpa using (hact hn).2
  · rw [h.published] at hpub
    simp [hn] at hpub

/-- A step that raises may have recorded its intent, or published the Blueprint. -/
theorem raised (hf : ∀ i, Foreign (env.interfere i)) (h : Progress env app recorded (i :: rest) s)
    {e : InitError} (hr : i.run env s = (some e,s')) : Owned env app recorded s' := by
  have hfound := h.found (hf i)
  have howned := hfound.owned
  rcases InitStep.run_raised hr with rfl | rfl
  · exact howned
  cases i with
  | addApplication => exact { howned with recorded := fun _ => Or.inr rfl }
  | registerBlueprint =>
    have hdone := hfound.committed (attach_before _ hfound.mem_tails (Or.inr rfl))
    have hcalls : ∀ b, (InitStep.found env .registerBlueprint s).registryCalls = [] ∨
        (InitStep.found env .registerBlueprint s).registryCalls = [.prepareStart] ∨
        (InitStep.found env .registerBlueprint s).registryCalls =
          [.prepareStart,.activatePreparedStart 0] ∧ b = true := by
      intro b
      rcases howned.calls with hc | hc | ⟨-,hpub⟩
      · exact Or.inl hc
      · exact Or.inr (Or.inl hc)
      · rw [hfound.published] at hpub
        simp at hpub
    simp only [InitStep.abandon]
    split
    · unfold addBlueprint
      split
      · exact { howned with noted := rfl, published := fun _ => hdone, calls := hcalls _ }
      · exact { howned with noted := rfl, published := fun _ => hdone, calls := hcalls _ }
    · exact { howned with noted := rfl, published := fun _ => hdone, calls := hcalls _ }
  | _ => exact howned

end Progress

end FlaskXxlJob.Extension
