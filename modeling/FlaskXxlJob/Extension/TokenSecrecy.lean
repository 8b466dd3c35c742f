import FlaskXxlJob.Client.AdminClient
import FlaskXxlJob.Config.ExecutorAddress
import FlaskXxlJob.Extension.Callbacks
import FlaskXxlJob.Logging.Redaction
import FlaskXxlJob.Registry.Disclosure

/-!
The access token in the results that the extension returns. A result shows the rendering of the
outcome that decided its call; only the results of an operation are redacted.
-/
namespace FlaskXxlJob.Extension
open Python Config Client Logging Interleaving

variable (cfg : XXLJobConfig)

/-- Nothing of what the program or the configuration puts into a result mentions the token. -/
structure Unmentioned : Prop where
  texts : ∀ text ∈ fixedTexts, ¬ Contains text cfg.accessToken
  addresses : ∀ a ∈ cfg.adminAddresses, ¬ Contains a cfg.accessToken

/-- An outcome that decides the calls of this configuration. -/
def DecidesCall (outcomes : ℕ → PostOutcome) (outcome : PostOutcome) : Prop :=
  cfg.enabled = true ∧ cfg.adminAddresses ≠ [] ∧
    Decides (.fromConfig cfg) cfg.adminAddresses.length outcomes outcome

/-- The rendering of the deciding outcome does not show the token. -/
def Silent (outcomes : ℕ → PostOutcome) : Prop :=
  ∀ outcome, DecidesCall cfg outcomes outcome → outcome.Silent cfg.accessToken

variable {cfg}

/-! ### Single calls -/

section Calls
variable (h : Unmentioned cfg) (elapsed : ℕ → ℤ) {outcomes : ℕ → PostOutcome}
  (hbodies : BodiesOmit cfg.accessToken outcomes)
include h hbodies

theorem adminCall_omits_iff (hen : cfg.enabled = true) (apiPath : String) (payload : Value) :
    (postToAdmins (adminArguments cfg apiPath payload) elapsed outcomes).1.Omits cfg.accessToken ↔
      Silent cfg outcomes := by
  rw [postToAdmins_omits_iff h.texts (adminArguments cfg apiPath payload) elapsed outcomes
    h.addresses hbodies]
  constructor
  · rintro hs outcome ⟨-,hne,hd⟩
    exact hs hne outcome hd
  · intro hs hne outcome hd
    exact hs outcome ⟨hen,hne,hd⟩

omit hbodies in
theorem disabled_omits_iff (hen : cfg.enabled = false) :
    disabledResult.Omits cfg.accessToken ↔ Silent cfg outcomes := by
  constructor
  · rintro - outcome ⟨hen',-⟩
    simp [hen] at hen'
  · intro _
    exact disabledResult_fixed.omits h.texts

theorem callAdmin_omits_iff (apiPath : String) (request : RegistryRequest) :
    (callAdmin cfg elapsed outcomes apiPath request).Omits cfg.accessToken ↔
      Silent cfg outcomes := by
  cases hen : cfg.enabled with
  | false =>
    rw [callAdmin,if_pos hen]
    exact disabled_omits_iff h hen
  | true =>
    rw [callAdmin,if_neg (by simp [hen])]
    exact adminCall_omits_iff h elapsed hbodies hen apiPath _

theorem client_callbackMany_omits_iff {items : List CallbackItem} {r : CallResult}
    (hr : (Client.callbackMany cfg elapsed outcomes items).outcome = .ok r) :
    r.Omits cfg.accessToken ↔ Silent cfg outcomes := by
  rw [Client.callbackMany] at hr
  split at hr
  next hen =>
    cases hr
    exact disabled_omits_iff h hen
  next hen =>
  split at hr
  next => cases hr
  next =>
  split at hr
  next => cases hr
  next =>
  split at hr
  next => cases hr
  next requests _ =>
    cases hr
    exact adminCall_omits_iff h elapsed hbodies (by simpa using hen) callbackPath _

theorem client_callback_omits_iff {logId logDateTime handleCode handleMsg : Value}
    {r : CallResult} (hr : (Client.callback cfg elapsed outcomes logId logDateTime handleCode
      handleMsg).outcome = .ok r) : r.Omits cfg.accessToken ↔ Silent cfg outcomes := by
  rw [Client.callback] at hr
  split at hr
  next hen =>
    cases hr
    exact disabled_omits_iff h hen
  next => exact client_callbackMany_omits_iff h elapsed hbodies hr

theorem callbackMany_omits_iff {items : List CallbackItem} {r : CallResult}
    (hr : callbackMany cfg elapsed outcomes items = .ok r) :
    r.Omits cfg.accessToken ↔ Silent cfg outcomes :=
  client_callbackMany_omits_iff h elapsed hbodies (mapError_ok hr)

theorem callback_omits_iff {logId logDateTime handleCode handleMsg : Value} {r : CallResult}
    (hr : callback cfg elapsed outcomes logId logDateTime handleCode handleMsg = .ok r) :
    r.Omits cfg.accessToken ↔ Silent cfg outcomes := by
  have hclient : (Client.callback cfg elapsed outcomes logId logDateTime handleCode
      handleMsg).outcome = .ok r := by
    obtain ⟨_,-,hr⟩ := bind_ok_iff.mp hr
    exact mapError_ok hr
  exact client_callback_omits_iff h elapsed hbodies hclient

end Calls

/-! ### Runs of the Registry service -/

/-- How an RPC of the service ends: in the Admin client, or in an exception it does not handle. -/
inductive Transport where
  | posts (elapsed : ℕ → ℤ) (outcomes : ℕ → PostOutcome)
  | raises (errorType : String)

/-- The text omits the token however often it is redacted. -/
def Redacts (re : Patterns) (token text : String) : Prop :=
  ∀ n, ¬ Contains ((redactText re · token)^[n + 1] text) token

/-- A redactable token does not come back. -/
theorem redacts_of_redactable {token : String} (h : Redactable token) (re : Patterns)
    (text : String) : Redacts re token text := by
  intro n
  rw [Function.iterate_succ_apply']
  exact h.not_contains re _

variable (cfg) in
/-- What the service gets from `_call_registry`. -/
def Transport.outcome (remove : Bool) : Transport → Registry.AdminOutcome
  | .posts elapsed outcomes => .returned
      (if remove then AdminClient.registryRemove cfg elapsed outcomes (buildRequest cfg)
      else AdminClient.registry cfg elapsed outcomes (buildRequest cfg))
  | .raises errorType => .raised errorType

variable (cfg) in
def Transport.BodiesOmit : Transport → Prop
  | .posts _ outcomes => Client.BodiesOmit cfg.accessToken outcomes
  | .raises _ => True

variable (cfg) in
def Transport.Silent : Transport → Prop
  | .posts _ outcomes => Extension.Silent cfg outcomes
  | .raises _ => True

variable (cfg) in
/-- What the deciding outcome shows is redacted for good. -/
def Transport.Redacted (re : Patterns) : Transport → Prop
  | .posts _ outcomes => ∀ outcome, DecidesCall cfg outcomes outcome → ∀ text,
      outcome.rendering = some text ∨ outcome.message = some text →
      Redacts re cfg.accessToken text
  | .raises _ => True

/-- The service of this configuration. -/
def registryConfig (cfg : XXLJobConfig) (re : Patterns) (registryError : Option String) :
    Registry.Config where
  enabled := cfg.enabled
  registryError := registryError
  redact := (redactText re · cfg.accessToken)

/-- The RPC on top of a stack ends in a transport whose answers do not mention the token. What its
caller returns as it is must be silent, what an operation keeps must be redacted for good. -/
def Discreet (cfg : XXLJobConfig) (re : Patterns) (s : Registry.System) :
    Action Registry.Choice Registry.Call → Prop
  | .call _ => True
  | .run t ch => ∀ call rest, s.code t = .rpc call :: rest → ∃ transport : Transport,
      ch.outcome = transport.outcome cfg call.isRemove ∧ transport.BodiesOmit cfg ∧
      match call with
      | .register .. | .remove => transport.Silent cfg
      | .active _ => transport.Redacted cfg re
      | .worker _ => True

theorem unexpectedResult_fixed (call : Registry.RpcCall) (errorType : String) :
    (call.outcome (.raised errorType)).Fixed := by
  cases hr : call.isRemove with
  | true =>
    refine ⟨⟨"Unexpected error during XXL-JOB executor removal.",by simp [fixedTexts],?_⟩,rfl,rfl⟩
    simp only [Registry.RpcCall.outcome,Registry.unexpectedResult,hr]
    rfl
  | false =>
    refine ⟨⟨"Unexpected error during XXL-JOB executor registration.",by simp [fixedTexts],?_⟩,
      rfl,rfl⟩
    simp only [Registry.RpcCall.outcome,Registry.unexpectedResult,hr]
    rfl

/-- An Admin call shows a fixed text, or one of the addresses and its deciding outcome. -/
theorem callAdmin_cases (elapsed : ℕ → ℤ) (outcomes : ℕ → PostOutcome) (apiPath : String)
    (request : RegistryRequest) : (callAdmin cfg elapsed outcomes apiPath request).Fixed ∨
      ∃ address ∈ cfg.adminAddresses, ∃ outcome, DecidesCall cfg outcomes outcome ∧
        (callAdmin cfg elapsed outcomes apiPath request).From address outcome := by
  rw [callAdmin]
  split
  next => exact Or.inl disabledResult_fixed
  next hen =>
    by_cases hempty : cfg.adminAddresses = []
    · have hargs : (adminArguments cfg apiPath request.toWire).adminAddresses = [] := hempty
      rw [postToAdmins_empty _ elapsed outcomes hargs]
      exact Or.inl noAddress_fixed
    · obtain ⟨a,ha,outcome,hd,-,hfrom⟩ := postToAdmins_from
        (adminArguments cfg apiPath request.toWire) elapsed outcomes hempty
      exact Or.inr ⟨a,ha,outcome,⟨by simpa using hen,hempty,hd⟩,hfrom⟩

section Runs
variable (h : Unmentioned cfg) {re : Patterns} {registryError : Option String}
include h

theorem silent_rpc_omits {call : Registry.RpcCall} {transport : Transport} {b : Bool}
    (hbodies : transport.BodiesOmit cfg) (hs : transport.Silent cfg) :
    (call.outcome (transport.outcome cfg b)).Omits cfg.accessToken := by
  cases transport with
  | raises e => exact (unexpectedResult_fixed call e).omits h.texts
  | posts elapsed outcomes =>
    cases b with
    | true => exact (callAdmin_omits_iff h elapsed hbodies _ _).mpr hs
    | false => exact (callAdmin_omits_iff h elapsed hbodies _ _).mpr hs

variable (hfixed : ∀ text ∈ fixedTexts, Redacts re cfg.accessToken text)
include hfixed

omit h in
theorem fixed_keeps {r : CallResult} (hr : r.Fixed) :
    (registryConfig cfg re registryError).Keeps cfg.accessToken
      ((registryConfig cfg re registryError).safeResult r) := by
  obtain ⟨fixed,hmem,herror⟩ := hr.error
  apply Registry.Config.Keeps.of_texts
  · intro text ha
    simp [hr.address] at ha
  · rintro text (ht | ht)
    · obtain rfl : fixed = text := Option.some.inj (herror.symm.trans ht)
      exact hfixed fixed hmem
    · simp [hr.msg] at ht

theorem callAdmin_keeps {elapsed : ℕ → ℤ} {outcomes : ℕ → PostOutcome} {apiPath : String}
    {request : RegistryRequest} (hred : (Transport.posts elapsed outcomes).Redacted cfg re) :
    (registryConfig cfg re registryError).Keeps cfg.accessToken
      ((registryConfig cfg re registryError).safeResult
        (callAdmin cfg elapsed outcomes apiPath request)) := by
  rcases callAdmin_cases elapsed outcomes apiPath request with hr | ⟨a,ha,outcome,hd,hfrom⟩
  · exact fixed_keeps hfixed hr
  · apply Registry.Config.Keeps.of_texts
    · intro text ht
      rw [hfrom.address] at ht
      exact Option.some.inj ht ▸ h.addresses a ha
    · rintro text (ht | ht)
      · rcases hfrom.error text ht with hrender | hmem
        · exact hred outcome hd text (Or.inl hrender)
        · exact hfixed text hmem
      · exact hred outcome hd text (Or.inr (hfrom.msg text ht))

theorem redacted_rpc_keeps {call : Registry.RpcCall} {transport : Transport} {b : Bool}
    (hred : transport.Redacted cfg re) :
    (registryConfig cfg re registryError).Keeps cfg.accessToken
      ((registryConfig cfg re registryError).safeResult
        (call.outcome (transport.outcome cfg b))) := by
  cases transport with
  | raises e => exact fixed_keeps hfixed (unexpectedResult_fixed call e)
  | posts elapsed outcomes =>
    cases b with
    | true => exact callAdmin_keeps h hfixed hred
    | false => exact callAdmin_keeps h hfixed hred

/-- A discreet step brings the token into nothing that is stored or returned. -/
theorem Discreet.admissible {s : Registry.System} {a : Action Registry.Choice Registry.Call}
    (hd : Discreet cfg re s a) :
    Registry.Admissible (registryConfig cfg re registryError) cfg.accessToken s a := by
  cases a with
  | call c => trivial
  | run t ch =>
    have hstart : ∀ e, (Registry.startFailure e).Fixed := fun e =>
      ⟨⟨_,by simp [fixedTexts],rfl⟩,rfl,rfl⟩
    refine ⟨fun e _ => fixed_keeps hfixed (hstart e),fun call rest hc => ?_⟩
    obtain ⟨transport,hout,hbodies,hcond⟩ := hd call rest hc
    rw [hout]
    cases call with
    | register k g => exact silent_rpc_omits h hbodies hcond
    | remove => exact silent_rpc_omits h hbodies hcond
    | active o => exact redacted_rpc_keeps h hfixed hcond
    | worker c => trivial

theorem undisclosed {s : Registry.System}
    (hr : Run (Registry.step (registryConfig cfg re registryError)) (Discreet cfg re) .blank s) :
    Registry.Undisclosed (registryConfig cfg re registryError) cfg.accessToken s := by
  have hnone : Registry.removalWithoutResult.Fixed := ⟨⟨_,by simp [fixedTexts],rfl⟩,rfl,rfl⟩
  exact Registry.undisclosed_of_run (hnone.omits h.texts)
    (hr.mono fun _ _ hd => Discreet.admissible h hfixed hd)

end Runs

/-- When the results of the extension omit the access token. A single call's result does just
when its deciding outcome is silent, and a register returns the result of its own RPC. In every run
whose returned RPCs are silent and whose kept results are redacted for good, so do all results that
the service returns; a redactable token is always redacted for good. -/
theorem token_secrecy {cfg : XXLJobConfig} (h : Unmentioned cfg) :
    (∀ elapsed outcomes, BodiesOmit cfg.accessToken outcomes →
      (∀ request, (AdminClient.registry cfg elapsed outcomes request).Omits cfg.accessToken ↔
        Silent cfg outcomes) ∧
      (∀ request, (AdminClient.registryRemove cfg elapsed outcomes request).Omits cfg.accessToken ↔
        Silent cfg outcomes) ∧
      (∀ callbacks r, callbackMany cfg elapsed outcomes callbacks = .ok r →
        (r.Omits cfg.accessToken ↔ Silent cfg outcomes)) ∧
      ∀ logId logDateTime handleCode message r,
        callback cfg elapsed outcomes logId logDateTime handleCode message = .ok r ∨
        callbackSuccess cfg elapsed outcomes logId logDateTime message = .ok r ∨
        callbackFailure cfg elapsed outcomes logId logDateTime message = .ok r →
        (r.Omits cfg.accessToken ↔ Silent cfg outcomes)) ∧
    Registry.disabledResult.Omits cfg.accessToken ∧
    ∀ re registryError,
      (∀ s, Registry.Reachable (registryConfig cfg re registryError) s →
        ∀ t q g r, .registerReturned t q g r ∈ s.history →
          (⟨q,.register g,r⟩ : Registry.Rpc) ∈ s.rpcs) ∧
      (Redactable cfg.accessToken → ∀ text, Redacts re cfg.accessToken text) ∧
      ((∀ text ∈ fixedTexts, Redacts re cfg.accessToken text) →
        ∀ s, Run (Registry.step (registryConfig cfg re registryError)) (Discreet cfg re) .blank s →
          (∀ t q g r, .registerReturned t q g r ∈ s.history → r.Omits cfg.accessToken) ∧
          ∀ t r, .removeReturned t r ∈ s.history → r.Omits cfg.accessToken) := by
  refine ⟨fun elapsed outcomes hbodies => ⟨?_,?_,?_,?_⟩,?_,fun re registryError => ⟨?_,?_,?_⟩⟩
  · exact callAdmin_omits_iff h elapsed hbodies registryPath
  · exact callAdmin_omits_iff h elapsed hbodies registryRemovePath
  · exact fun _ _ hr => callbackMany_omits_iff h elapsed hbodies hr
  · rintro logId logDateTime handleCode message r (hr | hr | hr)
    · exact callback_omits_iff h elapsed hbodies hr
    · exact callback_omits_iff h elapsed hbodies hr
    · exact callback_omits_iff h elapsed hbodies hr
  · have hdisabled : Registry.disabledResult.Fixed := ⟨⟨_,by simp [fixedTexts],rfl⟩,rfl,rfl⟩
    exact hdisabled.omits h.texts
  · exact fun s hs _ _ _ _ hr => hs.register_returns hr
  · exact fun hred text => redacts_of_redactable hred re text
  · intro hfixed s hs
    have hun := undisclosed h hfixed hs
    exact ⟨fun _ _ _ _ hr => hun.returned _ hr,fun _ _ hr => hun.returned _ hr⟩

/-- A token with the given text, one Admin address, and everything else at its default. -/
def sampleConfig (accessToken : String) : XXLJobConfig where
  adminAddresses := ["http://localhost:8080"]
  accessToken := accessToken
  executorAddress := "http://localhost:9999"

theorem unmentioned_sample {accessToken : String}
    (h : ∀ text ∈ "http://localhost:8080" :: fixedTexts, ¬ Contains text accessToken) :
    Unmentioned (sampleConfig accessToken) where
  texts text ht := h text (List.mem_cons_of_mem _ ht)
  addresses a ha := h a (by simp_all [sampleConfig])

theorem token_secrecy_boom : ∃ r, callbackSuccess (sampleConfig "secret-token") (fun _ => 0)
    (fun _ => .requestException "ConnectionError" "boom") (.int 1) (.int 2) .none = .ok r ∧
    r.error = some "ConnectionError: boom" ∧ r.Omits "secret-token" := by
  have h : Unmentioned (sampleConfig "secret-token") := unmentioned_sample (by decide)
  have hsilent : Silent (sampleConfig "secret-token")
      fun _ => .requestException "ConnectionError" "boom" := by
    rintro outcome ⟨-,-,ps,last,-,rfl⟩ text ht
    obtain rfl := Option.some.inj ht
    decide
  have hcalls := (token_secrecy h).1 (fun _ => 0)
    (fun _ => .requestException "ConnectionError" "boom") (by rintro n msg ⟨⟩)
  refine ⟨_,rfl,rfl,?_⟩
  exact (hcalls.2.2.2 (.int 1) (.int 2) (.int 200) .none _ (Or.inr (Or.inl rfl))).mpr hsilent

/-- The exception `requests` raises for a header value with a leading blank quotes the value. -/
def invalidHeader (headerValue : String) : PostOutcome :=
  .requestException "InvalidHeader" ("Invalid leading whitespace, reserved character(s), or return " ++
    "character(s) in header value: '" ++ headerValue ++ "'")

/-- A configured token keeps its leading blank, and the exception that rejects it as a header value
is returned as it is. -/
theorem token_disclosed :
    fromMapping .localhost [("XXL_JOB_ACCESS_TOKEN",.str " secret"),
      ("XXL_JOB_ADMIN_ADDRESSES",.str "http://localhost:8080"),
      ("XXL_JOB_EXECUTOR_ADDRESS",.str "http://localhost:9999")] = .ok (sampleConfig " secret") ∧
    strip " secret" ≠ "" ∧ Unmentioned (sampleConfig " secret") ∧
    BodiesOmit " secret" (fun _ => invalidHeader " secret") ∧
    (∃ r, callbackSuccess (sampleConfig " secret") (fun _ => 0) (fun _ => invalidHeader " secret")
      (.int 1) (.int 2) .none = .ok r ∧ ¬ r.Omits " secret") ∧
    ∃ s r, Registry.Reachable (registryConfig (sampleConfig " secret") .cookie none) s ∧
      .registerReturned 0 1 0 r ∈ s.history ∧ ¬ r.Omits " secret" := by
  have hquoted : ∀ {r : CallResult} {text : String}, r.error = some text →
      Contains text " secret" → ¬ r.Omits " secret" := fun he hc ho => ho.error _ he hc
  have hcontains : Contains ("InvalidHeader: Invalid leading whitespace, reserved character(s), " ++
      "or return character(s) in header value: ' secret'") " secret" := by decide +kernel
  obtain ⟨s,hr,hp⟩ := Run.exists_of_schedule
    (f := Registry.step (registryConfig (sampleConfig " secret") .cookie none)) (s := .blank)
    (l := .call .registerExecutor :: List.replicate 7 (.run 0
      { outcome := (Transport.posts (fun _ => 0) fun _ => invalidHeader " secret").outcome
          (sampleConfig " secret") false }))
    (p := fun s => decide (.registerReturned 0 1 0 (AdminClient.registry (sampleConfig " secret")
      (fun _ => 0) (fun _ => invalidHeader " secret") (buildRequest (sampleConfig " secret"))) ∈
        s.history)) (by decide +kernel)
  refine ⟨rfl,by decide,unmentioned_sample (by decide),by rintro n msg ⟨⟩,⟨_,rfl,?_⟩,
    s,_,hr,of_decide_eq_true hp,?_⟩
  · exact hquoted rfl hcontains
  · exact hquoted rfl hcontains

end FlaskXxlJob.Extension
