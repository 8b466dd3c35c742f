import FlaskXxlJob.Protocol.Blueprint
import FlaskXxlJob.Python.Raising

/-!
Exactly which requests reach a callback, with what argument, and what every other request is
answered.
-/
namespace FlaskXxlJob.Protocol
open Python Streaming Callback Model Response

/-! ### Gates -/

/-- A blank configured token lets every request through. -/
def Authorized (configuredToken : String) (requestToken : Option String) : Prop :=
  strip configuredToken = "" ∨ requestToken = some configuredToken

theorem strip_empty : strip "" = "" := rfl

theorem checkAccessToken_iff (configuredToken : String) (requestToken : Option String) :
    checkAccessToken configuredToken requestToken = true ↔
      Authorized configuredToken requestToken := by
  unfold checkAccessToken Authorized
  by_cases hblank : strip configuredToken = ""
  · simp [hblank]
  · have hne : configuredToken ≠ "" := fun h => hblank (by rw [h, strip_empty])
    cases requestToken with
    | none => simp [hblank, hne]
    | some token => simp [hblank, hne, eq_comm]

variable {σ φ : Type} (R : Reader UInt8 σ) (loads : String → Loads) (cfg : Config)
  (registry : Slots φ) (request : Incoming σ)

/-- The body is a JSON object in UTF-8 within the size limit, declared and actual. -/
def Decodes (data : List (String × Value)) : Prop :=
  ∃ s text, request.body = .stream s ∧
    (∀ n, request.contentLength = some n → n ≤ cfg.maxRequestSize) ∧
    (R.left s).length ≤ cfg.maxRequestSize ∧ R.left s ≠ [] ∧
    decodeUtf8 (R.left s) = some text ∧ loads text = .value (.dict data)

theorem tokenOk_iff {u : Unit} :
    tokenOk cfg request = .ok u ↔ Authorized cfg.accessToken request.token := by
  unfold tokenOk
  rw [← checkAccessToken_iff]
  split <;> simp_all

theorem parseJsonObject_ok_iff (rawBody : List UInt8) (maxRequestSize : ℕ)
    (data : List (String × Value)) :
    parseJsonObject loads rawBody maxRequestSize = .ok data ↔
      rawBody ≠ [] ∧ rawBody.length ≤ maxRequestSize ∧
      ∃ text, decodeUtf8 rawBody = some text ∧ loads text = .value (.dict data) := by
  unfold parseJsonObject
  by_cases hempty : rawBody = []
  · simp [hempty]
  · by_cases hlen : maxRequestSize < rawBody.length
    · simp [hempty, hlen]
    · rw [if_neg hempty, if_neg hlen]
      have hle : rawBody.length ≤ maxRequestSize := by omega
      cases hd : decodeUtf8 rawBody with
      | none => simp
      | some text =>
        simp only [hempty, hle, Option.some.injEq, ne_eq, not_false_eq_true, true_and,
          exists_eq_left']
        rcases loads text with v | _ | _
        · cases v <;> simp
        · simp
        · simp

theorem parseBody_ok_iff {data : List (String × Value)} :
    parseBody R loads cfg request = .ok data ↔ Decodes R loads cfg request data := by
  unfold parseBody Decodes
  cases hbody : request.body with
  | raises e => simp
  | stream s =>
    have hread := readLimitedBody_ok_iff R s request.contentLength cfg.maxRequestSize
    simp only
    cases hr : (readLimitedBody R s request.contentLength cfg.maxRequestSize).1 with
    | error e =>
      refine iff_of_false (by simp) ?_
      rintro ⟨s',-,hs,hdecl,hlen,-⟩
      cases hs
      have hok := (hread _).mpr ⟨rfl,hdecl,hlen⟩
      rw [hr] at hok
      cases hok
    | ok rawBody =>
      obtain ⟨rfl,hdecl,hlen⟩ := (hread rawBody).mp hr
      have hparse := parseJsonObject_ok_iff loads (R.left s) cfg.maxRequestSize data
      simp only
      constructor
      · intro h
        split at h <;> cases h
        obtain ⟨hne,-,text,htext,hloads⟩ := hparse.mp (by assumption)
        exact ⟨s,text,rfl,hdecl,hlen,hne,htext,hloads⟩
      · rintro ⟨s',text,hs,-,-,hne,htext,hloads⟩
        cases hs
        rw [hparse.mpr ⟨hne,hlen,text,htext,hloads⟩]

theorem buildModel_ok_iff {μ : Type} {fromWire : List (String × Value) → Except ModelParseError μ}
    {data : List (String × Value)} {model : μ} :
    buildModel fromWire data = .ok model ↔ fromWire data = .ok model := by
  unfold buildModel
  cases fromWire data <;> simp

/-- A string `executorParams` is within the limit. -/
def ParamsWithin (data : List (String × Value)) : Prop :=
  ∀ params, get data "executorParams" = .str params → params.length ≤ cfg.maxParamLength

theorem checkParams_ok_iff {data : List (String × Value)} {u : Unit} :
    checkParams cfg data = .ok u ↔ ParamsWithin cfg data := by
  unfold checkParams checkParamLength ParamsWithin
  cases hget : get data "executorParams" with
  | str params =>
    by_cases hlen : cfg.maxParamLength < params.length
    · simp [hlen]
    · simp only [hlen, if_false, Value.str.injEq, forall_eq', true_iff]
      omega
  | _ => simp

theorem findRun_ok_iff {executorHandler : String} {callback : φ} :
    findRun registry executorHandler = .ok callback ↔
      registry.run.lookup executorHandler = some callback := by
  unfold findRun
  by_cases hrun : Slots.hasRunCallbacks registry = true
  · rw [if_pos hrun]
    cases registry.run.lookup executorHandler <;> simp
  · rw [if_neg hrun]
    have hnone : registry.run.lookup executorHandler = none := by
      refine Finmap.lookup_eq_none.mpr fun hmem => hrun ?_
      exact decide_eq_true ⟨executorHandler,Finmap.mem_keys.mpr hmem⟩
    simp [hnone]

theorem findSingle_ok_iff {callback : Option φ} {notConfigured : String} {c : φ} :
    findSingle callback notConfigured = .ok c ↔ callback = some c := by
  unfold findSingle
  cases callback <;> simp

/-! ### Views -/

/-- The model of an endpoint, from the wire. -/
def fromWire (endpoint : Endpoint) (data : List (String × Value)) :
    Except ModelParseError Request :=
  match endpoint with
  | .run => Request.trigger <$> TriggerRequest.fromWire data
  | .idleBeat => Request.idleBeat <$> IdleBeatRequest.fromWire data
  | .kill => Request.kill <$> KillRequest.fromWire data
  | .log => Request.log <$> LogRequest.fromWire data

/-- The callback registered for a request: by its exact name for `/run`, else by the slot. -/
def registered : Request → Option φ
  | .trigger r => registry.run.lookup r.executorHandler
  | .idleBeat _ => registry.idleBeat
  | .kill _ => registry.kill
  | .log _ => registry.log

/-- A request that gets through to `callback` with `model`. -/
def Admitted (callback : φ) (model : Request) : Prop :=
  Authorized cfg.accessToken request.token ∧
  ∃ data, Decodes R loads cfg request data ∧
    (request.endpoint = .run → ParamsWithin cfg data) ∧
    fromWire request.endpoint data = .ok model ∧ registered registry model = some callback

theorem run_ok_iff {callback : φ} {model : Request} (h : request.endpoint = .run) :
    run R loads cfg registry request = .ok (callback,model) ↔
      Admitted R loads cfg registry request callback model := by
  simp only [run, bind_ok_iff, pure_ok_iff, tokenOk_iff, parseBody_ok_iff, checkParams_ok_iff,
    buildModel_ok_iff, findRun_ok_iff, Admitted, h, fromWire, map_ok_iff, Prod.mk.injEq]
  constructor
  · rintro ⟨-,hauth,data,hdec,-,hparams,t,ht,c,hc,rfl,rfl⟩
    exact ⟨hauth,data,hdec,fun _ => hparams,⟨t,ht,rfl⟩,hc⟩
  · rintro ⟨hauth,data,hdec,hparams,⟨t,ht,rfl⟩,hc⟩
    exact ⟨(),hauth,data,hdec,(),hparams trivial,t,ht,callback,hc,rfl,rfl⟩

theorem single_ok_iff {μ : Type} {callback : Option φ} {notConfigured : String}
    {wire : List (String × Value) → Except ModelParseError μ} {toRequest : μ → Request}
    {c : φ} {model : Request} :
    single R loads cfg request callback notConfigured wire toRequest = .ok (c,model) ↔
      Authorized cfg.accessToken request.token ∧ ∃ data, Decodes R loads cfg request data ∧
        toRequest <$> wire data = .ok model ∧ callback = some c := by
  simp only [single, bind_ok_iff, pure_ok_iff, tokenOk_iff, parseBody_ok_iff, buildModel_ok_iff,
    findSingle_ok_iff, map_ok_iff, Prod.mk.injEq]
  constructor
  · rintro ⟨-,hauth,c',hc,data,hdec,m,hm,rfl,rfl⟩
    exact ⟨hauth,data,hdec,⟨m,hm,rfl⟩,hc⟩
  · rintro ⟨hauth,data,hdec,⟨m,hm,rfl⟩,hc⟩
    exact ⟨(),hauth,c,hc,data,hdec,m,hm,rfl,rfl⟩

theorem view_ok_iff {callback : φ} {model : Request} :
    view R loads cfg registry request = .ok (callback,model) ↔
      Admitted R loads cfg registry request callback model := by
  have hslot : ∀ (slot : Option φ), request.endpoint ≠ .run →
      (∀ data, fromWire request.endpoint data = .ok model → registered registry model = slot) →
      ((Authorized cfg.accessToken request.token ∧ ∃ data, Decodes R loads cfg request data ∧
        fromWire request.endpoint data = .ok model ∧ slot = some callback) ↔
      Admitted R loads cfg registry request callback model) := by
    intro slot hne hreg
    refine and_congr_right fun _ => exists_congr fun data => and_congr_right fun _ => ?_
    constructor
    · rintro ⟨hm,hs⟩
      exact ⟨fun h => absurd h hne,hm,(hreg data hm).trans hs⟩
    · rintro ⟨-,hm,hs⟩
      exact ⟨hm,(hreg data hm).symm.trans hs⟩
  unfold view
  cases he : request.endpoint with
  | run => exact run_ok_iff R loads cfg registry request he
  | idleBeat =>
    rw [← hslot registry.idleBeat (by simp [he])]
    · rw [he]
      exact single_ok_iff R loads cfg request
    · intro data hm
      rw [he] at hm
      obtain ⟨m,-,rfl⟩ := map_ok_iff.mp hm
      rfl
  | kill =>
    rw [← hslot registry.kill (by simp [he])]
    · rw [he]
      exact single_ok_iff R loads cfg request
    · intro data hm
      rw [he] at hm
      obtain ⟨m,-,rfl⟩ := map_ok_iff.mp hm
      rfl
  | log =>
    rw [← hslot registry.log (by simp [he])]
    · rw [he]
      exact single_ok_iff R loads cfg request
    · intro data hm
      rw [he] at hm
      obtain ⟨m,-,rfl⟩ := map_ok_iff.mp hm
      rfl

/-! ### Early answers -/

/-- An early answer is a failure, and what no handler catches comes from the body. -/
def Exit.Fails {σ : Type} (request : Incoming σ) : Exit → Prop
  | .respond r => ∃ msg, r = .failure msg
  | .raised (.base exceptionType) => request.body = .raises (.base exceptionType)
  | .raised _ => True

def Failing {σ α : Type} (request : Incoming σ) (x : Except Exit α) : Prop :=
  ∀ e, x = .error e → e.Fails request

namespace Failing
variable {σ α β : Type} {request : Incoming σ}

theorem ok (a : α) : Failing request (.ok a : Except Exit α) := fun e h => by cases h

theorem fail (msg : String) : Failing request (.error (fail msg) : Except Exit α) := fun e h => by
  cases h
  exact ⟨msg,rfl⟩

theorem other (exceptionType : String) :
    Failing request (.error (.raised (.other exceptionType)) : Except Exit α) := fun e h => by
  cases h
  trivial

theorem body {e : Raised} (hbody : request.body = .raises e) :
    Failing request (.error (.raised e) : Except Exit α) := fun e' h => by
  cases h
  cases e with
  | base exceptionType => exact hbody
  | _ => trivial

theorem bind {x : Except Exit α} {f : α → Except Exit β} (hx : Failing request x)
    (hf : ∀ a, Failing request (f a)) : Failing request (x >>= f) := by
  intro e h
  cases x with
  | error e' => exact hx e (by simpa [Bind.bind, Except.bind] using h)
  | ok a => exact hf a e h

end Failing

theorem tokenOk_failing : Failing request (tokenOk cfg request) := by
  unfold tokenOk
  split
  · exact .ok _
  · exact .fail _

theorem parseBody_failing : Failing request (parseBody R loads cfg request) := by
  unfold parseBody
  split
  next e hbody => exact .body hbody
  · split
    · exact .fail _
    · split
      · exact .fail _
      · exact .other _
      · exact .ok _

theorem buildModel_failing {μ : Type}
    (wire : List (String × Value) → Except ModelParseError μ) (data : List (String × Value)) :
    Failing request (buildModel wire data) := by
  unfold buildModel
  split
  · exact .fail _
  · exact .ok _

theorem checkParams_failing (data : List (String × Value)) :
    Failing request (checkParams cfg data) := by
  unfold checkParams
  split
  · exact .fail _
  · exact .ok _

theorem findRun_failing (executorHandler : String) :
    Failing request (findRun registry executorHandler) := by
  unfold findRun
  split
  · split
    · exact .fail _
    · exact .ok _
  · exact .fail _

theorem findSingle_failing (callback : Option φ) (notConfigured : String) :
    Failing request (findSingle callback notConfigured) := by
  unfold findSingle
  split
  · exact .fail _
  · exact .ok _

theorem run_failing : Failing request (run R loads cfg registry request) := by
  unfold run
  apply Failing.bind (tokenOk_failing cfg request)
  intro _
  apply Failing.bind (parseBody_failing R loads cfg request)
  intro data
  apply Failing.bind (checkParams_failing cfg request data)
  intro _
  apply Failing.bind (buildModel_failing request _ data)
  intro model
  exact Failing.bind (findRun_failing registry request _) fun _ => .ok _

theorem single_failing {μ : Type} (callback : Option φ) (notConfigured : String)
    (wire : List (String × Value) → Except ModelParseError μ) (toRequest : μ → Request) :
    Failing request (single R loads cfg request callback notConfigured wire toRequest) := by
  unfold single
  apply Failing.bind (tokenOk_failing cfg request)
  intro _
  apply Failing.bind (findSingle_failing request callback notConfigured)
  intro _
  apply Failing.bind (parseBody_failing R loads cfg request)
  intro data
  exact Failing.bind (buildModel_failing request _ data) fun _ => .ok _

theorem view_failing : Failing request (view R loads cfg registry request) := by
  unfold view
  cases request.endpoint with
  | run => exact run_failing R loads cfg registry request
  | idleBeat | kill | log => exact single_failing R loads cfg request _ _ _ _

/-! ### Dispatch -/

variable (custom : String → Bool) (behave : φ → Request → Returned)

theorem json_failure (msg : String) : json custom (.failure msg) = .failure msg := by
  simp [json, XXLJobResponse.failure, jsonable]

/-- A request is answered early with a failure, or the reading of its body is interrupted, or its
callback is invoked once. -/
theorem handle_cases :
    ((∀ callback model, ¬ Admitted R loads cfg registry request callback model) ∧
      ((∃ msg, handle R loads cfg registry request custom behave = ⟨.ok (.failure msg),[]⟩) ∨
        ∃ exceptionType, request.body = .raises (.base exceptionType) ∧
          handle R loads cfg registry request custom behave = ⟨.error exceptionType,[]⟩)) ∨
    ∃ callback model, Admitted R loads cfg registry request callback model ∧
      handle R loads cfg registry request custom behave =
        ⟨json custom <$> respond request.endpoint (behave callback model),[(callback,model)]⟩ := by
  unfold handle
  cases hview : view R loads cfg registry request with
  | ok p =>
    obtain ⟨callback,model⟩ := p
    exact Or.inr ⟨callback,model,(view_ok_iff R loads cfg registry request).mp hview,rfl⟩
  | error e =>
    refine Or.inl ⟨fun callback model h => ?_,?_⟩
    · rw [(view_ok_iff R loads cfg registry request).mpr h] at hview
      cases hview
    · have hfails := view_failing R loads cfg registry request e hview
      cases e with
      | respond r =>
        obtain ⟨msg,rfl⟩ := hfails
        exact Or.inl ⟨msg,by simp only [json_failure]⟩
      | raised e =>
        cases e with
        | http name => exact Or.inl ⟨_,rfl⟩
        | other exceptionType => exact Or.inl ⟨_,rfl⟩
        | base exceptionType => exact Or.inr ⟨exceptionType,hfails,rfl⟩

/-- A callback outcome that is no answer of its own. -/
def Unsupported (endpoint : Endpoint) : Returned → Prop
  | .response _ => False
  | .logResponse _ => endpoint ≠ .log
  | .other _ | .raised (.http _) | .raised (.other _) => True
  | .raised (.base _) => False

/-- A ReturnT with code 500. -/
def AnswersFailure (answer : Except String XXLJobResponse) : Prop :=
  ∃ r, answer = .ok r ∧ r.code = 500

theorem respond_unsupported {endpoint : Endpoint} {returned : Returned}
    (h : Unsupported endpoint returned) :
    AnswersFailure (json custom <$> respond endpoint returned) := by
  cases returned with
  | response r => exact h.elim
  | logResponse r =>
    cases endpoint with
    | log => exact absurd rfl h
    | _ => exact ⟨_,rfl,by rw [unsupportedType, json_failure]; rfl⟩
  | other typeName => exact ⟨_,rfl,by rw [unsupportedType, json_failure]; rfl⟩
  | raised e =>
    cases e with
    | base exceptionType => exact h.elim
    | _ => exact ⟨_,rfl,by rw [executionFailed, json_failure]; rfl⟩

/-- Only what a callback raises outside `Exception` is no response. -/
theorem respond_error_iff {endpoint : Endpoint} {returned : Returned} {exceptionType : String} :
    json custom <$> respond endpoint returned = .error exceptionType ↔
      returned = .raised (.base exceptionType) := by
  constructor
  · intro h
    cases returned with
    | response r => cases h
    | logResponse r => cases endpoint <;> cases h
    | other typeName => cases h
    | raised e =>
      cases e with
      | base e => cases h; rfl
      | _ => cases h
  · rintro rfl
    rfl

/-- Dispatch is exact: the callback of an admitted request is invoked once, with the model of its
body, and nothing else is; every request without an answer of its callback gets a failure. Only an
exception outside `Exception` leaves the application in place of an answer. -/
theorem executor_dispatch_exact (callable : φ → Bool) :
    ∃ answer invoked,
      handle R loads cfg registry request custom behave = ⟨answer,invoked⟩ ∧
      invoked.length ≤ 1 ∧
      (∀ callback model, invoked = [(callback,model)] ↔
        Admitted R loads cfg registry request callback model) ∧
      (invoked = [] → AnswersFailure answer ∨
        ∃ exceptionType, request.body = .raises (.base exceptionType) ∧
          answer = .error exceptionType) ∧
      (∀ callback model, invoked = [(callback,model)] →
        answer = json custom <$> respond request.endpoint (behave callback model) ∧
        (Unsupported request.endpoint (behave callback model) → AnswersFailure answer) ∧
        ∀ exceptionType, answer = .error exceptionType ↔
          behave callback model = .raised (.base exceptionType)) ∧
      (Reachable callable registry → ∀ callback r, invoked = [(callback,.trigger r)] →
        r.executorHandler ≠ "" ∧ strip r.executorHandler = r.executorHandler) := by
  rcases handle_cases R loads cfg registry request custom behave with
    ⟨hnone,hearly⟩ | ⟨callback,model,hadm,heq⟩
  · rcases hearly with ⟨msg,hmsg⟩ | ⟨exceptionType,hbody,hraised⟩
    · exact ⟨_,_,hmsg,by simp,fun c m => iff_of_false (by simp) (hnone c m),
        fun _ => Or.inl ⟨_,rfl,rfl⟩,fun c m h => by simp at h,fun _ c r h => by simp at h⟩
    · exact ⟨_,_,hraised,by simp,fun c m => iff_of_false (by simp) (hnone c m),
        fun _ => Or.inr ⟨exceptionType,hbody,rfl⟩,fun c m h => by simp at h,
        fun _ c r h => by simp at h⟩
  · refine ⟨_,_,heq,by simp,fun c m => ?_,fun h => by simp at h,fun c m h => ?_,
      fun hreach c r h => ?_⟩
    · constructor
      · intro h
        cases h
        exact hadm
      · intro h
        have hview := (view_ok_iff R loads cfg registry request).mpr h
        rw [(view_ok_iff R loads cfg registry request).mpr hadm] at hview
        cases hview
        rfl
    · cases h
      exact ⟨rfl,respond_unsupported custom,fun _ => respond_error_iff custom⟩
    · cases h
      obtain ⟨-,-,-,-,-,hreg⟩ := hadm
      exact hreach.named (.str r.executorHandler) callback hreg

/-- The body `{}`, sent to `/idleBeat` without a token. -/
def emptyObject : Incoming (List ℕ × List UInt8) where
  endpoint := .idleBeat
  token := none
  contentLength := none
  body := .stream ([],[0x7b,0x7d])

/-- A callback that calls `sys.exit` is admitted and its request is not answered, nor is one whose
body is interrupted. -/
theorem dispatch_interrupted : ∃ registry : Slots ℕ, Reachable (fun _ => true) registry ∧
    (∃ callback model, Admitted (.cutting UInt8) (fun _ => .value (.dict [])) ⟨"",1024,64⟩ registry
      emptyObject callback model) ∧
    ¬ AnswersFailure (handle (.cutting UInt8) (fun _ => .value (.dict [])) ⟨"",1024,64⟩ registry
      emptyObject (fun _ => false) fun _ _ => .raised (.base "SystemExit")).answer ∧
    ¬ AnswersFailure (handle (.cutting UInt8) (fun _ => .value (.dict [])) ⟨"",1024,64⟩ registry
      { emptyObject with body := .raises (.base "SystemExit") } (fun _ => false)
      fun _ _ => .response (.success none .none)).answer := by
  have hreach : Reachable (fun _ => true) ({ idleBeat := some 7 } : Slots ℕ) :=
    Reachable.perform (.setIdleBeat (some 7) false) .new fun _ h => by cases h
  have hadm : Admitted (.cutting UInt8) (fun _ => .value (.dict [])) ⟨"",1024,64⟩
      ({ idleBeat := some 7 } : Slots ℕ) emptyObject 7 (.idleBeat {}) := by
    refine ⟨Or.inl rfl,[],?_,fun hrun => ?_,rfl,rfl⟩
    · refine ⟨_,"\x7b\x7d",rfl,fun n hn => ?_,by decide,by decide,by decide +kernel,rfl⟩
      cases hn
    · cases hrun
  refine ⟨_,hreach,⟨_,_,hadm⟩,?_,?_⟩
  · rintro ⟨r,hr,-⟩
    rw [handle,(view_ok_iff ..).mpr hadm] at hr
    cases hr
  · rintro ⟨r,hr,-⟩
    cases hr

end FlaskXxlJob.Protocol
