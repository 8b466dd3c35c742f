import FlaskXxlJob.Config.ExecutorAddress

/-!
What an accepted configuration is. Its values keep their bounds, the Registry check can only miss
a value that is not there, and a rejected configuration is told which key is wrong.
-/
namespace FlaskXxlJob.Config
open Python Utils

variable {lib : Library} {merged : List (String × Value)} {cfg cfg' : XXLJobConfig} {key : String}

/-! ### Accepted values -/

theorem asIntFrom_ok {least i : ℤ} {kind bound : String}
    (h : asIntFrom merged key least kind bound = .ok i) : least ≤ i := by
  rw [asIntFrom] at h
  split at h
  · split at h
    · cases h
    · cases h
      omega
  · cases h

theorem asNonEmptyStr_ok {s : String} (h : asNonEmptyStr merged key = .ok s) : s ≠ "" := by
  obtain ⟨value,-,hv⟩ := bind_ok_iff.mp h
  split at hv
  · cases hv
  · cases hv
    assumption

theorem asChoice_ok {allowed : List String} {upper : Bool} {s : String}
    (h : asChoice lib merged key allowed upper = .ok s) : s ∈ allowed := by
  obtain ⟨value,-,hv⟩ := bind_ok_iff.mp h
  generalize (if upper then lib.upper value else lib.lower value) = normalized at hv
  simp only at hv
  split at hv
  next hmem =>
    cases hv
    exact hmem
  · cases hv

/-- `float` of an integer that is not negative is not negative. -/
def Library.FloatsKeepSign (lib : Library) : Prop :=
  ∀ i x, 0 ≤ i → lib.floatOfInt i = some x → x.lt (.finite 0) = false

theorem asNonNegativeFloat_ok (hf : lib.FloatsKeepSign) {x : Double}
    (h : asNonNegativeFloat lib merged key = .ok x) : x.lt (.finite 0) = false := by
  rw [asNonNegativeFloat] at h
  split at h
  next i _ =>
    split at h
    · cases h
    · split at h
      next y hy =>
        cases h
        exact hf i x (by omega) hy
      · cases h
  · simp only at h
    split at h
    · cases h
    next hn =>
      cases h
      simpa using hn
  · cases h

/-- An address with a scheme, a valid host and nothing but a path behind them. -/
structure HttpUrl (lib : Library) (value : String) : Prop where
  clean : ∀ c ∈ value.toList, isControl c = false ∧ isSpace c = false ∧ c ≠ '?' ∧ c ≠ '#'
  parsed : ∃ url hostname, lib.urlsplit value = .returned url ∧
    lib.lower url.scheme ∈ ["http","https"] ∧ url.hostname = some hostname ∧ hostname ≠ "" ∧
    isValidHostname lib hostname = true ∧ url.port ≠ some 0 ∧ url.username = none ∧
    url.password = none ∧ url.query = "" ∧ url.fragment = ""

theorem isInvalidUrl_false_iff {value : String} {url : SplitResult} :
    isInvalidUrl lib value url = false ↔ lib.lower url.scheme ∈ ["http","https"] ∧
      (∃ hostname, url.hostname = some hostname ∧ hostname ≠ "" ∧
        isValidHostname lib hostname = true) ∧ url.port ≠ some 0 ∧ url.username = none ∧
      url.password = none ∧ url.query = "" ∧ url.fragment = "" ∧
      '?' ∉ value.toList ∧ '#' ∉ value.toList := by
  cases hh : url.hostname <;> simp [isInvalidUrl,hh,and_assoc,or_iff_not_imp_left]

theorem validateHttpUrl_ok_iff {value : String} :
    validateHttpUrl lib key value = .ok () ↔ HttpUrl lib value := by
  unfold validateHttpUrl
  constructor
  · intro h
    split at h
    · cases h
    next hclean =>
      split at h
      · cases h
      · cases h
      next url hurl =>
        split at h
        · cases h
        next hvalid =>
          obtain ⟨hs,⟨hostname,hh,hne,hv⟩,hp,hu,hpw,hq,hfr,hm,hhash⟩ :=
            isInvalidUrl_false_iff.mp (by simpa using hvalid)
          refine ⟨fun c hc => ?_,url,hostname,hurl,hs,hh,hne,hv,hp,hu,hpw,hq,hfr⟩
          simp only [List.any_eq_true,Bool.or_eq_true,not_exists,not_and,not_or,
            Bool.not_eq_true] at hclean
          refine ⟨(hclean c hc).1,(hclean c hc).2,?_,?_⟩
          · rintro rfl
            exact hm hc
          · rintro rfl
            exact hhash hc
  · rintro ⟨hclean,url,hostname,hurl,hs,hh,hne,hv,hp,hu,hpw,hq,hfr⟩
    have hany : (value.toList.any fun c => isControl c || isSpace c) = false := by
      rw [List.any_eq_false]
      intro c hc
      simp [(hclean c hc).1,(hclean c hc).2.1]
    have hvalid : isInvalidUrl lib value url = false :=
      isInvalidUrl_false_iff.mpr ⟨hs,⟨hostname,hh,hne,hv⟩,hp,hu,hpw,hq,hfr,
        fun hc => (hclean _ hc).2.2.1 rfl,fun hc => (hclean _ hc).2.2.2 rfl⟩
    simp [hany,hurl,hvalid]

/-! ### Accepted configurations -/

structure Limits (cfg : XXLJobConfig) : Prop where
  registryInterval : 0 < cfg.registryInterval
  timeout : 0 < cfg.timeout.1 ∧ 0 < cfg.timeout.2
  callbackMessageMaxLength : 0 < cfg.callbackMessageMaxLength
  maxRequestSize : 0 < cfg.maxRequestSize
  maxParamLength : 0 < cfg.maxParamLength
  callbackBatchMaxSize : 0 < cfg.callbackBatchMaxSize
  adminRetryCount : 0 ≤ cfg.adminRetryCount
  adminRetryBackoff : cfg.adminRetryBackoff.lt (.finite 0) = false

structure LogSettings (lib : Library) (cfg : XXLJobConfig) : Prop where
  level : cfg.logLevel ∈ logLevels
  texts : cfg.logFormat ≠ "" ∧ cfg.logPath ≠ "" ∧ cfg.logFilename ≠ "" ∧ cfg.logEncoding ≠ ""
  maxBytes : 0 < cfg.logMaxBytes
  backupCount : 0 ≤ cfg.logBackupCount
  encoding : lib.lookupCodec cfg.logEncoding = .returned ()
  format : lib.formatRecord cfg.logFormat
    (if cfg.logDateFormat = "" then none else some cfg.logDateFormat) = .returned ()

/-- A token that is not blank, or none. -/
def UsableToken (token : String) : Prop := token = "" ∨ strip token ≠ ""

structure WellFormed (lib : Library) (cfg : XXLJobConfig) : Prop where
  limits : Limits cfg
  logging : LogSettings lib cfg
  accessToken : UsableToken cfg.accessToken
  routePrefix : cfg.enabled = true → normalizePrefix cfg.routePrefix = .ok cfg.routePrefix
  adminAddresses : cfg.enabled = true → ∀ address ∈ cfg.adminAddresses,
    HttpUrl lib address ∧ address.toList.getLast? ≠ some '/'
  executorAddress : cfg.enabled = true → cfg.executorAddress ≠ "" →
    HttpUrl lib cfg.executorAddress

theorem readLimits_ok (hf : lib.FloatsKeepSign) (h : readLimits lib merged cfg = .ok cfg') :
    Limits cfg' ∧ cfg'.accessToken = cfg.accessToken ∧
      cfg'.adminAddresses = cfg.adminAddresses := by
  rw [readLimits] at h
  obtain ⟨_,h₁,h⟩ := bind_ok_iff.mp h
  obtain ⟨_,h₂,h⟩ := bind_ok_iff.mp h
  obtain ⟨_,h₃,h⟩ := bind_ok_iff.mp h
  obtain ⟨_,h₄,h⟩ := bind_ok_iff.mp h
  obtain ⟨_,h₅,h⟩ := bind_ok_iff.mp h
  obtain ⟨_,h₆,h⟩ := bind_ok_iff.mp h
  obtain ⟨_,h₇,h⟩ := bind_ok_iff.mp h
  obtain ⟨_,h₈,h⟩ := bind_ok_iff.mp h
  obtain ⟨_,h₉,h⟩ := bind_ok_iff.mp h
  iterate 3 obtain ⟨_,-,h⟩ := bind_ok_iff.mp h
  cases h
  exact ⟨⟨asIntFrom_ok h₁,⟨asIntFrom_ok h₂,asIntFrom_ok h₃⟩,asIntFrom_ok h₄,asIntFrom_ok h₅,
    asIntFrom_ok h₆,asIntFrom_ok h₇,asIntFrom_ok h₈,asNonNegativeFloat_ok hf h₉⟩,rfl,rfl⟩

theorem validateLogEncoding_ok {encoding : String}
    (h : validateLogEncoding lib encoding = .ok ()) : lib.lookupCodec encoding = .returned () := by
  rw [validateLogEncoding] at h
  split at h
  · assumption
  · cases h
  · cases h

theorem validateLogFormat_ok {format date : String}
    (h : validateLogFormat lib format date = .ok ()) :
    lib.formatRecord format (if date = "" then none else some date) = .returned () := by
  unfold validateLogFormat at h
  split at h
  · assumption
  · cases h
  · cases h

theorem readLogging_ok (h : readLogging lib merged cfg = .ok cfg') : LogSettings lib cfg' ∧
    (Limits cfg → Limits cfg') ∧ cfg'.accessToken = cfg.accessToken ∧
      cfg'.adminAddresses = cfg.adminAddresses := by
  rw [readLogging] at h
  iterate 3 obtain ⟨_,-,h⟩ := bind_ok_iff.mp h
  obtain ⟨_,hlevel,h⟩ := bind_ok_iff.mp h
  obtain ⟨_,hformat,h⟩ := bind_ok_iff.mp h
  obtain ⟨_,-,h⟩ := bind_ok_iff.mp h
  obtain ⟨_,hpath,h⟩ := bind_ok_iff.mp h
  obtain ⟨_,hname,h⟩ := bind_ok_iff.mp h
  obtain ⟨_,hencoding,h⟩ := bind_ok_iff.mp h
  obtain ⟨_,hbytes,h⟩ := bind_ok_iff.mp h
  obtain ⟨_,hbackup,h⟩ := bind_ok_iff.mp h
  obtain ⟨_,-,h⟩ := bind_ok_iff.mp h
  obtain ⟨_,hcodec,h⟩ := bind_ok_iff.mp h
  obtain ⟨_,hrecord,h⟩ := bind_ok_iff.mp h
  cases h
  exact ⟨⟨asChoice_ok hlevel,⟨asNonEmptyStr_ok hformat,asNonEmptyStr_ok hpath,
    asNonEmptyStr_ok hname,asNonEmptyStr_ok hencoding⟩,asIntFrom_ok hbytes,asIntFrom_ok hbackup,
    validateLogEncoding_ok hcodec,validateLogFormat_ok hrecord⟩,fun hl => { hl with },rfl,rfl⟩

theorem usableToken_read (token : String) :
    UsableToken (if strip token = "" then "" else token) := by
  split
  · exact Or.inl rfl
  next h => exact Or.inr h

theorem readAddresses_token (h : readAddresses merged = .ok cfg) : UsableToken cfg.accessToken := by
  rw [readAddresses] at h
  iterate 3 obtain ⟨_,-,h⟩ := bind_ok_iff.mp h
  obtain ⟨token,-,h⟩ := bind_ok_iff.mp h
  have htoken := usableToken_read token
  generalize (if strip token = "" then "" else token) = accessToken at h htoken
  iterate 5 obtain ⟨_,-,h⟩ := bind_ok_iff.mp h
  cases h
  exact htoken

theorem readAddresses_admins (h : readAddresses merged = .ok cfg) (hen : cfg.enabled = true) :
    normalizePrefix cfg.routePrefix = .ok cfg.routePrefix ∧
      ∀ address ∈ cfg.adminAddresses, address.toList.getLast? ≠ some '/' := by
  rw [readAddresses] at h
  iterate 3 obtain ⟨_,-,h⟩ := bind_ok_iff.mp h
  obtain ⟨token,-,h⟩ := bind_ok_iff.mp h
  generalize (if strip token = "" then "" else token) = accessToken at h
  iterate 3 obtain ⟨_,-,h⟩ := bind_ok_iff.mp h
  obtain ⟨rawAdmin,-,h⟩ := bind_ok_iff.mp h
  obtain ⟨interpreted,hi,h⟩ := bind_ok_iff.mp h
  cases h
  simp only at hen
  rw [interpretAddresses,if_pos hen] at hi
  obtain ⟨routePrefix,hp,hi⟩ := bind_ok_iff.mp hi
  cases hi
  refine ⟨normalizePrefix_idem hp,fun address ha => ?_⟩
  obtain ⟨raw,-,rfl⟩ := List.mem_map.mp ha
  rw [normalizeAddress]
  split
  · decide
  · exact last_rstripBy raw

theorem forM_ok_iff {l : List String} {f : String → Checked Unit} {u : Unit} :
    l.forM f = .ok u ↔ ∀ x ∈ l, f x = .ok () := by
  induction l with
  | nil => exact ⟨fun _ _ hx => absurd hx (List.not_mem_nil),fun _ => rfl⟩
  | cons x l ih =>
    change (f x >>= fun _ => l.forM f) = .ok u ↔ _
    rw [bind_ok_iff,List.forall_mem_cons,← ih]
    constructor
    · rintro ⟨_,hx,hl⟩
      exact ⟨hx,hl⟩
    · rintro ⟨hx,hl⟩
      exact ⟨(),hx,hl⟩

theorem validate_ok_iff (hen : cfg.enabled = true) : cfg.validate lib = .ok () ↔
    (∀ address ∈ cfg.adminAddresses, HttpUrl lib address) ∧
      (cfg.executorAddress ≠ "" → HttpUrl lib cfg.executorAddress) := by
  rw [XXLJobConfig.validate,if_neg (by simp [hen]),bind_ok_iff]
  simp only [forM_ok_iff,validateHttpUrl_ok_iff]
  by_cases he : cfg.executorAddress = ""
  · simp [he,pure_ok_iff]
  · simp [he,validateHttpUrl_ok_iff]

theorem fromMapping_wellFormed (hf : lib.FloatsKeepSign) {config : List (String × Value)}
    (h : fromMapping lib config = .ok cfg) : WellFormed lib cfg := by
  rw [fromMapping] at h
  obtain ⟨_,-,h⟩ := bind_ok_iff.mp h
  obtain ⟨cfg₁,h₁,h⟩ := bind_ok_iff.mp h
  obtain ⟨cfg₂,h₂,h⟩ := bind_ok_iff.mp h
  obtain ⟨cfg₃,h₃,h⟩ := bind_ok_iff.mp h
  obtain ⟨_,hv,h⟩ := bind_ok_iff.mp h
  cases h
  obtain ⟨hlimits,htoken₂,hadmin₂⟩ := readLimits_ok hf h₂
  obtain ⟨hlog,hkeep,htoken₃,hadmin₃⟩ := readLogging_ok h₃
  have hs₂ := readLimits_same h₂
  have hs₃ := readLogging_same h₃
  have hen₁ : cfg.enabled = true → cfg₁.enabled = true := fun hen => by
    rw [← hs₂.enabled,← hs₃.enabled,hen]
  refine ⟨hkeep hlimits,hlog,?_,fun hen => ?_,fun hen address ha => ?_,fun hen hne => ?_⟩
  · rw [htoken₃,htoken₂]
    exact readAddresses_token h₁
  · rw [hs₃.routePrefix,hs₂.routePrefix]
    exact (readAddresses_admins h₁ (hen₁ hen)).1
  · refine ⟨((validate_ok_iff hen).mp hv).1 address ha,?_⟩
    rw [hadmin₃,hadmin₂] at ha
    exact (readAddresses_admins h₁ (hen₁ hen)).2 address ha
  · exact ((validate_ok_iff hen).mp hv).2 hne

/-! ### What a Registry operation needs -/

/-- The values that a Registry operation cannot do without. -/
def registryNeeds (cfg : XXLJobConfig) : List (Bool × String) := [
  (cfg.executorAppName = "","XXL_JOB_EXECUTOR_APP_NAME must not be empty for Registry operations."),
  (cfg.adminAddresses = [],"XXL_JOB_ADMIN_ADDRESSES must contain at least one admin address " ++
    "for Registry operations."),
  (cfg.executorAddress = "","XXL_JOB_EXECUTOR_ADDRESS must not be empty for Registry operations.")]

theorem asIntFrom_int {values : List (String × Value)} {least i : ℤ} {kind bound : String}
    (hget : get values key = .int i) (h : least ≤ i) :
    asIntFrom values key least kind bound = .ok i := by
  rw [asIntFrom,hget]
  exact if_neg (by omega)

theorem asNonNegativeFloat_float {values : List (String × Value)} {x : Double}
    (hget : get values key = .float x) (h : x.lt (.finite 0) = false) :
    asNonNegativeFloat lib values key = .ok x := by
  rw [asNonNegativeFloat,hget]
  exact if_neg (by simp [h])

theorem asBool_bool {values : List (String × Value)} {b : Bool} (hget : get values key = .bool b) :
    asBool values key = .ok b := by
  rw [asBool,hget]

/-- The first missing value is the only thing that the check can still reject. -/
theorem validateRegistry_eq (hl : Limits cfg)
    (hadmin : ∀ address ∈ cfg.adminAddresses, HttpUrl lib address)
    (hexec : cfg.executorAddress ≠ "" → HttpUrl lib cfg.executorAddress) :
    cfg.validateRegistry lib = match (registryNeeds cfg).find? (·.1) with
      | some (_,message) => fail message
      | none => .ok () := by
  have h₁ : asPositiveInt cfg.registryValues "XXL_JOB_REGISTRY_INTERVAL" = .ok _ :=
    asIntFrom_int rfl (by have := hl.registryInterval; omega)
  have h₂ : asPositiveInt cfg.registryValues "XXL_JOB_HTTP_CONNECT_TIMEOUT" = .ok _ :=
    asIntFrom_int rfl (by have := hl.timeout.1; exact this)
  have h₃ : asPositiveInt cfg.registryValues "XXL_JOB_HTTP_READ_TIMEOUT" = .ok _ :=
    asIntFrom_int rfl (by have := hl.timeout.2; exact this)
  have h₄ : asNonNegativeInt cfg.registryValues "XXL_JOB_ADMIN_RETRY_COUNT" = .ok _ :=
    asIntFrom_int rfl hl.adminRetryCount
  have h₅ : asNonNegativeFloat lib cfg.registryValues "XXL_JOB_ADMIN_RETRY_BACKOFF" = .ok _ :=
    asNonNegativeFloat_float rfl hl.adminRetryBackoff
  have h₆ : asBool cfg.registryValues "XXL_JOB_ADMIN_FAILOVER_ON_HTTP_ERROR" = .ok _ :=
    asBool_bool rfl
  have h₇ : asBool cfg.registryValues "XXL_JOB_ADMIN_FAILOVER_ON_INVALID_JSON" = .ok _ :=
    asBool_bool rfl
  have h₈ : asBool cfg.registryValues "XXL_JOB_ADMIN_FAILOVER_ON_BUSINESS_ERROR" = .ok _ :=
    asBool_bool rfl
  rw [XXLJobConfig.validateRegistry]
  simp only [h₁,h₂,h₃,h₄,h₅,h₆,h₇,h₈]
  rw [registryNeeds]
  by_cases hname : cfg.executorAppName = ""
  · simp only [hname,if_true]
    rfl
  by_cases hadmins : cfg.adminAddresses = []
  · simp only [hname,if_false,hadmins,if_true]
    rfl
  by_cases hex : cfg.executorAddress = ""
  · simp only [hname,if_false,hadmins,hex,if_true]
    rfl
  have hforM : cfg.adminAddresses.forM (validateHttpUrl lib "XXL_JOB_ADMIN_ADDRESSES") = .ok () :=
    forM_ok_iff.mpr fun address ha => validateHttpUrl_ok_iff.mpr (hadmin address ha)
  have hurl : validateHttpUrl lib "XXL_JOB_EXECUTOR_ADDRESS" cfg.executorAddress = .ok () :=
    validateHttpUrl_ok_iff.mpr (hexec hex)
  simp only [hname,if_false,hadmins,hex,hforM,hurl]
  rfl

/-! ### What a rejection names -/

/-- An `XXLJobConfigError` quotes one of the keys. -/
def Rejects {α : Type} (keys : List String) (x : Checked α) : Prop :=
  ∀ message, x = .error (.configError message) →
    ∃ key ∈ keys, ∃ before after, message = before ++ key ++ after

theorem Rejects.ok {α : Type} {keys : List String} {a : α} : Rejects keys (.ok a) := by
  intro _ h
  cases h

theorem Rejects.other {α : Type} {keys : List String} {errorType : String} :
    Rejects keys (.error (.other errorType) : Checked α) := by
  intro _ h
  cases h

theorem Rejects.fail {α : Type} {rest : String} :
    Rejects [key] (Config.fail (key ++ rest) : Checked α) := by
  intro message h
  cases h
  exact ⟨key,List.mem_singleton_self key,"",rest,by rw [String.empty_append]⟩

theorem Rejects.starts {α : Type} {message : String} (h : key.toList <+: message.toList) :
    Rejects [key] (Config.fail message : Checked α) := by
  obtain ⟨rest,hrest⟩ := h
  have hmessage : message = key ++ .ofList rest := by
    rw [← String.toList_inj,String.toList_append,String.toList_ofList,hrest]
  rw [hmessage]
  exact .fail

theorem Rejects.bind {α β : Type} {keys : List String} {x : Checked α} {f : α → Checked β}
    (hx : Rejects keys x) (hf : ∀ a, Rejects keys (f a)) : Rejects keys (x >>= f) := by
  intro message h
  cases x with
  | error e =>
    cases h
    exact hx message rfl
  | ok a => exact hf a message h

theorem Rejects.mono {α : Type} {keys keys' : List String} {x : Checked α} (h : Rejects keys x)
    (hsub : keys ⊆ keys') : Rejects keys' x := by
  intro message hm
  obtain ⟨k,hk,hnames⟩ := h message hm
  exact ⟨k,hsub hk,hnames⟩

theorem asBool_rejects : Rejects [key] (asBool merged key) := by
  rw [asBool]
  split
  · exact .ok
  · simp only [String.append_assoc]
    exact .fail

theorem asStrStrict_rejects : Rejects [key] (asStrStrict merged key) := by
  rw [asStrStrict]
  split
  · exact .ok
  · simp only [String.append_assoc]
    exact .fail

theorem asStr_rejects : Rejects [key] (asStr merged key) := by
  rw [asStr]
  split
  · exact .ok
  · exact asStrStrict_rejects

theorem asNonEmptyStr_rejects : Rejects [key] (asNonEmptyStr merged key) := by
  refine .bind asStr_rejects fun value => ?_
  split
  · exact .fail
  · exact .ok

theorem asChoice_rejects {allowed : List String} {upper : Bool} :
    Rejects [key] (asChoice lib merged key allowed upper) := by
  refine .bind asStr_rejects fun value => ?_
  generalize (if upper then lib.upper value else lib.lower value) = normalized
  simp only [String.append_assoc]
  split
  · exact .ok
  · intro message h
    cases h
    exact ⟨key,List.mem_singleton_self key,"Invalid ",_,rfl⟩

theorem asStrItems_rejects (items : List Value) : Rejects [key] (asStrItems key items) := by
  fun_induction asStrItems key items with
  | case1 => exact .ok
  | case2 s items ih => exact .bind ih fun _ => .ok
  | case3 =>
    simp only [String.append_assoc]
    exact .fail

theorem asStrList_rejects : Rejects [key] (asStrList merged key) := by
  rw [asStrList]
  split
  · exact .ok
  · exact (asStrItems_rejects _).bind fun _ => .ok
  · simp only [String.append_assoc]
    exact Rejects.fail.bind fun _ => .ok

theorem asIntFrom_rejects {least : ℤ} {kind bound : String} :
    Rejects [key] (asIntFrom merged key least kind bound) := by
  rw [asIntFrom]
  simp only [String.append_assoc]
  split
  · split
    · exact .fail
    · exact .ok
  · exact .fail

theorem asNonNegativeFloat_rejects : Rejects [key] (asNonNegativeFloat lib merged key) := by
  rw [asNonNegativeFloat]
  simp only [String.append_assoc]
  split
  · split
    · exact .fail
    · split
      · exact .ok
      · exact .other
  · split
    · exact .fail
    · exact .ok
  · exact .fail

theorem validateHttpUrl_rejects {value : String} :
    Rejects [key] (validateHttpUrl lib key value) := by
  rw [validateHttpUrl]
  simp only [String.append_assoc]
  split
  · exact .fail
  · split
    · exact .fail
    · exact .other
    · split
      · exact .fail
      · exact .ok

theorem normalizePrefix_rejects_key {route : String} :
    Rejects ["XXL_JOB_ROUTE_PREFIX"] (normalizePrefix route) := by
  rw [normalizePrefix]
  split
  · exact .ok
  split
  · exact .ok
  split
  · exact .starts (by decide +kernel)
  split
  · exact .starts (by decide +kernel)
  simp only
  split
  · exact .starts (by decide +kernel)
  · exact .ok

def configKeys : List String := "XXL_JOB_AUTO_REGISTER_ON_INIT" :: defaults.map (·.1)

theorem Rejects.known {α : Type} {x : Checked α} (h : Rejects [key] x) (hkey : key ∈ configKeys) :
    Rejects configKeys x :=
  h.mono (by simpa using hkey)

theorem interpretAddresses_rejects {enabled : Bool} {route address : String}
    {admins : List String} :
    Rejects ["XXL_JOB_ROUTE_PREFIX"] (interpretAddresses enabled route address admins) := by
  rw [interpretAddresses]
  split
  · exact normalizePrefix_rejects_key.bind fun _ => .ok
  · exact .ok

theorem readAddresses_rejects : Rejects configKeys (readAddresses merged) := by
  rw [readAddresses]
  refine (asBool_rejects.known (by simp [configKeys,defaults])).bind fun _ => ?_
  refine (asBool_rejects.known (by simp [configKeys,defaults])).bind fun _ => ?_
  refine (asBool_rejects.known (by simp [configKeys,defaults])).bind fun _ => ?_
  refine (asStr_rejects.known (by simp [configKeys,defaults])).bind fun _ => ?_
  refine (asStr_rejects.known (by simp [configKeys,defaults])).bind fun _ => ?_
  refine (asStrStrict_rejects.known (by simp [configKeys,defaults])).bind fun _ => ?_
  refine (asStrStrict_rejects.known (by simp [configKeys,defaults])).bind fun _ => ?_
  refine (asStrList_rejects.known (by simp [configKeys,defaults])).bind fun _ => ?_
  refine (interpretAddresses_rejects.known (by simp [configKeys,defaults])).bind fun _ => ?_
  exact .ok

theorem readLimits_rejects : Rejects configKeys (readLimits lib merged cfg) := by
  rw [readLimits]
  refine (asIntFrom_rejects.known (by simp [configKeys,defaults])).bind fun _ => ?_
  refine (asIntFrom_rejects.known (by simp [configKeys,defaults])).bind fun _ => ?_
  refine (asIntFrom_rejects.known (by simp [configKeys,defaults])).bind fun _ => ?_
  refine (asIntFrom_rejects.known (by simp [configKeys,defaults])).bind fun _ => ?_
  refine (asIntFrom_rejects.known (by simp [configKeys,defaults])).bind fun _ => ?_
  refine (asIntFrom_rejects.known (by simp [configKeys,defaults])).bind fun _ => ?_
  refine (asIntFrom_rejects.known (by simp [configKeys,defaults])).bind fun _ => ?_
  refine (asIntFrom_rejects.known (by simp [configKeys,defaults])).bind fun _ => ?_
  refine (asNonNegativeFloat_rejects.known (by simp [configKeys,defaults])).bind fun _ => ?_
  refine (asBool_rejects.known (by simp [configKeys,defaults])).bind fun _ => ?_
  refine (asBool_rejects.known (by simp [configKeys,defaults])).bind fun _ => ?_
  refine (asBool_rejects.known (by simp [configKeys,defaults])).bind fun _ => ?_
  exact .ok

theorem validateLogEncoding_rejects {encoding : String} :
    Rejects ["XXL_JOB_LOG_ENCODING"] (validateLogEncoding lib encoding) := by
  rw [validateLogEncoding]
  split
  · exact .ok
  · simp only [String.append_assoc]
    have htext : "XXL_JOB_LOG_ENCODING".toList <+:
        "XXL_JOB_LOG_ENCODING must name a valid text encoding; got ".toList := by decide +kernel
    refine .starts (htext.trans ?_)
    rw [String.toList_append]
    exact List.prefix_append _ _
  · exact .other

theorem validateLogFormat_rejects {format date : String} :
    Rejects ["XXL_JOB_LOG_FORMAT"] (validateLogFormat lib format date) := by
  rw [validateLogFormat]
  generalize (if date = "" then none else some date) = date
  split
  · exact .ok
  · exact .starts (by decide +kernel)
  · exact .other

theorem readLogging_rejects : Rejects configKeys (readLogging lib merged cfg) := by
  rw [readLogging]
  refine (asBool_rejects.known (by simp [configKeys,defaults])).bind fun _ => ?_
  refine (asBool_rejects.known (by simp [configKeys,defaults])).bind fun _ => ?_
  refine (asBool_rejects.known (by simp [configKeys,defaults])).bind fun _ => ?_
  refine (asChoice_rejects.known (by simp [configKeys,defaults])).bind fun _ => ?_
  refine (asNonEmptyStr_rejects.known (by simp [configKeys,defaults])).bind fun _ => ?_
  refine (asStrStrict_rejects.known (by simp [configKeys,defaults])).bind fun _ => ?_
  refine (asNonEmptyStr_rejects.known (by simp [configKeys,defaults])).bind fun _ => ?_
  refine (asNonEmptyStr_rejects.known (by simp [configKeys,defaults])).bind fun _ => ?_
  refine (asNonEmptyStr_rejects.known (by simp [configKeys,defaults])).bind fun _ => ?_
  refine (asIntFrom_rejects.known (by simp [configKeys,defaults])).bind fun _ => ?_
  refine (asIntFrom_rejects.known (by simp [configKeys,defaults])).bind fun _ => ?_
  refine (asBool_rejects.known (by simp [configKeys,defaults])).bind fun _ => ?_
  refine (validateLogEncoding_rejects.known (by simp [configKeys,defaults])).bind fun _ => ?_
  refine (validateLogFormat_rejects.known (by simp [configKeys,defaults])).bind fun _ => ?_
  exact .ok

theorem forM_rejects {keys l : List String} {f : String → Checked Unit}
    (h : ∀ x, Rejects keys (f x)) : Rejects keys (l.forM f) := by
  induction l with
  | nil => exact .ok
  | cons x l ih => exact (h x).bind fun _ => ih

theorem validate_rejects : Rejects configKeys (cfg.validate lib) := by
  rw [XXLJobConfig.validate]
  split
  · exact .ok
  · refine (forM_rejects fun _ =>
      validateHttpUrl_rejects.known (by simp [configKeys,defaults])).bind fun _ => ?_
    split
    · exact validateHttpUrl_rejects.known (by simp [configKeys,defaults])
    · exact .ok

theorem validateRemovedConfigs_rejects {config : List (String × Value)} :
    Rejects ["XXL_JOB_AUTO_REGISTER_ON_INIT"] (validateRemovedConfigs config) := by
  rw [validateRemovedConfigs]
  split
  · exact .ok
  all_goals exact .starts (by decide +kernel)

/-- Every error of a configuration quotes a key that the extension knows. -/
theorem fromMapping_rejects {config : List (String × Value)} :
    Rejects configKeys (fromMapping lib config) := by
  rw [fromMapping]
  refine (validateRemovedConfigs_rejects.known (by simp [configKeys,defaults])).bind fun _ => ?_
  refine readAddresses_rejects.bind fun _ => ?_
  refine readLimits_rejects.bind fun _ => ?_
  refine readLogging_rejects.bind fun _ => ?_
  exact validate_rejects.bind fun _ => .ok

/-! ### Configurations -/

/-- The defaults pass every check, and are those of the fields. -/
theorem fromMapping_defaults (hlevel : lib.upper "INFO" = "INFO")
    (hcodec : lib.lookupCodec "utf-8" = .returned ())
    (hformat : lib.formatRecord "%(asctime)s [%(levelname)s] [%(name)s] %(message)s"
      (some "%Y-%m-%d %H:%M:%S") = .returned ()) : fromMapping lib [] = .ok {} := by
  have hmerge : merge [] = defaults := rfl
  have hchoice : asChoice lib defaults "XXL_JOB_LOG_LEVEL" logLevels true = .ok "INFO" := by
    have hget : asStr defaults "XXL_JOB_LOG_LEVEL" = .ok "INFO" := rfl
    have hmem : "INFO" ∈ logLevels := by decide
    rw [asChoice,hget]
    change (if lib.upper "INFO" ∈ logLevels then .ok (lib.upper "INFO") else _) = Except.ok _
    rw [hlevel,if_pos hmem]
  have haddresses : readAddresses defaults = .ok {} := rfl
  have hlimits : readLimits lib defaults {} = .ok {} := rfl
  have hencoding : validateLogEncoding lib "utf-8" = .ok () := by
    rw [validateLogEncoding,hcodec]
  have hrecord : validateLogFormat lib "%(asctime)s [%(levelname)s] [%(name)s] %(message)s"
      "%Y-%m-%d %H:%M:%S" = .ok () := by
    rw [validateLogFormat,if_neg (by decide),hformat]
  have hlogging : readLogging lib defaults {} = .ok {} := by
    iterate 3 refine bind_ok_iff.mpr ⟨_,rfl,?_⟩
    refine bind_ok_iff.mpr ⟨_,hchoice,?_⟩
    iterate 8 refine bind_ok_iff.mpr ⟨_,rfl,?_⟩
    refine bind_ok_iff.mpr ⟨_,hencoding,?_⟩
    exact bind_ok_iff.mpr ⟨_,hrecord,rfl⟩
  refine bind_ok_iff.mpr ⟨_,rfl,?_⟩
  refine bind_ok_iff.mpr ⟨_,haddresses,?_⟩
  refine bind_ok_iff.mpr ⟨_,hlimits,?_⟩
  exact bind_ok_iff.mpr ⟨_,hlogging,rfl⟩

/-- An accepted configuration is well formed, its Registry check rejects nothing but a missing
value, and a rejected one is told which key is wrong. -/
theorem configurations_checked (lib : Library) (hf : lib.FloatsKeepSign)
    (config : List (String × Value)) :
    (∀ cfg, fromMapping lib config = .ok cfg → WellFormed lib cfg ∧
      (cfg.enabled = true → cfg.validateRegistry lib =
        match (registryNeeds cfg).find? (·.1) with
        | some (_,message) => fail message
        | none => .ok ())) ∧
    ∀ message, fromMapping lib config = .error (.configError message) →
      ∃ key ∈ configKeys, ∃ before after, message = before ++ key ++ after := by
  refine ⟨fun cfg h => ?_,fromMapping_rejects⟩
  have hwell := fromMapping_wellFormed hf h
  exact ⟨hwell,fun hen => validateRegistry_eq hwell.limits
    (fun address ha => (hwell.adminAddresses hen address ha).1) (hwell.executorAddress hen)⟩

theorem localhost_floatsKeepSign : Library.localhost.FloatsKeepSign := by
  intro i x hi h
  cases h
  exact decide_eq_false (Rat.not_lt.mpr (Rat.intCast_nonneg.mpr hi))

/-- Without an Admin address the defaults are accepted, but not for a Registry operation. -/
theorem configurations_checked_defaults : ∃ cfg, fromMapping .localhost [] = .ok cfg ∧
    WellFormed .localhost cfg ∧ cfg.validateRegistry .localhost =
      fail ("XXL_JOB_ADMIN_ADDRESSES must contain at least one admin address " ++
        "for Registry operations.") := by
  have hcfg : fromMapping .localhost [] = .ok {} := fromMapping_defaults rfl rfl rfl
  obtain ⟨hwell,hregistry⟩ := (configurations_checked .localhost localhost_floatsKeepSign []).1 {}
    hcfg
  exact ⟨{},hcfg,hwell,hregistry rfl⟩

end FlaskXxlJob.Config
