import FlaskXxlJob.Config.RoutePrefix

/-! The checks of the configured HTTP addresses and of what a Registry operation needs. -/
namespace FlaskXxlJob.Config
open Python

variable (lib : Library)

def isValidLabel (label : List Char) : Bool :=
  match label.head?,label.getLast? with
  | some first,some last =>
    label.length ≤ 63 && lib.isAlnum first && lib.isAlnum last &&
      label.all fun c => lib.isAlnum c || c == '-'
  | _,_ => false

/-- IP literals and DNS/IDNA names. -/
def isValidHostname (hostname : String) : Bool :=
  if lib.isIpAddress hostname then true
  else if hostname.toList.all fun c => lib.isDigit c || c == '.' then false
  else
    match lib.encodeIdna hostname with
    | none => false
    | some ascii =>
      let ascii := if ascii.toList.getLast? = some '.' then ascii.toList.dropLast else ascii.toList
      if ascii.isEmpty || 253 < ascii.length then false
      else (ascii.splitOn '.').all (isValidLabel lib)

def isInvalidUrl (value : String) (parsed : SplitResult) : Bool :=
  lib.lower parsed.scheme ∉ ["http","https"] ||
  !(match parsed.hostname with
    | none => false
    | some hostname => hostname != "" && isValidHostname lib hostname) ||
  parsed.port == some 0 || parsed.username.isSome || parsed.password.isSome ||
  parsed.query != "" || parsed.fragment != "" ||
  value.toList.contains '?' || value.toList.contains '#'

/-- `_validate_http_url` -/
def validateHttpUrl (key value : String) : Checked Unit :=
  if value.toList.any fun c => isControl c || isSpace c then
    fail (s!"{key} must be a valid http/https URL without whitespace or " ++
      "control characters.")
  else
    match lib.urlsplit value with
    | .handled => fail s!"{key} must be a valid http/https URL with a valid host and port."
    | .raised errorType => .error (.other errorType)
    | .returned parsed =>
      if isInvalidUrl lib value parsed then
        fail (s!"{key} must be a valid http/https URL with no userinfo, query, " ++
          "fragment, whitespace, or control characters.")
      else .ok ()

/-- `XXLJobConfig.validate` -/
def XXLJobConfig.validate (cfg : XXLJobConfig) : Checked Unit :=
  if !cfg.enabled then .ok ()
  else do
    cfg.adminAddresses.forM (validateHttpUrl lib "XXL_JOB_ADMIN_ADDRESSES")
    if cfg.executorAddress ≠ "" then
      validateHttpUrl lib "XXL_JOB_EXECUTOR_ADDRESS" cfg.executorAddress

/-- The values `validate_registry` checks again. -/
def XXLJobConfig.registryValues (cfg : XXLJobConfig) : List (String × Value) := [
  ("XXL_JOB_REGISTRY_INTERVAL",.int cfg.registryInterval),
  ("XXL_JOB_HTTP_CONNECT_TIMEOUT",.int cfg.httpConnectTimeout),
  ("XXL_JOB_HTTP_READ_TIMEOUT",.int cfg.httpReadTimeout),
  ("XXL_JOB_ADMIN_RETRY_COUNT",.int cfg.adminRetryCount),
  ("XXL_JOB_ADMIN_RETRY_BACKOFF",.float cfg.adminRetryBackoff),
  ("XXL_JOB_ADMIN_FAILOVER_ON_HTTP_ERROR",.bool cfg.adminFailoverOnHttpError),
  ("XXL_JOB_ADMIN_FAILOVER_ON_INVALID_JSON",.bool cfg.adminFailoverOnInvalidJson),
  ("XXL_JOB_ADMIN_FAILOVER_ON_BUSINESS_ERROR",.bool cfg.adminFailoverOnBusinessError)]

/-- `XXLJobConfig.validate_registry` -/
def XXLJobConfig.validateRegistry (cfg : XXLJobConfig) : Checked Unit := do
  if cfg.executorAppName = "" then
    fail "XXL_JOB_EXECUTOR_APP_NAME must not be empty for Registry operations."
  if cfg.adminAddresses = [] then
    fail ("XXL_JOB_ADMIN_ADDRESSES must contain at least one admin address " ++
      "for Registry operations.")
  if cfg.executorAddress = "" then
    fail "XXL_JOB_EXECUTOR_ADDRESS must not be empty for Registry operations."
  cfg.adminAddresses.forM (validateHttpUrl lib "XXL_JOB_ADMIN_ADDRESSES")
  validateHttpUrl lib "XXL_JOB_EXECUTOR_ADDRESS" cfg.executorAddress
  let values := cfg.registryValues
  let _ ← asPositiveInt values "XXL_JOB_REGISTRY_INTERVAL"
  let _ ← asPositiveInt values "XXL_JOB_HTTP_CONNECT_TIMEOUT"
  let _ ← asPositiveInt values "XXL_JOB_HTTP_READ_TIMEOUT"
  let _ ← asNonNegativeInt values "XXL_JOB_ADMIN_RETRY_COUNT"
  let _ ← asNonNegativeFloat lib values "XXL_JOB_ADMIN_RETRY_BACKOFF"
  let _ ← asBool values "XXL_JOB_ADMIN_FAILOVER_ON_HTTP_ERROR"
  let _ ← asBool values "XXL_JOB_ADMIN_FAILOVER_ON_INVALID_JSON"
  let _ ← asBool values "XXL_JOB_ADMIN_FAILOVER_ON_BUSINESS_ERROR"

end FlaskXxlJob.Config
