import FlaskXxlJob.Config.HttpUrl

/-! Building the configuration from the application's mapping. -/
namespace FlaskXxlJob.Config
open Python Utils

def defaults : List (String × Value) := [
  ("XXL_JOB_ENABLED",.bool true),
  ("XXL_JOB_ADMIN_ADDRESSES",.list []),
  ("XXL_JOB_ACCESS_TOKEN",.str ""),
  ("XXL_JOB_EXECUTOR_APP_NAME",.str "flask-xxljob-executor"),
  ("XXL_JOB_EXECUTOR_ADDRESS",.str ""),
  ("XXL_JOB_ROUTE_PREFIX",.str ""),
  ("XXL_JOB_AUTO_REGISTER",.bool true),
  ("XXL_JOB_DEREGISTER_ON_EXIT",.bool false),
  ("XXL_JOB_REGISTRY_INTERVAL",.int 30),
  ("XXL_JOB_HTTP_CONNECT_TIMEOUT",.int 3),
  ("XXL_JOB_HTTP_READ_TIMEOUT",.int 5),
  ("XXL_JOB_CALLBACK_MESSAGE_MAX_LENGTH",.int 10000),
  ("XXL_JOB_MAX_REQUEST_SIZE",.int 1048576),
  ("XXL_JOB_MAX_PARAM_LENGTH",.int 65536),
  ("XXL_JOB_CALLBACK_BATCH_MAX_SIZE",.int 100),
  ("XXL_JOB_ADMIN_RETRY_COUNT",.int 0),
  ("XXL_JOB_ADMIN_RETRY_BACKOFF",.float (.finite 0)),
  ("XXL_JOB_ADMIN_FAILOVER_ON_HTTP_ERROR",.bool true),
  ("XXL_JOB_ADMIN_FAILOVER_ON_INVALID_JSON",.bool false),
  ("XXL_JOB_ADMIN_FAILOVER_ON_BUSINESS_ERROR",.bool false),
  ("XXL_JOB_LOG_ENABLED",.bool false),
  ("XXL_JOB_LOG_FILE_ENABLED",.bool true),
  ("XXL_JOB_LOG_CONSOLE_ENABLED",.bool true),
  ("XXL_JOB_LOG_LEVEL",.str "INFO"),
  ("XXL_JOB_LOG_FORMAT",.str "%(asctime)s [%(levelname)s] [%(name)s] %(message)s"),
  ("XXL_JOB_LOG_DATE_FORMAT",.str "%Y-%m-%d %H:%M:%S"),
  ("XXL_JOB_LOG_PATH",.str "./logs"),
  ("XXL_JOB_LOG_FILENAME",.str "flask-xxljob.log"),
  ("XXL_JOB_LOG_ENCODING",.str "utf-8"),
  ("XXL_JOB_LOG_MAX_BYTES",.int (10 * 1024 * 1024)),
  ("XXL_JOB_LOG_BACKUP_COUNT",.int 5),
  ("XXL_JOB_LOG_PROPAGATE",.bool false)]

def logLevels : List String := ["DEBUG","INFO","WARNING","ERROR","CRITICAL"]

/-- The defaults, overridden by what the mapping holds. -/
def merge (config : List (String × Value)) : List (String × Value) :=
  defaults.map fun d => (d.1,(config.lookup d.1).getD d.2)

def validateRemovedConfigs (config : List (String × Value)) : Checked Unit :=
  match config.lookup "XXL_JOB_AUTO_REGISTER_ON_INIT" with
  | none => .ok ()
  | some (.bool false) =>
    fail ("XXL_JOB_AUTO_REGISTER_ON_INIT 已删除。\n\n" ++
      "如需保持手动 Registry 启动，请设置：\n\n" ++
      "XXL_JOB_AUTO_REGISTER=False\n\n" ++
      "然后在需要的生命周期显式调用：\n\n" ++
      "start_registry()")
  | some (.bool true) =>
    fail ("XXL_JOB_AUTO_REGISTER_ON_INIT 已删除。\n\n" ++
      "请删除该配置，并保留：\n\n" ++
      "XXL_JOB_AUTO_REGISTER=True")
  | some _ =>
    fail ("XXL_JOB_AUTO_REGISTER_ON_INIT 已删除，请删除该配置并使用 " ++
      "XXL_JOB_AUTO_REGISTER 控制 Registry 自动启动。")

/-- `_normalize_address` -/
def normalizeAddress (value : String) : String :=
  if value = "" then "" else rstripBy isSlash value

/-- `_apply_route_prefix` -/
def applyRoutePrefix (address routePrefix : String) : String :=
  if address = "" ∨ routePrefix = "" then address else joinUrl address routePrefix

/-- The route prefix, the executor address and the Admin addresses. A disabled application keeps
the texts as they are. -/
def interpretAddresses (enabled : Bool) (rawRoutePrefix rawExecutorAddress : String)
    (rawAdminAddresses : List String) : Checked (String × String × List String) :=
  if enabled then do
    let routePrefix ← normalizePrefix rawRoutePrefix
    return (routePrefix,applyRoutePrefix (normalizeAddress rawExecutorAddress) routePrefix,
      rawAdminAddresses.map normalizeAddress)
  else return (rawRoutePrefix,rawExecutorAddress,rawAdminAddresses)

variable (lib : Library) (merged : List (String × Value))

/-! `from_mapping` reads its fields in three groups. -/

def readAddresses : Checked XXLJobConfig := do
  let enabled ← asBool merged "XXL_JOB_ENABLED"
  let autoRegister ← asBool merged "XXL_JOB_AUTO_REGISTER"
  let deregisterOnExit ← asBool merged "XXL_JOB_DEREGISTER_ON_EXIT"
  let rawAccessToken ← asStr merged "XXL_JOB_ACCESS_TOKEN"
  let accessToken := if strip rawAccessToken = "" then "" else rawAccessToken
  let executorAppName ← asStr merged "XXL_JOB_EXECUTOR_APP_NAME"
  let rawRoutePrefix ← asStrStrict merged "XXL_JOB_ROUTE_PREFIX"
  let rawExecutorAddress ← asStrStrict merged "XXL_JOB_EXECUTOR_ADDRESS"
  let rawAdminAddresses ← asStrList merged "XXL_JOB_ADMIN_ADDRESSES"
  let (routePrefix,executorAddress,adminAddresses) ←
    interpretAddresses enabled rawRoutePrefix rawExecutorAddress rawAdminAddresses
  return { enabled, adminAddresses, accessToken, executorAppName, executorAddress, routePrefix,
           autoRegister, deregisterOnExit }

def readLimits (cfg : XXLJobConfig) : Checked XXLJobConfig := do
  let registryInterval ← asPositiveInt merged "XXL_JOB_REGISTRY_INTERVAL"
  let httpConnectTimeout ← asPositiveInt merged "XXL_JOB_HTTP_CONNECT_TIMEOUT"
  let httpReadTimeout ← asPositiveInt merged "XXL_JOB_HTTP_READ_TIMEOUT"
  let callbackMessageMaxLength ← asPositiveInt merged "XXL_JOB_CALLBACK_MESSAGE_MAX_LENGTH"
  let maxRequestSize ← asPositiveInt merged "XXL_JOB_MAX_REQUEST_SIZE"
  let maxParamLength ← asPositiveInt merged "XXL_JOB_MAX_PARAM_LENGTH"
  let callbackBatchMaxSize ← asPositiveInt merged "XXL_JOB_CALLBACK_BATCH_MAX_SIZE"
  let adminRetryCount ← asNonNegativeInt merged "XXL_JOB_ADMIN_RETRY_COUNT"
  let adminRetryBackoff ← asNonNegativeFloat lib merged "XXL_JOB_ADMIN_RETRY_BACKOFF"
  let adminFailoverOnHttpError ← asBool merged "XXL_JOB_ADMIN_FAILOVER_ON_HTTP_ERROR"
  let adminFailoverOnInvalidJson ← asBool merged "XXL_JOB_ADMIN_FAILOVER_ON_INVALID_JSON"
  let adminFailoverOnBusinessError ← asBool merged "XXL_JOB_ADMIN_FAILOVER_ON_BUSINESS_ERROR"
  return { cfg with
    registryInterval, httpConnectTimeout, httpReadTimeout, callbackMessageMaxLength,
    maxRequestSize, maxParamLength, callbackBatchMaxSize, adminRetryCount, adminRetryBackoff,
    adminFailoverOnHttpError, adminFailoverOnInvalidJson, adminFailoverOnBusinessError }

def validateLogEncoding (encoding : String) : Checked Unit :=
  match lib.lookupCodec encoding with
  | .returned _ => .ok ()
  | .handled =>
    let shown := lib.repr encoding
    fail s!"XXL_JOB_LOG_ENCODING must name a valid text encoding; got {shown}."
  | .raised errorType => .error (.other errorType)

def validateLogFormat (logFormat dateFormat : String) : Checked Unit :=
  match lib.formatRecord logFormat (if dateFormat = "" then none else some dateFormat) with
  | .returned _ => .ok ()
  | .handled => fail "XXL_JOB_LOG_FORMAT is not a valid standard logging format."
  | .raised errorType => .error (.other errorType)

def readLogging (cfg : XXLJobConfig) : Checked XXLJobConfig := do
  let logEnabled ← asBool merged "XXL_JOB_LOG_ENABLED"
  let logFileEnabled ← asBool merged "XXL_JOB_LOG_FILE_ENABLED"
  let logConsoleEnabled ← asBool merged "XXL_JOB_LOG_CONSOLE_ENABLED"
  let logLevel ← asChoice lib merged "XXL_JOB_LOG_LEVEL" logLevels true
  let logFormat ← asNonEmptyStr merged "XXL_JOB_LOG_FORMAT"
  let logDateFormat ← asStrStrict merged "XXL_JOB_LOG_DATE_FORMAT"
  let logPath ← asNonEmptyStr merged "XXL_JOB_LOG_PATH"
  let logFilename ← asNonEmptyStr merged "XXL_JOB_LOG_FILENAME"
  let logEncoding ← asNonEmptyStr merged "XXL_JOB_LOG_ENCODING"
  let logMaxBytes ← asPositiveInt merged "XXL_JOB_LOG_MAX_BYTES"
  let logBackupCount ← asNonNegativeInt merged "XXL_JOB_LOG_BACKUP_COUNT"
  let logPropagate ← asBool merged "XXL_JOB_LOG_PROPAGATE"
  validateLogEncoding lib logEncoding
  validateLogFormat lib logFormat logDateFormat
  return { cfg with
    logEnabled, logFileEnabled, logConsoleEnabled, logLevel, logFormat, logDateFormat, logPath,
    logFilename, logEncoding, logMaxBytes, logBackupCount, logPropagate }

/-- `XXLJobConfig.from_mapping` -/
def fromMapping (config : List (String × Value)) : Checked XXLJobConfig := do
  validateRemovedConfigs config
  let merged := merge config
  let cfg ← readAddresses merged
  let cfg ← readLimits lib merged cfg
  let cfg ← readLogging lib merged cfg
  cfg.validate lib
  return cfg

end FlaskXxlJob.Config
