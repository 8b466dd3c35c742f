import FlaskXxlJob.Python.Value

/-! The validated runtime configuration of one application. -/
namespace FlaskXxlJob.Config
open Python

structure XXLJobConfig where
  enabled : Bool := true
  adminAddresses : List String := []
  accessToken : String := ""
  executorAppName : String := "flask-xxljob-executor"
  executorAddress : String := ""
  routePrefix : String := ""
  autoRegister : Bool := true
  deregisterOnExit : Bool := false
  registryInterval : ℤ := 30
  httpConnectTimeout : ℤ := 3
  httpReadTimeout : ℤ := 5
  callbackMessageMaxLength : ℤ := 10000
  maxRequestSize : ℤ := 1048576
  maxParamLength : ℤ := 65536
  callbackBatchMaxSize : ℤ := 100
  adminRetryCount : ℤ := 0
  adminRetryBackoff : Double := .finite 0
  adminFailoverOnHttpError : Bool := true
  adminFailoverOnInvalidJson : Bool := false
  adminFailoverOnBusinessError : Bool := false
  logEnabled : Bool := false
  logFileEnabled : Bool := true
  logConsoleEnabled : Bool := true
  logLevel : String := "INFO"
  logFormat : String := "%(asctime)s [%(levelname)s] [%(name)s] %(message)s"
  logDateFormat : String := "%Y-%m-%d %H:%M:%S"
  logPath : String := "./logs"
  logFilename : String := "flask-xxljob.log"
  logEncoding : String := "utf-8"
  logMaxBytes : ℤ := 10 * 1024 * 1024
  logBackupCount : ℤ := 5
  logPropagate : Bool := false
  deriving DecidableEq

/-- The `(connect, read)` timeouts. -/
def XXLJobConfig.timeout (cfg : XXLJobConfig) : ℤ × ℤ :=
  (cfg.httpConnectTimeout,cfg.httpReadTimeout)

end FlaskXxlJob.Config
