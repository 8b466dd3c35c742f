import FlaskXxlJob.Client.CallbackClient

/-! The Admin registry client. -/
namespace FlaskXxlJob.Client
open Python Config

def registryPath : String := "/api/registry"
def registryRemovePath : String := "/api/registryRemove"

def registryGroupExecutor : String := "EXECUTOR"

structure RegistryRequest where
  registryGroup : String := registryGroupExecutor
  registryKey : String := ""
  registryValue : String := ""

def RegistryRequest.forExecutor (appName address : String) : RegistryRequest where
  registryKey := appName
  registryValue := address

def RegistryRequest.toWire (r : RegistryRequest) : Value :=
  .dict [("registryGroup",.str r.registryGroup),("registryKey",.str r.registryKey),
    ("registryValue",.str r.registryValue)]

def adminArguments (cfg : XXLJobConfig) (apiPath : String) (payload : Value) : Arguments where
  adminAddresses := cfg.adminAddresses
  apiPath := apiPath
  payload := payload
  accessToken := cfg.accessToken
  timeout := cfg.timeout
  policy := some (.fromConfig cfg)

variable (cfg : XXLJobConfig) (elapsed : ℕ → ℤ) (outcomes : ℕ → PostOutcome)

/-- The shape of both calls of the client. -/
def callAdmin (apiPath : String) (request : RegistryRequest) : CallResult :=
  if cfg.enabled = false then disabledResult
  else (postToAdmins (adminArguments cfg apiPath request.toWire) elapsed outcomes).1

def AdminClient.registry (request : RegistryRequest) : CallResult :=
  callAdmin cfg elapsed outcomes registryPath request

def AdminClient.registryRemove (request : RegistryRequest) : CallResult :=
  callAdmin cfg elapsed outcomes registryRemovePath request

/-- `_build_request` -/
def buildRequest : RegistryRequest := .forExecutor cfg.executorAppName cfg.executorAddress

end FlaskXxlJob.Client
