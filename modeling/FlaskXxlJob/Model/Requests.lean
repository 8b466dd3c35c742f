import FlaskXxlJob.Model.Coerce

/-! The typed requests of the four endpoints that reach a callback. -/
namespace FlaskXxlJob.Model
open Python

structure TriggerRequest where
  jobId : ℤ := 0
  executorHandler : String := ""
  executorParams : String := ""
  executorBlockStrategy : String := ""
  executorTimeout : ℤ := 0
  logId : ℤ := 0
  logDateTime : ℤ := 0
  glueType : String := ""
  glueSource : String := ""
  glueUpdateTime : ℤ := 0
  broadcastIndex : ℤ := 0
  broadcastTotal : ℤ := 0
  deriving DecidableEq

def TriggerRequest.fromWire (data : List (String × Value)) :
    Except ModelParseError TriggerRequest := do
  let jobId ← coerceInt (get data "jobId") "jobId" 0
  let executorHandler ← coerceStr (get data "executorHandler") "executorHandler" ""
  let executorParams ← coerceStr (get data "executorParams") "executorParams" ""
  let executorBlockStrategy ←
    coerceStr (get data "executorBlockStrategy") "executorBlockStrategy" ""
  let executorTimeout ← coerceInt (get data "executorTimeout") "executorTimeout" 0
  let logId ← coerceInt (get data "logId") "logId" 0
  let logDateTime ← coerceInt (get data "logDateTime") "logDateTime" 0
  let glueType ← coerceStr (get data "glueType") "glueType" ""
  let glueSource ← coerceStr (get data "glueSource") "glueSource" ""
  let glueUpdateTime ← coerceInt (get data "glueUpdatetime") "glueUpdatetime" 0
  let broadcastIndex ← coerceInt (get data "broadcastIndex") "broadcastIndex" 0
  let broadcastTotal ← coerceInt (get data "broadcastTotal") "broadcastTotal" 0
  return { jobId, executorHandler, executorParams, executorBlockStrategy, executorTimeout, logId,
           logDateTime, glueType, glueSource, glueUpdateTime, broadcastIndex, broadcastTotal }

structure IdleBeatRequest where
  jobId : ℤ := 0
  deriving DecidableEq

def IdleBeatRequest.fromWire (data : List (String × Value)) :
    Except ModelParseError IdleBeatRequest := do
  let jobId ← coerceInt (get data "jobId") "jobId" 0
  return { jobId }

structure KillRequest where
  jobId : ℤ := 0
  deriving DecidableEq

def KillRequest.fromWire (data : List (String × Value)) : Except ModelParseError KillRequest := do
  let jobId ← coerceInt (get data "jobId") "jobId" 0
  return { jobId }

structure LogRequest where
  logDateTime : ℤ := 0
  logId : ℤ := 0
  fromLineNum : ℤ := 0
  deriving DecidableEq

/-- The wire field is `logDateTim`. -/
def LogRequest.fromWire (data : List (String × Value)) : Except ModelParseError LogRequest := do
  let logDateTime ← coerceInt (get data "logDateTim") "logDateTim" 0
  let logId ← coerceInt (get data "logId") "logId" 0
  let fromLineNum ← coerceInt (get data "fromLineNum") "fromLineNum" 0
  return { logDateTime, logId, fromLineNum }

/-- The model of a request to one of the four endpoints. -/
inductive Request where
  | trigger (r : TriggerRequest)
  | idleBeat (r : IdleBeatRequest)
  | kill (r : KillRequest)
  | log (r : LogRequest)
  deriving DecidableEq

end FlaskXxlJob.Model
