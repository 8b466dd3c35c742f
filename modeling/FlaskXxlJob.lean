import FlaskXxlJob.Client.CallResult
import FlaskXxlJob.Registry.Ownership
import FlaskXxlJob.Registry.WorkerAccount
import FlaskXxlJob.Registry.Growth
import FlaskXxlJob.Registry.Invariant
import FlaskXxlJob.Registry.History
import FlaskXxlJob.Registry.Fencing
import FlaskXxlJob.Registry.ControlFlow
import FlaskXxlJob.Registry.Status
import FlaskXxlJob.Interleaving.Between
import FlaskXxlJob.Registry.Responsibility
import FlaskXxlJob.Registry.Requests
import FlaskXxlJob.Registry.SingleCleanup
import FlaskXxlJob.Registry.Reopening
import FlaskXxlJob.Registry.Calls
import FlaskXxlJob.Registry.Coverage
import FlaskXxlJob.Registry.LogClosing
import FlaskXxlJob.Registry.PreparedProtocol
import FlaskXxlJob.Protocol.Parser
import FlaskXxlJob.Callback.Registry
import FlaskXxlJob.Callback.Sequences
import FlaskXxlJob.Model.Requests
import FlaskXxlJob.Protocol.Dispatch
import FlaskXxlJob.Client.Batch
import FlaskXxlJob.Config.RoutePrefix
import FlaskXxlJob.Extension.TokenSecrecy
import FlaskXxlJob.Extension.InitSequence
import FlaskXxlJob.Registry.StoppedRenewal
import FlaskXxlJob.Logging.Records
import FlaskXxlJob.Config.WellFormed
import FlaskXxlJob.Protocol.Wire
import FlaskXxlJob.Extension.Delivery
import FlaskXxlJob.Client.Configured
import FlaskXxlJob.Registry.Settling
import FlaskXxlJob.Registry.Freshness
import FlaskXxlJob.Runtime.Closing
