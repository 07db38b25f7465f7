import ReflowOven.AddressLiterals
import ReflowOven.Appliance
import ReflowOven.ApplicationContract
import ReflowOven.BoundedQueues
import ReflowOven.CStringScanning
import ReflowOven.CTextFormatting
import ReflowOven.CapturedHandles
import ReflowOven.ClickAnswers
import ReflowOven.CommandAcceptance
import ReflowOven.CommandAuthorisation
import ReflowOven.CommandEncodings
import ReflowOven.CommandQuery
import ReflowOven.CommandQueryGrammar
import ReflowOven.CommandService
import ReflowOven.Configuration
import ReflowOven.ConnectionPool
import ReflowOven.ControllerInvariants
import ReflowOven.ControllerThread
import ReflowOven.DeliveredDuty
import ReflowOven.DetentArithmetic
import ReflowOven.DisplayScreen
import ReflowOven.ElementSafety
import ReflowOven.EncoderSelection
import ReflowOven.EventStream
import ReflowOven.FatalErrors
import ReflowOven.FaultLatch
import ReflowOven.FrontPanel
import ReflowOven.GateDecision
import ReflowOven.GateSoundness
import ReflowOven.GuardedMachines
import ReflowOven.HeaderLines
import ReflowOven.HeaterOutput
import ReflowOven.HeaterShadow
import ReflowOven.HeaterStaleCutoff
import ReflowOven.HttpGate
import ReflowOven.HttpRequestGrammar
import ReflowOven.HttpResponseGrammar
import ReflowOven.HttpRouting
import ReflowOven.HttpServer
import ReflowOven.JsonReader
import ReflowOven.KernelSemaphores
import ReflowOven.LineFolding
import ReflowOven.LineStreams
import ReflowOven.LinearInterpolation
import ReflowOven.LinkReadiness
import ReflowOven.LinkSupervision
import ReflowOven.MachineArithmetic
import ReflowOven.MeasuredOven
import ReflowOven.MinimumPulse
import ReflowOven.OperatorPage
import ReflowOven.OvenLifecycle
import ReflowOven.PercentCoding
import ReflowOven.PidBounds
import ReflowOven.PidControl
import ReflowOven.PostedCommands
import ReflowOven.ProfileListText
import ReflowOven.ProfileRunCompletion
import ReflowOven.ProfileSelection
import ReflowOven.ProfileSelector
import ReflowOven.ProfileValidation
import ReflowOven.ProfilesJson
import ReflowOven.ProfilesJsonMemory
import ReflowOven.PublishedFrames
import ReflowOven.ReflowProfiles
import ReflowOven.RegisterReads
import ReflowOven.RemoteStop
import ReflowOven.ResourceLifetimes
import ReflowOven.ResponseIntegrity
import ReflowOven.RestartedMachines
import ReflowOven.RunDurationBound
import ReflowOven.RunIsolation
import ReflowOven.RunTermination
import ReflowOven.RunnerArithmetic
import ReflowOven.SelectionPanel
import ReflowOven.SendBudget
import ReflowOven.SendProgress
import ReflowOven.SerialConsole
import ReflowOven.SerialOrders
import ReflowOven.SerialOven
import ReflowOven.SerialSession
import ReflowOven.SerialisedCommands
import ReflowOven.SetpointEnvelope
import ReflowOven.SpikeFilter
import ReflowOven.StageCounters
import ReflowOven.StutterRefinement
import ReflowOven.TelemetryBuffers
import ReflowOven.TelemetryJson
import ReflowOven.TelemetryRoundTrip
import ReflowOven.TemperatureReading
import ReflowOven.WifiReconnection
