import ServerCore.Foundations.StreamDecoder
import ServerCore.Foundations.Binary64
import ServerCore.Foundations.OrderedMap
import ServerCore.Foundations.TokenBucket
import ServerCore.Foundations.Transition
import ServerCore.Foundations.Table
import ServerCore.Foundations.KeyMap
import ServerCore.Foundations.LinkedList
import ServerCore.Core.Bytes
import ServerCore.Core.Utf8
import ServerCore.Core.Status
import ServerCore.Web.HeaderSyntax
import ServerCore.Web.HttpParser
import ServerCore.Web.HttpStages
import ServerCore.Web.HttpSteps
import ServerCore.Web.HttpResumption
import ServerCore.Web.HttpLoop
import ServerCore.Web.HttpFragmentation
import ServerCore.Web.HttpLimits
import ServerCore.Protocol.FrameCodec
import ServerCore.Protocol.FrameStream
import ServerCore.Protocol.FrameDecoding
import ServerCore.Protocol.JsonNumber
import ServerCore.Protocol.Json
import ServerCore.Protocol.JsonGrammar
import ServerCore.Protocol.JsonLexical
import ServerCore.Protocol.JsonSoundness
import ServerCore.Protocol.JsonCompleteness
import ServerCore.Protocol.JsonMagnitude
import ServerCore.Protocol.JsonFailure
import ServerCore.Protocol.JsonLanguage
import ServerCore.Protocol.JsonDump
import ServerCore.Protocol.JsonRoundTrip
import ServerCore.Runtime.TaskExecutor
import ServerCore.Runtime.TaskExecutorInvariant
import ServerCore.Runtime.TaskExecutorAccounts
import ServerCore.Runtime.KeyedExecutor
import ServerCore.Runtime.KeyedExecutorKeys
import ServerCore.Runtime.KeyedExecutorInvariant
import ServerCore.Runtime.KeyedExecutorSteps
import ServerCore.Runtime.KeyedExecutorOrder
import ServerCore.Runtime.KeyedExecutorAccounts
import ServerCore.Runtime.RequestLimiter
import ServerCore.Runtime.RequestLimiterBuckets
import ServerCore.Runtime.RequestLimiterRuns
import ServerCore.Runtime.RequestLimiterReference
import ServerCore.Runtime.RequestLimiterOutcome
import ServerCore.Runtime.TaskGroup
import ServerCore.Runtime.TaskGroupRuns
import ServerCore.Runtime.TaskGroupOutcome
import ServerCore.Runtime.TimerScheduler
import ServerCore.Runtime.TimerSchedulerInvariant
import ServerCore.Runtime.TimerSchedulerSteps
import ServerCore.Runtime.TimerSchedulerRuns
import ServerCore.Runtime.TimerSchedulerOutcome
import ServerCore.Web.Multipart
import ServerCore.Web.MultipartSearch
import ServerCore.Web.MultipartMemory
import ServerCore.Web.MultipartStream
import ServerCore.Web.MultipartTransfer
import ServerCore.Web.MultipartFraming
import ServerCore.Web.MultipartHeaders
import ServerCore.Web.MultipartRoundTrip
import ServerCore.Web.MultipartPreamble
import ServerCore.Web.HttpMessage
import ServerCore.Web.HttpFields
import ServerCore.Web.HttpHead
import ServerCore.Web.HttpBody
import ServerCore.Web.HttpFraming
import ServerCore.Web.HttpStreaming
import ServerCore.Web.HttpSync
import ServerCore.Web.HttpAgreement
import ServerCore.Web.HttpDelivery
import ServerCore.Web.HttpModes
import ServerCore.Web.HttpWaiting
import ServerCore.Web.HttpPeer
import ServerCore.Web.HttpPeerSteps
import ServerCore.Web.HttpPeerShape
import ServerCore.Web.HttpPeerBuffer
import ServerCore.Protocol.BinaryIO
import ServerCore.Protocol.BinaryRoundTrip
import ServerCore.Protocol.FrameReader
import ServerCore.Protocol.FrameAdmission
import ServerCore.Web.RoutePattern
import ServerCore.Web.HttpPolicy
import ServerCore.Web.PolicyRoutes
import ServerCore.Protocol.JsonParsed
import ServerCore.Protocol.Envelope
import ServerCore.Protocol.Message
import ServerCore.Protocol.MessageRoundTrip
import ServerCore.Protocol.MessageAssembly
import ServerCore.Core.Endpoint
import ServerCore.Web.TrustedProxy
import ServerCore.Web.ForwardedJunction
import ServerCore.Web.ProxySpoofing
import ServerCore.Runtime.SessionLifecycle
import ServerCore.Runtime.SessionLifecycleInvariant
import ServerCore.Runtime.SessionLifecycleRuns
import ServerCore.Runtime.SessionFinalization
import ServerCore.Foundations.GroupedMap
import ServerCore.Web.RouteRegistration
import ServerCore.Web.RouteSelection
import ServerCore.Session.SessionRegistry
import ServerCore.Session.SessionRegistryRuns
import ServerCore.Core.CompletionSubscription
import ServerCore.Runtime.Readiness
import ServerCore.Runtime.BoundedChannel
import ServerCore.Runtime.BoundedChannelRuns
import ServerCore.Runtime.LatestValue
import ServerCore.Runtime.LatestValueRuns
import ServerCore.Runtime.Channel
import ServerCore.Runtime.JobRunner
import ServerCore.Runtime.JobRunnerRuns
import ServerCore.Runtime.JobRunnerOutcome
import ServerCore.Web.HttpPeerTicket
import ServerCore.Web.HttpPeerProgress
import ServerCore.Runtime.TimerGrid
import ServerCore.Foundations.FixedWindow
import ServerCore.Runtime.MessageLogLimiter
import ServerCore.Core.Utf8Prefix
import ServerCore.Web.Utf8Fragments
import ServerCore.Web.WebSocketFrame
import ServerCore.Web.ChunkEncoding
import ServerCore.Web.ChunkDecoding
import ServerCore.Net.EpollAcceptor
import ServerCore.Net.EpollAcceptorRuns
import ServerCore.Net.SendQueue
import ServerCore.Net.EpollConnection
import ServerCore.Net.EpollConnectionRuns
import ServerCore.Net.IocpConnection
import ServerCore.Net.IocpConnectionRuns
import ServerCore.Runtime.HostLifecycle
import ServerCore.Runtime.HostLifecycleRuns
import ServerCore.Core.Charconv
import ServerCore.Foundations.CivilDate
import ServerCore.Web.ResponseEncoding
import ServerCore.Foundations.Grid
import ServerCore.Core.CheckedArithmetic
import ServerCore.Runtime.TickRunner
import ServerCore.Runtime.PeriodicRunner
import ServerCore.Runtime.FrameDeadline
import ServerCore.Web.RequestData
import ServerCore.Core.EndpointText
import ServerCore.Core.EndpointNetwork
import ServerCore.Web.FileResponse
import ServerCore.Web.FileRange
import ServerCore.Web.EventStream
import ServerCore.Web.SseEncoding
import ServerCore.Runtime.CompletionSignal
import ServerCore.Runtime.CompletionSignalInvariant
import ServerCore.Runtime.CompletionSignalRuns
import ServerCore.Web.RequestBody
import ServerCore.Web.RequestBodyRuns
import ServerCore.Core.Utf8Language
import ServerCore.Protocol.DatagramCodec
import ServerCore.Protocol.JsonUnderflow
import ServerCore.Core.Config
import ServerCore.Core.Logging
import ServerCore.Observability.LogLine
import ServerCore.CDetail.ReadinessNotifier
import ServerCore.CDetail.ReadinessNotifierRuns
import ServerCore.Core.AtomicFile
import ServerCore.Core.AtomicFileRuns
import ServerCore.Foundations.IntrusiveQueue
import ServerCore.Runtime.SendCapacityRelay
import ServerCore.Runtime.SendCapacityRelayRuns
import ServerCore.Foundations.Slots
import ServerCore.Observability.AsyncLogger
import ServerCore.Observability.AsyncLoggerRuns
import ServerCore.Web.WebSocketHandshake
import ServerCore.Web.WebSocketCuts
import ServerCore.Web.WebSocketMessages
import ServerCore.Web.HttpResponseOutcome
import ServerCore.Web.WebSocketOutputRuns
import ServerCore.Runtime.ParseWorkerPool
