import TelemetryPlatform.GuardedRuns
import TelemetryPlatform.ResumableSteps
import TelemetryPlatform.CriticalSections
import TelemetryPlatform.HeldBlocks
import TelemetryPlatform.LinkedChains
import TelemetryPlatform.BatchedWindow
import TelemetryPlatform.KeyedWindow
import TelemetryPlatform.SilentWindow
import TelemetryPlatform.BlockStreams
import TelemetryPlatform.CallStreams
import TelemetryPlatform.StreamTurns
import TelemetryPlatform.StringBuilder
import TelemetryPlatform.Utf8Text
import TelemetryPlatform.JsonText
import TelemetryPlatform.JsonStrings
import TelemetryPlatform.JsonValues
import TelemetryPlatform.FormattedText
import TelemetryPlatform.FormattedJson
import TelemetryPlatform.Binary64
import TelemetryPlatform.Base64
import TelemetryPlatform.Sha1
import TelemetryPlatform.HeaderLines
import TelemetryPlatform.CsvRecords
import TelemetryPlatform.CStrings
import TelemetryPlatform.TelemetryTypes
import TelemetryPlatform.SampleJson
import TelemetryPlatform.WellFormedSamples
import TelemetryPlatform.ReplayEncoding
import TelemetryPlatform.CachePublisher
import TelemetryPlatform.RobotThreads
import TelemetryPlatform.RobotCache
import TelemetryPlatform.RobotStages
import TelemetryPlatform.RobotSnapshots
import TelemetryPlatform.RobotPackets
import TelemetryPlatform.RobotStop
import TelemetryPlatform.RobotTicks
import TelemetryPlatform.SampleQueue
import TelemetryPlatform.SamplePipeline
import TelemetryPlatform.WriterConnection
import TelemetryPlatform.WriterThread
import TelemetryPlatform.GatewayBridge
import TelemetryPlatform.GatewayThreads
import TelemetryPlatform.GatewayPhases
import TelemetryPlatform.GatewayMemory
import TelemetryPlatform.GatewayStop
import TelemetryPlatform.GatewayAccounts
import TelemetryPlatform.GatewayReports
import TelemetryPlatform.SchemaMigration
import TelemetryPlatform.ResumedMigration
import TelemetryPlatform.CompleteSchema
import TelemetryPlatform.HistoryReply
import TelemetryPlatform.HistoryFailures
import TelemetryPlatform.HistoryRequests
import TelemetryPlatform.LatestSamples
import TelemetryPlatform.AcceptKey
import TelemetryPlatform.HttpHandshake
import TelemetryPlatform.ReceivedSegments
import TelemetryPlatform.WsFrames
import TelemetryPlatform.WsReceive
import TelemetryPlatform.AppendCalls
import TelemetryPlatform.RequestBoundary
import TelemetryPlatform.WsServer
import TelemetryPlatform.WsSteps
import TelemetryPlatform.WsSends
import TelemetryPlatform.WsRecords
import TelemetryPlatform.WsCalls
import TelemetryPlatform.WsStreams
import TelemetryPlatform.RecordRelease
import TelemetryPlatform.HandshakeOrder
import TelemetryPlatform.FrameOrder
import TelemetryPlatform.BroadcastReach
import TelemetryPlatform.OutageInterval
import TelemetryPlatform.OutageInjection
import TelemetryPlatform.StaleSockets
import TelemetryPlatform.ClientDialogue
import TelemetryPlatform.PeerFrames
import TelemetryPlatform.LiveStream
import TelemetryPlatform.UiSession
import TelemetryPlatform.UiChanges
import TelemetryPlatform.UiLog
import TelemetryPlatform.UiRequests
import TelemetryPlatform.UiMessages
import TelemetryPlatform.AutoReconnect
import TelemetryPlatform.LiveNeverMissing
import TelemetryPlatform.CsvExport
import TelemetryPlatform.LossAnalysis
import TelemetryPlatform.GapColumn
import TelemetryPlatform.LivePath
