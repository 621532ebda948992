import PacketPipe.AccessLogs
import PacketPipe.AddressTexts
import PacketPipe.AvroGenericData
import PacketPipe.AvroWireFormat
import PacketPipe.BoundedFifos
import PacketPipe.CaptureAccounting
import PacketPipe.CaptureClockModel
import PacketPipe.CaptureResources
import PacketPipe.CaptureShutdown
import PacketPipe.CaptureShutdownModel
import PacketPipe.CaptureSourceModel
import PacketPipe.ConfigArithmetic
import PacketPipe.ConfigOptions
import PacketPipe.ConfigParserModel
import PacketPipe.DatagramBounds
import PacketPipe.DropWarnings
import PacketPipe.EventDates
import PacketPipe.EventQueueKnowledge
import PacketPipe.EventQueueMemory
import PacketPipe.EventQueueModel
import PacketPipe.EventQueueRaces
import PacketPipe.EventQueueRefinement
import PacketPipe.EventQueueWaiting
import PacketPipe.FairSchedules
import PacketPipe.FlowAccounting
import PacketPipe.FlowEventOrder
import PacketPipe.FlowEvents
import PacketPipe.FlowHeartbeats
import PacketPipe.FlowIdleGaps
import PacketPipe.FlowIsolation
import PacketPipe.FlowKeyHashes
import PacketPipe.FlowSweeps
import PacketPipe.FlowTableCallbacks
import PacketPipe.FlowTableEntries
import PacketPipe.FlowTableMetrics
import PacketPipe.FlowTableModel
import PacketPipe.FlowTableShutdown
import PacketPipe.FlowTeardown
import PacketPipe.FrameIdentity
import PacketPipe.IntegerOptions
import PacketPipe.KafkaConfiguration
import PacketPipe.KafkaSinkAccounts
import PacketPipe.KafkaSinkDelivery
import PacketPipe.KafkaSinkOrdering
import PacketPipe.KafkaSinkTermination
import PacketPipe.KeyValueLines
import PacketPipe.LastSeenTimes
import PacketPipe.LastValues
import PacketPipe.LockedCalls
import PacketPipe.MultiplyXorHashes
import PacketPipe.PacketDecoderAccesses
import PacketPipe.PacketDecoderModel
import PacketPipe.PacketDecoding
import PacketPipe.PipelineCalls
import PacketPipe.PipelineDelivery
import PacketPipe.PipelineMetrics
import PacketPipe.PipelineModel
import PacketPipe.PipelineOrder
import PacketPipe.PipelineProgress
import PacketPipe.PipelineRecords
import PacketPipe.PipelineRuns
import PacketPipe.PipelineShutdown
import PacketPipe.PipelineSimulation
import PacketPipe.PollingClocks
import PacketPipe.RankedMachines
import PacketPipe.ReleaseAcquire
import PacketPipe.ReplayFiles
import PacketPipe.ReplayTiming
import PacketPipe.SchemaRegistry
import PacketPipe.SessionTraces
import PacketPipe.SignedWords
import PacketPipe.TimestampRanges
