import WiotaDev.WordBytes
import WiotaDev.BitArray
import WiotaDev.NorFlash
import WiotaDev.BlockAssembly
import WiotaDev.HaltingRuns
import WiotaDev.OtaFlash
import WiotaDev.OtaFlashLaws
import WiotaDev.GatewayOta
import WiotaDev.OtaAdmission
import WiotaDev.OtaFlashTransfers
import WiotaDev.OtaReception
import WiotaDev.OtaVerifiedStart
import WiotaDev.OtaQuietMessages
import WiotaDev.OtaEndAccounting
import WiotaDev.OtaMissingData
import WiotaDev.OtaVersions
import WiotaDev.OtaContainment
import WiotaDev.OtaRequests
import WiotaDev.OtaMapBounds
import WiotaDev.OtaMapFreshness
import WiotaDev.OtaDownload
import WiotaDev.PacketCoding
import WiotaDev.DownlinkReads
import WiotaDev.DownlinkPackets
import WiotaDev.PacketRoundTrip
import WiotaDev.ResourceLedger
import WiotaDev.GatewayLifecycle
import WiotaDev.GatewaySessions
import WiotaDev.GatewayDevice
import WiotaDev.GatewayStart
import WiotaDev.GatewayAuthentication
import WiotaDev.StartOutcome
import WiotaDev.AuthRequests
import WiotaDev.StartSteps
import WiotaDev.GatewayDivisions
import WiotaDev.DivisionRuns
import WiotaDev.GatewayIsolation
import WiotaDev.CallbackRegistrations
import WiotaDev.CountingSemaphore
import WiotaDev.SlotCycles
import WiotaDev.TimeSlotArithmetic
import WiotaDev.TimeSlotRelease
import WiotaDev.RtcRequest
import WiotaDev.SimplifiedReconnect
import WiotaDev.SimplifiedScan
import WiotaDev.GatewayShutdown
import WiotaDev.DownlinkBuffers
import WiotaDev.StoredData
import WiotaDev.AutoManagerTask
import WiotaDev.GatewayAppRestart
import WiotaDev.GatewayAppRetry
import WiotaDev.FrequencyConfig
import WiotaDev.SeparatedText
import WiotaDev.FrequencyParsing
import WiotaDev.QuickConnectStop
import WiotaDev.QuickConnectStages
import WiotaDev.MaskRegister
import WiotaDev.PinInterrupts
import WiotaDev.PinDispatch
import WiotaDev.RangePieces
import WiotaDev.OnChipFlash
import WiotaDev.SubsystemScan
import WiotaDev.BlankedLists
import WiotaDev.GatewayAppScan
import WiotaDev.SimplifiedWakeup
import WiotaDev.HeapBlocks
import WiotaDev.SimplifiedPayload
import WiotaDev.SkippedSeparators
import WiotaDev.ScanList
import WiotaDev.ScanCommand
import WiotaDev.LineFraming
import WiotaDev.TransparentMode
import WiotaDev.TransparentFraming
import WiotaDev.BlockReversal
import WiotaDev.SpimFifo
import WiotaDev.SpiTransfers
import WiotaDev.FlashReads
import WiotaDev.HardwareTimer
import WiotaDev.StretchWalk
import WiotaDev.Calendar
import WiotaDev.AlarmDates
import WiotaDev.BatteryVoltage
import WiotaDev.BitSearch
import WiotaDev.RegisterFields
import WiotaDev.Rc32kTrim
import WiotaDev.CrossingSearch
import WiotaDev.RtcCalibration
import WiotaDev.LempelZiv
import WiotaDev.FastLzDecompressor
import WiotaDev.FastLzCompressor
import WiotaDev.FastLzRoundTrip
import WiotaDev.CompressedPackets
import WiotaDev.BlockHashing
import WiotaDev.Md5
import WiotaDev.TinyMd5
import WiotaDev.AtServer
import WiotaDev.AtSessions
import WiotaDev.AtCommands
import WiotaDev.PointerChains
import WiotaDev.Ownership
import WiotaDev.MessageQueue
import WiotaDev.MessageQueueItems
import WiotaDev.MessageQueueMailbox
import WiotaDev.MessageQueueRuns
import WiotaDev.BlockTiling
import WiotaDev.SmallMem
import WiotaDev.SmallMemBlocks
import WiotaDev.SmallMemSteps
import WiotaDev.SmallMemAlloc
import WiotaDev.SmallMemFree
import WiotaDev.SmallMemOwners
import WiotaDev.SmallMemRuns
import WiotaDev.KernelTimers
import WiotaDev.TimerDeadlines
import WiotaDev.TimerRuns
import WiotaDev.TimerService
