import JeogiAt.Library.Machine
import JeogiAt.Library.Bytes
import JeogiAt.UartProtocol
import JeogiAt.UartMailbox
import JeogiAt.UartResponse
import JeogiAt.UsartHal
import JeogiAt.UsartDelivery
import JeogiAt.UsartRearm
import JeogiAt.CameraPacket
import JeogiAt.ClientReader
import JeogiAt.ClientSoundness
import JeogiAt.ClientOverflow
import JeogiAt.ClientStream
import JeogiAt.ClientResync
import JeogiAt.SendQueue
import JeogiAt.GasReadings
import JeogiAt.Library.Counting
import JeogiAt.CongestionAnalyzer
import JeogiAt.ZoneSnapshots
import JeogiAt.Library.Json
import JeogiAt.CommandHandler
import JeogiAt.ZoneOwnership
import JeogiAt.CommandReader
import JeogiAt.RoiUpdates
import JeogiAt.RoiReload
import JeogiAt.RoiBroadcast
import JeogiAt.Library.Elements
import JeogiAt.MetadataParser
import JeogiAt.HanwhaNode
import JeogiAt.ModeControl
import JeogiAt.MotorRace
import JeogiAt.UartParsers
import JeogiAt.SensorStore
import JeogiAt.Library.RingBuffer
import JeogiAt.AudioStreamRx
import JeogiAt.AudioBlocks
import JeogiAt.AudioPlayer
import JeogiAt.AudioFiles
import JeogiAt.AudioSamples
import JeogiAt.AudioEof
import JeogiAt.Library.Streams
import JeogiAt.UartRobustness
import JeogiAt.Library.Decimal
import JeogiAt.Library.Greedy
import JeogiAt.MatrixRun
import JeogiAt.WavListing
import JeogiAt.UartHandler
import JeogiAt.HandlerReplies
import JeogiAt.TrainScreen
import JeogiAt.CongestionPanel
import JeogiAt.TempHumi
import JeogiAt.RequestAnswers
import JeogiAt.ObjectBoxes
import JeogiAt.MalformedObjects
import JeogiAt.Library.Refill
import JeogiAt.ZoneReload
import JeogiAt.PiObjects
import JeogiAt.DisplayControl
import JeogiAt.ScreenRedraw
import JeogiAt.DwellLaw
import JeogiAt.Library.Smoothing
import JeogiAt.GasFilters
import JeogiAt.PacketBoundaries
import JeogiAt.MicStream
import JeogiAt.Library.Upsert
import JeogiAt.RoiLaws
import JeogiAt.FramePacking
import JeogiAt.SubwayTrains
import JeogiAt.RecordingManager
import JeogiAt.SubwayArrivals
import JeogiAt.RecordingCounts
import JeogiAt.RecordingStates
import JeogiAt.SegmentRolls
import JeogiAt.Library.Loops
import JeogiAt.SdInit
import JeogiAt.AudioNames
import JeogiAt.Library.Crc
import JeogiAt.Sht20Crc
import JeogiAt.Library.Spans
import JeogiAt.RoiEditor
import JeogiAt.GuiPaint
import JeogiAt.DisplayScreens
import JeogiAt.Hub75Scan
import JeogiAt.LedBoard
import JeogiAt.SdRead
import JeogiAt.HeardStream
import JeogiAt.StationLights
import JeogiAt.CameraChannel
import JeogiAt.InferHandoff
import JeogiAt.Library.DoubleBuffer
import JeogiAt.Loudspeaker
import JeogiAt.FanControl
import JeogiAt.ClientSession
