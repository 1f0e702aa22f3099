import LegoCar.Board.AccelSums
import LegoCar.Board.Accelerometer
import LegoCar.Board.Calibration
import LegoCar.Board.Controller
import LegoCar.Board.Conversation
import LegoCar.Board.Delivery
import LegoCar.Board.FailSafe
import LegoCar.Board.Firmware
import LegoCar.Board.FrameIntegrity
import LegoCar.Board.Interlock
import LegoCar.Board.MainLoop
import LegoCar.Board.PidReference
import LegoCar.Board.Receive
import LegoCar.Board.Reconnect
import LegoCar.Board.StallTrip
import LegoCar.Board.Standstill
import LegoCar.Board.Steps
import LegoCar.Board.Timeout
import LegoCar.Board.Transmit
import LegoCar.Board.Uart
import LegoCar.Board.UartFlow
import LegoCar.Board.Uninitialised
import LegoCar.Board.Watchdog
import LegoCar.Camera.EndOfSequence
import LegoCar.Camera.FrameBuffer
import LegoCar.Camera.FrameContents
import LegoCar.Camera.FrameExtraction
import LegoCar.Camera.HuffmanTables
import LegoCar.Camera.ImageProc
import LegoCar.Camera.MjpegInputStream
import LegoCar.Camera.Playback
import LegoCar.Camera.ReadMjpegFrame
import LegoCar.Client.Display
import LegoCar.Client.JoyStick
import LegoCar.Client.Post
import LegoCar.Client.Script
import LegoCar.Client.VirtualJoystick
import LegoCar.Lib.Dialogue
import LegoCar.Lib.Driven
import LegoCar.Lib.ExtRat
import LegoCar.Lib.FdTable
import LegoCar.Lib.FloatBits
import LegoCar.Lib.Framing
import LegoCar.Lib.Int32Exact
import LegoCar.Lib.Json
import LegoCar.Lib.LittleEndian
import LegoCar.Lib.MarkerSearch
import LegoCar.Lib.Numerals
import LegoCar.Lib.Printed
import LegoCar.Lib.Properties
import LegoCar.Lib.Queue
import LegoCar.Lib.Rounding
import LegoCar.Lib.Stdio
import LegoCar.Lib.StructLayout
import LegoCar.Lib.Sweep
import LegoCar.Lib.Waveform
import LegoCar.Lib.WhileLoop
import LegoCar.Lib.Writes
import LegoCar.Server.BoardVisit
import LegoCar.Server.BufferBounds
import LegoCar.Server.CarHandler
import LegoCar.Server.CommandInvariant
import LegoCar.Server.Configuration
import LegoCar.Server.Connection
import LegoCar.Server.Descriptors
import LegoCar.Server.Discipline
import LegoCar.Server.DistanceLimit
import LegoCar.Server.EventLoop
import LegoCar.Server.Handshake
import LegoCar.Server.Isolation
import LegoCar.Server.Orphans
import LegoCar.Server.ParseCommand
import LegoCar.Server.Remnants
import LegoCar.Server.Segments
import LegoCar.Server.SpeedLimit
import LegoCar.Server.StatusReply
import LegoCar.Server.Supervision
import LegoCar.Simulator.Codec
import LegoCar.Simulator.NanoBoard
import LegoCar.Simulator.Struct
import LegoCar.System.ClosedLoop
import LegoCar.System.Link
import LegoCar.System.Progress
import LegoCar.System.Stop
import LegoCar.System.Unattended
import LegoCar.System.Visit
import LegoCar.Ultrasound.Driver
import LegoCar.Ultrasound.Interface
import LegoCar.Ultrasound.Measuring
import LegoCar.Wire.HostStream
import LegoCar.Wire.Layout
import LegoCar.Wire.Records
