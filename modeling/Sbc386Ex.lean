import Sbc386Ex.Ide.Script
import Sbc386Ex.Int13.EddAgrees
import Sbc386Ex.Lib.Trace
import Sbc386Ex.Int13.Dispatch
import Sbc386Ex.Ide.Cable
import Sbc386Ex.Int13.EightBit
import Sbc386Ex.Fdc.Card
import Sbc386Ex.Fdc.Heads
import Sbc386Ex.Fdc.Handshake
import Sbc386Ex.Fdc.DiskFdc
import Sbc386Ex.Fdc.HeadPosition
import Sbc386Ex.Fdc.SbcFd
import Sbc386Ex.Fdc.SbcFdHeads
import Sbc386Ex.Int13.Status
import Sbc386Ex.Kbd.Buffer
import Sbc386Ex.Kbd.Vt
import Sbc386Ex.Kbd.Fifo
import Sbc386Ex.Kbd.Stream
import Sbc386Ex.Time.Deadline
import Sbc386Ex.Cpu
import Sbc386Ex.Time.Int1A
import Sbc386Ex.Time.Returns
import Sbc386Ex.Time.Calendar
import Sbc386Ex.Time.Ds1302
import Sbc386Ex.Time.Snapshot
import Sbc386Ex.Video.Int10
import Sbc386Ex.Video.Screen
import Sbc386Ex.Video.Bounds
import Sbc386Ex.Lib.AnsiTerminal
import Sbc386Ex.Video.Mirror
import Sbc386Ex.Video.Cursor
import Sbc386Ex.Kbd.Scan
import Sbc386Ex.Kbd.Shift
import Sbc386Ex.Fdc.MotorLatch
import Sbc386Ex.Int13.Floppy
import Sbc386Ex.Int13.FloppyRun
import Sbc386Ex.Int13.FloppyExact
import Sbc386Ex.Sd.SdSys
import Sbc386Ex.Sd.Request
import Sbc386Ex.Sd.RequestLaw
import Sbc386Ex.Sd.MediaChange
import Sbc386Ex.Sd.MediaSafe
import Sbc386Ex.Sd.CardDetect
import Sbc386Ex.Hex.WriteHex
import Sbc386Ex.Hex.ScanIntel
import Sbc386Ex.Lib.BitBuffer
import Sbc386Ex.Sd.SdCore
import Sbc386Ex.Sd.SbcSd
import Sbc386Ex.Sd.Capture
import Sbc386Ex.Sd.Stream
import Sbc386Ex.Crc16Tab
import Sbc386Ex.Hex.CrcComputation
import Sbc386Ex.Hex.Checksum
import Sbc386Ex.Video.ScrollOutput
import Sbc386Ex.Int13.Geometry
import Sbc386Ex.Int13.Upper
import Sbc386Ex.Fdc.DataPhase
import Sbc386Ex.Fdc.WholeSector
import Sbc386Ex.Time.Nvram
import Sbc386Ex.Time.NvramKept
import Sbc386Ex.Cohfs.Fsw
import Sbc386Ex.Cohfs.Refusals
import Sbc386Ex.Cohfs.Sparse
import Sbc386Ex.Cohfs.Zerofree
import Sbc386Ex.Lib.Gregorian
import Sbc386Ex.Time.DayOfWeek
import Sbc386Ex.Sd.CoreCrc
import Sbc386Ex.CrcAgree
import Sbc386Ex.Lib.PackedBcd
import Sbc386Ex.Setup.Strtobcd
import Sbc386Ex.Setup.Set1302
import Sbc386Ex.Setup.TypedLines
import Sbc386Ex.Time.Delay
import Sbc386Ex.Time.DelayKept
import Sbc386Ex.Boot.BootOrder
import Sbc386Ex.Sd.Volume
import Sbc386Ex.Lib.Instant
import Sbc386Ex.Time.BiosClock
import Sbc386Ex.Monitor.Debugmon
import Sbc386Ex.Monitor.Getline
import Sbc386Ex.Fdc.FdBlock
import Sbc386Ex.Lib.ByteFile
import Sbc386Ex.Rom.Exe2rom
import Sbc386Ex.Sd.MmcBlock
import Sbc386Ex.Rom.Layout
import Sbc386Ex.Lib.Serial
import Sbc386Ex.Time.Pins
import Sbc386Ex.Time.PinBytes
import Sbc386Ex.Time.PinCalls
import Sbc386Ex.Time.PinNvram
import Sbc386Ex.Cohfs.Super
import Sbc386Ex.Cohfs.Pool
import Sbc386Ex.Cohfs.Kernel
import Sbc386Ex.Cohfs.KernelPool
import Sbc386Ex.Cohfs.Shared
import Sbc386Ex.Cohfs.Contents
import Sbc386Ex.Cohfs.Files
import Sbc386Ex.Cohfs.Histories
