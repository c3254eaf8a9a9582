import Mx6xBsp.Lib.Spans
import Mx6xBsp.Lib.Rings
import Mx6xBsp.Lib.Runs
import Mx6xBsp.Lib.Coverings
import Mx6xBsp.Lib.Cursors
import Mx6xBsp.Lib.Loops
import Mx6xBsp.Lib.Words
import Mx6xBsp.Lib.CStrings
import Mx6xBsp.Lib.Ledgers
import Mx6xBsp.Lib.Masks
import Mx6xBsp.Lib.Mappings
import Mx6xBsp.Lib.Blocks
import Mx6xBsp.Startup.Basic
import Mx6xBsp.Startup.Asinfo
import Mx6xBsp.Devnp.Transmit
import Mx6xBsp.Devnp.TransmitRing
import Mx6xBsp.Devnp.TransmitErrors
import Mx6xBsp.Devnp.TransmitFrees
import Mx6xBsp.Devnp.Receive
import Mx6xBsp.Devnp.ReceiveRuns
import Mx6xBsp.Devnp.Multicast
import Mx6xBsp.Ipl.FatFs
import Mx6xBsp.Ipl.FatCache
import Mx6xBsp.Ipl.FileCopy
import Mx6xBsp.Ipl.ImageScan
import Mx6xBsp.Ipl.SerialDownload
import Mx6xBsp.Ipl.StartupInfo
import Mx6xBsp.Ipl.Checksum
import Mx6xBsp.Ipl.Division
import Mx6xBsp.Lib.Histories
import Mx6xBsp.Ipl.MemTests
import Mx6xBsp.Ipl.MemTestRuns
import Mx6xBsp.Ipl.DirLookup
import Mx6xBsp.Ipl.FatVolume
import Mx6xBsp.Ipl.ChainEnds
import Mx6xBsp.Arm.ArmMap
import Mx6xBsp.Arm.ArmTables
import Mx6xBsp.Arm.ArmMapRuns
import Mx6xBsp.Arm.ElfMap
import Mx6xBsp.Arm.ElfMapRuns
import Mx6xBsp.Arm.LpaeMap
import Mx6xBsp.Arm.LpaeTables
import Mx6xBsp.Arm.LpaeRuns
import Mx6xBsp.Startup.AsTable
import Mx6xBsp.Startup.Ram
import Mx6xBsp.Startup.RamList
import Mx6xBsp.Startup.RamWrap
import Mx6xBsp.Startup.RamSearch
import Mx6xBsp.Startup.RamCalls
import Mx6xBsp.Startup.RamSafety
import Mx6xBsp.Startup.Sysram
import Mx6xBsp.Startup.Published
import Mx6xBsp.Startup.Syspage
import Mx6xBsp.Startup.TypedStrings
import Mx6xBsp.Startup.SyspageSections
import Mx6xBsp.Startup.SyspageRuns
import Mx6xBsp.Startup.SectionText
import Mx6xBsp.Startup.StringPool
import Mx6xBsp.Startup.Strings
import Mx6xBsp.Startup.Hwinfo
import Mx6xBsp.Startup.HwinfoTags
import Mx6xBsp.Startup.HwinfoRuns
import Mx6xBsp.Startup.RestoreIfs
import Mx6xBsp.Startup.Ifs2Restore
import Mx6xBsp.Startup.Ifs2Protect
import Mx6xBsp.Flash.Words
import Mx6xBsp.Flash.MirrorBit
import Mx6xBsp.Flash.Suspend
import Mx6xBsp.Flash.SramLock
import Mx6xBsp.Flash.CfiGeometry
import Mx6xBsp.Flash.Poll
import Mx6xBsp.Flash.Program
import Mx6xBsp.Flash.AmdChip
import Mx6xBsp.Flash.AcfiWrite
import Mx6xBsp.Flash.GlsWrite
import Mx6xBsp.Flash.IcfiWrite
import Mx6xBsp.Flash.Probe
import Mx6xBsp.Spi.Master
import Mx6xBsp.Spi.Locks
import Mx6xBsp.Spi.Exchange
import Mx6xBsp.Spi.Config
import Mx6xBsp.Dma.Sdma
import Mx6xBsp.Dma.SdmaChannels
import Mx6xBsp.Dma.TransferSetup
import Mx6xBsp.Dma.Commands
import Mx6xBsp.Lib.BitFields
import Mx6xBsp.Sdmmc.Registers
import Mx6xBsp.Sdmmc.RegisterFields
import Mx6xBsp.Devnp.Ptp
import Mx6xBsp.Devnp.PtpRuns
import Mx6xBsp.Devnp.PtpCompensation
import Mx6xBsp.Devnp.PtpFrames
import Mx6xBsp.Lib.Handover
import Mx6xBsp.Deva.Esai
import Mx6xBsp.Deva.EsaiRates
import Mx6xBsp.Deva.Combine
import Mx6xBsp.Deva.Interleave
import Mx6xBsp.Deva.Multiplex
import Mx6xBsp.Devc.RxDma
import Mx6xBsp.Devc.RxDmaRuns
import Mx6xBsp.Devc.TxDma
import Mx6xBsp.Devc.TxDmaRuns
import Mx6xBsp.Devc.TxOverride
import Mx6xBsp.Devc.BaudRate
import Mx6xBsp.Lib.Plans
import Mx6xBsp.Sdmmc.Partitions
import Mx6xBsp.Sdmmc.Confinement
import Mx6xBsp.Lib.Descent
import Mx6xBsp.Sdmmc.BusError
import Mx6xBsp.Sdmmc.BusErrorRuns
import Mx6xBsp.Lib.Brackets
import Mx6xBsp.Sdmmc.CardUsage
import Mx6xBsp.Sdmmc.CardRemoval
import Mx6xBsp.Sdmmc.Command
import Mx6xBsp.Sdmmc.CommandRuns
import Mx6xBsp.Lib.Traces
import Mx6xBsp.Sdmmc.WriteCache
import Mx6xBsp.Sdmmc.WriteCacheRuns
import Mx6xBsp.Sdmmc.Bkops
import Mx6xBsp.I2c.Imx
import Mx6xBsp.I2c.Isolation
import Mx6xBsp.I2c.Transfer
import Mx6xBsp.I2c.BusSpeed
import Mx6xBsp.Deva.Split
import Mx6xBsp.Deva.Demultiplex
import Mx6xBsp.Deva.EsaiEngine
import Mx6xBsp.Pmic.Events
import Mx6xBsp.Lib.Fields
import Mx6xBsp.Deva.EsaiClock
import Mx6xBsp.Sdmmc.ClockDividers
import Mx6xBsp.Ipl.BlockRead
import Mx6xBsp.Lib.Copies
import Mx6xBsp.Lib.Extents
import Mx6xBsp.Lib.Checked
import Mx6xBsp.Sdmmc.AdmaSetup
import Mx6xBsp.Sdmmc.PioXfer
import Mx6xBsp.Sdmmc.EraseTimeout
import Mx6xBsp.Sdmmc.SdPassword
import Mx6xBsp.Sdmmc.Assd
import Mx6xBsp.Sdmmc.VendorCommands
import Mx6xBsp.Can.MiniDriver
import Mx6xBsp.Can.InterruptRuns
import Mx6xBsp.Can.MiniCapture
import Mx6xBsp.Startup.AddContaining
import Mx6xBsp.Startup.AvoidRanges
import Mx6xBsp.Startup.BootArgs
import Mx6xBsp.Startup.StorageTables
import Mx6xBsp.Startup.SearchResult
import Mx6xBsp.Startup.SdmaCopy
import Mx6xBsp.Startup.Ecspi
import Mx6xBsp.Lib.Strides
import Mx6xBsp.Startup.Calendar
import Mx6xBsp.Norspi.Flash
import Mx6xBsp.Utils.Mc146818
import Mx6xBsp.Utils.Mx6Srtc
import Mx6xBsp.Startup.MemMove
import Mx6xBsp.Startup.TimerInverse
import Mx6xBsp.Startup.TimerTicks
