import Xhyve.Lib.Transition
import Xhyve.Lib.BoundedLines
import Xhyve.Manager.Config
import Xhyve.Manager.CommandLine
import Xhyve.Lib.BitWords
import Xhyve.Lib.Ring
import Xhyve.Lib.Linked
import Xhyve.Lib.LittleEndian
import Xhyve.Lib.ByteMemory
import Xhyve.Lib.SearchTree
import Xhyve.Lib.WaitQueue
import Xhyve.Lib.Fallible
import Xhyve.Lib.Pacing
import Xhyve.Lib.DoubleWord
import Xhyve.Virtio.Vqueue
import Xhyve.Virtio.Chains
import Xhyve.Virtio.RingProtocol
import Xhyve.Virtio.EventIndex
import Xhyve.Virtio.Locking
import Xhyve.Virtio.GuestRam
import Xhyve.Virtio.Containment
import Xhyve.Vmm.Callouts
import Xhyve.Vmm.CalloutQueue
import Xhyve.Vmm.CalloutTiming
import Xhyve.Vmm.CalloutDrain
import Xhyve.Vmm.Decode
import Xhyve.Vmm.DecodeStream
import Xhyve.Vmm.DecodeCut
import Xhyve.Vmm.DecodeRoundTrip
import Xhyve.Vmm.RipRelative
import Xhyve.Vmm.PageWalk
import Xhyve.Vmm.PageWalkSdm
import Xhyve.Vmm.SegmentAddress
import Xhyve.Vmm.TaskSwitch
import Xhyve.Vmm.TaskSwitchFrame
import Xhyve.Vmm.TaskSwitchAtomic
import Xhyve.Vmm.TaskSwitchMemory
import Xhyve.Vmm.GuestCopy
import Xhyve.Vmm.InstFetch
import Xhyve.Vmm.DecodeOperands
import Xhyve.Vmm.Emulate
import Xhyve.Vmm.EmulateStores
import Xhyve.Vmm.EmulateRepeat
import Xhyve.Vmm.EmulateArith
import Xhyve.Vmm.TaskSwitchBack
import Xhyve.Vmm.TaskSwitchChecks
import Xhyve.Vmm.Lapic
import Xhyve.Vmm.LapicInService
import Xhyve.Vmm.ApStartup
import Xhyve.Vmm.RtcClock
import Xhyve.Vmm.RtcCalendar
import Xhyve.Vmm.RtcDecoding
import Xhyve.Vmm.Rtc
import Xhyve.Vmm.RtcCallout
import Xhyve.Vmm.RtcInterrupt
import Xhyve.Vmm.RtcTime
import Xhyve.Vmm.RtcUpdate
import Xhyve.Vmm.Hpet
import Xhyve.Vmm.HpetStatus
import Xhyve.Vmm.HpetTiming
import Xhyve.Vmm.HpetEvents
import Xhyve.Emul.Mem
import Xhyve.Emul.MemDispatch
import Xhyve.Emul.MemRegister
import Xhyve.Emul.NetTx
import Xhyve.Emul.Mevent
import Xhyve.Emul.Inout
import Xhyve.Emul.PciConfig
import Xhyve.Emul.PciBars
import Xhyve.Emul.PciDecode
import Xhyve.Emul.PciRanges
import Xhyve.Emul.PciMmio
import Xhyve.Emul.PciCaps
import Xhyve.Emul.PciCapsWrites
import Xhyve.Emul.PciMsi
import Xhyve.Emul.PciMsiMirror
import Xhyve.Emul.PciMsixTable
import Xhyve.Emul.PciWindows
import Xhyve.Emul.PciAlloc
import Xhyve.Emul.BlockIf
import Xhyve.Emul.DiskGeometry
import Xhyve.Emul.Md5
import Xhyve.Emul.AcpiPm
import Xhyve.Emul.BlockIfProc
import Xhyve.Emul.BlockIfQueues
import Xhyve.Emul.BlockIfOrder
import Xhyve.Vmm.Rendezvous
import Xhyve.Lib.Tally
import Xhyve.Emul.PciIrq
import Xhyve.Emul.PciIrqBalance
import Xhyve.Virtio.Registers
import Xhyve.Virtio.RegisterFile
import Xhyve.Vmm.LongMode
import Xhyve.Lib.BitFlags
import Xhyve.Vmm.Ioapic
import Xhyve.Vmm.IoapicRemoteIrr
import Xhyve.Lib.WordSet
import Xhyve.Lib.RoundRobin
import Xhyve.Lib.Gather
import Xhyve.Lib.Circular
import Xhyve.Lib.Locks
import Xhyve.Vmm.LapicDest
import Xhyve.Vmm.LapicDestResolve
import Xhyve.Vmm.LapicMasks
import Xhyve.Vmm.LapicMasked
import Xhyve.Vmm.LapicTimer
import Xhyve.Vmm.LapicCount
import Xhyve.Vmm.Halt
import Xhyve.Vmm.HaltDetection
import Xhyve.Vmm.HaltWakeup
import Xhyve.Vmm.Shutdown
import Xhyve.Vmm.ShutdownPlaces
import Xhyve.Vmm.ShutdownEnd
import Xhyve.Vmm.Pic8259
import Xhyve.Vmm.VmxInject
import Xhyve.Vmm.VmxInjectSafe
import Xhyve.Vmm.VcpuState
import Xhyve.Vmm.EventMerge
import Xhyve.Emul.VirtioBlock
import Xhyve.Emul.VirtioBlockQueues
import Xhyve.Emul.VirtioBlockReset
import Xhyve.Emul.Ahci
import Xhyve.Emul.AhciCommands
import Xhyve.Emul.AhciPorts
import Xhyve.Emul.AhciEffects
import Xhyve.Emul.AhciAnswers
import Xhyve.Emul.AhciRequests
import Xhyve.Emul.AhciSteps
import Xhyve.Emul.AhciRegisters
import Xhyve.Emul.AhciInterrupts
import Xhyve.Emul.AhciSlots
import Xhyve.Emul.AhciIssue
import Xhyve.Emul.AhciStopped
import Xhyve.Emul.AhciTransfers
import Xhyve.Emul.AhciCoverage
import Xhyve.Emul.DiskBounds
import Xhyve.Emul.AhciTrim
import Xhyve.Vmm.IoapicLapics
import Xhyve.Vmm.IoapicLapicsParts
import Xhyve.Vmm.IoapicLapicsAgree
import Xhyve.Vmm.PicPorts
import Xhyve.Vmm.PicLines
import Xhyve.Vmm.PicCascade
import Xhyve.Vmm.PicAcknowledge
import Xhyve.Vmm.Pit
import Xhyve.Vmm.PitProgram
import Xhyve.Vmm.PitLatch
import Xhyve.Vmm.MemSetup
import Xhyve.Emul.Uart
import Xhyve.Emul.UartReceive
import Xhyve.Emul.InoutEmulate
import Xhyve.Emul.InoutAccumulator
import Xhyve.Emul.InoutRepeat
import Xhyve.Lib.WriteLog
import Xhyve.Lib.Records
import Xhyve.Lib.Exclusive
import Xhyve.Lib.Places
import Xhyve.Lib.BinarySearch
import Xhyve.Lib.BlockStream
import Xhyve.Firmware.Kexec
import Xhyve.Firmware.KexecLayout
import Xhyve.Firmware.MpTable
import Xhyve.Firmware.SmbiosTable
import Xhyve.Firmware.GuestTables
import Xhyve.Lib.Numeral
import Xhyve.Manager.Memsize
import Xhyve.Emul.NetFeatures
import Xhyve.Emul.NetRx
