import RenodeSystemC.Lib.Machine
import RenodeSystemC.Lib.Bytes
import RenodeSystemC.Lib.Tlm
import RenodeSystemC.Signals.Registers
import RenodeSystemC.Signals.Hmp
import RenodeSystemC.Signals.HmpSystem
import RenodeSystemC.Signals.HmpPorts
import RenodeSystemC.Signals.HmpStore
import RenodeSystemC.Signals.HmpWriter
import RenodeSystemC.Signals.Riscv
import RenodeSystemC.Signals.RiscvWriter
import RenodeSystemC.Signals.Equivalence
import RenodeSystemC.Lib.Fifo
import RenodeSystemC.Peripherals.FifoAdapter
import RenodeSystemC.Peripherals.Peripheral
import RenodeSystemC.Peripherals.Ring
import RenodeSystemC.Peripherals.RingProgress
import RenodeSystemC.Peripherals.Dma
import RenodeSystemC.Peripherals.DmaPayload
import RenodeSystemC.Peripherals.DmaProtocol
import RenodeSystemC.Lib.Copy
import RenodeSystemC.Dmac.Dmac
import RenodeSystemC.Dmac.Arbitration
import RenodeSystemC.Dmac.Transfer
import RenodeSystemC.Dmac.Copy
import RenodeSystemC.Dmac.Counter
import RenodeSystemC.Lib.Thumb
import RenodeSystemC.MultiCore.Memory
import RenodeSystemC.MultiCore.PingPong
import RenodeSystemC.CortexM.SignalsPeripheral
import RenodeSystemC.CortexM.Ports
import RenodeSystemC.CortexM.CoreReset
import RenodeSystemC.Lib.Waveform
import RenodeSystemC.CortexM.ResetPulse
import RenodeSystemC.Interrupts.PortInterrupter
import RenodeSystemC.Interrupts.Bus
import RenodeSystemC.Peripherals.Device
import RenodeSystemC.Peripherals.RateLimit
import RenodeSystemC.Peripherals.Timer
import RenodeSystemC.Peripherals.TransferDone
import RenodeSystemC.Peripherals.Window
import RenodeSystemC.Peripherals.Overrun
import RenodeSystemC.Peripherals.Rollover
import RenodeSystemC.Peripherals.DmaErrors
import RenodeSystemC.Native.Dmi
import RenodeSystemC.Native.TestState
import RenodeSystemC.Native.DmiTest
import RenodeSystemC.Lib.Peq
import RenodeSystemC.Native.NonBlocking
import RenodeSystemC.Lt.SimpleBus
import RenodeSystemC.Lt.Memory
import RenodeSystemC.Lt.AtTarget
import RenodeSystemC.Lib.Numbered
import RenodeSystemC.Lt.TrafficGenerator
import RenodeSystemC.Lt.Schedule
import RenodeSystemC.Lt.Platform
import RenodeSystemC.Lt.Progress
import RenodeSystemC.Lt.ReadBack
import RenodeSystemC.Lib.BaseProtocol
import RenodeSystemC.Lt.SimpleBusAT
import RenodeSystemC.Lt.Transit
import RenodeSystemC.Lt.TransitInv
import RenodeSystemC.Lt.TransitThreads
import RenodeSystemC.Lt.Carried
