import RiscvHypervisor.TransitionSystem
import RiscvHypervisor.Barrier
import RiscvHypervisor.BarrierRounds
import RiscvHypervisor.BarrierSchedules
import RiscvHypervisor.BarrierSeparation
import RiscvHypervisor.BarrierDeadlock
import RiscvHypervisor.EffectProgram
import RiscvHypervisor.MachineTypes
import RiscvHypervisor.GuestConfig
import RiscvHypervisor.PlicDriver
import RiscvHypervisor.VirtualCpu
import RiscvHypervisor.VirtualPlic
import RiscvHypervisor.EmulatedAccess
import RiscvHypervisor.RegisterMap
import RiscvHypervisor.RegisterExecution
import RiscvHypervisor.PlicSystem
import RiscvHypervisor.InterruptDelivery
import RiscvHypervisor.ClaimDelivery
import RiscvHypervisor.OwnedMemory
import RiscvHypervisor.UnmappedMemory
import RiscvHypervisor.KernelMemory
import RiscvHypervisor.PageTable
import RiscvHypervisor.NullPageTraps
import RiscvHypervisor.TableTree
import RiscvHypervisor.PageMapping
import RiscvHypervisor.HardwareWalk
import RiscvHypervisor.AddressTranslation
import RiscvHypervisor.AllocatorPartition
import RiscvHypervisor.GuestMemory
import RiscvHypervisor.GuestIsolation
import RiscvHypervisor.InterruptRouting
import RiscvHypervisor.PlicNonInterference
import RiscvHypervisor.VirtualRegisterFile
import RiscvHypervisor.CpuPartition
import RiscvHypervisor.RiscvAssembly
import RiscvHypervisor.TrapHandlers
import RiscvHypervisor.TrapVector
import RiscvHypervisor.TrapTransparency
import RiscvHypervisor.ZeroRegister
import RiscvHypervisor.FaultDispatch
import RiscvHypervisor.MemoryExhaustion
import RiscvHypervisor.HartNumbering
import RiscvHypervisor.Spinlock
import RiscvHypervisor.FrameRequests
import RiscvHypervisor.GuestLimits
import RiscvHypervisor.PlicMemoryMap
import RiscvHypervisor.Printf
import RiscvHypervisor.PositionalNotation
import RiscvHypervisor.PrintfOutput
import RiscvHypervisor.PrintfFormat
import RiscvHypervisor.PrintfGrammar
import RiscvHypervisor.PrintfDecimal
import RiscvHypervisor.PrintfBounds
import RiscvHypervisor.VmRun
import RiscvHypervisor.VmRunOrder
import RiscvHypervisor.InitVmem
import RiscvHypervisor.KernelWalk
import RiscvHypervisor.KernelAddressSpace
import RiscvHypervisor.Unwinding
import RiscvHypervisor.BootMemory
import RiscvHypervisor.ShippedConfig
import RiscvHypervisor.HsRegisters
import RiscvHypervisor.GuestAccess
import RiscvHypervisor.GuestNoninterference
import RiscvHypervisor.LockedSections
import RiscvHypervisor.SpinlockSections
import RiscvHypervisor.AllocatorSections
