import RiscvHypervisor.AddressTranslation
import RiscvHypervisor.GuestMemory
import RiscvHypervisor.MemoryExhaustion

/-!
The frames that `init_hs_pgtable` asks `kmalloc` for when it maps the RAM of a
guest.  They are noted where `map_pages` asks for them and counted in the run on the
machine.
-/

namespace RiscvHypervisor.FrameRequests

open RiscvHypervisor.EffectProgram
open RiscvHypervisor.MachineTypes
open RiscvHypervisor.GuestConfig
open RiscvHypervisor.OwnedMemory
open RiscvHypervisor.UnmappedMemory
open RiscvHypervisor.KernelMemory
open RiscvHypervisor.PageTable
open RiscvHypervisor.NullPageTraps
open RiscvHypervisor.TableTree
open RiscvHypervisor.PageMapping
open RiscvHypervisor.HardwareWalk
open RiscvHypervisor.PageUpdate
open RiscvHypervisor.PageBudget
open RiscvHypervisor.MemoryExhaustion
open RiscvHypervisor.GuestMemory
open RiscvHypervisor.AddressTranslation

section Noted

end Noted

section Counting

variable {α β : Type} {s t : KernelMem}

variable {pgtable va : Uint64} {pteFlags x4 : Int}

/-- The round of `map_pages` that allocates its frame. -/
def round (pgtable va : Uint64) (pteFlags x4 : Int) (i : Uint64) : KernelM Int :=
  frameFor 0 i >>= fun tmp => mapPage pgtable (va + i) tmp pteFlags x4

end Counting

section Rounds

variable {dynamic : DynamicSymbol} {x4 : Int} {root : Uint64} {others : List Uint64}
  {s : KernelMem} {home : Set Uint64} {T : Tables} {l l₀ : Share Uint64} {free : List Uint64}

end Rounds

section Limit

variable {dynamic : DynamicSymbol} {conf : VmConfig} {s : KernelMem} {free : List Uint64}

end Limit

section Sample

end Sample

end RiscvHypervisor.FrameRequests
