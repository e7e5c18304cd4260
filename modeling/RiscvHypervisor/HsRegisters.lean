import RiscvHypervisor.GuestConfig
import RiscvHypervisor.HardwareWalk

/-!
`init_hs` of `core/vm_run.c`: the control registers with which a hart enters its
machine, and the root of the second-stage walk that it puts into `hgatp`.
-/

namespace RiscvHypervisor.HsRegisters

open RiscvHypervisor.MachineTypes
open RiscvHypervisor.GuestConfig
open RiscvHypervisor.KernelMemory
open RiscvHypervisor.HardwareWalk

section Registers

/-- The registers that `init_hs` writes, with the values written to them. -/
structure HsCsrs where
  hgatp : Uint64
  hstatus : Uint64
  hedeleg : Uint64
  hideleg : Uint64
  hvip : Uint64
  hip : Uint64
  hie : Uint64
  hgeie : Uint64
  hcounteren : Uint64
  htimedelta : Uint64
  htval : Uint64
  htinst : Uint64
  henvcfg : Uint64

def atpPpn : Uint64 := 0xfffffffffff
def atpModeSv39 : Uint64 := (0b1000 : Uint64) <<< 60

def hstatusSpv : Uint64 := (1 : Uint64) <<< 7
def hstatusVsxl64 : Uint64 := (2 : Uint64) <<< 32

def hedelegInstructionAddrMisaligned : Uint64 := (1 : Uint64) <<< 0
def hedelegInstructionAccessFault : Uint64 := (1 : Uint64) <<< 1
def hedelegIllegalInstruction : Uint64 := (1 : Uint64) <<< 2
def hedelegBreakpoint : Uint64 := (1 : Uint64) <<< 3
def hedelegLoadAddrMisaligned : Uint64 := (1 : Uint64) <<< 4
def hedelegLoadAccessFault : Uint64 := (1 : Uint64) <<< 5
def hedelegStoreOrAmoAddressMisaligned : Uint64 := (1 : Uint64) <<< 6
def hedelegStoreOrAmoAccessFault : Uint64 := (1 : Uint64) <<< 7
def hedelegEcallFromU : Uint64 := (1 : Uint64) <<< 8
def hedelegInstructionPageFault : Uint64 := (1 : Uint64) <<< 12
def hedelegLoadPageFault : Uint64 := (1 : Uint64) <<< 13
def hedelegStoreOrAmoPageFault : Uint64 := (1 : Uint64) <<< 15

def hidelegVsti : Uint64 := (1 : Uint64) <<< 6
def hidelegVsei : Uint64 := (1 : Uint64) <<< 10

def hcounterenTm : Uint64 := (1 : Uint64) <<< 1

def henvcfgSstc : Uint64 := (1 : Uint64) <<< 63
def henvcfgAdue : Uint64 := (1 : Uint64) <<< 61

/-- `henvcfg` keeps its other bits.  The fence behind the write of `hgatp` has nothing
to do here: the walk reads memory each time. -/
def initHs (conf : VmConfig) (csrs : HsCsrs) : HsCsrs :=
  let pgtablePa := kva2pa conf.vmPgtable
  { hgatp := atpModeSv39 ||| pgtablePa >>> 12
    hstatus := hstatusVsxl64 ||| hstatusSpv
    hedeleg := 0
      ||| hedelegInstructionAddrMisaligned
      ||| hedelegInstructionAccessFault
      ||| hedelegIllegalInstruction
      ||| hedelegBreakpoint
      ||| hedelegLoadAddrMisaligned
      ||| hedelegLoadAccessFault
      ||| hedelegStoreOrAmoAddressMisaligned
      ||| hedelegStoreOrAmoAccessFault
      ||| hedelegEcallFromU
      ||| hedelegInstructionPageFault
      ||| hedelegLoadPageFault
      ||| hedelegStoreOrAmoPageFault
    hideleg := hidelegVsti ||| hidelegVsei
    hvip := 0
    hip := 0
    hie := 0
    hgeie := 0
    hcounteren := hcounterenTm
    htimedelta := 0
    htval := 0
    htinst := 0
    henvcfg := csrs.henvcfg ||| (henvcfgSstc ||| henvcfgAdue) }

end Registers

section Root

/-- The second stage translates by Sv39x4. -/
def isSv39 (hgatp : Uint64) : Bool := hgatp >>> 60 = 0b1000

/-- The physical address of the root.  It has four pages, so the two low bits of its
page number are zero. -/
def secondStageRoot (hgatp : Uint64) : Uint64 := (hgatp &&& atpPpn) >>> 2 <<< 14

variable {dynamic : DynamicSymbol} {conf : VmConfig}

theorem toNat_kva2pa_root (h : IsRoot dynamic conf.vmPgtable) :
    (kva2pa conf.vmPgtable).toNat < 2 ^ 56 ∧ (kva2pa conf.vmPgtable).toNat % 16384 = 0 := by
  have haligned := congrArg BitVec.toNat h.aligned
  have hlower := h.lower
  have hupper := h.upper
  have hhigh := dynamic.toNat_le
  have hmod : conf.vmPgtable.toNat % 16384 = 0 := by rwa [BitVec.toNat_umod] at haligned
  rw [BitVec.le_def, vasKernel_toNat] at hlower
  rw [kva2pa, BitVec.toNat_add, BitVec.toNat_sub, vasKernel_toNat, dtbMemory_toNat]
  omega

/-- The mode lies above the page number. -/
theorem toNat_hgatp (h : IsRoot dynamic conf.vmPgtable) (csrs : HsCsrs) :
    (initHs conf csrs).hgatp.toNat = 2 ^ 63 + (kva2pa conf.vmPgtable).toNat / 4096 := by
  obtain ⟨hbound, -⟩ := toNat_kva2pa_root h
  have hpage : (kva2pa conf.vmPgtable >>> 12).toNat = (kva2pa conf.vmPgtable).toNat / 4096 := by
    rw [BitVec.toNat_ushiftRight, Nat.shiftRight_eq_div_pow]
  have hmode : atpModeSv39.toNat = 2 ^ 63 * 1 := rfl
  have hlow : (kva2pa conf.vmPgtable).toNat / 4096 < 2 ^ 63 := by omega
  rw [initHs, BitVec.toNat_or, hmode, hpage, ← Nat.two_pow_add_eq_or_of_lt hlow 1, Nat.mul_one]

/-- The harts of a machine walk through its table. -/
theorem initHs_secondStage (h : IsRoot dynamic conf.vmPgtable) (csrs : HsCsrs) :
    isSv39 (initHs conf csrs).hgatp ∧
      secondStageRoot (initHs conf csrs).hgatp = kva2pa conf.vmPgtable := by
  obtain ⟨hbound, hmod⟩ := toNat_kva2pa_root h
  have hhgatp := toNat_hgatp h csrs
  constructor
  · rw [isSv39, decide_eq_true_eq]
    apply BitVec.eq_of_toNat_eq
    rw [BitVec.toNat_ushiftRight, hhgatp, Nat.shiftRight_eq_div_pow]
    change _ = 8
    omega
  · have hppn : atpPpn.toNat = 2 ^ 44 - 1 := rfl
    apply BitVec.eq_of_toNat_eq
    rw [secondStageRoot, BitVec.toNat_shiftLeft, BitVec.toNat_ushiftRight, BitVec.toNat_and, hhgatp,
      hppn, Nat.and_two_pow_sub_one_eq_mod, Nat.shiftRight_eq_div_pow, Nat.shiftLeft_eq]
    omega

/-- Guest page faults come to the hypervisor. -/
theorem initHs_hedeleg (conf : VmConfig) (csrs : HsCsrs) :
    ∀ cause ∈ [20, 21, 22, 23], (initHs conf csrs).hedeleg.getLsbD cause = false := by
  have hvalue : (initHs conf csrs).hedeleg = 0xb1ff := rfl
  rw [hvalue]
  decide

end Root

end RiscvHypervisor.HsRegisters
