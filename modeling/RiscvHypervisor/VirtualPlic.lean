import RiscvHypervisor.PlicDriver
import RiscvHypervisor.VirtualCpu

/-!
The virtual PLIC of `virtual/vplic.c`: trapped guest loads and stores are
decoded into registers and carried out on the physical PLIC with the sources
and contexts renumbered.
-/

namespace RiscvHypervisor.VirtualPlic

open RiscvHypervisor.EffectProgram
open RiscvHypervisor.MachineTypes
open RiscvHypervisor.GuestConfig
open RiscvHypervisor.PlicDriver
open RiscvHypervisor.VirtualCpu

/-- `struct instr`, with the widths of the fields that `parse_htinst` cuts out
of `htinst`. -/
structure Instr where
  opcode : BitVec 7
  rd : BitVec 5
  funct3 : BitVec 3
  rs2 : BitVec 5
  addr : Uint64
  deriving DecidableEq, Repr

/-- `lw a0, 4(PLIC)`: the guest loads the priority of virtual source 1. -/
def loadPriority : Instr where
  opcode := 3
  rd := 10
  funct3 := 2
  rs2 := 4
  addr := dtbPlic + 4

def isAccessToPriorityReg (offset : Uint64) : Bool := offset < 0x1000

def isAccessToPendingRegs (offset : Uint64) : Bool := 0x1000 ≤ offset ∧ offset < 0x1080

def isAccessToEnableRegs (offset : Uint64) : Bool := 0x2000 ≤ offset ∧ offset < 0x200000

/-- The search for a context whose register, counted from `base`, is at the
offset.  The sum is computed in `unsigned int`.  The search is long, so it is
not to be unfolded. -/
@[irreducible] def isContextReg (base : Uint32) (offset : Uint64) : Bool :=
  (List.range 15872).any fun ctx => (base + BitVec.ofNat 32 ctx * 0x1000).setWidth 64 == offset

def isAccessToThresholdReg (offset : Uint64) : Bool := isContextReg 0x200000 offset

def isAccessToClaimCompleteReg (offset : Uint64) : Bool := isContextReg 0x200004 offset

/-- `masked |= 1 << i` for each of the 32 sources of a group that `get` reports. -/
def gatherGroup (devs : Vector (Option MmioDev) maxDevs) (virtIrqGroup : Int)
    (get : Int → PlicM Uint32) : PlicM Uint32 :=
  (List.range 32).foldlM (fun (masked : Uint32) (i : Nat) => do
    let physIrq := virtToPhysIrq devs (virtIrqGroup * 32 + i)
    let bit ← get physIrq
    pure (if bit ≠ 0 then masked ||| (1 : Uint32) <<< i else masked)) 0

def handlePriorityRegLoad (devs : Vector (Option MmioDev) maxDevs) (offset : Uint64) :
    PlicM Uint32 :=
  plicGetPriority (virtToPhysIrq devs (toInt (offset / 4)))

def handlePendingRegsLoad (devs : Vector (Option MmioDev) maxDevs) (offset : Uint64) :
    PlicM Uint32 :=
  gatherGroup devs (toInt ((offset - 0x1000) / 4)) plicGetPending

def handleEnableRegsLoad (devs : Vector (Option MmioDev) maxDevs) (offset vctx pctx : Uint64) :
    PlicM Uint32 :=
  if vctx ≠ (offset - 0x2000) / 0x80 then
    pure 0
  else
    gatherGroup devs (toInt ((offset - 0x2000 - vctx * 0x80) / 4)) (plicGetEnabled (toInt pctx))

def handleThresholdRegLoad (offset vctx pctx : Uint64) : PlicM Uint32 :=
  if vctx ≠ (offset - 0x200000) / 0x1000 then
    pure 0
  else
    plicGetThreshold (toInt pctx)

/-- The claim is not passed on: it returns what the last interrupt claimed. -/
def handleClaimRegLoad (vcpu : Vcpu) (offset vctx : Uint64) : Uint32 :=
  if vctx ≠ (offset - 0x200004) / 0x1000 then
    0
  else
    ofInt (physToVirtIrq vcpu.conf.devices (toInt vcpu.lastClaimedIrqId))

/-- The value of an emulated load. -/
def loadValue (hartid : Uint64) (vcpu : Vcpu) (offset : Uint64) : PlicM Uint32 :=
  let devs := vcpu.conf.devices
  let vctx := 2 * vcpu.vhartid + 1
  let pctx := 2 * hartid + 1
  if isAccessToPriorityReg offset then
    handlePriorityRegLoad devs offset
  else if isAccessToPendingRegs offset then
    handlePendingRegsLoad devs offset
  else if isAccessToEnableRegs offset then
    handleEnableRegsLoad devs offset vctx pctx
  else if isAccessToThresholdReg offset then
    handleThresholdRegLoad offset vctx pctx
  else if isAccessToClaimCompleteReg offset then
    pure (handleClaimRegLoad vcpu offset vctx)
  else
    .panic "Bad PLIC access"

/-- The length of the trapped instruction: bit 1 of the opcode is clear when it
was compressed. -/
def instrLength (instr : Instr) : Uint64 := if instr.opcode &&& 2 ≠ 0 then 4 else 2

/-- The register file after a load: `lw` extends the sign. -/
def writeLoaded (hart : HartState) (instr : Instr) (val : Uint32) : HartState :=
  let hart := hart.setReg instr.rd (val.setWidth 64)
  let hart :=
    if instr.funct3 = 2 ∧ val &&& 0x80000000 ≠ 0 then
      hart.setReg instr.rd (hart.vcpu.regs instr.rd ||| 0xffffffff00000000)
    else
      hart
  { hart with sepc := hart.sepc + instrLength instr }

def emulateLoad (hartid : Uint64) (hart : HartState) (instr : Instr) : PlicM HartState := do
  let val ← loadValue hartid hart.vcpu (instr.addr - dtbPlic)
  pure (writeLoaded hart instr val)

def handlePriorityRegStore (devs : Vector (Option MmioDev) maxDevs) (offset : Uint64)
    (val : Uint32) : PlicM Unit :=
  plicSetPriority (virtToPhysIrq devs (toInt (offset / 4))) val

def handleEnableRegsStore (devs : Vector (Option MmioDev) maxDevs) (offset : Uint64)
    (val : Uint32) (vctx pctx : Uint64) : PlicM Unit :=
  if vctx ≠ (offset - 0x2000) / 0x80 then
    pure ()
  else
    let virtIrqGroup := toInt ((offset - 0x2000 - vctx * 0x80) / 4)
    (List.range 32).foldlM (fun (_ : Unit) (i : Nat) =>
      plicSetEnabled (toInt pctx) (virtToPhysIrq devs (virtIrqGroup * 32 + i))
        (toInt ((1 : Uint32) <<< i &&& val))) ()

def handleThresholdRegStore (offset vctx pctx val : Uint64) : PlicM Unit :=
  if vctx ≠ (offset - 0x200000) / 0x1000 then
    pure ()
  else
    plicSetThreshold (toInt pctx) (val.setWidth 32)

/-- Only the source claimed last is completed.  The guest's interrupt line is
lowered with it. -/
def handleCompleteRegStore (hart : HartState) (offset vctx pctx : Uint64) (val : Uint32) :
    PlicM HartState :=
  if vctx ≠ (offset - 0x200004) / 0x1000 then
    pure hart
  else
    let physIrq := ofInt (virtToPhysIrq hart.vcpu.conf.devices (toInt val))
    if physIrq = hart.vcpu.lastClaimedIrqId then do
      plicComplete (toInt pctx) physIrq
      pure
        { hart with
          vcpu := { hart.vcpu with lastClaimedIrqId := 0 }
          hvip := hart.hvip &&& ~~~hvipVseip }
    else
      pure hart

/-- The effect of an emulated store on the PLIC and on the hart. -/
def storeValue (hartid : Uint64) (hart : HartState) (offset : Uint64) (val : Uint32) :
    PlicM HartState :=
  let devs := hart.vcpu.conf.devices
  let vctx := 2 * hart.vcpu.vhartid + 1
  let pctx := 2 * hartid + 1
  if isAccessToPriorityReg offset then do
    handlePriorityRegStore devs offset val
    pure hart
  else if isAccessToPendingRegs offset then
    pure hart
  else if isAccessToEnableRegs offset then do
    handleEnableRegsStore devs offset val vctx pctx
    pure hart
  else if isAccessToThresholdReg offset then do
    handleThresholdRegStore offset vctx pctx (val.setWidth 64)
    pure hart
  else if isAccessToClaimCompleteReg offset then
    handleCompleteRegStore hart offset vctx pctx val
  else
    .panic "Bad PLIC access"

def emulateStore (hartid : Uint64) (hart : HartState) (instr : Instr) : PlicM HartState := do
  let val := (hart.vcpu.regs instr.rs2).setWidth 32
  let hart ← storeValue hartid hart (instr.addr - dtbPlic) val
  pure { hart with sepc := hart.sepc + instrLength instr }

/-- An external interrupt is injected if the claim returns a source. -/
def vplicHandleInterrupt (hartid : Uint64) (hart : HartState) : PlicM HartState := do
  let irq ← plicClaim (toInt (2 * hartid + 1))
  let vcpu := { hart.vcpu with lastClaimedIrqId := irq }
  pure
    { hart with
      vcpu := vcpu
      hvip := if vcpu.lastClaimedIrqId ≠ 0 then hart.hvip ||| hvipVseip else hart.hvip }

end RiscvHypervisor.VirtualPlic
