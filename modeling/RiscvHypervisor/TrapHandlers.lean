import RiscvHypervisor.PageTable
import RiscvHypervisor.VirtualPlic

/-!
The handlers of `core/trap.c` and the page faults of `virtual/vplic.c`.  They
access the PLIC and, to walk the guest's table, the memory of the hypervisor.
-/

namespace RiscvHypervisor.TrapHandlers

open RiscvHypervisor.EffectProgram
open RiscvHypervisor.MachineTypes
open RiscvHypervisor.OwnedMemory
open RiscvHypervisor.KernelMemory
open RiscvHypervisor.PageTable
open RiscvHypervisor.PlicDriver
open RiscvHypervisor.VirtualCpu
open RiscvHypervisor.VirtualPlic

abbrev TrapM := Program (plicEffect.sum (heapEffect Uint64))

/-- What a handler can change. -/
structure TrapState where
  hart : HartState
  stimecmp : Uint64

/-- The control registers that the handlers only read. -/
structure TrapCsrs where
  scause : Uint64
  htval : Uint64
  htinst : Uint64
  time : Uint64

def intSupervisorTim : Uint64 := 5
def intSupervisorExt : Uint64 := 9

def excEcallFromVs : Uint64 := 10
def excLoadGuestPageFault : Uint64 := 21
def excStoreOrAmoGuestPageFault : Uint64 := 23

/-- The fields of the transformed instruction.  The address is filled in by the
caller. -/
def parseHtinst (htinst : Uint64) : PlicM Instr :=
  let instr : Instr :=
    { opcode := (getValue htinst 0 7).setWidth 7
      rd := (getValue htinst 7 5).setWidth 5
      funct3 := (getValue htinst 12 3).setWidth 3
      rs2 := (getValue htinst 20 5).setWidth 5
      addr := 0 }
  let addrOffset := getValue htinst 15 5
  if addrOffset ≠ 0 then
    .panic "Misaligned access with C extension???"
  else if getValue htinst 25 7 ≠ 0 then
    .panic "VPLIC does not support this instruction (AMO?)"
  else
    pure instr

def vplicHandleLoadPageFault (hartid htinst : Uint64) (hart : HartState) (addr : Uint64) :
    PlicM HartState := do
  let instr ← parseHtinst htinst
  if instr.opcode ||| 2 ≠ 0x3 then
    .panic "Bad opcode for load"
  else if instr.funct3 ≠ 2 ∧ instr.funct3 ≠ 6 then
    .panic "Bad funct3 for load"
  else
    emulateLoad hartid hart { instr with addr := addr }

def vplicHandleStoreOrAmoPageFault (hartid htinst : Uint64) (hart : HartState) (addr : Uint64) :
    PlicM HartState := do
  let instr ← parseHtinst htinst
  if instr.opcode ||| 2 ≠ 0x23 then
    .panic "Bad opcode for store"
  else if instr.funct3 ≠ 2 then
    .panic "Bad funct3 for store"
  else
    emulateStore hartid hart { instr with addr := addr }

def hsInterruptHandler (hartid scause time : Uint64) (s : TrapState) : PlicM TrapState :=
  let cause := scause <<< 1 >>> 1
  if cause = intSupervisorTim then
    pure { s with stimecmp := time + 10000000 }
  else if cause = intSupervisorExt then do
    let hart ← vplicHandleInterrupt hartid s.hart
    pure { s with hart := hart }
  else
    .panic s!"unknown interrupt {toInt scause}\n"

def getPa (pgtable htval : Uint64) : KernelM Uint64 := convertVaToPa pgtable (htval <<< 2) 1

/-- The physical address, as an `int`, of an access to the PLIC, and 0 for any
other. -/
def isAccessToPlic (vcpu : Vcpu) (htval : Uint64) : KernelM Int := do
  let addr ← getPa vcpu.conf.vmPgtable htval
  if dtbPlic ≤ addr ∧ addr < dtbPlic + dtbPlicSize then
    pure (toInt addr)
  else
    pure 0

def performWalkForGuest (hart : HartState) : KernelM HartState := do
  let pa ← convertVaToPa hart.vcpu.conf.vmPgtable (hart.vcpu.regs 10) 1
  pure (hart.setReg 10 pa)

/-- The fault is passed to a handler of the virtual PLIC with the address of the
access, unless it is to something else. -/
def dispatchFault (csrs : TrapCsrs) (hart : HartState) (message : String)
    (handle : HartState → Uint64 → PlicM HartState) : TrapM HartState := do
  let addr ← (isAccessToPlic hart.vcpu csrs.htval).onRight plicEffect
  if BitVec.ofInt 64 addr ≠ 0 then
    (handle hart (BitVec.ofInt 64 addr)).onLeft (heapEffect Uint64)
  else
    .panic message

def hsExceptionHandler (hartid : Uint64) (csrs : TrapCsrs) (s : TrapState) : TrapM TrapState :=
  if csrs.scause = excEcallFromVs then do
    let hart ← (performWalkForGuest s.hart).onRight plicEffect
    pure { s with hart := { hart with sepc := hart.sepc + 4 } }
  else if csrs.scause = excLoadGuestPageFault then do
    let hart ← dispatchFault csrs s.hart "Bad read access\n"
      (vplicHandleLoadPageFault hartid csrs.htinst)
    pure { s with hart := hart }
  else if csrs.scause = excStoreOrAmoGuestPageFault then do
    let hart ← dispatchFault csrs s.hart "Bad write access\n"
      (vplicHandleStoreOrAmoPageFault hartid csrs.htinst)
    pure { s with hart := hart }
  else
    .panic s!"unknown exception {toInt csrs.scause}\n"

section Fields

theorem getValue_setWidth (val : Uint64) {offset bits : Nat} (hoffset : offset ≤ 63)
    (hbits : bits ≤ 63) : (getValue val offset bits).setWidth bits = val.extractLsb' offset bits := by
  apply BitVec.eq_of_toNat_eq
  rw [BitVec.toNat_setWidth, toNat_getValue val offset bits hoffset hbits,
    BitVec.extractLsb'_toNat, Nat.shiftRight_eq_div_pow, Nat.mod_mod]

/-- A parsed instruction has the fields of `htinst`. -/
theorem parseHtinst_eq_done {htinst : Uint64} {plic plic' : Plic} {instr : Instr}
    (h : exec plicHandler (parseHtinst htinst) plic = (.ok instr, plic')) :
    plic' = plic ∧ instr =
      { opcode := htinst.extractLsb' 0 7
        rd := htinst.extractLsb' 7 5
        funct3 := htinst.extractLsb' 12 3
        rs2 := htinst.extractLsb' 20 5
        addr := 0 } := by
  have hopcode := getValue_setWidth htinst (show 0 ≤ 63 by decide) (show 7 ≤ 63 by decide)
  have hrd := getValue_setWidth htinst (show 7 ≤ 63 by decide) (show 5 ≤ 63 by decide)
  have hfunct3 := getValue_setWidth htinst (show 12 ≤ 63 by decide) (show 3 ≤ 63 by decide)
  have hrs2 := getValue_setWidth htinst (show 20 ≤ 63 by decide) (show 5 ≤ 63 by decide)
  unfold parseHtinst at h
  simp only at h
  split at h
  · cases h
  · split at h
    · cases h
    · cases h
      exact ⟨rfl, congrArg₂ (fun p q => Instr.mk p.1 p.2 q.1 q.2 0)
        (congrArg₂ Prod.mk hopcode hrd) (congrArg₂ Prod.mk hfunct3 hrs2)⟩

end Fields

section Effects

/-- What a load of 32 bits leaves in its register: `lw` extends the sign. -/
def extendLoaded (funct3 : BitVec 3) (val : Uint32) : Uint64 :=
  if funct3 = 2 then val.signExtend 64 else val.setWidth 64

/-- The hart after an emulated load of a value. -/
def afterLoad (hart : HartState) (rd : BitVec 5) (value length : Uint64) : HartState :=
  { hart.setReg rd value with sepc := hart.sepc + length }

theorem and_signBit_ne_zero_iff (val : Uint32) : val &&& 0x80000000 ≠ 0 ↔ val.msb = true := by
  rw [show (0x80000000 : Uint32) = (1 : Uint32) <<< 31 from rfl,
    and_one_shiftLeft_ne_zero_iff (by decide)]
  rfl

theorem setWidth_or_of_msb {val : Uint32} (h : val.msb = true) :
    val.setWidth 64 ||| 0xffffffff00000000 = val.signExtend 64 := by
  have hmask : (0xffffffff00000000 : Uint64) = BitVec.allOnes 32 ++ 0#32 := by decide
  apply BitVec.eq_of_getLsbD_eq
  intro i hi
  rw [hmask, BitVec.getLsbD_or, BitVec.getLsbD_setWidth, BitVec.getLsbD_append,
    BitVec.getLsbD_signExtend, BitVec.getLsbD_allOnes, h]
  by_cases hlow : i < 32
  · simp [hi, hlow]
  · simp [hi, hlow]
    omega

/-- The two assignments of `emulate_load` store the extended value. -/
theorem writeLoaded_eq (hart : HartState) (instr : Instr) (val : Uint32)
    (hfunct3 : instr.funct3 = 2 ∨ instr.funct3 = 6) :
    writeLoaded hart instr val =
      afterLoad hart instr.rd (extendLoaded instr.funct3 val) (instrLength instr) := by
  simp only [writeLoaded, afterLoad, extendLoaded, and_signBit_ne_zero_iff]
  by_cases hmsb : val.msb = true
  · rcases hfunct3 with hlw | hlwu
    · rw [← setWidth_or_of_msb hmsb]
      simp [hlw, hmsb, HartState.setReg]
    · simp [hlwu, HartState.setReg]
  · rw [Bool.not_eq_true] at hmsb
    rcases hfunct3 with hlw | hlwu
    · simp [hlw, hmsb, HartState.setReg, BitVec.signExtend_eq_setWidth_of_msb_false hmsb]
    · simp [hlwu, HartState.setReg]

theorem exec_bind_pure {α : Type} {p : PlicM Unit} {a b : α} {plic plic' : Plic}
    (h : exec plicHandler (p >>= fun _ => pure a) plic = (.ok b, plic')) : b = a := by
  obtain ⟨u, t, -, hrest⟩ := exists_of_exec_bind _ h
  cases hrest
  rfl

/-- A store changes no register of the guest and does not move it on. -/
theorem storeValue_frame {hartid offset : Uint64} {hart hart' : HartState} {val : Uint32}
    {plic plic' : Plic}
    (h : exec plicHandler (storeValue hartid hart offset val) plic = (.ok hart', plic')) :
    hart'.vcpu.regs = hart.vcpu.regs ∧ hart'.sepc = hart.sepc := by
  have hsame : hart' = hart → hart'.vcpu.regs = hart.vcpu.regs ∧ hart'.sepc = hart.sepc := by
    rintro rfl
    exact ⟨rfl, rfl⟩
  unfold storeValue at h
  simp only at h
  split at h
  · exact hsame (exec_bind_pure h)
  split at h
  · cases h
    exact hsame rfl
  split at h
  · exact hsame (exec_bind_pure h)
  split at h
  · exact hsame (exec_bind_pure h)
  split at h
  · unfold handleCompleteRegStore at h
    split at h
    · cases h
      exact hsame rfl
    simp only at h
    split at h
    · obtain rfl := exec_bind_pure h
      exact ⟨rfl, rfl⟩
    · cases h
      exact hsame rfl
  · cases h

/-- The opcode and the length of an emulated access; bit 1 of the opcode is
clear for a compressed one. -/
def Access (full : BitVec 7) (opcode : BitVec 7) (length : Uint64) : Prop :=
  (opcode = full ∧ length = 4) ∨ (opcode = full &&& ~~~2 ∧ length = 2)

theorem access_load {opcode : BitVec 7} {rd rs2 : BitVec 5} {funct3 : BitVec 3} {addr : Uint64}
    (h : opcode ||| 2 = 0x3) :
    Access 0x3 opcode (instrLength ⟨opcode, rd, funct3, rs2, addr⟩) := by
  have hcases : ∀ opcode : BitVec 7, opcode ||| 2 = 0x3 → opcode = 0x3 ∨ opcode = 0x1 := by decide
  rcases hcases _ h with rfl | rfl
  · exact .inl ⟨rfl, by simp [instrLength]⟩
  · exact .inr ⟨rfl, by simp [instrLength]⟩

theorem access_store {opcode : BitVec 7} {rd rs2 : BitVec 5} {funct3 : BitVec 3} {addr : Uint64}
    (h : opcode ||| 2 = 0x23) :
    Access 0x23 opcode (instrLength ⟨opcode, rd, funct3, rs2, addr⟩) := by
  have hcases : ∀ opcode : BitVec 7, opcode ||| 2 = 0x23 → opcode = 0x23 ∨ opcode = 0x21 := by decide
  rcases hcases _ h with rfl | rfl
  · exact .inl ⟨rfl, by simp [instrLength]⟩
  · exact .inr ⟨rfl, by simp [instrLength]⟩

variable {hartid htinst addr : Uint64} {hart hart' : HartState} {plic plic' : Plic}

theorem exec_vplicHandleLoadPageFault
    (h : exec plicHandler (vplicHandleLoadPageFault hartid htinst hart addr) plic =
      (.ok hart', plic')) :
    ∃ val length, Access 0x3 (htinst.extractLsb' 0 7) length ∧
      (htinst.extractLsb' 12 3 = 2 ∨ htinst.extractLsb' 12 3 = 6) ∧
      exec plicHandler (loadValue hartid hart.vcpu (addr - dtbPlic)) plic = (.ok val, plic') ∧
      hart' = afterLoad hart (htinst.extractLsb' 7 5)
        (extendLoaded (htinst.extractLsb' 12 3) val) length := by
  obtain ⟨instr, t, hparse, hrest⟩ := exists_of_exec_bind _ h
  obtain ⟨rfl, rfl⟩ := parseHtinst_eq_done hparse
  simp only at hrest
  split at hrest
  · cases hrest
  rename_i hopcode
  split at hrest
  · cases hrest
  rename_i hfunct3
  have hfunct3 : htinst.extractLsb' 12 3 = 2 ∨ htinst.extractLsb' 12 3 = 6 := by
    rwa [ne_eq, ne_eq, ← not_or, not_not] at hfunct3
  obtain ⟨val, t, hload, hdone⟩ := exists_of_exec_bind _ hrest
  cases hdone
  exact ⟨val, _, access_load (not_not.mp hopcode), hfunct3, hload, writeLoaded_eq _ _ _ hfunct3⟩

theorem exec_vplicHandleStoreOrAmoPageFault
    (h : exec plicHandler (vplicHandleStoreOrAmoPageFault hartid htinst hart addr) plic =
      (.ok hart', plic')) :
    ∃ stored length, Access 0x23 (htinst.extractLsb' 0 7) length ∧
      exec plicHandler (storeValue hartid hart (addr - dtbPlic)
        ((hart.vcpu.regs (htinst.extractLsb' 20 5)).setWidth 32)) plic = (.ok stored, plic') ∧
      hart' = { stored with sepc := hart.sepc + length } ∧
      stored.vcpu.regs = hart.vcpu.regs := by
  obtain ⟨instr, t, hparse, hrest⟩ := exists_of_exec_bind _ h
  obtain ⟨rfl, rfl⟩ := parseHtinst_eq_done hparse
  simp only at hrest
  split at hrest
  · cases hrest
  rename_i hopcode
  split at hrest
  · cases hrest
  obtain ⟨stored, t, hstore, hdone⟩ := exists_of_exec_bind _ hrest
  obtain ⟨hregs, hsepc⟩ := storeValue_frame hstore
  cases hdone
  exact ⟨stored, _, access_store (not_not.mp hopcode), hstore, by rw [← hsepc], hregs⟩

end Effects

end RiscvHypervisor.TrapHandlers
