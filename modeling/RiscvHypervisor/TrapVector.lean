import RiscvHypervisor.RiscvAssembly
import RiscvHypervisor.TrapHandlers

/-!
The trap vector of `core/trap.S`: the registers of the guest are saved in its
vcpu, a handler runs, and the guest is entered again with the saved registers.
-/

namespace RiscvHypervisor.TrapVector

open RiscvHypervisor.EffectProgram
open RiscvHypervisor.MachineTypes
open RiscvHypervisor.GuestConfig
open RiscvHypervisor.OwnedMemory
open RiscvHypervisor.KernelMemory
open RiscvHypervisor.PlicDriver
open RiscvHypervisor.VirtualCpu
open RiscvHypervisor.VirtualPlic
open RiscvHypervisor.RiscvAssembly
open RiscvHypervisor.TrapHandlers

inductive Csr
  | sscratch
  | sepc
  | scause
  | htval
  | htinst
  | hvip
  | stimecmp
  | time
  deriving DecidableEq

/-- `VAS_CPU_STRUCT + CPU_STACK_OFF + CPU_STACK_SIZE`. -/
def stackTop : Uint64 := 0xffffffc040000000 + 4096 + 2 * 4096

/-- `x1` to `x30`. -/
def savedRegs : List Reg := (List.range' 1 30).map (BitVec.ofNat 5)

def vmExit : List (Instruction Csr) :=
  .csrrw 31 .sscratch 31 :: saveBlock 31 savedRegs ++
    [.mv 2 31, .csrrw 31 .sscratch 31, .sd 31 (31 * 8) 2, .li 2 stackTop]

def vmEnter : List (Instruction Csr) :=
  .csrr 31 .sscratch :: restoreBlock 31 savedRegs ++ [.ld 31 (31 * 8) 31]

/-- A hart with the fields of its vcpu other than `regs`, which are in memory. -/
structure GuestCpu where
  cpu : Cpu Csr
  vhartid : Uint64
  lastClaimedIrqId : Uint32
  conf : VmConfig

/-- What the handlers see; `base` is the address of `vcpu->regs`. -/
def trapState (base : Uint64) (g : GuestCpu) : TrapState where
  hart :=
    { vcpu :=
        { vhartid := g.vhartid
          lastClaimedIrqId := g.lastClaimedIrqId
          conf := g.conf
          regs := fun r => g.cpu.mem (place base r) }
      hvip := g.cpu.csr .hvip
      sepc := g.cpu.csr .sepc }
  stimecmp := g.cpu.csr .stimecmp

/-- What the compiled handler leaves in the registers and in the memory outside
of `vcpu->regs`: it is not known. -/
structure Leftover where
  x : Reg → Word
  mem : Word → Word

/-- The register that is saved at an address. -/
def savedAt (base a : Uint64) : Option Reg :=
  if (a - base) % 8 = 0 ∧ a - base < 256 then some (((a - base) / 8).setWidth 5) else none

/-- The hart when a handler has returned. -/
def returned (base : Uint64) (left : Leftover) (csr : Csr → Word) (s : TrapState) : GuestCpu where
  cpu :=
    { x := left.x
      csr := Function.update (Function.update (Function.update csr .hvip s.hart.hvip)
        .sepc s.hart.sepc) .stimecmp s.stimecmp
      mem := fun a => (savedAt base a).elim (left.mem a) s.hart.vcpu.regs }
  vhartid := s.hart.vcpu.vhartid
  lastClaimedIrqId := s.hart.vcpu.lastClaimedIrqId
  conf := s.hart.vcpu.conf

/-- The hart when the guest runs again. -/
def entered (base : Uint64) (left : Leftover) (csr : Csr → Word) (s : TrapState) : GuestCpu :=
  let g := returned base left csr s
  { g with cpu := executeAll vmEnter g.cpu }

/-- The branch on `t0`, which tells an interrupt from an exception. -/
def callHandler (hartid t0 : Uint64) (csrs : TrapCsrs) (s : TrapState) : TrapM TrapState :=
  if t0 = 0 then
    hsExceptionHandler hartid csrs s
  else
    (hsInterruptHandler hartid csrs.scause csrs.time s).onLeft (heapEffect Uint64)

def hstrapvec (hartid base : Uint64) (left : Leftover) (g : GuestCpu) : TrapM GuestCpu := do
  let cpu := executeAll (vmExit ++ [.csrr 10 .scause, .srli 5 10 63]) g.cpu
  let csrs := ⟨cpu.get 10, cpu.csr .htval, cpu.csr .htinst, cpu.csr .time⟩
  let s ← callHandler hartid (cpu.get 5) csrs (trapState base { g with cpu := cpu })
  pure (entered base left cpu.csr s)

section SaveAndRestore

theorem mem_savedRegs_iff (r : Reg) : r ∈ savedRegs ↔ r ≠ 0 ∧ r ≠ 31 := by
  revert r
  decide

/-- `VM_EXIT`: `x1` to `x30` are saved, then `x31`, which was kept in `sscratch`
in the meantime. -/
theorem executeAll_vmExit (cpu : Cpu Csr) :
    (executeAll vmExit cpu).csr = cpu.csr ∧
      (executeAll vmExit cpu).mem =
        Function.update
          (executeAll (saveBlock 31 savedRegs) (execute cpu (.csrrw 31 .sscratch 31))).mem
          (place (cpu.csr .sscratch) 31) (cpu.x 31) := by
  rw [vmExit, List.cons_append, executeAll_cons, executeAll_append]
  have hx := executeAll_saveBlock_x 31 savedRegs (execute cpu (.csrrw 31 .sscratch 31))
  have hcsr := executeAll_saveBlock_csr 31 savedRegs (execute cpu (.csrrw 31 .sscratch 31))
  generalize executeAll (saveBlock 31 savedRegs) (execute cpu (.csrrw 31 .sscratch 31)) = saved
    at hx hcsr ⊢
  have hbase : saved.x 31#5 = cpu.csr .sscratch := by
    rw [hx]
    simp [execute, Cpu.set]
  have hscratch : saved.csr .sscratch = cpu.x 31#5 := by
    rw [hcsr]
    simp [execute, Cpu.set, Cpu.setCsr, Cpu.get]
  constructor
  · funext csr
    rcases eq_or_ne csr .sscratch with h | h
    · simp [execute, Cpu.set, Cpu.setCsr, Cpu.get, h, hbase]
    · simp [execute, Cpu.set, Cpu.setCsr, Cpu.get, h, hcsr]
  · simp [execute, Cpu.set, Cpu.setCsr, Cpu.get, hbase, hscratch, place]

theorem get_31_csrrw (cpu : Cpu Csr) :
    (execute cpu (.csrrw 31 .sscratch 31)).get 31 = cpu.csr .sscratch := by
  simp [execute, Cpu.get, Cpu.set]

theorem vmExit_mem (cpu : Cpu Csr) {r : Reg} (hr : r ≠ 0) :
    (executeAll vmExit cpu).mem (place (cpu.csr .sscratch) r) = cpu.x r := by
  rw [(executeAll_vmExit cpu).2]
  rcases eq_or_ne r 31 with hlast | hlast
  · rw [hlast, Function.update_self]
  · have hin : r ∈ savedRegs := (mem_savedRegs_iff r).mpr ⟨hr, hlast⟩
    have hsaved := executeAll_saveBlock_mem 31 savedRegs (execute cpu (.csrrw 31 .sscratch 31)) hin
    rw [get_31_csrrw] at hsaved
    rw [Function.update_of_ne fun heq => hlast (place_inj heq), hsaved, Cpu.get_of_ne hr]
    exact Function.update_of_ne hlast _ _

/-- The place of `x0` is not written. -/
theorem vmExit_mem_zero (cpu : Cpu Csr) :
    (executeAll vmExit cpu).mem (place (cpu.csr .sscratch) 0) =
      cpu.mem (place (cpu.csr .sscratch) 0) := by
  rw [(executeAll_vmExit cpu).2, Function.update_of_ne fun heq => absurd (place_inj heq) (by decide)]
  apply executeAll_saveBlock_mem_of_ne
  intro r hr heq
  rw [get_31_csrrw] at heq
  exact ((mem_savedRegs_iff r).mp hr).1 (place_inj heq).symm

/-- `VM_ENTER` loads every register from its place. -/
theorem executeAll_vmEnter (cpu : Cpu Csr) :
    (executeAll vmEnter cpu).csr = cpu.csr ∧ (executeAll vmEnter cpu).mem = cpu.mem ∧
      ∀ r ≠ 0, (executeAll vmEnter cpu).x r = cpu.mem (place (cpu.csr .sscratch) r) := by
  rw [vmEnter, List.cons_append, executeAll_cons, executeAll_append]
  have hnotMem : (31 : Reg) ∉ savedRegs := fun h => ((mem_savedRegs_iff 31).mp h).2 rfl
  have hbase : (execute cpu (.csrr 31 .sscratch)).get 31 = cpu.csr .sscratch := by
    simp [execute, Cpu.get, Cpu.set]
  have hlast := executeAll_restoreBlock_x_of_notMem 31 savedRegs
    (execute cpu (.csrr 31 .sscratch)) hnotMem
  have hcsr := executeAll_restoreBlock_csr 31 savedRegs (execute cpu (.csrr 31 .sscratch))
  have hmem := executeAll_restoreBlock_mem 31 savedRegs (execute cpu (.csrr 31 .sscratch))
  have hx := fun r => executeAll_restoreBlock_x hnotMem (execute cpu (.csrr 31 .sscratch)) (r := r)
  generalize executeAll (restoreBlock 31 savedRegs) (execute cpu (.csrr 31 .sscratch)) = restored
    at hlast hcsr hmem hx ⊢
  have hrestored : restored.x 31#5 = cpu.csr .sscratch := by
    rw [← hbase, Cpu.get_of_ne (by decide)]
    exact hlast
  rw [hbase] at hx
  refine ⟨hcsr, hmem, fun r hr => ?_⟩
  rcases eq_or_ne r 31 with rfl | h31
  · simp [execute, Cpu.set, Cpu.get, hmem, hrestored, place]
  · have hin : r ∈ savedRegs := (mem_savedRegs_iff r).mpr ⟨hr, h31⟩
    exact (Function.update_of_ne h31 _ _).trans (hx r hin)

theorem savedAt_place (base : Uint64) (r : Reg) : savedAt base (place base r) = some r := by
  have hr := r.isLt
  have hoffset : place base r - base = r.setWidth 64 * 8 := by
    rw [place, BitVec.add_comm, BitVec.add_sub_cancel]
  have hnat : (r.setWidth 64 * 8 : Uint64).toNat = r.toNat * 8 := by
    rw [BitVec.toNat_mul, BitVec.toNat_setWidth, show (8 : Uint64).toNat = 8 from rfl]
    omega
  have hmod : (r.setWidth 64 * 8 : Uint64) % 8 = 0 := by
    apply BitVec.eq_of_toNat_eq
    rw [BitVec.toNat_umod, hnat, show (8 : Uint64).toNat = 8 from rfl]
    exact Nat.mul_mod_left _ _
  have hlt : (r.setWidth 64 * 8 : Uint64) < 256 := by
    rw [BitVec.lt_def, hnat, show (256 : Uint64).toNat = 256 from rfl]
    omega
  rw [savedAt, hoffset, if_pos ⟨hmod, hlt⟩]
  refine congrArg some (BitVec.eq_of_toNat_eq ?_)
  rw [BitVec.toNat_setWidth, BitVec.toNat_udiv, hnat, show (8 : Uint64).toNat = 8 from rfl]
  omega

theorem returned_mem (base : Uint64) (left : Leftover) (csr : Csr → Word) (s : TrapState)
    (r : Reg) : (returned base left csr s).cpu.mem (place base r) = s.hart.vcpu.regs r := by
  simp [returned, savedAt_place]

end SaveAndRestore

section Vector

/-- The state that the handler is called in: the guest's registers are saved,
and the place of `x0` has what was there. -/
def trapped (base : Uint64) (g : GuestCpu) : TrapState where
  hart :=
    { vcpu :=
        { vhartid := g.vhartid
          lastClaimedIrqId := g.lastClaimedIrqId
          conf := g.conf
          regs := fun r => if r = 0 then g.cpu.mem (place base 0) else g.cpu.x r }
      hvip := g.cpu.csr .hvip
      sepc := g.cpu.csr .sepc }
  stimecmp := g.cpu.csr .stimecmp

def trapCsrs (g : GuestCpu) : TrapCsrs :=
  ⟨g.cpu.csr .scause, g.cpu.csr .htval, g.cpu.csr .htinst, g.cpu.csr .time⟩

/-- The handler for the cause of the trap. -/
def handleTrap (hartid : Uint64) (csrs : TrapCsrs) (s : TrapState) : TrapM TrapState :=
  callHandler hartid (csrs.scause >>> 63) csrs s

theorem trapState_vmExit {base : Uint64} {g : GuestCpu} (h : g.cpu.csr .sscratch = base)
    {cpu : Cpu Csr} (hcsr : cpu.csr = g.cpu.csr) (hmem : cpu.mem = (executeAll vmExit g.cpu).mem) :
    trapState base { g with cpu := cpu } = trapped base g := by
  have hregs : (fun r => cpu.mem (place base r)) =
      fun r => if r = 0 then g.cpu.mem (place base 0) else g.cpu.x r := by
    funext r
    rw [hmem, ← h]
    rcases eq_or_ne r 0 with hr | hr
    · rw [hr, if_pos rfl, vmExit_mem_zero]
    · rw [if_neg hr, vmExit_mem g.cpu hr]
  simp only [trapState, trapped, hcsr, hregs]

theorem hstrapvec_eq (hartid : Uint64) {base : Uint64} (left : Leftover) {g : GuestCpu}
    (h : g.cpu.csr .sscratch = base) :
    hstrapvec hartid base left g =
      (handleTrap hartid (trapCsrs g) (trapped base g) >>= fun s =>
        pure (entered base left g.cpu.csr s)) := by
  have hcsr := (executeAll_vmExit g.cpu).1
  have hexit : ∀ cpu, cpu.csr = (executeAll vmExit g.cpu).csr →
      cpu.mem = (executeAll vmExit g.cpu).mem → trapState base { g with cpu := cpu } =
        trapped base g := fun cpu hcsr' hmem => trapState_vmExit h (hcsr'.trans hcsr) hmem
  simp only [hstrapvec, executeAll_append]
  generalize executeAll vmExit g.cpu = cpu at hcsr hexit ⊢
  have hcause : (executeAll [.csrr 10 .scause, .srli 5 10 63] cpu).get 10 = g.cpu.csr .scause := by
    rw [← hcsr]
    simp [execute, Cpu.get, Cpu.set]
  have hbit : (executeAll [.csrr 10 .scause, .srli 5 10 63] cpu).get 5 =
      g.cpu.csr .scause >>> 63 := by
    rw [← hcsr]
    simp [execute, Cpu.get, Cpu.set]
  have hrest : (executeAll [.csrr 10 .scause, .srli 5 10 63] cpu).csr = g.cpu.csr := hcsr
  have hstate := hexit (executeAll [.csrr 10 .scause, .srli 5 10 63] cpu) rfl rfl
  rw [hstate, hcause, hbit, hrest]
  rfl

/-- A trap runs its handler on the saved registers, and the guest goes on with
what the handler has left in them. -/
theorem exists_of_exec_hstrapvec {hartid base : Uint64} {left : Leftover} {g g' : GuestCpu}
    {plic plic' : Plic} {heap heap' : KernelMem} (hbase : g.cpu.csr .sscratch = base)
    (h : exec (sumHandler plicHandler heapHandler) (hstrapvec hartid base left g) (plic, heap) =
      (.ok g', plic', heap')) :
    ∃ s, exec (sumHandler plicHandler heapHandler)
        (handleTrap hartid (trapCsrs g) (trapped base g)) (plic, heap) = (.ok s, plic', heap') ∧
      g' = entered base left g.cpu.csr s := by
  rw [hstrapvec_eq hartid left hbase] at h
  obtain ⟨s, t, hexec, hdone⟩ := exists_of_exec_bind _ h
  cases hdone
  exact ⟨s, hexec, rfl⟩

variable {base : Uint64} {csr : Csr → Word} (left : Leftover) (s : TrapState)

theorem entered_x (hbase : csr .sscratch = base) {r : Reg} (hr : r ≠ 0) :
    (entered base left csr s).cpu.x r = s.hart.vcpu.regs r := by
  refine ((executeAll_vmEnter (returned base left csr s).cpu).2.2 r hr).trans ?_
  have hscratch : (returned base left csr s).cpu.csr .sscratch = base := by
    simp [returned, hbase]
  rw [hscratch, returned_mem]

theorem entered_csr : (entered base left csr s).cpu.csr = (returned base left csr s).cpu.csr :=
  (executeAll_vmEnter (returned base left csr s).cpu).1

/-- The saved registers stay in memory. -/
theorem entered_mem (r : Reg) :
    (entered base left csr s).cpu.mem (place base r) = s.hart.vcpu.regs r := by
  rw [entered, (executeAll_vmEnter (returned base left csr s).cpu).2.1, returned_mem]

end Vector

end RiscvHypervisor.TrapVector
