import RiscvHypervisor.TrapTransparency

/-!
The saved `x0` of a vcpu over the traps of its guest.  It is read by an emulated
store of `x0`, and an emulated load into `x0` writes it.
-/

namespace RiscvHypervisor.ZeroRegister

open RiscvHypervisor.EffectProgram
open RiscvHypervisor.TransitionSystem
open RiscvHypervisor.MachineTypes
open RiscvHypervisor.GuestConfig
open RiscvHypervisor.OwnedMemory
open RiscvHypervisor.KernelMemory
open RiscvHypervisor.PlicDriver
open RiscvHypervisor.VirtualCpu
open RiscvHypervisor.VirtualPlic
open RiscvHypervisor.RiscvAssembly
open RiscvHypervisor.TrapHandlers
open RiscvHypervisor.TrapVector
open RiscvHypervisor.TrapTransparency

/-- What a trap finds: the guest has run until it left these registers behind,
and the devices and the memory are as the other harts have left them. -/
structure Trap where
  x : Reg → Word
  sepc : Uint64
  csrs : TrapCsrs
  plic : Plic
  heap : KernelMem
  left : Leftover

/-- The hart when it takes a trap. -/
def taken (g : GuestCpu) (t : Trap) : GuestCpu :=
  { g with
    cpu :=
      { g.cpu with
        x := t.x
        csr := fun
          | .sepc => t.sepc
          | .scause => t.csrs.scause
          | .htval => t.csrs.htval
          | .htinst => t.csrs.htinst
          | .time => t.csrs.time
          | csr => g.cpu.csr csr } }

/-- A trap is handled to its end and the guest entered again.  A panic stops the
hart. -/
def trapStep (hartid base : Uint64) (g : GuestCpu) (t : Trap) : Option GuestCpu :=
  match exec (sumHandler plicHandler heapHandler) (hstrapvec hartid base t.left (taken g t))
    (t.plic, t.heap) with
  | (.ok g', _) => some g'
  | (.error _, _) => none

/-- The guest is entered for the first time after `init_vcpu`, with `sscratch`
set. -/
def started (hartid base : Uint64) (conf : VmConfig) (sepc stimecmp : Uint64) (left : Leftover)
    (csr : Csr → Word) : GuestCpu :=
  entered base left (Function.update csr .sscratch base)
    { hart := { vcpu := initVcpu hartid conf, hvip := 0, sepc := sepc }, stimecmp := stimecmp }

def Started (hartid base : Uint64) (conf : VmConfig) (g : GuestCpu) : Prop :=
  ∃ sepc stimecmp left csr, g = started hartid base conf sepc stimecmp left csr

/-- The trap is no load into `x0`. -/
def SparesZero (_ : GuestCpu) (t : Trap) : Prop :=
  t.csrs.scause = excLoadGuestPageFault → t.csrs.htinst.extractLsb' 7 5 ≠ 0

/-- `vcpu->regs.x[0]` is zero, and `sscratch` points to the saved registers. -/
structure ZeroSaved (base : Uint64) (g : GuestCpu) : Prop where
  zero : g.cpu.mem (place base 0) = 0
  sscratch : g.cpu.csr .sscratch = base

/-- An emulated store of `x0` passes the value 0 to the handlers of the PLIC. -/
def StoresZero (hartid : Uint64) (hart : HartState) : Prop :=
  ∀ instr : Instr, instr.rs2 = 0 → emulateStore hartid hart instr =
    (storeValue hartid hart (instr.addr - dtbPlic) 0 >>= fun hart =>
      pure { hart with sepc := hart.sepc + instrLength instr })

section Runs

variable {hartid base : Uint64} {conf : VmConfig} {g g' : GuestCpu} {t : Trap}

theorem taken_sscratch (g : GuestCpu) (t : Trap) :
    (taken g t).cpu.csr .sscratch = g.cpu.csr .sscratch := rfl

theorem trapCsrs_taken (g : GuestCpu) (t : Trap) : trapCsrs (taken g t) = t.csrs := rfl

theorem exists_of_trapStep (hbase : g.cpu.csr .sscratch = base)
    (h : trapStep hartid base g t = some g') :
    ∃ s plic, Handled hartid t.csrs t.plic t.heap (trapped base (taken g t)) s plic ∧
      g' = entered base t.left (taken g t).cpu.csr s := by
  unfold trapStep at h
  split at h
  · rename_i g'' device hexec
    cases h
    obtain ⟨plic, heap⟩ := device
    rw [← taken_sscratch g t] at hbase
    obtain ⟨s, hhandled, hentered⟩ := exists_of_exec_hstrapvec hbase hexec
    rw [trapCsrs_taken] at hhandled
    exact ⟨s, plic, handled_of_exec hhandled, hentered⟩
  · cases h

theorem zeroSaved_started (h : Started hartid base conf g) : ZeroSaved base g := by
  obtain ⟨sepc, stimecmp, left, csr, rfl⟩ := h
  constructor
  · rw [started, entered_mem]
    rfl
  · rw [started, entered_csr]
    simp [returned]

theorem afterLoad_regs_zero {hart : HartState} {rd : BitVec 5} (hrd : rd ≠ 0)
    (value length : Uint64) :
    (afterLoad hart rd value length).vcpu.regs 0 = hart.vcpu.regs 0 :=
  Function.update_of_ne hrd.symm _ _

/-- The handlers write the saved `x0` only for a load into it. -/
theorem regs_zero_of_handled {csrs : TrapCsrs} {plic plic' : Plic} {heap : KernelMem}
    {s s' : TrapState} (hrd : csrs.scause = excLoadGuestPageFault → csrs.htinst.extractLsb' 7 5 ≠ 0)
    (h : Handled hartid csrs plic heap s s' plic') :
    s'.hart.vcpu.regs 0 = s.hart.vcpu.regs 0 := by
  cases h with
  | interrupt _ hregs _ => rw [hregs]
  | ecall => exact afterLoad_regs_zero (by decide) _ _
  | load hcause => exact afterLoad_regs_zero (hrd hcause) _ _
  | store _ _ _ _ _ hregs => exact congrFun hregs 0

theorem zeroSaved_step (hg : ZeroSaved base g) (hguard : SparesZero g t)
    (h : trapStep hartid base g t = some g') : ZeroSaved base g' := by
  obtain ⟨s, plic, hhandled, rfl⟩ := exists_of_trapStep hg.sscratch h
  constructor
  · rw [entered_mem, regs_zero_of_handled hguard hhandled]
    exact hg.zero
  · rw [entered_csr]
    simpa [returned, taken_sscratch] using hg.sscratch

theorem storesZero_of_zeroSaved (hg : ZeroSaved base g) (t : Trap) :
    StoresZero hartid (trapped base (taken g t)).hart := by
  have hzero : (trapped base (taken g t)).hart.vcpu.regs 0 = 0 := hg.zero
  intro instr hrs2
  rw [emulateStore, hrs2, hzero]
  rfl

/-- After any traps of which none is a load into `x0`, the saved `x0` is zero and
every store of `x0` stores zero. -/
theorem zero_of_reachable (h : Reachable (trapStep hartid base) SparesZero
    (Started hartid base conf) g) :
    g.cpu.mem (place base 0) = 0 ∧ ∀ t, StoresZero hartid (trapped base (taken g t)).hart := by
  have hsaved : ZeroSaved base g := h.invariant (ZeroSaved base)
    (fun s hs => zeroSaved_started hs) fun s l t hs hguard ht => zeroSaved_step hs hguard ht
  exact ⟨hsaved.zero, storesZero_of_zeroSaved hsaved⟩

end Runs

section Sample

/-- A trap at the instruction, in the word of the priority of source 1. -/
def priorityTrap (scause htinst : Uint64) (plic : Plic) : Trap where
  x := fun _ => 0
  sepc := 0x80001000
  csrs := ⟨scause, 0xc000004 >>> 2, htinst, 0⟩
  plic := plic
  heap := plicMapped
  left := sampleLeft

/-- `lw zero, 4(PLIC)` where the priority is 7. -/
def loadZero : Trap := priorityTrap excLoadGuestPageFault 0x2003 (resetPlic.setReg 1 7)

/-- `sw zero, 4(PLIC)`. -/
def storeZero : Trap := priorityTrap excStoreOrAmoGuestPageFault 0x2023 (resetPlic.setReg 1 7)

def startedSample : GuestCpu :=
  started 0 sampleBase sampleConf 0x80000000 0 sampleLeft fun _ => 0

theorem zero_of_reachable_store :
    ∃ g, trapStep 0 sampleBase startedSample storeZero = some g ∧
      g.cpu.mem (place sampleBase 0) = 0 := by
  have hvalue : ((trapStep 0 sampleBase startedSample storeZero).map
      fun g => g.cpu.x 10) = some 0 := by
    decide +kernel
  obtain ⟨g, hstep, -⟩ := Option.map_eq_some_iff.mp hvalue
  have hspares : SparesZero startedSample storeZero := by
    intro hcause
    exact absurd hcause (by decide)
  have hstarted : Started 0 sampleBase sampleConf startedSample := ⟨_, _, _, _, rfl⟩
  exact ⟨g, hstep, (zero_of_reachable (.next (.start hstarted) hspares hstep)).1⟩

/-- A load into `x0` leaves its value there, and the next store of `x0` stores
it. -/
theorem zero_overwritten :
    Started 0 sampleBase sampleConf startedSample ∧
      ∃ g, trapStep 0 sampleBase startedSample loadZero = some g ∧
        g.cpu.mem (place sampleBase 0) = 7 ∧
        (exec (sumHandler plicHandler heapHandler) (hstrapvec 0 sampleBase sampleLeft
          (taken g storeZero)) (resetPlic, plicMapped)).2.1.regs 1 = 7 := by
  have hvalue : ((trapStep 0 sampleBase startedSample loadZero).map fun g =>
      (g.cpu.mem (place sampleBase 0), (exec (sumHandler plicHandler heapHandler)
        (hstrapvec 0 sampleBase sampleLeft (taken g storeZero))
        (resetPlic, plicMapped)).2.1.regs 1)) = some (7, 7) := by
    decide +kernel
  obtain ⟨g, hstep, hboth⟩ := Option.map_eq_some_iff.mp hvalue
  obtain ⟨hsaved, hstored⟩ := Prod.mk.inj hboth
  exact ⟨⟨_, _, _, _, rfl⟩, g, hstep, hsaved, hstored⟩

end Sample

end RiscvHypervisor.ZeroRegister
