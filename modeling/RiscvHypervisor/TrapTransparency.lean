import RiscvHypervisor.AddressTranslation
import RiscvHypervisor.TrapVector

/-!
What a trap changes in its guest: an emulated load its register, an environment
call `a0`, and nothing else but the program counter.
-/

namespace RiscvHypervisor.TrapTransparency

open RiscvHypervisor.EffectProgram
open RiscvHypervisor.MachineTypes
open RiscvHypervisor.GuestConfig
open RiscvHypervisor.OwnedMemory
open RiscvHypervisor.KernelMemory
open RiscvHypervisor.PageTable
open RiscvHypervisor.PlicDriver
open RiscvHypervisor.VirtualCpu
open RiscvHypervisor.VirtualPlic
open RiscvHypervisor.RiscvAssembly
open RiscvHypervisor.TrapHandlers
open RiscvHypervisor.TrapVector
open RiscvHypervisor.AddressTranslation

/-- What the handlers can do to the state of a hart, the PLIC being `plic` and
the memory `heap` before and the PLIC `plic'` after. -/
inductive Handled (hartid : Uint64) (csrs : TrapCsrs) (plic : Plic) (heap : KernelMem)
    (s : TrapState) : TrapState → Plic → Prop
  | interrupt {s' : TrapState} {plic' : Plic} : csrs.scause >>> 63 ≠ 0 →
      s'.hart.vcpu.regs = s.hart.vcpu.regs → s'.hart.sepc = s.hart.sepc →
      Handled hartid csrs plic heap s s' plic'
  | ecall {pa : Uint64} : csrs.scause = excEcallFromVs →
      Handled hartid csrs plic heap s { s with hart := afterLoad s.hart 10 pa 4 } plic
  | load {addr : Int} {val : Uint32} {length : Uint64} {plic' : Plic} :
      csrs.scause = excLoadGuestPageFault →
      (exec heapHandler (isAccessToPlic s.hart.vcpu csrs.htval) heap).1 = .ok addr → addr ≠ 0 →
      Access 0x3 (csrs.htinst.extractLsb' 0 7) length →
      (csrs.htinst.extractLsb' 12 3 = 2 ∨ csrs.htinst.extractLsb' 12 3 = 6) →
      exec plicHandler (loadValue hartid s.hart.vcpu (BitVec.ofInt 64 addr - dtbPlic)) plic =
        (.ok val, plic') →
      Handled hartid csrs plic heap s
        { s with
          hart := afterLoad s.hart (csrs.htinst.extractLsb' 7 5)
            (extendLoaded (csrs.htinst.extractLsb' 12 3) val) length } plic'
  | store {addr : Int} {stored : HartState} {length : Uint64} {plic' : Plic} :
      csrs.scause = excStoreOrAmoGuestPageFault →
      (exec heapHandler (isAccessToPlic s.hart.vcpu csrs.htval) heap).1 = .ok addr → addr ≠ 0 →
      Access 0x23 (csrs.htinst.extractLsb' 0 7) length →
      exec plicHandler (storeValue hartid s.hart (BitVec.ofInt 64 addr - dtbPlic)
        ((s.hart.vcpu.regs (csrs.htinst.extractLsb' 20 5)).setWidth 32)) plic =
        (.ok stored, plic') →
      stored.vcpu.regs = s.hart.vcpu.regs →
      Handled hartid csrs plic heap s
        { s with hart := { stored with sepc := s.hart.sepc + length } } plic'

section Handlers

variable {hartid : Uint64} {csrs : TrapCsrs} {plic plic' : Plic} {heap heap' : KernelMem}
  {s s' : TrapState}

theorem exists_of_exec_onRight {α β : Type} {p : KernelM α} {f : α → TrapM β} {b : β}
    (h : exec (sumHandler plicHandler heapHandler) (p.onRight plicEffect >>= f) (plic, heap) =
      (.ok b, plic', heap')) :
    ∃ a heap'', exec heapHandler p heap = (.ok a, heap'') ∧
      exec (sumHandler plicHandler heapHandler) (f a) (plic, heap'') = (.ok b, plic', heap') := by
  obtain ⟨a, ⟨plic'', heap''⟩, hfirst, hrest⟩ := exists_of_exec_bind _ h
  rw [exec_onRight] at hfirst
  obtain ⟨hok, rfl, rfl⟩ : (exec heapHandler p heap).1 = .ok a ∧ plic = plic'' ∧
      (exec heapHandler p heap).2 = heap'' := by
    simpa using hfirst
  exact ⟨a, _, by rw [← hok], hrest⟩

theorem exec_sum_of_toOption {α : Type} {p : TrapM α} {a : α} {t : Plic × KernelMem}
    (h : (exec (sumHandler plicHandler heapHandler) p t).1.toOption = some a) :
    exec (sumHandler plicHandler heapHandler) p t =
      (.ok a, (exec (sumHandler plicHandler heapHandler) p t).2.1,
        (exec (sumHandler plicHandler heapHandler) p t).2.2) :=
  exec_of_toOption _ h

theorem exec_onLeft_ok {α : Type} {p : PlicM α} {a : α}
    (h : exec (sumHandler plicHandler heapHandler) (p.onLeft (heapEffect Uint64)) (plic, heap) =
      (.ok a, plic', heap')) : exec plicHandler p plic = (.ok a, plic') := by
  rw [exec_onLeft] at h
  obtain ⟨hok, rfl, rfl⟩ : (exec plicHandler p plic).1 = .ok a ∧
      (exec plicHandler p plic).2 = plic' ∧ heap = heap' := by
    simpa using h
  rw [← hok]

theorem handled_interrupt (hcause : csrs.scause >>> 63 ≠ 0)
    (h : exec plicHandler (hsInterruptHandler hartid csrs.scause csrs.time s) plic =
      (.ok s', plic')) : Handled hartid csrs plic heap s s' plic' := by
  unfold hsInterruptHandler at h
  simp only at h
  split at h
  · cases h
    exact .interrupt hcause rfl rfl
  split at h
  · obtain ⟨hart, t, hclaim, hdone⟩ := exists_of_exec_bind _ h
    obtain ⟨irq, t', -, hinjected⟩ := exists_of_exec_bind _ hclaim
    cases hinjected
    cases hdone
    exact .interrupt hcause rfl rfl
  · cases h

/-- A fault that is not to the PLIC panics. -/
theorem exists_of_exec_dispatchFault {message : String}
    {handle : HartState → Uint64 → PlicM HartState} {hart hart' : HartState}
    (h : exec (sumHandler plicHandler heapHandler) (dispatchFault csrs hart message handle)
      (plic, heap) = (.ok hart', plic', heap')) :
    ∃ addr, (exec heapHandler (isAccessToPlic hart.vcpu csrs.htval) heap).1 = .ok addr ∧
      addr ≠ 0 ∧ exec plicHandler (handle hart (BitVec.ofInt 64 addr)) plic =
        (.ok hart', plic') := by
  obtain ⟨addr, heap'', haddr, hrest⟩ := exists_of_exec_onRight h
  refine ⟨addr, by rw [haddr], ?_⟩
  split at hrest
  · rename_i hne
    refine ⟨?_, exec_onLeft_ok hrest⟩
    rintro rfl
    exact hne rfl
  · cases hrest

theorem handled_exception
    (h : exec (sumHandler plicHandler heapHandler) (hsExceptionHandler hartid csrs s)
      (plic, heap) = (.ok s', plic', heap')) : Handled hartid csrs plic heap s s' plic' := by
  unfold hsExceptionHandler at h
  split at h
  · rename_i hcause
    obtain ⟨hart, heap'', hwalk, hdone⟩ := exists_of_exec_onRight h
    obtain ⟨pa, t, -, hset⟩ := exists_of_exec_bind _ hwalk
    cases hset
    cases hdone
    exact .ecall hcause
  split at h
  · rename_i hcause
    obtain ⟨hart, t, hfault, hdone⟩ := exists_of_exec_bind _ h
    cases hdone
    obtain ⟨addr, haddr, hne, hload⟩ := exists_of_exec_dispatchFault hfault
    obtain ⟨val, length, hopcode, hfunct3, hvalue, rfl⟩ := exec_vplicHandleLoadPageFault hload
    exact .load hcause haddr hne hopcode hfunct3 hvalue
  split at h
  · rename_i hcause
    obtain ⟨hart, t, hfault, hdone⟩ := exists_of_exec_bind _ h
    cases hdone
    obtain ⟨addr, haddr, hne, hstore⟩ := exists_of_exec_dispatchFault hfault
    obtain ⟨stored, length, hopcode, hvalue, rfl, hregs⟩ :=
      exec_vplicHandleStoreOrAmoPageFault hstore
    exact .store hcause haddr hne hopcode hvalue hregs
  · cases h

/-- Every trap that is handled without a panic has one of the four effects. -/
theorem handled_of_exec
    (h : exec (sumHandler plicHandler heapHandler) (handleTrap hartid csrs s) (plic, heap) =
      (.ok s', plic', heap')) : Handled hartid csrs plic heap s s' plic' := by
  unfold handleTrap callHandler at h
  split at h
  · exact handled_exception h
  · rename_i hcause
    exact handled_interrupt hcause (exec_onLeft_ok h)

end Handlers

/-- The guest goes on with these registers, the given number of bytes further,
and `sscratch` has the address of its saved registers again. -/
structure Resumes (base : Uint64) (g g' : GuestCpu) (x : Reg → Word) (length : Uint64) :
    Prop where
  regs : ∀ r ≠ 0, g'.cpu.x r = x r
  sepc : g'.cpu.csr .sepc = g.cpu.csr .sepc + length
  sscratch : g'.cpu.csr .sscratch = base

/-- What a trap does to the guest, by the cause of the trap and the fields of
the transformed instruction. -/
inductive Transparent (hartid base : Uint64) (plic : Plic) (heap : KernelMem) (g g' : GuestCpu)
    (plic' : Plic) : Prop
  | interrupt (hcause : g.cpu.csr .scause >>> 63 ≠ 0) (hguest : Resumes base g g' g.cpu.x 0)
  | ecall (pa : Uint64) (hcause : g.cpu.csr .scause = excEcallFromVs)
      (hguest : Resumes base g g' (Function.update g.cpu.x 10 pa) 4)
  | load (addr : Int) (val : Uint32) (length : Uint64)
      (hcause : g.cpu.csr .scause = excLoadGuestPageFault)
      (haddr : (exec heapHandler (isAccessToPlic (trapped base g).hart.vcpu
        (g.cpu.csr .htval)) heap).1 = .ok addr)
      (hopcode : Access 0x3 ((g.cpu.csr .htinst).extractLsb' 0 7) length)
      (hfunct3 : (g.cpu.csr .htinst).extractLsb' 12 3 = 2 ∨
        (g.cpu.csr .htinst).extractLsb' 12 3 = 6)
      (hvalue : exec plicHandler (loadValue hartid (trapped base g).hart.vcpu
        (BitVec.ofInt 64 addr - dtbPlic)) plic = (.ok val, plic'))
      (hguest : Resumes base g g' (Function.update g.cpu.x ((g.cpu.csr .htinst).extractLsb' 7 5)
        (extendLoaded ((g.cpu.csr .htinst).extractLsb' 12 3) val)) length)
  | store (addr : Int) (val : Uint32) (stored : HartState) (length : Uint64)
      (hcause : g.cpu.csr .scause = excStoreOrAmoGuestPageFault)
      (haddr : (exec heapHandler (isAccessToPlic (trapped base g).hart.vcpu
        (g.cpu.csr .htval)) heap).1 = .ok addr)
      (hopcode : Access 0x23 ((g.cpu.csr .htinst).extractLsb' 0 7) length)
      (hval : (g.cpu.csr .htinst).extractLsb' 20 5 ≠ 0 →
        val = (g.cpu.x ((g.cpu.csr .htinst).extractLsb' 20 5)).setWidth 32)
      (hstored : exec plicHandler (storeValue hartid (trapped base g).hart
        (BitVec.ofInt 64 addr - dtbPlic) val) plic = (.ok stored, plic'))
      (hguest : Resumes base g g' g.cpu.x length)

theorem trapped_regs (base : Uint64) (g : GuestCpu) {r : Reg} (hr : r ≠ 0) :
    (trapped base g).hart.vcpu.regs r = g.cpu.x r := if_neg hr

/-- The guest after a trap has the registers and the program counter that the
handler has left. -/
theorem resumes_entered {base : Uint64} {g : GuestCpu} (hbase : g.cpu.csr .sscratch = base)
    (left : Leftover) {s : TrapState} {x : Reg → Word} {length : Uint64}
    (hregs : ∀ r ≠ 0, s.hart.vcpu.regs r = x r)
    (hsepc : s.hart.sepc = g.cpu.csr .sepc + length) :
    Resumes base g (entered base left g.cpu.csr s) x length where
  regs r hr := (entered_x left s hbase hr).trans (hregs r hr)
  sepc := by
    rw [entered_csr, ← hsepc]
    simp [returned]
  sscratch := by
    rw [entered_csr, ← hbase]
    simp [returned]

theorem afterLoad_regs (base : Uint64) (g : GuestCpu) (rd : Reg) (value length : Uint64)
    {r : Reg} (hr : r ≠ 0) :
    (afterLoad (trapped base g).hart rd value length).vcpu.regs r =
      Function.update g.cpu.x rd value r := by
  rcases eq_or_ne r rd with rfl | hrd
  · simp [afterLoad, HartState.setReg]
  · simp only [afterLoad, HartState.setReg, Function.update_of_ne hrd]
    exact trapped_regs base g hr

/-- Traps are transparent: whatever the registers of the guest, the cause, the
instruction, the PLIC, the table of the guest and what the compiled handler
leaves behind. -/
theorem hstrapvec_transparent {hartid base : Uint64} {left : Leftover} {g g' : GuestCpu}
    {plic plic' : Plic} {heap heap' : KernelMem} (hbase : g.cpu.csr .sscratch = base)
    (h : exec (sumHandler plicHandler heapHandler) (hstrapvec hartid base left g) (plic, heap) =
      (.ok g', plic', heap')) :
    Transparent hartid base plic heap g g' plic' := by
  obtain ⟨s, hexec, rfl⟩ := exists_of_exec_hstrapvec hbase h
  cases handled_of_exec hexec with
  | interrupt hcause hregs hsepc =>
      refine .interrupt hcause (resumes_entered hbase left (fun r hr => ?_) ?_)
      · rw [hregs]
        exact trapped_regs base g hr
      · rw [hsepc]
        exact (BitVec.add_zero _).symm
  | @ecall pa hcause =>
      refine .ecall pa hcause (resumes_entered hbase left (fun r hr => ?_) rfl)
      exact afterLoad_regs base g 10 _ 4 hr
  | load hcause haddr _ hopcode hfunct3 hvalue =>
      refine .load _ _ _ hcause haddr hopcode hfunct3 hvalue ?_
      refine resumes_entered hbase left (fun r hr => ?_) rfl
      exact afterLoad_regs base g _ _ _ hr
  | store hcause haddr _ hopcode hstored hregs =>
      refine .store _ _ _ _ hcause haddr hopcode (fun hrs2 => ?_) hstored ?_
      · exact congrArg _ (trapped_regs base g hrs2)
      · refine resumes_entered hbase left (fun r hr => ?_) rfl
        rw [← trapped_regs base g hr]
        exact congrFun hregs r

section Sample

/-- The memory after the first page of the PLIC has been mapped for emulation. -/
def plicMapped : KernelMem :=
  (exec heapHandler (mapPage sampleRoot 0xc000000 0xc000000 16 1) sampleMem).2

def sampleBase : Uint64 := 0xffffffc000200000

/-- A PLIC in which source 1 has a priority with the sign bit set. -/
def samplePlic : Plic := resetPlic.setReg 1 0x80000007

/-- The guest has trapped at `lw a0, 4(PLIC)`. -/
def sampleGuest : GuestCpu where
  cpu :=
    { x := fun r => r.setWidth 64
      csr := fun
        | .sscratch => sampleBase
        | .sepc => 0x80001000
        | .scause => excLoadGuestPageFault
        | .htval => 0xc000004 >>> 2
        | .htinst => 0x2503
        | .hvip => 0
        | .stimecmp => 0
        | .time => 0
      mem := fun _ => 0 }
  vhartid := 0
  lastClaimedIrqId := 0
  conf := sampleConf

def sampleLeft : Leftover := ⟨fun _ => 0xdead, fun _ => 0xbeef⟩

theorem hstrapvec_transparent_lw :
    ∃ g' plic', Transparent 0 sampleBase samplePlic plicMapped sampleGuest g' plic' ∧
      g'.cpu.x 10 = 0xffffffff80000007 := by
  have hvalue : ((exec (sumHandler plicHandler heapHandler)
      (hstrapvec 0 sampleBase sampleLeft sampleGuest) (samplePlic, plicMapped)).1.toOption.map
        fun g' => g'.cpu.x 10) = some 0xffffffff80000007 := by
    decide +kernel
  obtain ⟨g', hok, hx⟩ := Option.map_eq_some_iff.mp hvalue
  exact ⟨g', _, hstrapvec_transparent rfl (exec_sum_of_toOption hok), hx⟩

end Sample

end RiscvHypervisor.TrapTransparency
