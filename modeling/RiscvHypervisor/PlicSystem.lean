import RiscvHypervisor.RegisterMap

/-!
The harts with their guests and the physical PLIC they share.  Events are the
trapped loads and stores, the external interrupts, the guests' own execution
and the devices' requests, in any order.
-/

namespace RiscvHypervisor.PlicSystem

open RiscvHypervisor.TransitionSystem
open RiscvHypervisor.EffectProgram
open RiscvHypervisor.MachineTypes
open RiscvHypervisor.GuestConfig
open RiscvHypervisor.PlicDriver
open RiscvHypervisor.VirtualCpu
open RiscvHypervisor.VirtualPlic
open RiscvHypervisor.EmulatedAccess
open RiscvHypervisor.RegisterMap

structure Machine where
  plic : Plic
  harts : Fin dtbNrCpus → HartState

inductive Event
  /-- A load of the guest on the hart faults in the PLIC's page. -/
  | load (h : Fin dtbNrCpus) (instr : Instr)
  | store (h : Fin dtbNrCpus) (instr : Instr)
  /-- An external interrupt, for which the PLIC has `irq` on offer. -/
  | interrupt (h : Fin dtbNrCpus) (irq : Uint32)
  /-- The guest runs and leaves these registers behind. -/
  | guest (h : Fin dtbNrCpus) (regs : BitVec 5 → Uint64) (sepc : Uint64)
  /-- A device makes its source pending. -/
  | raise (source : Fin 1024)

def hartidOf (h : Fin dtbNrCpus) : Uint64 := BitVec.ofNat 64 h

/-- The physical context of the hart's guest. -/
def contextOf (h : Fin dtbNrCpus) : Nat := 2 * h + 1

namespace Machine

/-- The state in which `vm_run` enters the guests. -/
def boot (confs : Fin dtbNrCpus → VmConfig) (sepc : Fin dtbNrCpus → Uint64) (plic : Plic) :
    Machine where
  plic := plic
  harts := fun h => { vcpu := initVcpu (hartidOf h) (confs h), hvip := 0, sepc := sepc h }

/-- A trap handler runs to its end on a hart.  A panic stops the machine. -/
def runOn (m : Machine) (h : Fin dtbNrCpus) (p : PlicM HartState) : Option Machine :=
  match exec plicHandler p m.plic with
  | (.ok hart, plic) => some { plic := plic, harts := Function.update m.harts h hart }
  | (.error _, _) => none

def offer (m : Machine) (h : Fin dtbNrCpus) (irq : Uint32) : Machine :=
  { m with
    plic := { m.plic with offer := Function.update m.plic.offer (contextOf h) irq } }

def setPending (m : Machine) (source : Nat) : Machine :=
  { m with
    plic := m.plic.setReg (pendingWord source)
      (m.plic.regs (pendingWord source) ||| sourceMask source) }

def setGuest (m : Machine) (h : Fin dtbNrCpus) (regs : BitVec 5 → Uint64) (sepc : Uint64) :
    Machine :=
  { m with
    harts := Function.update m.harts h
      { m.harts h with vcpu := { (m.harts h).vcpu with regs := regs }, sepc := sepc } }

end Machine

def step (m : Machine) : Event → Option Machine
  | .load h instr => m.runOn h (emulateLoad (hartidOf h) (m.harts h) instr)
  | .store h instr => m.runOn h (emulateStore (hartidOf h) (m.harts h) instr)
  | .interrupt h irq => (m.offer h irq).runOn h (vplicHandleInterrupt (hartidOf h) (m.harts h))
  | .guest h regs sepc => some (m.setGuest h regs sepc)
  | .raise source => some (m.setPending source)

/-- The accesses that an event makes to the PLIC, each with the PLIC before it. -/
def accessesOf (m : Machine) : Event → List (Plic × PlicOp)
  | .load h instr => accesses plicHandler (emulateLoad (hartidOf h) (m.harts h) instr) m.plic
  | .store h instr => accesses plicHandler (emulateStore (hartidOf h) (m.harts h) instr) m.plic
  | .interrupt h irq =>
      accesses plicHandler (vplicHandleInterrupt (hartidOf h) (m.harts h)) (m.offer h irq).plic
  | .guest _ _ _ => []
  | .raise _ => []

theorem hartidOf_lt (h : Fin dtbNrCpus) : (hartidOf h).toNat < dtbNrCpus := by
  have hlt := h.isLt
  simp only [dtbNrCpus] at hlt ⊢
  simp only [hartidOf, BitVec.toNat_ofNat]
  omega

theorem ownContext_hartidOf (h : Fin dtbNrCpus) : ownContext (hartidOf h) = contextOf h := by
  have hlt := h.isLt
  simp only [dtbNrCpus] at hlt
  simp only [ownContext, contextOf, hartidOf, BitVec.toNat_ofNat]
  omega

theorem contextOf_le (h : Fin dtbNrCpus) : contextOf h ≤ 15871 :=
  ownContext_hartidOf h ▸ ownContext_le (hartidOf_lt h)

theorem contextOf_inj {h h' : Fin dtbNrCpus} : contextOf h = contextOf h' ↔ h = h' := by
  simp only [contextOf, Fin.ext_iff]
  omega

/-- The hart keeps its machine, its number, its claim and its interrupt line. -/
structure KeepsLine (hart hart' : HartState) : Prop where
  conf : hart'.vcpu.conf = hart.vcpu.conf
  vhartid : hart'.vcpu.vhartid = hart.vcpu.vhartid
  last : hart'.vcpu.lastClaimedIrqId = hart.vcpu.lastClaimedIrqId
  hvip : hart'.hvip = hart.hvip

/-- What an event does to the PLIC and to the hart it concerns. -/
inductive Move (m : Machine) : Event → Machine → Prop
  | registers {e : Event} {h : Fin dtbNrCpus} {instr : Instr} {hart : HartState} {α : Type}
      {p : PlicM α} : e = .load h instr ∨ e = .store h instr →
      p.Uses (RegisterAccess (contextOf h) (m.harts h).vcpu.conf) → KeepsLine (m.harts h) hart →
      Move m e ⟨(exec plicHandler p m.plic).2, Function.update m.harts h hart⟩
  | complete {h : Fin dtbNrCpus} {instr : Instr} {sepc : Uint64} :
      Move m (.store h instr)
        ⟨m.plic.complete (contextOf h) (m.harts h).vcpu.lastClaimedIrqId,
          Function.update m.harts h { completed (m.harts h) with sepc := sepc }⟩
  | interrupt {h : Fin dtbNrCpus} {irq : Uint32} :
      Move m (.interrupt h irq)
        ⟨(m.offer h irq).plic.claim (contextOf h), Function.update m.harts h
          (injected (m.harts h) irq)⟩
  | guest {h : Fin dtbNrCpus} {regs : BitVec 5 → Uint64} {sepc : Uint64} :
      Move m (.guest h regs sepc) (m.setGuest h regs sepc)
  | raise {source : Fin 1024} : Move m (.raise source) (m.setPending source)

theorem writeLoaded_keepsLine (hart : HartState) (instr : Instr) (val : Uint32) :
    KeepsLine hart (writeLoaded hart instr val) := by
  unfold writeLoaded
  simp only
  split <;> exact ⟨rfl, rfl, rfl, rfl⟩

theorem runOn_eq_some {m m' : Machine} {h : Fin dtbNrCpus} {p : PlicM HartState}
    (hrun : m.runOn h p = some m') :
    ∃ hart plic, exec plicHandler p m.plic = (.ok hart, plic) ∧
      m' = ⟨plic, Function.update m.harts h hart⟩ := by
  unfold Machine.runOn at hrun
  split at hrun
  · rename_i hart plic hexec
    exact ⟨hart, plic, hexec, (Option.some.inj hrun).symm⟩
  · cases hrun

theorem move_of_load {m m' : Machine} {h : Fin dtbNrCpus} {instr : Instr}
    (hstep : step m (.load h instr) = some m') : Move m (.load h instr) m' := by
  obtain ⟨hart, plic, hexec, rfl⟩ := runOn_eq_some hstep
  obtain ⟨val, plic', hload, hrest⟩ := exists_of_exec_bind _ hexec
  have huses := loadValue_uses (hartidOf_lt h) (m.harts h).vcpu (instr.addr - dtbPlic)
  rw [ownContext_hartidOf] at huses
  have hplic : plic = (exec plicHandler (loadValue (hartidOf h) (m.harts h).vcpu
      (instr.addr - dtbPlic)) m.plic).2 := by
    rw [hload]
    cases hrest
    rfl
  cases hrest
  rw [hplic]
  exact .registers (.inl rfl) huses (writeLoaded_keepsLine _ _ _)

theorem plicHandler_write_claimWord (context : Nat) (irq : Uint32) (plic : Plic) :
    plicHandler (.write (claimWord context) irq) plic = ((), plic.complete context irq) := by
  simp only [plicHandler, claimContext_claimWord]

theorem plicHandler_read_claimWord (context : Nat) (plic : Plic) :
    plicHandler (.read (claimWord context)) plic = (plic.offer context, plic.claim context) := by
  simp only [plicHandler, claimContext_claimWord]

theorem move_of_store {m m' : Machine} {h : Fin dtbNrCpus} {instr : Instr}
    (hstep : step m (.store h instr) = some m') : Move m (.store h instr) m' := by
  obtain ⟨hart, plic, hexec, rfl⟩ := runOn_eq_some hstep
  obtain ⟨hart', plic', hstore, hrest⟩ := exists_of_exec_bind _ hexec
  cases hrest
  rcases storeValue_cases (hartidOf_lt h) (m.harts h) (instr.addr - dtbPlic)
    (((m.harts h).vcpu.regs instr.rs2).setWidth 32) with ⟨p, huses, heq⟩ | heq | heq
  · rw [heq] at hstore
    obtain ⟨u, plic'', hp, hdone⟩ := exists_of_exec_bind _ hstore
    rw [ownContext_hartidOf] at huses
    have hplic : plic = (exec plicHandler p m.plic).2 := by
      rw [hp]
      cases hdone
      rfl
    cases hdone
    rw [hplic]
    exact .registers (.inr rfl) huses ⟨rfl, rfl, rfl, rfl⟩
  · rw [heq, ownContext_hartidOf, exec_access, plicHandler_write_claimWord] at hstore
    cases hstore
    exact .complete
  · rw [heq] at hstore
    cases hstore

/-- An external interrupt never panics. -/
theorem step_interrupt (m : Machine) (h : Fin dtbNrCpus) (irq : Uint32) :
    step m (.interrupt h irq) = some ⟨(m.offer h irq).plic.claim (contextOf h),
      Function.update m.harts h (injected (m.harts h) irq)⟩ := by
  rw [step, Machine.runOn, vplicHandleInterrupt_eq (hartidOf_lt h), ownContext_hartidOf,
    exec_access, plicHandler_read_claimWord]
  simp [Machine.offer]

theorem move_of_step {m m' : Machine} {e : Event} (hstep : step m e = some m') :
    Move m e m' := by
  cases e with
  | load h instr => exact move_of_load hstep
  | store h instr => exact move_of_store hstep
  | interrupt h irq =>
      rw [step_interrupt] at hstep
      cases hstep
      exact .interrupt
  | guest h regs sepc =>
      cases hstep
      exact .guest
  | raise source =>
      cases hstep
      exact .raise

/-- What an event does to a given hart. -/
theorem hart_cases (h : Fin dtbNrCpus) {m m' : Machine} {e : Event}
    (hstep : step m e = some m') :
    (KeepsLine (m.harts h) (m'.harts h) ∧ ∀ irq, e ≠ .interrupt h irq) ∨
      (∃ instr sepc, e = .store h instr ∧
        m'.harts h = { completed (m.harts h) with sepc := sepc }) ∨
      ∃ irq, e = .interrupt h irq ∧ m'.harts h = injected (m.harts h) irq := by
  have hother : ∀ {h' : Fin dtbNrCpus} {hart : HartState}, h ≠ h' →
      KeepsLine (m.harts h) (Function.update m.harts h' hart h) := by
    intro h' hart hne
    rw [Function.update_of_ne hne]
    exact ⟨rfl, rfl, rfl, rfl⟩
  cases move_of_step hstep with
  | @registers _ h' instr hart α p hevent huses hkeeps =>
      refine .inl ⟨?_, by rcases hevent with rfl | rfl <;> simp⟩
      rcases eq_or_ne h h' with rfl | hh
      · simpa using hkeeps
      · exact hother hh
  | @complete h' instr sepc =>
      rcases eq_or_ne h h' with rfl | hh
      · exact .inr (.inl ⟨instr, sepc, rfl, Function.update_self ..⟩)
      · exact .inl ⟨hother hh, nofun⟩
  | @interrupt h' irq =>
      rcases eq_or_ne h h' with rfl | hh
      · exact .inr (.inr ⟨irq, rfl, Function.update_self ..⟩)
      · refine .inl ⟨hother hh, ?_⟩
        rintro irq' hevent
        cases hevent
        exact hh rfl
  | @guest h' regs sepc =>
      refine .inl ⟨?_, nofun⟩
      rcases eq_or_ne h h' with rfl | hh
      · simp only [Machine.setGuest, Function.update_self]
        exact ⟨rfl, rfl, rfl, rfl⟩
      · exact hother hh
  | raise => exact .inl ⟨⟨rfl, rfl, rfl, rfl⟩, nofun⟩

/-- The harts run the guests they were started with. -/
def Hosts (confs : Fin dtbNrCpus → VmConfig) (m : Machine) : Prop :=
  ∀ h, (m.harts h).vcpu.conf = confs h ∧
    (m.harts h).vcpu.vhartid = getVhartid (hartidOf h) (confs h).cpuAffinity

theorem hosts_boot (confs : Fin dtbNrCpus → VmConfig) (sepc : Fin dtbNrCpus → Uint64)
    (plic : Plic) : Hosts confs (Machine.boot confs sepc plic) :=
  fun _ => ⟨rfl, rfl⟩

theorem Hosts.vhartid_lt {confs : Fin dtbNrCpus → VmConfig} {m : Machine} (hm : Hosts confs m)
    (h : Fin dtbNrCpus) : (m.harts h).vcpu.vhartid.toNat < dtbNrCpus := by
  rw [(hm h).2]
  exact (getVhartid_toNat_le _ _).trans_lt (hartidOf_lt h)

theorem Hosts.step {confs : Fin dtbNrCpus → VmConfig} {m m' : Machine} {e : Event}
    (hm : Hosts confs m) (hstep : step m e = some m') : Hosts confs m' := by
  intro h
  rcases hart_cases h hstep with ⟨hkeeps, -⟩ | ⟨instr, sepc, -, heq⟩ | ⟨irq, -, heq⟩
  · rw [hkeeps.conf, hkeeps.vhartid]
    exact hm h
  · rw [heq]
    exact hm h
  · rw [heq]
    exact hm h

/-- The value that a load has put into its register. -/
def loaded (m : Machine) (h : Fin dtbNrCpus) (instr : Instr) : Uint32 :=
  ((m.harts h).vcpu.regs instr.rd).setWidth 32

theorem setReg_regs (hart : HartState) (i : BitVec 5) (value : Uint64) :
    (hart.setReg i value).vcpu.regs i = value := by
  simp [HartState.setReg]

theorem writeLoaded_setWidth (hart : HartState) (instr : Instr) (val : Uint32) :
    ((writeLoaded hart instr val).vcpu.regs instr.rd).setWidth 32 = val := by
  have hlow : (val.setWidth 64).setWidth 32 = val := by
    rw [BitVec.setWidth_setWidth_of_le _ (by decide), BitVec.setWidth_eq]
  have hhigh : (0xffffffff00000000 : Uint64).setWidth 32 = 0 := by decide
  unfold writeLoaded
  simp only
  split
  · rw [setReg_regs, setReg_regs, BitVec.setWidth_or, hlow, hhigh]
    exact BitVec.or_zero
  · rw [setReg_regs, hlow]

theorem step_load_eq {m : Machine} {h : Fin dtbNrCpus} {instr : Instr} {reg : VirtualReg}
    (hvhart : (m.harts h).vcpu.vhartid.toNat < dtbNrCpus)
    (hreg : Located (instr.addr - dtbPlic) reg) {val : Uint32} {plic : Plic}
    (hexec : exec plicHandler (loadReg (hartidOf h) (m.harts h).vcpu reg) m.plic =
      (.ok val, plic)) :
    step m (.load h instr) =
      some ⟨plic, Function.update m.harts h (writeLoaded (m.harts h) instr val)⟩ := by
  rw [← loadValue_of_located (hartidOf_lt h) hvhart hreg] at hexec
  rw [step, Machine.runOn, emulateLoad, exec_bind_ok _ hexec]
  rfl

/-- A load of a register returns what the register's handler computes. -/
theorem step_load_of_located {m : Machine} {h : Fin dtbNrCpus} {instr : Instr} {reg : VirtualReg}
    (hvhart : (m.harts h).vcpu.vhartid.toNat < dtbNrCpus)
    (hreg : Located (instr.addr - dtbPlic) reg) {val : Uint32} {plic : Plic}
    (hexec : exec plicHandler (loadReg (hartidOf h) (m.harts h).vcpu reg) m.plic =
      (.ok val, plic)) :
    ∃ m', step m (.load h instr) = some m' ∧ loaded m' h instr = val := by
  refine ⟨_, step_load_eq hvhart hreg hexec, ?_⟩
  simp only [loaded, Function.update_self]
  exact writeLoaded_setWidth _ _ _

/-- A store to a register does what the register's handler does. -/
theorem step_store_eq {m : Machine} {h : Fin dtbNrCpus} {instr : Instr} {reg : VirtualReg}
    (hvhart : (m.harts h).vcpu.vhartid.toNat < dtbNrCpus)
    (hreg : Located (instr.addr - dtbPlic) reg) {hart : HartState} {plic : Plic}
    (hexec : exec plicHandler (storeReg (hartidOf h) (m.harts h)
      (((m.harts h).vcpu.regs instr.rs2).setWidth 32) reg) m.plic = (.ok hart, plic)) :
    step m (.store h instr) = some ⟨plic,
      Function.update m.harts h { hart with sepc := hart.sepc + instrLength instr }⟩ := by
  rw [← storeValue_of_located (hartidOf_lt h) hvhart _ hreg] at hexec
  rw [step, Machine.runOn, emulateStore, exec_bind_ok _ hexec]
  rfl

end RiscvHypervisor.PlicSystem
