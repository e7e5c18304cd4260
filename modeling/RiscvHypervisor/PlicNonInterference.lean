import RiscvHypervisor.PlicSystem

/-!
Two harts that emulate accesses for different virtual machines at the same
time.  Their accesses to the physical PLIC commute, so no interleaving of them
can be told from running one after the other.
-/

namespace RiscvHypervisor.PlicNonInterference

open RiscvHypervisor.TransitionSystem
open RiscvHypervisor.EffectProgram
open RiscvHypervisor.MachineTypes
open RiscvHypervisor.GuestConfig
open RiscvHypervisor.PlicDriver
open RiscvHypervisor.VirtualCpu
open RiscvHypervisor.VirtualPlic
open RiscvHypervisor.EmulatedAccess
open RiscvHypervisor.PlicSystem

section Words

/-- The word after an access, from the word before it. -/
def newWord : PlicOp → Uint32 → Uint32
  | .read _, word => word
  | .write _ value, _ => value
  | .amoand _ mask, word => word &&& mask
  | .amoor _ mask, word => word ||| mask

/-- The answer to an access, from the word before it. -/
def reply : (o : PlicOp) → Uint32 → plicEffect.Answer o
  | .read _, word => word
  | .write _ _, _ => ()
  | .amoand _ _, _ => ()
  | .amoor _ _, _ => ()

/-- Outside of the claim registers an access is about its own word. -/
theorem plicHandler_eq {o : PlicOp} (h : claimContext o.index = none) (plic : Plic) :
    plicHandler o plic =
      (reply o (plic.regs o.index), plic.setReg o.index (newWord o (plic.regs o.index))) := by
  cases o <;> simp only [PlicOp.index] at h <;>
    simp only [plicHandler, h, reply, newWord, PlicOp.index, Plic.setReg, Function.update_eq_self]

theorem commutes_of_index_ne {o o' : PlicOp} (h : claimContext o.index = none)
    (h' : claimContext o'.index = none) (hne : o.index ≠ o'.index) :
    Commutes plicHandler o o' := by
  intro plic
  simp only [plicHandler_eq h, plicHandler_eq h', Plic.setReg, Function.update_of_ne hne,
    Function.update_of_ne hne.symm, true_and]
  rw [Function.update_comm hne]

theorem commutes_read {index index' : Nat} (h : claimContext index = none)
    (h' : claimContext index' = none) : Commutes plicHandler (.read index) (.read index') := by
  intro plic
  simp only [plicHandler, h, h', and_self]

theorem commutes_complete {o : PlicOp} (h : claimContext o.index = none) (context : Nat)
    (irq : Uint32) : Commutes plicHandler o (.write (claimWord context) irq) := by
  intro plic
  simp only [plicHandler_write_claimWord, plicHandler_eq h, Plic.complete, Plic.setReg, and_self]

theorem commutes_complete_complete {context context' : Nat} (hne : context ≠ context')
    (irq irq' : Uint32) : Commutes plicHandler (.write (claimWord context) irq)
      (.write (claimWord context') irq') := by
  intro plic
  simp only [plicHandler_write_claimWord, Plic.complete, Function.update_of_ne hne,
    Function.update_of_ne hne.symm, true_and]
  rw [Function.update_comm hne]

end Words

/-- The accesses of an emulated load or store. -/
inductive EmulatedOp (context : Nat) (conf : VmConfig) : PlicOp → Prop
  | register {o : PlicOp} : RegisterAccess context conf o → EmulatedOp context conf o
  | complete {irq : Uint32} : EmulatedOp context conf (.write (claimWord context) irq)

/-- A trapped access of a guest. -/
inductive Access
  | load (instr : Instr)
  | store (instr : Instr)
  deriving DecidableEq, Repr

def emulate (hartid : Uint64) (hart : HartState) : Access → PlicM HartState
  | .load instr => emulateLoad hartid hart instr
  | .store instr => emulateStore hartid hart instr

theorem emulate_uses {hartid : Uint64} (hhart : hartid.toNat < dtbNrCpus) (hart : HartState)
    (x : Access) :
    (emulate hartid hart x).Uses (EmulatedOp (ownContext hartid) hart.vcpu.conf) := by
  cases x with
  | load instr =>
      refine ((loadValue_uses hhart hart.vcpu _).mono fun _ ho => .register ho).bind fun _ => ?_
      exact Program.uses_done _ _
  | store instr =>
      simp only [emulate, emulateStore]
      rcases storeValue_cases hhart hart (instr.addr - dtbPlic)
        ((hart.vcpu.regs instr.rs2).setWidth 32) with ⟨p, huses, heq⟩ | heq | heq <;> rw [heq]
      · exact ((huses.mono fun _ ho => .register ho).bind fun _ =>
          Program.uses_done _ _).bind fun _ => Program.uses_done _ _
      · exact ⟨.complete, fun _ => Program.uses_done _ _⟩
      · exact Program.uses_panic _ _

section Independence

variable {context context' : Nat} {conf conf' : VmConfig}

theorem commutes_registers (hcontext : context ≤ 15871) (hcontext' : context' ≤ 15871)
    (hne : context ≠ context') (hdisjoint : ∀ p, Owns conf p → ¬ Owns conf' p)
    {o o' : PlicOp} (ho : RegisterAccess context conf o) (ho' : RegisterAccess context' conf' o') :
    Commutes plicHandler o o' := by
  have hclaim := ho.claimContext_index hcontext
  have hclaim' := ho'.claimContext_index hcontext'
  rcases eq_or_ne o.index o'.index with hindex | hindex
  · rcases ho.word_cases hcontext with ⟨hlt, hp⟩ | ⟨hlow, hhigh, i, rfl⟩ | ⟨hge, hword⟩
    · rcases ho'.word_cases hcontext' with ⟨-, hq⟩ | ⟨hlow', -⟩ | ⟨hge', -⟩
      · exact absurd (hindex ▸ hq) (hdisjoint _ hp)
      · omega
      · omega
    · rcases ho'.word_cases hcontext' with ⟨hlt', -⟩ | ⟨-, -, i', rfl⟩ | ⟨hge', -⟩
      · omega
      · exact commutes_read hclaim hclaim'
      · omega
    · rcases ho'.word_cases hcontext' with ⟨hlt', -⟩ | ⟨-, hhigh', -⟩ | ⟨-, hword'⟩
      · omega
      · omega
      · exact absurd (hword.symm.trans (hindex ▸ hword')) hne
  · exact commutes_of_index_ne hclaim hclaim' hindex

theorem commutes_emulated (hcontext : context ≤ 15871) (hcontext' : context' ≤ 15871)
    (hne : context ≠ context') (hdisjoint : ∀ p, Owns conf p → ¬ Owns conf' p)
    {o o' : PlicOp} (ho : EmulatedOp context conf o) (ho' : EmulatedOp context' conf' o') :
    Commutes plicHandler o o' := by
  cases ho with
  | register ho =>
      cases ho' with
      | register ho' => exact commutes_registers hcontext hcontext' hne hdisjoint ho ho'
      | complete => exact commutes_complete (ho.claimContext_index hcontext) _ _
  | complete =>
      cases ho' with
      | register ho' => exact (commutes_complete (ho'.claimContext_index hcontext') _ _).symm
      | complete => exact commutes_complete_complete hne _ _

end Independence

/-- The two emulations and the PLIC they share. -/
def bothEmulate (ha hb : Fin dtbNrCpus) (a b : HartState) (x y : Access) (plic : Plic) :
    Pool plicEffect HartState Plic Bool where
  threads
    | false => emulate (hartidOf ha) a x
    | true => emulate (hartidOf hb) b y
  shared := plic

/-- Accesses of machines with disjoint physical sources, emulated on different
harts, end in every interleaving as they do one after the other, in both
orders. -/
theorem emulate_noninterference {ha hb : Fin dtbNrCpus} (hne : ha ≠ hb) (a b : HartState)
    (hdisjoint : ∀ dev ∈ a.vcpu.conf.devs, ∀ dev' ∈ b.vcpu.conf.devs,
      dev.physIrq ≠ 0 → dev.physIrq ≠ dev'.physIrq)
    (x y : Access) (plic : Plic) {schedule : List Bool}
    {final : Pool plicEffect HartState Plic Bool}
    (hrun : run (poolStep plicHandler) (bothEmulate ha hb a b x y plic) schedule = some final)
    {ra rb : Except String HartState} (hra : (final.threads false).outcome = some ra)
    (hrb : (final.threads true).outcome = some rb) :
    (ra, rb, final.shared) = inSequence plicHandler (emulate (hartidOf ha) a x)
        (emulate (hartidOf hb) b y) plic ∧
      (rb, ra, final.shared) = inSequence plicHandler (emulate (hartidOf hb) b y)
        (emulate (hartidOf ha) a x) plic := by
  have howns : ∀ p, Owns a.vcpu.conf p → ¬ Owns b.vcpu.conf p := by
    rintro p ⟨hpos, -, dev, hdev, hirq⟩ ⟨-, -, dev', hdev', hirq'⟩
    exact hdisjoint dev hdev dev' hdev' (by omega) (hirq.trans hirq'.symm)
  have hcomm : ∀ o o', EmulatedOp (contextOf ha) a.vcpu.conf o →
      EmulatedOp (contextOf hb) b.vcpu.conf o' → Commutes plicHandler o o' := fun o o' ho ho' =>
    commutes_emulated (contextOf_le ha) (contextOf_le hb) (contextOf_inj.not.mpr hne) howns ho ho'
  have hp := emulate_uses (hartidOf_lt ha) a x
  have hq := emulate_uses (hartidOf_lt hb) b y
  rw [ownContext_hartidOf] at hp hq
  have hfirst := run_pool_eq_inSequence hcomm (c := bothEmulate ha hb a b x y plic) hp hq hrun
    hra hrb
  refine ⟨hfirst, ?_⟩
  have hswap := inSequence_swap (fun o o' ho ho' => (hcomm o' o ho' ho).symm) hq hp plic
  rw [hswap]
  simp only [bothEmulate] at hfirst
  rw [← hfirst]

/-- `sw a0, 0x2080(PLIC)`: the first enable word of virtual context 1. -/
def storeEnable : Instr where
  opcode := 0x23
  rd := 1
  funct3 := 2
  rs2 := 10
  addr := dtbPlic + 0x2080

/-- Hart 0 with the bits of its sources 1 and 10 in every register. -/
def hartOfSample : HartState := ⟨{ initVcpu 0 sampleConf with regs := fun _ => 0x402 }, 0, 0⟩

/-- Hart 1 with the bit of its source 1 in every register. -/
def hartOfNeighbour : HartState := ⟨{ initVcpu 1 neighbourConf with regs := fun _ => 2 }, 0, 0⟩

def bothEnable : Pool plicEffect HartState Plic Bool :=
  bothEmulate 0 1 hartOfSample hartOfNeighbour (.store storeEnable) (.store storeEnable) resetPlic

/-- Between the two accesses with which one guest enables its sources the other guest
enables its own. -/
theorem emulate_noninterference_enable :
    ∃ final ra rb, run (poolStep plicHandler) bothEnable [false, true, false] = some final ∧
      (∃ a b, ra = .ok a ∧ rb = .ok b) ∧
      EnabledOn final.shared (contextOf 0) 1 ∧ EnabledOn final.shared (contextOf 0) 10 ∧
      EnabledOn final.shared (contextOf 1) 2 ∧
      (ra, rb, final.shared) = inSequence plicHandler
        (emulate (hartidOf 0) hartOfSample (.store storeEnable))
        (emulate (hartidOf 1) hartOfNeighbour (.store storeEnable)) resetPlic := by
  have hrun : run (poolStep plicHandler) bothEnable [false, true, false] = some _ := rfl
  exact ⟨_, _, _, hrun, ⟨_, _, rfl, rfl⟩, by decide, by decide, by decide,
    (emulate_noninterference (by decide) hartOfSample hartOfNeighbour (by decide)
      (.store storeEnable) (.store storeEnable) resetPlic hrun rfl rfl).1⟩

end RiscvHypervisor.PlicNonInterference
