import RiscvHypervisor.PlicSystem
import RiscvHypervisor.RegisterExecution

/-!
The virtual PLIC as a register file.  Every guest reads from its priority,
enable and threshold words what was last stored there, as if it had a PLIC of
its own, although the values live in words of the physical PLIC that it shares
with the other guests.
-/

namespace RiscvHypervisor.VirtualRegisterFile

open RiscvHypervisor.TransitionSystem
open RiscvHypervisor.EffectProgram
open RiscvHypervisor.MachineTypes
open RiscvHypervisor.GuestConfig
open RiscvHypervisor.PlicDriver
open RiscvHypervisor.VirtualCpu
open RiscvHypervisor.VirtualPlic
open RiscvHypervisor.EmulatedAccess
open RiscvHypervisor.RegisterMap
open RiscvHypervisor.RegisterExecution
open RiscvHypervisor.PlicSystem

/-- The words of the register files.  The harts of a machine share their
priorities; each has enable words and a threshold of its own. -/
inductive Slot
  | priority (conf : VmConfig) (source : Nat)
  | enable (h : Fin dtbNrCpus) (group : Nat)
  | threshold (h : Fin dtbNrCpus)
  deriving DecidableEq

section Specification

variable (confs : Fin dtbNrCpus → VmConfig)

/-- The virtual context of the guest on a hart. -/
def virtualContextOf (h : Fin dtbNrCpus) : Nat :=
  2 * (getVhartid (hartidOf h) (confs h).cpuAffinity).toNat + 1

/-- A store of the hart at the offset is to the slot. -/
def Slot.Covers : Slot → Fin dtbNrCpus → Uint64 → Prop
  | .priority conf source, h, offset => confs h = conf ∧ Located offset (.priority source)
  | .enable h' group, h, offset =>
      h = h' ∧ Located offset (.enable (virtualContextOf confs h') group)
  | .threshold h', h, offset => h = h' ∧ Located offset (.threshold (virtualContextOf confs h'))

instance (k : Slot) (h : Fin dtbNrCpus) (offset : Uint64) : Decidable (k.Covers confs h offset) :=
  match k with
  | .priority _ _ => inferInstanceAs (Decidable (_ ∧ _))
  | .enable _ _ => inferInstanceAs (Decidable (_ ∧ _))
  | .threshold _ => inferInstanceAs (Decidable (_ ∧ _))

/-- The value last stored in the slot, after an event. -/
def recordStore (k : Slot) (m : Machine) (e : Event) (last : Uint32) : Uint32 :=
  match e with
  | .store h instr =>
      if k.Covers confs h (instr.addr - dtbPlic) then
        ((m.harts h).vcpu.regs instr.rs2).setWidth 32
      else
        last
  | _ => last

/-- The value last stored in the slot along a run, `last` before it. -/
def lastStored (k : Slot) : Machine → List Event → Uint32 → Uint32
  | _, [], last => last
  | m, e :: es, last =>
      match step m e with
      | some m' => lastStored k m' es (recordStore confs k m e last)
      | none => last

/-- The values that a guest may read from a register when the slots hold the
given values.  Nothing is said of pending words and of the guest's own claim
register, which are not storage. -/
def Reads (file : Slot → Uint32) (h : Fin dtbNrCpus) : VirtualReg → Uint32 → Prop
  | .priority source, val =>
      val = if HasIrq (confs h) source then file (.priority (confs h) source) else 0
  | .pending _, _ => True
  | .enable context group, val =>
      if context = virtualContextOf confs h then
        ∀ i < 32, val.getLsbD i =
          ((file (.enable h group)).getLsbD i && decide (HasIrq (confs h) (32 * group + i)))
      else
        val = 0
  | .threshold context, val =>
      val = if context = virtualContextOf confs h then file (.threshold h) else 0
  | .claim context, val => context ≠ virtualContextOf confs h → val = 0

/-- The slot that a store of the hart to the register goes to. -/
def slotOf (h : Fin dtbNrCpus) : VirtualReg → Option Slot
  | .priority source => some (.priority (confs h) source)
  | .pending _ => none
  | .enable context group =>
      if context = virtualContextOf confs h then some (.enable h group) else none
  | .threshold context => if context = virtualContextOf confs h then some (.threshold h) else none
  | .claim _ => none

end Specification

theorem located_unique {offset : Uint64} {reg reg' : VirtualReg} (h : Located offset reg)
    (h' : Located offset reg') : reg = reg' := by
  cases reg <;> cases reg' <;> simp only [Located] at h h' <;>
    first
    | omega
    | (simp only [VirtualReg.priority.injEq, VirtualReg.pending.injEq, VirtualReg.enable.injEq,
        VirtualReg.threshold.injEq, VirtualReg.claim.injEq]; omega)

section Refinement

variable {confs : Fin dtbNrCpus → VmConfig}

/-- A store goes to the slot of the register it is to. -/
theorem covers_iff {offset : Uint64} {reg : VirtualReg} (hreg : Located offset reg) (k : Slot)
    (h : Fin dtbNrCpus) : k.Covers confs h offset ↔ slotOf confs h reg = some k := by
  constructor
  · intro hcovers
    cases k with
    | priority conf source =>
        obtain ⟨rfl, hloc⟩ := hcovers
        rw [located_unique hreg hloc, slotOf]
    | enable h' group =>
        obtain ⟨rfl, hloc⟩ := hcovers
        rw [located_unique hreg hloc, slotOf, if_pos rfl]
    | threshold h' =>
        obtain ⟨rfl, hloc⟩ := hcovers
        rw [located_unique hreg hloc, slotOf, if_pos rfl]
  · intro hslot
    cases reg with
    | priority source =>
        cases hslot
        exact ⟨rfl, hreg⟩
    | pending group => cases hslot
    | enable context group =>
        rw [slotOf] at hslot
        split at hslot
        · rename_i hcontext
          cases hslot
          exact ⟨rfl, hcontext ▸ hreg⟩
        · cases hslot
    | threshold context =>
        rw [slotOf] at hslot
        split at hslot
        · rename_i hcontext
          cases hslot
          exact ⟨rfl, hcontext ▸ hreg⟩
        · cases hslot
    | claim context => cases hslot

/-- The file after a store of `val` to a slot. -/
def updateSlot (file : Slot → Uint32) (slot : Option Slot) (val : Uint32) : Slot → Uint32 :=
  fun k => if slot = some k then val else file k

theorem recordStore_eq {offset : Uint64} {reg : VirtualReg} (hreg : Located offset reg)
    {m : Machine} {h : Fin dtbNrCpus} {instr : Instr} (hoffset : instr.addr - dtbPlic = offset)
    (file : Slot → Uint32) :
    (fun k => recordStore confs k m (.store h instr) (file k)) =
      updateSlot file (slotOf confs h reg) (((m.harts h).vcpu.regs instr.rs2).setWidth 32) := by
  funext k
  simp only [recordStore, updateSlot, hoffset, covers_iff hreg]

/-- The storage words of the PLIC hold what the slots hold: a priority word the
priority of its machine's virtual source, an enable bit the bit of the virtual
source in its group. -/
structure Agrees (confs : Fin dtbNrCpus → VmConfig) (file : Slot → Uint32) (plic : Plic) :
    Prop where
  priority : ∀ h v p, Maps (confs h) v p → plic.regs p = file (.priority (confs h) v)
  enable : ∀ h v p, Maps (confs h) v p →
    enableBit plic (contextOf h) p = (file (.enable h (v / 32))).getLsbD (v % 32)
  threshold : ∀ h, plic.regs (thresholdWord (contextOf h)) = file (.threshold h)

theorem Agrees.congr {file : Slot → Uint32} {plic plic' : Plic} (hplic : Agrees confs file plic)
    (hregs : ∀ index, index < 0x400 ∨ 0x800 ≤ index → plic'.regs index = plic.regs index) :
    Agrees confs file plic' where
  priority h v p hmaps := by
    have hle := hmaps.2.2.2.1
    rw [hregs p (by omega)]
    exact hplic.priority h v p hmaps
  enable h v p hmaps := by
    rw [enableBit, hregs _ (by simp only [enableWord]; omega)]
    exact hplic.enable h v p hmaps
  threshold h := by
    rw [hregs _ (by simp only [thresholdWord]; omega)]
    exact hplic.threshold h

/-- Distinct machines have distinct physical sources. -/
def DisjointIrqs (confs : Fin dtbNrCpus → VmConfig) : Prop :=
  ∀ h h', confs h ≠ confs h' → ∀ dev ∈ (confs h).devs, ∀ dev' ∈ (confs h').devs,
    dev.physIrq ≠ 0 → dev.physIrq ≠ dev'.physIrq

theorem DisjointIrqs.conf_eq (hdisjoint : DisjointIrqs confs) {h h' : Fin dtbNrCpus} {v v' p : Nat}
    (hmaps : Maps (confs h) v p) (hmaps' : Maps (confs h') v' p) : confs h = confs h' := by
  obtain ⟨-, -, hpos, -, dev, hdev, -, hphys⟩ := hmaps
  obtain ⟨-, -, -, -, dev', hdev', -, hphys'⟩ := hmaps'
  by_contra hne
  exact hdisjoint h h' hne dev hdev dev' hdev' (by omega) (hphys.trans hphys'.symm)

section Stores

variable (hconfs : ∀ h, IrqsWellFormed (confs h)) (hdisjoint : DisjointIrqs confs)
  {file : Slot → Uint32} {plic : Plic}

include hconfs hdisjoint in
theorem agrees_setPriority (hplic : Agrees confs file plic) (h : Fin dtbNrCpus) {v p : Nat}
    (hmaps : Maps (confs h) v p) (val : Uint32) :
    Agrees confs (updateSlot file (some (.priority (confs h) v)) val) (plic.setReg p val) where
  priority h' v' p' hmaps' := by
    rcases eq_or_ne p' p with rfl | hp
    · have hconf := hdisjoint.conf_eq hmaps hmaps'
      rw [← hconf] at hmaps' ⊢
      rw [(hconfs h).maps_virt_unique hmaps' hmaps]
      simp [updateSlot]
    · have hslot : Slot.priority (confs h) v ≠ .priority (confs h') v' := by
        intro heq
        simp only [Slot.priority.injEq] at heq
        rw [← heq.1, ← heq.2] at hmaps'
        exact hp ((hconfs h).maps_phys_unique hmaps' hmaps)
      rw [Plic.setReg_of_ne hp]
      simp only [updateSlot, Option.some.injEq, hslot, if_false]
      exact hplic.priority h' v' p' hmaps'
  enable h' v' p' hmaps' := by
    have hle := hmaps.2.2.2.1
    rw [enableBit, Plic.setReg_of_ne (by simp only [enableWord]; omega)]
    simpa [updateSlot, enableBit] using hplic.enable h' v' p' hmaps'
  threshold h' := by
    have hle := hmaps.2.2.2.1
    rw [Plic.setReg_of_ne (by simp only [thresholdWord]; omega)]
    simpa [updateSlot] using hplic.threshold h'

include hconfs in
/-- A store to a priority that no device has leaves no trace. -/
theorem agrees_noPriority (hplic : Agrees confs file plic) (h : Fin dtbNrCpus) {v : Nat}
    (hirq : ¬ HasIrq (confs h) v) (val : Uint32) :
    Agrees confs (updateSlot file (some (.priority (confs h) v)) val) plic where
  priority h' v' p' hmaps' := by
    have hslot : Slot.priority (confs h) v ≠ .priority (confs h') v' := by
      intro heq
      simp only [Slot.priority.injEq] at heq
      rw [← heq.1, ← heq.2] at hmaps'
      exact hirq ((hconfs h).hasIrq_iff.mpr ⟨p', hmaps'⟩)
    simp only [updateSlot, Option.some.injEq, hslot, if_false]
    exact hplic.priority h' v' p' hmaps'
  enable h' v' p' hmaps' := by simpa [updateSlot] using hplic.enable h' v' p' hmaps'
  threshold h' := by simpa [updateSlot] using hplic.threshold h'

theorem agrees_setThreshold (hplic : Agrees confs file plic) (h : Fin dtbNrCpus) (val : Uint32) :
    Agrees confs (updateSlot file (some (.threshold h)) val)
      (plic.setReg (thresholdWord (contextOf h)) val) where
  priority h' v' p' hmaps' := by
    have hle := hmaps'.2.2.2.1
    rw [Plic.setReg_of_ne (by simp only [thresholdWord]; omega)]
    simpa [updateSlot] using hplic.priority h' v' p' hmaps'
  enable h' v' p' hmaps' := by
    have hle := hmaps'.2.2.2.1
    have hcontext := contextOf_le h'
    rw [enableBit, Plic.setReg_of_ne (by simp only [enableWord, thresholdWord]; omega)]
    simpa [updateSlot, enableBit] using hplic.enable h' v' p' hmaps'
  threshold h' := by
    rcases eq_or_ne h' h with rfl | hh
    · simp [updateSlot]
    · have hword : thresholdWord (contextOf h') ≠ thresholdWord (contextOf h) := by
        have hcontext := contextOf_inj.not.mpr hh
        simp only [thresholdWord]
        omega
      rw [Plic.setReg_of_ne hword]
      simpa [updateSlot, Ne.symm hh] using hplic.threshold h'

/-- The enable words of the other contexts and all other words are as before. -/
theorem SameButEnable.agrees_of {plic' : Plic} (hplic : Agrees confs file plic)
    {h : Fin dtbNrCpus} {group : Nat} {val : Uint32} (hsame : SameButEnable (contextOf h) plic plic')
    (hbits : ∀ v p, Maps (confs h) v p → enableBit plic' (contextOf h) p =
      if v / 32 = group then val.getLsbD (v % 32) else enableBit plic (contextOf h) p) :
    Agrees confs (updateSlot file (some (.enable h group)) val) plic' where
  priority h' v' p' hmaps' := by
    have hle := hmaps'.2.2.2.1
    rw [hsame.regs p' fun source hsource => by simp only [enableWord]; omega]
    simpa [updateSlot] using hplic.priority h' v' p' hmaps'
  enable h' v' p' hmaps' := by
    rcases eq_or_ne h' h with rfl | hh
    · rw [hbits v' p' hmaps', hplic.enable h' v' p' hmaps']
      rcases eq_or_ne (v' / 32) group with hgroup | hgroup
      · simp [updateSlot, hgroup]
      · simp [updateSlot, hgroup, Ne.symm hgroup]
    · have hcontext := contextOf_inj.not.mpr hh
      have hle := hmaps'.2.2.2.1
      rw [enableBit, hsame.regs _ fun source hsource => by simp only [enableWord]; omega]
      simpa [updateSlot, enableBit, Ne.symm hh] using hplic.enable h' v' p' hmaps'
  threshold h' := by
    have hcontext := contextOf_le h
    rw [hsame.regs _ fun source hsource => by simp only [enableWord, thresholdWord]; omega]
    simpa [updateSlot] using hplic.threshold h'

include hconfs in
/-- A store to an enable word sets the bits of the devices in its group. -/
theorem agrees_scatterGroup (hplic : Agrees confs file plic) (h : Fin dtbNrCpus) (group : Nat)
    (val : Uint32) :
    ∃ plic', exec plicHandler (scatterGroup (confs h).devices (contextOf h) group val) plic =
        (.ok (), plic') ∧ Agrees confs (updateSlot file (some (.enable h group)) val) plic' := by
  choose physIrq hphys hmaps using fun i : Nat => (hconfs h).virtToPhysIrq_eq_iff (group * 32 + i)
  push_cast at hphys
  obtain ⟨plic', hexec, hsame, hbits⟩ := exec_scatter (contextOf_le h) physIrq val (List.range 32)
    (fun i hi => List.mem_range.mp hi) plic
  refine ⟨plic', ?_, SameButEnable.agrees_of hplic hsame fun v p hp => ?_⟩
  · simpa only [scatterGroup, hphys] using hexec
  · have hpos := hp.2.2.1
    obtain ⟨hunchanged, hset⟩ := hbits p hpos hp.2.2.2.1
    have hindex : ∀ i, physIrq i = p ↔ group * 32 + i = v := fun i => by
      rw [hmaps i p hpos]
      exact ⟨fun hi => (hconfs h).maps_virt_unique hi hp, fun hi => hi ▸ hp⟩
    simp only [hindex, ne_eq] at hunchanged hset
    rcases eq_or_ne (v / 32) group with hgroup | hgroup
    · rw [if_pos hgroup]
      refine hset (v % 32) (List.mem_range.mpr (Nat.mod_lt _ (by decide))) (by omega) ?_
      intro j _ hj
      omega
    · rw [if_neg hgroup]
      refine hunchanged fun i hi heq => ?_
      have := List.mem_range.mp hi
      omega

theorem updateSlot_none (val : Uint32) : updateSlot file none val = file := by
  funext k
  simp [updateSlot]

include hconfs hdisjoint in
/-- A store to a register leaves its value in the slot of the register. -/
theorem agrees_storeReg (hplic : Agrees confs file plic) {h : Fin dtbNrCpus} {hart : HartState}
    (hconf : hart.vcpu.conf = confs h) (hvctx : virtualContext hart.vcpu = virtualContextOf confs h)
    (val : Uint32) (reg : VirtualReg) :
    ∃ hart' plic', exec plicHandler (storeReg (hartidOf h) hart val reg) plic = (.ok hart', plic') ∧
      Agrees confs (updateSlot file (slotOf confs h reg) val) plic' := by
  cases reg with
  | priority source =>
      obtain ⟨p, hphys, -⟩ := (hconfs h).virtToPhysIrq_eq_iff source
      rw [storeReg, hconf, hphys, exec_bind_ok _ (exec_plicSetPriority p val)]
      refine ⟨_, _, rfl, ?_⟩
      rw [slotOf]
      rcases (hconfs h).virtToPhysIrq_nat source with ⟨hnone, hzero⟩ | ⟨q, hmaps, hq⟩
      · have hp : p = 0 := Int.ofNat.inj (hphys.symm.trans hzero)
        rw [if_neg (by omega)]
        exact agrees_noPriority hconfs hplic h hnone val
      · obtain rfl : p = q := Int.ofNat.inj (hphys.symm.trans hq)
        rw [if_pos ⟨hmaps.2.2.1, hmaps.2.2.2.1⟩]
        exact agrees_setPriority hconfs hdisjoint hplic h hmaps val
  | pending group =>
      refine ⟨_, _, rfl, ?_⟩
      rwa [slotOf, updateSlot_none]
  | enable context group =>
      rw [storeReg, slotOf, hvctx, hconf, ownContext_hartidOf]
      rcases eq_or_ne context (virtualContextOf confs h) with hcontext | hcontext
      · obtain ⟨plic', hexec, hagrees⟩ := agrees_scatterGroup hconfs hplic h group val
        rw [if_pos hcontext, if_pos hcontext]
        exact ⟨hart, plic', by rw [exec_bind_ok _ hexec]; rfl, hagrees⟩
      · rw [if_neg hcontext, if_neg hcontext, updateSlot_none]
        exact ⟨_, _, rfl, hplic⟩
  | threshold context =>
      rw [storeReg, slotOf, hvctx, ownContext_hartidOf]
      rcases eq_or_ne context (virtualContextOf confs h) with hcontext | hcontext
      · rw [if_pos hcontext, if_pos hcontext,
          exec_bind_ok _ (exec_plicSetThreshold (contextOf_le h) val)]
        exact ⟨_, _, rfl, agrees_setThreshold hplic h val⟩
      · rw [if_neg hcontext, if_neg hcontext, updateSlot_none]
        exact ⟨_, _, rfl, hplic⟩
  | claim context =>
      rw [slotOf, updateSlot_none, storeReg, ownContext_hartidOf]
      split
      · rw [exec_bind_ok _ (exec_plicComplete (contextOf_le h) _)]
        exact ⟨_, _, rfl, hplic.congr fun _ _ => rfl⟩
      · exact ⟨_, _, rfl, hplic⟩

end Stores

section Loads

variable (hconfs : ∀ h, IrqsWellFormed (confs h)) {file : Slot → Uint32} {plic : Plic}

include hconfs in
theorem exec_gatherEnabled (hplic : Agrees confs file plic) (h : Fin dtbNrCpus) (group : Nat) :
    ∃ word, exec plicHandler (gatherGroup (confs h).devices group
        (plicGetEnabled (contextOf h))) plic = (.ok word, plic) ∧
      ∀ i < 32, word.getLsbD i =
        ((file (.enable h group)).getLsbD i && decide (HasIrq (confs h) (32 * group + i))) := by
  choose physIrq hphys hmaps using fun i : Nat => (hconfs h).virtToPhysIrq_eq_iff (group * 32 + i)
  push_cast at hphys
  obtain ⟨word, hexec, hbits⟩ := exec_gatherGroup plic (confs h).devices group
    (plicGetEnabled (contextOf h)) fun i => by
      rw [hphys, exec_plicGetEnabled (contextOf_le h)]
  refine ⟨word, hexec, fun i hi => ?_⟩
  rw [hbits i hi, show 32 * group + i = group * 32 + i by omega]
  by_cases hirq : HasIrq (confs h) (group * 32 + i)
  · obtain ⟨p, hp⟩ := (hconfs h).hasIrq_iff.mp hirq
    have hslot := hplic.enable h _ p hp
    rw [show (group * 32 + i) / 32 = group by omega, show (group * 32 + i) % 32 = i by omega]
      at hslot
    rw [(hmaps i p hp.2.2.1).mpr hp, if_pos ⟨hp.2.2.1, hp.2.2.2.1⟩, ← hslot, decide_eq_true hirq,
      Bool.and_true, Bool.eq_iff_iff, decide_eq_true_iff, and_sourceMask_ne_zero_iff]
    rfl
  · have hzero : ¬ (1 ≤ physIrq i ∧ physIrq i ≤ 1023) := fun hp =>
      hirq ((hconfs h).hasIrq_iff.mpr ⟨_, (hmaps i _ hp.1).mp rfl⟩)
    rw [if_neg hzero, decide_eq_false hirq, Bool.and_false]
    rfl

include hconfs in
/-- A load of a register returns a value that its slot allows. -/
theorem exec_loadReg (hplic : Agrees confs file plic) {h : Fin dtbNrCpus} {vcpu : Vcpu}
    (hconf : vcpu.conf = confs h) (hvctx : virtualContext vcpu = virtualContextOf confs h)
    (reg : VirtualReg) :
    ∃ val, exec plicHandler (loadReg (hartidOf h) vcpu reg) plic = (.ok val, plic) ∧
      Reads confs file h reg val := by
  cases reg with
  | priority source =>
      obtain ⟨p, hphys, hmaps⟩ := (hconfs h).virtToPhysIrq_eq_iff source
      rw [loadReg, hconf, hphys, exec_plicGetPriority]
      refine ⟨_, rfl, ?_⟩
      rw [Reads]
      by_cases hirq : HasIrq (confs h) source
      · obtain ⟨q, hq⟩ := (hconfs h).hasIrq_iff.mp hirq
        rw [(hmaps q hq.2.2.1).mpr hq, if_pos ⟨hq.2.2.1, hq.2.2.2.1⟩, if_pos hirq]
        exact hplic.priority h source q hq
      · have hzero : ¬ (1 ≤ p ∧ p ≤ 1023) := fun hp =>
          hirq ((hconfs h).hasIrq_iff.mpr ⟨p, (hmaps p hp.1).mp rfl⟩)
        rw [if_neg hzero, if_neg hirq]
  | pending group =>
      choose physIrq hphys _ using fun i : Nat => (hconfs h).virtToPhysIrq_eq_iff (group * 32 + i)
      push_cast at hphys
      obtain ⟨word, hexec, -⟩ := exec_gatherGroup plic (confs h).devices group plicGetPending
        fun i => by rw [hphys, exec_plicGetPending]
      rw [loadReg, hconf]
      exact ⟨word, hexec, trivial⟩
  | enable context group =>
      simp only [loadReg, Reads, hvctx, hconf, ownContext_hartidOf]
      rcases eq_or_ne context (virtualContextOf confs h) with hcontext | hcontext
      · simp only [if_pos hcontext]
        exact exec_gatherEnabled hconfs hplic h group
      · simp only [if_neg hcontext]
        exact ⟨0, rfl, rfl⟩
  | threshold context =>
      simp only [loadReg, Reads, hvctx, ownContext_hartidOf]
      rcases eq_or_ne context (virtualContextOf confs h) with hcontext | hcontext
      · simp only [if_pos hcontext]
        exact ⟨_, exec_plicGetThreshold (contextOf_le h), hplic.threshold h⟩
      · simp only [if_neg hcontext]
        exact ⟨0, rfl, rfl⟩
  | claim context =>
      rw [loadReg, hvctx]
      rcases eq_or_ne context (virtualContextOf confs h) with hcontext | hcontext
      · rw [if_pos hcontext]
        exact ⟨_, rfl, fun hne => absurd hcontext hne⟩
      · rw [if_neg hcontext]
        exact ⟨0, rfl, fun _ => rfl⟩

end Loads

section Runs

variable (hconfs : ∀ h, IrqsWellFormed (confs h)) (hdisjoint : DisjointIrqs confs)
  {file : Slot → Uint32} {m m' : Machine} {e : Event}

theorem virtualContext_eq (hhosts : Hosts confs m) (h : Fin dtbNrCpus) :
    virtualContext (m.harts h).vcpu = virtualContextOf confs h := by
  rw [virtualContext, virtualContextOf, (hhosts h).2]

include hconfs in
theorem agrees_load (hhosts : Hosts confs m) (hm : Agrees confs file m.plic) {h : Fin dtbNrCpus}
    {instr : Instr} (hstep : step m (.load h instr) = some m') : Agrees confs file m'.plic := by
  obtain ⟨hart, plic, hexec, rfl⟩ := runOn_eq_some hstep
  obtain ⟨val, plic', hload, hrest⟩ := exists_of_exec_bind _ hexec
  cases hrest
  by_cases hreg : ∃ reg, Located (instr.addr - dtbPlic) reg
  · obtain ⟨reg, hreg⟩ := hreg
    obtain ⟨val', hexec', -⟩ := exec_loadReg hconfs hm (hhosts h).1 (virtualContext_eq hhosts h) reg
    rw [loadValue_of_located (hartidOf_lt h) (hhosts.vhartid_lt h) hreg, hexec'] at hload
    cases hload
    exact hm
  · rw [loadValue_of_not_located (not_exists.mp hreg)] at hload
    cases hload

include hconfs hdisjoint in
theorem agrees_store (hhosts : Hosts confs m) (hm : Agrees confs file m.plic) {h : Fin dtbNrCpus}
    {instr : Instr} (hstep : step m (.store h instr) = some m') :
    Agrees confs (fun k => recordStore confs k m (.store h instr) (file k)) m'.plic := by
  obtain ⟨hart, plic, hexec, rfl⟩ := runOn_eq_some hstep
  obtain ⟨hart', plic', hstore, hrest⟩ := exists_of_exec_bind _ hexec
  cases hrest
  by_cases hreg : ∃ reg, Located (instr.addr - dtbPlic) reg
  · obtain ⟨reg, hreg⟩ := hreg
    obtain ⟨hart'', plic'', hexec', hagrees⟩ := agrees_storeReg hconfs hdisjoint hm (hhosts h).1
      (virtualContext_eq hhosts h) (((m.harts h).vcpu.regs instr.rs2).setWidth 32) reg
    rw [storeValue_of_located (hartidOf_lt h) (hhosts.vhartid_lt h) _ hreg, hexec'] at hstore
    cases hstore
    rw [recordStore_eq hreg rfl]
    exact hagrees
  · rw [storeValue_of_not_located (not_exists.mp hreg)] at hstore
    cases hstore

include hconfs hdisjoint in
/-- Every event keeps the words of the PLIC in agreement with the slots. -/
theorem agrees_step (hhosts : Hosts confs m) (hm : Agrees confs file m.plic)
    (hstep : step m e = some m') :
    Agrees confs (fun k => recordStore confs k m e (file k)) m'.plic := by
  cases e with
  | load h instr => exact agrees_load hconfs hhosts hm hstep
  | store h instr => exact agrees_store hconfs hdisjoint hhosts hm hstep
  | interrupt h irq =>
      rw [step_interrupt] at hstep
      cases hstep
      refine hm.congr fun index hindex => ?_
      rw [claim_regs_of_ne (by omega)]
      rfl
  | guest h regs sepc =>
      cases hstep
      exact hm
  | raise source =>
      cases hstep
      have hrange := pendingWord_range source.isLt
      exact hm.congr fun index hindex => Plic.setReg_of_ne (by omega) _ _

include hconfs hdisjoint in
theorem agrees_run {es : List Event} (hhosts : Hosts confs m) (hm : Agrees confs file m.plic)
    (hrun : run step m es = some m') :
    Hosts confs m' ∧ Agrees confs (fun k => lastStored confs k m es (file k)) m'.plic := by
  induction es generalizing m file with
  | nil =>
      cases hrun
      exact ⟨hhosts, hm⟩
  | cons e es ih =>
      simp only [run, Option.bind_eq_some_iff] at hrun
      obtain ⟨m₁, hstep, hrest⟩ := hrun
      have hnext := ih (hhosts.step hstep) (agrees_step hconfs hdisjoint hhosts hm hstep) hrest
      simpa only [lastStored, hstep] using hnext

end Runs

end Refinement

/-- A word of another virtual context than the hart's own. -/
def Foreign (confs : Fin dtbNrCpus → VmConfig) (h : Fin dtbNrCpus) : VirtualReg → Prop
  | .priority _ => False
  | .pending _ => False
  | .enable context _ => context ≠ virtualContextOf confs h
  | .threshold context => context ≠ virtualContextOf confs h
  | .claim context => context ≠ virtualContextOf confs h

/-- The priority, enable and threshold words are 0. -/
structure Cleared (plic : Plic) : Prop where
  priority : ∀ source ≤ 1023, plic.regs source = 0
  enable : ∀ context ≤ 15871, ∀ source ≤ 1023, plic.regs (enableWord context source) = 0
  threshold : ∀ context ≤ 15871, plic.regs (thresholdWord context) = 0

theorem Cleared.agrees {confs : Fin dtbNrCpus → VmConfig} {plic : Plic} (h : Cleared plic) :
    Agrees confs (fun _ => 0) plic where
  priority h' v p hmaps := h.priority p hmaps.2.2.2.1
  enable h' v p hmaps := by
    rw [enableBit, h.enable _ (contextOf_le h') p hmaps.2.2.2.1]
    simp
  threshold h' := h.threshold _ (contextOf_le h')

theorem step_store_foreign {confs : Fin dtbNrCpus → VmConfig} {m : Machine}
    (hhosts : Hosts confs m) {h : Fin dtbNrCpus} {instr : Instr} {reg : VirtualReg}
    (hreg : Located (instr.addr - dtbPlic) reg) (hforeign : Foreign confs h reg) :
    step m (.store h instr) = some { m with
      harts := Function.update m.harts h
        { m.harts h with sepc := (m.harts h).sepc + instrLength instr } } := by
  apply step_store_eq (hhosts.vhartid_lt h) hreg
  cases reg with
  | priority source => cases hforeign
  | pending group => cases hforeign
  | enable context group =>
      rw [storeReg, virtualContext_eq hhosts h, if_neg hforeign]
      rfl
  | threshold context =>
      rw [storeReg, virtualContext_eq hhosts h, if_neg hforeign]
      rfl
  | claim context =>
      rw [storeReg, virtualContext_eq hhosts h, if_neg fun hand => hforeign hand.1]
      rfl

/-- After every run a guest reads from its priority, enable and threshold words
what was last stored there, and the words of other virtual contexts read as 0
and ignore stores. -/
theorem virtualPlic_registerFile (confs : Fin dtbNrCpus → VmConfig)
    (sepc : Fin dtbNrCpus → Uint64) (plic : Plic) (hconfs : ∀ h, IrqsWellFormed (confs h))
    (hdisjoint : DisjointIrqs confs) (hplic : Cleared plic) {es : List Event} {m : Machine}
    (hrun : run step (Machine.boot confs sepc plic) es = some m) (h : Fin dtbNrCpus)
    (instr : Instr) (reg : VirtualReg) (hreg : Located (instr.addr - dtbPlic) reg) :
    (∃ m', step m (.load h instr) = some m' ∧
      Reads confs (fun k => lastStored confs k (Machine.boot confs sepc plic) es 0) h reg
        (loaded m' h instr)) ∧
    (Foreign confs h reg → step m (.store h instr) = some { m with
      harts := Function.update m.harts h
        { m.harts h with sepc := (m.harts h).sepc + instrLength instr } }) := by
  obtain ⟨hhosts, hagrees⟩ := agrees_run hconfs hdisjoint
    (hosts_boot confs sepc plic) hplic.agrees hrun
  refine ⟨?_, step_store_foreign hhosts hreg⟩
  obtain ⟨val, hexec, hreads⟩ := exec_loadReg hconfs hagrees (hhosts h).1
    (virtualContext_eq hhosts h) reg
  obtain ⟨m', hstep, hloaded⟩ := step_load_of_located (hhosts.vhartid_lt h) hreg hexec
  exact ⟨m', hstep, hloaded ▸ hreads⟩

/-- `sw a1, 4(PLIC)`, with 0xff in `a1` when the guest starts. -/
def storePriority : Instr where
  opcode := 0x23
  rd := 4
  funct3 := 2
  rs2 := 11
  addr := dtbPlic + 4

/-- One machine to each hart. -/
def sampleConfs (h : Fin dtbNrCpus) : VmConfig := if h = 0 then sampleConf else neighbourConf

theorem neighbourConf_irqsWellFormed : IrqsWellFormed neighbourConf := by
  constructor <;> decide

theorem virtualPlic_registerFile_priority :
    ∃ m m', run step (Machine.boot sampleConfs (fun _ => 0) resetPlic) [.store 0 storePriority] =
        some m ∧ step m (.load 0 loadPriority) = some m' ∧ loaded m' 0 loadPriority = 0xff := by
  have hconfs : ∀ h, IrqsWellFormed (sampleConfs h) := fun h => by
    unfold sampleConfs
    split
    · exact sampleConf_irqsWellFormed
    · exact neighbourConf_irqsWellFormed
  have hdisjoint : DisjointIrqs sampleConfs := by
    unfold DisjointIrqs
    decide
  have hplic : Cleared resetPlic := ⟨fun _ _ => rfl, fun _ _ _ _ => rfl, fun _ _ => rfl⟩
  have hrun : run step (Machine.boot sampleConfs (fun _ => 0) resetPlic)
      [.store 0 storePriority] = some _ := rfl
  obtain ⟨⟨m', hstep, hreads⟩, -⟩ := virtualPlic_registerFile sampleConfs (fun _ => 0) resetPlic
    hconfs hdisjoint hplic hrun 0 loadPriority (.priority 1) (by decide)
  exact ⟨_, m', hrun, hstep, hreads⟩

end RiscvHypervisor.VirtualRegisterFile
