import RiscvHypervisor.EmulatedAccess

/-!
The registers of the virtual PLIC and the offsets at which the guest sees
them.  The chains of offset tests in `emulate_load` and `emulate_store` pick
the register that the offset belongs to.
-/

namespace RiscvHypervisor.RegisterMap

open RiscvHypervisor.EffectProgram
open RiscvHypervisor.MachineTypes
open RiscvHypervisor.GuestConfig
open RiscvHypervisor.PlicDriver
open RiscvHypervisor.VirtualCpu
open RiscvHypervisor.VirtualPlic
open RiscvHypervisor.EmulatedAccess

inductive VirtualReg
  | priority (source : Nat)
  | pending (group : Nat)
  | enable (context group : Nat)
  | threshold (context : Nat)
  | claim (context : Nat)
  deriving DecidableEq, Repr

/-- The offset is in the word of the register. -/
def Located (offset : Uint64) : VirtualReg → Prop
  | .priority source => offset.toNat < 0x1000 ∧ source = offset.toNat / 4
  | .pending group => 0x1000 ≤ offset.toNat ∧ offset.toNat < 0x1080 ∧
      group = (offset.toNat - 0x1000) / 4
  | .enable context group => 0x2000 ≤ offset.toNat ∧ offset.toNat < 0x200000 ∧
      context = (offset.toNat - 0x2000) / 0x80 ∧ group = (offset.toNat - 0x2000) % 0x80 / 4
  | .threshold context => context < 15872 ∧ offset.toNat = 0x200000 + 0x1000 * context
  | .claim context => context < 15872 ∧ offset.toNat = 0x200004 + 0x1000 * context

instance (offset : Uint64) (reg : VirtualReg) : Decidable (Located offset reg) :=
  match reg with
  | .priority _ => inferInstanceAs (Decidable (_ ∧ _))
  | .pending _ => inferInstanceAs (Decidable (_ ∧ _))
  | .enable _ _ => inferInstanceAs (Decidable (_ ∧ _))
  | .threshold _ => inferInstanceAs (Decidable (_ ∧ _))
  | .claim _ => inferInstanceAs (Decidable (_ ∧ _))

section Tests

variable {offset : Uint64}

theorem isContextReg_iff {base : Uint32} (hbase : base.toNat < 0x300000) (offset : Uint64) :
    isContextReg base offset = true ↔
      ∃ context < 15872, offset.toNat = base.toNat + 0x1000 * context := by
  unfold isContextReg
  simp only [List.any_eq_true, List.mem_range, beq_iff_eq]
  refine exists_congr fun context => and_congr_right fun hcontext => ?_
  rw [← BitVec.toNat_inj, eq_comm]
  have hsum : ((base + BitVec.ofNat 32 context * 0x1000).setWidth 64).toNat =
      base.toNat + 0x1000 * context := by
    simp
    omega
  rw [hsum]

theorem isAccessToPriorityReg_iff : isAccessToPriorityReg offset = true ↔ offset.toNat < 0x1000 := by
  simp [isAccessToPriorityReg, BitVec.lt_def]

theorem isAccessToPendingRegs_iff :
    isAccessToPendingRegs offset = true ↔ 0x1000 ≤ offset.toNat ∧ offset.toNat < 0x1080 := by
  simp [isAccessToPendingRegs, BitVec.lt_def, BitVec.le_def]

theorem isAccessToEnableRegs_iff :
    isAccessToEnableRegs offset = true ↔ 0x2000 ≤ offset.toNat ∧ offset.toNat < 0x200000 := by
  simp [isAccessToEnableRegs, BitVec.lt_def, BitVec.le_def]

theorem isAccessToThresholdReg_iff : isAccessToThresholdReg offset = true ↔
    ∃ context < 15872, offset.toNat = 0x200000 + 0x1000 * context :=
  isContextReg_iff (by decide) offset

theorem isAccessToClaimCompleteReg_iff : isAccessToClaimCompleteReg offset = true ↔
    ∃ context < 15872, offset.toNat = 0x200004 + 0x1000 * context :=
  isContextReg_iff (by decide) offset

end Tests

section Quotients

variable {offset vctx : Uint64}

theorem toInt_div_four (h : offset.toNat < 0x10000) : toInt (offset / 4) = offset.toNat / 4 := by
  have hvalue : (offset / 4).toNat = offset.toNat / 4 := by simp
  rw [toInt_of_lt (by omega), hvalue]
  omega

theorem toNat_sub_literal {base : Uint64} (h : base.toNat ≤ offset.toNat) :
    (offset - base).toNat = offset.toNat - base.toNat :=
  BitVec.toNat_sub_of_le (BitVec.le_def.mpr h)

theorem toInt_enable_group (hlow : 0x2000 ≤ offset.toNat) (hhigh : offset.toNat < 0x200000)
    (hctx : vctx.toNat = (offset.toNat - 0x2000) / 0x80) :
    toInt ((offset - 0x2000 - vctx * 0x80) / 4) =
      ((offset.toNat - 0x2000) % 0x80 / 4 : Nat) := by
  have hmul : (vctx * 0x80).toNat = vctx.toNat * 0x80 := by
    simp
    omega
  have hsub : (offset - 0x2000).toNat = offset.toNat - 0x2000 := toNat_sub_literal hlow
  have hvalue : (offset - 0x2000 - vctx * 0x80).toNat = (offset.toNat - 0x2000) % 0x80 := by
    rw [toNat_sub_literal (by omega), hsub, hmul, hctx]
    omega
  rw [toInt_div_four (by omega), hvalue]
  omega

end Quotients

/-- The virtual context in which the guest on the hart runs. -/
def virtualContext (vcpu : Vcpu) : Nat := 2 * vcpu.vhartid.toNat + 1

theorem toNat_vctx {vcpu : Vcpu} (h : vcpu.vhartid.toNat < dtbNrCpus) :
    (2 * vcpu.vhartid + 1).toNat = virtualContext vcpu := by
  simp only [dtbNrCpus] at h
  simp [virtualContext]
  omega

section Contexts

variable {offset : Uint64} {vcpu : Vcpu}

theorem enable_context_iff (hvhart : vcpu.vhartid.toNat < dtbNrCpus)
    (hlow : 0x2000 ≤ offset.toNat) : 2 * vcpu.vhartid + 1 = (offset - 0x2000) / 0x80 ↔
      (offset.toNat - 0x2000) / 0x80 = virtualContext vcpu := by
  have hsub : (offset - 0x2000).toNat = offset.toNat - 0x2000 := toNat_sub_literal hlow
  rw [← BitVec.toNat_inj, toNat_vctx hvhart, BitVec.toNat_udiv, hsub, eq_comm]
  rfl

theorem threshold_context_iff (hvhart : vcpu.vhartid.toNat < dtbNrCpus) {context : Nat}
    (hoffset : offset.toNat = 0x200000 + 0x1000 * context) :
    2 * vcpu.vhartid + 1 = (offset - 0x200000) / 0x1000 ↔ context = virtualContext vcpu := by
  have hsub : (offset - 0x200000).toNat = offset.toNat - 0x200000 :=
    toNat_sub_literal (by simp [hoffset])
  rw [← BitVec.toNat_inj, toNat_vctx hvhart, BitVec.toNat_udiv, hsub, hoffset, eq_comm]
  simp

theorem claim_context_iff (hvhart : vcpu.vhartid.toNat < dtbNrCpus) {context : Nat}
    (hoffset : offset.toNat = 0x200004 + 0x1000 * context) :
    2 * vcpu.vhartid + 1 = (offset - 0x200004) / 0x1000 ↔ context = virtualContext vcpu := by
  have hsub : (offset - 0x200004).toNat = offset.toNat - 0x200004 :=
    toNat_sub_literal (by simp [hoffset])
  rw [← BitVec.toNat_inj, toNat_vctx hvhart, BitVec.toNat_udiv, hsub, hoffset, eq_comm]
  simp

end Contexts

/-- The value of a load, by register. -/
def loadReg (hartid : Uint64) (vcpu : Vcpu) : VirtualReg → PlicM Uint32
  | .priority source => plicGetPriority (virtToPhysIrq vcpu.conf.devices source)
  | .pending group => gatherGroup vcpu.conf.devices group plicGetPending
  | .enable context group =>
      if context = virtualContext vcpu then
        gatherGroup vcpu.conf.devices group (plicGetEnabled (ownContext hartid))
      else
        pure 0
  | .threshold context =>
      if context = virtualContext vcpu then plicGetThreshold (ownContext hartid) else pure 0
  | .claim context =>
      if context = virtualContext vcpu then
        pure (ofInt (physToVirtIrq vcpu.conf.devices (toInt vcpu.lastClaimedIrqId)))
      else
        pure 0

/-- The enable bits of the 32 sources of a group, one access each. -/
def scatterGroup (devs : Vector (Option MmioDev) maxDevs) (context : Nat) (virtIrqGroup : Int)
    (val : Uint32) : PlicM Unit :=
  (List.range 32).foldlM (fun (_ : Unit) (i : Nat) =>
    plicSetEnabled context (virtToPhysIrq devs (virtIrqGroup * 32 + i))
      (toInt ((1 : Uint32) <<< i &&& val))) ()

/-- The effect of a store, by register. -/
def storeReg (hartid : Uint64) (hart : HartState) (val : Uint32) : VirtualReg → PlicM HartState
  | .priority source => do
      plicSetPriority (virtToPhysIrq hart.vcpu.conf.devices source) val
      pure hart
  | .pending _ => pure hart
  | .enable context group => do
      if context = virtualContext hart.vcpu then
        scatterGroup hart.vcpu.conf.devices (ownContext hartid) group val
      pure hart
  | .threshold context => do
      if context = virtualContext hart.vcpu then
        plicSetThreshold (ownContext hartid) val
      pure hart
  | .claim context =>
      if context = virtualContext hart.vcpu ∧
          ofInt (virtToPhysIrq hart.vcpu.conf.devices (toInt val)) =
            hart.vcpu.lastClaimedIrqId then do
        plicComplete (ownContext hartid) hart.vcpu.lastClaimedIrqId
        pure (completed hart)
      else
        pure hart

section Decoding

variable {hartid : Uint64} {offset : Uint64} {reg : VirtualReg}

theorem loadValue_of_located (hhart : hartid.toNat < dtbNrCpus) {vcpu : Vcpu}
    (hvhart : vcpu.vhartid.toNat < dtbNrCpus) (h : Located offset reg) :
    loadValue hartid vcpu offset = loadReg hartid vcpu reg := by
  unfold loadValue
  simp only [isAccessToPriorityReg_iff, isAccessToPendingRegs_iff, isAccessToEnableRegs_iff,
    isAccessToThresholdReg_iff, isAccessToClaimCompleteReg_iff]
  cases reg with
  | priority source =>
      obtain ⟨hlt, rfl⟩ := h
      rw [if_pos hlt, handlePriorityRegLoad, toInt_div_four (by omega)]
      rfl
  | pending group =>
      obtain ⟨hlow, hhigh, rfl⟩ := h
      have hsub : (offset - 0x1000).toNat = offset.toNat - 0x1000 := toNat_sub_literal hlow
      rw [if_neg (by omega), if_pos ⟨hlow, hhigh⟩, handlePendingRegsLoad,
        toInt_div_four (by omega), hsub]
      rfl
  | enable context group =>
      obtain ⟨hlow, hhigh, rfl, rfl⟩ := h
      rw [if_neg (by omega), if_neg (by omega), if_pos ⟨hlow, hhigh⟩, handleEnableRegsLoad]
      simp only [ne_eq, enable_context_iff hvhart hlow, ite_not, toInt_pctx hhart, loadReg]
      split
      · rename_i hctx
        rw [toInt_enable_group hlow hhigh ((toNat_vctx hvhart).trans hctx.symm)]
      · rfl
  | threshold context =>
      obtain ⟨hlt, hoffset⟩ := h
      rw [if_neg (by omega), if_neg (by omega), if_neg (by omega), if_pos ⟨context, hlt, hoffset⟩,
        handleThresholdRegLoad]
      simp only [ne_eq, threshold_context_iff hvhart hoffset, ite_not, toInt_pctx hhart, loadReg]
  | claim context =>
      obtain ⟨hlt, hoffset⟩ := h
      rw [if_neg (by omega), if_neg (by omega), if_neg (by omega), if_neg (by omega),
        if_pos ⟨context, hlt, hoffset⟩, handleClaimRegLoad]
      simp only [ne_eq, claim_context_iff hvhart hoffset, ite_not, loadReg]
      split <;> rfl

theorem storeValue_of_located (hhart : hartid.toNat < dtbNrCpus) {hart : HartState}
    (hvhart : hart.vcpu.vhartid.toNat < dtbNrCpus) (val : Uint32) (h : Located offset reg) :
    storeValue hartid hart offset val = storeReg hartid hart val reg := by
  unfold storeValue
  simp only [isAccessToPriorityReg_iff, isAccessToPendingRegs_iff, isAccessToEnableRegs_iff,
    isAccessToThresholdReg_iff, isAccessToClaimCompleteReg_iff]
  cases reg with
  | priority source =>
      obtain ⟨hlt, rfl⟩ := h
      rw [if_pos hlt, handlePriorityRegStore, toInt_div_four (by omega)]
      rfl
  | pending group =>
      obtain ⟨hlow, hhigh, rfl⟩ := h
      rw [if_neg (by omega), if_pos ⟨hlow, hhigh⟩, storeReg]
  | enable context group =>
      obtain ⟨hlow, hhigh, rfl, rfl⟩ := h
      rw [if_neg (by omega), if_neg (by omega), if_pos ⟨hlow, hhigh⟩, handleEnableRegsStore]
      simp only [ne_eq, enable_context_iff hvhart hlow, ite_not, toInt_pctx hhart, storeReg]
      split
      · rename_i hctx
        rw [toInt_enable_group hlow hhigh ((toNat_vctx hvhart).trans hctx.symm)]
        rfl
      · rfl
  | threshold context =>
      obtain ⟨hlt, hoffset⟩ := h
      rw [if_neg (by omega), if_neg (by omega), if_neg (by omega), if_pos ⟨context, hlt, hoffset⟩,
        handleThresholdRegStore]
      simp only [ne_eq, threshold_context_iff hvhart hoffset, ite_not, toInt_pctx hhart, storeReg]
      rw [BitVec.setWidth_setWidth_of_le _ (by decide), BitVec.setWidth_eq]
      split <;> rfl
  | claim context =>
      obtain ⟨hlt, hoffset⟩ := h
      rw [if_neg (by omega), if_neg (by omega), if_neg (by omega), if_neg (by omega),
        if_pos ⟨context, hlt, hoffset⟩, handleCompleteRegStore]
      simp only [ne_eq, claim_context_iff hvhart hoffset, ite_not, toInt_pctx hhart, storeReg]
      rcases eq_or_ne context (virtualContext hart.vcpu) with hctx | hctx
      · simp only [hctx, if_true, true_and]
        split
        · rename_i hlast
          rw [hlast]
          rfl
        · rfl
      · simp only [hctx, if_false, false_and]

theorem loadValue_of_not_located (h : ∀ reg, ¬ Located offset reg) (vcpu : Vcpu) :
    loadValue hartid vcpu offset = .panic "Bad PLIC access" := by
  unfold loadValue
  simp only [isAccessToPriorityReg_iff, isAccessToPendingRegs_iff, isAccessToEnableRegs_iff,
    isAccessToThresholdReg_iff, isAccessToClaimCompleteReg_iff]
  rw [if_neg fun hlt => h (.priority _) ⟨hlt, rfl⟩,
    if_neg fun hrange => h (.pending _) ⟨hrange.1, hrange.2, rfl⟩,
    if_neg fun hrange => h (.enable _ _) ⟨hrange.1, hrange.2, rfl, rfl⟩,
    if_neg fun ⟨context, hcontext⟩ => h (.threshold context) hcontext,
    if_neg fun ⟨context, hcontext⟩ => h (.claim context) hcontext]

/-- A store outside of all registers panics. -/
theorem storeValue_of_not_located (h : ∀ reg, ¬ Located offset reg) (hart : HartState)
    (val : Uint32) : storeValue hartid hart offset val = .panic "Bad PLIC access" := by
  unfold storeValue
  simp only [isAccessToPriorityReg_iff, isAccessToPendingRegs_iff, isAccessToEnableRegs_iff,
    isAccessToThresholdReg_iff, isAccessToClaimCompleteReg_iff]
  rw [if_neg fun hlt => h (.priority _) ⟨hlt, rfl⟩,
    if_neg fun hrange => h (.pending _) ⟨hrange.1, hrange.2, rfl⟩,
    if_neg fun hrange => h (.enable _ _) ⟨hrange.1, hrange.2, rfl, rfl⟩,
    if_neg fun ⟨context, hcontext⟩ => h (.threshold context) hcontext,
    if_neg fun ⟨context, hcontext⟩ => h (.claim context) hcontext]

end Decoding

end RiscvHypervisor.RegisterMap
