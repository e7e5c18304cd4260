import RiscvHypervisor.VirtualPlic

/-!
The words of the physical PLIC, and which of them an emulated access can
touch: the priorities and pending bits of the machine's own sources and the
enable, threshold and completion words of the hart's own context.
-/

namespace RiscvHypervisor.EmulatedAccess

open RiscvHypervisor.EffectProgram
open RiscvHypervisor.MachineTypes
open RiscvHypervisor.GuestConfig
open RiscvHypervisor.PlicDriver
open RiscvHypervisor.VirtualCpu
open RiscvHypervisor.VirtualPlic

section Words

def enableWord (context source : Nat) : Nat := 0x800 + 32 * context + source / 32

def thresholdWord (context : Nat) : Nat := 0x80000 + 0x400 * context

def claimWord (context : Nat) : Nat := 0x80001 + 0x400 * context

theorem enableOffset_toNat (context source : Nat) :
    (enableOffset context source).toNat = enableWord context source := by
  simp only [enableOffset, enableWord]
  omega

theorem thresholdOffset_toNat (context : Nat) :
    (thresholdOffset context).toNat = thresholdWord context := by
  simp only [thresholdOffset, thresholdWord]
  omega

theorem claimOffset_toNat (context : Nat) :
    (claimOffset context).toNat = claimWord context := by
  simp only [claimOffset, claimWord]
  omega

theorem pendingWord_range {source : Nat} (h : source < 1024) :
    0x400 ≤ pendingWord source ∧ pendingWord source < 0x420 := by
  simp only [pendingWord]
  omega

theorem claimContext_claimWord (context : Nat) :
    claimContext (claimWord context) = some context := by
  simp [claimContext, claimWord]

theorem claimContext_eq_none {index : Nat} (h : ∀ context, index ≠ claimWord context) :
    claimContext index = none := by
  unfold claimContext
  split
  · rename_i hindex
    refine absurd ?_ (h ((index - 0x80001) / 0x400))
    simp only [claimWord]
    omega
  · rfl

def Pending (plic : Plic) (source : Nat) : Prop :=
  plic.regs (pendingWord source) &&& sourceMask source ≠ 0

def EnabledOn (plic : Plic) (context source : Nat) : Prop :=
  plic.regs (enableWord context source) &&& sourceMask source ≠ 0

theorem sourceMask_eq (source : Nat) : sourceMask source = (1 : Uint32) <<< (source % 32) := by
  rw [sourceMask]
  congr 1

theorem sourceMask_getLsbD {i : Nat} (hi : i < 32) (source : Nat) :
    (sourceMask source).getLsbD i = decide (i = source % 32) := by
  rw [sourceMask_eq, getLsbD_one_shiftLeft hi]

theorem and_sourceMask_ne_zero_iff (word : Uint32) (source : Nat) :
    word &&& sourceMask source ≠ 0 ↔ word.getLsbD (source % 32) = true := by
  rw [sourceMask_eq]
  exact and_one_shiftLeft_ne_zero_iff (Nat.mod_lt _ (by decide)) word

theorem enabledOn_iff (plic : Plic) (context source : Nat) : EnabledOn plic context source ↔
    (plic.regs (enableWord context source)).getLsbD (source % 32) = true :=
  and_sourceMask_ne_zero_iff _ _

theorem enableWord_inj {context context' source source' : Nat} (h : source ≤ 1023)
    (h' : source' ≤ 1023) : enableWord context source = enableWord context' source' ↔
      context = context' ∧ source / 32 = source' / 32 := by
  simp only [enableWord]
  omega

instance (plic : Plic) (source : Nat) : Decidable (Pending plic source) :=
  inferInstanceAs (Decidable (_ ≠ _))

instance (plic : Plic) (context source : Nat) : Decidable (EnabledOn plic context source) :=
  inferInstanceAs (Decidable (_ ≠ _))

end Words

/-- The physical context in which a hart runs its guest. -/
def ownContext (hartid : Uint64) : Nat := 2 * hartid.toNat + 1

theorem toInt_pctx {hartid : Uint64} (h : hartid.toNat < dtbNrCpus) :
    toInt (2 * hartid + 1) = ownContext hartid := by
  simp only [dtbNrCpus] at h
  have hvalue : (2 * hartid + 1).toNat = ownContext hartid := by
    simp [ownContext]
    omega
  rw [toInt_of_lt, hvalue]
  rw [hvalue, ownContext]
  omega

theorem ownContext_le {hartid : Uint64} (h : hartid.toNat < dtbNrCpus) :
    ownContext hartid ≤ 15871 := by
  simp only [dtbNrCpus] at h
  simp only [ownContext]
  omega

/-- The physical source of a device of the machine. -/
def Owns (conf : VmConfig) (source : Nat) : Prop :=
  1 ≤ source ∧ source ≤ 1023 ∧ ∃ dev ∈ conf.devs, dev.physIrq = source

/-- Accesses to the registers that emulation reads and writes through. -/
inductive RegisterAccess (context : Nat) (conf : VmConfig) : PlicOp → Prop
  | getPriority {p : Nat} : Owns conf p → RegisterAccess context conf (.read p)
  | setPriority {p : Nat} {v : Uint32} : Owns conf p → RegisterAccess context conf (.write p v)
  | getPending {p : Nat} : Owns conf p → RegisterAccess context conf (.read (pendingWord p))
  | getEnabled {p : Nat} : Owns conf p → RegisterAccess context conf (.read (enableWord context p))
  | clearEnabled {p : Nat} : Owns conf p →
      RegisterAccess context conf (.amoand (enableWord context p) (~~~sourceMask p))
  | setEnabled {p : Nat} : Owns conf p →
      RegisterAccess context conf (.amoor (enableWord context p) (sourceMask p))
  | getThreshold : RegisterAccess context conf (.read (thresholdWord context))
  | setThreshold {v : Uint32} : RegisterAccess context conf (.write (thresholdWord context) v)

theorem RegisterAccess.claimContext_index {context : Nat} {conf : VmConfig} {o : PlicOp}
    (hcontext : context ≤ 15871) (h : RegisterAccess context conf o) :
    claimContext o.index = none := by
  apply claimContext_eq_none
  intro other
  cases h with
  | getPriority hp | setPriority hp | getPending hp | getEnabled hp | clearEnabled hp
  | setEnabled hp =>
      obtain ⟨-, hle, -⟩ := hp
      simp only [PlicOp.index, claimWord, enableWord, pendingWord]
      omega
  | getThreshold | setThreshold =>
      simp only [PlicOp.index, claimWord, thresholdWord]
      omega

/-- The context that an enable or threshold word belongs to. -/
def wordContext (index : Nat) : Nat :=
  if index < 0x80000 then (index - 0x800) / 32 else (index - 0x80000) / 0x400

theorem wordContext_enableWord {context source : Nat} (hcontext : context ≤ 15871)
    (hsource : source ≤ 1023) : wordContext (enableWord context source) = context := by
  rw [wordContext, enableWord, if_pos (by omega)]
  omega

theorem wordContext_thresholdWord (context : Nat) :
    wordContext (thresholdWord context) = context := by
  rw [wordContext, thresholdWord, if_neg (by omega)]
  omega

/-- The word of a register access: the priority of a source of the machine, a
pending word, which is only read, or a word of the context. -/
theorem RegisterAccess.word_cases {context : Nat} {conf : VmConfig} {o : PlicOp}
    (hcontext : context ≤ 15871) (h : RegisterAccess context conf o) :
    (o.index < 0x400 ∧ Owns conf o.index) ∨
      (0x400 ≤ o.index ∧ o.index < 0x800 ∧ ∃ i, o = .read i) ∨
      (0x800 ≤ o.index ∧ wordContext o.index = context) := by
  cases h with
  | getPriority hp | setPriority hp => exact .inl ⟨Nat.lt_succ_of_le hp.2.1, hp⟩
  | getPending hp =>
      obtain ⟨hlow, hhigh⟩ := pendingWord_range (Nat.lt_succ_of_le hp.2.1)
      exact .inr (.inl ⟨hlow, hhigh.trans (by decide), _, rfl⟩)
  | getEnabled hp | clearEnabled hp | setEnabled hp =>
      refine .inr (.inr ⟨?_, wordContext_enableWord hcontext hp.2.1⟩)
      simp only [PlicOp.index, enableWord]
      omega
  | getThreshold | setThreshold =>
      refine .inr (.inr ⟨?_, wordContext_thresholdWord context⟩)
      simp only [PlicOp.index, thresholdWord]
      omega

/-- Outside of the claim registers an access changes the storage words only. -/
theorem plicHandler_frame {o : PlicOp} (h : claimContext o.index = none) (plic : Plic) :
    (plicHandler o plic).2.offer = plic.offer ∧ (plicHandler o plic).2.claimed = plic.claimed := by
  cases o <;> simp only [PlicOp.index] at h <;>
    simp only [plicHandler, h, Plic.setReg, and_self]

theorem plicHandler_regs_of_ne {o : PlicOp} (h : claimContext o.index = none) {index : Nat}
    (hne : index ≠ o.index) (plic : Plic) :
    (plicHandler o plic).2.regs index = plic.regs index := by
  cases o <;> simp only [PlicOp.index] at h hne <;>
    simp only [plicHandler, h, Plic.setReg, Function.update_of_ne hne]

/-- A claim changes no word but the pending ones. -/
theorem claim_regs_of_ne {index : Nat} (h : index < 0x400 ∨ 0x420 ≤ index) (plic : Plic)
    (context : Nat) : (plic.claim context).regs index = plic.regs index := by
  unfold Plic.claim
  by_cases hirq : plic.offer context ≠ 0 ∧ (plic.offer context).toNat < 1024
  · have hrange := pendingWord_range hirq.2
    simp only [if_pos hirq]
    exact Function.update_of_ne (by omega) _ _
  · simp only [if_neg hirq]

theorem exec_registers_frame {context : Nat} {conf : VmConfig} {α : Type} {p : PlicM α}
    (hcontext : context ≤ 15871) (hp : p.Uses (RegisterAccess context conf)) (plic : Plic) :
    (exec plicHandler p plic).2.offer = plic.offer ∧
      (exec plicHandler p plic).2.claimed = plic.claimed := by
  refine exec_invariant (fun plic' : Plic => plic'.offer = plic.offer ∧
    plic'.claimed = plic.claimed) (fun o plic' ho hplic' => ?_) hp ⟨rfl, rfl⟩
  obtain ⟨hoffer, hclaimed⟩ := plicHandler_frame (ho.claimContext_index hcontext) plic'
  exact ⟨hoffer.trans hplic'.1, hclaimed.trans hplic'.2⟩

/-- The driver ignores what the search returns, or it is a source of the machine. -/
theorem virtToPhysIrq_owned (conf : VmConfig) (virtIrq : Int) :
    (virtToPhysIrq conf.devices virtIrq < 1 ∨ 1023 < virtToPhysIrq conf.devices virtIrq) ∨
      ∃ p : Nat, Owns conf p ∧ virtToPhysIrq conf.devices virtIrq = p := by
  rcases virtToPhysIrq_cases conf virtIrq with ⟨dev, hdev, -, heq⟩ | ⟨-, heq⟩
  · by_cases hrange : dev.physIrq < 1 ∨ 1023 < dev.physIrq
    · exact .inl (heq ▸ hrange)
    · refine .inr ⟨dev.physIrq.toNat, ⟨by omega, by omega, dev, hdev, by omega⟩, ?_⟩
      rw [heq]
      omega
  · exact .inl (.inl (by omega))

section Driver

variable {conf : VmConfig} {context : Nat}

theorem plicGetPriority_uses {irq : Int}
    (h : (irq < 1 ∨ 1023 < irq) ∨ ∃ p : Nat, Owns conf p ∧ irq = p) :
    (plicGetPriority irq).Uses (RegisterAccess context conf) := by
  unfold plicGetPriority
  split
  · trivial
  · obtain hout | ⟨p, hp, rfl⟩ := h
    · contradiction
    · exact Program.uses_perform (.getPriority hp)

theorem plicSetPriority_uses {irq : Int} {priority : Uint32}
    (h : (irq < 1 ∨ 1023 < irq) ∨ ∃ p : Nat, Owns conf p ∧ irq = p) :
    (plicSetPriority irq priority).Uses (RegisterAccess context conf) := by
  unfold plicSetPriority
  split
  · trivial
  · obtain hout | ⟨p, hp, rfl⟩ := h
    · contradiction
    · exact Program.uses_perform (.setPriority hp)

theorem plicGetPending_uses {irq : Int}
    (h : (irq < 1 ∨ 1023 < irq) ∨ ∃ p : Nat, Owns conf p ∧ irq = p) :
    (plicGetPending irq).Uses (RegisterAccess context conf) := by
  unfold plicGetPending
  split
  · trivial
  · obtain hout | ⟨p, hp, rfl⟩ := h
    · contradiction
    · refine ⟨?_, fun _ => trivial⟩
      have hword : (0x1000 / 4 + (p : Int) / 32).toNat = pendingWord p := by
        simp only [pendingWord]
        omega
      rw [hword]
      exact .getPending hp

theorem plicGetEnabled_uses {irq : Int}
    (h : (irq < 1 ∨ 1023 < irq) ∨ ∃ p : Nat, Owns conf p ∧ irq = p) :
    (plicGetEnabled context irq).Uses (RegisterAccess context conf) := by
  unfold plicGetEnabled
  split
  · trivial
  · split
    · trivial
    · obtain hout | ⟨p, hp, rfl⟩ := h
      · contradiction
      · refine ⟨?_, fun _ => trivial⟩
        rw [enableOffset_toNat]
        exact .getEnabled hp

theorem plicSetEnabled_uses {irq enable : Int}
    (h : (irq < 1 ∨ 1023 < irq) ∨ ∃ p : Nat, Owns conf p ∧ irq = p) :
    (plicSetEnabled context irq enable).Uses (RegisterAccess context conf) := by
  unfold plicSetEnabled
  split
  · trivial
  · split
    · trivial
    · obtain hout | ⟨p, hp, rfl⟩ := h
      · contradiction
      · split
        · refine Program.uses_perform ?_
          rw [enableOffset_toNat]
          exact .clearEnabled hp
        · refine Program.uses_perform ?_
          rw [enableOffset_toNat]
          exact .setEnabled hp

theorem plicGetThreshold_uses :
    (plicGetThreshold context).Uses (RegisterAccess context conf) := by
  unfold plicGetThreshold
  split
  · trivial
  · refine Program.uses_perform ?_
    rw [thresholdOffset_toNat]
    exact .getThreshold

theorem plicSetThreshold_uses {threshold : Uint32} :
    (plicSetThreshold context threshold).Uses (RegisterAccess context conf) := by
  unfold plicSetThreshold
  split
  · trivial
  · refine Program.uses_perform ?_
    rw [thresholdOffset_toNat]
    exact .setThreshold

end Driver

section Emulation

variable {conf : VmConfig} {context : Nat}

theorem gatherGroup_uses {virtIrqGroup : Int} {get : Int → PlicM Uint32}
    (hget : ∀ virtIrq, (get (virtToPhysIrq conf.devices virtIrq)).Uses
      (RegisterAccess context conf)) :
    (gatherGroup conf.devices virtIrqGroup get).Uses (RegisterAccess context conf) :=
  Program.uses_foldlM (fun _ _ _ => (hget _).bind fun _ => Program.uses_done _ _) _

theorem handleEnableRegsLoad_uses {hartid : Uint64} (hhart : hartid.toNat < dtbNrCpus)
    (conf : VmConfig) (offset vctx : Uint64) :
    (handleEnableRegsLoad conf.devices offset vctx (2 * hartid + 1)).Uses
      (RegisterAccess (ownContext hartid) conf) := by
  unfold handleEnableRegsLoad
  rw [toInt_pctx hhart]
  refine Program.uses_ite (Program.uses_done _ _) ?_
  exact gatherGroup_uses fun _ => plicGetEnabled_uses (virtToPhysIrq_owned _ _)

theorem handleThresholdRegLoad_uses {hartid : Uint64} (hhart : hartid.toNat < dtbNrCpus)
    (conf : VmConfig) (offset vctx : Uint64) :
    (handleThresholdRegLoad offset vctx (2 * hartid + 1)).Uses
      (RegisterAccess (ownContext hartid) conf) := by
  unfold handleThresholdRegLoad
  rw [toInt_pctx hhart]
  exact Program.uses_ite (Program.uses_done _ _) plicGetThreshold_uses

/-- A load touches registers of the hart's own context and sources only. -/
theorem loadValue_uses {hartid : Uint64} (hhart : hartid.toNat < dtbNrCpus) (vcpu : Vcpu)
    (offset : Uint64) :
    (loadValue hartid vcpu offset).Uses
      (RegisterAccess (ownContext hartid) vcpu.conf) := by
  unfold loadValue
  refine Program.uses_ite (plicGetPriority_uses (virtToPhysIrq_owned _ _)) ?_
  refine Program.uses_ite
    (gatherGroup_uses fun _ => plicGetPending_uses (virtToPhysIrq_owned _ _)) ?_
  refine Program.uses_ite (handleEnableRegsLoad_uses hhart _ _ _) ?_
  refine Program.uses_ite (handleThresholdRegLoad_uses hhart _ _ _) ?_
  exact Program.uses_ite (Program.uses_done _ _) (Program.uses_panic _ _)

theorem handleEnableRegsStore_uses {hartid : Uint64} (hhart : hartid.toNat < dtbNrCpus)
    (conf : VmConfig) (offset vctx : Uint64) (val : Uint32) :
    (handleEnableRegsStore conf.devices offset val vctx (2 * hartid + 1)).Uses
      (RegisterAccess (ownContext hartid) conf) := by
  unfold handleEnableRegsStore
  rw [toInt_pctx hhart]
  refine Program.uses_ite (Program.uses_done _ _) ?_
  exact Program.uses_foldlM (fun _ _ _ => plicSetEnabled_uses (virtToPhysIrq_owned _ _)) _

theorem handleThresholdRegStore_uses {hartid : Uint64} (hhart : hartid.toNat < dtbNrCpus)
    (conf : VmConfig) (offset vctx val : Uint64) :
    (handleThresholdRegStore offset vctx (2 * hartid + 1) val).Uses
      (RegisterAccess (ownContext hartid) conf) := by
  unfold handleThresholdRegStore
  rw [toInt_pctx hhart]
  exact Program.uses_ite (Program.uses_done _ _) plicSetThreshold_uses

/-- The hart after it has completed the interrupt it claimed last. -/
def completed (hart : HartState) : HartState :=
  { hart with
    vcpu := { hart.vcpu with lastClaimedIrqId := 0 }
    hvip := hart.hvip &&& ~~~hvipVseip }

/-- A store writes registers of the hart's own context and sources, or it
completes the interrupt the hart claimed last, or it panics. -/
theorem storeValue_cases {hartid : Uint64} (hhart : hartid.toNat < dtbNrCpus) (hart : HartState)
    (offset : Uint64) (val : Uint32) :
    (∃ p : PlicM Unit, p.Uses (RegisterAccess (ownContext hartid) hart.vcpu.conf) ∧
        storeValue hartid hart offset val = p >>= fun _ => pure hart) ∨
      (storeValue hartid hart offset val =
        .access (.write (claimWord (ownContext hartid)) hart.vcpu.lastClaimedIrqId)
          fun _ => .done (completed hart)) ∨
      storeValue hartid hart offset val = .panic "Bad PLIC access" := by
  unfold storeValue
  simp only
  split
  · exact .inl ⟨_, plicSetPriority_uses (virtToPhysIrq_owned _ _), rfl⟩
  · split
    · exact .inl ⟨.done (), trivial, rfl⟩
    · split
      · exact .inl ⟨_, handleEnableRegsStore_uses hhart _ _ _ _, rfl⟩
      · split
        · exact .inl ⟨_, handleThresholdRegStore_uses hhart _ _ _ _, rfl⟩
        · split
          · unfold handleCompleteRegStore
            split
            · exact .inl ⟨.done (), trivial, rfl⟩
            · simp only
              split
              · rename_i hlast
                refine .inr (.inl ?_)
                have hle := ownContext_le hhart
                rw [toInt_pctx hhart, hlast, plicComplete, if_neg (by omega), plicWrite,
                  claimOffset_toNat]
                rfl
              · exact .inl ⟨.done (), trivial, rfl⟩
          · exact .inr (.inr rfl)

theorem plicClaim_ownContext {hartid : Uint64} (hhart : hartid.toNat < dtbNrCpus) :
    plicClaim (toInt (2 * hartid + 1)) =
      Program.perform (E := plicEffect) (.read (claimWord (ownContext hartid))) := by
  have hle := ownContext_le hhart
  rw [toInt_pctx hhart, plicClaim, if_neg (by omega), plicRead, claimOffset_toNat]

/-- The hart after `vplic_handle_interrupt` with the source it claimed. -/
def injected (hart : HartState) (irq : Uint32) : HartState :=
  { hart with
    vcpu := { hart.vcpu with lastClaimedIrqId := irq }
    hvip := if irq ≠ 0 then hart.hvip ||| hvipVseip else hart.hvip }

/-- An external interrupt is one claim on the hart's own context. -/
theorem vplicHandleInterrupt_eq {hartid : Uint64} (hhart : hartid.toNat < dtbNrCpus)
    (hart : HartState) : vplicHandleInterrupt hartid hart =
      .access (.read (claimWord (ownContext hartid))) fun irq => .done (injected hart irq) := by
  rw [vplicHandleInterrupt, plicClaim_ownContext hhart]
  rfl

end Emulation

end RiscvHypervisor.EmulatedAccess
