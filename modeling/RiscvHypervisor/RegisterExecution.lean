import RiscvHypervisor.RegisterMap

/-!
What the driver functions and the register handlers compute when they run on
the PLIC: which word a load returns and which words a store leaves behind.
-/

namespace RiscvHypervisor.RegisterExecution

open RiscvHypervisor.EffectProgram
open RiscvHypervisor.MachineTypes
open RiscvHypervisor.GuestConfig
open RiscvHypervisor.PlicDriver
open RiscvHypervisor.VirtualCpu
open RiscvHypervisor.VirtualPlic
open RiscvHypervisor.EmulatedAccess
open RiscvHypervisor.RegisterMap

variable {plic : Plic} {context : Nat}

/-- The enable bit of a source for a context. -/
def enableBit (plic : Plic) (context source : Nat) : Bool :=
  (plic.regs (enableWord context source)).getLsbD (source % 32)

section Accesses

variable {index : Int}

theorem exec_plicRead (h : claimContext index.toNat = none) :
    exec plicHandler (plicRead index) plic = (.ok (plic.regs index.toNat), plic) := by
  have hread : plicHandler (.read index.toNat) plic = (plic.regs index.toNat, plic) := by
    simp only [plicHandler, h]
  rw [plicRead, Program.perform, exec_access, hread]
  rfl

theorem exec_plicWrite (h : claimContext index.toNat = none) (value : Uint32) :
    exec plicHandler (plicWrite index value) plic = (.ok (), plic.setReg index.toNat value) := by
  have hwrite : plicHandler (.write index.toNat value) plic =
      ((), plic.setReg index.toNat value) := by
    simp only [plicHandler, h]
  rw [plicWrite, Program.perform, exec_access, hwrite]
  rfl

theorem exec_plicAmoand (mask : Uint32) : exec plicHandler (plicAmoand index mask) plic =
    (.ok (), plic.setReg index.toNat (plic.regs index.toNat &&& mask)) := rfl

theorem exec_plicAmoor (mask : Uint32) : exec plicHandler (plicAmoor index mask) plic =
    (.ok (), plic.setReg index.toNat (plic.regs index.toNat ||| mask)) := rfl

end Accesses

theorem claimContext_priority {p : Nat} (h : p ≤ 1023) : claimContext p = none := by
  apply claimContext_eq_none
  intro context
  simp only [claimWord]
  omega

theorem claimContext_enableWord {source : Nat} (hcontext : context ≤ 15871)
    (hsource : source ≤ 1023) : claimContext (enableWord context source) = none := by
  apply claimContext_eq_none
  intro other
  simp only [claimWord, enableWord]
  omega

theorem claimContext_thresholdWord : claimContext (thresholdWord context) = none := by
  apply claimContext_eq_none
  intro other
  simp only [claimWord, thresholdWord]
  omega

section Loads

theorem exec_plicGetPriority (p : Nat) : exec plicHandler (plicGetPriority p) plic =
    (.ok (if 1 ≤ p ∧ p ≤ 1023 then plic.regs p else 0), plic) := by
  unfold plicGetPriority
  by_cases h : 1 ≤ p ∧ p ≤ 1023
  · have hclaim : claimContext (p : Int).toNat = none := claimContext_priority h.2
    rw [if_neg (by omega), if_pos h, exec_plicRead hclaim]
    rfl
  · rw [if_pos (by omega), if_neg h]
    rfl

theorem exec_plicGetPending (p : Nat) : exec plicHandler (plicGetPending p) plic =
    (.ok (if 1 ≤ p ∧ p ≤ 1023 then plic.regs (pendingWord p) &&& sourceMask p else 0), plic) := by
  unfold plicGetPending
  by_cases h : 1 ≤ p ∧ p ≤ 1023
  · have hword : (0x1000 / 4 + (p : Int) / 32).toNat = pendingWord p := by
      simp only [pendingWord]
      omega
    have hrange := pendingWord_range (Nat.lt_succ_of_le h.2)
    have hclaim : claimContext (pendingWord p) = none := claimContext_eq_none fun other => by
      simp only [claimWord]
      omega
    rw [if_neg (by omega), if_pos h, exec_bind_ok _ (exec_plicRead (hword ▸ hclaim)), hword]
    rfl
  · rw [if_pos (by omega), if_neg h]
    rfl

theorem exec_plicGetEnabled (hcontext : context ≤ 15871) (p : Nat) :
    exec plicHandler (plicGetEnabled context p) plic =
      (.ok (if 1 ≤ p ∧ p ≤ 1023 then
        plic.regs (enableWord context p) &&& sourceMask p else 0), plic) := by
  unfold plicGetEnabled
  by_cases h : 1 ≤ p ∧ p ≤ 1023
  · have hword := enableOffset_toNat context p
    rw [if_neg (by omega), if_neg (by omega), if_pos h,
      exec_bind_ok _ (exec_plicRead (hword ▸ claimContext_enableWord hcontext h.2)), hword]
    rfl
  · rw [if_pos (by omega), if_neg h]
    rfl

theorem exec_plicGetThreshold (hcontext : context ≤ 15871) :
    exec plicHandler (plicGetThreshold context) plic =
      (.ok (plic.regs (thresholdWord context)), plic) := by
  have hword := thresholdOffset_toNat context
  rw [plicGetThreshold, if_neg (by omega),
    exec_plicRead (hword ▸ claimContext_thresholdWord), hword]

/-- The loop of a group load collects one bit for each index. -/
theorem exec_gather {get : Nat → PlicM Uint32} {f : Nat → Uint32}
    (hget : ∀ i, exec plicHandler (get i) plic = (.ok (f i), plic)) (indices : List Nat)
    (acc : Uint32) :
    ∃ word, exec plicHandler (indices.foldlM (fun (masked : Uint32) (i : Nat) => do
        let bit ← get i
        pure (if bit ≠ 0 then masked ||| (1 : Uint32) <<< i else masked)) acc) plic =
          (.ok word, plic) ∧
      ∀ j < 32, word.getLsbD j = (acc.getLsbD j || (decide (j ∈ indices) && decide (f j ≠ 0))) := by
  induction indices generalizing acc with
  | nil => exact ⟨acc, rfl, by simp⟩
  | cons i indices ih =>
      obtain ⟨word, hword, hbits⟩ := ih (if f i ≠ 0 then acc ||| (1 : Uint32) <<< i else acc)
      refine ⟨word, ?_, fun j hj => ?_⟩
      · rw [List.foldlM_cons, exec_bind_ok _ (exec_bind_ok _ (hget i)), hword]
      · have hacc : (if f i ≠ 0 then acc ||| (1 : Uint32) <<< i else acc).getLsbD j =
            (acc.getLsbD j || (decide (j = i) && decide (f i ≠ 0))) := by
          by_cases hf : f i ≠ 0
          · rw [if_pos hf, BitVec.getLsbD_or, getLsbD_one_shiftLeft hj]
            rw [decide_eq_true hf, Bool.and_true]
          · rw [if_neg hf, decide_eq_false hf, Bool.and_false, Bool.or_false]
        rw [hbits j hj, hacc]
        rcases eq_or_ne j i with rfl | hij
        · simp only [decide_true, Bool.true_and, List.mem_cons, true_or]
          cases acc.getLsbD j <;> cases decide (j ∈ indices) <;> simp
        · simp only [hij, decide_false, Bool.false_and, Bool.or_false, List.mem_cons, false_or]

/-- A load of a group returns the bits that the driver reports for its sources. -/
theorem exec_gatherGroup (plic : Plic) (devs : Vector (Option MmioDev) maxDevs)
    (virtIrqGroup : Int) (get : Int → PlicM Uint32) {f : Nat → Uint32}
    (hget : ∀ i : Nat, exec plicHandler (get (virtToPhysIrq devs (virtIrqGroup * 32 + i))) plic =
      (.ok (f i), plic)) :
    ∃ word, exec plicHandler (gatherGroup devs virtIrqGroup get) plic = (.ok word, plic) ∧
      ∀ i < 32, word.getLsbD i = decide (f i ≠ 0) := by
  obtain ⟨word, hword, hbits⟩ := exec_gather hget (List.range 32) 0
  refine ⟨word, hword, fun i hi => ?_⟩
  have hzero : (0 : Uint32).getLsbD i = false := BitVec.getLsbD_zero
  rw [hbits i hi, hzero]
  simp only [List.mem_range, hi, decide_true, Bool.true_and, Bool.false_or]

end Loads

section Stores

theorem exec_plicSetPriority (p : Nat) (value : Uint32) :
    exec plicHandler (plicSetPriority p value) plic =
      (.ok (), if 1 ≤ p ∧ p ≤ 1023 then plic.setReg p value else plic) := by
  unfold plicSetPriority
  by_cases h : 1 ≤ p ∧ p ≤ 1023
  · have hclaim : claimContext (p : Int).toNat = none := claimContext_priority h.2
    rw [if_neg (by omega), if_pos h, exec_plicWrite hclaim]
    rfl
  · rw [if_pos (by omega), if_neg h]
    rfl

theorem exec_plicSetThreshold (hcontext : context ≤ 15871) (value : Uint32) :
    exec plicHandler (plicSetThreshold context value) plic =
      (.ok (), plic.setReg (thresholdWord context) value) := by
  have hword := thresholdOffset_toNat context
  rw [plicSetThreshold, if_neg (by omega),
    exec_plicWrite (hword ▸ claimContext_thresholdWord), hword]

theorem exec_plicComplete (hcontext : context ≤ 15871) (irq : Uint32) :
    exec plicHandler (plicComplete context irq) plic = (.ok (), plic.complete context irq) := by
  have hwrite : plicHandler (.write (claimWord context) irq) plic =
      ((), plic.complete context irq) := by
    simp only [plicHandler, claimContext_claimWord]
  rw [plicComplete, if_neg (by omega), plicWrite, claimOffset_toNat, Program.perform, exec_access,
    hwrite]
  rfl

/-- The PLICs differ in the enable words of the context only. -/
structure SameButEnable (context : Nat) (plic plic' : Plic) : Prop where
  regs : ∀ index, (∀ source ≤ 1023, index ≠ enableWord context source) →
    plic'.regs index = plic.regs index
  offer : plic'.offer = plic.offer
  claimed : plic'.claimed = plic.claimed

theorem SameButEnable.refl (context : Nat) (plic : Plic) : SameButEnable context plic plic :=
  ⟨fun _ _ => rfl, rfl, rfl⟩

theorem SameButEnable.trans {plic₁ plic₂ plic₃ : Plic} (h : SameButEnable context plic₁ plic₂)
    (h' : SameButEnable context plic₂ plic₃) : SameButEnable context plic₁ plic₃ :=
  ⟨fun index hindex => (h'.regs index hindex).trans (h.regs index hindex),
    h'.offer.trans h.offer, h'.claimed.trans h.claimed⟩

theorem sameButEnable_setReg {source : Nat} (hsource : source ≤ 1023) (value : Uint32) :
    SameButEnable context plic (plic.setReg (enableWord context source) value) :=
  ⟨fun _ hindex => Function.update_of_ne (hindex source hsource) _ _, rfl, rfl⟩

theorem enableBit_setReg {p source : Nat} (hp : p ≤ 1023) (hsource : source ≤ 1023)
    (value : Uint32) : enableBit (plic.setReg (enableWord context p) value) context source =
      if source / 32 = p / 32 then value.getLsbD (source % 32)
      else enableBit plic context source := by
  have hword : enableWord context source = enableWord context p ↔ source / 32 = p / 32 := by
    rw [enableWord_inj hsource hp]
    exact and_iff_right rfl
  simp only [enableBit, Plic.setReg]
  rcases eq_or_ne (source / 32) (p / 32) with h | h
  · rw [if_pos h, hword.mpr h, Function.update_self]
  · rw [if_neg h, Function.update_of_ne (hword.not.mpr h)]

/-- Sources of the same word have their own bit in it. -/
theorem enableBit_of_div {p source : Nat} (hp : p ≤ 1023) (hsource : source ≤ 1023)
    (h : source / 32 = p / 32) :
    (plic.regs (enableWord context p)).getLsbD (source % 32) = enableBit plic context source := by
  rw [enableBit, (enableWord_inj hsource hp).mpr ⟨rfl, h⟩]

/-- The driver changes the enable bit of one source. -/
theorem exec_plicSetEnabled (hcontext : context ≤ 15871) (p : Nat) (enable : Int) (plic : Plic) :
    ∃ plic', exec plicHandler (plicSetEnabled context p enable) plic = (.ok (), plic') ∧
      SameButEnable context plic plic' ∧
      ∀ source, 1 ≤ source → source ≤ 1023 → enableBit plic' context source =
        if p = source then decide (enable ≠ 0) else enableBit plic context source := by
  unfold plicSetEnabled
  by_cases h : 1 ≤ p ∧ p ≤ 1023
  · have hmod : ∀ source : Nat, source % 32 < 32 := fun source => Nat.mod_lt _ (by decide)
    have hsame : ∀ source : Nat, source / 32 = p / 32 → (source % 32 = p % 32 ↔ p = source) := by
      omega
    rw [if_neg (by omega), if_neg (by omega)]
    rcases eq_or_ne enable 0 with henable | henable
    · rw [if_pos henable, exec_plicAmoand, enableOffset_toNat]
      refine ⟨_, rfl, sameButEnable_setReg h.2 _, fun source hpos hle => ?_⟩
      rw [enableBit_setReg h.2 hle]
      rcases eq_or_ne (source / 32) (p / 32) with hdiv | hdiv
      · rw [if_pos hdiv, BitVec.getLsbD_and, BitVec.getLsbD_not, sourceMask_getLsbD (hmod source),
          enableBit_of_div h.2 hle hdiv]
        by_cases hsource : p = source <;> simp [hsame source hdiv, hsource, hmod, henable]
      · rw [if_neg hdiv, if_neg (by rintro rfl; exact hdiv rfl)]
    · rw [if_neg henable, exec_plicAmoor, enableOffset_toNat]
      refine ⟨_, rfl, sameButEnable_setReg h.2 _, fun source hpos hle => ?_⟩
      rw [enableBit_setReg h.2 hle]
      rcases eq_or_ne (source / 32) (p / 32) with hdiv | hdiv
      · rw [if_pos hdiv, BitVec.getLsbD_or, sourceMask_getLsbD (hmod source),
          enableBit_of_div h.2 hle hdiv]
        by_cases hsource : p = source <;> simp [hsame source hdiv, hsource, henable]
      · rw [if_neg hdiv, if_neg (by rintro rfl; exact hdiv rfl)]
  · refine ⟨plic, ?_, .refl context plic, fun source hpos hle => ?_⟩
    · rw [if_pos (by omega)]
      rfl
    · rw [if_neg (by omega)]

theorem decide_toInt_and {i : Nat} (hi : i < 32) (val : Uint32) :
    decide (toInt ((1 : Uint32) <<< i &&& val) ≠ 0) = val.getLsbD i := by
  have hzero : toInt ((1 : Uint32) <<< i &&& val) ≠ 0 ↔ val &&& (1 : Uint32) <<< i ≠ 0 := by
    rw [toInt, BitVec.setWidth_eq, BitVec.and_comm]
    exact not_congr ((BitVec.toInt_zero (w := 32)) ▸ BitVec.toInt_inj)
  rw [Bool.eq_iff_iff, decide_eq_true_iff, hzero, and_one_shiftLeft_ne_zero_iff hi]

/-- The loop of a group store sets the bits of the sources it goes through. -/
theorem exec_scatter (hcontext : context ≤ 15871) (physIrq : Nat → Nat) (val : Uint32)
    (indices : List Nat) (hindices : ∀ i ∈ indices, i < 32) (plic : Plic) :
    ∃ plic', exec plicHandler (indices.foldlM (fun (_ : Unit) (i : Nat) =>
        plicSetEnabled context (physIrq i) (toInt ((1 : Uint32) <<< i &&& val))) ()) plic =
          (.ok (), plic') ∧
      SameButEnable context plic plic' ∧
      ∀ source, 1 ≤ source → source ≤ 1023 →
        ((∀ i ∈ indices, physIrq i ≠ source) →
          enableBit plic' context source = enableBit plic context source) ∧
        ∀ i ∈ indices, physIrq i = source → (∀ j ∈ indices, physIrq j = source → j = i) →
          enableBit plic' context source = val.getLsbD i := by
  induction indices generalizing plic with
  | nil => exact ⟨plic, rfl, .refl context plic, fun _ _ _ => ⟨fun _ => rfl, by simp⟩⟩
  | cons i indices ih =>
      obtain ⟨plic₁, hexec₁, hsame₁, hbit₁⟩ := exec_plicSetEnabled hcontext (physIrq i)
        (toInt ((1 : Uint32) <<< i &&& val)) plic
      obtain ⟨plic₂, hexec₂, hsame₂, hbits₂⟩ :=
        ih (fun j hj => hindices j (List.mem_cons_of_mem i hj)) plic₁
      refine ⟨plic₂, ?_, hsame₁.trans hsame₂, fun source hpos hle => ⟨fun hnone => ?_, ?_⟩⟩
      · rw [List.foldlM_cons, exec_bind_ok _ hexec₁, hexec₂]
      · rw [(hbits₂ source hpos hle).1 fun j hj => hnone j (List.mem_cons_of_mem i hj),
          hbit₁ source hpos hle, if_neg (hnone i List.mem_cons_self)]
      · intro j hj hirq hunique
        by_cases hrest : ∃ k ∈ indices, physIrq k = source
        · obtain ⟨k, hk, hkirq⟩ := hrest
          obtain rfl := hunique k (List.mem_cons_of_mem i hk) hkirq
          exact (hbits₂ source hpos hle).2 k hk hirq fun l hl => hunique l (List.mem_cons_of_mem i hl)
        · -- no later index has the source, so this is the last write to its bit
          have hi : j = i := by
            rcases List.mem_cons.mp hj with rfl | hj
            · rfl
            · exact absurd ⟨j, hj, hirq⟩ hrest
          subst hi
          rw [(hbits₂ source hpos hle).1 fun k hk hkirq => hrest ⟨k, hk, hkirq⟩,
            hbit₁ source hpos hle, if_pos hirq, decide_toInt_and (hindices j List.mem_cons_self)]

end Stores

end RiscvHypervisor.RegisterExecution
