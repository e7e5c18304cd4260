import RiscvHypervisor.PlicSystem

/-!
Which sources the guests can enable.  A physical context only ever has sources
of the virtual machine on its hart enabled, so an interrupt goes to the machine
that owns the device and reads back as the device's virtual source.
-/

namespace RiscvHypervisor.InterruptRouting

open RiscvHypervisor.TransitionSystem
open RiscvHypervisor.EffectProgram
open RiscvHypervisor.MachineTypes
open RiscvHypervisor.GuestConfig
open RiscvHypervisor.PlicDriver
open RiscvHypervisor.VirtualCpu
open RiscvHypervisor.VirtualPlic
open RiscvHypervisor.EmulatedAccess
open RiscvHypervisor.PlicSystem
open RiscvHypervisor.RegisterMap

/-- A source of the PLIC that is enabled for one of its contexts. -/
def Enabled (plic : Plic) (context source : Nat) : Prop :=
  context ≤ 15871 ∧ 1 ≤ source ∧ source ≤ 1023 ∧ EnabledOn plic context source

/-- A claim returns nothing or a source enabled for its context. -/
def ClaimsEnabled (m : Machine) : Event → Prop
  | .interrupt h irq => irq = 0 ∨ Enabled m.plic (contextOf h) irq.toNat
  | _ => True

/-- What an emulated access enables is a source of its own machine on its own
context. -/
theorem enabled_of_access {context : Nat} {conf : VmConfig} {o : PlicOp} {plic : Plic}
    (hcontext : context ≤ 15871) (ho : RegisterAccess context conf o) {other source : Nat}
    (h : Enabled (plicHandler o plic).2 other source) :
    Enabled plic other source ∨ (other = context ∧ Owns conf source) := by
  obtain ⟨hother, hpos, hle, hset⟩ := h
  have hclaim := ho.claimContext_index hcontext
  rcases eq_or_ne (enableWord other source) o.index with hindex | hindex
  · cases ho with
    | getPriority hp | getPending hp | getEnabled hp | getThreshold =>
        simp only [PlicOp.index] at hclaim
        simp only [plicHandler, hclaim] at hset
        exact .inl ⟨hother, hpos, hle, hset⟩
    | @setPriority p v hp =>
        obtain ⟨-, hp, -⟩ := hp
        simp only [PlicOp.index, enableWord] at hindex
        omega
    | setThreshold =>
        simp only [PlicOp.index, enableWord, thresholdWord] at hindex
        omega
    | @clearEnabled p hp =>
        simp only [PlicOp.index] at hindex
        rw [enabledOn_iff] at hset
        simp only [plicHandler, Plic.setReg, hindex, Function.update_self, BitVec.getLsbD_and,
          Bool.and_eq_true] at hset
        refine .inl ⟨hother, hpos, hle, ?_⟩
        rw [enabledOn_iff, hindex]
        exact hset.1
    | @setEnabled p hp =>
        simp only [PlicOp.index] at hindex
        rw [enabledOn_iff] at hset
        simp only [plicHandler, Plic.setReg, hindex, Function.update_self, BitVec.getLsbD_or,
          Bool.or_eq_true, sourceMask_getLsbD (Nat.mod_lt source (by decide)),
          decide_eq_true_eq] at hset
        rcases hset with hset | hbit
        · refine .inl ⟨hother, hpos, hle, ?_⟩
          rw [enabledOn_iff, hindex]
          exact hset
        · obtain ⟨rfl, hword⟩ := (enableWord_inj hle hp.2.1).mp hindex
          have hsource : source = p := by omega
          exact .inr ⟨rfl, hsource ▸ hp⟩
  · refine .inl ⟨hother, hpos, hle, ?_⟩
    rwa [EnabledOn, plicHandler_regs_of_ne hclaim hindex] at hset

/-- Every enabled source belongs to the machine on the hart of its context. -/
def Routed (confs : Fin dtbNrCpus → VmConfig) (plic : Plic) : Prop :=
  ∀ context source, Enabled plic context source →
    ∃ h, context = contextOf h ∧ Owns (confs h) source

variable {confs : Fin dtbNrCpus → VmConfig}

theorem Routed.exec {α : Type} {p : PlicM α} {plic : Plic} (hplic : Routed confs plic)
    (h : Fin dtbNrCpus) (hp : p.Uses (RegisterAccess (contextOf h) (confs h))) :
    Routed confs (exec plicHandler p plic).2 := by
  refine exec_invariant (Routed confs) (fun o plic' ho hplic' context source henabled => ?_)
    hp hplic
  rcases enabled_of_access (contextOf_le h) ho henabled with hbefore | ⟨rfl, howns⟩
  · exact hplic' context source hbefore
  · exact ⟨h, rfl, howns⟩

theorem Routed.congr {plic plic' : Plic} (hplic : Routed confs plic)
    (hregs : ∀ index, 0x800 ≤ index → plic'.regs index = plic.regs index) : Routed confs plic' := by
  intro context source henabled
  obtain ⟨hcontext, hpos, hle, hset⟩ := henabled
  rw [EnabledOn, hregs _ (by simp only [enableWord]; omega)] at hset
  exact hplic context source ⟨hcontext, hpos, hle, hset⟩

theorem routed_step {m m' : Machine} {e : Event} (hhosts : Hosts confs m)
    (hm : Routed confs m.plic) (hstep : step m e = some m') : Routed confs m'.plic := by
  cases move_of_step hstep with
  | @registers _ h instr hart α p hevent huses hkeeps =>
      rw [(hhosts h).1] at huses
      exact hm.exec h huses
  | complete => exact hm
  | @interrupt h irq =>
      refine hm.congr fun index hindex => ?_
      rw [claim_regs_of_ne (by omega)]
      rfl
  | guest => exact hm
  | @raise source =>
      refine hm.congr fun index hindex => Function.update_of_ne ?_ _ _
      have hrange := pendingWord_range source.isLt
      omega

/-- The source a hart remembers belongs to its machine. -/
def LastOwned (confs : Fin dtbNrCpus → VmConfig) (m : Machine) : Prop :=
  ∀ h, (m.harts h).vcpu.lastClaimedIrqId = 0 ∨
    Owns (confs h) (m.harts h).vcpu.lastClaimedIrqId.toNat

theorem lastOwned_step {m m' : Machine} {e : Event} (hm : LastOwned confs m)
    (hrouted : Routed confs m.plic) (hclaims : ClaimsEnabled m e) (hstep : step m e = some m') :
    LastOwned confs m' := by
  intro h
  rcases hart_cases h hstep with ⟨hkeeps, -⟩ | ⟨instr, sepc, -, heq⟩ | ⟨irq, rfl, heq⟩
  · rw [hkeeps.last]
    exact hm h
  · rw [heq]
    exact .inl rfl
  · rw [heq]
    refine hclaims.imp id fun henabled => ?_
    obtain ⟨h', hcontext, howns⟩ := hrouted _ _ henabled
    rwa [contextOf_inj.mp hcontext]

theorem toInt_of_owns {conf : VmConfig} {irq : Uint32} (h : Owns conf irq.toNat) :
    toInt irq = irq.toNat :=
  toInt_of_lt (by have := h.2.1; omega)

/-- The virtual source of a machine's own physical source leads back to it. -/
theorem virtToPhysIrq_physToVirtIrq {conf : VmConfig} (hconf : IrqsWellFormed conf)
    {irq : Uint32} (howns : Owns conf irq.toNat) :
    ofInt (physToVirtIrq conf.devices (toInt irq)) ≠ 0 ∧
      virtToPhysIrq conf.devices (toInt (ofInt (physToVirtIrq conf.devices (toInt irq)))) =
        irq.toNat := by
  obtain ⟨hpos, hle, dev, hdev, hphys⟩ := howns
  rw [toInt_of_owns ⟨hpos, hle, dev, hdev, hphys⟩, ← hphys,
    hconf.physToVirtIrq_eq hdev (by omega)]
  rcases hconf.range dev hdev with ⟨hzero, -⟩ | ⟨-, -, hvlow, hvhigh⟩
  · omega
  · obtain ⟨v, hv⟩ : ∃ v : Nat, dev.virtIrq = v := ⟨dev.virtIrq.toNat, by omega⟩
    have hvalue : (ofInt dev.virtIrq).toNat = v := by
      rw [hv, ofInt_natCast, BitVec.toNat_ofNat]
      omega
    refine ⟨fun hzero => ?_, ?_⟩
    · rw [hzero] at hvalue
      simp at hvalue
      omega
    · rw [toInt_of_lt (by omega), hvalue, ← hv, hconf.virtToPhysIrq_eq hdev (by omega)]

/-- A load of the hart's own claim register returns the virtual source of the
one it remembers. -/
theorem load_claim {m : Machine} {h : Fin dtbNrCpus} (hhosts : Hosts confs m)
    (hconf : IrqsWellFormed (confs h)) (howns : Owns (confs h) (m.harts h).vcpu.lastClaimedIrqId.toNat)
    {instr : Instr}
    (hreg : Located (instr.addr - dtbPlic) (.claim (virtualContext (m.harts h).vcpu))) :
    ∃ m', step m (.load h instr) = some m' ∧ loaded m' h instr ≠ 0 ∧
      virtToPhysIrq (confs h).devices (toInt (loaded m' h instr)) =
        (m.harts h).vcpu.lastClaimedIrqId.toNat := by
  have hsame := (hhosts h).1
  have hexec : exec plicHandler (loadReg (hartidOf h) (m.harts h).vcpu
      (.claim (virtualContext (m.harts h).vcpu))) m.plic =
      (.ok (ofInt (physToVirtIrq (confs h).devices
        (toInt (m.harts h).vcpu.lastClaimedIrqId))), m.plic) := by
    rw [loadReg, if_pos rfl, hsame]
    rfl
  obtain ⟨m', hstep, hloaded⟩ := step_load_of_located (hhosts.vhartid_lt h) hreg hexec
  refine ⟨m', hstep, ?_⟩
  rw [hloaded]
  exact virtToPhysIrq_physToVirtIrq hconf howns

/-- In every run that starts with no source enabled, the sources enabled for a
hart's context are those of its machine, and no even context has any.  When
claims return enabled sources only, a hart remembers sources of its own machine
and its guest reads them back. -/
theorem interrupts_routed (confs : Fin dtbNrCpus → VmConfig) (sepc : Fin dtbNrCpus → Uint64)
    (plic : Plic) (hconfs : ∀ h, IrqsWellFormed (confs h))
    (hplic : ∀ context source, ¬ Enabled plic context source) :
    (∀ m, Reachable step (fun _ _ => True) (fun m => m = Machine.boot confs sepc plic) m →
      (∀ h source, Enabled m.plic (contextOf h) source →
        ∃ dev ∈ (confs h).devs, dev.physIrq = source) ∧
      ∀ context source, context % 2 = 0 → ¬ Enabled m.plic context source) ∧
    (∀ m, Reachable step ClaimsEnabled (fun m => m = Machine.boot confs sepc plic) m → ∀ h,
      ((m.harts h).vcpu.lastClaimedIrqId = 0 ∨
        ∃ dev ∈ (confs h).devs, dev.physIrq = (m.harts h).vcpu.lastClaimedIrqId.toNat) ∧
      ((m.harts h).vcpu.lastClaimedIrqId ≠ 0 → ∀ instr,
        Located (instr.addr - dtbPlic) (.claim (virtualContext (m.harts h).vcpu)) →
          ∃ m', step m (.load h instr) = some m' ∧ loaded m' h instr ≠ 0 ∧
            virtToPhysIrq (confs h).devices (toInt (loaded m' h instr)) =
              (m.harts h).vcpu.lastClaimedIrqId.toNat)) := by
  have hboot : Routed confs plic := fun context source h => absurd h (hplic context source)
  refine ⟨fun m hm => ?_, fun m hm h => ?_⟩
  · have hinv : Hosts confs m ∧ Routed confs m.plic := by
      refine hm.invariant (fun m => Hosts confs m ∧ Routed confs m.plic) (fun m heq => ?_)
        fun m e m' h _ hstep => ?_
      · subst heq
        exact ⟨hosts_boot confs sepc plic, hboot⟩
      · exact ⟨h.1.step hstep, routed_step h.1 h.2 hstep⟩
    refine ⟨fun h source henabled => ?_, fun context source heven henabled => ?_⟩
    · obtain ⟨h', hcontext, -, -, hdev⟩ := hinv.2 _ _ henabled
      rwa [contextOf_inj.mp hcontext]
    · obtain ⟨h', hcontext, -⟩ := hinv.2 _ _ henabled
      simp only [contextOf] at hcontext
      omega
  · have hinv : Hosts confs m ∧ Routed confs m.plic ∧ LastOwned confs m := by
      refine hm.invariant (fun m => Hosts confs m ∧ Routed confs m.plic ∧ LastOwned confs m)
        (fun m heq => ?_) fun m e m' h hclaims hstep => ?_
      · subst heq
        exact ⟨hosts_boot confs sepc plic, hboot, fun h => .inl rfl⟩
      · exact ⟨h.1.step hstep, routed_step h.1 h.2.1 hstep,
          lastOwned_step h.2.2 h.2.1 hclaims hstep⟩
    obtain ⟨hhosts, -, hlast⟩ := hinv
    refine ⟨(hlast h).imp id fun howns => howns.2.2, fun hne instr hreg => ?_⟩
    exact load_claim hhosts (hconfs h) ((hlast h).resolve_left hne) hreg

theorem not_enabled_resetPlic (context source : Nat) : ¬ Enabled resetPlic context source := by
  rintro ⟨-, -, -, hset⟩
  rw [enabledOn_iff] at hset
  simp [resetPlic] at hset

theorem interrupts_routed_sample :
    IrqsWellFormed sampleConf ∧ (∀ context source, ¬ Enabled resetPlic context source) ∧
      ∀ m, Reachable step (fun _ _ => True)
        (fun m => m = Machine.boot (fun _ => sampleConf) (fun _ => 0) resetPlic) m →
      ∀ source, Enabled m.plic (contextOf 0) source → source = 1 ∨ source = 10 := by
  refine ⟨sampleConf_irqsWellFormed, not_enabled_resetPlic, ?_⟩
  intro m hm source henabled
  obtain ⟨dev, hdev, hirq⟩ := ((interrupts_routed (fun _ => sampleConf) (fun _ => 0) resetPlic
    (fun _ => sampleConf_irqsWellFormed) not_enabled_resetPlic).1 m hm).1 0 source henabled
  simp only [sampleConf_devs, List.mem_cons, List.not_mem_nil, or_false] at hdev
  rcases hdev with rfl | rfl
  · exact .inl (Int.ofNat.inj hirq.symm)
  · exact .inr (Int.ofNat.inj hirq.symm)

end RiscvHypervisor.InterruptRouting
