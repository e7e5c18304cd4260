import RiscvHypervisor.MachineTypes

/-!
`struct mmio_dev` and `struct vm_config`, with the two searches of the device
table that the virtual PLIC makes.
-/

namespace RiscvHypervisor.GuestConfig

open RiscvHypervisor.MachineTypes

def maxDevs : Nat := 10

structure MmioDev where
  physBase : Uint64
  virtBase : Uint64
  size : Uint64
  perm : Uint64
  physIrq : Int
  virtIrq : Int
  deriving DecidableEq, Repr

/-- `struct vm_config`.  `vmPgtable` is the address of the table, and an empty
slot of `devices` is a null pointer. -/
structure VmConfig where
  cpuAffinity : Uint64
  imageBase : Uint64
  imageEnd : Uint64
  memoryBase : Uint64
  memorySize : Uint64
  devices : Vector (Option MmioDev) maxDevs
  vmPgtable : Uint64
  deriving DecidableEq, Repr

/-- The value in the first device, up to the first null pointer, whose key is
the given number; 0 when there is none. -/
def firstMatch (key value : MmioDev → Int) (irq : Int) : List (Option MmioDev) → Int
  | [] => 0
  | none :: _ => 0
  | some dev :: rest => if irq = key dev then value dev else firstMatch key value irq rest

def virtToPhysIrq (devs : Vector (Option MmioDev) maxDevs) (virtIrq : Int) : Int :=
  firstMatch MmioDev.virtIrq MmioDev.physIrq virtIrq devs.toList

def physToVirtIrq (devs : Vector (Option MmioDev) maxDevs) (physIrq : Int) : Int :=
  firstMatch MmioDev.physIrq MmioDev.virtIrq physIrq devs.toList

/-- The devices before the first null pointer. -/
def inUse : List (Option MmioDev) → List MmioDev
  | [] => []
  | none :: _ => []
  | some dev :: rest => dev :: inUse rest

/-- The devices of a virtual machine. -/
def VmConfig.devs (conf : VmConfig) : List MmioDev := inUse conf.devices.toList

theorem firstMatch_cases (key value : MmioDev → Int) (irq : Int) (devs : List (Option MmioDev)) :
    (∃ dev ∈ inUse devs, key dev = irq ∧ firstMatch key value irq devs = value dev) ∨
      ((∀ dev ∈ inUse devs, key dev ≠ irq) ∧ firstMatch key value irq devs = 0) := by
  induction devs with
  | nil => simp [inUse, firstMatch]
  | cons slot rest ih =>
      cases slot with
      | none => simp [inUse, firstMatch]
      | some dev =>
          rcases eq_or_ne irq (key dev) with hdev | hdev
          · refine .inl ⟨dev, by simp [inUse], hdev.symm, by simp [firstMatch, hdev]⟩
          · simp only [firstMatch, hdev, if_false, inUse, List.mem_cons]
            rcases ih with ⟨other, hmem, hkey, hvalue⟩ | ⟨hnone, hzero⟩
            · exact .inl ⟨other, .inr hmem, hkey, hvalue⟩
            · refine .inr ⟨?_, hzero⟩
              rintro other (rfl | hmem)
              · exact fun h => hdev h.symm
              · exact hnone other hmem

theorem virtToPhysIrq_cases (conf : VmConfig) (virtIrq : Int) :
    (∃ dev ∈ conf.devs, dev.virtIrq = virtIrq ∧
        virtToPhysIrq conf.devices virtIrq = dev.physIrq) ∨
      ((∀ dev ∈ conf.devs, dev.virtIrq ≠ virtIrq) ∧ virtToPhysIrq conf.devices virtIrq = 0) :=
  firstMatch_cases _ _ _ _

theorem physToVirtIrq_cases (conf : VmConfig) (physIrq : Int) :
    (∃ dev ∈ conf.devs, dev.physIrq = physIrq ∧
        physToVirtIrq conf.devices physIrq = dev.virtIrq) ∨
      ((∀ dev ∈ conf.devs, dev.physIrq ≠ physIrq) ∧ physToVirtIrq conf.devices physIrq = 0) :=
  firstMatch_cases _ _ _ _

/-- A device has no interrupt, or a physical and a virtual one in the range of
the PLIC, and no two devices of a machine share a number. -/
structure IrqsWellFormed (conf : VmConfig) : Prop where
  range : ∀ dev ∈ conf.devs, (dev.physIrq = 0 ∧ dev.virtIrq = 0) ∨
    (1 ≤ dev.physIrq ∧ dev.physIrq ≤ 1023 ∧ 1 ≤ dev.virtIrq ∧ dev.virtIrq ≤ 1023)
  phys_inj : ∀ dev ∈ conf.devs, ∀ dev' ∈ conf.devs, dev.physIrq ≠ 0 →
    dev.physIrq = dev'.physIrq → dev = dev'
  virt_inj : ∀ dev ∈ conf.devs, ∀ dev' ∈ conf.devs, dev.virtIrq ≠ 0 →
    dev.virtIrq = dev'.virtIrq → dev = dev'

namespace IrqsWellFormed

variable {conf : VmConfig}

theorem virtToPhysIrq_eq (h : IrqsWellFormed conf) {dev : MmioDev} (hdev : dev ∈ conf.devs)
    (hirq : dev.virtIrq ≠ 0) : virtToPhysIrq conf.devices dev.virtIrq = dev.physIrq := by
  rcases virtToPhysIrq_cases conf dev.virtIrq with ⟨other, hmem, heq, hvalue⟩ | ⟨hnone, -⟩
  · rw [hvalue, h.virt_inj dev hdev other hmem hirq heq.symm]
  · exact absurd rfl (hnone dev hdev)

theorem physToVirtIrq_eq (h : IrqsWellFormed conf) {dev : MmioDev} (hdev : dev ∈ conf.devs)
    (hirq : dev.physIrq ≠ 0) : physToVirtIrq conf.devices dev.physIrq = dev.virtIrq := by
  rcases physToVirtIrq_cases conf dev.physIrq with ⟨other, hmem, heq, hvalue⟩ | ⟨hnone, -⟩
  · rw [hvalue, h.phys_inj dev hdev other hmem hirq heq.symm]
  · exact absurd rfl (hnone dev hdev)

end IrqsWellFormed

/-- A device of the machine has this virtual and this physical source. -/
def Maps (conf : VmConfig) (virtIrq physIrq : Nat) : Prop :=
  1 ≤ virtIrq ∧ virtIrq ≤ 1023 ∧ 1 ≤ physIrq ∧ physIrq ≤ 1023 ∧
    ∃ dev ∈ conf.devs, dev.virtIrq = virtIrq ∧ dev.physIrq = physIrq

/-- The number is the virtual source of a device. -/
def HasIrq (conf : VmConfig) (virtIrq : Nat) : Prop :=
  virtIrq ≠ 0 ∧ ∃ dev ∈ conf.devs, dev.virtIrq = virtIrq

instance (conf : VmConfig) (virtIrq : Nat) : Decidable (HasIrq conf virtIrq) :=
  inferInstanceAs (Decidable (_ ∧ _))

namespace IrqsWellFormed

variable {conf : VmConfig} {v v' p p' : Nat}

theorem virtToPhysIrq_of_maps (h : IrqsWellFormed conf) (hmaps : Maps conf v p) :
    virtToPhysIrq conf.devices v = p := by
  obtain ⟨hpos, -, -, -, dev, hdev, hvirt, hphys⟩ := hmaps
  rw [← hvirt, h.virtToPhysIrq_eq hdev (by omega), hphys]

theorem exists_maps (h : IrqsWellFormed conf) {dev : MmioDev} (hdev : dev ∈ conf.devs)
    (hvirt : dev.virtIrq = v) (hv : v ≠ 0) : ∃ p, Maps conf v p := by
  rcases h.range dev hdev with ⟨-, hzero⟩ | ⟨hplow, hphigh, hvlow, hvhigh⟩
  · omega
  · exact ⟨dev.physIrq.toNat, by omega, by omega, by omega, by omega, dev, hdev, hvirt, by omega⟩

theorem hasIrq_iff (h : IrqsWellFormed conf) : HasIrq conf v ↔ ∃ p, Maps conf v p := by
  constructor
  · rintro ⟨hv, dev, hdev, hvirt⟩
    exact h.exists_maps hdev hvirt hv
  · rintro ⟨p, hpos, -, -, -, dev, hdev, hvirt, -⟩
    exact ⟨by omega, dev, hdev, hvirt⟩

/-- The search finds the physical source of a virtual one, or nothing. -/
theorem virtToPhysIrq_nat (h : IrqsWellFormed conf) (v : Nat) :
    (¬ HasIrq conf v ∧ virtToPhysIrq conf.devices v = (0 : Nat)) ∨
      ∃ p, Maps conf v p ∧ virtToPhysIrq conf.devices v = p := by
  by_cases hirq : HasIrq conf v
  · obtain ⟨p, hmaps⟩ := h.hasIrq_iff.mp hirq
    exact .inr ⟨p, hmaps, h.virtToPhysIrq_of_maps hmaps⟩
  · refine .inl ⟨hirq, ?_⟩
    rcases virtToPhysIrq_cases conf v with ⟨dev, hdev, hvirt, heq⟩ | ⟨-, heq⟩
    · rcases eq_or_ne v 0 with hv | hv
      · rcases h.range dev hdev with ⟨hphys, -⟩ | ⟨-, -, hvlow, -⟩
        · rw [heq, hphys]
          rfl
        · omega
      · exact absurd ⟨hv, dev, hdev, hvirt⟩ hirq
    · exact heq

theorem virtToPhysIrq_eq_iff (h : IrqsWellFormed conf) (v : Nat) :
    ∃ p : Nat, virtToPhysIrq conf.devices v = p ∧ ∀ q, 1 ≤ q → (p = q ↔ Maps conf v q) := by
  rcases h.virtToPhysIrq_nat v with ⟨hnone, heq⟩ | ⟨p, hmaps, heq⟩
  · refine ⟨0, heq, fun q hq => iff_of_false (by omega) fun hmaps => ?_⟩
    exact hnone (h.hasIrq_iff.mpr ⟨q, hmaps⟩)
  · refine ⟨p, heq, fun q _ => ⟨fun hpq => hpq ▸ hmaps, fun hmaps' => ?_⟩⟩
    rw [h.virtToPhysIrq_of_maps hmaps'] at heq
    exact Int.ofNat.inj heq.symm

theorem maps_phys_unique (h : IrqsWellFormed conf) (hmaps : Maps conf v p)
    (hmaps' : Maps conf v p') : p = p' :=
  Int.ofNat.inj ((h.virtToPhysIrq_of_maps hmaps).symm.trans (h.virtToPhysIrq_of_maps hmaps'))

theorem maps_virt_unique (h : IrqsWellFormed conf) (hmaps : Maps conf v p)
    (hmaps' : Maps conf v' p) : v = v' := by
  obtain ⟨-, -, hpos, -, dev, hdev, hvirt, hphys⟩ := hmaps
  obtain ⟨-, -, -, -, dev', hdev', hvirt', hphys'⟩ := hmaps'
  have hsame := h.phys_inj dev hdev dev' hdev' (by omega) (hphys.trans hphys'.symm)
  rw [hsame] at hvirt
  exact Int.ofNat.inj (hvirt.symm.trans hvirt')

end IrqsWellFormed

/-- A virtual machine with two devices on both harts. -/
def sampleConf : VmConfig where
  cpuAffinity := 3
  imageBase := 0x80200000
  imageEnd := 0x80210000
  memoryBase := 0x80000000
  memorySize := 0x100000
  devices := #v[some ⟨0x10001000, 0x10001000, 0x1000, 6, 1, 1⟩,
    some ⟨0x10000000, 0x10000000, 0x100, 6, 10, 10⟩, none, none, none, none, none, none, none, none]
  vmPgtable := 0xffffffc000100000

theorem sampleConf_devs : sampleConf.devs =
    [⟨0x10001000, 0x10001000, 0x1000, 6, 1, 1⟩, ⟨0x10000000, 0x10000000, 0x100, 6, 10, 10⟩] := rfl

theorem sampleConf_irqsWellFormed : IrqsWellFormed sampleConf := by
  constructor <;> rw [sampleConf_devs] <;> decide

/-- A virtual machine whose device has the virtual source of another machine's. -/
def neighbourConf : VmConfig :=
  { sampleConf with
    cpuAffinity := 2
    devices := #v[some ⟨0x10002000, 0x10001000, 0x1000, 6, 2, 1⟩, none, none, none, none, none, none,
      none, none, none] }

end RiscvHypervisor.GuestConfig
