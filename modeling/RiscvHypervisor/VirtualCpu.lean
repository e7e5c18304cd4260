import RiscvHypervisor.GuestConfig

/-!
`struct vcpu` and the choice of a hart's virtual machine and virtual hart id
(`virtual/vcpu.c`).
-/

namespace RiscvHypervisor.VirtualCpu

open RiscvHypervisor.MachineTypes
open RiscvHypervisor.GuestConfig

structure Vcpu where
  vhartid : Uint64
  lastClaimedIrqId : Uint32
  conf : VmConfig
  regs : BitVec 5 → Uint64

/-- A vcpu with the two control registers of its hart that the virtual PLIC
writes. -/
structure HartState where
  vcpu : Vcpu
  hvip : Uint64
  sepc : Uint64

def hvipVseip : Uint64 := (1 : Uint64) <<< 10

/-- `vcpu->regs.x[i] = value`. -/
def HartState.setReg (hart : HartState) (i : BitVec 5) (value : Uint64) : HartState :=
  { hart with vcpu := { hart.vcpu with regs := Function.update hart.vcpu.regs i value } }

/-- `1 << hartid`, an `int` that is converted to `uint64` where it is used. -/
def hartBit (hartid : Uint64) : Uint64 := ((1 : Uint32) <<< hartid.toNat).signExtend 64

/-- The index of the first machine with the hart in its affinity. -/
def getConfigForCpu (config : List VmConfig) (hartid : Uint64) : Except String Nat :=
  match config.findIdx? fun conf => conf.cpuAffinity &&& hartBit hartid ≠ 0 with
  | some i => .ok i
  | none => .error "No way (CPU configuration was already checked)"

/-- The loop of `get_vhartid` for the `i` that are left. -/
def getVhartidLoop : Nat → Uint64 → Uint64 → Uint64
  | 0, _, vhartid => vhartid
  | left + 1, cpuAffinity, vhartid =>
      getVhartidLoop left (cpuAffinity >>> 1)
        (if cpuAffinity &&& 1 ≠ 0 then vhartid + 1 else vhartid)

def getVhartid (hartid cpuAffinity : Uint64) : Uint64 :=
  getVhartidLoop hartid.toNat cpuAffinity 0

/-- The virtual id counts the harts of the machine before this one. -/
theorem getVhartidLoop_toNat (left : Nat) (cpuAffinity vhartid : Uint64)
    (h : vhartid.toNat + left < 2 ^ 64) :
    (getVhartidLoop left cpuAffinity vhartid).toNat =
      vhartid.toNat + (List.range left).countP fun k => cpuAffinity.getLsbD k := by
  induction left generalizing cpuAffinity vhartid with
  | zero => rfl
  | succ left ih =>
      have hshift : ((List.range left).countP fun k => (cpuAffinity >>> 1).getLsbD k) =
          (List.range left).countP fun k => cpuAffinity.getLsbD (k + 1) := by
        simp only [BitVec.getLsbD_ushiftRight, Nat.add_comm 1]
      have hbit : cpuAffinity &&& 1 ≠ 0 ↔ cpuAffinity.getLsbD 0 = true :=
        and_one_shiftLeft_ne_zero_iff (k := 0) (by decide) cpuAffinity
      have hsucc : (vhartid + 1).toNat = vhartid.toNat + 1 := by
        simp
        omega
      rw [getVhartidLoop, List.range_succ_eq_map, List.countP_cons, List.countP_map]
      rcases eq_or_ne (cpuAffinity.getLsbD 0) true with hzero | hzero
      · rw [if_pos (hbit.mpr hzero), ih _ _ (by omega), hsucc, hshift, if_pos hzero]
        simp only [Function.comp_def, Nat.succ_eq_add_one]
        omega
      · rw [if_neg (hbit.not.mpr hzero), ih _ _ (by omega), hshift, if_neg hzero]
        rfl

theorem getVhartid_toNat (hartid cpuAffinity : Uint64) : (getVhartid hartid cpuAffinity).toNat =
    (List.range hartid.toNat).countP fun k => cpuAffinity.getLsbD k := by
  rw [getVhartid, getVhartidLoop_toNat _ _ _ (by simpa using hartid.isLt)]
  exact Nat.zero_add _

theorem getVhartid_toNat_le (hartid cpuAffinity : Uint64) :
    (getVhartid hartid cpuAffinity).toNat ≤ hartid.toNat := by
  rw [getVhartid_toNat]
  exact List.countP_le_length.trans_eq List.length_range

/-- `init_vcpu`, for a hart that is in the affinity of some machine. -/
def initVcpu (hartid : Uint64) (conf : VmConfig) : Vcpu :=
  let vhartid := getVhartid hartid conf.cpuAffinity
  { vhartid := vhartid
    lastClaimedIrqId := 0
    conf := conf
    regs := Function.update (Function.update (fun _ => 0) 10 vhartid) 11 0xff }

end RiscvHypervisor.VirtualCpu
