import RiscvHypervisor.VirtualCpu
import Mathlib.Algebra.BigOperators.Group.Finset.Basic
import Mathlib.Algebra.Order.BigOperators.Group.Finset
import Mathlib.Order.Interval.Finset.Nat

/-!
The assignment of harts to virtual machines: what `check_cpu_configuration`
accepts, and what the three other readers of the affinity masks need of it.
-/

namespace RiscvHypervisor.CpuPartition

open RiscvHypervisor.MachineTypes
open RiscvHypervisor.GuestConfig
open RiscvHypervisor.VirtualCpu

/-- The loop of `count_set_bits`.  The probe is an `int`, so in its last round
it is converted to a `uint64` with all of the upper half set. -/
def countSetBitsLoop : Nat → Uint32 → Uint64 → Nat → Nat
  | 0, _, _, count => count
  | fuel + 1, i, num, count =>
      if i = 0 then
        count
      else
        countSetBitsLoop fuel (i <<< 1) num
          (if num &&& i.signExtend 64 ≠ 0 then count + 1 else count)

/-- The probe is 0 after 32 rounds. -/
def countSetBits (num : Uint64) : Nat := countSetBitsLoop 33 1 num 0

/-- `config[i].cpu_affinity`. -/
def affinity (config : List VmConfig) (i : Nat) : Uint64 :=
  (config[i]?.map VmConfig.cpuAffinity).getD 0

/-- The counts that `init_vm_barriers` gives to the barriers. -/
def initVmBarriers (config : List VmConfig) : List Nat :=
  config.map fun vm => countSetBits vm.cpuAffinity

/-- The first loop of `check_cpu_configuration`. -/
def checkOverlap (config : List VmConfig) : Except String Unit :=
  (List.range config.length).forM fun i =>
    (List.range i).forM fun j =>
      if affinity config i &&& affinity config j ≠ 0 then
        throw s!"VMs share the same CPU ({j}, {i})"
      else
        pure ()

def checkCpuConfiguration (config : List VmConfig) : Except String Unit := do
  checkOverlap config
  let nrCpus := ((List.range config.length).map fun i => countSetBits (affinity config i)).sum
  if nrCpus ≠ dtbNrCpus then
    throw s!"CPU number misconfiguration\nvm_config: {nrCpus}, dtb: {dtbNrCpus}"
  else
    pure ()

section Counting

/-- The test of one round of `count_set_bits`. -/
def Probe (num : Uint64) (k : Nat) : Prop := num &&& ((1 : Uint32) <<< k).signExtend 64 ≠ 0

instance (num : Uint64) (k : Nat) : Decidable (Probe num k) :=
  inferInstanceAs (Decidable (_ ≠ _))

theorem countSetBitsLoop_eq (left : Nat) (hleft : left ≤ 32) (num : Uint64) (count : Nat) :
    countSetBitsLoop (left + 1) ((1 : Uint32) <<< (32 - left)) num count =
      count + ((Finset.Ico (32 - left) 32).filter fun k => Probe num k).card := by
  induction left generalizing count with
  | zero =>
      rw [countSetBitsLoop, if_pos (by decide)]
      simp
  | succ left ih =>
      have hne : (1 : Uint32) <<< (32 - (left + 1)) ≠ 0 := by
        intro hzero
        have hbit := congrArg (fun x : Uint32 => x.getLsbD (32 - (left + 1))) hzero
        simp at hbit
        omega
      have hnext : (1 : Uint32) <<< (32 - (left + 1)) <<< 1 = (1 : Uint32) <<< (32 - left) := by
        rw [← BitVec.shiftLeft_add]
        congr 1
        omega
      have hsplit : Finset.Ico (32 - (left + 1)) 32 =
          insert (32 - (left + 1)) (Finset.Ico (32 - left) 32) := by
        ext k
        simp only [Finset.mem_Ico, Finset.mem_insert]
        omega
      rw [countSetBitsLoop, if_neg hne, hnext, ih (by omega), hsplit, Finset.filter_insert]
      change (if Probe num (32 - (left + 1)) then count + 1 else count) + _ = _
      split
      · rw [Finset.card_insert_of_notMem (by simp; omega)]
        omega
      · rfl

theorem countSetBits_eq (num : Uint64) :
    countSetBits num = ((Finset.range 32).filter fun k => Probe num k).card := by
  have h := countSetBitsLoop_eq 32 le_rfl num 0
  rw [Nat.sub_self, Nat.zero_add, ← Finset.range_eq_Ico] at h
  exact h

theorem probe_iff {num : Uint64} {k : Nat} (hk : k < 31) :
    Probe num k ↔ num.getLsbD k = true := by
  have hext : ∀ k < 31, ((1 : Uint32) <<< k).signExtend 64 = (1 : Uint64) <<< k := by
    decide
  rw [Probe, hext k hk]
  exact and_one_shiftLeft_ne_zero_iff (by omega) num

/-- The last round tests all bits from 31 on at once. -/
theorem probe_last_iff (num : Uint64) : Probe num 31 ↔ ∃ k, 31 ≤ k ∧ num.getLsbD k = true := by
  have hext : ∀ k < 64, (((1 : Uint32) <<< 31).signExtend 64).getLsbD k = decide (31 ≤ k) := by
    decide
  constructor
  · intro hprobe
    by_contra hnone
    refine hprobe (BitVec.eq_of_getLsbD_eq fun k hk => ?_)
    rw [BitVec.getLsbD_and, hext k hk]
    by_cases hge : 31 ≤ k
    · have hclear : num.getLsbD k = false := by
        by_contra hset
        exact hnone ⟨k, hge, by simpa using hset⟩
      simp [hclear]
    · simp [hge]
  · rintro ⟨k, hge, hset⟩ hzero
    have hlt : k < 64 := BitVec.lt_of_getLsbD hset
    have hbit : (num &&& ((1 : Uint32) <<< 31).signExtend 64).getLsbD k = true := by
      rw [BitVec.getLsbD_and, hext k hlt, hset]
      simpa using hge
    rw [hzero] at hbit
    simp at hbit

/-- The harts of an affinity mask. -/
def hartsOf (cpuAffinity : Uint64) : Finset Nat :=
  (Finset.range dtbNrCpus).filter fun h => cpuAffinity.getLsbD h = true

/-- A mask without bits for harts that do not exist is counted right. -/
theorem countSetBits_of_lt {num : Uint64} (h : num.toNat < 2 ^ dtbNrCpus) :
    countSetBits num = (hartsOf num).card := by
  have hclear : ∀ k, dtbNrCpus ≤ k → num.getLsbD k = false := fun k hk =>
    Nat.testBit_lt_two_pow (h.trans_le (Nat.pow_le_pow_right (by decide) hk))
  rw [countSetBits_eq]
  congr 1
  ext k
  simp only [hartsOf, Finset.mem_filter, Finset.mem_range]
  constructor
  · rintro ⟨hk, hprobe⟩
    have hset : num.getLsbD k = true := by
      rcases eq_or_ne k 31 with rfl | hlast
      · obtain ⟨j, hj, hset⟩ := (probe_last_iff num).mp hprobe
        rw [hclear j (le_trans (by decide) hj)] at hset
        cases hset
      · exact (probe_iff (by omega)).mp hprobe
    refine ⟨?_, hset⟩
    by_contra hge
    rw [hclear k (not_lt.mp hge)] at hset
    cases hset
  · rintro ⟨hk, hset⟩
    simp only [dtbNrCpus] at hk
    exact ⟨by omega, (probe_iff (by omega)).mpr hset⟩

/-- A bit for a hart that does not exist is counted too. -/
theorem card_hartsOf_lt_countSetBits {num : Uint64} (h : ¬ num.toNat < 2 ^ dtbNrCpus) :
    (hartsOf num).card < countSetBits num := by
  obtain ⟨k, hk, hset⟩ : ∃ k, dtbNrCpus ≤ k ∧ num.getLsbD k = true := by
    by_contra hnone
    refine h (Nat.lt_pow_two_of_testBit _ fun k hk => ?_)
    by_contra hset
    exact hnone ⟨k, hk, by simpa [BitVec.getLsbD] using hset⟩
  rw [countSetBits_eq]
  refine Finset.card_lt_card (Finset.ssubset_iff_of_subset ?_ |>.mpr ⟨min k 31, ?_, ?_⟩)
  · intro j hj
    simp only [hartsOf, Finset.mem_filter, Finset.mem_range, dtbNrCpus] at hj ⊢
    exact ⟨by omega, (probe_iff (by omega)).mpr hj.2⟩
  · simp only [Finset.mem_filter, Finset.mem_range]
    refine ⟨by omega, ?_⟩
    by_cases hlast : k < 31
    · rw [min_eq_left hlast.le]
      exact (probe_iff hlast).mpr hset
    · rw [min_eq_right (not_lt.mp hlast)]
      exact (probe_last_iff num).mpr ⟨k, not_lt.mp hlast, hset⟩
  · simp only [hartsOf, Finset.mem_filter, Finset.mem_range, not_and, dtbNrCpus] at hk ⊢
    omega

end Counting

/-- No two machines share a hart. -/
def DisjointAffinity (config : List VmConfig) : Prop :=
  ∀ i < config.length, ∀ j < i, affinity config i &&& affinity config j = 0

section Check

variable {config : List VmConfig}

theorem forM_eq_ok_iff {α ε : Type} (f : α → Except ε Unit) (xs : List α) :
    xs.forM f = .ok () ↔ ∀ x ∈ xs, f x = .ok () := by
  induction xs with
  | nil => exact iff_of_true rfl (by simp)
  | cons x xs ih =>
      rw [List.forall_mem_cons, ← ih, List.forM]
      cases hx : f x with
      | error e => exact iff_of_false nofun fun h => nomatch h.1
      | ok u => exact (and_iff_right rfl).symm

theorem checkOverlap_ok_iff : checkOverlap config = .ok () ↔ DisjointAffinity config := by
  simp only [checkOverlap, DisjointAffinity, forM_eq_ok_iff, List.mem_range]
  refine forall₂_congr fun i _ => forall₂_congr fun j _ => ?_
  rcases eq_or_ne (affinity config i &&& affinity config j) 0 with h | h
  · exact iff_of_true (if_neg fun hne => hne h) h
  · rw [if_pos h]
    exact iff_of_false nofun h

/-- What the check accepts: no hart is in two masks, and the counts add up. -/
theorem checkCpuConfiguration_ok_iff : checkCpuConfiguration config = .ok () ↔
    DisjointAffinity config ∧
      ∑ i ∈ Finset.range config.length, countSetBits (affinity config i) = dtbNrCpus := by
  have hsum : ((List.range config.length).map fun i => countSetBits (affinity config i)).sum =
      ∑ i ∈ Finset.range config.length, countSetBits (affinity config i) := rfl
  rw [← checkOverlap_ok_iff, ← hsum, checkCpuConfiguration]
  cases checkOverlap config with
  | error e => exact iff_of_false nofun fun h => nomatch h.1
  | ok u =>
      rw [and_iff_right rfl]
      by_cases h : ((List.range config.length).map fun i =>
          countSetBits (affinity config i)).sum = dtbNrCpus
      · exact iff_of_true (if_neg fun hne => hne h) h
      · exact iff_of_false (fun heq => nomatch (if_pos h).symm.trans heq) h

end Check

section Assignment

variable {config : List VmConfig}

/-- The machine that a hart runs, by its number. -/
def configOf (config : List VmConfig) (h : Nat) : Except String Nat :=
  getConfigForCpu config (BitVec.ofNat 64 h)

theorem DisjointAffinity.unique (hdisjoint : DisjointAffinity config) {i j h : Nat} (hi : i < config.length)
    (hj : j < config.length) (hbit : (affinity config i).getLsbD h = true)
    (hbit' : (affinity config j).getLsbD h = true) : i = j := by
  have hboth : ∀ i j, affinity config i &&& affinity config j = 0 →
      (affinity config i).getLsbD h = true → (affinity config j).getLsbD h = true → False := by
    intro i j hzero hset hset'
    have hand : (affinity config i &&& affinity config j).getLsbD h = true := by
      rw [BitVec.getLsbD_and, hset, hset', Bool.and_true]
    rw [hzero] at hand
    simp at hand
  rcases Nat.lt_trichotomy i j with hlt | heq | hgt
  · exact (hboth j i (hdisjoint j hj i hlt) hbit' hbit).elim
  · exact heq
  · exact (hboth i j (hdisjoint i hi j hgt) hbit hbit').elim

theorem affinity_eq {i : Nat} (hi : i < config.length) :
    affinity config i = config[i].cpuAffinity := by
  simp [affinity, hi]

/-- A hart runs the machine that has it in its mask. -/
theorem configOf_eq_ok_iff (hdisjoint : DisjointAffinity config) {h i : Nat} (hh : h < dtbNrCpus) :
    configOf config h = .ok i ↔ i < config.length ∧ (affinity config i).getLsbD h = true := by
  simp only [dtbNrCpus] at hh
  have hmember : ∀ conf : VmConfig, conf.cpuAffinity &&& hartBit (BitVec.ofNat 64 h) ≠ 0 ↔
      conf.cpuAffinity.getLsbD h = true := by
    intro conf
    have hnat : (BitVec.ofNat 64 h).toNat = h := by
      simp
      omega
    rw [hartBit, hnat]
    exact probe_iff (by omega)
  rw [configOf, getConfigForCpu]
  cases hfind : config.findIdx? fun conf =>
      conf.cpuAffinity &&& hartBit (BitVec.ofNat 64 h) ≠ 0 with
  | none =>
      rw [List.findIdx?_eq_none_iff] at hfind
      refine iff_of_false nofun ?_
      rintro ⟨hi, hbit⟩
      rw [affinity_eq hi] at hbit
      have hno := hfind config[i] (List.getElem_mem hi)
      simp only [ne_eq, decide_eq_false_iff_not, not_not] at hno
      exact (hmember config[i]).mpr hbit hno
  | some j =>
      rw [List.findIdx?_eq_some_iff_getElem] at hfind
      obtain ⟨hj, hyes, -⟩ := hfind
      have hbit : (affinity config j).getLsbD h = true := by
        rw [affinity_eq hj, ← hmember]
        simpa using hyes
      constructor
      · rintro heq
        cases heq
        exact ⟨hj, hbit⟩
      · rintro ⟨hi, hbit'⟩
        rw [hdisjoint.unique hi hj hbit' hbit]

end Assignment

/-- What the boot code relies on: every hart finds the one machine that has it
in its mask, every barrier counts the harts that wait on it, and every machine
has one hart that sets up its page table. -/
structure Usable (config : List VmConfig) : Prop where
  machine : ∀ h < dtbNrCpus, ∃ i < config.length, configOf config h = .ok i ∧
    ∀ j < config.length, (affinity config j).getLsbD h = true ↔ j = i
  barrier : ∀ i < config.length, (initVmBarriers config)[i]? =
    some ((Finset.range dtbNrCpus).filter fun h => configOf config h = .ok i).card
  leader : ∀ i < config.length, ∃! h, h < dtbNrCpus ∧ configOf config h = .ok i ∧
    getVhartid (BitVec.ofNat 64 h) (affinity config i) = 0

section Usability

variable {config : List VmConfig}

theorem initVmBarriers_getElem {i : Nat} (hi : i < config.length) :
    (initVmBarriers config)[i]? = some (countSetBits (affinity config i)) := by
  simp [initVmBarriers, affinity, hi]

theorem harts_configOf (hdisjoint : DisjointAffinity config) {i : Nat} (hi : i < config.length) :
    ((Finset.range dtbNrCpus).filter fun h => configOf config h = .ok i) =
      hartsOf (affinity config i) := by
  refine Finset.filter_congr fun h hh => ?_
  rw [configOf_eq_ok_iff hdisjoint (Finset.mem_range.mp hh), and_iff_right hi]

theorem getVhartid_eq_zero_iff {h : Nat} (hh : h < dtbNrCpus) (cpuAffinity : Uint64) :
    getVhartid (BitVec.ofNat 64 h) cpuAffinity = 0 ↔ ∀ k < h, cpuAffinity.getLsbD k = false := by
  simp only [dtbNrCpus] at hh
  have hnat : (BitVec.ofNat 64 h).toNat = h := by
    simp
    omega
  rw [← BitVec.toNat_inj, getVhartid_toNat, hnat]
  exact (List.countP_eq_zero (l := List.range h)).trans (by simp)

/-- The lowest hart of a machine, and no other, gets virtual id 0. -/
theorem existsUnique_leader (hdisjoint : DisjointAffinity config) {i : Nat} (hi : i < config.length)
    (hne : affinity config i ≠ 0) (hlt : (affinity config i).toNat < 2 ^ dtbNrCpus) :
    ∃! h, h < dtbNrCpus ∧ configOf config h = .ok i ∧
      getVhartid (BitVec.ofNat 64 h) (affinity config i) = 0 := by
  have hex : ∃ h, (affinity config i).getLsbD h = true := by
    by_contra hnone
    refine hne (BitVec.eq_of_getLsbD_eq fun k _ => ?_)
    simpa using not_exists.mp hnone k
  have hbound : ∀ h, (affinity config i).getLsbD h = true → h < dtbNrCpus := by
    intro h hbit
    by_contra hge
    have hclear : (affinity config i).getLsbD h = false := Nat.testBit_lt_two_pow
      (hlt.trans_le (Nat.pow_le_pow_right (by decide) (not_lt.mp hge)))
    rw [hclear] at hbit
    cases hbit
  have hmin := Nat.find_spec hex
  refine ⟨Nat.find hex, ⟨hbound _ hmin, ?_, ?_⟩, ?_⟩
  · exact (configOf_eq_ok_iff hdisjoint (hbound _ hmin)).mpr ⟨hi, hmin⟩
  · rw [getVhartid_eq_zero_iff (hbound _ hmin)]
    intro k hk
    simpa using Nat.find_min hex hk
  · rintro h ⟨hh, hconfig, hzero⟩
    have hbit := ((configOf_eq_ok_iff hdisjoint hh).mp hconfig).2
    rw [getVhartid_eq_zero_iff hh] at hzero
    refine le_antisymm (not_lt.mp fun hlt => ?_) (Nat.find_min' hex hbit)
    rw [hzero _ hlt] at hmin
    cases hmin

/-- Masks that are disjoint, within range and add up to all harts cover them. -/
theorem exists_machine (hdisjoint : DisjointAffinity config)
    (hlt : ∀ i < config.length, (affinity config i).toNat < 2 ^ dtbNrCpus)
    (hsum : ∑ i ∈ Finset.range config.length, countSetBits (affinity config i) = dtbNrCpus)
    {h : Nat} (hh : h < dtbNrCpus) :
    ∃ i < config.length, (affinity config i).getLsbD h = true := by
  let union := (Finset.range config.length).biUnion fun i => hartsOf (affinity config i)
  have hcard : union.card = dtbNrCpus := by
    rw [Finset.card_biUnion, ← hsum]
    · exact Finset.sum_congr rfl fun i hi => (countSetBits_of_lt (hlt i (Finset.mem_range.mp hi))).symm
    · intro i hi j hj hne
      refine Finset.disjoint_left.mpr fun k hk hk' => hne ?_
      exact hdisjoint.unique (Finset.mem_range.mp hi) (Finset.mem_range.mp hj)
        (Finset.mem_filter.mp hk).2 (Finset.mem_filter.mp hk').2
  have hall : union = Finset.range dtbNrCpus := by
    refine Finset.eq_of_subset_of_card_le ?_ (by rw [hcard, Finset.card_range])
    exact Finset.biUnion_subset.mpr fun i _ => Finset.filter_subset _ _
  have hmem : h ∈ union := hall ▸ Finset.mem_range.mpr hh
  obtain ⟨i, hi, hbit⟩ := Finset.mem_biUnion.mp hmem
  exact ⟨i, Finset.mem_range.mp hi, (Finset.mem_filter.mp hbit).2⟩

end Usability

/-- An accepted configuration is usable exactly when every mask is not empty
and has bits for existing harts only. -/
theorem checkCpuConfiguration_usable_iff (config : List VmConfig)
    (haccepted : checkCpuConfiguration config = .ok ()) :
    Usable config ↔ ∀ i < config.length, affinity config i ≠ 0 ∧
      (affinity config i).toNat < 2 ^ dtbNrCpus := by
  obtain ⟨hdisjoint, hsum⟩ := checkCpuConfiguration_ok_iff.mp haccepted
  constructor
  · intro husable i hi
    obtain ⟨h, ⟨hh, hconfig, -⟩, -⟩ := husable.leader i hi
    have hbit := ((configOf_eq_ok_iff hdisjoint hh).mp hconfig).2
    refine ⟨fun hzero => ?_, ?_⟩
    · rw [hzero] at hbit
      simp at hbit
    · by_contra hge
      have hcount := husable.barrier i hi
      rw [initVmBarriers_getElem hi, harts_configOf hdisjoint hi] at hcount
      exact (card_hartsOf_lt_countSetBits hge).ne (Option.some.inj hcount).symm
  · intro hmasks
    refine ⟨fun h hh => ?_, fun i hi => ?_, fun i hi => ?_⟩
    · obtain ⟨i, hi, hbit⟩ := exists_machine hdisjoint (fun i hi => (hmasks i hi).2) hsum hh
      refine ⟨i, hi, (configOf_eq_ok_iff hdisjoint hh).mpr ⟨hi, hbit⟩, fun j hj => ?_⟩
      exact ⟨fun hbit' => hdisjoint.unique hj hi hbit' hbit, fun heq => heq ▸ hbit⟩
    · rw [initVmBarriers_getElem hi, harts_configOf hdisjoint hi,
        countSetBits_of_lt (hmasks i hi).2]
    · exact existsUnique_leader hdisjoint hi (hmasks i hi).1 (hmasks i hi).2

/-- One machine on each of the two harts. -/
theorem checkCpuConfiguration_usable_two :
    checkCpuConfiguration [{ sampleConf with cpuAffinity := 1 }, neighbourConf] = .ok () ∧
      Usable [{ sampleConf with cpuAffinity := 1 }, neighbourConf] :=
  ⟨by decide, (checkCpuConfiguration_usable_iff _ (by decide)).mpr (by decide)⟩

/-- Two machines on harts 2 and 3, which do not exist, are accepted, and then
hart 0 finds no machine. -/
theorem checkCpuConfiguration_accepts_unusable :
    ∃ config, checkCpuConfiguration config = .ok () ∧ ¬ Usable config ∧
      configOf config 0 = .error "No way (CPU configuration was already checked)" := by
  refine ⟨[{ sampleConf with cpuAffinity := 4 }, { sampleConf with cpuAffinity := 8 }],
    by decide, fun husable => ?_, by decide⟩
  obtain ⟨i, -, hconfig, -⟩ := husable.machine 0 (by decide)
  exact absurd hconfig (by rw [show configOf _ 0 = _ from rfl]; nofun)

end RiscvHypervisor.CpuPartition
