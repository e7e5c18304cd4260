import RiscvHypervisor.CpuPartition
import Mathlib.Data.Nat.Count
import Mathlib.Data.Set.Monotone

/-!
The two ways in which the harts of an affinity mask are counted: `get_vhartid`
renumbers them from 0 on, and `count_set_bits` says how many there are.
-/

namespace RiscvHypervisor.HartNumbering

open RiscvHypervisor.MachineTypes
open RiscvHypervisor.GuestConfig
open RiscvHypervisor.VirtualCpu
open RiscvHypervisor.CpuPartition

section Ranks

/-- A numbering of finitely many numbers from 0 on that keeps their order. -/
structure Renumbers (rank : Nat → Nat) (s : Finset Nat) : Prop where
  increasing : StrictMonoOn rank s
  onto : Set.BijOn rank s (Finset.range s.card)

/-- The members that are smaller are such a numbering. -/
theorem renumbers_count (s : Finset Nat) : Renumbers (Nat.count (· ∈ s)) s := by
  have hincreasing : StrictMonoOn (Nat.count (· ∈ s)) s :=
    fun m hm n _ hlt => Nat.count_strict_mono hm hlt
  have hmaps : Set.MapsTo (Nat.count (· ∈ s)) s (Finset.range s.card) := by
    intro n hn
    rw [Finset.coe_range, Set.mem_Iio, Nat.count_eq_card_filter_range]
    apply Finset.card_lt_card
    rw [Finset.ssubset_iff_of_subset fun k hk => (Finset.mem_filter.mp hk).2]
    exact ⟨n, hn, fun hmem => absurd (Finset.mem_filter.mp hmem).1 Finset.notMem_range_self⟩
  refine ⟨hincreasing, hmaps, hincreasing.injOn, ?_⟩
  exact Finset.surjOn_of_injOn_of_card_le _ hmaps hincreasing.injOn (by rw [Finset.card_range])

variable {rank : Nat → Nat} {s : Finset Nat}

theorem Renumbers.congr {rank' : Nat → Nat} (h : Renumbers rank s) (heq : Set.EqOn rank rank' s) :
    Renumbers rank' s :=
  ⟨StrictMonoOn.congr h.increasing heq, h.onto.congr heq⟩

/-- Where there is a member, one of them gets number 0. -/
theorem Renumbers.existsUnique_zero (h : Renumbers rank s) (hs : s.Nonempty) :
    ∃! n, n ∈ s ∧ rank n = 0 := by
  have hzero : 0 ∈ (Finset.range s.card : Set Nat) := by
    rw [Finset.coe_range]
    exact hs.card_pos
  obtain ⟨n, hn, hrank⟩ := h.onto.surjOn hzero
  refine ⟨n, ⟨hn, hrank⟩, ?_⟩
  rintro m ⟨hm, hrank'⟩
  exact h.onto.injOn hm hn (hrank'.trans hrank.symm)

end Ranks

/-- The bits that are set in a word. -/
def setBits (num : Uint64) : Finset Nat := (Finset.range 64).filter fun k => num.getLsbD k = true

theorem mem_setBits_iff {num : Uint64} {k : Nat} : k ∈ setBits num ↔ num.getLsbD k = true := by
  rw [setBits, Finset.mem_filter, Finset.mem_range, and_iff_right_iff_imp]
  exact BitVec.lt_of_getLsbD

theorem setBits_nonempty_iff {num : Uint64} : (setBits num).Nonempty ↔ num ≠ 0 := by
  rw [Finset.nonempty_iff_ne_empty, not_iff_not, Finset.eq_empty_iff_forall_notMem]
  constructor
  · intro hnone
    refine BitVec.eq_of_getLsbD_eq fun k _ => ?_
    simpa [mem_setBits_iff] using hnone k
  · rintro rfl k
    simp [mem_setBits_iff]

section Numbering

/-- The virtual id of a hart counts the harts of the machine before it. -/
theorem getVhartid_eq_count {h : Nat} (hh : h < 64) (cpuAffinity : Uint64) :
    (getVhartid (BitVec.ofNat 64 h) cpuAffinity).toNat = Nat.count (· ∈ setBits cpuAffinity) h := by
  have hnat : (BitVec.ofNat 64 h).toNat = h := by
    rw [BitVec.toNat_ofNat]
    omega
  rw [getVhartid_toNat, hnat, Nat.count]
  refine List.countP_congr fun k _ => ?_
  simp [mem_setBits_iff]

theorem getVhartid_renumbers (cpuAffinity : Uint64) :
    Renumbers (fun h => (getVhartid (BitVec.ofNat 64 h) cpuAffinity).toNat) (setBits cpuAffinity) := by
  refine (renumbers_count (setBits cpuAffinity)).congr fun h hh => ?_
  exact (getVhartid_eq_count (Finset.mem_range.mp (Finset.mem_filter.mp hh).1) cpuAffinity).symm

/-- `get_vhartid` renumbers the harts of a mask without gaps.  So the vcpus of a
machine have different virtual contexts, and one of them, where there are any, has
virtual id 0. -/
theorem vcpus_renumbered (cpuAffinity : Uint64) :
    Renumbers (fun h => (getVhartid (BitVec.ofNat 64 h) cpuAffinity).toNat) (setBits cpuAffinity) ∧
      ∀ conf : VmConfig, conf.cpuAffinity = cpuAffinity →
        Set.InjOn (fun h => 2 * (initVcpu (BitVec.ofNat 64 h) conf).vhartid + 1)
            (setBits cpuAffinity) ∧
          ((∃! h, h ∈ setBits cpuAffinity ∧ (initVcpu (BitVec.ofNat 64 h) conf).vhartid = 0) ↔
            cpuAffinity ≠ 0) := by
  have hnumbers := getVhartid_renumbers cpuAffinity
  refine ⟨hnumbers, ?_⟩
  rintro conf rfl
  have hlt : ∀ h, h ∈ setBits conf.cpuAffinity →
      (initVcpu (BitVec.ofNat 64 h) conf).vhartid.toNat < 64 := by
    intro h hmem
    have hh := Finset.mem_range.mp (Finset.mem_filter.mp hmem).1
    have hle := getVhartid_toNat_le (BitVec.ofNat 64 h) conf.cpuAffinity
    rw [BitVec.toNat_ofNat, Nat.mod_eq_of_lt (by omega)] at hle
    exact Nat.lt_of_le_of_lt hle hh
  constructor
  · intro h hmem h' hmem' heq
    apply hnumbers.increasing.injOn hmem hmem'
    have hvalue := congrArg BitVec.toNat heq
    have hbound := hlt h hmem
    have hbound' := hlt h' hmem'
    have hone : (1 : Uint64).toNat = 1 := rfl
    have htwo : (2 : Uint64).toNat = 2 := rfl
    simp only [BitVec.toNat_add, BitVec.toNat_mul, hone, htwo] at hvalue
    change (initVcpu (BitVec.ofNat 64 h) conf).vhartid.toNat =
      (initVcpu (BitVec.ofNat 64 h') conf).vhartid.toNat
    omega
  · rw [← setBits_nonempty_iff]
    constructor
    · rintro ⟨h, ⟨hmem, -⟩, -⟩
      exact ⟨h, hmem⟩
    · intro hnonempty
      obtain ⟨first, ⟨hmem, hzero⟩, hunique⟩ := hnumbers.existsUnique_zero hnonempty
      refine ⟨first, ⟨hmem, BitVec.eq_of_toNat_eq hzero⟩, ?_⟩
      rintro h ⟨hmem', hzero'⟩
      exact hunique h ⟨hmem', congrArg BitVec.toNat hzero'⟩

/-- The harts 1 and 3. -/
theorem vcpus_renumbered_sample :
    (∃! h, h ∈ setBits 10 ∧
        (initVcpu (BitVec.ofNat 64 h) { sampleConf with cpuAffinity := 10 }).vhartid = 0) ∧
      getVhartid 1 10 = 0 ∧ getVhartid 3 10 = 1 :=
  ⟨((vcpus_renumbered 10).2 { sampleConf with cpuAffinity := 10 } rfl).2.mpr (by decide),
    by decide, by decide⟩

end Numbering

section Counts

/-- The bits that the last round of `count_set_bits` tests at once. -/
def upperBits (num : Uint64) : Finset Nat := (setBits num).filter (31 ≤ ·)

theorem countSetBits_eq_card_add (num : Uint64) :
    countSetBits num = ((setBits num).filter (· < 31)).card +
      if (upperBits num).Nonempty then 1 else 0 := by
  have hlast : Probe num 31 ↔ (upperBits num).Nonempty := by
    rw [probe_last_iff]
    apply exists_congr
    intro k
    rw [upperBits, Finset.mem_filter, mem_setBits_iff, and_comm]
  have hlower : ((Finset.range 31).filter fun k => Probe num k) = (setBits num).filter (· < 31) := by
    ext k
    simp only [Finset.mem_filter, Finset.mem_range, mem_setBits_iff]
    constructor
    · rintro ⟨hk, hprobe⟩
      exact ⟨(probe_iff hk).mp hprobe, hk⟩
    · rintro ⟨hbit, hk⟩
      exact ⟨hk, (probe_iff hk).mpr hbit⟩
  rw [countSetBits_eq, Finset.range_add_one, Finset.filter_insert]
  split
  · rename_i hprobe
    rw [if_pos (hlast.mp hprobe), Finset.card_insert_of_notMem (by simp), hlower]
  · rename_i hprobe
    rw [if_neg (hlast.not.mp hprobe), hlower, Nat.add_zero]

theorem card_setBits (num : Uint64) :
    (setBits num).card = ((setBits num).filter (· < 31)).card + (upperBits num).card := by
  rw [upperBits, ← Finset.card_filter_add_card_filter_not (· < 31)]
  simp only [not_lt]

theorem setBits_or (num num' : Uint64) : setBits (num ||| num') = setBits num ∪ setBits num' := by
  ext k
  simp [mem_setBits_iff]

theorem disjoint_setBits {num num' : Uint64} (h : num &&& num' = 0) :
    Disjoint (setBits num) (setBits num') := by
  rw [Finset.disjoint_left]
  intro k hk hk'
  rw [mem_setBits_iff] at hk hk'
  have hand : (num &&& num').getLsbD k = true := by rw [BitVec.getLsbD_and, hk, hk', Bool.and_true]
  rw [h] at hand
  simp at hand

/-- `count_set_bits` counts right as long as at most one of the bits from 31 on is
set, and it adds up where not both masks have such a bit. -/
theorem countSetBits_counts_iff (num : Uint64) :
    (countSetBits num = (setBits num).card ↔ (upperBits num).card ≤ 1) ∧
      ∀ num', num &&& num' = 0 →
        (countSetBits (num ||| num') = countSetBits num + countSetBits num' ↔
          upperBits num = ∅ ∨ upperBits num' = ∅) := by
  constructor
  · rw [countSetBits_eq_card_add, card_setBits, Nat.add_left_cancel_iff]
    rcases (upperBits num).eq_empty_or_nonempty with hempty | hnonempty
    · simp [hempty]
    · have hpos := hnonempty.card_pos
      rw [if_pos hnonempty]
      omega
  · intro num' hzero
    have hunion : upperBits (num ||| num') = upperBits num ∪ upperBits num' := by
      rw [upperBits, setBits_or, Finset.filter_union]
      rfl
    have hlower : ((setBits (num ||| num')).filter (· < 31)).card =
        ((setBits num).filter (· < 31)).card + ((setBits num').filter (· < 31)).card := by
      rw [setBits_or, Finset.filter_union, Finset.card_union_of_disjoint]
      exact Finset.disjoint_filter_filter (disjoint_setBits hzero)
    rw [countSetBits_eq_card_add, countSetBits_eq_card_add num, countSetBits_eq_card_add num', hlower]
    simp only [hunion, Finset.union_nonempty]
    rcases (upperBits num).eq_empty_or_nonempty with hempty | hnonempty
    · simp only [hempty, Finset.not_nonempty_empty, false_or, if_false, true_or, iff_true]
      omega
    · rcases (upperBits num').eq_empty_or_nonempty with hempty' | hnonempty'
      · simp only [hempty', Finset.not_nonempty_empty, or_false, if_false, or_true, iff_true]
        omega
      · simp only [hnonempty, hnonempty', if_true, hnonempty.ne_empty, hnonempty'.ne_empty,
          or_self, iff_false]
        omega

/-- Two masks within the lower half. -/
theorem countSetBits_counts_lower :
    countSetBits 0x80000001 = 2 ∧
      countSetBits (1 ||| 0x80000000) = countSetBits 1 + countSetBits 0x80000000 :=
  ⟨by decide, ((countSetBits_counts_iff 1).2 0x80000000 (by decide)).mpr (.inl (by decide))⟩

/-- Two bits of the upper half are counted once. -/
theorem countSetBits_miscounts :
    countSetBits 0x300000000 = 1 ∧ (setBits 0x300000000).card = 2 ∧
      (0x100000000 : Uint64) &&& 0x200000000 = 0 ∧
      countSetBits (0x100000000 ||| 0x200000000) ≠
        countSetBits 0x100000000 + countSetBits 0x200000000 := by
  decide

end Counts

end RiscvHypervisor.HartNumbering
