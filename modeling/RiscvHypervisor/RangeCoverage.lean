import RiscvHypervisor.PageUpdate

/-!
Which part of a range `map_pages` maps.  The loop counts the pages of the rounded
size from the page of `va` on, so the end of a range that does not start at a page
boundary may be left out.
-/

namespace RiscvHypervisor.RangeCoverage

open RiscvHypervisor.EffectProgram
open RiscvHypervisor.MachineTypes
open RiscvHypervisor.OwnedMemory
open RiscvHypervisor.KernelMemory
open RiscvHypervisor.PageTable
open RiscvHypervisor.TableTree
open RiscvHypervisor.PageMapping
open RiscvHypervisor.AddressTranslation
open RiscvHypervisor.PageUpdate

/-- The table has a valid leaf for the address, with the given translation and
flags. -/
def Translates (x4 : Int) (root : Uint64) (s : KernelMem) (x : Uint64) (target : Nat)
    (pteFlags : Int) : Prop :=
  ∃ leaf, (exec heapHandler (findLeaf root x x4) s).1 = .ok (some leaf) ∧
    (pte2pa leaf).toNat + x.toNat % 4096 = target ∧
    leaf &&& 0x3ff = BitVec.ofInt 64 pteFlags ||| pteV

def InRange (va size x : Uint64) : Prop :=
  va.toNat ≤ x.toNat ∧ x.toNat < va.toNat + size.toNat

/-- Every byte of the range is mapped as it should be. -/
def Covers (x4 : Int) (root : Uint64) (s : KernelMem) (va pa size : Uint64)
    (pteFlags : Int) : Prop :=
  ∀ x, InRange va size x →
    Translates x4 root s x (pa.toNat + (x.toNat - va.toNat)) pteFlags

/-- The page of the byte is one of those that the loop counts. -/
def Reached (va size x : Uint64) : Prop :=
  x.toNat / 4096 < va.toNat / 4096 + (pgroundup size).toNat / 4096

/-- A range that fits into the pages of its rounded size is reached as a whole. -/
theorem reached_of_fits {va size x : Uint64}
    (h : va.toNat % 4096 + size.toNat ≤ (pgroundup size).toNat) (hx : InRange va size x) :
    Reached va size x := by
  obtain ⟨hlow, hhigh⟩ := hx
  have hmod := toNat_pgroundup_mod size
  rw [Reached]
  omega

section Leaves

theorem leafEntry_and_mask (pa : Uint64) {pteFlags : Int} (hlow : 0 ≤ pteFlags)
    (hhigh : pteFlags < 1024) :
    leafEntry pa pteFlags &&& 0x3ff = BitVec.ofInt 64 pteFlags ||| pteV := by
  have hflags := toNat_flags_lt hlow hhigh
  apply BitVec.eq_of_toNat_eq
  rw [BitVec.toNat_and, show (0x3ff : Uint64).toNat = 2 ^ 10 - 1 from rfl,
    Nat.and_two_pow_sub_one_eq_mod, leafEntry, BitVec.or_assoc, toNat_pa2pte_or pa hflags]
  omega

/-- The leaves for consecutive frames. -/
theorem mem_mappings_linear_iff (x4 : Int) (va pa : Uint64) (pteFlags : Int) (pages : Nat)
    (i : Uint64) (n : Nat) (leaf : Uint64) :
    (n, leaf) ∈ mappings x4 va pteFlags (linear pa pages i) i ↔
      ∃ k < pages, n = pageIndex x4 (va + (i + BitVec.ofNat 64 (4096 * k))) ∧
        leaf = leafEntry (pa + (i + BitVec.ofNat 64 (4096 * k))) pteFlags := by
  induction pages generalizing i with
  | zero => simp [linear, mappings]
  | succ pages ih =>
      have hnext : ∀ k, i + pageSize + BitVec.ofNat 64 (4096 * k) =
          i + BitVec.ofNat 64 (4096 * (k + 1)) := by
        intro k
        rw [BitVec.add_assoc, show pageSize = BitVec.ofNat 64 4096 from rfl, ← BitVec.ofNat_add,
          Nat.mul_succ, Nat.add_comm]
      have hfirst : i + BitVec.ofNat 64 (4096 * 0) = i := BitVec.add_zero i
      rw [linear, mappings, List.mem_cons, Prod.mk.injEq, ih]
      constructor
      · rintro (⟨rfl, rfl⟩ | ⟨k, hk, rfl, rfl⟩)
        · exact ⟨0, Nat.succ_pos pages, by rw [hfirst], by rw [hfirst]⟩
        · exact ⟨k + 1, by omega, by rw [hnext], by rw [hnext]⟩
      · rintro ⟨k, hk, rfl, rfl⟩
        cases k with
        | zero => exact .inl ⟨by rw [hfirst], by rw [hfirst]⟩
        | succ k => exact .inr ⟨k, by omega, by rw [hnext], by rw [hnext]⟩

theorem toNat_add_pages {a : Uint64} {k : Nat} (h : a.toNat / 4096 + k < 2 ^ 52) :
    (a + (0 + BitVec.ofNat 64 (4096 * k))).toNat = a.toNat + 4096 * k := by
  have hzero : 0 + BitVec.ofNat 64 (4096 * k) = BitVec.ofNat 64 (4096 * k) := BitVec.zero_add _
  rw [hzero, BitVec.toNat_add, BitVec.toNat_ofNat]
  omega

end Leaves

section Coverage

/-- A range with the offset of its frames, and no overflow. -/
structure Aligned (va pa size : Uint64) : Prop where
  offset : pa.toNat % 4096 = va.toNat % 4096
  virt : va.toNat + size.toNat ≤ 2 ^ 64
  phys : pa.toNat + size.toNat ≤ 2 ^ 64

variable {x4 : Int} {va pa size x : Uint64} {pteFlags : Int}

theorem exists_leaf_of_reached (h : Aligned va pa size) (hlow : 0 ≤ pteFlags)
    (hhigh : pteFlags < 1024) (hx : InRange va size x) (hreached : Reached va size x) :
    ∃ leaf, (pageIndex x4 x, leaf) ∈ mappings x4 va pteFlags
        (linear pa ((pgroundup size).toNat / 4096) 0) 0 ∧
      (pte2pa leaf).toNat + x.toNat % 4096 = pa.toNat + (x.toNat - va.toNat) ∧
      leaf &&& 0x3ff = BitVec.ofInt 64 pteFlags ||| pteV := by
  obtain ⟨hstart, hend⟩ := hx
  have hoffset := h.offset
  have hphys := h.phys
  have hlt := x.isLt
  rw [Reached] at hreached
  obtain ⟨k, hk⟩ : ∃ k, x.toNat / 4096 = va.toNat / 4096 + k := ⟨_, (Nat.add_sub_cancel' (by omega)).symm⟩
  have hva := toNat_add_pages (a := va) (k := k) (by omega)
  have hpa := toNat_add_pages (a := pa) (k := k) (by omega)
  refine ⟨leafEntry (pa + (0 + BitVec.ofNat 64 (4096 * k))) pteFlags, ?_, ?_,
    leafEntry_and_mask _ hlow hhigh⟩
  · rw [mem_mappings_linear_iff]
    refine ⟨k, by omega, ?_, rfl⟩
    rw [pageIndex_eq, pageIndex_eq, hva]
    congr 1
    omega
  · rw [toNat_pte2pa_leafEntry _ hlow hhigh, hpa]
    omega

/-- No leaf of the loop is the one for a byte that the loop does not reach. -/
theorem pte2pa_ne_of_not_reached (h : Aligned va pa size) (hlow : 0 ≤ pteFlags)
    (hhigh : pteFlags < 1024) (hx : InRange va size x) (hnot : ¬ Reached va size x) {n : Nat}
    {leaf : Uint64} (hleaf : (n, leaf) ∈ mappings x4 va pteFlags
      (linear pa ((pgroundup size).toNat / 4096) 0) 0) :
    (pte2pa leaf).toNat + x.toNat % 4096 ≠ pa.toNat + (x.toNat - va.toNat) := by
  obtain ⟨hstart, hend⟩ := hx
  have hoffset := h.offset
  have hphys := h.phys
  have hlt := x.isLt
  rw [Reached] at hnot
  rw [mem_mappings_linear_iff] at hleaf
  obtain ⟨k, hk, -, rfl⟩ := hleaf
  rw [toNat_pte2pa_leafEntry _ hlow hhigh, toNat_add_pages (by omega)]
  omega

variable {dynamic : DynamicSymbol} {root : Uint64} {others : List Uint64} {s s' : KernelMem}

theorem translates_iff {home : Set Uint64} {T : Tables} {l l₀ : Share Uint64} {free : List Uint64}
    (h : Kept dynamic x4 root others s home T l l₀ free) (x : Uint64) (target : Nat)
    (pteFlags : Int) :
    Translates x4 root s x target pteFlags ↔
      ∃ leaf, translation T l.view (pageIndex x4 x) = some leaf ∧
        (pte2pa leaf).toNat + x.toNat % 4096 = target ∧
        leaf &&& 0x3ff = BitVec.ofInt 64 pteFlags ||| pteV := by
  simp only [Translates, h.exec_findLeaf, Except.ok.injEq]

/-- After a call that returned 0 the range is mapped as it should be exactly when
every byte beyond the pages that the loop counts was so before. -/
theorem mapPages_covers_iff (h : TableState dynamic x4 root others s) (hpa : pa ≠ 0)
    (hrange : Aligned va pa size) (hlow : 0 ≤ pteFlags) (hhigh : pteFlags < 1024)
    (hexec : exec heapHandler (mapPages root va pa size pteFlags x4) s = (.ok 0, s')) :
    Covers x4 root s' va pa size pteFlags ↔
      ∀ x, InRange va size x → Reached va size x ∨
        Translates x4 root s x (pa.toNat + (x.toNat - va.toNat)) pteFlags := by
  obtain ⟨home, T, l, l₀, free, hkept⟩ := h.kept
  obtain ⟨T', l', free', hkept', ⟨pas, hmapped⟩, -⟩ :=
    hkept.exec_mapPages va pa size pteFlags fun _ => trivial
  rw [hexec] at hkept' hmapped
  obtain ⟨-, hlength⟩ | ⟨-, hfail, -⟩ | ⟨hpanic, -⟩ := hmapped.result
  · have hinstall := hmapped.install
    rw [hmapped.mapped.given hpa, hlength] at hinstall
    have hleaves := installAll_eq_some hinstall
    constructor
    · intro hcovers x hx
      by_cases hreached : Reached va size x
      · exact .inl hreached
      · obtain ⟨leaf, hleaf, hframe, hflags⟩ := (translates_iff hkept' x _ _).mp (hcovers x hx)
        refine .inr ((translates_iff hkept x _ _).mpr ⟨leaf, ?_, hframe, hflags⟩)
        refine ((hleaves _ leaf).mp hleaf).resolve_left fun hin => ?_
        exact pte2pa_ne_of_not_reached hrange hlow hhigh hx hreached hin hframe
    · intro hmissed x hx
      rw [translates_iff hkept']
      rcases hmissed x hx with hreached | hbefore
      · obtain ⟨leaf, hin, hframe⟩ := exists_leaf_of_reached hrange hlow hhigh hx hreached
        exact ⟨leaf, (hleaves _ leaf).mpr (.inl hin), hframe⟩
      · obtain ⟨leaf, hleaf, hframe⟩ := (translates_iff hkept x _ _).mp hbefore
        exact ⟨leaf, (hleaves _ leaf).mpr (.inr hleaf), hframe⟩
  · cases hfail
  · cases hpanic

end Coverage

section Sample

theorem sampleMem_state : TableState sampleDynamic 1 sampleRoot [] sampleMem := .empty sampleMem_empty

/-- One page from a page boundary on. -/
theorem mapPages_covers_aligned :
    Covers 1 sampleRoot
      (exec heapHandler (mapPages sampleRoot 0x80000000 0x88000000 0x1000 30 1) sampleMem).2
      0x80000000 0x88000000 0x1000 30 := by
  have hok : (exec heapHandler (mapPages sampleRoot 0x80000000 0x88000000 0x1000 30 1)
      sampleMem).1.toOption = some 0 := by decide +kernel
  have hiff := mapPages_covers_iff sampleMem_state (by decide)
    ⟨by decide, by decide, by decide⟩ (by decide) (by decide) (exec_of_toOption heapHandler hok)
  exact hiff.mpr fun x hx => .inl (reached_of_fits (by decide) hx)

/-- One page that starts in the middle of a page: `map_pages` returns 0 and the
second half of the range is not mapped. -/
theorem mapPages_misses_tail :
    (exec heapHandler (mapPages sampleRoot 0x80000800 0x88000800 0x1000 30 1)
        sampleMem).1.toOption = some 0 ∧
      TableState sampleDynamic 1 sampleRoot [] sampleMem ∧
      Aligned 0x80000800 0x88000800 0x1000 ∧
      ¬ Covers 1 sampleRoot
        (exec heapHandler (mapPages sampleRoot 0x80000800 0x88000800 0x1000 30 1) sampleMem).2
        0x80000800 0x88000800 0x1000 30 := by
  have hok : (exec heapHandler (mapPages sampleRoot 0x80000800 0x88000800 0x1000 30 1)
      sampleMem).1.toOption = some 0 := by decide +kernel
  have hnone : (exec heapHandler (findLeaf sampleRoot 0x80001000 1)
      (exec heapHandler (mapPages sampleRoot 0x80000800 0x88000800 0x1000 30 1)
        sampleMem).2).1.toOption = some none := by decide +kernel
  refine ⟨hok, sampleMem_state, ⟨by decide, by decide, by decide⟩, fun hcovers => ?_⟩
  obtain ⟨leaf, hleaf, -⟩ := hcovers 0x80001000 ⟨by decide, by decide⟩
  rw [hleaf] at hnone
  cases hnone

end Sample

end RiscvHypervisor.RangeCoverage
