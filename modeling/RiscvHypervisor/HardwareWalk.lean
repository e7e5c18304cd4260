import RiscvHypervisor.PageMapping

/-!
The second-stage walk of the architecture over physical memory, for Sv39x4, and
what it finds in a tree of tables.
-/

namespace RiscvHypervisor.HardwareWalk

open RiscvHypervisor.MachineTypes
open RiscvHypervisor.OwnedMemory
open RiscvHypervisor.KernelMemory
open RiscvHypervisor.PageTable
open RiscvHypervisor.TableTree
open RiscvHypervisor.PageMapping

/-- The word at a physical address.  The kernel image is mapped where it is
linked, the rest of RAM at its linear addresses. -/
def physRead (dynamic : DynamicSymbol) (mem : Uint64 → Uint64) (pa : Uint64) : Uint64 :=
  if pa < kva2pa dynamic.addr then mem (pa2kva pa) else mem (pa2kpa pa)

/-- The physical page number of an entry, bits 10 to 53, as an address. -/
def pteFrame (pte : Uint64) : Uint64 := (pte >>> 10 &&& 0xfffffffffff) <<< 12

/-- The index into a table of the level; that of the root has 11 bits. -/
def vpn (gpa : Uint64) (level : Nat) : Uint64 :=
  if level = 2 then gpa >>> 30 &&& 0x7ff else gpa >>> (12 + 9 * level) &&& 0x1ff

/-- The level-0 entry that is reached through valid entries from the table of a
level. -/
def levelZeroEntry (dynamic : DynamicSymbol) (mem : Uint64 → Uint64) (gpa : Uint64) :
    Nat → Uint64 → Option Uint64
  | 0, table => some (physRead dynamic mem (table + vpn gpa 0 * 8))
  | level + 1, table =>
      let pte := physRead dynamic mem (table + vpn gpa (level + 1) * 8)
      if pte &&& pteV = 0 then none else levelZeroEntry dynamic mem gpa level (pteFrame pte)

/-- The level-0 entry of an address in the table at `root`. -/
def guestEntry (dynamic : DynamicSymbol) (mem : Uint64 → Uint64) (root gpa : Uint64) :
    Option Uint64 :=
  levelZeroEntry dynamic mem gpa 2 (kva2pa root)

/-- The physical addresses of the tables that a walk reads, from the table of a
level on. -/
def visitedTables (dynamic : DynamicSymbol) (mem : Uint64 → Uint64) (gpa : Uint64) :
    Nat → Uint64 → List Uint64
  | 0, table => [table]
  | level + 1, table =>
      let pte := physRead dynamic mem (table + vpn gpa (level + 1) * 8)
      table ::
        if pte &&& pteV = 0 then [] else visitedTables dynamic mem gpa level (pteFrame pte)

/-- The frame is one of the four of the root or one of a table below it. -/
def IsTablePage (dynamic : DynamicSymbol) (mem : Uint64 → Uint64) (root pa : Uint64) : Prop :=
  ((kva2pa root).toNat ≤ pa.toNat ∧ pa.toNat < (kva2pa root).toNat + 16384) ∨
    ∃ gpa, pa ∈ visitedTables dynamic mem gpa 2 (kva2pa root)

/-- The place of `vm_pgtable`: in the kernel image, aligned to its size. -/
structure IsRoot (dynamic : DynamicSymbol) (root : Uint64) : Prop where
  aligned : root % 16384 = 0
  lower : vasKernel ≤ root
  upper : root.toNat + 16384 ≤ dynamic.addr.toNat

section Arithmetic

theorem toNat_and_mask (x : Uint64) (offset bits : Nat) (mask : Uint64)
    (hmask : mask.toNat = 2 ^ bits - 1) :
    (x >>> offset &&& mask).toNat = x.toNat / 2 ^ offset % 2 ^ bits := by
  rw [BitVec.toNat_and, BitVec.toNat_ushiftRight, hmask, Nat.and_two_pow_sub_one_eq_mod,
    Nat.shiftRight_eq_div_pow]

theorem toNat_pteFrame (pte : Uint64) :
    (pteFrame pte).toNat = pte.toNat / 1024 % 2 ^ 44 * 4096 := by
  rw [pteFrame, BitVec.toNat_shiftLeft, toNat_and_mask pte 10 44 _ rfl, Nat.shiftLeft_eq]
  omega

theorem vpn_eq_va2idx (gpa : Uint64) {level : Nat} (hlevel : level ≤ 2) :
    vpn gpa level = va2idx gpa level 1 := by
  apply BitVec.eq_of_toNat_eq
  rw [toNat_va2idx gpa hlevel, vpn, tableEntries, Nat.add_comm 12, Nat.mul_comm 9]
  rcases eq_or_ne level 2 with rfl | hroot
  · rw [if_pos rfl, if_pos (by decide), toNat_and_mask gpa 30 11 _ rfl]
    rfl
  · rw [if_neg hroot, if_neg (by omega), toNat_and_mask gpa _ 9 _ rfl]
    rfl

theorem toNat_kva2pa {kva : Uint64} (h : 0xffffffc000000000 ≤ kva.toNat) :
    (kva2pa kva).toNat = kva.toNat - 0xffffffc000000000 + 0x80000000 := by
  rw [kva2pa, BitVec.toNat_add, BitVec.toNat_sub, vasKernel_toNat, dtbMemory_toNat]
  omega

/-- The frame of an entry for a table is where the table is. -/
theorem pteFrame_link {dynamic : DynamicSymbol} {page : Uint64}
    (h : validAddress dynamic page) : pteFrame (link page) = kpa2pa page := by
  have hlow := dynamic.le_toNat
  have hlink := toNat_link h
  rw [validAddress_iff] at h
  apply BitVec.eq_of_toNat_eq
  rw [toNat_pteFrame, hlink, toNat_kpa2pa (by omega)]
  omega

end Arithmetic

section Reads

variable {dynamic : DynamicSymbol}

theorem physRead_page (mem : Uint64 → Uint64) {page i : Uint64}
    (h : validAddress dynamic page) (hi : i.toNat < 512) :
    physRead dynamic mem (kpa2pa page + i * 8) = mem (slot page i) := by
  have hlow := dynamic.le_toNat
  have hend := toNat_kva2pa dynamic.le_toNat
  rw [validAddress_iff] at h
  have hpage : (kpa2pa page).toNat = page.toNat - 0xffffffe000000000 + 0x80000000 :=
    toNat_kpa2pa (by omega)
  have hpa : (kpa2pa page + i * 8).toNat = (kpa2pa page).toNat + 8 * i.toNat :=
    toNat_slot (by omega)
  rw [physRead, if_neg (by rw [BitVec.lt_def]; omega)]
  refine congrArg mem (BitVec.eq_of_toNat_eq ?_)
  rw [toNat_pa2kpa (by omega) (by omega), toNat_slot (by omega)]
  omega

theorem IsRoot.le_toNat {root : Uint64} (h : IsRoot dynamic root) :
    0xffffffc000000000 ≤ root.toNat := h.lower

theorem physRead_root (mem : Uint64 → Uint64) {root i : Uint64} (h : IsRoot dynamic root)
    (hi : i.toNat < 2048) :
    physRead dynamic mem (kva2pa root + i * 8) = mem (slot root i) := by
  have hlow := h.le_toNat
  have hupper := h.upper
  have hhigh := dynamic.toNat_le
  have hend := toNat_kva2pa dynamic.le_toNat
  have hroot := toNat_kva2pa hlow
  have hpa : (kva2pa root + i * 8).toNat = (kva2pa root).toNat + 8 * i.toNat :=
    toNat_slot (by omega)
  rw [physRead, if_pos (by rw [BitVec.lt_def]; omega)]
  refine congrArg mem (BitVec.eq_of_toNat_eq ?_)
  rw [pa2kva, BitVec.toNat_add, BitVec.toNat_sub, dtbMemory_toNat, vasKernel_toNat,
    toNat_slot (by omega)]
  omega

variable {root : Uint64} {home : Set Uint64} {T : Tables} {l : Share Uint64}

/-- The physical address of a table. -/
def tablePa (root : Uint64) (level : Nat) (page : Uint64) : Uint64 :=
  if level = 2 then kva2pa root else kpa2pa page

theorem physRead_table (hroot : IsRoot dynamic root) (h : TreeInv dynamic 1 root home T l)
    (mem : Uint64 → Uint64) {level key : Nat} {page i : Uint64} (hlevel : level ≤ 2)
    (hpage : T level key = some page) (hi : i.toNat < tableEntries 1 level) :
    physRead dynamic mem (tablePa root level page + i * 8) = mem (slot page i) := by
  rcases Nat.lt_or_eq_of_le hlevel with hlt | rfl
  · rw [TreeInv.tableEntries_of_lt hlt] at hi
    rw [tablePa, if_neg (by omega)]
    exact physRead_page mem (h.valid level hlt key page hpage) hi
  · obtain ⟨-, rfl⟩ := (h.root_iff key page).mp hpage
    rw [tablePa, if_pos rfl]
    exact physRead_root mem hroot hi

/-- The walk finds the slot of the address in the last-level table of the tree. -/
theorem levelZeroEntry_eq (hroot : IsRoot dynamic root) (h : TreeInv dynamic 1 root home T l)
    {mem : Uint64 → Uint64} (hmem : ∀ a, l.Owns (kernelLayout dynamic) home a → mem a = l.view a)
    (gpa : Uint64) {level key : Nat} {page : Uint64} (hlevel : level ≤ 2)
    (hpage : T level key = some page) :
    levelZeroEntry dynamic mem gpa level (tablePa root level page) =
      (T 0 (leafKey gpa 1 level key)).map fun leaf => l.view (slot leaf (va2idx gpa 0 1)) := by
  induction level generalizing key page with
  | zero =>
      have hidx := va2idx_lt gpa hlevel 1
      have howns := h.owns hlevel hpage (slot_mem_words hidx)
      rw [levelZeroEntry, vpn_eq_va2idx gpa hlevel, physRead_table hroot h mem hlevel hpage hidx,
        hmem _ howns, leafKey, hpage]
      rfl
  | succ level ih =>
      have hidx := va2idx_lt gpa hlevel 1
      have howns := h.owns hlevel hpage (slot_mem_words hidx)
      have hentry := h.entry level (by omega) key page hpage _ hidx
      simp only [levelZeroEntry, vpn_eq_va2idx gpa hlevel,
        physRead_table hroot h mem hlevel hpage hidx, hmem _ howns, leafKey]
      cases hchild : T level (512 * key + (va2idx gpa (level + 1) 1).toNat) with
      | none =>
          rw [hchild] at hentry
          rw [leafKey_none h gpa (by omega) hchild]
          exact if_pos hentry
      | some child =>
          rw [hchild] at hentry
          have hvalid := h.valid level (by omega) _ child hchild
          have hpa : pteFrame (link child) = tablePa root level child := by
            rw [pteFrame_link hvalid, tablePa, if_neg (by omega)]
          rw [hentry, if_neg (link_and_pteV child), hpa]
          exact ih (by omega) hchild

theorem visitedTables_cases (hroot : IsRoot dynamic root) (h : TreeInv dynamic 1 root home T l)
    {mem : Uint64 → Uint64} (hmem : ∀ a, l.Owns (kernelLayout dynamic) home a → mem a = l.view a)
    (gpa : Uint64) {level key : Nat} {page table : Uint64} (hlevel : level ≤ 2)
    (hpage : T level key = some page)
    (htable : table ∈ visitedTables dynamic mem gpa level (tablePa root level page)) :
    table = kva2pa root ∨
      ∃ level' < 2, ∃ key' page', T level' key' = some page' ∧ table = kpa2pa page' := by
  have hself : tablePa root level page = kva2pa root ∨
      ∃ level' < 2, ∃ key' page', T level' key' = some page' ∧
        tablePa root level page = kpa2pa page' := by
    rw [tablePa]
    split
    · exact .inl rfl
    · exact .inr ⟨level, by omega, key, page, hpage, rfl⟩
  induction level generalizing key page with
  | zero =>
      rw [visitedTables, List.mem_singleton] at htable
      exact htable ▸ hself
  | succ level ih =>
      have hidx := va2idx_lt gpa hlevel 1
      have howns := h.owns hlevel hpage (slot_mem_words hidx)
      have hentry := h.entry level (by omega) key page hpage _ hidx
      simp only [visitedTables, vpn_eq_va2idx gpa hlevel,
        physRead_table hroot h mem hlevel hpage hidx, hmem _ howns, List.mem_cons] at htable
      rcases htable with rfl | htable
      · exact hself
      · cases hchild : T level (512 * key + (va2idx gpa (level + 1) 1).toNat) with
        | none =>
            rw [hchild] at hentry
            have hinvalid : l.view (slot page (va2idx gpa (level + 1) 1)) &&& pteV = 0 := hentry
            rw [if_pos hinvalid] at htable
            cases htable
        | some child =>
            rw [hchild] at hentry
            have hvalid := h.valid level (by omega) _ child hchild
            have hpa : pteFrame (link child) = tablePa root level child := by
              rw [pteFrame_link hvalid, tablePa, if_neg (by omega)]
            rw [hentry, if_neg (link_and_pteV child), hpa] at htable
            refine ih (by omega) hchild htable (.inr ⟨level, by omega, _, child, hchild, ?_⟩)
            rw [tablePa, if_neg (by omega)]

/-- The entry of an address by way of the tree. -/
theorem guestEntry_eq (hroot : IsRoot dynamic root) (h : TreeInv dynamic 1 root home T l)
    {mem : Uint64 → Uint64} (hmem : ∀ a, l.Owns (kernelLayout dynamic) home a → mem a = l.view a)
    (gpa : Uint64) :
    guestEntry dynamic mem root gpa =
      (T 0 (leafKey gpa 1 2 0)).map fun leaf => l.view (slot leaf (va2idx gpa 0 1)) :=
  levelZeroEntry_eq hroot h hmem gpa (Nat.le_refl 2) ((h.root_iff 0 root).mpr ⟨rfl, rfl⟩)

end Reads

section Roots

variable {dynamic : DynamicSymbol} {root : Uint64}

theorem IsRoot.toNat_mod (h : IsRoot dynamic root) : root.toNat % 16384 = 0 := by
  have hmod := congrArg BitVec.toNat h.aligned
  rwa [BitVec.toNat_umod] at hmod

theorem IsRoot.disjoint_words (h : IsRoot dynamic root) (page : Uint64)
    (hpage : page.toNat + 4096 ≤ 0xffffffc000000000 ∨ dynamic.addr.toNat ≤ page.toNat)
    (hbound : page.toNat + 4096 ≤ 2 ^ 64) : Disjoint (words root 2048) (words page 512) := by
  have hlow := h.le_toNat
  have hupper := h.upper
  have hhigh := dynamic.toNat_le
  exact KernelMemory.disjoint_words (by omega) (by omega) (by omega)

/-- The tables of different virtual machines are apart. -/
theorem homes_of_isRoot {ι : Type} {roots : ι → Uint64} (h : ∀ i, IsRoot dynamic (roots i))
    (hinj : ∀ i j, roots i = roots j → i = j) :
    Homes (kernelLayout dynamic) fun i => words (roots i) 2048 where
  disjoint i j hij := by
    have hi := (h i).toNat_mod
    have hj := (h j).toNat_mod
    have hiupper := (h i).upper
    have hjupper := (h j).upper
    have hhigh := dynamic.toNat_le
    have hne := mt BitVec.eq_of_toNat_eq (mt (hinj i j) hij)
    exact KernelMemory.disjoint_words (by omega) (by omega) (by omega)
  disjoint_block i page hvalid := by
    have hpage := (validAddress_iff dynamic page).mp hvalid
    exact (h i).disjoint_words page (by omega) (by omega)
  disjoint_scratch i := by
    have hlow := (h i).le_toNat
    have hupper := (h i).upper
    have hhigh := dynamic.toNat_le
    exact disjoint_nullPage (by omega) (by omega)

theorem treeInv_zeroed (h : IsRoot dynamic root) {l : Share Uint64}
    (hzero : ∀ a ∈ words root 2048, l.view a = 0) :
    TreeInv dynamic 1 root (words root 2048) (rootOnly root) l := by
  have hsize : tableEntries 1 2 = 2048 := rfl
  have hupper := h.upper
  have hhigh := dynamic.toNat_le
  refine treeInv_rootOnly (by omega) (fun a ha => .inl ha) ?_ hzero
  exact h.disjoint_words 0 (.inl (by decide)) (by decide)

theorem translation_rootOnly (view : Uint64 → Uint64) :
    translation (rootOnly root) view = fun _ => none := by
  funext n
  simp [translation, rootOnly]

/-- At the start nobody holds a page. -/
theorem separated_of_freePages {ι : Type} {s : KernelMem} {free : List Uint64}
    (h : FreePages dynamic s free) (home : ι → Set Uint64) :
    Separated (kernelLayout dynamic) home s (fun _ => ⟨s.mem, []⟩) free where
  agree _ _ _ := rfl
  linked := h.linked
  nodup := h.nodup
  free_valid := h.valid
  block_valid _ _ hp := by simp at hp
  block_not_free _ _ hp := by simp at hp
  block_disjoint _ _ _ _ hp := by simp at hp

end Roots

end RiscvHypervisor.HardwareWalk
