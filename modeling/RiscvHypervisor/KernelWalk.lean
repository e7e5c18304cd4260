import RiscvHypervisor.HardwareWalk

/-!
The first-stage walk of the architecture for Sv39, with superpages, and what it
finds in a tree of tables.
-/

namespace RiscvHypervisor.KernelWalk

open RiscvHypervisor.MachineTypes
open RiscvHypervisor.OwnedMemory
open RiscvHypervisor.KernelMemory
open RiscvHypervisor.PageTable
open RiscvHypervisor.TableTree
open RiscvHypervisor.PageMapping
open RiscvHypervisor.HardwareWalk

def sv39Vpn (va : Uint64) (level : Nat) : Uint64 := va >>> (12 + 9 * level) &&& 0x1ff

/-- The bits above bit 38 are copies of it. -/
def IsCanonical (va : Uint64) : Prop := va >>> 38 = 0 ∨ va >>> 38 = 0x3ffffff

instance (va : Uint64) : Decidable (IsCanonical va) := inferInstanceAs (Decidable (_ ∨ _))

/-- The bits of an address within a leaf of a level. -/
def offsetMask (level : Nat) : Uint64 := (1 : Uint64) <<< (12 + 9 * level) - 1

/-- The page of an address under a leaf of a level.  The frame of a superpage has to
be aligned to its size. -/
def leafPage (va pte : Uint64) (level : Nat) : Option Uint64 :=
  if pteFrame pte &&& offsetMask level ≠ 0 then
    none
  else
    some (pteFrame pte ||| (va &&& offsetMask level &&& ~~~0xfff))

/-- What an entry leads to: a fault, a page with its leaf, or the next level. -/
def walkEntry (va pte : Uint64) (level : Nat) (next : Option (Uint64 × Uint64)) :
    Option (Uint64 × Uint64) :=
  if pte &&& pteV = 0 ∨ (pte &&& pteR = 0 ∧ pte &&& pteW ≠ 0) then
    none
  else if pte &&& (pteR ||| pteX) ≠ 0 then
    (leafPage va pte level).map fun page => (page, pte)
  else
    next

/-- The walk from the table of a level over the physical memory `read`. -/
def pageWalk (read : Uint64 → Uint64) (va : Uint64) : Nat → Uint64 → Option (Uint64 × Uint64)
  | 0, table => walkEntry va (read (table + sv39Vpn va 0 * 8)) 0 none
  | level + 1, table =>
      let pte := read (table + sv39Vpn va (level + 1) * 8)
      walkEntry va pte (level + 1) (pageWalk read va level (pteFrame pte))

/-- The tables that the walk reads, from the table of a level on. -/
def walkedTables (read : Uint64 → Uint64) (va : Uint64) : Nat → Uint64 → List Uint64
  | 0, table => [table]
  | level + 1, table =>
      let pte := read (table + sv39Vpn va (level + 1) * 8)
      table ::
        if pte &&& pteV = 0 ∨ (pte &&& pteR = 0 ∧ pte &&& pteW ≠ 0) ∨
            pte &&& (pteR ||| pteX) ≠ 0 then
          []
        else
          walkedTables read va level (pteFrame pte)

/-- The address is in the physical page, mapped by the leaf. -/
def Maps (read : Uint64 → Uint64) (root va page pte : Uint64) : Prop :=
  IsCanonical va ∧ pageWalk read va 2 root = some (page, pte)

section Bits

theorem sv39Vpn_eq_va2idx (va : Uint64) {level : Nat} (hlevel : level ≤ 2) :
    sv39Vpn va level = va2idx va level 0 := by
  apply BitVec.eq_of_toNat_eq
  have hsize : tableEntries 0 level = 512 := by simp [tableEntries]
  rw [toNat_va2idx va hlevel, hsize, sv39Vpn, toNat_and_mask va _ 9 _ rfl, Nat.add_comm 12,
    Nat.mul_comm 9]
  rfl

theorem isCanonical_iff (va : Uint64) :
    IsCanonical va ↔ va.toNat < 2 ^ 38 ∨ 2 ^ 64 - 2 ^ 38 ≤ va.toNat := by
  have hlt := va.isLt
  have hlow : (0 : Uint64).toNat = 0 := rfl
  have hhigh : (0x3ffffff : Uint64).toNat = 0x3ffffff := rfl
  rw [IsCanonical, ← BitVec.toNat_inj, ← BitVec.toNat_inj, BitVec.toNat_ushiftRight, hlow, hhigh,
    Nat.shiftRight_eq_div_pow]
  omega

/-- Bits among the ten low ones can be read off these. -/
theorem and_of_and_mask {x flags mask : Uint64} (h : x &&& 0x3ff = flags)
    (hmask : 0x3ff &&& mask = mask) : x &&& mask = flags &&& mask := by
  calc x &&& mask = x &&& (0x3ff &&& mask) := by rw [hmask]
    _ = x &&& 0x3ff &&& mask := (BitVec.and_assoc _ _ _).symm
    _ = flags &&& mask := by rw [h]

theorem link_and_mask {dynamic : DynamicSymbol} {page : Uint64} (h : validAddress dynamic page) :
    link page &&& 0x3ff = 1 := by
  have hlow := dynamic.le_toNat
  have hlink := toNat_link h
  have hone : (1 : Uint64).toNat = 1 := rfl
  rw [validAddress_iff] at h
  apply BitVec.eq_of_toNat_eq
  rw [BitVec.toNat_and, show (0x3ff : Uint64).toNat = 2 ^ 10 - 1 from rfl,
    Nat.and_two_pow_sub_one_eq_mod, hlink, hone]
  omega

/-- An entry for a table leads to the table. -/
theorem walkEntry_link {dynamic : DynamicSymbol} {page : Uint64} (h : validAddress dynamic page)
    (va : Uint64) (level : Nat) (next : Option (Uint64 × Uint64)) :
    walkEntry va (link page) level next = next := by
  have hflags := link_and_mask h
  have hw : link page &&& pteW = 0 := and_of_and_mask hflags (by decide)
  have hrx : link page &&& (pteR ||| pteX) = 0 := and_of_and_mask hflags (by decide)
  have hvalid := link_and_pteV page
  rw [walkEntry, if_neg (not_or.mpr ⟨hvalid, fun hfault => hfault.2 hw⟩),
    if_neg (not_not.mpr hrx)]

theorem walkEntry_invalid {pte : Uint64} (h : pte &&& pteV = 0) (va : Uint64) (level : Nat)
    (next : Option (Uint64 × Uint64)) : walkEntry va pte level next = none :=
  if_pos (.inl h)

theorem leafPage_zero (va pte : Uint64) : leafPage va pte 0 = some (pteFrame pte) := by
  have hmask : (offsetMask 0).toNat = 2 ^ 12 - 1 := rfl
  have hzero : (0 : Uint64).toNat = 0 := rfl
  have haligned : pteFrame pte &&& offsetMask 0 = 0 := by
    apply BitVec.eq_of_toNat_eq
    rw [BitVec.toNat_and, hmask, Nat.and_two_pow_sub_one_eq_mod, toNat_pteFrame, hzero]
    omega
  have hpage : va &&& offsetMask 0 &&& ~~~0xfff = 0 := by
    rw [BitVec.and_assoc, show offsetMask 0 &&& ~~~0xfff = 0 by decide]
    exact BitVec.and_zero
  rw [leafPage, if_neg (not_not.mpr haligned), hpage]
  exact congrArg some BitVec.or_zero

/-- A readable leaf for a single page leads to its frame. -/
theorem walkEntry_leaf {pte flags : Uint64} (h : pte &&& 0x3ff = flags ||| pteV)
    (hr : flags &&& pteR ≠ 0) (va : Uint64) :
    walkEntry va pte 0 none = some (pteFrame pte, pte) := by
  have hbits : ∀ x y z : Uint64, (x ||| y) &&& z = (x &&& z) ||| (y &&& z) := by
    intro x y z
    rw [BitVec.and_comm, BitVec.and_or_distrib_left, BitVec.and_comm z x, BitVec.and_comm z y]
  have hv : pte &&& pteV ≠ 0 := by
    rw [and_of_and_mask h (by decide), hbits, BitVec.and_self]
    intro hzero
    exact absurd (BitVec.or_eq_zero_iff.mp hzero).2 (by decide)
  have hread : pte &&& pteR ≠ 0 := by
    rw [and_of_and_mask h (by decide), hbits]
    intro hzero
    exact hr (BitVec.or_eq_zero_iff.mp hzero).1
  have hrx : pte &&& (pteR ||| pteX) ≠ 0 := by
    rw [BitVec.and_or_distrib_left]
    intro hzero
    exact hread (BitVec.or_eq_zero_iff.mp hzero).1
  rw [walkEntry, if_neg (not_or.mpr ⟨hv, fun hfault => hread hfault.1⟩), if_pos hrx,
    leafPage_zero, Option.map_some]

end Bits

section Trees

variable {dynamic : DynamicSymbol} {root : Uint64} {home : Set Uint64} {T : Tables}
  {l : Share Uint64} {mem : Uint64 → Uint64}

theorem validAddress_of_table (hroot : validAddress dynamic root)
    (h : TreeInv dynamic 0 root home T l) {level key : Nat} {page : Uint64} (hlevel : level ≤ 2)
    (hpage : T level key = some page) : validAddress dynamic page := by
  rcases Nat.lt_or_eq_of_le hlevel with hlt | rfl
  · exact h.valid level hlt key page hpage
  · obtain ⟨-, rfl⟩ := (h.root_iff key page).mp hpage
    exact hroot

/-- The walk ends at the entry of the address in the last-level table of the tree. -/
theorem pageWalk_eq (hroot : validAddress dynamic root) (h : TreeInv dynamic 0 root home T l)
    (hmem : ∀ a, l.Owns (kernelLayout dynamic) home a → mem a = l.view a) (va : Uint64)
    {level key : Nat} {page : Uint64} (hlevel : level ≤ 2) (hpage : T level key = some page) :
    pageWalk (physRead dynamic mem) va level (kpa2pa page) =
      (T 0 (leafKey va 0 level key)).bind fun leaf =>
        walkEntry va (l.view (slot leaf (va2idx va 0 0))) 0 none := by
  have hsize : ∀ level, tableEntries 0 level = 512 := fun level => by simp [tableEntries]
  induction level generalizing key page with
  | zero =>
      have hidx := va2idx_lt va hlevel 0
      have howns := h.owns hlevel hpage (slot_mem_words hidx)
      rw [hsize] at hidx
      rw [pageWalk, sv39Vpn_eq_va2idx va hlevel,
        physRead_page mem (validAddress_of_table hroot h hlevel hpage) hidx, hmem _ howns, leafKey,
        hpage]
      rfl
  | succ level ih =>
      have hidx := va2idx_lt va hlevel 0
      have howns := h.owns hlevel hpage (slot_mem_words hidx)
      have hentry := h.entry level (by omega) key page hpage _ hidx
      rw [hsize] at hidx
      simp only [pageWalk, sv39Vpn_eq_va2idx va hlevel,
        physRead_page mem (validAddress_of_table hroot h hlevel hpage) hidx, hmem _ howns, leafKey]
      cases hchild : T level (512 * key + (va2idx va (level + 1) 0).toNat) with
      | none =>
          rw [hchild] at hentry
          rw [leafKey_none h va (by omega) hchild]
          exact walkEntry_invalid hentry va _ _
      | some child =>
          rw [hchild] at hentry
          have hvalid := h.valid level (by omega) _ child hchild
          rw [hentry, walkEntry_link hvalid, pteFrame_link hvalid]
          exact ih (by omega) hchild

/-- The walk reads tables of the tree only. -/
theorem walkedTables_cases (hroot : validAddress dynamic root)
    (h : TreeInv dynamic 0 root home T l)
    (hmem : ∀ a, l.Owns (kernelLayout dynamic) home a → mem a = l.view a) (va : Uint64)
    {level key : Nat} {page table : Uint64} (hlevel : level ≤ 2) (hpage : T level key = some page)
    (htable : table ∈ walkedTables (physRead dynamic mem) va level (kpa2pa page)) :
    ∃ level' ≤ 2, ∃ key' page', T level' key' = some page' ∧ table = kpa2pa page' := by
  have hsize : ∀ level, tableEntries 0 level = 512 := fun level => by simp [tableEntries]
  induction level generalizing key page with
  | zero =>
      rw [walkedTables, List.mem_singleton] at htable
      exact ⟨0, hlevel, key, page, hpage, htable⟩
  | succ level ih =>
      have hidx := va2idx_lt va hlevel 0
      have howns := h.owns hlevel hpage (slot_mem_words hidx)
      have hentry := h.entry level (by omega) key page hpage _ hidx
      rw [hsize] at hidx
      simp only [walkedTables, sv39Vpn_eq_va2idx va hlevel,
        physRead_page mem (validAddress_of_table hroot h hlevel hpage) hidx, hmem _ howns,
        List.mem_cons] at htable
      rcases htable with rfl | htable
      · exact ⟨level + 1, hlevel, key, page, hpage, rfl⟩
      · split at htable
        · cases htable
        · rename_i hnext
          cases hchild : T level (512 * key + (va2idx va (level + 1) 0).toNat) with
          | none =>
              rw [hchild] at hentry
              exact absurd (.inl hentry) hnext
          | some child =>
              rw [hchild] at hentry
              have hvalid := h.valid level (by omega) _ child hchild
              rw [hentry, pteFrame_link hvalid] at htable
              exact ih (by omega) hchild htable

/-- What is mapped by a tree, by way of its translation. -/
theorem maps_iff (hroot : validAddress dynamic root) (h : TreeInv dynamic 0 root home T l)
    (hmem : ∀ a, l.Owns (kernelLayout dynamic) home a → mem a = l.view a)
    (va page pte : Uint64) :
    Maps (physRead dynamic mem) (kpa2pa root) va page pte ↔ IsCanonical va ∧
      ∃ leaf, translation T l.view (pageIndex 0 va) = some leaf ∧
        walkEntry va leaf 0 none = some (page, pte) := by
  rw [Maps, pageWalk_eq hroot h hmem va (Nat.le_refl 2) ((h.root_iff 0 root).mpr ⟨rfl, rfl⟩),
    translation_pageIndex]
  apply and_congr_right
  intro _
  cases hleaf : T 0 (leafKey va 0 2 0) with
  | none => simp
  | some table =>
      simp only [Option.bind_some]
      split
      · rename_i hinvalid
        rw [walkEntry_invalid hinvalid]
        simp
      · simp

end Trees

end RiscvHypervisor.KernelWalk
