import RiscvHypervisor.KernelMemory

/-!
The page tables of `mem/vmem.c`, with `get_value` of `lib/bits.c`, and the
arithmetic of table entries.
-/

namespace RiscvHypervisor.PageTable

open RiscvHypervisor.EffectProgram
open RiscvHypervisor.MachineTypes
open RiscvHypervisor.OwnedMemory
open RiscvHypervisor.KernelMemory

/-- `mask = mask << 1 | 1`, `bits` times. -/
def getValueMask : Nat → Uint64 → Uint64
  | 0, mask => mask
  | bits + 1, mask => getValueMask bits (mask <<< 1 ||| 1)

def getValue (val : Uint64) (offset bits : Int) : Uint64 :=
  if offset < 0 ∨ 63 < offset then
    -1
  else if bits < 0 ∨ 63 < bits then
    -1
  else
    val >>> offset.toNat &&& getValueMask bits.toNat 0

def va2idx (va : Uint64) (level : Nat) (x4 : Int) : Uint64 :=
  if level = levels - 1 ∧ x4 ≠ 0 then
    getValue va (level * 9 + pageShift) 11
  else
    getValue va (level * 9 + pageShift) 9

/-- The loop of `walk` from a table of the given level. -/
def walkFrom (va : Uint64) (alloc x4 : Int) : Nat → Uint64 → KernelM Uint64
  | 0, kpa => pure (slot kpa (va2idx va 0 x4))
  | level + 1, kpa => do
      let pte := slot kpa (va2idx va (level + 1) x4)
      let entry ← load pte
      if entry &&& pteV ≠ 0 then
        walkFrom va alloc x4 level (pa2kpa (pte2pa entry))
      else if alloc = 0 then
        pure 0
      else
        let page ← kmalloc
        if page = 0 then
          pure 0
        else
          memset page 4096
          store pte (pa2pte (kpa2pa page) ||| pteV)
          walkFrom va alloc x4 level page

def walk (pgtable va : Uint64) (alloc x4 : Int) : KernelM Uint64 :=
  if pgtable = 0 then
    .panic "root page table doesn't exist"
  else
    walkFrom va alloc x4 (levels - 1) pgtable

/-- `PA2PTE(pa) | pte_flags | PTE_V`, with `pte_flags` an `int`. -/
def leafEntry (pa : Uint64) (pteFlags : Int) : Uint64 :=
  pa2pte pa ||| BitVec.ofInt 64 pteFlags ||| pteV

def mapPage (pgtable va pa : Uint64) (pteFlags x4 : Int) : KernelM Int := do
  let leaf ← walk pgtable va 1 x4
  if leaf = 0 then
    pure (-1)
  else
    let entry ← load leaf
    if entry &&& pteV ≠ 0 then
      .panic "tried to remap page"
    else
      store leaf (leafEntry pa pteFlags)
      pure 0

/-- The frame for the page at offset `i`: one from `kmalloc` when `pa` is null. -/
def frameFor (pa i : Uint64) : KernelM Uint64 :=
  if pa = 0 then kpa2pa <$> kmalloc else pure (pa + i)

/-- The loop of `map_pages` with `pages` rounds left. -/
def mapPagesLoop (pgtable va pa : Uint64) (pteFlags x4 : Int) : Nat → Uint64 → KernelM Int
  | 0, _ => pure 0
  | pages + 1, i => do
      let tmp ← frameFor pa i
      let rv ← mapPage pgtable (va + i) tmp pteFlags x4
      if rv < 0 then
        pure (-1)
      else
        mapPagesLoop pgtable va pa pteFlags x4 pages (i + pageSize)

def mapPages (pgtable va pa size : Uint64) (pteFlags x4 : Int) : KernelM Int :=
  mapPagesLoop pgtable va pa pteFlags x4 ((pgroundup size).toNat / 4096) 0

def convertVaToPa (pgtable va : Uint64) (x4 : Int) : KernelM Uint64 := do
  let pte ← walk pgtable va 0 x4
  if pte = 0 then
    .panic s!"bad walk for va: 0x{va.toHex}"
  else
    let entry ← load pte
    let pagePa := pte2pa entry
    pure (pagePa ||| getValue va 0 12)

section Accesses

theorem neverPanics_walkFrom (va : Uint64) (alloc x4 : Int) (level : Nat) (kpa : Uint64) :
    (walkFrom va alloc x4 level kpa).NeverPanics := by
  induction level generalizing kpa with
  | zero => trivial
  | succ level ih =>
      rw [walkFrom]
      intro entry
      refine Program.neverPanics_ite (ih _) (Program.neverPanics_ite trivial ?_)
      refine neverPanics_kmalloc.bind fun page => Program.neverPanics_ite trivial ?_
      exact (neverPanics_memset page 4096).bind fun _ _ => ih page

theorem uses_walkFrom (va : Uint64) (alloc x4 : Int) (level : Nat) (kpa : Uint64) :
    (walkFrom va alloc x4 level kpa).Uses NoPush := by
  induction level generalizing kpa with
  | zero => trivial
  | succ level ih =>
      rw [walkFrom]
      refine ⟨trivial, fun entry => Program.uses_ite (ih _) (Program.uses_ite trivial ?_)⟩
      refine uses_kmalloc.bind fun page => Program.uses_ite trivial ?_
      exact (uses_memset (fun _ _ => trivial) page 4096).bind fun _ => ⟨trivial, fun _ => ih page⟩

theorem uses_walk (pgtable va : Uint64) (alloc x4 : Int) :
    (walk pgtable va alloc x4).Uses NoPush :=
  Program.uses_ite trivial (uses_walkFrom va alloc x4 _ pgtable)

theorem uses_mapPage (pgtable va pa : Uint64) (pteFlags x4 : Int) :
    (mapPage pgtable va pa pteFlags x4).Uses NoPush := by
  refine (uses_walk pgtable va 1 x4).bind fun leaf => Program.uses_ite trivial ?_
  exact ⟨trivial, fun entry => Program.uses_ite trivial ⟨trivial, fun _ => trivial⟩⟩

theorem neverPanics_frameFor (pa i : Uint64) : (frameFor pa i).NeverPanics :=
  Program.neverPanics_ite (neverPanics_kmalloc.bind fun _ => trivial) trivial

theorem uses_frameFor (pa i : Uint64) : (frameFor pa i).Uses NoPush :=
  Program.uses_ite (uses_kmalloc.bind fun _ => trivial) trivial

theorem uses_mapPages (pgtable va pa size : Uint64) (pteFlags x4 : Int) :
    (mapPages pgtable va pa size pteFlags x4).Uses NoPush := by
  have hloop : ∀ pages i, (mapPagesLoop pgtable va pa pteFlags x4 pages i).Uses NoPush := by
    intro pages
    induction pages with
    | zero => exact fun _ => trivial
    | succ pages ih =>
        intro i
        refine (uses_frameFor pa i).bind fun tmp => ?_
        exact (uses_mapPage pgtable _ tmp pteFlags x4).bind fun rv =>
          Program.uses_ite trivial (ih _)
  exact hloop _ 0

end Accesses

section Indices

theorem toNat_getValueMask (bits k : Nat) (hk : k + bits ≤ 63) (mask : Uint64)
    (hmask : mask.toNat = 2 ^ k - 1) :
    (getValueMask bits mask).toNat = 2 ^ (k + bits) - 1 := by
  induction bits generalizing k mask with
  | zero => exact hmask
  | succ bits ih =>
      rw [getValueMask, show k + (bits + 1) = k + 1 + bits by omega]
      refine ih (k + 1) (by omega) _ ?_
      have hlt : 2 ^ k ≤ 2 ^ 62 := Nat.pow_le_pow_right (by decide) (by omega)
      have hone : (1 : Uint64).toNat = 1 := rfl
      have hpos : 0 < 2 ^ k := Nat.two_pow_pos k
      have hor := Nat.two_pow_add_eq_or_of_lt (i := 1) (b := 1) (by decide) (2 ^ k - 1)
      rw [BitVec.toNat_or, BitVec.toNat_shiftLeft, hmask, hone, Nat.shiftLeft_eq,
        Nat.mod_eq_of_lt (by omega), Nat.mul_comm, ← hor, Nat.pow_succ]
      omega

/-- `get_value` is the field of the given number of bits. -/
theorem toNat_getValue (val : Uint64) (offset bits : Nat) (hoffset : offset ≤ 63)
    (hbits : bits ≤ 63) :
    (getValue val offset bits).toNat = val.toNat / 2 ^ offset % 2 ^ bits := by
  rw [getValue, if_neg (by omega), if_neg (by omega), BitVec.toNat_and, BitVec.toNat_ushiftRight,
    Int.toNat_natCast, Int.toNat_natCast, toNat_getValueMask bits 0 (by omega) 0 rfl,
    Nat.zero_add, Nat.and_two_pow_sub_one_eq_mod, Nat.shiftRight_eq_div_pow]

/-- How many entries a table of a level has. -/
def tableEntries (x4 : Int) (level : Nat) : Nat := if level = 2 ∧ x4 ≠ 0 then 2048 else 512

theorem toNat_va2idx (va : Uint64) {level : Nat} (hlevel : level ≤ 2) (x4 : Int) :
    (va2idx va level x4).toNat = va.toNat / 2 ^ (level * 9 + 12) % tableEntries x4 level := by
  have hcast : (level * 9 + pageShift : Int) = ((level * 9 + 12 : Nat) : Int) := by
    simp [pageShift]
  have hlast : levels - 1 = 2 := rfl
  by_cases hroot : level = 2 ∧ x4 ≠ 0
  · rw [va2idx, hlast, if_pos hroot, tableEntries, if_pos hroot, hcast]
    exact toNat_getValue va _ 11 (by omega) (by omega)
  · rw [va2idx, hlast, if_neg hroot, tableEntries, if_neg hroot, hcast]
    exact toNat_getValue va _ 9 (by omega) (by omega)

theorem va2idx_lt (va : Uint64) {level : Nat} (hlevel : level ≤ 2) (x4 : Int) :
    (va2idx va level x4).toNat < tableEntries x4 level := by
  rw [toNat_va2idx va hlevel]
  refine Nat.mod_lt _ ?_
  rw [tableEntries]
  split <;> decide

end Indices

section Entries

theorem toNat_kpa2pa {kpa : Uint64} (h : 0xffffffe000000000 ≤ kpa.toNat) :
    (kpa2pa kpa).toNat = kpa.toNat - 0xffffffe000000000 + 0x80000000 := by
  have hmask : (~~~vasRam).toNat = 2 ^ 37 - 1 := rfl
  rw [kpa2pa, BitVec.toNat_add, BitVec.toNat_and, hmask, Nat.and_two_pow_sub_one_eq_mod,
    dtbMemory_toNat]
  omega

theorem toNat_pa2kpa {pa : Uint64} (hlow : 0x80000000 ≤ pa.toNat)
    (hhigh : pa.toNat - 0x80000000 < 2 ^ 37) :
    (pa2kpa pa).toNat = pa.toNat - 0x80000000 + 0xffffffe000000000 := by
  have hsub : (pa - dtbMemory).toNat = pa.toNat - 0x80000000 := by
    rw [BitVec.toNat_sub, dtbMemory_toNat]
    omega
  have hor := Nat.two_pow_add_eq_or_of_lt hhigh (2 ^ 27 - 1)
  rw [pa2kpa, BitVec.toNat_or, hsub, vasRam_toNat, Nat.or_comm,
    show 0xffffffe000000000 = 2 ^ 37 * (2 ^ 27 - 1) by decide, ← hor]
  omega

theorem toNat_pa2pte (pa : Uint64) : (pa2pte pa).toNat = pa.toNat / 4096 * 1024 := by
  have hlt := pa.isLt
  rw [pa2pte, BitVec.toNat_shiftLeft, BitVec.toNat_ushiftRight, Nat.shiftLeft_eq,
    Nat.shiftRight_eq_div_pow]
  omega

theorem toNat_pte2pa (pte : Uint64) :
    (pte2pa pte).toNat = pte.toNat / 1024 % 2 ^ 52 * 4096 := by
  rw [pte2pa, BitVec.toNat_shiftLeft, BitVec.toNat_ushiftRight, Nat.shiftLeft_eq,
    Nat.shiftRight_eq_div_pow]
  omega

theorem toNat_pa2pte_or (pa : Uint64) {flags : Uint64} (hflags : flags.toNat < 1024) :
    (pa2pte pa ||| flags).toNat = pa.toNat / 4096 * 1024 + flags.toNat := by
  have hor := Nat.two_pow_add_eq_or_of_lt (i := 10) hflags (pa.toNat / 4096)
  rw [BitVec.toNat_or, toNat_pa2pte, Nat.mul_comm, ← hor]

theorem pteV_toNat : pteV.toNat = 1 := rfl

/-- The test of the `V` bit. -/
theorem and_pteV_eq_zero_iff (pte : Uint64) : pte &&& pteV = 0 ↔ pte.toNat % 2 = 0 := by
  rw [← BitVec.toNat_inj, BitVec.toNat_and, pteV_toNat, Nat.and_one_is_mod]
  rfl

theorem or_pteV_toNat_mod (pte : Uint64) : (pte ||| pteV).toNat % 2 = 1 := by
  rw [BitVec.toNat_or, pteV_toNat]
  simp

/-- The entry that refers to a table. -/
def link (page : Uint64) : Uint64 := pa2pte (kpa2pa page) ||| pteV

theorem link_and_pteV (page : Uint64) : link page &&& pteV ≠ 0 := by
  rw [ne_eq, and_pteV_eq_zero_iff, link, or_pteV_toNat_mod]
  decide

theorem toNat_link {dynamic : DynamicSymbol} {page : Uint64} (h : validAddress dynamic page) :
    (link page).toNat = (page.toNat - 0xffffffe000000000 + 0x80000000) / 4 + 1 := by
  have hlow := dynamic.le_toNat
  rw [validAddress_iff] at h
  rw [link, toNat_pa2pte_or _ (by decide), pteV_toNat, toNat_kpa2pa (by omega)]
  omega

/-- The walk comes back to the table that an entry refers to. -/
theorem pa2kpa_pte2pa_link {dynamic : DynamicSymbol} {page : Uint64} (h : validAddress dynamic page) :
    pa2kpa (pte2pa (link page)) = page := by
  have hlow := dynamic.le_toNat
  have hlink := toNat_link h
  rw [validAddress_iff] at h
  have hpa : (pte2pa (link page)).toNat = page.toNat - 0xffffffe000000000 + 0x80000000 := by
    rw [toNat_pte2pa, hlink]
    omega
  apply BitVec.eq_of_toNat_eq
  rw [toNat_pa2kpa (by omega) (by omega), hpa]
  omega

end Entries

end RiscvHypervisor.PageTable
