import RiscvHypervisor.AddressTranslation
import RiscvHypervisor.GuestIsolation
import RiscvHypervisor.TrapHandlers

/-!
`is_access_to_plic` against the table that `init_hs_pgtable` has built: a guest
page fault goes to the virtual PLIC exactly when the address is in its window.
-/

namespace RiscvHypervisor.FaultDispatch

open RiscvHypervisor.EffectProgram
open RiscvHypervisor.TransitionSystem
open RiscvHypervisor.MachineTypes
open RiscvHypervisor.GuestConfig
open RiscvHypervisor.OwnedMemory
open RiscvHypervisor.KernelMemory
open RiscvHypervisor.PageTable
open RiscvHypervisor.TableTree
open RiscvHypervisor.PageMapping
open RiscvHypervisor.HardwareWalk
open RiscvHypervisor.AddressTranslation
open RiscvHypervisor.GuestMemory
open RiscvHypervisor.GuestIsolation
open RiscvHypervisor.VirtualCpu
open RiscvHypervisor.TrapHandlers

/-- The frame that a leaf refers to is no page of the PLIC. -/
def OutsidePlic (leaf : Uint64) : Prop :=
  (pte2pa leaf).toNat + 4096 ≤ dtbPlic.toNat ∨
    dtbPlic.toNat + dtbPlicSize.toNat ≤ (pte2pa leaf).toNat

/-- The leaves of a range at `pa` refer to no page of the PLIC.  With a null `pa`
the frames come from `kmalloc`. -/
def RangeOutsidePlic (pa size : Uint64) (flags : Int) : Prop :=
  pa ≠ 0 → ∀ k < size.toNat / 4096, OutsidePlic (leafEntry (pa + BitVec.ofNat 64 (4096 * k)) flags)

/-- The machine has the device as its emulated PLIC, with flags that leave the
frames alone, and nothing else of it is mapped to the PLIC. -/
structure EmulatesPlic (conf : VmConfig) (dev : MmioDev) : Prop where
  phys : dev.physBase = dtbPlic
  size : dev.size = dtbPlicSize
  perm : dev.perm.toNat < 1024
  aligned : dev.virtBase % pageSize = 0
  bound : dev.virtBase.toNat + dtbPlicSize.toNat ≤ 2 ^ 41
  image : RangeOutsidePlic conf.imageBase (imageSize conf) (toInt guestFlags)
  others : ∃ before after, conf.devs = before ++ dev :: after ∧ ∀ other ∈ before ++ after,
    RangeOutsidePlic other.physBase (pgroundup other.size) (toInt (other.perm ||| pteU))

def InWindow (dev : MmioDev) (gpa : Uint64) : Prop :=
  dev.virtBase.toNat ≤ gpa.toNat ∧ gpa.toNat < dev.virtBase.toNat + dtbPlicSize.toNat

instance (dev : MmioDev) (gpa : Uint64) : Decidable (InWindow dev gpa) :=
  inferInstanceAs (Decidable (_ ∧ _))

section Leaves

theorem dtbPlic_toNat : dtbPlic.toNat = 0xc000000 := rfl

theorem dtbPlicSize_toNat : dtbPlicSize.toNat = 0x600000 := rfl

theorem dtbPlic_ne_zero : dtbPlic ≠ 0 := by decide

/-- Bit 31 of the frame stays in the leaf, whatever the flags are. -/
theorem outsidePlic_of_bit {pa : Uint64} (h : pa.getLsbD 31 = true) (flags : Int) :
    OutsidePlic (leafEntry pa flags) := by
  have hbit : (pte2pa (leafEntry pa flags)).getLsbD 31 = true := by
    simp [pte2pa, leafEntry, pa2pte, h]
  have hle := Nat.ge_two_pow_of_testBit hbit
  refine .inr ?_
  rw [dtbPlic_toNat, dtbPlicSize_toNat]
  omega

theorem getLsbD_of_ram {pa : Uint64} (hlow : 0x80000000 ≤ pa.toNat) (hhigh : pa.toNat < 0x100000000) :
    pa.getLsbD 31 = true := by
  rw [BitVec.getLsbD, Nat.testBit_eq_decide_div_mod_eq, decide_eq_true_eq]
  omega

/-- A page from `kmalloc` is in RAM, and so is what the null pointer becomes. -/
theorem outsidePlic_answer {dynamic : DynamicSymbol} {page : Uint64}
    (h : page = 0 ∨ validAddress dynamic page) (flags : Int) :
    OutsidePlic (leafEntry (kpa2pa page) flags) := by
  rcases h with rfl | h
  · exact outsidePlic_of_bit (by decide) flags
  · have hlow := dynamic.le_toNat
    rw [validAddress_iff] at h
    have hpa : (kpa2pa page).toNat = page.toNat - 0xffffffe000000000 + 0x80000000 :=
      toNat_kpa2pa (by omega)
    exact outsidePlic_of_bit (getLsbD_of_ram (by omega) (by omega)) flags

variable {dynamic : DynamicSymbol} {fails : Prop} {l l' : Share Uint64} {T : Tables}

/-- What a range that has nothing to do with the PLIC maps. -/
theorem outsidePlic_of_mapped {va pa size : Uint64} {flags : Int} {pas : List Uint64}
    (hmapped : Mapped dynamic fails pa (size.toNat / 4096) 0 l T l' pas)
    (hrange : RangeOutsidePlic pa size flags) {n : Nat} {leaf : Uint64}
    (h : (n, leaf) ∈ mappings 1 va flags pas 0) : OutsidePlic leaf := by
  obtain ⟨tmp, htmp, rfl⟩ := exists_of_mem_mappings h
  rcases eq_or_ne pa 0 with hpa | hpa
  · obtain ⟨answers, rfl, hanswers⟩ := hmapped.answered hpa
    obtain ⟨page, hpage, rfl⟩ := List.mem_map.mp htmp
    exact outsidePlic_answer ((hanswers page hpage).imp_right And.left) flags
  · rw [hmapped.given hpa] at htmp
    obtain ⟨k, hk⟩ := List.mem_iff_getElem?.mp htmp
    rw [getElem?_linear] at hk
    split at hk
    · rename_i hlt
      have hzero : 0 + BitVec.ofNat 64 (4096 * k) = BitVec.ofNat 64 (4096 * k) := BitVec.zero_add _
      rw [← Option.some.inj hk, hzero]
      exact hrange hpa k hlt
    · cases hk

theorem outsidePlic_of_mem_framedMappings {devs : List MmioDev} {devPas : List (List Uint64)}
    (hmapped : DevicesMapped dynamic fails l T l' devs devPas)
    (hrange : ∀ dev ∈ devs,
      RangeOutsidePlic dev.physBase (pgroundup dev.size) (toInt (dev.perm ||| pteU)))
    {n : Nat} {leaf : Uint64} (h : (n, leaf) ∈ framedMappings devs devPas) : OutsidePlic leaf := by
  induction hmapped with
  | nil => cases h
  | cons hdev _ ih =>
      rw [List.forall_mem_cons] at hrange
      rw [framedMappings, List.mem_append] at h
      rcases h with h | h
      · exact outsidePlic_of_mapped hdev hrange.1 h
      · exact ih hrange.2 h

theorem framedMappings_append {devs devs' : List MmioDev} {devPas devPas' : List (List Uint64)}
    (h : devs.length = devPas.length) : framedMappings (devs ++ devs') (devPas ++ devPas') =
      framedMappings devs devPas ++ framedMappings devs' devPas' := by
  induction devs generalizing devPas with
  | nil =>
      cases devPas with
      | nil => rfl
      | cons pas rest => cases h
  | cons dev devs ih =>
      cases devPas with
      | nil => cases h
      | cons pas rest =>
          simp only [List.cons_append, framedMappings, ih (Nat.succ.inj h), List.append_assoc]

end Leaves

section Table

variable {dynamic : DynamicSymbol} {fails : Prop} {l l' : Share Uint64} {T : Tables}

theorem forall₂_split {α β : Type} {R : α → β → Prop} {before after : List α} {a : α} {bs : List β}
    (h : List.Forall₂ R (before ++ a :: after) bs) :
    ∃ bs₁ b bs₂, bs = bs₁ ++ b :: bs₂ ∧ List.Forall₂ R before bs₁ ∧ R a b ∧
      List.Forall₂ R after bs₂ := by
  induction before generalizing bs with
  | nil =>
      obtain ⟨b, bs₂, hb, hrest, rfl⟩ := List.forall₂_cons_left_iff.mp h
      exact ⟨[], b, bs₂, rfl, .nil, hb, hrest⟩
  | cons x before ih =>
      obtain ⟨y, ys, hy, hrest, rfl⟩ := List.forall₂_cons_left_iff.mp h
      obtain ⟨bs₁, b, bs₂, rfl, hbefore, hb, hafter⟩ := ih hrest
      exact ⟨y :: bs₁, b, bs₂, rfl, .cons hy hbefore, hb, hafter⟩

/-- The leaf of page `k` of the window. -/
def plicLeaf (flags : Uint64) (k : Nat) : Uint64 :=
  leafEntry (dtbPlic + BitVec.ofNat 64 (4096 * k)) (toInt flags)

theorem toNat_pte2pa_plicLeaf {flags : Uint64} (hflags : flags.toNat < 1024) {k : Nat}
    (hk : k < 1536) : (pte2pa (plicLeaf flags k)).toNat = 0xc000000 + 4096 * k := by
  have hpa : (dtbPlic + BitVec.ofNat 64 (4096 * k)).toNat = 0xc000000 + 4096 * k := by
    rw [BitVec.toNat_add, BitVec.toNat_ofNat, dtbPlic_toNat]
    omega
  have hlow := toNat_or_pteV_lt hflags
  rw [toNat_pte2pa, plicLeaf, toNat_leafEntry _ hflags, hpa]
  omega

variable {conf : VmConfig} {dev : MmioDev} {image ram : List Uint64} {devPas : List (List Uint64)}

/-- The leaves of the emulated PLIC. -/
theorem mem_mappings_plic_iff (hplic : EmulatesPlic conf dev) {pas : List Uint64}
    (hmapped : Mapped dynamic fails dev.physBase ((pgroundup dev.size).toNat / 4096) 0 l T l' pas)
    (n : Nat) (leaf : Uint64) :
    (n, leaf) ∈ mappings 1 dev.virtBase (toInt (dev.perm ||| pteU)) pas 0 ↔
      ∃ k < 1536, n = dev.virtBase.toNat / 4096 + k ∧ leaf = plicLeaf (dev.perm ||| pteU) k := by
  have haligned := MemoryWellFormed.toNat_mod_of_aligned hplic.aligned
  have hbound := hplic.bound
  have hpages : (pgroundup dtbPlicSize).toNat / 4096 = 1536 := rfl
  rw [dtbPlicSize_toNat] at hbound
  rw [hmapped.given (hplic.phys ▸ dtbPlic_ne_zero), hplic.size, hpages, hplic.phys,
    mem_linear_mappings_iff _ haligned (by omega)]
  rfl

/-- The leaves of the table are those of the window, and others that have
nothing to do with the PLIC. -/
theorem mem_tableMappings_cases (hplic : EmulatesPlic conf dev)
    (himage : Mapped dynamic fails conf.imageBase ((imageSize conf).toNat / 4096) 0 l T l' image)
    (hram : Mapped dynamic fails 0 (ramPages conf) 0 l T l' ram)
    (hdevices : DevicesMapped dynamic fails l T l' conf.devs devPas) {n : Nat} {leaf : Uint64}
    (h : (n, leaf) ∈ tableMappings conf image ram devPas) :
    (∃ k < 1536, n = dev.virtBase.toNat / 4096 + k ∧ leaf = plicLeaf (dev.perm ||| pteU) k) ∨
      OutsidePlic leaf := by
  obtain ⟨before, after, hdevs, hothers⟩ := hplic.others
  rw [hdevs] at hdevices
  obtain ⟨pas₁, pas, pas₂, rfl, hbefore, hdev, hafter⟩ := forall₂_split hdevices
  have hnull : RangeOutsidePlic 0 (pgroundup (conf.memorySize - imageSize conf)) (toInt guestFlags) :=
    fun hne => absurd rfl hne
  rw [tableMappings, hdevs, framedMappings_append hbefore.length_eq, framedMappings, List.mem_append,
    List.mem_append, List.mem_append, List.mem_append, mem_mappings_plic_iff hplic hdev] at h
  rcases h with h | h | h | h | h
  · exact .inr (outsidePlic_of_mapped himage hplic.image h)
  · exact .inr (outsidePlic_of_mapped hram hnull h)
  · exact .inr (outsidePlic_of_mem_framedMappings hbefore
      (fun other hother => hothers other (List.mem_append_left _ hother)) h)
  · exact .inl h
  · exact .inr (outsidePlic_of_mem_framedMappings hafter
      (fun other hother => hothers other (List.mem_append_right _ hother)) h)

theorem mem_tableMappings_plicLeaf (hplic : EmulatesPlic conf dev)
    (hdevices : DevicesMapped dynamic fails l T l' conf.devs devPas) {k : Nat} (hk : k < 1536) :
    (dev.virtBase.toNat / 4096 + k, plicLeaf (dev.perm ||| pteU) k) ∈
      tableMappings conf image ram devPas := by
  obtain ⟨before, after, hdevs, -⟩ := hplic.others
  rw [hdevs] at hdevices
  obtain ⟨pas₁, pas, pas₂, rfl, hbefore, hdev, -⟩ := forall₂_split hdevices
  rw [tableMappings, hdevs, framedMappings_append hbefore.length_eq, framedMappings]
  refine List.mem_append_right _ (List.mem_append_right _ (List.mem_append_right _
    (List.mem_append_left _ ?_)))
  rw [mem_mappings_plic_iff hplic hdev]
  exact ⟨k, hk, rfl, rfl⟩

end Table

section Dispatch

variable {dynamic : DynamicSymbol} {root : Uint64} {home : Set Uint64} {T : Tables}
  {l : Share Uint64} {s : KernelMem}

/-- The level-0 entry of an address is a valid leaf or zero. -/
theorem guestEntry_cases (hroot : IsRoot dynamic root) (h : TreeInv dynamic 1 root home T l)
    (hmem : ∀ a, l.Owns (kernelLayout dynamic) home a → s.mem a = l.view a) {gpa pte : Uint64}
    (hpte : guestEntry dynamic s.mem root gpa = some pte) :
    (pte = 0 ∧ translation T l.view (pageIndex 1 gpa) = none) ∨
      translation T l.view (pageIndex 1 gpa) = some pte := by
  rw [guestEntry_eq hroot h hmem, Option.map_eq_some_iff] at hpte
  obtain ⟨page, hpage, rfl⟩ := hpte
  have hidx := va2idx_lt gpa (Nat.zero_le 2) 1
  rw [TreeInv.tableEntries_of_lt (by decide)] at hidx
  rw [translation_pageIndex, hpage]
  rcases h.leaf _ page hpage _ hidx with hzero | hvalid
  · refine .inl ⟨hzero, if_pos ?_⟩
    rw [hzero]
    exact BitVec.zero_and
  · exact .inr (if_neg hvalid)

/-- What `is_access_to_plic` returns, by the entry of the faulting address. -/
theorem exec_isAccessToPlic (hroot : IsRoot dynamic root) (h : TreeInv dynamic 1 root home T l)
    (hmem : ∀ a, l.Owns (kernelLayout dynamic) home a → s.mem a = l.view a) {vcpu : Vcpu}
    (hvcpu : vcpu.conf.vmPgtable = root) {htval : Uint64} {addr : Int} {s' : KernelMem}
    (hexec : exec heapHandler (isAccessToPlic vcpu htval) s = (.ok addr, s')) :
    ∃ pte, guestEntry dynamic s.mem root (htval <<< 2) = some pte ∧
      addr = if dtbPlic.toNat ≤ (pte2pa pte).toNat + (htval <<< 2).toNat % 4096 ∧
          (pte2pa pte).toNat + (htval <<< 2).toNat % 4096 < dtbPlic.toNat + dtbPlicSize.toNat then
        (((pte2pa pte).toNat + (htval <<< 2).toNat % 4096 : Nat) : Int) else 0 := by
  obtain ⟨pa, t, hpa, hrest⟩ := exists_of_exec_bind _ hexec
  have hconvert := exec_convertVaToPa hroot h hmem (htval <<< 2)
  rw [getPa, hvcpu] at hpa
  rw [hpa] at hconvert
  cases hentry : guestEntry dynamic s.mem root (htval <<< 2) with
  | none =>
      rw [hentry] at hconvert
      cases hconvert
  | some pte =>
      rw [hentry] at hconvert
      have hvalue := toNat_pte2pa_or_getValue pte (htval <<< 2)
      rw [← Except.ok.inj hconvert] at hvalue
      have hend : (dtbPlic + dtbPlicSize).toNat = dtbPlic.toNat + dtbPlicSize.toNat := rfl
      refine ⟨pte, rfl, ?_⟩
      simp only [BitVec.le_def, BitVec.lt_def, hend, hvalue] at hrest
      split at hrest
      · rename_i hin
        rw [show 4096 = 2 ^ 12 from rfl, if_pos hin, ← hvalue]
        rw [dtbPlic_toNat, dtbPlicSize_toNat] at hin
        cases hrest
        exact toInt_of_lt (by omega)
      · rename_i hout
        rw [show 4096 = 2 ^ 12 from rfl, if_neg hout]
        cases hrest
        rfl

/-- An address with a leaf can be translated. -/
theorem isAccessToPlic_returns (hroot : IsRoot dynamic root) (h : TreeInv dynamic 1 root home T l)
    (hmem : ∀ a, l.Owns (kernelLayout dynamic) home a → s.mem a = l.view a) {vcpu : Vcpu}
    (hvcpu : vcpu.conf.vmPgtable = root) {htval leaf : Uint64}
    (hleaf : translation T l.view (pageIndex 1 (htval <<< 2)) = some leaf) :
    ∃ addr s', exec heapHandler (isAccessToPlic vcpu htval) s = (.ok addr, s') := by
  have hconvert := exec_convertVaToPa hroot h hmem (htval <<< 2)
  cases hentry : guestEntry dynamic s.mem root (htval <<< 2) with
  | none =>
      rw [guestEntry_eq hroot h hmem, Option.map_eq_none_iff] at hentry
      rw [translation_pageIndex, hentry] at hleaf
      cases hleaf
  | some pte =>
      rw [hentry, ← hvcpu] at hconvert
      rw [isAccessToPlic, getPa, exec_bind_ok heapHandler (Prod.ext hconvert rfl)]
      split
      · exact ⟨_, _, rfl⟩
      · exact ⟨_, _, rfl⟩

theorem toNat_shift_two (gpa : Uint64) : (gpa >>> 2 <<< 2).toNat = gpa.toNat / 4 * 4 := by
  have hlt := gpa.isLt
  rw [BitVec.toNat_shiftLeft, BitVec.toNat_ushiftRight, Nat.shiftLeft_eq, Nat.shiftRight_eq_div_pow]
  omega

theorem toNat_and_not_three (x : Uint64) : (x &&& ~~~3).toNat = x.toNat / 4 * 4 := by
  rw [← toNat_shift_two]
  congr 1
  apply BitVec.eq_of_getLsbD_eq
  intro i hi
  have hmask : (3 : Uint64) = BitVec.ofNat 64 (2 ^ 2 - 1) := rfl
  rw [hmask, BitVec.getLsbD_and, BitVec.getLsbD_not, BitVec.getLsbD_ofNat,
    Nat.testBit_two_pow_sub_one, BitVec.getLsbD_shiftLeft, BitVec.getLsbD_ushiftRight]
  by_cases hlow : i < 2
  · simp [hi, hlow]
  · simp [hi, hlow, Nat.add_sub_cancel' (Nat.le_of_not_lt hlow)]

theorem isAccessToPlic_of_tree {conf : VmConfig} {dev : MmioDev} {fails : Prop} {l₀ : Share Uint64}
    {image ram : List Uint64} {devPas : List (List Uint64)} (hplic : EmulatesPlic conf dev)
    (hroot : IsRoot dynamic conf.vmPgtable) (htree : TreeInv dynamic 1 conf.vmPgtable home T l)
    (hmem : ∀ a, l.Owns (kernelLayout dynamic) home a → s.mem a = l.view a)
    (himage : Mapped dynamic fails conf.imageBase ((imageSize conf).toNat / 4096) 0 l₀ T l image)
    (hram : Mapped dynamic fails 0 (ramPages conf) 0 l₀ T l ram)
    (hdevices : DevicesMapped dynamic fails l₀ T l conf.devs devPas)
    (hinstall : installAll (tableMappings conf image ram devPas) (fun _ => none) =
      some (translation T l.view))
    {vcpu : Vcpu} (hvcpu : vcpu.conf = conf) {gpa : Uint64} (hgpa : gpa.toNat < 2 ^ 41) {addr : Int}
    {s' : KernelMem}
    (hexec : exec heapHandler (isAccessToPlic vcpu (gpa >>> 2)) s = (.ok addr, s')) :
    addr = if InWindow dev gpa then
      ((dtbPlic + (gpa - dev.virtBase &&& ~~~3)).toNat : Int) else 0 := by
  have hleaves := installAll_eq_some hinstall
  have haligned := MemoryWellFormed.toNat_mod_of_aligned hplic.aligned
  have hbound := hplic.bound
  have hgpa' := toNat_shift_two gpa
  have hindex : pageIndex 1 (gpa >>> 2 <<< 2) = gpa.toNat / 4096 := by
    rw [pageIndex_eq, pageCount_one, hgpa']
    omega
  obtain ⟨pte, hpte, rfl⟩ := exec_isAccessToPlic hroot htree hmem (hvcpu ▸ rfl) hexec
  have hentry := guestEntry_cases hroot htree hmem hpte
  rw [hindex] at hentry
  rw [dtbPlic_toNat, dtbPlicSize_toNat, hgpa']
  rw [dtbPlicSize_toNat] at hbound
  by_cases hin : InWindow dev gpa
  · -- the entry is the leaf of the window
    obtain ⟨hlow, hhigh⟩ := hin
    rw [dtbPlicSize_toNat] at hhigh
    obtain ⟨k, hk⟩ : ∃ k, gpa.toNat / 4096 = dev.virtBase.toNat / 4096 + k :=
      ⟨gpa.toNat / 4096 - dev.virtBase.toNat / 4096, by omega⟩
    have hlt : k < 1536 := by omega
    have hleaf : translation T l.view (gpa.toNat / 4096) =
        some (plicLeaf (dev.perm ||| pteU) k) := by
      rw [hk, hleaves]
      exact .inl (mem_tableMappings_plicLeaf hplic hdevices hlt)
    obtain rfl : plicLeaf (dev.perm ||| pteU) k = pte := by
      rcases hentry with ⟨-, hnone⟩ | hsome
      · rw [hleaf] at hnone
        cases hnone
      · exact Option.some.inj (hleaf.symm.trans hsome)
    have hflags : (dev.perm ||| pteU).toNat < 1024 := by
      rw [BitVec.toNat_or]
      exact Nat.or_lt_two_pow (n := 10) hplic.perm (by decide)
    have hoffset : (gpa - dev.virtBase).toNat = gpa.toNat - dev.virtBase.toNat := by
      rw [BitVec.toNat_sub]
      omega
    rw [toNat_pte2pa_plicLeaf hflags hlt, if_pos (by omega),
      if_pos ⟨hlow, by rw [dtbPlicSize_toNat]; omega⟩, BitVec.toNat_add, toNat_and_not_three, hoffset, dtbPlic_toNat]
    omega
  · rw [if_neg hin]
    apply if_neg
    rcases hentry with ⟨rfl, -⟩ | hsome
    · have hnull : (pte2pa 0).toNat = 0 := rfl
      omega
    · rw [hleaves] at hsome
      rcases mem_tableMappings_cases hplic himage hram hdevices (hsome.resolve_right nofun) with
        ⟨k, hk, hn, -⟩ | hout
      · refine absurd ⟨?_, ?_⟩ hin
        · omega
        · rw [dtbPlicSize_toNat]
          omega
      · rw [OutsidePlic, dtbPlic_toNat, dtbPlicSize_toNat] at hout
        have hframe : (pte2pa pte).toNat % 4096 = 0 := by
          rw [toNat_pte2pa]
          exact Nat.mul_mod_left _ _
        omega

end Dispatch

/-- The table that a hart has built when it has returned, whatever the others do. -/
theorem exists_table_of_run {ι : Type} [DecidableEq ι] {dynamic : DynamicSymbol}
    {confs : ι → VmConfig} (hroots : ∀ i, IsRoot dynamic (confs i).vmPgtable)
    (hdistinct : ∀ i j, (confs i).vmPgtable = (confs j).vmPgtable → i = j) {s : KernelMem}
    {free : List Uint64} (hfree : FreePages dynamic s free) {schedule : List ι}
    {c : Pool (heapEffect Uint64) Unit KernelMem ι}
    (hrun : run (poolStep heapHandler) (initPool confs s) schedule = some c) {i : ι}
    (hdone : c.threads i = .done ()) :
    ∃ l T image ram devPas,
      (∀ a, l.Owns (kernelLayout dynamic) (words (confs i).vmPgtable 2048) a →
        c.shared.mem a = l.view a) ∧
      TreeInv dynamic 1 (confs i).vmPgtable (words (confs i).vmPgtable 2048) T l ∧
      Mapped dynamic True (confs i).imageBase ((imageSize (confs i)).toNat / 4096) 0
        ⟨s.mem, []⟩ T l image ∧
      Mapped dynamic True 0 (ramPages (confs i)) 0 ⟨s.mem, []⟩ T l ram ∧
      DevicesMapped dynamic True ⟨s.mem, []⟩ T l (confs i).devs devPas ∧
      installAll (tableMappings (confs i) image ram devPas) (fun _ => none) =
        some (translation T l.view) := by
  have hhome := homes_of_isRoot hroots hdistinct
  have hsep := separated_of_freePages hfree fun i => words (confs i).vmPgtable 2048
  obtain ⟨shares, free', hsep', hend, -⟩ := hsep.run (c := initPool confs s) hhome
    (fun j => ensures_initHsPgtable_mapped (hroots j) ⟨s.mem, []⟩)
    (guardedRun_of_forall (fun _ _ _ _ _ => trivial) _ _) hrun
  have htable := hend i
  rw [hdone] at htable
  obtain ⟨T, image, ram, devPas, htable⟩ := htable
  exact ⟨shares i, T, image, ram, devPas, fun a ha => hsep'.agree i a ha, htable⟩

/-- Whatever the interleaving of the harts that build the tables and whether or not
memory ran out: once the hart of a machine has returned, `is_access_to_plic` returns
the address in the PLIC for a guest address in the window of the device and 0 for
every other, wherever the translation of the address does not panic. -/
theorem isAccessToPlic_exact {ι : Type} [DecidableEq ι] {dynamic : DynamicSymbol}
    {confs : ι → VmConfig} (hroots : ∀ i, IsRoot dynamic (confs i).vmPgtable)
    (hdistinct : ∀ i j, (confs i).vmPgtable = (confs j).vmPgtable → i = j) {s : KernelMem}
    {free : List Uint64} (hfree : FreePages dynamic s free) {schedule : List ι}
    {c : Pool (heapEffect Uint64) Unit KernelMem ι}
    (hrun : run (poolStep heapHandler) (initPool confs s) schedule = some c) {i : ι}
    (hdone : c.threads i = .done ()) {dev : MmioDev} (hplic : EmulatesPlic (confs i) dev)
    {vcpu : Vcpu} (hvcpu : vcpu.conf = confs i) {gpa : Uint64} (hgpa : gpa.toNat < 2 ^ 41)
    {addr : Int} {s' : KernelMem}
    (hexec : exec heapHandler (isAccessToPlic vcpu (gpa >>> 2)) c.shared = (.ok addr, s')) :
    addr = if InWindow dev gpa then
      ((dtbPlic + (gpa - dev.virtBase &&& ~~~3)).toNat : Int) else 0 := by
  obtain ⟨l, T, image, ram, devPas, hmem, htree, himage, hram, hdevices, hinstall⟩ :=
    exists_table_of_run hroots hdistinct hfree hrun hdone
  exact isAccessToPlic_of_tree hplic (hroots i) htree hmem himage hram hdevices hinstall hvcpu hgpa
    hexec

section Sample

/-- A machine with a page of image and a PLIC at an address of its own. -/
def plicConf : VmConfig where
  cpuAffinity := 1
  imageBase := 0x80200000
  imageEnd := 0x80201000
  memoryBase := 0x80000000
  memorySize := 0x1000
  devices := #v[some ⟨0xc000000, 0x20000000, 0x600000, 0, 0, 0⟩, none, none, none, none, none,
    none, none, none, none]
  vmPgtable := 0xffffffc000100000

def plicDev : MmioDev := ⟨0xc000000, 0x20000000, 0x600000, 0, 0, 0⟩

theorem plicConf_isRoot : IsRoot smallDynamic plicConf.vmPgtable :=
  ⟨by decide, by decide, by decide⟩

theorem plicConf_emulates : EmulatesPlic plicConf plicDev where
  phys := rfl
  size := rfl
  perm := by decide
  aligned := by decide
  bound := by decide
  image := by
    intro _ k hk
    have hpages : (imageSize plicConf).toNat / 4096 = 1 := by decide
    obtain rfl : k = 0 := by omega
    exact outsidePlic_of_bit (by decide) _
  others := ⟨[], [], rfl, by simp⟩

theorem plicConf_indices :
    guestIndices plicConf = List.range' 0x80000 1 ++ List.range' 0x20000 1536 := by
  have himage : (imageSize plicConf).toNat / 4096 = 1 := by decide
  have hram : ramPages plicConf = 0 := by decide
  have hdevs : plicConf.devs = [plicDev] := rfl
  have hsize : (pgroundup plicDev.size).toNat / 4096 = 1536 := by decide
  have hfirst : pageIndex 1 (plicConf.memoryBase + 0) = 0x80000 := by decide
  have hwindow : pageIndex 1 (plicDev.virtBase + 0) = 0x20000 := by decide
  have himageRange : pageIndices 1 plicConf.memoryBase 1 0 = List.range' 0x80000 1 := by
    rw [pageIndices_eq (by rw [hfirst, pageCount_one]; decide), hfirst]
  have hwindowRange : pageIndices 1 plicDev.virtBase 1536 0 = List.range' 0x20000 1536 := by
    rw [pageIndices_eq (by rw [hwindow, pageCount_one]; decide), hwindow]
  rw [guestIndices, himage, hram, hdevs, deviceIndices, List.flatMap_singleton, hsize, himageRange,
    hwindowRange]
  rfl

theorem plicConf_nodup : (guestIndices plicConf).Nodup := by
  rw [plicConf_indices, List.nodup_append]
  refine ⟨List.nodup_range', List.nodup_range', fun n hn m hm => ?_⟩
  rw [List.mem_range'_1] at hn hm
  omega

/-- The tables on the way to the pages of the machine. -/
def plicKeys : List (Nat × Nat) :=
  [(0, 0x400), (1, 2), (0, 0x100), (0, 0x101), (0, 0x102), (1, 0)]

theorem plicConf_keys : ∀ m ∈ guestIndices plicConf, ∀ level < 2,
    (level, m / 512 ^ (level + 1)) ∈ plicKeys := by
  intro m hm level hlevel
  rw [plicConf_indices, List.mem_append, List.mem_range'_1, List.mem_range'_1] at hm
  simp only [plicKeys, List.mem_cons, Prod.mk.injEq, List.not_mem_nil, or_false]
  rcases Nat.lt_succ_iff_lt_or_eq.mp hlevel with hzero | rfl
  · obtain rfl : level = 0 := by omega
    omega
  · omega

/-- The memory after `init_kmem` is enough for the table of the machine. -/
theorem plicConf_built : ∃ s free schedule c, FreePages smallDynamic s free ∧
    run (poolStep heapHandler) (initPool (fun _ : Unit => plicConf) s) schedule = some c ∧
      c.threads () = .done () := by
  obtain ⟨s, free, -, hlinked, hnodup, hlength, hmem⟩ := exec_initKmem smallDynamic fun _ => 0
  have hfree : FreePages smallDynamic s free := ⟨hlinked, hnodup, fun page => (hmem page).mp⟩
  have hpages : guestPages plicConf + plicKeys.length = 6 := by decide
  have hdynamic : smallDynamic.addr.toNat = 0xffffffc001000000 := rfl
  obtain ⟨s', hbuild⟩ := initHsPgtable_returns plicConf_isRoot hfree (by decide) plicConf_nodup
    plicKeys plicConf_keys (by omega)
  have hrun := run_pool_of_exec (c := initPool (fun _ : Unit => plicConf) s) (i := ()) hbuild
  exact ⟨s, free, _, _, hfree, hrun, by simp⟩

/-- An access to word 1 of the PLIC of the machine is recognised. -/
theorem isAccessToPlic_exact_window :
    ∃ s schedule c s',
      run (poolStep heapHandler) (initPool (fun _ : Unit => plicConf) s) schedule = some c ∧
        exec heapHandler (isAccessToPlic (initVcpu 0 plicConf) (0x20000004 >>> 2)) c.shared =
          (.ok 0xc000004, s') := by
  obtain ⟨s, free, schedule, c, hfree, hrun, hdone⟩ := plicConf_built
  obtain ⟨l, T, image, ram, devPas, hagree, htree, -, -, hdevices, hinstall⟩ :=
    exists_table_of_run (fun _ => plicConf_isRoot) (fun _ _ _ => rfl) hfree hrun (i := ()) hdone
  have hindex : pageIndex 1 ((0x20000004 : Uint64) >>> 2 <<< 2) =
      plicDev.virtBase.toNat / 4096 + 0 := by decide
  have hleaf := (installAll_eq_some hinstall (plicDev.virtBase.toNat / 4096 + 0) _).mpr
    (.inl (mem_tableMappings_plicLeaf plicConf_emulates hdevices (show 0 < 1536 by decide)))
  rw [← hindex] at hleaf
  obtain ⟨addr, s', hexec⟩ := isAccessToPlic_returns plicConf_isRoot htree hagree
    (show (initVcpu 0 plicConf).conf.vmPgtable = plicConf.vmPgtable from rfl) hleaf
  have hexact := isAccessToPlic_exact (fun _ => plicConf_isRoot) (fun _ _ _ => rfl) hfree hrun
    (i := ()) hdone plicConf_emulates (show (initVcpu 0 plicConf).conf = plicConf from rfl)
    (show (0x20000004 : Uint64).toNat < 2 ^ 41 by decide) hexec
  have hvalue : ((dtbPlic + ((0x20000004 : Uint64) - plicDev.virtBase &&& ~~~3)).toNat : Int) =
      0xc000004 := by decide
  rw [if_pos (by decide), hvalue] at hexact
  subst hexact
  exact ⟨s, schedule, c, s', hrun, hexec⟩

end Sample

end RiscvHypervisor.FaultDispatch
