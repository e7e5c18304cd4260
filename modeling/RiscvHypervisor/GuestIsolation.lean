import RiscvHypervisor.AddressTranslation
import RiscvHypervisor.GuestMemory
import Mathlib.Data.Fintype.BigOperators

/-!
The memory of the virtual machines after all of them have run
`init_hs_pgtable`, in any interleaving: what each table maps, and that no RAM
of one machine is reachable from another.
-/

namespace RiscvHypervisor.GuestIsolation

open RiscvHypervisor.EffectProgram
open RiscvHypervisor.TransitionSystem
open RiscvHypervisor.MachineTypes
open RiscvHypervisor.GuestConfig
open RiscvHypervisor.OwnedMemory
open RiscvHypervisor.KernelMemory
open RiscvHypervisor.PageTable
open RiscvHypervisor.TableTree
open RiscvHypervisor.PageMapping
open RiscvHypervisor.HardwareWalk
open RiscvHypervisor.GuestMemory

/-- Aligned ranges within the guest's address space, an image inside RAM below
`dynamic`, and devices outside RAM. -/
structure MemoryWellFormed (dynamic : DynamicSymbol) (conf : VmConfig) : Prop where
  terminated : none ∈ conf.devices.toList
  memory_aligned : conf.memoryBase % pageSize = 0
  memory_bound : conf.memoryBase.toNat + conf.memorySize.toNat ≤ 2 ^ 41
  image_aligned : conf.imageBase % pageSize = 0
  image_ne_zero : conf.imageBase ≠ 0
  image_fits : imageSize conf ≤ conf.memorySize
  image_lower : dtbMemory ≤ conf.imageBase
  image_upper : conf.imageBase.toNat + (imageSize conf).toNat ≤ (kva2pa dynamic.addr).toNat
  device_aligned : ∀ dev ∈ conf.devs, dev.virtBase % pageSize = 0 ∧ dev.physBase % pageSize = 0
  device_bound : ∀ dev ∈ conf.devs, dev.virtBase.toNat + dev.size.toNat ≤ 2 ^ 41
  device_ne_zero : ∀ dev ∈ conf.devs, dev.physBase ≠ 0
  device_frames : ∀ dev ∈ conf.devs, dev.physBase.toNat + dev.size.toNat ≤ 2 ^ 56
  device_outside : ∀ dev ∈ conf.devs, dev.physBase.toNat + dev.size.toNat ≤ dtbMemory.toNat ∨
    dtbMemoryEnd.toNat ≤ dev.physBase.toNat
  device_perm : ∀ dev ∈ conf.devs, dev.perm &&& ~~~(pteR ||| pteW ||| pteX) = 0

def InRam (conf : VmConfig) (gpa : Uint64) : Prop :=
  conf.memoryBase.toNat ≤ gpa.toNat ∧
    gpa.toNat < conf.memoryBase.toNat + (pgroundup conf.memorySize).toNat

def InImage (conf : VmConfig) (gpa : Uint64) : Prop :=
  conf.memoryBase.toNat ≤ gpa.toNat ∧
    gpa.toNat < conf.memoryBase.toNat + (imageSize conf).toNat

def InDevice (dev : MmioDev) (gpa : Uint64) : Prop :=
  dev.virtBase.toNat ≤ gpa.toNat ∧ gpa.toNat < dev.virtBase.toNat + (pgroundup dev.size).toNat

/-- The table at `root` has this valid level-0 entry for the address. -/
def ValidEntry (dynamic : DynamicSymbol) (mem : Uint64 → Uint64) (root gpa pte : Uint64) : Prop :=
  guestEntry dynamic mem root gpa = some pte ∧ pte &&& pteV ≠ 0

/-- The address is mapped to the physical address, with the given flags. -/
def MapsTo (dynamic : DynamicSymbol) (mem : Uint64 → Uint64) (root gpa : Uint64) (pa : Nat)
    (flags : Uint64) : Prop :=
  ∃ pte, ValidEntry dynamic mem root gpa pte ∧ (pteFrame pte).toNat + gpa.toNat % 4096 = pa ∧
    pte &&& 0x3ff = flags ||| pteV

/-- What the table of a virtual machine maps; `frame` is the page that `kmalloc`
returned for each page number of the RAM behind the image. -/
structure GuestTable (dynamic : DynamicSymbol) (mem : Uint64 → Uint64) (conf : VmConfig)
    (frame : Nat → Uint64) : Prop where
  valid_iff : ∀ gpa : Uint64, gpa.toNat < 2 ^ 41 →
    ((∃ pte, ValidEntry dynamic mem conf.vmPgtable gpa pte) ↔
      InRam conf gpa ∨ ∃ dev ∈ conf.devs, InDevice dev gpa)
  image : ∀ gpa, InImage conf gpa → MapsTo dynamic mem conf.vmPgtable gpa
    (conf.imageBase.toNat + (gpa.toNat - conf.memoryBase.toNat)) guestFlags
  ram : ∀ gpa, InRam conf gpa → ¬ InImage conf gpa → MapsTo dynamic mem conf.vmPgtable gpa
    ((kpa2pa (frame (gpa.toNat / 4096))).toNat + gpa.toNat % 4096) guestFlags
  device : ∀ dev ∈ conf.devs, ∀ gpa, InDevice dev gpa → MapsTo dynamic mem conf.vmPgtable gpa
    (dev.physBase.toNat + (gpa.toNat - dev.virtBase.toNat)) (dev.perm ||| pteU)

namespace MemoryWellFormed

variable {dynamic : DynamicSymbol} {conf : VmConfig}

theorem toNat_mod_of_aligned {a : Uint64} (h : a % pageSize = 0) : a.toNat % 4096 = 0 := by
  have hnat := congrArg BitVec.toNat h
  rwa [BitVec.toNat_umod, pageSize_toNat] at hnat

theorem toNat_pgroundup_of_le {a : Uint64} (h : a.toNat ≤ 2 ^ 56) :
    (pgroundup a).toNat = (a.toNat + 4095) / 4096 * 4096 := by
  rw [toNat_pgroundup]
  omega

theorem image_le (h : MemoryWellFormed dynamic conf) :
    (imageSize conf).toNat ≤ conf.memorySize.toNat := h.image_fits

theorem toNat_ramBase (h : MemoryWellFormed dynamic conf) :
    (conf.memoryBase + imageSize conf).toNat =
      conf.memoryBase.toNat + (imageSize conf).toNat := by
  have hbound := h.memory_bound
  have hfits := h.image_le
  rw [BitVec.toNat_add]
  omega

/-- The RAM behind the image takes up the rest of the rounded size. -/
theorem ramPages_eq (h : MemoryWellFormed dynamic conf) :
    4096 * ramPages conf + (imageSize conf).toNat = (pgroundup conf.memorySize).toNat := by
  have hbound := h.memory_bound
  have hfits := h.image_le
  have hmod : (imageSize conf).toNat % 4096 = 0 := toNat_pgroundup_mod _
  have hsub : (conf.memorySize - imageSize conf).toNat =
      conf.memorySize.toNat - (imageSize conf).toNat := by
    rw [BitVec.toNat_sub]
    omega
  rw [ramPages, toNat_pgroundup_of_le (by omega), toNat_pgroundup_of_le (by omega), hsub]
  omega

theorem memory_end_le (h : MemoryWellFormed dynamic conf) :
    conf.memoryBase.toNat + (pgroundup conf.memorySize).toNat ≤ 2 ^ 41 := by
  have hbound := h.memory_bound
  have haligned := toNat_mod_of_aligned h.memory_aligned
  rw [toNat_pgroundup_of_le (by omega)]
  omega

theorem device_end_le (h : MemoryWellFormed dynamic conf) {dev : MmioDev}
    (hdev : dev ∈ conf.devs) : dev.virtBase.toNat + (pgroundup dev.size).toNat ≤ 2 ^ 41 := by
  have hbound := h.device_bound dev hdev
  have haligned := toNat_mod_of_aligned (h.device_aligned dev hdev).1
  rw [toNat_pgroundup_of_le (by omega)]
  omega

theorem device_frames_le (h : MemoryWellFormed dynamic conf) {dev : MmioDev}
    (hdev : dev ∈ conf.devs) : dev.physBase.toNat + (pgroundup dev.size).toNat ≤ 2 ^ 56 ∧
      (dev.physBase.toNat + (pgroundup dev.size).toNat ≤ dtbMemory.toNat ∨
        dtbMemoryEnd.toNat ≤ dev.physBase.toNat) := by
  have hframes := h.device_frames dev hdev
  have houtside := h.device_outside dev hdev
  have haligned := toNat_mod_of_aligned (h.device_aligned dev hdev).2
  rw [dtbMemory_toNat] at houtside ⊢
  rw [toNat_pgroundup_of_le (by omega)]
  omega

theorem eq_and_of_and_not_eq_zero {x mask : Uint64} (h : x &&& ~~~mask = 0) :
    x = x &&& mask := by
  apply BitVec.eq_of_getLsbD_eq
  intro i hi
  have hbit := congrArg (fun y : Uint64 => y.getLsbD i) h
  simp only [BitVec.getLsbD_and, BitVec.getLsbD_not, hi, decide_true, Bool.true_and] at hbit ⊢
  cases hx : x.getLsbD i with
  | false => rfl
  | true => simpa [hx] using hbit

theorem device_flags_lt (h : MemoryWellFormed dynamic conf) {dev : MmioDev}
    (hdev : dev ∈ conf.devs) : (dev.perm ||| pteU).toNat < 1024 := by
  have hperm := eq_and_of_and_not_eq_zero (h.device_perm dev hdev)
  have hle : dev.perm.toNat ≤ (pteR ||| pteW ||| pteX).toNat := by
    rw [hperm, BitVec.toNat_and]
    exact Nat.and_le_right
  have hmask : (pteR ||| pteW ||| pteX).toNat = 14 := rfl
  rw [BitVec.toNat_or]
  exact Nat.or_lt_two_pow (n := 10) (by omega) (by decide)

end MemoryWellFormed

section OneMachine

variable {dynamic : DynamicSymbol} {conf : VmConfig} {frames : List Uint64}

theorem mem_guestMappings_iff (h : MemoryWellFormed dynamic conf)
    (hlength : frames.length = ramPages conf) (n : Nat) (leaf : Uint64) :
    (n, leaf) ∈ guestMappings conf frames ↔
      (∃ k < (imageSize conf).toNat / 4096, n = conf.memoryBase.toNat / 4096 + k ∧
          leaf = leafEntry (conf.imageBase + BitVec.ofNat 64 (4096 * k)) (toInt guestFlags)) ∨
        (∃ k page, frames[k]? = some page ∧
          n = (conf.memoryBase.toNat + (imageSize conf).toNat) / 4096 + k ∧
          leaf = leafEntry (kpa2pa page) (toInt guestFlags)) ∨
        ∃ dev ∈ conf.devs, ∃ k < (pgroundup dev.size).toNat / 4096,
          n = dev.virtBase.toNat / 4096 + k ∧
          leaf = leafEntry (dev.physBase + BitVec.ofNat 64 (4096 * k))
            (toInt (dev.perm ||| pteU)) := by
  have hbase := MemoryWellFormed.toNat_mod_of_aligned h.memory_aligned
  have hend := h.memory_end_le
  have hpages := h.ramPages_eq
  have hram := h.toNat_ramBase
  have hmod : (imageSize conf).toNat % 4096 = 0 := toNat_pgroundup_mod _
  have hzero : (0 : Uint64).toNat = 0 := rfl
  rw [guestMappings, List.mem_append, List.mem_append, imageMappings, ramMappings,
    mem_linear_mappings_iff _ hbase (by omega),
    mem_mappings_iff _ (by omega) (by rw [List.length_map]; omega), List.mem_flatMap, hram, hzero,
    Nat.add_zero]
  refine or_congr Iff.rfl (or_congr ?_ ?_)
  · constructor
    · rintro ⟨k, pa, hpa, rfl, rfl⟩
      rw [List.getElem?_map, Option.map_eq_some_iff] at hpa
      obtain ⟨page, hpage, rfl⟩ := hpa
      exact ⟨k, page, hpage, rfl, rfl⟩
    · rintro ⟨k, page, hpage, rfl, rfl⟩
      exact ⟨k, kpa2pa page, by rw [List.getElem?_map, hpage]; rfl, rfl, rfl⟩
  · refine exists_congr fun dev => and_congr_right fun hdev => ?_
    have hvirt := MemoryWellFormed.toNat_mod_of_aligned (h.device_aligned dev hdev).1
    have hdevEnd := h.device_end_le hdev
    rw [deviceMappings, mem_linear_mappings_iff _ hvirt (by omega)]

variable {home : Set Uint64} {T : Tables} {l : Share Uint64} {mem : Uint64 → Uint64} {root : Uint64}

theorem validEntry_iff (hroot : IsRoot dynamic root) (htree : TreeInv dynamic 1 root home T l)
    (hmem : ∀ a, l.Owns (kernelLayout dynamic) home a → mem a = l.view a) (gpa pte : Uint64) :
    ValidEntry dynamic mem root gpa pte ↔ translation T l.view (pageIndex 1 gpa) = some pte := by
  rw [ValidEntry, guestEntry_eq hroot htree hmem, translation_pageIndex]
  cases hleaf : T 0 (leafKey gpa 1 2 0) with
  | none => simp
  | some page =>
      simp only [Option.map_some, Option.bind_some, Option.some.injEq, ne_eq]
      rcases eq_or_ne (l.view (slot page (va2idx gpa 0 1)) &&& pteV) 0 with hvalid | hvalid
      · rw [if_pos hvalid]
        exact iff_of_false (fun h => h.2 (h.1 ▸ hvalid)) (by simp)
      · rw [if_neg hvalid, Option.some.injEq]
        exact ⟨fun h => h.1, fun h => ⟨h, h ▸ hvalid⟩⟩

/-- A leaf for an aligned frame maps the page to it. -/
theorem mapsTo_of_validEntry {gpa pa flags : Uint64} {n : Nat} (hflags : flags.toNat < 1024)
    (haligned : pa.toNat % 4096 = 0) (hbound : pa.toNat < 2 ^ 56)
    (hentry : ValidEntry dynamic mem root gpa (leafEntry pa (toInt flags)))
    (hn : pa.toNat + gpa.toNat % 4096 = n) : MapsTo dynamic mem root gpa n flags :=
  ⟨_, hentry, by rw [pteFrame_leafEntry hflags haligned hbound, hn],
    leafEntry_and_flags pa hflags⟩

theorem toNat_add_ofNat (pa : Uint64) (k : Nat) (h : pa.toNat + 4096 * k < 2 ^ 64) :
    (pa + BitVec.ofNat 64 (4096 * k)).toNat = pa.toNat + 4096 * k := by
  rw [BitVec.toNat_add, BitVec.toNat_ofNat]
  omega

theorem toNat_kpa2pa_valid {page : Uint64} (h : validAddress dynamic page) :
    (kpa2pa page).toNat % 4096 = 0 ∧ (kva2pa dynamic.addr).toNat ≤ (kpa2pa page).toNat ∧
      (kpa2pa page).toNat < 0x90000000 := by
  have hlow := dynamic.le_toNat
  have hend := toNat_kva2pa dynamic.le_toNat
  rw [validAddress_iff] at h
  rw [toNat_kpa2pa (by omega)]
  omega

theorem kpa2pa_injective {page page' : Uint64} (h : validAddress dynamic page)
    (h' : validAddress dynamic page') (heq : kpa2pa page = kpa2pa page') : page = page' := by
  have hlow := dynamic.le_toNat
  have hnat := congrArg BitVec.toNat heq
  rw [validAddress_iff] at h h'
  rw [toNat_kpa2pa (by omega), toNat_kpa2pa (by omega)] at hnat
  exact BitVec.eq_of_toNat_eq (by omega)

/-- The page that `kmalloc` returned for a page number of the RAM. -/
def frameOf (conf : VmConfig) (frames : List Uint64) (n : Nat) : Uint64 :=
  frames.getD (n - (conf.memoryBase.toNat + (imageSize conf).toNat) / 4096) 0

/-- A page number of the RAM behind the image. -/
def IsRamPage (conf : VmConfig) (n : Nat) : Prop :=
  conf.memoryBase.toNat + (imageSize conf).toNat ≤ 4096 * n ∧
    4096 * n < conf.memoryBase.toNat + (pgroundup conf.memorySize).toNat

theorem exists_frame (h : MemoryWellFormed dynamic conf) (hlength : frames.length = ramPages conf)
    {n : Nat} (hn : IsRamPage conf n) :
    ∃ k page, frames[k]? = some page ∧ frameOf conf frames n = page ∧
      n = (conf.memoryBase.toNat + (imageSize conf).toNat) / 4096 + k := by
  have hbase := MemoryWellFormed.toNat_mod_of_aligned h.memory_aligned
  have hmod : (imageSize conf).toNat % 4096 = 0 := toNat_pgroundup_mod _
  have hpages := h.ramPages_eq
  obtain ⟨hlow, hhigh⟩ := hn
  have hlt : n - (conf.memoryBase.toNat + (imageSize conf).toNat) / 4096 < frames.length := by
    omega
  refine ⟨_, frames[n - (conf.memoryBase.toNat + (imageSize conf).toNat) / 4096],
    List.getElem?_eq_getElem hlt, ?_, by omega⟩
  rw [frameOf, List.getD_eq_getElem?_getD, List.getElem?_eq_getElem hlt, Option.getD_some]

/-- The table that a completed `init_hs_pgtable` has built. -/
theorem guestTable_of_install (h : MemoryWellFormed dynamic conf)
    (hroot : IsRoot dynamic conf.vmPgtable)
    (htree : TreeInv dynamic 1 conf.vmPgtable home T l)
    (hmem : ∀ a, l.Owns (kernelLayout dynamic) home a → mem a = l.view a)
    (hlength : frames.length = ramPages conf) (hvalid : ∀ page ∈ frames, validAddress dynamic page)
    (hinstall : installAll (guestMappings conf frames) (fun _ => none) =
      some (translation T l.view)) :
    GuestTable dynamic mem conf (frameOf conf frames) := by
  have hbase := MemoryWellFormed.toNat_mod_of_aligned h.memory_aligned
  have hmod : (imageSize conf).toNat % 4096 = 0 := toNat_pgroundup_mod _
  have hend := h.memory_end_le
  have hpages := h.ramPages_eq
  have hentry : ∀ gpa pte, gpa.toNat < 2 ^ 41 → (ValidEntry dynamic mem conf.vmPgtable gpa pte ↔
      (gpa.toNat / 4096, pte) ∈ guestMappings conf frames) := by
    intro gpa pte hgpa
    have hindex : pageIndex 1 gpa = gpa.toNat / 4096 := by
      rw [pageIndex_eq, pageCount_one]
      omega
    rw [validEntry_iff hroot htree hmem, hindex, installAll_eq_some hinstall]
    simp
  refine ⟨fun gpa hgpa => ?_, fun gpa hgpa => ?_, fun gpa hgpa himage => ?_,
    fun dev hdev gpa hgpa => ?_⟩
  · simp only [hentry gpa _ hgpa, mem_guestMappings_iff h hlength, InRam, InDevice]
    constructor
    · rintro ⟨pte, ⟨k, hk, hn, -⟩ | ⟨k, page, hpage, hn, -⟩ | ⟨dev, hdev, k, hk, hn, -⟩⟩
      · exact .inl (by omega)
      · have hk := (List.getElem?_eq_some_iff.mp hpage).1
        exact .inl (by omega)
      · have hvirt := MemoryWellFormed.toNat_mod_of_aligned (h.device_aligned dev hdev).1
        exact .inr ⟨dev, hdev, by omega⟩
    · rintro (hram | ⟨dev, hdev, hlow, hhigh⟩)
      · by_cases himage : gpa.toNat < conf.memoryBase.toNat + (imageSize conf).toNat
        · exact ⟨_, .inl ⟨gpa.toNat / 4096 - conf.memoryBase.toNat / 4096, by omega, by omega, rfl⟩⟩
        · obtain ⟨k, page, hpage, -, hn⟩ :=
            exists_frame h hlength (n := gpa.toNat / 4096) ⟨by omega, by omega⟩
          exact ⟨_, .inr (.inl ⟨k, page, hpage, hn, rfl⟩)⟩
      · have hvirt := MemoryWellFormed.toNat_mod_of_aligned (h.device_aligned dev hdev).1
        have hsize := toNat_pgroundup_mod dev.size
        exact ⟨_, .inr (.inr ⟨dev, hdev, gpa.toNat / 4096 - dev.virtBase.toNat / 4096, by omega,
          by omega, rfl⟩)⟩
  · obtain ⟨hlow, hhigh⟩ := hgpa
    have himage := MemoryWellFormed.toNat_mod_of_aligned h.image_aligned
    have hupper := h.image_upper
    have hdynamic := toNat_kva2pa dynamic.le_toNat
    have hle := dynamic.toNat_le
    have hmember : (gpa.toNat / 4096, leafEntry (conf.imageBase +
        BitVec.ofNat 64 (4096 * (gpa.toNat / 4096 - conf.memoryBase.toNat / 4096)))
        (toInt guestFlags)) ∈ guestMappings conf frames :=
      (mem_guestMappings_iff h hlength _ _).mpr (.inl ⟨_, by omega, by omega, rfl⟩)
    have hpa := toNat_add_ofNat conf.imageBase
      (gpa.toNat / 4096 - conf.memoryBase.toNat / 4096) (by omega)
    exact mapsTo_of_validEntry (by decide) (by omega) (by omega)
      ((hentry gpa _ (by omega)).mpr hmember) (by omega)
  · obtain ⟨hlow, hhigh⟩ := hgpa
    have hafter : conf.memoryBase.toNat + (imageSize conf).toNat ≤ gpa.toNat := by
      by_contra hlt
      exact himage ⟨hlow, by omega⟩
    obtain ⟨k, page, hpage, hframe, hn⟩ :=
      exists_frame h hlength (n := gpa.toNat / 4096) ⟨by omega, by omega⟩
    have hfacts := toNat_kpa2pa_valid (hvalid page (List.mem_of_getElem? hpage))
    have hmember : (gpa.toNat / 4096, leafEntry (kpa2pa page) (toInt guestFlags)) ∈
        guestMappings conf frames :=
      (mem_guestMappings_iff h hlength _ _).mpr (.inr (.inl ⟨k, page, hpage, hn, rfl⟩))
    rw [hframe]
    exact mapsTo_of_validEntry (by decide) hfacts.1 (by omega)
      ((hentry gpa _ (by omega)).mpr hmember) rfl
  · obtain ⟨hlow, hhigh⟩ := hgpa
    have hvirt := MemoryWellFormed.toNat_mod_of_aligned (h.device_aligned dev hdev).1
    have hphys := MemoryWellFormed.toNat_mod_of_aligned (h.device_aligned dev hdev).2
    have hsize := toNat_pgroundup_mod dev.size
    have hdevEnd := h.device_end_le hdev
    have hframes := (h.device_frames_le hdev).1
    have hmember : (gpa.toNat / 4096, leafEntry (dev.physBase +
        BitVec.ofNat 64 (4096 * (gpa.toNat / 4096 - dev.virtBase.toNat / 4096)))
        (toInt (dev.perm ||| pteU))) ∈ guestMappings conf frames :=
      (mem_guestMappings_iff h hlength _ _).mpr
        (.inr (.inr ⟨dev, hdev, _, by omega, by omega, rfl⟩))
    have hpa := toNat_add_ofNat dev.physBase
      (gpa.toNat / 4096 - dev.virtBase.toNat / 4096) (by omega)
    exact mapsTo_of_validEntry (h.device_flags_lt hdev) (by omega) (by omega)
      ((hentry gpa _ (by omega)).mpr hmember) (by omega)

end OneMachine

section AllMachines

variable {ι : Type} [DecidableEq ι]

/-- The memory of the machines once all their tables are built. -/
structure Isolated (dynamic : DynamicSymbol) (s : KernelMem) (confs : ι → VmConfig)
    (frame : ι → Nat → Uint64) : Prop where
  table : ∀ i, GuestTable dynamic s.mem (confs i) (frame i)
  distinct : ∀ i j n m, IsRamPage (confs i) n → IsRamPage (confs j) m → frame i n = frame j m →
    i = j ∧ n = m
  free : ∃ free, FreePages dynamic s free ∧ ∀ i n, IsRamPage (confs i) n → frame i n ∉ free
  not_table : ∀ i n, IsRamPage (confs i) n → ∀ j,
    ¬ IsTablePage dynamic s.mem (confs j).vmPgtable (kpa2pa (frame i n))
  above_image : ∀ i n, IsRamPage (confs i) n →
    (kva2pa dynamic.addr).toNat ≤ (kpa2pa (frame i n)).toNat ∧
      (kpa2pa (frame i n)).toNat < dtbMemoryEnd.toNat
  apart : ∀ i j, i ≠ j → ∀ gpa gpa' pte pte', InRam (confs i) gpa →
    ValidEntry dynamic s.mem (confs i).vmPgtable gpa pte → gpa'.toNat < 2 ^ 41 →
    ValidEntry dynamic s.mem (confs j).vmPgtable gpa' pte' → pteFrame pte ≠ pteFrame pte'

/-- The machines at the start of `init_hs_pgtable`. -/
def initPool (confs : ι → VmConfig) (s : KernelMem) : Pool (heapEffect Uint64) Unit KernelMem ι where
  threads i := initHsPgtable (confs i)
  shared := s

/-- The frame of a RAM page is in the image or above it. -/
theorem ram_frame {dynamic : DynamicSymbol} {mem : Uint64 → Uint64} {conf : VmConfig}
    {frame : Nat → Uint64} (h : MemoryWellFormed dynamic conf)
    (htable : GuestTable dynamic mem conf frame) {gpa pte : Uint64} (hgpa : InRam conf gpa)
    (hpte : ValidEntry dynamic mem conf.vmPgtable gpa pte) :
    (conf.imageBase.toNat ≤ (pteFrame pte).toNat ∧
        (pteFrame pte).toNat < conf.imageBase.toNat + (imageSize conf).toNat) ∨
      (IsRamPage conf (gpa.toNat / 4096) ∧ pteFrame pte = kpa2pa (frame (gpa.toNat / 4096))) := by
  have hbase := MemoryWellFormed.toNat_mod_of_aligned h.memory_aligned
  have hmod : (imageSize conf).toNat % 4096 = 0 := toNat_pgroundup_mod _
  have hsize := toNat_pgroundup_mod conf.memorySize
  by_cases himage : InImage conf gpa
  · obtain ⟨pte', ⟨hentry, -⟩, hpa, -⟩ := htable.image gpa himage
    obtain rfl : pte = pte' := Option.some.inj (hpte.1.symm.trans hentry)
    obtain ⟨hlow, hhigh⟩ := himage
    have hframe := toNat_pteFrame pte
    have himageBase := MemoryWellFormed.toNat_mod_of_aligned h.image_aligned
    exact .inl (by omega)
  · obtain ⟨pte', ⟨hentry, -⟩, hpa, -⟩ := htable.ram gpa hgpa himage
    obtain rfl : pte = pte' := Option.some.inj (hpte.1.symm.trans hentry)
    obtain ⟨hlow, hhigh⟩ := hgpa
    have hafter : conf.memoryBase.toNat + (imageSize conf).toNat ≤ gpa.toNat := by
      by_contra hlt
      exact himage ⟨hlow, by omega⟩
    exact .inr ⟨⟨by omega, by omega⟩, BitVec.eq_of_toNat_eq (by omega)⟩

/-- The frame of a page that is not RAM is outside the RAM of the platform. -/
theorem device_frame {dynamic : DynamicSymbol} {mem : Uint64 → Uint64} {conf : VmConfig}
    {frame : Nat → Uint64} (h : MemoryWellFormed dynamic conf)
    (htable : GuestTable dynamic mem conf frame) {gpa pte : Uint64} {dev : MmioDev}
    (hdev : dev ∈ conf.devs) (hgpa : InDevice dev gpa)
    (hpte : ValidEntry dynamic mem conf.vmPgtable gpa pte) :
    (pteFrame pte).toNat < dtbMemory.toNat ∨ dtbMemoryEnd.toNat ≤ (pteFrame pte).toNat := by
  obtain ⟨pte', ⟨hentry, -⟩, hpa, -⟩ := htable.device dev hdev gpa hgpa
  obtain rfl : pte = pte' := Option.some.inj (hpte.1.symm.trans hentry)
  obtain ⟨hlow, hhigh⟩ := hgpa
  have hvirt := MemoryWellFormed.toNat_mod_of_aligned (h.device_aligned dev hdev).1
  have hframes := (h.device_frames_le hdev).2
  omega

/-- The part of a machine in the memory it shares with the others. -/
structure Finished (dynamic : DynamicSymbol) (conf : VmConfig) (T : Tables)
    (frames : List Uint64) (l : Share Uint64) : Prop where
  tree : TreeInv dynamic 1 conf.vmPgtable (words conf.vmPgtable 2048) T l
  pages : Frames dynamic T l frames
  length : frames.length = ramPages conf
  install : installAll (guestMappings conf frames) (fun _ => none) = some (translation T l.view)

section Separation

variable {dynamic : DynamicSymbol} {confs : ι → VmConfig} {s : KernelMem} {free : List Uint64}
  {shares : ι → Share Uint64} {T : ι → Tables} {frames : ι → List Uint64}

theorem Finished.frameOf_mem {conf : VmConfig} {T : Tables} {frames : List Uint64}
    {l : Share Uint64} (h : Finished dynamic conf T frames l) (hconf : MemoryWellFormed dynamic conf)
    {n : Nat} (hn : IsRamPage conf n) : frameOf conf frames n ∈ frames := by
  obtain ⟨k, page, hpage, hframe, -⟩ := exists_frame hconf h.length hn
  rw [hframe]
  exact List.mem_of_getElem? hpage

theorem Finished.frameOf_injective {conf : VmConfig} {T : Tables} {frames : List Uint64}
    {l : Share Uint64} (h : Finished dynamic conf T frames l) (hconf : MemoryWellFormed dynamic conf)
    {n m : Nat} (hn : IsRamPage conf n) (hm : IsRamPage conf m)
    (heq : frameOf conf frames n = frameOf conf frames m) : n = m := by
  obtain ⟨k, page, hpage, hframe, hk⟩ := exists_frame hconf h.length hn
  obtain ⟨k', page', hpage', hframe', hk'⟩ := exists_frame hconf h.length hm
  obtain ⟨hlt, -⟩ := List.getElem?_eq_some_iff.mp hpage
  have hsame : k = k' := by
    apply (List.getElem?_inj hlt h.pages.nodup).mp
    rw [hpage, hpage', ← hframe, ← hframe', heq]
  omega

/-- A frame of one machine is no table of any machine. -/
theorem not_isTablePage (hconf : ∀ i, MemoryWellFormed dynamic (confs i))
    (hroots : ∀ i, IsRoot dynamic (confs i).vmPgtable)
    (hsep : Separated (kernelLayout dynamic) (fun i => words (confs i).vmPgtable 2048) s shares free)
    (hfin : ∀ i, Finished dynamic (confs i) (T i) (frames i) (shares i)) {i : ι} {n : Nat}
    (hn : IsRamPage (confs i) n) (j : ι) :
    ¬ IsTablePage dynamic s.mem (confs j).vmPgtable (kpa2pa (frameOf (confs i) (frames i) n)) := by
  have hmem := (hfin i).frameOf_mem (hconf i) hn
  have hvalid := (hfin i).pages.valid _ hmem
  have hheld := (hfin i).pages.held _ hmem
  have hfacts := toNat_kpa2pa_valid hvalid
  have hupper := (hroots j).upper
  have hrootLe := (hroots j).le_toNat
  have hrootPa := toNat_kva2pa hrootLe
  have hdynamicLe := dynamic.le_toNat
  have hdynamic := toNat_kva2pa dynamic.le_toNat
  rintro (⟨-, hlt⟩ | ⟨gpa, htable⟩)
  · omega
  · have hrootTable := ((hfin j).tree.root_iff 0 _).mpr ⟨rfl, rfl⟩
    rcases visitedTables_cases (hroots j) (hfin j).tree (fun a ha => hsep.agree j a ha) gpa
      (Nat.le_refl 2) hrootTable htable with hroot | ⟨level, hlevel, key, page, hpage, heq⟩
    · have hnat := congrArg BitVec.toNat hroot
      omega
    · have hpageValid := (hfin j).tree.valid level hlevel key page hpage
      have hsame := kpa2pa_injective hvalid hpageValid heq
      by_cases hij : i = j
      · subst hij
        exact (hfin i).pages.notTable _ hmem level hlevel key (hsame ▸ hpage)
      · have hother := (hfin j).tree.held level hlevel key page hpage
        exact hsep.block_disjoint i j hij _ hheld (hsame ▸ hother)

theorem isolated_of_finished (hconf : ∀ i, MemoryWellFormed dynamic (confs i))
    (hroots : ∀ i, IsRoot dynamic (confs i).vmPgtable)
    (himages : ∀ i j, i ≠ j →
      (confs i).imageBase.toNat + (imageSize (confs i)).toNat ≤ (confs j).imageBase.toNat ∨
        (confs j).imageBase.toNat + (imageSize (confs j)).toNat ≤ (confs i).imageBase.toNat)
    (hsep : Separated (kernelLayout dynamic) (fun i => words (confs i).vmPgtable 2048) s shares free)
    (hfin : ∀ i, Finished dynamic (confs i) (T i) (frames i) (shares i)) :
    Isolated dynamic s confs fun i => frameOf (confs i) (frames i) := by
  have htable : ∀ i, GuestTable dynamic s.mem (confs i) (frameOf (confs i) (frames i)) :=
    fun i => guestTable_of_install (hconf i) (hroots i) (hfin i).tree (fun a ha => hsep.agree i a ha)
      (hfin i).length (hfin i).pages.valid (hfin i).install
  have hdistinct : ∀ i j n m, IsRamPage (confs i) n → IsRamPage (confs j) m →
      frameOf (confs i) (frames i) n = frameOf (confs j) (frames j) m → i = j ∧ n = m := by
    intro i j n m hn hm heq
    have hi := (hfin i).pages.held _ ((hfin i).frameOf_mem (hconf i) hn)
    have hj := (hfin j).pages.held _ ((hfin j).frameOf_mem (hconf j) hm)
    rcases eq_or_ne i j with rfl | hij
    · exact ⟨rfl, (hfin i).frameOf_injective (hconf i) hn hm heq⟩
    · exact absurd (heq ▸ hj) (hsep.block_disjoint i j hij _ hi)
  have habove : ∀ i n, IsRamPage (confs i) n →
      (kva2pa dynamic.addr).toNat ≤ (kpa2pa (frameOf (confs i) (frames i) n)).toNat ∧
        (kpa2pa (frameOf (confs i) (frames i) n)).toNat < dtbMemoryEnd.toNat := fun i n hn =>
    (toNat_kpa2pa_valid ((hfin i).pages.valid _ ((hfin i).frameOf_mem (hconf i) hn))).2
  have hlower : ∀ i, dtbMemory.toNat ≤ (confs i).imageBase.toNat := fun i => (hconf i).image_lower
  have hend : dtbMemoryEnd.toNat = 0x90000000 := rfl
  have hdynamic := toNat_kva2pa dynamic.le_toNat
  have hdynamicLe := dynamic.toNat_le
  refine ⟨htable, hdistinct, ⟨free, ⟨hsep.linked, hsep.nodup, hsep.free_valid⟩, fun i n hn => ?_⟩,
    fun i n hn j => not_isTablePage hconf hroots hsep hfin hn j, habove, ?_⟩
  · exact hsep.block_not_free i _ ((hfin i).pages.held _ ((hfin i).frameOf_mem (hconf i) hn))
  · intro i j hij gpa gpa' pte pte' hgpa hpte hbound hpte' heq
    have hupper := (hconf i).image_upper
    have hupper' := (hconf j).image_upper
    have hlow := hlower i
    have hlow' := hlower j
    rcases ((htable j).valid_iff gpa' hbound).mp ⟨pte', hpte'⟩ with hram' | ⟨dev, hdev, hin⟩
    · rcases ram_frame (hconf i) (htable i) hgpa hpte with hi | ⟨hn, hi⟩
      · rcases ram_frame (hconf j) (htable j) hram' hpte' with hj | ⟨hm, hj⟩
        · have happart := himages i j hij
          rw [heq] at hi
          omega
        · have hframe := habove j _ hm
          rw [heq, hj] at hi
          omega
      · rcases ram_frame (hconf j) (htable j) hram' hpte' with hj | ⟨hm, hj⟩
        · have hframe := habove i _ hn
          rw [← heq, hi] at hj
          omega
        · rw [hi, hj] at heq
          have hvalid := (hfin i).pages.valid _ ((hfin i).frameOf_mem (hconf i) hn)
          have hvalid' := (hfin j).pages.valid _ ((hfin j).frameOf_mem (hconf j) hm)
          exact hij (hdistinct i j _ _ hn hm (kpa2pa_injective hvalid hvalid' heq)).1
    · have houtside := device_frame (hconf j) (htable j) hdev hin hpte'
      rw [← heq] at houtside
      rcases ram_frame (hconf i) (htable i) hgpa hpte with hi | ⟨hn, hi⟩
      · omega
      · have hframe := habove i _ hn
        rw [hi] at houtside
        have hmemory : dtbMemory.toNat = 0x80000000 := rfl
        omega

end Separation

/-- Whatever the interleaving of the harts that build the tables: once all have
returned and no `kmalloc` has failed, every machine has the table of its
configuration, its RAM comes from `kmalloc` calls of its own, and the machines
are isolated. -/
theorem initHsPgtable_isolates {dynamic : DynamicSymbol} {confs : ι → VmConfig}
    (hconf : ∀ i, MemoryWellFormed dynamic (confs i))
    (hroots : ∀ i, IsRoot dynamic (confs i).vmPgtable)
    (hdistinct : ∀ i j, (confs i).vmPgtable = (confs j).vmPgtable → i = j)
    (himages : ∀ i j, i ≠ j →
      (confs i).imageBase.toNat + (imageSize (confs i)).toNat ≤ (confs j).imageBase.toNat ∨
        (confs j).imageBase.toNat + (imageSize (confs j)).toNat ≤ (confs i).imageBase.toNat)
    {s : KernelMem} {free : List Uint64} (hfree : FreePages dynamic s free)
    {schedule : List ι} {c : Pool (heapEffect Uint64) Unit KernelMem ι}
    (hrun : run (poolStep heapHandler) (initPool confs s) schedule = some c)
    (hkmalloc : GuardedRun (poolStep heapHandler)
      (fun d i => ∀ k, d.threads i = .access .pop k → d.shared.freelist ≠ 0)
      (initPool confs s) schedule)
    (hdone : ∀ i, c.threads i = .done ()) :
    ∃ frame : ι → Nat → Uint64, Isolated dynamic c.shared confs frame ∧
      ∀ i n, IsRamPage (confs i) n → (i, frame i n) ∈ grants (initPool confs s) schedule := by
  have hhome := homes_of_isRoot hroots hdistinct
  have hsep := separated_of_freePages hfree fun i => words (confs i).vmPgtable 2048
  obtain ⟨shares, free', hsep', hend, hfrom⟩ := hsep.run (c := initPool confs s) hhome
    (fun i => ensures_initHsPgtable (hroots i) (hconf i).image_ne_zero
      (hconf i).device_ne_zero ⟨s.mem, []⟩) hkmalloc hrun
  have hfin : ∀ i, ∃ T frames, Finished dynamic (confs i) T frames (shares i) := by
    intro i
    have hi := hend i
    rw [hdone i] at hi
    obtain ⟨T, frames, htree, hframes, hlength, -, hinstall⟩ := hi
    exact ⟨T, frames, htree, hframes, hlength, hinstall⟩
  choose T frames hfin using hfin
  refine ⟨_, isolated_of_finished hconf hroots himages hsep' hfin, fun i n hn => ?_⟩
  have hheld := (hfin i).pages.held _ ((hfin i).frameOf_mem (hconf i) hn)
  exact (hfrom i _ hheld).resolve_left (by simp)

/-- With more free pages than the machines can hold, no `kmalloc` fails in any
interleaving. -/
theorem initPool_succeeds [Fintype ι] {dynamic : DynamicSymbol} {confs : ι → VmConfig}
    (hroots : ∀ i, IsRoot dynamic (confs i).vmPgtable)
    (hdistinct : ∀ i j, (confs i).vmPgtable = (confs j).vmPgtable → i = j)
    {s : KernelMem} {free : List Uint64} (hfree : FreePages dynamic s free)
    {keys : ι → List (Nat × Nat)}
    (hkeys : ∀ i, ∀ m ∈ guestIndices (confs i), ∀ level < 2,
      (level, m / 512 ^ (level + 1)) ∈ keys i)
    (henough : ∑ i, (guestPages (confs i) + (keys i).length) < free.length) (schedule : List ι) :
    GuardedRun (poolStep heapHandler)
      (fun d i => ∀ k, d.threads i = .access .pop k → d.shared.freelist ≠ 0)
      (initPool confs s) schedule := by
  refine allocations_succeed (homes_of_isRoot hroots hdistinct) ?_ henough hfree.nodup
    (c := initPool confs s) (separated_of_freePages hfree _)
    (fun i => ensures_attempt_initHsPgtable (hroots i) ⟨s.mem, []⟩)
    (fun i => uses_initHsPgtable (confs i)) (fun page hpage => .inl hpage) schedule
  rintro i r l ⟨T, image, ram, devPas, -, haccounted, -⟩ pages hnodup hheld
  exact haccounted.length_le rfl hnodup hheld (keys i) (hkeys i)

/-- With different pages in each machine only a failed `kmalloc` leads to a panic. -/
theorem initPool_ne_panic {dynamic : DynamicSymbol} {confs : ι → VmConfig}
    (hroots : ∀ i, IsRoot dynamic (confs i).vmPgtable)
    (hdistinct : ∀ i j, (confs i).vmPgtable = (confs j).vmPgtable → i = j)
    (hterminated : ∀ i, none ∈ (confs i).devices.toList)
    (hnodup : ∀ i, (guestIndices (confs i)).Nodup)
    {s : KernelMem} {free : List Uint64} (hfree : FreePages dynamic s free)
    {schedule : List ι} {c : Pool (heapEffect Uint64) Unit KernelMem ι}
    (hrun : run (poolStep heapHandler) (initPool confs s) schedule = some c)
    (hkmalloc : GuardedRun (poolStep heapHandler)
      (fun d i => ∀ k, d.threads i = .access .pop k → d.shared.freelist ≠ 0)
      (initPool confs s) schedule)
    (i : ι) (message : String) : c.threads i ≠ .panic message := by
  intro hpanic
  have hsep := separated_of_freePages hfree fun i => words (confs i).vmPgtable 2048
  obtain ⟨shares, free', -, hend⟩ := hsep.run_attempt (c := initPool confs s)
    (homes_of_isRoot hroots hdistinct)
    (fun i => ensures_attempt_initHsPgtable (hroots i) ⟨s.mem, []⟩) hkmalloc hrun
  have hi := hend i
  rw [hpanic] at hi
  obtain ⟨T, image, ram, devPas, -, -, ⟨hok, -⟩ | ⟨message', -, hfalse⟩⟩ := hi
  · cases hok
  · exact hfalse (hterminated i) (hnodup i)

end AllMachines

section Sample

/-- A virtual machine with one page of image, one more page of RAM and a device. -/
def smallConf : VmConfig where
  cpuAffinity := 1
  imageBase := 0x80200000
  imageEnd := 0x80200800
  memoryBase := 0x80000000
  memorySize := 0x2000
  devices := #v[some ⟨0x10000000, 0x80010000, 0x100, 6, 10, 10⟩, none, none, none, none, none,
    none, none, none, none]
  vmPgtable := 0xffffffc000100000

/-- A machine at the same guest addresses, with two pages of image and two more of RAM. -/
def otherConf : VmConfig where
  cpuAffinity := 2
  imageBase := 0x80201000
  imageEnd := 0x80202400
  memoryBase := 0x80000000
  memorySize := 0x4000
  devices := #v[some ⟨0x10001000, 0x80010000, 0x100, 6, 11, 11⟩, none, none, none, none, none,
    none, none, none, none]
  vmPgtable := 0xffffffc000104000

def pairConfs (i : Bool) : VmConfig :=
  if i then otherConf else smallConf

def smallDynamic : DynamicSymbol where
  addr := 0xffffffc001000000
  aligned := AddressTranslation.sampleDynamic.aligned
  lower := AddressTranslation.sampleDynamic.lower
  upper := AddressTranslation.sampleDynamic.upper

theorem smallConf_wellFormed : MemoryWellFormed smallDynamic smallConf := by
  constructor <;> decide

theorem otherConf_wellFormed : MemoryWellFormed smallDynamic otherConf := by
  constructor <;> decide

theorem pairConfs_wellFormed : ∀ i, MemoryWellFormed smallDynamic (pairConfs i) :=
  Bool.forall_bool.mpr ⟨smallConf_wellFormed, otherConf_wellFormed⟩

theorem pairConfs_isRoot (i : Bool) : IsRoot smallDynamic (pairConfs i).vmPgtable := by
  cases i with
  | false => exact ⟨by decide, by decide, by decide⟩
  | true => exact ⟨by decide, by decide, by decide⟩

theorem pairConfs_distinct : ∀ i j, (pairConfs i).vmPgtable = (pairConfs j).vmPgtable → i = j := by
  decide

/-- The tables on the way to the pages of the machines. -/
def pairKeys (_ : Bool) : List (Nat × Nat) :=
  [(0, 1024), (1, 2)]

theorem pairKeys_cover : ∀ i, ∀ m ∈ guestIndices (pairConfs i), ∀ level < 2,
    (level, m / 512 ^ (level + 1)) ∈ pairKeys i := by
  decide

theorem pairConfs_budget : ∑ i, (guestPages (pairConfs i) + (pairKeys i).length) = 7 := by
  rw [Fintype.sum_bool]
  decide

/-- The two machines build their tables, access by access in turn, until one of them
has finished; then the rest is done. -/
theorem initHsPgtable_isolates_pair : ∃ s n rest d c,
    exec heapHandler (initKmem smallDynamic) ⟨fun _ => 0, 0⟩ = (.ok (), s) ∧
      run (poolStep heapHandler) (initPool pairConfs s) (List.replicate n [false, true]).flatten =
        some d ∧
      (∃ i, d.threads i = .done ()) ∧ run (poolStep heapHandler) d rest = some c ∧
      ∃ frame : Bool → Nat → Uint64, Isolated smallDynamic c.shared pairConfs frame := by
  obtain ⟨s, free, hinit, hlinked, hnodup, hlength, hmem⟩ := exec_initKmem smallDynamic fun _ => 0
  have hfree : FreePages smallDynamic s free := ⟨hlinked, hnodup, fun page => (hmem page).mp⟩
  have hdynamic : smallDynamic.addr.toNat = 0xffffffc001000000 := rfl
  have hbudget := pairConfs_budget
  have hguard := initPool_succeeds pairConfs_isRoot pairConfs_distinct hfree pairKeys_cover (by omega)
  have hreturned : ∀ schedule c, run (poolStep heapHandler) (initPool pairConfs s) schedule = some c →
      ∀ i, ((∃ a, c.threads i = .done a) ∨ ∃ message, c.threads i = .panic message) →
        c.threads i = .done () := by
    rintro schedule c hrun i (⟨a, ha⟩ | ⟨message, hpanic⟩)
    · exact ha
    · exact absurd hpanic (initPool_ne_panic pairConfs_isRoot pairConfs_distinct
        (fun i => (pairConfs_wellFormed i).terminated) (by decide) hfree hrun (hguard schedule) i
        message)
  obtain ⟨n, d, hturns, i, hi⟩ :=
    exists_run_turns heapHandler (initPool pairConfs s) Bool.false_ne_true
  obtain ⟨rest, c, hrest, hend⟩ := exists_run_all heapHandler d
  have hrun := run_trans hturns hrest
  obtain ⟨frame, hisolated, -⟩ := initHsPgtable_isolates pairConfs_wellFormed pairConfs_isRoot
    pairConfs_distinct (by decide) hfree hrun (hguard _) fun i => hreturned _ c hrun i (hend i)
  exact ⟨s, n, rest, d, c, hinit, hturns, ⟨i, hreturned _ d hturns i hi⟩, hrest, frame, hisolated⟩

end Sample

end RiscvHypervisor.GuestIsolation
