import RiscvHypervisor.InitVmem
import RiscvHypervisor.KernelWalk
import RiscvHypervisor.RangeCoverage
import RiscvHypervisor.GuestIsolation

/-!
The address space of the hypervisor after `init_vmem`, on every hart and in any
interleaving of the harts: what is mapped where, with which permissions.
-/

namespace RiscvHypervisor.KernelAddressSpace

open RiscvHypervisor.EffectProgram
open RiscvHypervisor.TransitionSystem
open RiscvHypervisor.MachineTypes
open RiscvHypervisor.OwnedMemory
open RiscvHypervisor.KernelMemory
open RiscvHypervisor.PageTable
open RiscvHypervisor.TableTree
open RiscvHypervisor.PageMapping
open RiscvHypervisor.HardwareWalk
open RiscvHypervisor.GuestMemory
open RiscvHypervisor.GuestIsolation
open RiscvHypervisor.InitVmem
open RiscvHypervisor.KernelWalk

section Regions

/-- A region of readable pages with aligned frames that does not wrap around. -/
structure Fits (r : Region) : Prop where
  index : pageIndex 0 r.va + r.pages ≤ 2 ^ 27
  aligned : r.pa.toNat % 4096 = 0
  frames : r.pa.toNat + 4096 * r.pages ≤ 2 ^ 56
  flags : r.flags.toNat < 1024
  readable : r.flags &&& pteR ≠ 0

variable {r : Region}

theorem Fits.indices_eq (h : Fits r) : r.indices = List.range' (pageIndex 0 r.va) r.pages := by
  have hstart : r.va + 0 = r.va := BitVec.add_zero r.va
  have hindex := h.index
  rw [Region.indices, pageIndices_eq (by rwa [hstart]), hstart]

theorem Fits.mem_leaves_iff (h : Fits r) (n : Nat) (leaf : Uint64) :
    (n, leaf) ∈ r.leaves r.pages ↔ ∃ k < r.pages, n = pageIndex 0 r.va + k ∧
      leaf = leafEntry (r.pa + BitVec.ofNat 64 (4096 * k)) (toInt r.flags) := by
  have hindex := h.index
  have hzero : ∀ x : Uint64, 0 + x = x := BitVec.zero_add
  have hshift : ∀ k < r.pages,
      pageIndex 0 (r.va + BitVec.ofNat 64 (4096 * k)) = pageIndex 0 r.va + k := by
    intro k hk
    have hcount : pageCount 0 = 2 ^ 27 := rfl
    rw [pageIndex_eq, hcount] at hindex
    rw [pageIndex_eq, pageIndex_eq, hcount, BitVec.toNat_add, BitVec.toNat_ofNat]
    omega
  rw [Region.leaves, RangeCoverage.mem_mappings_linear_iff]
  simp only [hzero]
  constructor
  · rintro ⟨k, hk, rfl, rfl⟩
    exact ⟨k, hk, hshift k hk, rfl⟩
  · rintro ⟨k, hk, rfl, rfl⟩
    exact ⟨k, hk, (hshift k hk).symm, rfl⟩

theorem Fits.toNat_frame (h : Fits r) {k : Nat} (hk : k < r.pages) :
    (r.pa + BitVec.ofNat 64 (4096 * k)).toNat = r.pa.toNat + 4096 * k := by
  have hframes := h.frames
  exact toNat_add_ofNat r.pa k (by omega)

/-- The leaf of a page leads to its frame. -/
theorem Fits.walkEntry_eq (h : Fits r) {k : Nat} (hk : k < r.pages) (va : Uint64) :
    walkEntry va (leafEntry (r.pa + BitVec.ofNat 64 (4096 * k)) (toInt r.flags)) 0 none =
      some (r.pa + BitVec.ofNat 64 (4096 * k),
        leafEntry (r.pa + BitVec.ofNat 64 (4096 * k)) (toInt r.flags)) := by
  have haligned := h.aligned
  have hframes := h.frames
  have hframe := h.toNat_frame hk
  rw [walkEntry_leaf (leafEntry_and_flags _ h.flags) h.readable,
    pteFrame_leafEntry h.flags (by omega) (by omega)]

/-- What is mapped when all leaves of some regions are installed. -/
theorem maps_iff_of_complete {dynamic : DynamicSymbol} {root : Uint64} {home : Set Uint64}
    {T : Tables} {l : Share Uint64} {mem : Uint64 → Uint64} {regions : List Region}
    (hfits : ∀ r ∈ regions, Fits r) (hroot : validAddress dynamic root)
    (htree : TreeInv dynamic 0 root home T l) (hcomplete : Complete regions T l)
    (hmem : ∀ a, l.Owns (kernelLayout dynamic) home a → mem a = l.view a) (va page pte : Uint64) :
    Maps (physRead dynamic mem) (kpa2pa root) va page pte ↔ IsCanonical va ∧
      ∃ r ∈ regions, ∃ k < r.pages, pageIndex 0 va = pageIndex 0 r.va + k ∧
        page.toNat = r.pa.toNat + 4096 * k ∧
        pte = leafEntry (r.pa + BitVec.ofNat 64 (4096 * k)) (toInt r.flags) := by
  rw [maps_iff hroot htree hmem]
  apply and_congr_right
  intro _
  constructor
  · rintro ⟨leaf, hleaf, hwalk⟩
    have hin := ((installAll_eq_some hcomplete _ leaf).mp hleaf).resolve_right (by simp)
    obtain ⟨r, hr, hmember⟩ := List.mem_flatMap.mp hin
    obtain ⟨k, hk, hn, rfl⟩ := ((hfits r hr).mem_leaves_iff _ leaf).mp hmember
    rw [(hfits r hr).walkEntry_eq hk, Option.some.injEq, Prod.mk.injEq] at hwalk
    obtain ⟨rfl, rfl⟩ := hwalk
    exact ⟨r, hr, k, hk, hn, (hfits r hr).toNat_frame hk, rfl⟩
  · rintro ⟨r, hr, k, hk, hn, hpage, rfl⟩
    refine ⟨leafEntry (r.pa + BitVec.ofNat 64 (4096 * k)) (toInt r.flags),
      (installAll_eq_some hcomplete _ _).mpr (.inl ?_), ?_⟩
    · exact List.mem_flatMap.mpr ⟨r, hr, ((hfits r hr).mem_leaves_iff _ _).mpr ⟨k, hk, hn, rfl⟩⟩
    · rw [(hfits r hr).walkEntry_eq hk]
      obtain rfl : r.pa + BitVec.ofNat 64 (4096 * k) = page :=
        BitVec.eq_of_toNat_eq (((hfits r hr).toNat_frame hk).trans hpage.symm)
      rfl

end Regions

section Layouts

/-- The numbers of an image layout. -/
structure Placed (layout : ImageLayout) : Prop where
  text_aligned : layout.text.start.toNat % 4096 = 0
  rodata_aligned : layout.rodata.start.toNat % 4096 = 0
  data_aligned : layout.data.start.toNat % 4096 = 0
  cpuStructs_aligned : layout.cpuStructs.start.toNat % 4096 = 0
  dynamic_aligned : layout.dynamic.addr.toNat % 4096 = 0
  lower : 0xffffffc000000000 ≤ layout.text.start.toNat
  text : layout.text.start.toNat ≤ layout.text.stop.toNat
  text_rodata : layout.text.stop.toNat ≤ layout.rodata.start.toNat
  rodata : layout.rodata.start.toNat ≤ layout.rodata.stop.toNat
  rodata_data : layout.rodata.stop.toNat ≤ layout.data.start.toNat
  data : layout.data.start.toNat ≤ layout.data.stop.toNat
  data_cpuStructs : layout.data.stop.toNat ≤ layout.cpuStructs.start.toNat
  cpus : layout.cpuStructs.start.toNat + 24576 ≤ layout.cpuStructs.stop.toNat
  cpuStructs_dynamic : layout.cpuStructs.stop.toNat ≤ layout.dynamic.addr.toNat
  upper : layout.dynamic.addr.toNat ≤ 0xffffffc010000000

theorem ImageSection.toNat_mod (sec : ImageSection) : sec.start.toNat % 4096 = 0 :=
  MemoryWellFormed.toNat_mod_of_aligned sec.aligned

theorem placed (layout : ImageLayout) : Placed layout where
  text_aligned := ImageSection.toNat_mod _
  rodata_aligned := ImageSection.toNat_mod _
  data_aligned := ImageSection.toNat_mod _
  cpuStructs_aligned := ImageSection.toNat_mod _
  dynamic_aligned := layout.dynamic.toNat_mod
  lower := layout.lower
  text := layout.text.ordered
  text_rodata := layout.text_rodata
  rodata := layout.rodata.ordered
  rodata_data := layout.rodata_data
  data := layout.data.ordered
  data_cpuStructs := layout.data_cpuStructs
  cpus := layout.cpus
  cpuStructs_dynamic := by
    have hbefore : layout.cpuStructs.stop.toNat ≤ layout.vmImages.start.toNat :=
      layout.cpuStructs_vmImages
    have himages : layout.vmImages.start.toNat ≤ layout.vmImages.stop.toNat :=
      layout.vmImages.ordered
    have hafter : layout.vmImages.stop.toNat ≤ layout.dynamic.addr.toNat := layout.vmImages_dynamic
    omega
  upper := layout.dynamic.toNat_le

/-- The first page index, the number of pages and the physical address of a region. -/
structure At (r : Region) (first pages pa : Nat) : Prop where
  first : pageIndex 0 r.va = first
  pages : r.pages = pages
  pa : r.pa.toNat = pa

theorem pageIndex_zero (va : Uint64) : pageIndex 0 va = va.toNat / 4096 % 2 ^ 27 :=
  pageIndex_eq 0 va

theorem pages_of_size {r : Region} {n : Nat} (hsize : r.size.toNat = n) (hn : n < 2 ^ 63) :
    r.pages = (n + 4095) / 4096 := by
  rw [Region.pages, toNat_pgroundup, hsize]
  omega

theorem intArgument_toInt {x : Uint64} (h : x.toNat < 2 ^ 31) : intArgument (toInt x) = x :=
  ofInt_toInt h

theorem sectionRegion_at {sec : ImageSection} (flags : Uint64)
    (hlower : 0xffffffc000000000 ≤ sec.start.toNat) (hupper : sec.stop.toNat ≤ 0xffffffc010000000) :
    At (sectionRegion sec flags) ((sec.start.toNat - 0xffffffc000000000) / 4096 + 2 ^ 26)
      ((sec.stop.toNat - sec.start.toNat + 4095) / 4096)
      (sec.start.toNat - 0xffffffc000000000 + 0x80000000) where
  first := by
    have hordered : sec.start.toNat ≤ sec.stop.toNat := sec.ordered
    have hva : (sectionRegion sec flags).va = sec.start := rfl
    rw [pageIndex_zero, hva]
    omega
  pages := by
    have hordered : sec.start.toNat ≤ sec.stop.toNat := sec.ordered
    have hsub : (sec.stop - sec.start).toNat = sec.stop.toNat - sec.start.toNat := by
      rw [BitVec.toNat_sub]
      omega
    apply pages_of_size
    · rw [sectionRegion, intArgument_toInt (by omega), hsub]
    · omega
  pa := toNat_kva2pa hlower

theorem toNat_mycpu (layout : ImageLayout) {tp : Uint64} (htp : tp.toNat < dtbNrCpus) :
    (mycpu layout 0 tp).toNat = layout.cpuStructs.start.toNat + 12288 * tp.toNat := by
  have hplaced := placed layout
  have hcpus := hplaced.cpus
  have hdynamic := hplaced.cpuStructs_dynamic
  have hupper := hplaced.upper
  have hsize : (BitVec.ofNat 64 sizeofCpu).toNat = 12288 := rfl
  have hlt : tp.toNat < 2 := htp
  rw [mycpu, if_neg (by decide), BitVec.toNat_add, BitVec.toNat_mul, hsize]
  omega

theorem cpuRegion_at (layout : ImageLayout) {tp : Uint64} (htp : tp.toNat < dtbNrCpus) :
    At (cpuRegion layout tp) (2 ^ 26 + 2 ^ 18) 3
      (layout.cpuStructs.start.toNat + 12288 * tp.toNat - 0xffffffc000000000 + 0x80000000) where
  first := show pageIndex 0 vasCpuStruct = 2 ^ 26 + 2 ^ 18 by decide
  pages := pages_of_size (n := 12288) rfl (by decide)
  pa := by
    have hplaced := placed layout
    have hmycpu := toNat_mycpu layout htp
    have hlower := hplaced.lower
    have htext := hplaced.text
    have hrodata := hplaced.text_rodata
    have hrodata' := hplaced.rodata
    have hdata := hplaced.rodata_data
    have hdata' := hplaced.data
    have hcpuStructs := hplaced.data_cpuStructs
    rw [cpuRegion, toNat_kva2pa (by omega), hmycpu]

theorem ramRegion_at (dynamic : DynamicSymbol) :
    At (ramRegion dynamic) ((dynamic.addr.toNat - 0xffffffc000000000) / 4096 + 2 ^ 26 + 2 ^ 25)
      ((0xffffffc010000000 - dynamic.addr.toNat) / 4096)
      (dynamic.addr.toNat - 0xffffffc000000000 + 0x80000000) where
  first := by
    have hlow := dynamic.le_toNat
    have hhigh := dynamic.toNat_le
    rw [pageIndex_zero, ramRegion, dynamic.toNat_kva2kpa]
    omega
  pages := by
    have hlow := dynamic.le_toNat
    have hhigh := dynamic.toNat_le
    have hmod := dynamic.toNat_mod
    have hpa := toNat_kva2pa hlow
    have hsize : dtbMemorySize.toNat = 0x10000000 := rfl
    have hsub : (dtbMemorySize - (kva2pa dynamic.addr - dtbMemory)).toNat =
        0xffffffc010000000 - dynamic.addr.toNat := by
      rw [BitVec.toNat_sub, BitVec.toNat_sub, hpa, hsize, dtbMemory_toNat]
      omega
    rw [pages_of_size (n := 0xffffffc010000000 - dynamic.addr.toNat)
      (by rw [ramRegion, intArgument_toInt (by omega), hsub]) (by omega)]
    omega
  pa := toNat_kva2pa dynamic.le_toNat

end Layouts

section AllRegions

/-- The devices are identity mapped, below RAM and in the lower half. -/
theorem mmioRegions_spec : ∀ r ∈ mmioRegions, r.va = r.pa ∧ r.flags = mmioFlags ∧
    r.pa.toNat % 4096 = 0 ∧ r.pa ≠ 0 ∧ r.pa.toNat + 4096 * r.pages ≤ 0x40000000 := by
  decide +kernel

theorem mmioRegions_apart : mmioRegions.Pairwise fun r r' =>
    pageIndex 0 r.va + r.pages ≤ pageIndex 0 r'.va ∨
      pageIndex 0 r'.va + r'.pages ≤ pageIndex 0 r.va := by
  decide +kernel

theorem mmio_index {r : Region} (h : r ∈ mmioRegions) :
    pageIndex 0 r.va + r.pages ≤ 2 ^ 18 ∧ pageIndex 0 r.va = r.pa.toNat / 4096 := by
  obtain ⟨hva, -, haligned, -, hend⟩ := mmioRegions_spec r h
  rw [pageIndex_zero, hva]
  omega

variable {layout : ImageLayout} {tp : Uint64}

theorem mem_imageRegions {r : Region} :
    r ∈ (imageRegions layout tp).map Prod.snd ↔
      r = sectionRegion layout.text (pteR ||| pteX ||| pteG) ∨
        r = sectionRegion layout.rodata (pteR ||| pteG) ∨
        r = sectionRegion layout.data (pteR ||| pteW ||| pteG) ∨
        r = cpuRegion layout tp ∨ r = ramRegion layout.dynamic := by
  simp [imageRegions]

/-- Where the regions of the image are. -/
structure ImageAt (layout : ImageLayout) (tp : Uint64) : Prop extends Placed layout where
  text_at : At (sectionRegion layout.text (pteR ||| pteX ||| pteG))
    ((layout.text.start.toNat - 0xffffffc000000000) / 4096 + 2 ^ 26)
    ((layout.text.stop.toNat - layout.text.start.toNat + 4095) / 4096)
    (layout.text.start.toNat - 0xffffffc000000000 + 0x80000000)
  rodata_at : At (sectionRegion layout.rodata (pteR ||| pteG))
    ((layout.rodata.start.toNat - 0xffffffc000000000) / 4096 + 2 ^ 26)
    ((layout.rodata.stop.toNat - layout.rodata.start.toNat + 4095) / 4096)
    (layout.rodata.start.toNat - 0xffffffc000000000 + 0x80000000)
  data_at : At (sectionRegion layout.data (pteR ||| pteW ||| pteG))
    ((layout.data.start.toNat - 0xffffffc000000000) / 4096 + 2 ^ 26)
    ((layout.data.stop.toNat - layout.data.start.toNat + 4095) / 4096)
    (layout.data.start.toNat - 0xffffffc000000000 + 0x80000000)
  cpu_at : At (cpuRegion layout tp) (2 ^ 26 + 2 ^ 18) 3
    (layout.cpuStructs.start.toNat + 12288 * tp.toNat - 0xffffffc000000000 + 0x80000000)
  ram_at : At (ramRegion layout.dynamic)
    ((layout.dynamic.addr.toNat - 0xffffffc000000000) / 4096 + 2 ^ 26 + 2 ^ 25)
    ((0xffffffc010000000 - layout.dynamic.addr.toNat) / 4096)
    (layout.dynamic.addr.toNat - 0xffffffc000000000 + 0x80000000)
  hart : tp.toNat < 2

theorem imageAt (layout : ImageLayout) {tp : Uint64} (htp : tp.toNat < dtbNrCpus) :
    ImageAt layout tp := by
  have hplaced := placed layout
  obtain ⟨-, -, -, -, -, h₁, h₂, h₃, h₄, h₅, h₆, h₇, h₈, h₉, h₁₀⟩ := placed layout
  exact
    { hplaced with
      text_at := sectionRegion_at _ (by omega) (by omega)
      rodata_at := sectionRegion_at _ (by omega) (by omega)
      data_at := sectionRegion_at _ (by omega) (by omega)
      cpu_at := cpuRegion_at layout htp
      ram_at := ramRegion_at layout.dynamic
      hart := htp }

def imageFlags : List Uint64 :=
  [pteR ||| pteX ||| pteG, pteR ||| pteG, pteR ||| pteW ||| pteG, pteR ||| pteW]

theorem imageFlags_spec : ∀ flags ∈ imageFlags, flags.toNat < 1024 ∧ flags &&& pteR ≠ 0 := by
  intro flags hflags
  simp only [imageFlags, List.mem_cons, List.not_mem_nil, or_false] at hflags
  rcases hflags with rfl | rfl | rfl | rfl
  · decide
  · decide
  · decide
  · decide

theorem At.fits {r : Region} {first pages pa : Nat} (h : At r first pages pa)
    (hindex : first + pages ≤ 2 ^ 27) (haligned : pa % 4096 = 0)
    (hframes : pa + 4096 * pages ≤ 2 ^ 56) (hflags : r.flags ∈ imageFlags) : Fits r where
  index := by rwa [h.first, h.pages]
  aligned := by rwa [h.pa]
  frames := by rwa [h.pa, h.pages]
  flags := (imageFlags_spec _ hflags).1
  readable := (imageFlags_spec _ hflags).2

theorem kernelRegions_fits (htp : tp.toNat < dtbNrCpus) :
    ∀ r ∈ kernelRegions layout tp, Fits r := by
  have himage := imageAt layout htp
  obtain ⟨h₁, h₂, h₃, h₄, h₅, h₆, h₇, h₈, h₉, h₁₀, h₁₁, h₁₂, h₁₃, h₁₄, h₁₅⟩ := himage.toPlaced
  have hhart := himage.hart
  intro r hr
  rcases List.mem_append.mp hr with hr | hr
  · obtain ⟨hva, hflags, haligned, -, hend⟩ := mmioRegions_spec r hr
    have hindex := (mmio_index hr).1
    exact ⟨by omega, haligned, by omega, hflags ▸ (by decide : mmioFlags.toNat < 1024),
      hflags ▸ (by decide : mmioFlags &&& pteR ≠ 0)⟩
  · rcases mem_imageRegions.mp hr with rfl | rfl | rfl | rfl | rfl
    · exact himage.text_at.fits (by omega) (by omega) (by omega) (by simp [imageFlags, sectionRegion])
    · exact himage.rodata_at.fits (by omega) (by omega) (by omega) (by simp [imageFlags, sectionRegion])
    · exact himage.data_at.fits (by omega) (by omega) (by omega) (by simp [imageFlags, sectionRegion])
    · exact himage.cpu_at.fits (by omega) (by omega) (by omega) (by simp [imageFlags, cpuRegion])
    · exact himage.ram_at.fits (by omega) (by omega) (by omega) (by simp [imageFlags, ramRegion])

theorem imageRegions_pa_ne_zero (htp : tp.toNat < dtbNrCpus) :
    ∀ r ∈ imageRegions layout tp, r.2.pa ≠ 0 := by
  have himage := imageAt layout htp
  have hne : ∀ {r : Region} {first pages pa : Nat}, At r first pages pa → 0 < pa → r.pa ≠ 0 := by
    intro r first pages pa hat hpos hzero
    have hpa := hat.pa
    rw [hzero, show (0 : Uint64).toNat = 0 from rfl] at hpa
    omega
  intro r hr
  rcases mem_imageRegions.mp (List.mem_map_of_mem hr) with heq | heq | heq | heq | heq
  · exact heq ▸ hne himage.text_at (by omega)
  · exact heq ▸ hne himage.rodata_at (by omega)
  · exact heq ▸ hne himage.data_at (by omega)
  · exact heq ▸ hne himage.cpu_at (by omega)
  · exact heq ▸ hne himage.ram_at (by omega)

/-- No page belongs to two regions. -/
theorem kernelRegions_nodup (htp : tp.toNat < dtbNrCpus) :
    ((kernelRegions layout tp).flatMap Region.indices).Nodup := by
  have himage := imageAt layout htp
  have hfits : ∀ r ∈ kernelRegions layout tp, Fits r := kernelRegions_fits htp
  have happart : (kernelRegions layout tp).Pairwise fun r r' =>
      pageIndex 0 r.va + r.pages ≤ pageIndex 0 r'.va ∨
        pageIndex 0 r'.va + r'.pages ≤ pageIndex 0 r.va := by
    obtain ⟨h₁, h₂, h₃, h₄, h₅, h₆, h₇, h₈, h₉, h₁₀, h₁₁, h₁₂, h₁₃, h₁₄, h₁₅⟩ := himage.toPlaced
    rw [kernelRegions, List.pairwise_append]
    refine ⟨mmioRegions_apart, ?_, fun r hr r' hr' => ?_⟩
    · simp only [imageRegions, List.map_cons, List.map_nil, List.pairwise_cons, List.mem_cons,
        List.not_mem_nil, or_false, forall_eq_or_imp, forall_eq, himage.text_at.first,
        himage.text_at.pages, himage.rodata_at.first, himage.rodata_at.pages, himage.data_at.first,
        himage.data_at.pages, himage.cpu_at.first, himage.cpu_at.pages, himage.ram_at.first,
        himage.ram_at.pages, false_imp_iff, implies_true, List.Pairwise.nil, and_true]
      omega
    · left
      have hlow := (mmio_index hr).1
      rcases mem_imageRegions.mp hr' with rfl | rfl | rfl | rfl | rfl
      · rw [himage.text_at.first]
        omega
      · rw [himage.rodata_at.first]
        omega
      · rw [himage.data_at.first]
        omega
      · rw [himage.cpu_at.first]
        omega
      · rw [himage.ram_at.first]
        omega
  rw [List.nodup_flatMap]
  refine ⟨fun r hr => ?_, happart.imp_of_mem fun {r r'} hr hr' hapart => ?_⟩
  · rw [(hfits r hr).indices_eq]
    exact List.nodup_range'
  · show List.Disjoint r.indices r'.indices
    rw [(hfits r hr).indices_eq, (hfits r' hr').indices_eq]
    intro n hn hn'
    rw [List.mem_range'_1] at hn hn'
    omega

end AllRegions

section Properties

/-- The byte is mapped to the physical address, with the given flags. -/
def MapsByte (read : Uint64 → Uint64) (root va : Uint64) (pa : Nat) (flags : Uint64) : Prop :=
  ∃ page pte, Maps read root va page pte ∧ page.toNat + va.toNat % 4096 = pa ∧
    pte &&& 0x3ff = flags ||| pteV

def InSection (sec : ImageSection) (kva : Uint64) : Prop := sec.start ≤ kva ∧ kva < sec.stop

/-- The physical page holds a byte of the section. -/
def HasPage (sec : ImageSection) (page : Uint64) : Prop :=
  kva2pa sec.start ≤ page ∧ page < kva2pa sec.stop

/-- The parts of the address space of a hart: where they are and with which rights. -/
structure Parts (layout : ImageLayout) (tp : Uint64) (read : Uint64 → Uint64) (root : Uint64) :
    Prop where
  device : ∀ r ∈ mmioRegions, ∀ pa : Uint64, r.pa ≤ pa → pa.toNat < r.pa.toNat + 4096 * r.pages →
    MapsByte read root pa pa.toNat mmioFlags
  text : ∀ kva, InSection layout.text kva →
    MapsByte read root kva (kva2pa kva).toNat (pteR ||| pteX ||| pteG)
  rodata : ∀ kva, InSection layout.rodata kva →
    MapsByte read root kva (kva2pa kva).toNat (pteR ||| pteG)
  data : ∀ kva, InSection layout.data kva →
    MapsByte read root kva (kva2pa kva).toNat (pteR ||| pteW ||| pteG)
  cpuStruct : ∀ offset : Uint64, offset.toNat < sizeofCpu →
    MapsByte read root (vasCpuStruct + offset) ((kva2pa (mycpu layout 0 tp)).toNat + offset.toNat)
      (pteR ||| pteW)
  ram : ∀ kva, layout.dynamic.addr ≤ kva → kva < vasKernel + dtbMemorySize →
    MapsByte read root (kva2kpa kva) (kva2pa kva).toNat (pteR ||| pteW ||| pteG)

/-- What the address space of a hart excludes. -/
structure Protected (layout : ImageLayout) (tp : Uint64) (read : Uint64 → Uint64) (root : Uint64) :
    Prop where
  write_xor_exec : ∀ va va' page pte pte', Maps read root va page pte →
    Maps read root va' page pte' → pte &&& pteW ≠ 0 → pte' &&& pteX = 0
  read_only : ∀ va page pte, Maps read root va page pte →
    HasPage layout.text page ∨ HasPage layout.rodata page → pte &&& pteW = 0
  own_cpu : ∀ va page pte, Maps read root va page pte → HasPage layout.cpuStructs page →
    ∃ k < 3, va.toNat / 4096 = vasCpuStruct.toNat / 4096 + k ∧
      page.toNat = (kva2pa (mycpu layout 0 tp)).toNat + 4096 * k

variable {layout : ImageLayout} {tp : Uint64} {read : Uint64 → Uint64} {root : Uint64}

/-- The walk finds what the regions say. -/
def MapsRegions (layout : ImageLayout) (tp : Uint64) (read : Uint64 → Uint64) (root : Uint64) :
    Prop :=
  ∀ va page pte, Maps read root va page pte ↔ IsCanonical va ∧
    ∃ r ∈ kernelRegions layout tp, ∃ k < r.pages, pageIndex 0 va = pageIndex 0 r.va + k ∧
      page.toNat = r.pa.toNat + 4096 * k ∧
      pte = leafEntry (r.pa + BitVec.ofNat 64 (4096 * k)) (toInt r.flags)

/-- A byte of a region is mapped. -/
theorem MapsRegions.mapsByte (h : MapsRegions layout tp read root) (htp : tp.toNat < dtbNrCpus)
    {r : Region} (hr : r ∈ kernelRegions layout tp) {va : Uint64} (hcanonical : IsCanonical va)
    {k : Nat} (hk : k < r.pages) (hindex : pageIndex 0 va = pageIndex 0 r.va + k) {pa : Nat}
    (hpa : r.pa.toNat + 4096 * k + va.toNat % 4096 = pa) : MapsByte read root va pa r.flags := by
  have hfits := kernelRegions_fits htp r hr
  have hframe := hfits.toNat_frame hk
  refine ⟨_, _, (h va _ _).mpr ⟨hcanonical, r, hr, k, hk, hindex, hframe, rfl⟩, ?_,
    leafEntry_and_flags _ hfits.flags⟩
  rw [hframe, hpa]

theorem mem_kernelRegions {r : Region} (hr : r ∈ (imageRegions layout tp).map Prod.snd) :
    r ∈ kernelRegions layout tp :=
  List.mem_append_right _ hr

/-- A section is mapped at its own addresses. -/
theorem MapsRegions.section (h : MapsRegions layout tp read root) (htp : tp.toNat < dtbNrCpus)
    {sec : ImageSection} {flags : Uint64} (hr : sectionRegion sec flags ∈ kernelRegions layout tp)
    (hlower : 0xffffffc000000000 ≤ sec.start.toNat) (hupper : sec.stop.toNat ≤ 0xffffffc010000000)
    {kva : Uint64} (hkva : InSection sec kva) :
    MapsByte read root kva (kva2pa kva).toNat flags := by
  have hat := sectionRegion_at flags hlower hupper
  have haligned := ImageSection.toNat_mod sec
  have hlow : sec.start.toNat ≤ kva.toNat := hkva.1
  have hhigh : kva.toNat < sec.stop.toNat := hkva.2
  have hpa := toNat_kva2pa (show 0xffffffc000000000 ≤ kva.toNat by omega)
  apply h.mapsByte htp hr (k := (kva.toNat - sec.start.toNat) / 4096)
  · rw [isCanonical_iff]
    omega
  · rw [hat.pages]
    omega
  · rw [hat.first, pageIndex_zero]
    omega
  · rw [hat.pa, hpa]
    omega

theorem MapsRegions.parts (h : MapsRegions layout tp read root) (htp : tp.toNat < dtbNrCpus) :
    Parts layout tp read root := by
  have himage := imageAt layout htp
  obtain ⟨h₁, h₂, h₃, h₄, h₅, h₆, h₇, h₈, h₉, h₁₀, h₁₁, h₁₂, h₁₃, h₁₄, h₁₅⟩ := himage.toPlaced
  have hmycpu := toNat_mycpu layout htp
  have hhart := himage.hart
  have hcpuPa := toNat_kva2pa (show 0xffffffc000000000 ≤ (mycpu layout 0 tp).toNat by omega)
  refine ⟨fun r hr pa hlow hhigh => ?_, fun kva hkva => ?_, fun kva hkva => ?_,
    fun kva hkva => ?_, fun offset hoffset => ?_, fun kva hlow hhigh => ?_⟩
  · obtain ⟨hva, hflags, haligned, -, hend⟩ := mmioRegions_spec r hr
    have hfirst := (mmio_index hr).2
    have hle : r.pa.toNat ≤ pa.toNat := hlow
    rw [← hflags]
    apply h.mapsByte htp (List.mem_append_left _ hr) (k := (pa.toNat - r.pa.toNat) / 4096)
    · rw [isCanonical_iff]
      omega
    · omega
    · rw [hfirst, pageIndex_zero]
      omega
    · omega
  · exact h.section htp (mem_kernelRegions (mem_imageRegions.mpr (.inl rfl))) h₆ (by omega) hkva
  · exact h.section htp (mem_kernelRegions (mem_imageRegions.mpr (.inr (.inl rfl)))) (by omega)
      (by omega) hkva
  · exact h.section htp (mem_kernelRegions (mem_imageRegions.mpr (.inr (.inr (.inl rfl)))))
      (by omega) (by omega) hkva
  · have hsize : offset.toNat < 12288 := hoffset
    have hbase : vasCpuStruct.toNat = 0xffffffc040000000 := rfl
    have hva : (vasCpuStruct + offset).toNat = 0xffffffc040000000 + offset.toNat := by
      rw [BitVec.toNat_add, hbase]
      omega
    apply h.mapsByte htp (r := cpuRegion layout tp)
      (mem_kernelRegions (mem_imageRegions.mpr (.inr (.inr (.inr (.inl rfl))))))
      (k := offset.toNat / 4096)
    · rw [isCanonical_iff, hva]
      omega
    · rw [himage.cpu_at.pages]
      omega
    · rw [himage.cpu_at.first, pageIndex_zero, hva]
      omega
    · rw [himage.cpu_at.pa, hcpuPa, hmycpu, hva]
      omega
  · have hle : layout.dynamic.addr.toNat ≤ kva.toNat := hlow
    have hlt : kva.toNat < 0xffffffc010000000 := hhigh
    have hpa := toNat_kva2pa (show 0xffffffc000000000 ≤ kva.toNat by omega)
    have hva : (kva2kpa kva).toNat = kva.toNat + 0x2000000000 := by
      rw [kva2kpa, BitVec.toNat_add, BitVec.toNat_sub, vasKernel_toNat, vasRam_toNat]
      omega
    apply h.mapsByte htp (r := ramRegion layout.dynamic)
      (mem_kernelRegions (mem_imageRegions.mpr (.inr (.inr (.inr (.inr rfl))))))
      (k := (kva.toNat - layout.dynamic.addr.toNat) / 4096)
    · rw [isCanonical_iff, hva]
      omega
    · rw [himage.ram_at.pages]
      omega
    · rw [himage.ram_at.first, pageIndex_zero, hva]
      omega
    · rw [himage.ram_at.pa, hpa, hva]
      omega

/-- The rights of a leaf are those of its region. -/
theorem leaf_and {r : Region} (hfits : Fits r) (k : Nat) {mask : Uint64}
    (hmask : 0x3ff &&& mask = mask) :
    leafEntry (r.pa + BitVec.ofNat 64 (4096 * k)) (toInt r.flags) &&& mask =
      (r.flags ||| pteV) &&& mask :=
  and_of_and_mask (leafEntry_and_flags _ hfits.flags) hmask

/-- A writable page is a device, in `.data`, in the own `struct cpu` or in RAM behind
the image. -/
theorem pa_of_writable (himage : ImageAt layout tp) {r : Region}
    (hr : r ∈ kernelRegions layout tp) (hw : (r.flags ||| pteV) &&& pteW ≠ 0) {k : Nat}
    (hk : k < r.pages) :
    r.pa.toNat + 4096 * k < 0x80000000 ∨
      layout.data.start.toNat - 0xffffffc000000000 + 0x80000000 ≤ r.pa.toNat + 4096 * k := by
  obtain ⟨h₁, h₂, h₃, h₄, h₅, h₆, h₇, h₈, h₉, h₁₀, h₁₁, h₁₂, h₁₃, h₁₄, h₁₅⟩ := himage.toPlaced
  rcases List.mem_append.mp hr with hr | hr
  · obtain ⟨-, -, -, -, hend⟩ := mmioRegions_spec r hr
    omega
  · rcases mem_imageRegions.mp hr with rfl | rfl | rfl | rfl | rfl
    · exact (hw (show (pteR ||| pteX ||| pteG ||| pteV) &&& pteW = 0 by decide)).elim
    · exact (hw (show (pteR ||| pteG ||| pteV) &&& pteW = 0 by decide)).elim
    · rw [himage.data_at.pa]
      omega
    · rw [himage.cpu_at.pa]
      omega
    · rw [himage.ram_at.pa]
      omega

/-- An executable page is in `.text`. -/
theorem pa_of_executable (himage : ImageAt layout tp) {r : Region}
    (hr : r ∈ kernelRegions layout tp) (hx : (r.flags ||| pteV) &&& pteX ≠ 0) {k : Nat}
    (hk : k < r.pages) :
    0x80000000 ≤ r.pa.toNat + 4096 * k ∧ r.pa.toNat + 4096 * k <
      layout.rodata.start.toNat - 0xffffffc000000000 + 0x80000000 := by
  obtain ⟨h₁, h₂, h₃, h₄, h₅, h₆, h₇, h₈, h₉, h₁₀, h₁₁, h₁₂, h₁₃, h₁₄, h₁₅⟩ := himage.toPlaced
  rcases List.mem_append.mp hr with hr | hr
  · obtain ⟨-, hflags, -⟩ := mmioRegions_spec r hr
    rw [hflags] at hx
    exact absurd rfl hx
  · rcases mem_imageRegions.mp hr with rfl | rfl | rfl | rfl | rfl
    · rw [himage.text_at.pages] at hk
      rw [himage.text_at.pa]
      omega
    · exact (hx (show (pteR ||| pteG ||| pteV) &&& pteX = 0 by decide)).elim
    · exact (hx (show (pteR ||| pteW ||| pteG ||| pteV) &&& pteX = 0 by decide)).elim
    · exact (hx (show (pteR ||| pteW ||| pteV) &&& pteX = 0 by decide)).elim
    · exact (hx (show (pteR ||| pteW ||| pteG ||| pteV) &&& pteX = 0 by decide)).elim

/-- A page of `.cpu_structs` is mapped in the region of the own `struct cpu` only. -/
theorem eq_cpuRegion (himage : ImageAt layout tp) {r : Region} (hr : r ∈ kernelRegions layout tp)
    {k : Nat} (hk : k < r.pages)
    (hlow : layout.cpuStructs.start.toNat - 0xffffffc000000000 + 0x80000000 ≤
      r.pa.toNat + 4096 * k)
    (hhigh : r.pa.toNat + 4096 * k <
      layout.cpuStructs.stop.toNat - 0xffffffc000000000 + 0x80000000) : r = cpuRegion layout tp := by
  obtain ⟨h₁, h₂, h₃, h₄, h₅, h₆, h₇, h₈, h₉, h₁₀, h₁₁, h₁₂, h₁₃, h₁₄, h₁₅⟩ := himage.toPlaced
  rcases List.mem_append.mp hr with hr | hr
  · obtain ⟨-, -, -, -, hend⟩ := mmioRegions_spec r hr
    omega
  · rcases mem_imageRegions.mp hr with rfl | rfl | rfl | rfl | rfl
    · rw [himage.text_at.pages] at hk
      rw [himage.text_at.pa] at hlow
      omega
    · rw [himage.rodata_at.pages] at hk
      rw [himage.rodata_at.pa] at hlow
      omega
    · rw [himage.data_at.pages] at hk
      rw [himage.data_at.pa] at hlow
      omega
    · rfl
    · rw [himage.ram_at.pa] at hhigh
      omega

theorem MapsRegions.protected (h : MapsRegions layout tp read root) (htp : tp.toNat < dtbNrCpus) :
    Protected layout tp read root := by
  have himage := imageAt layout htp
  have hfits : ∀ r ∈ kernelRegions layout tp, Fits r := kernelRegions_fits htp
  obtain ⟨h₁, h₂, h₃, h₄, h₅, h₆, h₇, h₈, h₉, h₁₀, h₁₁, h₁₂, h₁₃, h₁₄, h₁₅⟩ := himage.toPlaced
  refine ⟨fun va va' page pte pte' hmaps hmaps' hw => ?_, fun va page pte hmaps hpage => ?_,
    fun va page pte hmaps hpage => ?_⟩
  · obtain ⟨-, r, hr, k, hk, -, hpa, rfl⟩ := (h va page pte).mp hmaps
    obtain ⟨-, r', hr', k', hk', -, hpa', rfl⟩ := (h va' page pte').mp hmaps'
    rw [leaf_and (hfits r hr) k (by decide)] at hw
    rw [leaf_and (hfits r' hr') k' (by decide)]
    by_contra hx
    have hwritable := pa_of_writable himage hr hw hk
    have hexecutable := pa_of_executable himage hr' hx hk'
    omega
  · obtain ⟨-, r, hr, k, hk, -, hpa, rfl⟩ := (h va page pte).mp hmaps
    rw [leaf_and (hfits r hr) k (by decide)]
    by_contra hw
    have hwritable := pa_of_writable himage hr hw hk
    rcases hpage with ⟨hlow, hhigh⟩ | ⟨hlow, hhigh⟩
    · rw [BitVec.le_def, toNat_kva2pa (by omega)] at hlow
      rw [BitVec.lt_def, toNat_kva2pa (by omega)] at hhigh
      omega
    · rw [BitVec.le_def, toNat_kva2pa (by omega)] at hlow
      rw [BitVec.lt_def, toNat_kva2pa (by omega)] at hhigh
      omega
  · obtain ⟨hcanonical, r, hr, k, hk, hindex, hpa, rfl⟩ := (h va page pte).mp hmaps
    obtain ⟨hlow, hhigh⟩ := hpage
    rw [BitVec.le_def, toNat_kva2pa (by omega)] at hlow
    rw [BitVec.lt_def, toNat_kva2pa (by omega)] at hhigh
    obtain rfl := eq_cpuRegion himage hr hk (by omega) (by omega)
    have hbase : vasCpuStruct.toNat = 0xffffffc040000000 := rfl
    have hmycpu := toNat_mycpu layout htp
    have hlt := va.isLt
    rw [himage.cpu_at.pages] at hk
    rw [himage.cpu_at.first, pageIndex_zero] at hindex
    rw [himage.cpu_at.pa] at hpa
    rw [isCanonical_iff] at hcanonical
    refine ⟨k, hk, by omega, ?_⟩
    rw [hpa, toNat_kva2pa (by omega), hmycpu]

/-- The page at address 0 is in no region. -/
theorem MapsRegions.unmapped_null (h : MapsRegions layout tp read root) (htp : tp.toNat < dtbNrCpus)
    {va : Uint64} (hnull : nullWord va) (page pte : Uint64) : ¬ Maps read root va page pte := by
  intro hmaps
  have himage := imageAt layout htp
  obtain ⟨-, r, hr, k, -, hindex, -⟩ := (h va page pte).mp hmaps
  have hva := (mem_nullPage va).mp hnull
  rw [pageIndex_zero] at hindex
  rcases List.mem_append.mp hr with hr | hr
  · obtain ⟨-, -, haligned, hpa, -⟩ := mmioRegions_spec r hr
    have hne := mt BitVec.eq_of_toNat_eq hpa
    have hzero : (0 : Uint64).toNat = 0 := rfl
    rw [(mmio_index hr).2] at hindex
    omega
  · rcases mem_imageRegions.mp hr with rfl | rfl | rfl | rfl | rfl
    · rw [himage.text_at.first] at hindex
      omega
    · rw [himage.rodata_at.first] at hindex
      omega
    · rw [himage.data_at.first] at hindex
      omega
    · rw [himage.cpu_at.first] at hindex
      omega
    · rw [himage.ram_at.first] at hindex
      omega

end Properties

section Boot

/-- The hart id in `tp`. -/
def tpOf (hart : Fin dtbNrCpus) : Uint64 := BitVec.ofNat 64 hart.val

theorem toNat_tpOf (hart : Fin dtbNrCpus) : (tpOf hart).toNat < dtbNrCpus := by
  have hlt := hart.isLt
  have htwo : dtbNrCpus = 2 := rfl
  rw [tpOf, BitVec.toNat_ofNat]
  omega

/-- The harts at the start of `init_vmem`. -/
def vmemPool (layout : ImageLayout) (s : KernelMem) :
    Pool (heapEffect Uint64) Uint64 KernelMem (Fin dtbNrCpus) where
  threads hart := initVmem layout (tpOf hart)
  shared := s

/-- No `kmalloc` of the run fails. -/
def AllocationsSucceed {α ι : Type} [DecidableEq ι] (c : Pool (heapEffect Uint64) α KernelMem ι)
    (schedule : List ι) : Prop :=
  GuardedRun (poolStep heapHandler)
    (fun d i => ∀ k, d.threads i = .access .pop k → d.shared.freelist ≠ 0) c schedule

theorem homes_empty {ι : Type} (dynamic : DynamicSymbol) :
    Homes (kernelLayout dynamic) fun _ : ι => ∅ where
  disjoint _ _ _ := Set.disjoint_empty _
  disjoint_block _ _ _ := Set.empty_disjoint _
  disjoint_scratch _ := Set.empty_disjoint _

variable {layout : ImageLayout}

/-- The tree of a hart says what the hardware finds. -/
theorem mapsRegions_of_built {tp root : Uint64} {T : Tables} {l : Share Uint64}
    {mem : Uint64 → Uint64} (htp : tp.toNat < dtbNrCpus) (h : Built layout tp root T l)
    (hmem : ∀ a, l.Owns (kernelLayout layout.dynamic) ∅ a → mem a = l.view a) :
    MapsRegions layout tp (physRead layout.dynamic mem) (kpa2pa root) :=
  maps_iff_of_complete (kernelRegions_fits htp) h.valid h.tree h.complete hmem

theorem ensures_vmemPool (layout : ImageLayout) (s : KernelMem) {fails : Prop}
    (hart : Fin dtbNrCpus) :
    Ensures (kernelLayout layout.dynamic) fails ∅ ((vmemPool layout s).threads hart).attempt
      ⟨s.mem, []⟩ fun res l' =>
        (∃ T, Accounted 1 ((kernelRegions layout (tpOf hart)).flatMap Region.indices) ⟨s.mem, []⟩ T
          l') ∧
          ((∃ root T, res = .ok root ∧ Built layout (tpOf hart) root T l') ∨
            (fails ∧ ∃ message, res = .error message ∧ message ≠ "tried to remap page")) :=
  ensures_attempt_initVmem (imageRegions_pa_ne_zero (toNat_tpOf hart))
    (kernelRegions_nodup (toNat_tpOf hart)) _

theorem vmemPool_ne_panic {s : KernelMem} {free : List Uint64}
    (hfree : FreePages layout.dynamic s free) {schedule : List (Fin dtbNrCpus)}
    {c : Pool (heapEffect Uint64) Uint64 KernelMem (Fin dtbNrCpus)}
    (hrun : run (poolStep heapHandler) (vmemPool layout s) schedule = some c)
    (hsucceed : AllocationsSucceed (vmemPool layout s) schedule) (hart : Fin dtbNrCpus)
    (message : String) : c.threads hart ≠ .panic message := by
  intro hpanic
  have hsep := separated_of_freePages hfree fun _ : Fin dtbNrCpus => (∅ : Set Uint64)
  obtain ⟨shares, free', -, hend⟩ := hsep.run_attempt (c := vmemPool layout s)
    (homes_empty layout.dynamic) (ensures_vmemPool layout s) hsucceed hrun
  have hhart := hend hart
  rw [hpanic] at hhart
  obtain ⟨-, ⟨root, T, hok, -⟩ | ⟨hfalse, -⟩⟩ := hhart
  · cases hok
  · exact hfalse

/-- A table that has been returned maps the regions. -/
theorem mapsRegions_of_run {s : KernelMem} {free : List Uint64}
    (hfree : FreePages layout.dynamic s free) {schedule : List (Fin dtbNrCpus)}
    {c : Pool (heapEffect Uint64) Uint64 KernelMem (Fin dtbNrCpus)}
    (hrun : run (poolStep heapHandler) (vmemPool layout s) schedule = some c)
    {hart : Fin dtbNrCpus} {root : Uint64} (hdone : c.threads hart = .done root) :
    MapsRegions layout (tpOf hart) (physRead layout.dynamic c.shared.mem) (kpa2pa root) := by
  have hsep := separated_of_freePages hfree fun _ : Fin dtbNrCpus => (∅ : Set Uint64)
  obtain ⟨shares, free', hsep', hend⟩ := hsep.run_attempt (c := vmemPool layout s)
    (homes_empty layout.dynamic)
    (ensures_vmemPool layout s) (guardedRun_of_forall (fun _ _ _ _ _ => trivial) _ _) hrun
  have hhart := hend hart
  rw [hdone] at hhart
  obtain ⟨-, ⟨root', T, hok, hbuilt⟩ | ⟨-, message, herror, -⟩⟩ := hhart
  · cases hok
    exact mapsRegions_of_built (toNat_tpOf hart) hbuilt fun a ha => hsep'.agree hart a ha
  · cases herror

/-- Whatever the interleaving of the harts: no `init_vmem` meets a page that has a leaf
already, none panics unless a `kmalloc` fails, and a table that has been returned is
the address space of its hart, in which no page is both writable and executable. -/
theorem initVmem_protects (layout : ImageLayout) {s : KernelMem} {free : List Uint64}
    (hfree : FreePages layout.dynamic s free) {schedule : List (Fin dtbNrCpus)}
    {c : Pool (heapEffect Uint64) Uint64 KernelMem (Fin dtbNrCpus)}
    (hrun : run (poolStep heapHandler) (vmemPool layout s) schedule = some c)
    (hart : Fin dtbNrCpus) :
    c.threads hart ≠ .panic "tried to remap page" ∧
      (AllocationsSucceed (vmemPool layout s) schedule →
        ∀ message, c.threads hart ≠ .panic message) ∧
      ∀ root, c.threads hart = .done root →
        Parts layout (tpOf hart) (physRead layout.dynamic c.shared.mem) (kpa2pa root) ∧
          Protected layout (tpOf hart) (physRead layout.dynamic c.shared.mem) (kpa2pa root) := by
  refine ⟨fun hpanic => ?_, fun hsucceed => vmemPool_ne_panic hfree hrun hsucceed hart,
    fun root hdone => ?_⟩
  · have hsep := separated_of_freePages hfree fun _ : Fin dtbNrCpus => (∅ : Set Uint64)
    obtain ⟨shares, free', -, hend⟩ := hsep.run_attempt (c := vmemPool layout s)
      (homes_empty layout.dynamic)
      (ensures_vmemPool layout s) (guardedRun_of_forall (fun _ _ _ _ _ => trivial) _ _) hrun
    have hhart := hend hart
    rw [hpanic] at hhart
    obtain ⟨-, ⟨root, T, hok, -⟩ | ⟨-, message, herror, hne⟩⟩ := hhart
    · cases hok
    · cases herror
      exact hne rfl
  · have hmaps := mapsRegions_of_run hfree hrun hdone
    exact ⟨hmaps.parts (toNat_tpOf hart), hmaps.protected (toNat_tpOf hart)⟩

/-- No hart can access the null page in its address space, so a `kmalloc` that clears
it traps. -/
theorem initVmem_unmapped_null {s : KernelMem} {free : List Uint64}
    (hfree : FreePages layout.dynamic s free) {schedule : List (Fin dtbNrCpus)}
    {c : Pool (heapEffect Uint64) Uint64 KernelMem (Fin dtbNrCpus)}
    (hrun : run (poolStep heapHandler) (vmemPool layout s) schedule = some c)
    {hart : Fin dtbNrCpus} {root : Uint64} (hdone : c.threads hart = .done root) {va : Uint64}
    (hnull : nullWord va) (page pte : Uint64) :
    ¬ Maps (physRead layout.dynamic c.shared.mem) (kpa2pa root) va page pte :=
  (mapsRegions_of_run hfree hrun hdone).unmapped_null (toNat_tpOf hart) hnull page pte

end Boot

section Supply

/-- The tables that the regions can need below the root, by level and key. -/
def vmemTables : List (Nat × Nat) :=
  (List.range 512).map (Prod.mk 0) ++ ((List.range' (2 ^ 17) 128).map (Prod.mk 0) ++
    ((List.range' (3 * 2 ^ 16) 128).map (Prod.mk 0) ++
      [(0, 2 ^ 17 + 2 ^ 9), (1, 0), (1, 2 ^ 8), (1, 2 ^ 8 + 1), (1, 3 * 2 ^ 7)]))

theorem vmemTables_length : vmemTables.length = 773 := by simp [vmemTables]

theorem mem_vmemTables {m level : Nat} (hlevel : level < 2)
    (hm : m < 2 ^ 18 ∨ (2 ^ 26 ≤ m ∧ m < 2 ^ 26 + 2 ^ 16) ∨
      (2 ^ 26 + 2 ^ 18 ≤ m ∧ m < 2 ^ 26 + 2 ^ 18 + 3) ∨
      (2 ^ 26 + 2 ^ 25 ≤ m ∧ m < 2 ^ 26 + 2 ^ 25 + 2 ^ 16)) :
    (level, m / 512 ^ (level + 1)) ∈ vmemTables := by
  simp only [vmemTables, List.mem_append, List.mem_map, List.mem_range, List.mem_range'_1,
    Prod.mk.injEq, List.mem_cons, List.not_mem_nil, or_false]
  rcases (show level = 0 ∨ level = 1 by omega) with rfl | rfl
  · rcases hm with hm | hm | hm | hm
    · exact .inl ⟨m / 512 ^ (0 + 1), by omega, rfl, rfl⟩
    · exact .inr (.inl ⟨m / 512 ^ (0 + 1), by omega, rfl, rfl⟩)
    · exact .inr (.inr (.inr (.inl ⟨rfl, by omega⟩)))
    · exact .inr (.inr (.inl ⟨m / 512 ^ (0 + 1), by omega, rfl, rfl⟩))
  · omega

variable {layout : ImageLayout} {tp : Uint64}

theorem kernelIndices_mem_vmemTables (htp : tp.toNat < dtbNrCpus) :
    ∀ m ∈ (kernelRegions layout tp).flatMap Region.indices, ∀ level < 2,
      (level, m / 512 ^ (level + 1)) ∈ vmemTables := by
  have himage := imageAt layout htp
  obtain ⟨h₁, h₂, h₃, h₄, h₅, h₆, h₇, h₈, h₉, h₁₀, h₁₁, h₁₂, h₁₃, h₁₄, h₁₅⟩ := himage.toPlaced
  intro m hm level hlevel
  obtain ⟨r, hr, hin⟩ := List.mem_flatMap.mp hm
  rw [(kernelRegions_fits htp r hr).indices_eq, List.mem_range'_1] at hin
  apply mem_vmemTables hlevel
  rcases List.mem_append.mp hr with hr | hr
  · have hindex := (mmio_index hr).1
    omega
  · rcases mem_imageRegions.mp hr with rfl | rfl | rfl | rfl | rfl
    · rw [himage.text_at.first, himage.text_at.pages] at hin
      omega
    · rw [himage.rodata_at.first, himage.rodata_at.pages] at hin
      omega
    · rw [himage.data_at.first, himage.data_at.pages] at hin
      omega
    · rw [himage.cpu_at.first, himage.cpu_at.pages] at hin
      omega
    · rw [himage.ram_at.first, himage.ram_at.pages] at hin
      omega

/-- A hart holds at most the root and the tables below it. -/
theorem held_length_le (htp : tp.toNat < dtbNrCpus) {mem : Uint64 → Uint64} {T : Tables}
    {l : Share Uint64} (h : Accounted 1 ((kernelRegions layout tp).flatMap Region.indices)
      ⟨mem, []⟩ T l) {pages : List Uint64} (hnodup : pages.Nodup)
    (hheld : ∀ page ∈ pages, page ∈ l.blocks) : pages.length ≤ 774 := by
  have hlength := h.length_le rfl hnodup hheld vmemTables (kernelIndices_mem_vmemTables htp)
  rw [vmemTables_length] at hlength
  omega

theorem vmemPool_succeeds {s : KernelMem} {free : List Uint64}
    (hfree : FreePages layout.dynamic s free) (henough : 774 * dtbNrCpus < free.length)
    (schedule : List (Fin dtbNrCpus)) : AllocationsSucceed (vmemPool layout s) schedule := by
  have hsep := separated_of_freePages hfree fun _ : Fin dtbNrCpus => (∅ : Set Uint64)
  refine allocations_succeed (homes_empty layout.dynamic) ?_
    (show ∑ _hart : Fin dtbNrCpus, 774 < free.length from henough) hfree.nodup
    (c := vmemPool layout s) hsep (ensures_vmemPool layout s)
    (fun i => uses_initVmem layout (tpOf i)) (fun page hpage => .inl hpage) schedule
  rintro i r l ⟨⟨T, haccounted⟩, -⟩ pages hnodup hheld
  exact held_length_le (toNat_tpOf i) haccounted hnodup hheld

/-- With 774 free pages for each hart and one more, no `kmalloc` fails in any
interleaving, so every hart gets on until it has returned its root. -/
theorem initVmem_returns (layout : ImageLayout) {s : KernelMem} {free : List Uint64}
    (hfree : FreePages layout.dynamic s free) (henough : 774 * dtbNrCpus < free.length)
    {schedule : List (Fin dtbNrCpus)} {c : Pool (heapEffect Uint64) Uint64 KernelMem (Fin dtbNrCpus)}
    (hrun : run (poolStep heapHandler) (vmemPool layout s) schedule = some c)
    (hart : Fin dtbNrCpus) :
    AllocationsSucceed (vmemPool layout s) schedule ∧
      ((∃ root, c.threads hart = .done root) ∨ ∃ d, poolStep heapHandler c hart = some d) := by
  have hsucceed := vmemPool_succeeds hfree henough schedule
  refine ⟨hsucceed, ?_⟩
  cases hthread : c.threads hart with
  | done root => exact .inl ⟨root, rfl⟩
  | panic message => exact absurd hthread (vmemPool_ne_panic hfree hrun hsucceed hart message)
  | access o k => exact .inr ⟨_, by rw [poolStep, hthread]⟩

end Supply

section Sample

/-- A small image; `.text`, `.rodata`, `.data` and `.vm_images` end within a page. -/
def sampleLayout : ImageLayout where
  text := ⟨0xffffffc000204000, 0xffffffc000209a34, by decide, by decide⟩
  rodata := ⟨0xffffffc00020a000, 0xffffffc00020a8f1, by decide, by decide⟩
  data := ⟨0xffffffc00020b000, 0xffffffc000216010, by decide, by decide⟩
  cpuStructs := ⟨0xffffffc000217000, 0xffffffc00021d000, by decide, by decide⟩
  vmImages := ⟨0xffffffc00021d000, 0xffffffc000280123, by decide, by decide⟩
  dynamic := ⟨0xffffffc000281000, by decide, by decide, by decide⟩
  lower := by decide
  text_rodata := by decide
  rodata_data := by decide
  data_cpuStructs := by decide
  cpus := by decide
  cpuStructs_vmImages := by decide
  vmImages_dynamic := by decide

/-- The free list that `init_kmem` leaves behind for the small image. -/
theorem sampleLayout_freePages : ∃ s free, FreePages sampleLayout.dynamic s free ∧
    774 * dtbNrCpus < free.length := by
  obtain ⟨s, free, -, hlinked, hnodup, hlength, hmem⟩ :=
    exec_initKmem sampleLayout.dynamic fun _ => 0
  have haddr : sampleLayout.dynamic.addr.toNat = 0xffffffc000281000 := rfl
  have hcpus : dtbNrCpus = 2 := rfl
  exact ⟨s, free, ⟨hlinked, hnodup, fun page hpage => (hmem page).mp hpage⟩, by omega⟩

/-- The two harts build their tables in turn until one of them has returned; then the
other one does the rest. -/
theorem exists_sample_run : ∃ s free n rest d c, FreePages sampleLayout.dynamic s free ∧
    774 * dtbNrCpus < free.length ∧
    run (poolStep heapHandler) (vmemPool sampleLayout s) (List.replicate n [0, 1]).flatten = some d ∧
    (∃ hart root, d.threads hart = .done root) ∧ run (poolStep heapHandler) d rest = some c ∧
    ∀ hart, ∃ root, c.threads hart = .done root := by
  obtain ⟨s, free, hfree, henough⟩ := sampleLayout_freePages
  obtain ⟨n, d, hturns, hart, hfirst⟩ :=
    exists_run_turns heapHandler (vmemPool sampleLayout s) (show (0 : Fin dtbNrCpus) ≠ 1 by decide)
  obtain ⟨rest, c, hrest, hend⟩ := exists_run_all heapHandler d
  have hrun := run_trans hturns hrest
  have hpanics := vmemPool_ne_panic hfree hturns (vmemPool_succeeds hfree henough _)
  have hpanics' := vmemPool_ne_panic hfree hrun (vmemPool_succeeds hfree henough _)
  refine ⟨s, free, n, rest, d, c, hfree, henough, hturns, ⟨hart, ?_⟩, hrest, fun hart => ?_⟩
  · exact hfirst.resolve_right fun ⟨message, hpanic⟩ => hpanics hart message hpanic
  · exact (hend hart).resolve_right fun ⟨message, hpanic⟩ => hpanics' hart message hpanic

theorem initVmem_protects_turns : ∃ s n rest d c,
    run (poolStep heapHandler) (vmemPool sampleLayout s) (List.replicate n [0, 1]).flatten = some d ∧
      (∃ hart root, d.threads hart = .done root) ∧ run (poolStep heapHandler) d rest = some c ∧
      ∀ hart, ∃ root, c.threads hart = .done root ∧
        Parts sampleLayout (tpOf hart) (physRead sampleLayout.dynamic c.shared.mem) (kpa2pa root) ∧
        Protected sampleLayout (tpOf hart) (physRead sampleLayout.dynamic c.shared.mem)
          (kpa2pa root) := by
  obtain ⟨s, free, n, rest, d, c, hfree, -, hturns, hfirst, hrest, hend⟩ := exists_sample_run
  have hrun := run_trans hturns hrest
  refine ⟨s, n, rest, d, c, hturns, hfirst, hrest, fun hart => ?_⟩
  obtain ⟨root, hroot⟩ := hend hart
  exact ⟨root, hroot, (initVmem_protects sampleLayout hfree hrun hart).2.2 root hroot⟩

theorem initVmem_returns_turns : ∃ s n d,
    run (poolStep heapHandler) (vmemPool sampleLayout s) (List.replicate n [0, 1]).flatten = some d ∧
      (∃ hart root, d.threads hart = .done root) ∧
      AllocationsSucceed (vmemPool sampleLayout s) (List.replicate n [0, 1]).flatten ∧
      ∀ hart, (∃ root, d.threads hart = .done root) ∨ ∃ e, poolStep heapHandler d hart = some e := by
  obtain ⟨s, free, n, rest, d, c, hfree, henough, hturns, hfirst, -, -⟩ := exists_sample_run
  refine ⟨s, n, d, hturns, hfirst, ?_, fun hart => ?_⟩
  · exact (initVmem_returns sampleLayout hfree henough hturns 0).1
  · exact (initVmem_returns sampleLayout hfree henough hturns hart).2

end Sample

end RiscvHypervisor.KernelAddressSpace
