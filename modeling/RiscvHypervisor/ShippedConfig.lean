import RiscvHypervisor.BootMemory

/-!
The table of virtual machines in `guest/vm_config.c`, for any image that the linker
can produce, and the boot with it from `init_kmem` on.
-/

namespace RiscvHypervisor.ShippedConfig

open RiscvHypervisor.EffectProgram
open RiscvHypervisor.TransitionSystem
open RiscvHypervisor.MachineTypes
open RiscvHypervisor.GuestConfig
open RiscvHypervisor.OwnedMemory
open RiscvHypervisor.KernelMemory
open RiscvHypervisor.PageMapping
open RiscvHypervisor.HardwareWalk
open RiscvHypervisor.GuestMemory
open RiscvHypervisor.GuestIsolation
open RiscvHypervisor.InitVmem
open RiscvHypervisor.KernelAddressSpace
open RiscvHypervisor.BootMemory

def emulatedPlic : MmioDev := ⟨dtbPlic, dtbPlic, dtbPlicSize, 0, 0, 0⟩

def serial : MmioDev := ⟨dtbSerial, dtbSerial, pageSize, pteR ||| pteW, 10, 10⟩

def virtioDisk1 : MmioDev := ⟨0x10001000, 0x10001000, 0x1000, pteR ||| pteW, 1, 1⟩

def pciSerial : MmioDev := ⟨dtbPciIo, dtbSerial, pageSize, pteR ||| pteW, 33, 10⟩

def virtioDisk2 : MmioDev := ⟨0x10002000, 0x10001000, 0x1000, pteR ||| pteW, 2, 1⟩

abbrev nrVms : Nat := 2

instance : NeZero nrVms := ⟨by decide⟩

/-- `sizeof(struct vm_config)`; `vm_pgtable` takes up the second half. -/
def sizeofVmConfig : Nat := 32768

/-- `16 << 20`. -/
def guestMemorySize : Uint64 := 16 <<< 20

/-- An embedded image.  It takes up pages of its own in `.vm_images` and has to fit
into the memory of its machine. -/
structure VmImage (layout : ImageLayout) extends ImageSection where
  lower : layout.vmImages.start ≤ start
  upper : stop ≤ layout.vmImages.stop
  fits : stop.toNat ≤ start.toNat + guestMemorySize.toNat

/-- Where the linker puts the embedded images and `config`. -/
structure ConfigLayout (layout : ImageLayout) where
  vmXv6 : VmImage layout
  vmAnotherXv6 : VmImage layout
  config : Uint64
  apart : vmXv6.stop ≤ vmAnotherXv6.start ∨ vmAnotherXv6.stop ≤ vmXv6.start
  config_aligned : config % 16384 = 0
  config_lower : layout.data.start ≤ config
  config_upper : config.toNat + nrVms * sizeofVmConfig ≤ layout.data.stop.toNat

/-- `config[i].vm_pgtable`. -/
def vmPgtable {layout : ImageLayout} (p : ConfigLayout layout) (i : Fin nrVms) : Uint64 :=
  p.config + BitVec.ofNat 64 (i.val * sizeofVmConfig + 16384)

def config {layout : ImageLayout} (p : ConfigLayout layout) (i : Fin nrVms) : VmConfig :=
  match i with
  | 0 =>
      { cpuAffinity := 0x1
        imageBase := kva2pa p.vmXv6.start
        imageEnd := kva2pa p.vmXv6.stop
        memoryBase := 0x80100000
        memorySize := guestMemorySize
        devices := #v[some serial, some emulatedPlic, some virtioDisk1, none, none, none, none,
          none, none, none]
        vmPgtable := vmPgtable p 0 }
  | 1 =>
      { cpuAffinity := 0x2
        imageBase := kva2pa p.vmAnotherXv6.start
        imageEnd := kva2pa p.vmAnotherXv6.stop
        memoryBase := 0x80100000
        memorySize := guestMemorySize
        devices := #v[some pciSerial, some emulatedPlic, some virtioDisk2, none, none, none, none,
          none, none, none]
        vmPgtable := vmPgtable p 1 }

section Entries

variable {layout : ImageLayout}

/-- The embedded image of a machine. -/
def vmImage (p : ConfigLayout layout) : Fin nrVms → VmImage layout
  | 0 => p.vmXv6
  | 1 => p.vmAnotherXv6

/-- What the two entries have in common. -/
structure Entry (conf : VmConfig) (image : VmImage layout) : Prop where
  imageBase : conf.imageBase = kva2pa image.start
  imageEnd : conf.imageEnd = kva2pa image.stop
  memoryBase : conf.memoryBase = 0x80100000
  memorySize : conf.memorySize = guestMemorySize
  terminated : none ∈ conf.devices.toList
  devs : conf.devs = [serial, emulatedPlic, virtioDisk1] ∨
    conf.devs = [pciSerial, emulatedPlic, virtioDisk2]

theorem config_entry (p : ConfigLayout layout) (i : Fin nrVms) :
    Entry (config p i) (vmImage p i) := by
  match i with
  | 0 =>
      refine ⟨rfl, rfl, rfl, rfl, ?_, .inl rfl⟩
      change none ∈ [some serial, some emulatedPlic, some virtioDisk1, none, none, none, none, none,
        none, none]
      simp
  | 1 =>
      refine ⟨rfl, rfl, rfl, rfl, ?_, .inr rfl⟩
      change none ∈ [some pciSerial, some emulatedPlic, some virtioDisk2, none, none, none, none, none,
        none, none]
      simp

/-- The numbers of an embedded image. -/
structure Embedded (layout : ImageLayout) (image : VmImage layout) : Prop where
  lower : 0xffffffc000000000 ≤ image.start.toNat
  images : layout.vmImages.start.toNat ≤ image.start.toNat
  aligned : image.start.toNat % 4096 = 0
  ordered : image.start.toNat ≤ image.stop.toNat
  fits : image.stop.toNat ≤ image.start.toNat + 0x1000000
  upper : image.stop.toNat ≤ layout.dynamic.addr.toNat

theorem VmImage.embedded (image : VmImage layout) : Embedded layout image := by
  obtain ⟨-, -, -, -, -, h₁, h₂, h₃, h₄, h₅, h₆, h₇, h₈, h₉, h₁₀⟩ := placed layout
  have himages : layout.cpuStructs.stop.toNat ≤ layout.vmImages.start.toNat :=
    layout.cpuStructs_vmImages
  have hdynamic : layout.vmImages.stop.toNat ≤ layout.dynamic.addr.toNat := layout.vmImages_dynamic
  have hlower : layout.vmImages.start.toNat ≤ image.start.toNat := image.lower
  have hupper : image.stop.toNat ≤ layout.vmImages.stop.toNat := image.upper
  exact ⟨by omega, hlower, ImageSection.toNat_mod _, image.ordered, image.fits, by omega⟩

variable {conf : VmConfig} {image : VmImage layout}

/-- The image in physical memory, rounded to pages. -/
theorem Entry.image_spec (h : Entry conf image) :
    conf.imageBase.toNat = image.start.toNat - 0xffffffc000000000 + 0x80000000 ∧
      (imageSize conf).toNat = (image.stop.toNat - image.start.toNat + 4095) / 4096 * 4096 := by
  obtain ⟨hlower, himages, haligned, hordered, hfits, hupper⟩ := image.embedded
  have hhigh := layout.dynamic.toNat_le
  have hbase := toNat_kva2pa hlower
  have hstop := toNat_kva2pa (show 0xffffffc000000000 ≤ image.stop.toNat by omega)
  have hsub : (conf.imageEnd - conf.imageBase).toNat = image.stop.toNat - image.start.toNat := by
    rw [h.imageBase, h.imageEnd, BitVec.toNat_sub]
    omega
  refine ⟨by rw [h.imageBase, hbase], ?_⟩
  rw [imageSize, MemoryWellFormed.toNat_pgroundup_of_le (by omega), hsub]

/-- The devices of both machines are aligned pages outside RAM. -/
theorem devices_spec : ∀ dev ∈ [serial, emulatedPlic, virtioDisk1, pciSerial, virtioDisk2],
    dev.virtBase % pageSize = 0 ∧ dev.physBase % pageSize = 0 ∧
      dev.virtBase.toNat + dev.size.toNat ≤ 2 ^ 41 ∧ dev.physBase ≠ 0 ∧
      dev.physBase.toNat + dev.size.toNat ≤ dtbMemory.toNat ∧
      dev.perm &&& ~~~(pteR ||| pteW ||| pteX) = 0 := by
  decide

theorem Entry.mem_devices (h : Entry conf image) {dev : MmioDev} (hdev : dev ∈ conf.devs) :
    dev ∈ [serial, emulatedPlic, virtioDisk1, pciSerial, virtioDisk2] := by
  rcases h.devs with heq | heq
  · rw [heq] at hdev
    simp only [List.mem_cons, List.not_mem_nil, or_false] at hdev ⊢
    tauto
  · rw [heq] at hdev
    simp only [List.mem_cons, List.not_mem_nil, or_false] at hdev ⊢
    tauto

theorem Entry.wellFormed (h : Entry conf image) : MemoryWellFormed layout.dynamic conf := by
  obtain ⟨hlower, himages, haligned, hordered, hfits, hupper⟩ := image.embedded
  obtain ⟨hbase, hsize⟩ := h.image_spec
  have hdynamic := toNat_kva2pa layout.dynamic.le_toNat
  have hhigh := layout.dynamic.toNat_le
  have hmod := layout.dynamic.toNat_mod
  have hmemorySize : guestMemorySize.toNat = 0x1000000 := rfl
  have hmemory := dtbMemory_toNat
  have hdevices := fun dev (hdev : dev ∈ conf.devs) => devices_spec dev (h.mem_devices hdev)
  constructor
  · exact h.terminated
  · rw [h.memoryBase]
    decide
  · rw [h.memoryBase, h.memorySize]
    decide
  · apply BitVec.eq_of_toNat_eq
    rw [BitVec.toNat_umod, pageSize_toNat, hbase]
    show _ = 0
    omega
  · intro hzero
    rw [hzero, show (0 : Uint64).toNat = 0 from rfl] at hbase
    omega
  · rw [BitVec.le_def, h.memorySize, hsize, hmemorySize]
    omega
  · rw [BitVec.le_def, hbase, hmemory]
    omega
  · rw [hbase, hsize, hdynamic]
    omega
  · exact fun dev hdev => ⟨(hdevices dev hdev).1, (hdevices dev hdev).2.1⟩
  · exact fun dev hdev => (hdevices dev hdev).2.2.1
  · exact fun dev hdev => (hdevices dev hdev).2.2.2.1
  · intro dev hdev
    have hend := (hdevices dev hdev).2.2.2.2.1
    omega
  · exact fun dev hdev => .inl (hdevices dev hdev).2.2.2.2.1
  · exact fun dev hdev => (hdevices dev hdev).2.2.2.2.2

/-- The pages of a machine: its memory and its devices. -/
theorem Entry.guestIndices_eq (h : Entry conf image) :
    guestIndices conf = List.range' 0x80100 ((imageSize conf).toNat / 4096) ++
      (List.range' (0x80100 + (imageSize conf).toNat / 4096) (ramPages conf) ++
        ([0x10000] ++ List.range' 0xc000 1536 ++ [0x10001])) := by
  have hconf := h.wellFormed
  have hfits := hconf.image_le
  have hpages := hconf.ramPages_eq
  have hmod : (imageSize conf).toNat % 4096 = 0 := toNat_pgroundup_mod _
  have hround : (pgroundup guestMemorySize).toNat = 0x1000000 := by decide
  have hsize : guestMemorySize.toNat = 0x1000000 := rfl
  have hzero : (0 : Uint64).toNat = 0 := rfl
  have hbase : (0x80100000 : Uint64).toNat = 0x80100000 := rfl
  have hram := hconf.toNat_ramBase
  rw [h.memorySize] at hfits hpages
  rw [h.memoryBase] at hram
  have hfirst : pageIndex 1 ((0x80100000 : Uint64) + 0) = 0x80100 := by decide
  have hnext : pageIndex 1 ((0x80100000 : Uint64) + imageSize conf + 0) =
      0x80100 + (imageSize conf).toNat / 4096 := by
    rw [pageIndex_add (by omega)]
    omega
  have hdevices : deviceIndices conf.devs = [0x10000] ++ List.range' 0xc000 1536 ++ [0x10001] := by
    have hplic : pageIndices 1 dtbPlic 1536 0 = List.range' 0xc000 1536 := by
      have hwindow : pageIndex 1 (dtbPlic + 0) = 0xc000 := by decide
      rw [pageIndices_eq (by rw [hwindow, pageCount_one]; decide), hwindow]
    rw [← hplic]
    rcases h.devs with heq | heq
    · rw [heq]
      rfl
    · rw [heq]
      rfl
  rw [guestIndices, h.memoryBase, hdevices,
    pageIndices_eq (by rw [hfirst, pageCount_one]; omega), hfirst,
    pageIndices_eq (by rw [hnext, pageCount_one]; omega), hnext]

theorem Entry.pages_eq (h : Entry conf image) :
    (imageSize conf).toNat / 4096 + ramPages conf = 4096 := by
  have hpages := h.wellFormed.ramPages_eq
  have hmod : (imageSize conf).toNat % 4096 = 0 := toNat_pgroundup_mod _
  have hround : (pgroundup guestMemorySize).toNat = 0x1000000 := by decide
  rw [h.memorySize] at hpages
  omega

theorem Entry.indices_nodup (h : Entry conf image) : (guestIndices conf).Nodup := by
  have hpages := h.pages_eq
  have hplic : ([0x10000] ++ List.range' 0xc000 1536 : List Nat).Nodup := by
    refine List.nodup_append.mpr ⟨List.nodup_singleton _, List.nodup_range', fun n hn m hm => ?_⟩
    rw [List.mem_singleton] at hn
    rw [List.mem_range'_1] at hm
    omega
  have hdevices : ([0x10000] ++ List.range' 0xc000 1536 ++ [0x10001] : List Nat).Nodup := by
    refine List.nodup_append.mpr ⟨hplic, List.nodup_singleton _, fun n hn m hm => ?_⟩
    rw [List.mem_append, List.mem_singleton, List.mem_range'_1] at hn
    rw [List.mem_singleton] at hm
    omega
  rw [h.guestIndices_eq]
  refine List.nodup_append.mpr ⟨List.nodup_range',
    List.nodup_append.mpr ⟨List.nodup_range', hdevices, fun n hn m hm => ?_⟩, fun n hn m hm => ?_⟩
  · simp only [List.mem_append, List.mem_singleton, List.mem_range'_1] at hn hm
    omega
  · simp only [List.mem_append, List.mem_singleton, List.mem_range'_1] at hn hm
    omega

/-- The tables below the root of a machine. -/
def vmKeys : List (Nat × Nat) :=
  (List.range' 1024 9).map (Prod.mk 0) ++ [(0, 96), (0, 97), (0, 98), (0, 128), (1, 0), (1, 2)]

theorem Entry.covers (h : Entry conf image) : Covers vmKeys (guestIndices conf) := by
  have hpages := h.pages_eq
  intro m hm level hlevel
  simp only [h.guestIndices_eq, List.mem_append, List.mem_range'_1, List.mem_singleton] at hm
  simp only [vmKeys, List.mem_append, List.mem_map, List.mem_range'_1, Prod.mk.injEq, List.mem_cons,
    List.not_mem_nil, or_false]
  rcases (show level = 0 ∨ level = 1 by omega) with rfl | rfl
  · rcases (show m / 512 ^ (0 + 1) ∈ Set.Ico 1024 1033 ∨ m / 512 ^ (0 + 1) = 96 ∨
        m / 512 ^ (0 + 1) = 97 ∨ m / 512 ^ (0 + 1) = 98 ∨ m / 512 ^ (0 + 1) = 128 by
      simp only [Set.mem_Ico]
      omega) with hmemory | hdevice
    · exact .inl ⟨m / 512 ^ (0 + 1), by simpa using hmemory, rfl, rfl⟩
    · right
      omega
  · right
    omega

theorem Entry.guestPages_le (h : Entry conf image) : guestPages conf ≤ 4096 := by
  have hpages := h.pages_eq
  have hdevices : devicePages conf.devs = 0 := by
    rw [devicePages, List.sum_eq_zero_iff]
    intro n hn
    obtain ⟨dev, hdev, rfl⟩ := List.mem_map.mp hn
    exact if_neg (h.wellFormed.device_ne_zero dev hdev)
  rw [guestPages, if_neg h.wellFormed.image_ne_zero, hdevices]
  omega

end Entries

section Boot

variable {layout : ImageLayout}

theorem toNat_vmPgtable (p : ConfigLayout layout) (i : Fin nrVms) :
    (vmPgtable p i).toNat = p.config.toNat + i.val * 32768 + 16384 := by
  obtain ⟨-, -, -, -, -, h₁, h₂, h₃, h₄, h₅, h₆, h₇, h₈, h₉, h₁₀⟩ := placed layout
  have hupper := p.config_upper
  have hi := i.isLt
  rw [vmPgtable, sizeofVmConfig, BitVec.toNat_add, BitVec.toNat_ofNat]
  rw [sizeofVmConfig] at hupper
  omega

theorem config_vmPgtable (p : ConfigLayout layout) (i : Fin nrVms) :
    (config p i).vmPgtable = vmPgtable p i := by
  match i with
  | 0 => rfl
  | 1 => rfl

theorem vmImage_apart (p : ConfigLayout layout) {i j : Fin nrVms} (hij : i ≠ j) :
    (vmImage p i).stop.toNat ≤ (vmImage p j).start.toNat ∨
      (vmImage p j).stop.toNat ≤ (vmImage p i).start.toNat := by
  match i, j with
  | 0, 0 => exact absurd rfl hij
  | 0, 1 => exact p.apart
  | 1, 0 => exact p.apart.symm
  | 1, 1 => exact absurd rfl hij

/-- The shipped table is placed as the boot needs it, whatever the sizes of the images. -/
theorem placement (p : ConfigLayout layout) : Placement layout (config p) := by
  have hbase := fun i => ((config_entry p i).image_spec).1
  have hsize := fun i => ((config_entry p i).image_spec).2
  have halign := congrArg BitVec.toNat p.config_aligned
  rw [BitVec.toNat_umod] at halign
  have hlower : layout.data.start.toNat ≤ p.config.toNat := p.config_lower
  have hupper := p.config_upper
  rw [sizeofVmConfig] at hupper
  constructor
  · exact fun i => (config_entry p i).wellFormed
  · intro i
    apply BitVec.eq_of_toNat_eq
    rw [config_vmPgtable, BitVec.toNat_umod, toNat_vmPgtable]
    change _ = 0
    change p.config.toNat % 16384 = 0 at halign
    change _ % 16384 = 0
    omega
  · intro i
    rw [config_vmPgtable, BitVec.le_def, toNat_vmPgtable]
    omega
  · intro i
    have hi := i.isLt
    rw [config_vmPgtable, toNat_vmPgtable]
    omega
  · intro i j heq
    have hnat := congrArg BitVec.toNat heq
    rw [config_vmPgtable, config_vmPgtable, toNat_vmPgtable, toNat_vmPgtable] at hnat
    exact Fin.ext (by omega)
  · intro i
    have himage := (vmImage p i).embedded
    have himages := himage.images
    obtain ⟨-, -, -, -, -, h₁, h₂, h₃, h₄, h₅, h₆, h₇, h₈, h₉, h₁₀⟩ := placed layout
    have hstacks : layout.cpuStructs.stop.toNat ≤ layout.vmImages.start.toNat :=
      layout.cpuStructs_vmImages
    rw [BitVec.le_def, toNat_kva2pa (by omega), hbase]
    omega
  · intro i j hij
    have hi := (vmImage p i).embedded
    have hj := (vmImage p j).embedded
    obtain ⟨hlower, -, haligned, hordered, -, -⟩ := hi
    obtain ⟨hlower', -, haligned', hordered', -, -⟩ := hj
    have happart := vmImage_apart p hij
    rw [hbase, hsize, hbase, hsize]
    omega

/-- What `init_kmem` leaves behind: as many free pages as there are behind the image. -/
theorem exists_free_of_initKmem {dynamic : DynamicSymbol} {mem : Uint64 → Uint64} {s : KernelMem}
    (hinit : exec heapHandler (initKmem dynamic) ⟨mem, 0⟩ = (.ok (), s)) :
    ∃ free, FreePages dynamic s free ∧
      4096 * free.length = 0xffffffc010000000 - dynamic.addr.toNat := by
  obtain ⟨s', free, hexec, hlinked, hnodup, hlength, hmem⟩ := exec_initKmem dynamic mem
  obtain rfl : s' = s := congrArg Prod.snd (hexec.symm.trans hinit)
  exact ⟨free, ⟨hlinked, hnodup, fun page hpage => (hmem page).mp hpage⟩, hlength⟩

theorem guestBudget_le (p : ConfigLayout layout) :
    guestBudget (config p) (fun _ => vmKeys) ≤ 8222 := by
  have hkeys : vmKeys.length = 15 := by simp [vmKeys]
  have hmachine : ∀ i ∈ Finset.univ, guestPages (config p i) + vmKeys.length ≤ 4111 := by
    intro i _
    have hpages := (config_entry p i).guestPages_le
    omega
  exact Finset.sum_le_card_nsmul Finset.univ _ 4111 hmachine

/-- With 9770 pages behind the image and one more, the boot with the shipped table
starts from `init_kmem`, no `kmalloc` fails in any interleaving, every program gets on
until it has returned, and then the memory is divided. -/
theorem config_boots (p : ConfigLayout layout)
    (hroom : layout.dynamic.addr.toNat + 4096 * 9770 < (vasKernel + dtbMemorySize).toNat)
    {mem : Uint64 → Uint64} {s : KernelMem}
    (hinit : exec heapHandler (initKmem layout.dynamic) ⟨mem, 0⟩ = (.ok (), s))
    {schedule : List (Fin dtbNrCpus ⊕ Fin nrVms)}
    {c : Pool (heapEffect Uint64) (Option Uint64) KernelMem (Fin dtbNrCpus ⊕ Fin nrVms)}
    (hrun : run (poolStep heapHandler) (bootPool layout (config p) s) schedule = some c) :
    AllocationsSucceed (bootPool layout (config p) s) schedule ∧
      (∀ i, (∃ result, c.threads i = .done result) ∨
        ∃ d, poolStep heapHandler c i = some d) ∧
      (AllReturned c → ∃ roots frame,
        (∀ hart, c.threads (.inl hart) = .done (some (roots hart))) ∧
          Divided layout (config p) c.shared roots frame) := by
  obtain ⟨free, hfree, hlength⟩ := exists_free_of_initKmem hinit
  have hplaced := placement p
  have hend : (vasKernel + dtbMemorySize).toNat = 0xffffffc010000000 := rfl
  have hcpus : dtbNrCpus = 2 := rfl
  have hbudget := guestBudget_le p
  have hsucceed := bootPool_succeeds hplaced hfree (fun i => (config_entry p i).covers)
    (by omega) schedule
  refine ⟨hsucceed, fun i => ?_, fun hdone => ?_⟩
  · exact bootPool_enabled hplaced hfree (fun i => (config_entry p i).indices_nodup) hrun hsucceed i
  · obtain ⟨roots, kernelTables, tables, frames, shares, free', hboot, hroots⟩ :=
      boot_of_run hplaced hfree hrun hsucceed hdone
    exact ⟨roots, _, hroots, hboot.divided hplaced⟩

end Boot

section Sample

/-- A small image with both tables in `.data`; some sections end within a page. -/
def shippedLayout : ImageLayout where
  text := ⟨0xffffffc000304000, 0xffffffc000309b34, by decide, by decide⟩
  rodata := ⟨0xffffffc00030a000, 0xffffffc00030a9f1, by decide, by decide⟩
  data := ⟨0xffffffc00030b000, 0xffffffc000322010, by decide, by decide⟩
  cpuStructs := ⟨0xffffffc000323000, 0xffffffc000329000, by decide, by decide⟩
  vmImages := ⟨0xffffffc000329000, 0xffffffc000401123, by decide, by decide⟩
  dynamic := ⟨0xffffffc000402000, by decide, by decide, by decide⟩
  lower := by decide
  text_rodata := by decide
  rodata_data := by decide
  data_cpuStructs := by decide
  cpus := by decide
  cpuStructs_vmImages := by decide
  vmImages_dynamic := by decide

def shippedConfig : ConfigLayout shippedLayout where
  vmXv6 :=
    { start := 0xffffffc000329000
      stop := 0xffffffc000381800
      aligned := by decide
      ordered := by decide
      lower := by decide
      upper := by decide
      fits := by decide }
  vmAnotherXv6 :=
    { start := 0xffffffc000382000
      stop := 0xffffffc000401123
      aligned := by decide
      ordered := by decide
      lower := by decide
      upper := by decide
      fits := by decide }
  config := 0xffffffc000310000
  apart := by decide
  config_aligned := by decide
  config_lower := by decide
  config_upper := by decide

/-- A whole boot of the sample, one program after the other. -/
theorem exists_shipped_run : ∃ s free schedule c,
    exec heapHandler (initKmem shippedLayout.dynamic) ⟨fun _ => 0, 0⟩ = (.ok (), s) ∧
      FreePages shippedLayout.dynamic s free ∧
      774 * dtbNrCpus + guestBudget (config shippedConfig) (fun _ => vmKeys) < free.length ∧
      run (poolStep heapHandler) (bootPool shippedLayout (config shippedConfig) s) schedule = some c ∧
      AllReturned c := by
  obtain ⟨s, -, hinit, -⟩ := exec_initKmem shippedLayout.dynamic fun _ => 0
  obtain ⟨free, hfree, hlength⟩ := exists_free_of_initKmem hinit
  obtain ⟨schedule, c, hrun, hend⟩ :=
    exists_run_all heapHandler (bootPool shippedLayout (config shippedConfig) s)
  have haddr : shippedLayout.dynamic.addr.toNat = 0xffffffc000402000 := rfl
  have hcpus : dtbNrCpus = 2 := rfl
  have hbudget := guestBudget_le shippedConfig
  have hplaced := placement shippedConfig
  have hsucceed := bootPool_succeeds hplaced hfree
    (fun i => (config_entry shippedConfig i).covers) (by omega) schedule
  refine ⟨s, free, schedule, c, hinit, hfree, by omega, hrun, fun i => ?_⟩
  rcases hend i with hdone | ⟨message, hpanic⟩
  · exact hdone
  · exact absurd hpanic (bootPool_ne_panic hplaced hfree
      (fun i => (config_entry shippedConfig i).indices_nodup) hrun hsucceed i message)

theorem bootPool_divides_shipped : ∃ s schedule c roots frame,
    run (poolStep heapHandler) (bootPool shippedLayout (config shippedConfig) s) schedule = some c ∧
      (∀ hart, c.threads (.inl hart) = .done (some (roots hart))) ∧
      Divided shippedLayout (config shippedConfig) c.shared roots frame := by
  obtain ⟨s, free, schedule, c, -, hfree, henough, hrun, hdone⟩ := exists_shipped_run
  have hplaced := placement shippedConfig
  obtain ⟨roots, frame, hroots, hdivided⟩ := bootPool_divides hplaced hfree hrun
    (bootPool_succeeds hplaced hfree (fun i => (config_entry shippedConfig i).covers) henough _)
    hdone
  exact ⟨s, schedule, c, roots, frame, hrun, hroots, hdivided⟩

theorem bootPool_returns_shipped : ∃ s schedule c,
    run (poolStep heapHandler) (bootPool shippedLayout (config shippedConfig) s) schedule = some c ∧
      AllocationsSucceed (bootPool shippedLayout (config shippedConfig) s) schedule ∧
      ∃ result, c.threads (.inr 0) = .done result := by
  obtain ⟨s, free, schedule, c, -, hfree, henough, hrun, hdone⟩ := exists_shipped_run
  obtain ⟨hsucceed, -⟩ := bootPool_returns (placement shippedConfig) hfree
    (fun i => (config_entry shippedConfig i).indices_nodup)
    (fun i => (config_entry shippedConfig i).covers) henough hrun (.inr 0)
  exact ⟨s, schedule, c, hrun, hsucceed, hdone (.inr 0)⟩

theorem config_boots_shipped : ∃ s schedule c roots frame,
    exec heapHandler (initKmem shippedLayout.dynamic) ⟨fun _ => 0, 0⟩ = (.ok (), s) ∧
      run (poolStep heapHandler) (bootPool shippedLayout (config shippedConfig) s) schedule = some c ∧
      (∀ hart, c.threads (.inl hart) = .done (some (roots hart))) ∧
      Divided shippedLayout (config shippedConfig) c.shared roots frame := by
  obtain ⟨s, free, schedule, c, hinit, -, -, hrun, hdone⟩ := exists_shipped_run
  obtain ⟨-, -, hdivided⟩ := config_boots shippedConfig (by decide) hinit hrun
  obtain ⟨roots, frame, hroots, hend⟩ := hdivided hdone
  exact ⟨s, schedule, c, roots, frame, hinit, hrun, hroots, hend⟩

end Sample

end RiscvHypervisor.ShippedConfig
