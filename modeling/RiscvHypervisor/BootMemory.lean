import RiscvHypervisor.KernelAddressSpace
import RiscvHypervisor.GuestIsolation
import Mathlib.Algebra.BigOperators.Fin
import Mathlib.Data.Fintype.BigOperators
import Mathlib.Data.Fintype.Sum

/-!
The page tables of the whole boot: `init_vmem` on every hart and `init_hs_pgtable`
for every virtual machine, in any interleaving.  The barriers of `main` let the
second ones begin after all of the first, which are some of the interleavings.
-/

namespace RiscvHypervisor.BootMemory

open RiscvHypervisor.EffectProgram
open RiscvHypervisor.TransitionSystem
open RiscvHypervisor.MachineTypes
open RiscvHypervisor.GuestConfig
open RiscvHypervisor.OwnedMemory
open RiscvHypervisor.KernelMemory
open RiscvHypervisor.PageTable
open RiscvHypervisor.TableTree
open RiscvHypervisor.PageMapping
open RiscvHypervisor.HardwareWalk
open RiscvHypervisor.GuestMemory
open RiscvHypervisor.GuestIsolation
open RiscvHypervisor.InitVmem
open RiscvHypervisor.KernelWalk
open RiscvHypervisor.KernelAddressSpace

variable {ι : Type}

/-- Where the machines are in the kernel image: `config` with the tables is in
`.data`, the images of the machines are in `.vm_images`. -/
structure Placement (layout : ImageLayout) (confs : ι → VmConfig) : Prop where
  wellFormed : ∀ i, MemoryWellFormed layout.dynamic (confs i)
  table_aligned : ∀ i, (confs i).vmPgtable % 16384 = 0
  table_lower : ∀ i, layout.data.start ≤ (confs i).vmPgtable
  table_upper : ∀ i, (confs i).vmPgtable.toNat + 16384 ≤ layout.data.stop.toNat
  tables_distinct : ∀ i j, (confs i).vmPgtable = (confs j).vmPgtable → i = j
  image_lower : ∀ i, kva2pa layout.vmImages.start ≤ (confs i).imageBase
  images_apart : ∀ i j, i ≠ j →
    (confs i).imageBase.toNat + (imageSize (confs i)).toNat ≤ (confs j).imageBase.toNat ∨
      (confs j).imageBase.toNat + (imageSize (confs j)).toNat ≤ (confs i).imageBase.toNat

/-- The memory work of the boot; a hart returns the root of its table. -/
def bootPool (layout : ImageLayout) (confs : ι → VmConfig) (s : KernelMem) :
    Pool (heapEffect Uint64) (Option Uint64) KernelMem (Fin dtbNrCpus ⊕ ι) where
  threads
    | .inl hart => do
        let root ← initVmem layout (tpOf hart)
        pure (some root)
    | .inr i => do
        initHsPgtable (confs i)
        pure none
  shared := s

def bootHome (confs : ι → VmConfig) : Fin dtbNrCpus ⊕ ι → Set Uint64
  | .inl _ => ∅
  | .inr i => words (confs i).vmPgtable 2048

namespace Placement

variable {layout : ImageLayout} {confs : ι → VmConfig}

theorem isRoot (h : Placement layout confs) (i : ι) :
    IsRoot layout.dynamic (confs i).vmPgtable where
  aligned := h.table_aligned i
  lower := by
    obtain ⟨-, -, -, -, -, h₁, h₂, h₃, h₄, h₅, h₆, h₇, h₈, h₉, h₁₀⟩ := placed layout
    have hlower : layout.data.start.toNat ≤ (confs i).vmPgtable.toNat := h.table_lower i
    rw [BitVec.le_def, vasKernel_toNat]
    omega
  upper := by
    obtain ⟨-, -, -, -, -, h₁, h₂, h₃, h₄, h₅, h₆, h₇, h₈, h₉, h₁₀⟩ := placed layout
    have hupper := h.table_upper i
    omega

theorem homes (h : Placement layout confs) :
    Homes (kernelLayout layout.dynamic) (bootHome confs) := by
  have hroots := homes_of_isRoot h.isRoot h.tables_distinct
  constructor
  · intro i j hij
    match i, j with
    | .inl _, _ => exact Set.empty_disjoint _
    | .inr _, .inl _ => exact Set.disjoint_empty _
    | .inr i, .inr j => exact hroots.disjoint i j fun heq => hij (congrArg _ heq)
  · intro i page hvalid
    match i with
    | .inl _ => exact Set.empty_disjoint _
    | .inr i => exact hroots.disjoint_block i page hvalid
  · intro i
    match i with
    | .inl _ => exact Set.empty_disjoint _
    | .inr i => exact hroots.disjoint_scratch i

end Placement

section Programs

variable {layout : ImageLayout} {confs : ι → VmConfig} {fails : Prop}

/-- What a program of the boot leaves behind. -/
def BootEnd (layout : ImageLayout) (confs : ι → VmConfig) (fails : Prop) (l₀ : Share Uint64) :
    Fin dtbNrCpus ⊕ ι → Except String (Option Uint64) → Share Uint64 → Prop
  | .inl hart, res, l =>
      (∃ T, Accounted 1 ((kernelRegions layout (tpOf hart)).flatMap Region.indices) l₀ T l) ∧
        ((∃ root T, res = .ok (some root) ∧ Built layout (tpOf hart) root T l) ∨
          (fails ∧ ∃ message, res = .error message))
  | .inr i, res, l =>
      ∃ T, Accounted (guestPages (confs i)) (guestIndices (confs i)) l₀ T l ∧
        ((res = .ok none ∧
            (¬ fails → ∃ frames, Finished layout.dynamic (confs i) T frames l)) ∨
          (∃ message, res = .error message ∧ ((guestIndices (confs i)).Nodup → fails)))

theorem ensures_bootPool (h : Placement layout confs) (s : KernelMem) (l₀ : Share Uint64)
    (i : Fin dtbNrCpus ⊕ ι) :
    Ensures (kernelLayout layout.dynamic) fails (bootHome confs i)
      ((bootPool layout confs s).threads i).attempt l₀ (BootEnd layout confs fails l₀ i) := by
  match i with
  | .inl hart =>
      refine (ensures_attempt_initVmem (imageRegions_pa_ne_zero (toNat_tpOf hart))
        (kernelRegions_nodup (toNat_tpOf hart)) l₀).seq_attempt ?_ ?_
      · rintro root l ⟨haccounted, ⟨root', T, hok, hbuilt⟩ | ⟨-, message, herror, -⟩⟩
        · cases hok
          exact ⟨haccounted, .inl ⟨root, T, rfl, hbuilt⟩⟩
        · cases herror
      · rintro message l ⟨haccounted, ⟨root, T, hok, -⟩ | ⟨hfails, message', herror, -⟩⟩
        · cases hok
        · cases herror
          exact ⟨haccounted, .inr ⟨hfails, message, rfl⟩⟩
  | .inr i =>
      have hconf := h.wellFormed i
      refine (ensures_attempt_initHsPgtable (h.isRoot i) l₀).seq_attempt ?_ ?_
      · rintro result l ⟨T, image, ram, devPas, htree, haccounted, hend⟩
        rcases hend with ⟨-, himage, hram, hdevices, hinstall⟩ | ⟨message, herror, -⟩
        · refine ⟨T, haccounted, .inl ⟨rfl, fun hfails => ?_⟩⟩
          obtain ⟨frames, rfl, hlength, hframes, -⟩ := hram.allocated rfl hfails
          refine ⟨frames, htree, hframes, hlength, ?_⟩
          rw [← hinstall, tableMappings, framedMappings_given hdevices hconf.device_ne_zero,
            himage.given hconf.image_ne_zero]
          rfl
        · cases herror
      · rintro message l ⟨T, image, ram, devPas, htree, haccounted, hend⟩
        rcases hend with ⟨hok, -⟩ | ⟨message', herror, hpanic⟩
        · cases hok
        · cases herror
          exact ⟨T, haccounted, .inr ⟨message, rfl, hpanic hconf.terminated⟩⟩

theorem uses_bootPool (layout : ImageLayout) (confs : ι → VmConfig) (s : KernelMem)
    (i : Fin dtbNrCpus ⊕ ι) : ((bootPool layout confs s).threads i).Uses NoPush := by
  match i with
  | .inl hart => exact (uses_initVmem layout (tpOf hart)).bind fun _ => trivial
  | .inr i => exact (uses_initHsPgtable (confs i)).bind fun _ => trivial

end Programs

/-- The memory with all tables built, divided between those who have built them. -/
structure Boot (layout : ImageLayout) (confs : ι → VmConfig) (s : KernelMem)
    (roots : Fin dtbNrCpus → Uint64) (kernelTables : Fin dtbNrCpus → Tables) (tables : ι → Tables)
    (frames : ι → List Uint64) (shares : Fin dtbNrCpus ⊕ ι → Share Uint64) (free : List Uint64) :
    Prop where
  separated : Separated (kernelLayout layout.dynamic) (bootHome confs) s shares free
  kernel : ∀ hart, Built layout (tpOf hart) (roots hart) (kernelTables hart) (shares (.inl hart))
  guest : ∀ i, Finished layout.dynamic (confs i) (tables i) (frames i) (shares (.inr i))

/-- A table of the address space at `root`. -/
def IsKernelTable (read : Uint64 → Uint64) (root pa : Uint64) : Prop :=
  ∃ va, pa ∈ walkedTables read va 2 root

/-- A page of the hypervisor: its image up to the stacks, the tables of the harts
and those of the machines. -/
def HypervisorPage (layout : ImageLayout) (confs : ι → VmConfig) (mem : Uint64 → Uint64)
    (roots : Fin dtbNrCpus → Uint64) (page : Uint64) : Prop :=
  HasPage layout.text page ∨ HasPage layout.rodata page ∨ HasPage layout.data page ∨
    HasPage layout.cpuStructs page ∨
    (∃ hart, IsKernelTable (physRead layout.dynamic mem) (kpa2pa (roots hart)) page) ∨
    ∃ i, IsTablePage layout.dynamic mem (confs i).vmPgtable page

/-- The memory after the boot: what each hart has mapped, what each machine has
mapped, and what no machine reaches. -/
structure Divided (layout : ImageLayout) (confs : ι → VmConfig) (s : KernelMem)
    (roots : Fin dtbNrCpus → Uint64) (frame : ι → Nat → Uint64) : Prop where
  parts : ∀ hart,
    Parts layout (tpOf hart) (physRead layout.dynamic s.mem) (kpa2pa (roots hart))
  protect : ∀ hart,
    Protected layout (tpOf hart) (physRead layout.dynamic s.mem) (kpa2pa (roots hart))
  isolated : Isolated layout.dynamic s confs frame
  hidden : ∀ i gpa pte, gpa.toNat < 2 ^ 41 →
    ValidEntry layout.dynamic s.mem (confs i).vmPgtable gpa pte →
    ¬ HypervisorPage layout confs s.mem roots (pteFrame pte)

namespace Boot

variable {layout : ImageLayout} {confs : ι → VmConfig} {s : KernelMem}
  {roots : Fin dtbNrCpus → Uint64} {kernelTables : Fin dtbNrCpus → Tables} {tables : ι → Tables}
  {frames : ι → List Uint64} {shares : Fin dtbNrCpus ⊕ ι → Share Uint64} {free : List Uint64}

theorem guestTable (h : Boot layout confs s roots kernelTables tables frames shares free)
    (hplaced : Placement layout confs) (i : ι) :
    GuestTable layout.dynamic s.mem (confs i) (frameOf (confs i) (frames i)) :=
  guestTable_of_install (hplaced.wellFormed i) (hplaced.isRoot i) (h.guest i).tree
    (fun a ha => h.separated.agree (.inr i) a ha) (h.guest i).length (h.guest i).pages.valid
    (h.guest i).install

/-- The part of the machines. -/
theorem machines (h : Boot layout confs s roots kernelTables tables frames shares free) :
    Separated (kernelLayout layout.dynamic) (fun i => words (confs i).vmPgtable 2048) s
      (fun i => shares (.inr i)) free :=
  Separated.comp Sum.inr_injective h.separated

theorem isolated [DecidableEq ι]
    (h : Boot layout confs s roots kernelTables tables frames shares free)
    (hplaced : Placement layout confs) :
    Isolated layout.dynamic s confs fun i => frameOf (confs i) (frames i) :=
  isolated_of_finished hplaced.wellFormed hplaced.isRoot hplaced.images_apart h.machines h.guest

theorem mapsRegions (h : Boot layout confs s roots kernelTables tables frames shares free)
    (hart : Fin dtbNrCpus) :
    MapsRegions layout (tpOf hart) (physRead layout.dynamic s.mem) (kpa2pa (roots hart)) :=
  mapsRegions_of_built (toNat_tpOf hart) (h.kernel hart) fun a ha =>
    h.separated.agree (.inl hart) a ha

/-- A machine reaches pages outside RAM, of its image, or frames of its own. -/
theorem frame_cases (h : Boot layout confs s roots kernelTables tables frames shares free)
    (hplaced : Placement layout confs) {i : ι} {gpa pte : Uint64} (hgpa : gpa.toNat < 2 ^ 41)
    (hpte : ValidEntry layout.dynamic s.mem (confs i).vmPgtable gpa pte) :
    ((pteFrame pte).toNat < dtbMemory.toNat ∨ dtbMemoryEnd.toNat ≤ (pteFrame pte).toNat) ∨
      ((confs i).imageBase.toNat ≤ (pteFrame pte).toNat ∧
        (pteFrame pte).toNat < (confs i).imageBase.toNat + (imageSize (confs i)).toNat) ∨
      ∃ n, IsRamPage (confs i) n ∧ pteFrame pte = kpa2pa (frameOf (confs i) (frames i) n) := by
  have hconf := hplaced.wellFormed i
  have htable := h.guestTable hplaced i
  rcases (htable.valid_iff gpa hgpa).mp ⟨pte, hpte⟩ with hram | ⟨dev, hdev, hin⟩
  · rcases ram_frame hconf htable hram hpte with himage | hframe
    · exact .inr (.inl himage)
    · exact .inr (.inr ⟨_, hframe⟩)
  · exact .inl (device_frame hconf htable hdev hin hpte)

/-- The tables of a hart are pages that no machine holds. -/
theorem kernelTable_spec (h : Boot layout confs s roots kernelTables tables frames shares free)
    (hplaced : Placement layout confs) {hart : Fin dtbNrCpus} {pa : Uint64}
    (hpa : IsKernelTable (physRead layout.dynamic s.mem) (kpa2pa (roots hart)) pa) :
    ∃ page, pa = kpa2pa page ∧ validAddress layout.dynamic page ∧
      ∀ i, page ∉ (shares (.inr i)).blocks := by
  have hbuilt := h.kernel hart
  obtain ⟨va, htable⟩ := hpa
  obtain ⟨level, hlevel, key, page, hpage, rfl⟩ := walkedTables_cases hbuilt.valid hbuilt.tree
    (fun a ha => h.separated.agree (.inl hart) a ha) va (Nat.le_refl 2)
    ((hbuilt.tree.root_iff 0 _).mpr ⟨rfl, rfl⟩) htable
  refine ⟨page, rfl, validAddress_of_table hbuilt.valid hbuilt.tree hlevel hpage, ?_⟩
  intro i hmem
  -- the first word of the table has one owner
  have hown : (shares (.inl hart)).Owns (kernelLayout layout.dynamic) (bootHome confs (.inl hart))
      (slot page 0) :=
    hbuilt.tree.owns hlevel hpage (slot_mem_words (by simp [tableEntries]))
  have hother : (shares (.inr i)).Owns (kernelLayout layout.dynamic) (bootHome confs (.inr i))
      (slot page 0) := .inr ⟨page, hmem, slot_mem_words (by decide)⟩
  exact h.separated.not_owns_of_owns hplaced.homes Sum.inl_ne_inr hown hother

/-- The tables of a machine are its root and pages of its own. -/
theorem guestTable_spec (h : Boot layout confs s roots kernelTables tables frames shares free)
    (hplaced : Placement layout confs) {i : ι} {pa : Uint64}
    (hpa : IsTablePage layout.dynamic s.mem (confs i).vmPgtable pa) :
    ((kva2pa (confs i).vmPgtable).toNat ≤ pa.toNat ∧
        pa.toNat < (kva2pa (confs i).vmPgtable).toNat + 16384) ∨
      ∃ page, pa = kpa2pa page ∧ validAddress layout.dynamic page := by
  have htree := (h.guest i).tree
  rcases hpa with hroot | ⟨gpa, htable⟩
  · exact .inl hroot
  · rcases visitedTables_cases (hplaced.isRoot i) htree (fun a ha => h.machines.agree i a ha) gpa
      (Nat.le_refl 2) ((htree.root_iff 0 _).mpr ⟨rfl, rfl⟩) htable with
      rfl | ⟨level, hlevel, key, page, hpage, rfl⟩
    · exact .inl ⟨Nat.le_refl _, by omega⟩
    · exact .inr ⟨page, rfl, htree.valid level hlevel key page hpage⟩

/-- No page of the hypervisor is within reach of a machine. -/
theorem not_hypervisorPage [DecidableEq ι]
    (h : Boot layout confs s roots kernelTables tables frames shares free)
    (hplaced : Placement layout confs) {i : ι} {gpa pte : Uint64} (hgpa : gpa.toNat < 2 ^ 41)
    (hpte : ValidEntry layout.dynamic s.mem (confs i).vmPgtable gpa pte) :
    ¬ HypervisorPage layout confs s.mem roots (pteFrame pte) := by
  obtain ⟨-, -, -, -, -, h₁, h₂, h₃, h₄, h₅, h₆, h₇, h₈, h₉, h₁₀⟩ := placed layout
  have himages : layout.cpuStructs.stop.toNat ≤ layout.vmImages.start.toNat :=
    layout.cpuStructs_vmImages
  have hlower : (kva2pa layout.vmImages.start).toNat ≤ (confs i).imageBase.toNat :=
    hplaced.image_lower i
  have hvm := toNat_kva2pa (show 0xffffffc000000000 ≤ layout.vmImages.start.toNat by omega)
  have hupper := (hplaced.wellFormed i).image_upper
  have hdynamic := toNat_kva2pa layout.dynamic.le_toNat
  have hmemory := dtbMemory_toNat
  have hend : dtbMemoryEnd.toNat = 0x90000000 := rfl
  have hisolated := h.isolated hplaced
  have hcases := h.frame_cases hplaced hgpa hpte
  -- nothing below the images of the machines is reached
  have happart : (pteFrame pte).toNat < 0x80000000 ∨
      (kva2pa layout.vmImages.start).toNat ≤ (pteFrame pte).toNat := by
    rcases hcases with hout | himage | ⟨n, hn, hframe⟩
    · omega
    · omega
    · have habove := (hisolated.above_image i n hn).1
      rw [hframe]
      omega
  have hsection : ∀ sec : ImageSection, 0xffffffc000000000 ≤ sec.start.toNat →
      sec.stop.toNat ≤ layout.cpuStructs.stop.toNat → ¬ HasPage sec (pteFrame pte) := by
    rintro sec hstart hstop ⟨hlow, hhigh⟩
    have hordered : sec.start.toNat ≤ sec.stop.toNat := sec.ordered
    rw [BitVec.le_def, toNat_kva2pa (by omega)] at hlow
    rw [BitVec.lt_def, toNat_kva2pa (by omega)] at hhigh
    omega
  have hnotTable : ∀ j, (pteFrame pte).toNat < 0x80000000 ∨ 0x90000000 ≤ (pteFrame pte).toNat ∨
      ((kva2pa layout.vmImages.start).toNat ≤ (pteFrame pte).toNat ∧
        (pteFrame pte).toNat < (kva2pa layout.dynamic.addr).toNat) →
      ¬ IsTablePage layout.dynamic s.mem (confs j).vmPgtable (pteFrame pte) := by
    intro j hout htable
    rcases h.guestTable_spec hplaced htable with hroot | ⟨page, hpage, hvalid⟩
    · have hlow := hplaced.table_lower j
      have hhigh := hplaced.table_upper j
      rw [BitVec.le_def] at hlow
      rw [toNat_kva2pa (by omega)] at hroot
      omega
    · have hfacts := toNat_kpa2pa_valid hvalid
      rw [← hpage] at hfacts
      omega
  rintro (htext | hrodata | hdata | hcpu | ⟨hart, htable⟩ | ⟨j, htable⟩)
  · exact hsection _ (by omega) (by omega) htext
  · exact hsection _ (by omega) (by omega) hrodata
  · exact hsection _ (by omega) (by omega) hdata
  · exact hsection _ (by omega) (by omega) hcpu
  · obtain ⟨page, hpage, hvalid, hheld⟩ := h.kernelTable_spec hplaced htable
    have hfacts := toNat_kpa2pa_valid hvalid
    rw [← hpage] at hfacts
    rcases hcases with hout | himage | ⟨n, hn, hframe⟩
    · omega
    · omega
    · have hmem := (h.guest i).frameOf_mem (hplaced.wellFormed i) hn
      have hsame := kpa2pa_injective ((h.guest i).pages.valid _ hmem) hvalid (hframe.symm.trans hpage)
      exact hheld i (hsame ▸ (h.guest i).pages.held _ hmem)
  · rcases hcases with hout | himage | ⟨n, hn, hframe⟩
    · exact hnotTable j (by omega) htable
    · exact hnotTable j (by omega) htable
    · exact hisolated.not_table i n hn j (hframe ▸ htable)

theorem divided [DecidableEq ι]
    (h : Boot layout confs s roots kernelTables tables frames shares free)
    (hplaced : Placement layout confs) :
    Divided layout confs s roots fun i => frameOf (confs i) (frames i) where
  parts hart := (h.mapsRegions hart).parts (toNat_tpOf hart)
  protect hart := (h.mapsRegions hart).protected (toNat_tpOf hart)
  isolated := h.isolated hplaced
  hidden _ _ _ hgpa hpte := h.not_hypervisorPage hplaced hgpa hpte

end Boot

section Runs

variable [DecidableEq ι] {layout : ImageLayout} {confs : ι → VmConfig} {s : KernelMem}
  {free : List Uint64} {schedule : List (Fin dtbNrCpus ⊕ ι)}
  {c : Pool (heapEffect Uint64) (Option Uint64) KernelMem (Fin dtbNrCpus ⊕ ι)}

/-- Every program of the boot has returned. -/
def AllReturned (c : Pool (heapEffect Uint64) (Option Uint64) KernelMem (Fin dtbNrCpus ⊕ ι)) :
    Prop :=
  ∀ i, ∃ result, c.threads i = .done result

theorem boot_of_run (h : Placement layout confs) (hfree : FreePages layout.dynamic s free)
    (hrun : run (poolStep heapHandler) (bootPool layout confs s) schedule = some c)
    (hsucceed : AllocationsSucceed (bootPool layout confs s) schedule) (hdone : AllReturned c) :
    ∃ roots kernelTables tables frames shares free',
      Boot layout confs c.shared roots kernelTables tables frames shares free' ∧
        ∀ hart, c.threads (.inl hart) = .done (some (roots hart)) := by
  have hsep := separated_of_freePages hfree (bootHome confs)
  obtain ⟨shares, free', hsep', hend⟩ := hsep.run_attempt (c := bootPool layout confs s)
    h.homes (ensures_bootPool h s ⟨s.mem, []⟩) hsucceed hrun
  have hkernel : ∀ hart : Fin dtbNrCpus, ∃ root T, c.threads (.inl hart) = .done (some root) ∧
      Built layout (tpOf hart) root T (shares (.inl hart)) := by
    intro hart
    obtain ⟨result, hresult⟩ := hdone (.inl hart)
    have hhart := hend (.inl hart)
    rw [hresult] at hhart
    obtain ⟨-, ⟨root, T, hok, hbuilt⟩ | ⟨hfalse, -⟩⟩ := hhart
    · cases hok
      exact ⟨root, T, hresult, hbuilt⟩
    · exact hfalse.elim
  have hguest : ∀ i, ∃ T frames,
      Finished layout.dynamic (confs i) T frames (shares (.inr i)) := by
    intro i
    obtain ⟨result, hresult⟩ := hdone (.inr i)
    have hi := hend (.inr i)
    rw [hresult] at hi
    obtain ⟨T, -, ⟨-, hfinished⟩ | ⟨message, herror, -⟩⟩ := hi
    · exact ⟨T, hfinished not_false⟩
    · cases herror
  choose roots kernelTables hroots hbuilt using hkernel
  choose tables frames hfinished using hguest
  exact ⟨roots, kernelTables, tables, frames, shares, free', ⟨hsep', hbuilt, hfinished⟩, hroots⟩

/-- Whatever the interleaving of the boot: once every program has returned and no
`kmalloc` has failed, each hart has its address space, the machines are isolated, and
no address of a machine leads to a page of the hypervisor. -/
theorem bootPool_divides (h : Placement layout confs) (hfree : FreePages layout.dynamic s free)
    (hrun : run (poolStep heapHandler) (bootPool layout confs s) schedule = some c)
    (hsucceed : AllocationsSucceed (bootPool layout confs s) schedule) (hdone : AllReturned c) :
    ∃ roots frame, (∀ hart, c.threads (.inl hart) = .done (some (roots hart))) ∧
      Divided layout confs c.shared roots frame := by
  obtain ⟨roots, kernelTables, tables, frames, shares, free', hboot, hroots⟩ :=
    boot_of_run h hfree hrun hsucceed hdone
  exact ⟨roots, _, hroots, hboot.divided h⟩

/-- With different pages in each machine only a failed `kmalloc` leads to a panic. -/
theorem bootPool_ne_panic (h : Placement layout confs) (hfree : FreePages layout.dynamic s free)
    (hnodup : ∀ i, (guestIndices (confs i)).Nodup)
    (hrun : run (poolStep heapHandler) (bootPool layout confs s) schedule = some c)
    (hsucceed : AllocationsSucceed (bootPool layout confs s) schedule)
    (i : Fin dtbNrCpus ⊕ ι) (message : String) : c.threads i ≠ .panic message := by
  intro hpanic
  have hsep := separated_of_freePages hfree (bootHome confs)
  obtain ⟨shares, free', -, hend⟩ := hsep.run_attempt (c := bootPool layout confs s)
    h.homes (ensures_bootPool h s ⟨s.mem, []⟩) hsucceed hrun
  have hi := hend i
  rw [hpanic] at hi
  cases i with
  | inl hart =>
      obtain ⟨-, ⟨root, T, hok, -⟩ | ⟨hfalse, -⟩⟩ := hi
      · cases hok
      · exact hfalse
  | inr i =>
      obtain ⟨T, -, ⟨hok, -⟩ | ⟨message', -, hfalse⟩⟩ := hi
      · cases hok
      · exact hfalse (hnodup i)

theorem bootPool_enabled (h : Placement layout confs) (hfree : FreePages layout.dynamic s free)
    (hnodup : ∀ i, (guestIndices (confs i)).Nodup)
    (hrun : run (poolStep heapHandler) (bootPool layout confs s) schedule = some c)
    (hsucceed : AllocationsSucceed (bootPool layout confs s) schedule) (i : Fin dtbNrCpus ⊕ ι) :
    (∃ result, c.threads i = .done result) ∨ ∃ d, poolStep heapHandler c i = some d := by
  cases hthread : c.threads i with
  | done result => exact .inl ⟨result, rfl⟩
  | panic message => exact absurd hthread (bootPool_ne_panic h hfree hnodup hrun hsucceed i message)
  | access o k => exact .inr ⟨_, by rw [poolStep, hthread]⟩

/-- The tables below the root that a list of pages needs, by level and key. -/
def Covers (keys : List (Nat × Nat)) (indices : List Nat) : Prop :=
  ∀ m ∈ indices, ∀ level < 2, (level, m / 512 ^ (level + 1)) ∈ keys

/-- How many pages the tables and the memory of all machines take at most. -/
def guestBudget [Fintype ι] (confs : ι → VmConfig) (keys : ι → List (Nat × Nat)) : Nat :=
  ∑ i, (guestPages (confs i) + (keys i).length)

theorem bootPool_succeeds [Fintype ι] (h : Placement layout confs)
    (hfree : FreePages layout.dynamic s free) {keys : ι → List (Nat × Nat)}
    (hkeys : ∀ i, Covers (keys i) (guestIndices (confs i)))
    (henough : 774 * dtbNrCpus + guestBudget confs keys < free.length)
    (schedule : List (Fin dtbNrCpus ⊕ ι)) :
    AllocationsSucceed (bootPool layout confs s) schedule := by
  have hsep := separated_of_freePages hfree (bootHome confs)
  let bound : Fin dtbNrCpus ⊕ ι → Nat :=
    Sum.elim (fun _ => 774) fun i => guestPages (confs i) + (keys i).length
  have hbound : ∑ i, bound i < free.length := by
    rw [Fintype.sum_sum_type]
    simpa [bound, guestBudget, Nat.mul_comm] using henough
  refine allocations_succeed h.homes ?_ hbound hfree.nodup (c := bootPool layout confs s) hsep
    (ensures_bootPool h s ⟨s.mem, []⟩) (uses_bootPool layout confs s)
    (fun page hpage => .inl hpage) schedule
  intro i r l hend pages hnodup hheld
  cases i with
  | inl hart =>
      obtain ⟨⟨T, haccounted⟩, -⟩ := hend
      exact held_length_le (toNat_tpOf hart) haccounted hnodup hheld
  | inr i =>
      obtain ⟨T, haccounted, -⟩ := hend
      exact haccounted.length_le rfl hnodup hheld (keys i) (hkeys i)

/-- With more free pages than the programs of the boot can hold, no `kmalloc` fails
in any interleaving, so each program gets on until it has returned. -/
theorem bootPool_returns [Fintype ι] (h : Placement layout confs)
    (hfree : FreePages layout.dynamic s free) (hnodup : ∀ i, (guestIndices (confs i)).Nodup)
    {keys : ι → List (Nat × Nat)} (hkeys : ∀ i, Covers (keys i) (guestIndices (confs i)))
    (henough : 774 * dtbNrCpus + guestBudget confs keys < free.length)
    (hrun : run (poolStep heapHandler) (bootPool layout confs s) schedule = some c)
    (i : Fin dtbNrCpus ⊕ ι) :
    AllocationsSucceed (bootPool layout confs s) schedule ∧
      ((∃ result, c.threads i = .done result) ∨ ∃ d, poolStep heapHandler c i = some d) := by
  have hsucceed := bootPool_succeeds h hfree hkeys henough schedule
  exact ⟨hsucceed, bootPool_enabled h hfree hnodup hrun hsucceed i⟩

end Runs

end RiscvHypervisor.BootMemory
