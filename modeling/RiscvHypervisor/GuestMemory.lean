import RiscvHypervisor.GuestConfig
import RiscvHypervisor.HardwareWalk

/-!
`init_hs_pgtable` of `core/vm_run.c` and the translation of the table it builds:
the image, the rest of the RAM and the devices, in this order.
-/

namespace RiscvHypervisor.GuestMemory

open RiscvHypervisor.EffectProgram
open RiscvHypervisor.MachineTypes
open RiscvHypervisor.GuestConfig
open RiscvHypervisor.OwnedMemory
open RiscvHypervisor.KernelMemory
open RiscvHypervisor.PageTable
open RiscvHypervisor.TableTree
open RiscvHypervisor.PageMapping
open RiscvHypervisor.HardwareWalk

/-- `PTE_U | PTE_R | PTE_W | PTE_X`. -/
def guestFlags : Uint64 := pteU ||| pteR ||| pteW ||| pteX

/-- The loop over `conf->devices` from slot `i` on.  An array without a null
pointer is read past its end, where the model stops. -/
def mapDevices (pgtable : Uint64) : Nat → List (Option MmioDev) → KernelM Unit
  | _, [] => .panic "conf->devices is not NULL terminated"
  | _, none :: _ => pure ()
  | i, some dev :: rest => do
      let rv ← mapPages pgtable dev.virtBase dev.physBase dev.size (toInt (dev.perm ||| pteU)) 1
      if rv < 0 then
        .panic s!"Failed to map MMIO device {i + 1}"
      else
        mapDevices pgtable (i + 1) rest

def initHsPgtable (conf : VmConfig) : KernelM Unit := do
  memset conf.vmPgtable (4096 * 4)
  let imageSize := pgroundup (conf.imageEnd - conf.imageBase)
  let rv ← mapPages conf.vmPgtable conf.memoryBase conf.imageBase imageSize (toInt guestFlags) 1
  if rv < 0 then
    .panic "failed to map VM kernel image"
  else
    let rv ← mapPages conf.vmPgtable (conf.memoryBase + imageSize) 0 (conf.memorySize - imageSize)
      (toInt guestFlags) 1
    if rv < 0 then
      .panic "failed to map VM RAM"
    else
      mapDevices conf.vmPgtable 0 conf.devices.toList

section Specification

/-- The rounded size of the image. -/
def imageSize (conf : VmConfig) : Uint64 := pgroundup (conf.imageEnd - conf.imageBase)

/-- How many frames `init_hs_pgtable` asks `kmalloc` for. -/
def ramPages (conf : VmConfig) : Nat := (pgroundup (conf.memorySize - imageSize conf)).toNat / 4096

def imageMappings (conf : VmConfig) : List (Nat × Uint64) :=
  mappings 1 conf.memoryBase (toInt guestFlags)
    (linear conf.imageBase ((imageSize conf).toNat / 4096) 0) 0

def ramMappings (conf : VmConfig) (frames : List Uint64) : List (Nat × Uint64) :=
  mappings 1 (conf.memoryBase + imageSize conf) (toInt guestFlags) (frames.map kpa2pa) 0

def deviceMappings (dev : MmioDev) : List (Nat × Uint64) :=
  mappings 1 dev.virtBase (toInt (dev.perm ||| pteU))
    (linear dev.physBase ((pgroundup dev.size).toNat / 4096) 0) 0

/-- The leaves of the table of a virtual machine. -/
def guestMappings (conf : VmConfig) (frames : List Uint64) : List (Nat × Uint64) :=
  imageMappings conf ++ (ramMappings conf frames ++ conf.devs.flatMap deviceMappings)

/-- The leaves for the devices, each with the frames that it has got. -/
def framedMappings : List MmioDev → List (List Uint64) → List (Nat × Uint64)
  | dev :: devs, pas :: rest =>
      mappings 1 dev.virtBase (toInt (dev.perm ||| pteU)) pas 0 ++ framedMappings devs rest
  | _, _ => []

/-- The leaves of the table when the frames are whatever `map_pages` has used. -/
def tableMappings (conf : VmConfig) (image ram : List Uint64) (devPas : List (List Uint64)) :
    List (Nat × Uint64) :=
  mappings 1 conf.memoryBase (toInt guestFlags) image 0 ++
    (mappings 1 (conf.memoryBase + imageSize conf) (toInt guestFlags) ram 0 ++
      framedMappings conf.devs devPas)

variable {dynamic : DynamicSymbol} {fails : Prop} {root : Uint64} {home : Set Uint64} {T : Tables}
  {l : Share Uint64}

/-- The frames of the devices of a machine. -/
abbrev DevicesMapped (dynamic : DynamicSymbol) (fails : Prop) (l : Share Uint64) (T' : Tables)
    (l' : Share Uint64) : List MmioDev → List (List Uint64) → Prop :=
  List.Forall₂ fun dev pas =>
    Mapped dynamic fails dev.physBase ((pgroundup dev.size).toNat / 4096) 0 l T' l' pas

/-- The pages of the devices. -/
def deviceIndices (devs : List MmioDev) : List Nat :=
  devs.flatMap fun dev => pageIndices 1 dev.virtBase ((pgroundup dev.size).toNat / 4096) 0

/-- How many frames the devices ask `kmalloc` for. -/
def devicePages (devs : List MmioDev) : Nat :=
  (devs.map fun dev =>
    if dev.physBase = 0 then (pgroundup dev.size).toNat / 4096 else 0).sum

theorem ensures_attempt_mapDevices (h : TreeInv dynamic 1 root home T l) (i : Nat)
    (devices : List (Option MmioDev)) :
    Ensures (kernelLayout dynamic) fails home (mapDevices root i devices).attempt l fun r l' =>
      ∃ T' devPas, TreeInv dynamic 1 root home T' l' ∧ Grows T l T' l' ∧
        Accounted (devicePages (inUse devices)) (deviceIndices (inUse devices)) l T' l' ∧
        ((r = .ok () ∧ DevicesMapped dynamic fails l T' l' (inUse devices) devPas ∧
            installAll (framedMappings (inUse devices) devPas) (translation T l.view) =
              some (translation T' l'.view)) ∨
          (∃ message, r = .error message ∧ (none ∈ devices →
            Vacant (deviceIndices (inUse devices)) (translation T l.view) → fails))) := by
  induction devices generalizing i T l with
  | nil =>
      exact ⟨T, [], h, (Extends.refl T l).toGrows, Accounted.of_subset (fun _ hq => hq) _ _ _,
        .inr ⟨_, rfl, fun hnone => absurd hnone (by simp)⟩⟩
  | cons slot rest ih =>
      cases slot with
      | none =>
          exact ⟨T, [], h, (Extends.refl T l).toGrows, Accounted.of_subset (fun _ hq => hq) _ _ _,
            .inl ⟨rfl, .nil, rfl⟩⟩
      | some dev =>
          have hbudget : devicePages (inUse (some dev :: rest)) =
              (if dev.physBase = 0 then (pgroundup dev.size).toNat / 4096 else 0) +
                devicePages (inUse rest) := by
            simp [devicePages, inUse]
          have hindices : deviceIndices (inUse (some dev :: rest)) =
              pageIndices 1 dev.virtBase ((pgroundup dev.size).toNat / 4096) 0 ++
                deviceIndices (inUse rest) := rfl
          rw [mapDevices, hbudget, hindices]
          refine (ensures_attempt_mapPages h _ _ _ _).seq_attempt ?_ ?_
          · rintro rv l₁ ⟨T₁, pas, htree₁, hgrows₁, haccounted₁, hmapped, hinstall,
              ⟨hrv, hlength⟩ | ⟨hfails, hrv, -⟩ | ⟨hrv, -⟩⟩
            · cases hrv
              rw [if_neg (by decide)]
              refine (ih htree₁ (i + 1)).mono ?_
              rintro r l₂ ⟨T₂, devPas, htree₂, hgrows₂, haccounted₂, hend⟩
              refine ⟨T₂, pas :: devPas, htree₂, hgrows₁.trans hgrows₂,
                haccounted₁.trans haccounted₂ hgrows₂, ?_⟩
              rcases hend with ⟨rfl, hdevices, hrest⟩ | ⟨message, rfl, hpanic⟩
              · refine .inl ⟨rfl, .cons ?_ ?_, ?_⟩
                · exact hlength ▸ hmapped.grows (fun _ hpage => hpage) hgrows₂
                · exact hdevices.imp fun _ _ hdev =>
                    hdev.grows hgrows₁.blocks (Extends.refl T₂ l₂).toGrows
                · rw [inUse, framedMappings, installAll_append, hinstall]
                  exact hrest
              · refine .inr ⟨message, rfl, fun hnone hvacant => hpanic (by simpa using hnone) ?_⟩
                exact hvacant.append_right hinstall (by rw [mappings_map_fst, hlength])
            · cases hrv
              rw [if_pos (by decide)]
              exact ⟨T₁, [], htree₁, hgrows₁, haccounted₁.append_right _ _,
                .inr ⟨_, rfl, fun _ _ => hfails⟩⟩
            · cases hrv
          · rintro message l₁ ⟨T₁, pas, htree₁, hgrows₁, haccounted₁, -, -,
              ⟨hrv, -⟩ | ⟨-, hrv, -⟩ | ⟨-, -, hnot⟩⟩
            · cases hrv
            · cases hrv
            · exact ⟨T₁, [], htree₁, hgrows₁, haccounted₁.append_right _ _,
                .inr ⟨message, rfl, fun _ hvacant => absurd hvacant.append_left hnot⟩⟩

/-- The pages of a virtual machine. -/
def guestIndices (conf : VmConfig) : List Nat :=
  pageIndices 1 conf.memoryBase ((imageSize conf).toNat / 4096) 0 ++
    (pageIndices 1 (conf.memoryBase + imageSize conf) (ramPages conf) 0 ++ deviceIndices conf.devs)

/-- How many frames `init_hs_pgtable` can ask `kmalloc` for. -/
def guestPages (conf : VmConfig) : Nat :=
  (if conf.imageBase = 0 then (imageSize conf).toNat / 4096 else 0) +
    (ramPages conf + devicePages conf.devs)

/-- The table that `init_hs_pgtable` leaves behind, and when it panics. -/
theorem ensures_attempt_initHsPgtable {conf : VmConfig} (hroot : IsRoot dynamic conf.vmPgtable)
    (l : Share Uint64) :
    Ensures (kernelLayout dynamic) fails (words conf.vmPgtable 2048) (initHsPgtable conf).attempt l
      fun r l' => ∃ T image ram devPas,
        TreeInv dynamic 1 conf.vmPgtable (words conf.vmPgtable 2048) T l' ∧
        Accounted (guestPages conf) (guestIndices conf) l T l' ∧
        ((r = .ok () ∧
            Mapped dynamic fails conf.imageBase ((imageSize conf).toNat / 4096) 0 l T l' image ∧
            Mapped dynamic fails 0 (ramPages conf) 0 l T l' ram ∧
            DevicesMapped dynamic fails l T l' conf.devs devPas ∧
            installAll (tableMappings conf image ram devPas) (fun _ => none) =
              some (translation T l'.view)) ∨
          (∃ message, r = .error message ∧
            (none ∈ conf.devices.toList → (guestIndices conf).Nodup → fails))) := by
  have hvacant : (guestIndices conf).Nodup →
      Vacant (guestIndices conf) (translation (rootOnly conf.vmPgtable)
        (l.clear (words conf.vmPgtable 2048)).view) :=
    fun hnodup => ⟨hnodup, fun n _ => by rw [translation_rootOnly]⟩
  rw [initHsPgtable, (neverPanics_memset _ _).attempt_bind]
  refine (ensures_memset (n := 2048) (by decide) fun a ha => .inl (.inl ha)).seq ?_
  rintro - l₀ rfl
  have htree₀ : TreeInv dynamic 1 conf.vmPgtable (words conf.vmPgtable 2048)
      (rootOnly conf.vmPgtable) (l.clear (words conf.vmPgtable 2048)) :=
    treeInv_zeroed hroot fun a ha => if_pos ha
  have hround : (pgroundup (imageSize conf)).toNat / 4096 = (imageSize conf).toNat / 4096 := by
    rw [imageSize, pgroundup_pgroundup]
  refine (ensures_attempt_mapPages htree₀ _ _ _ _).seq_attempt ?_ ?_
  · rintro rv l₁ ⟨T₁, image, htree₁, hgrows₁, haccounted₁, himage, hinstall₁,
      ⟨hrv, hlength₁⟩ | ⟨hfails, hrv, -⟩ | ⟨hrv, -⟩⟩
    · cases hrv
      rw [if_neg (by decide)]
      rw [← imageSize, hround] at haccounted₁ hlength₁
      refine (ensures_attempt_mapPages htree₁ _ _ _ _).seq_attempt ?_ ?_
      · rintro rv l₂ ⟨T₂, ram, htree₂, hgrows₂, haccounted₂, hram, hinstall₂,
          ⟨hrv, hlength₂⟩ | ⟨hfails, hrv, -⟩ | ⟨hrv, -⟩⟩
        · cases hrv
          rw [if_neg (by decide)]
          refine (ensures_attempt_mapDevices htree₂ 0 conf.devices.toList).mono ?_
          rintro r l₃ ⟨T₃, devPas, htree₃, hgrows₃, haccounted₃, hend⟩
          have hself := (Extends.refl T₃ l₃).toGrows
          refine ⟨T₃, image, ram, devPas, htree₃,
            haccounted₁.trans (haccounted₂.trans haccounted₃ hgrows₃) (hgrows₂.trans hgrows₃), ?_⟩
          rcases hend with ⟨rfl, hdevices, hinstall₃⟩ | ⟨message, rfl, hpanic⟩
          · refine .inl ⟨rfl, ?_, ?_, ?_, ?_⟩
            · exact hlength₁ ▸ himage.grows (fun _ hpage => hpage) (hgrows₂.trans hgrows₃)
            · have hpages : ram.length = ramPages conf := hlength₂
              exact hpages ▸ hram.grows hgrows₁.blocks hgrows₃
            · exact hdevices.imp fun _ _ hdev =>
                hdev.grows (fun page hpage => hgrows₂.blocks page (hgrows₁.blocks page hpage)) hself
            · rw [translation_rootOnly] at hinstall₁
              rw [tableMappings, installAll_append, hinstall₁, Option.bind_some, installAll_append,
                imageSize, hinstall₂]
              exact hinstall₃
          · refine .inr ⟨message, rfl, fun hnone hnodup => hpanic hnone ?_⟩
            have hrest := (hvacant hnodup).append_right hinstall₁
              (by rw [mappings_map_fst, hlength₁]; rfl)
            exact hrest.append_right hinstall₂ (by rw [mappings_map_fst, hlength₂]; rfl)
        · cases hrv
          rw [if_pos (by decide)]
          refine ⟨T₂, [], [], [], htree₂, ?_, .inr ⟨_, rfl, fun _ _ => hfails⟩⟩
          exact haccounted₁.trans (haccounted₂.append_right _ _) hgrows₂
        · cases hrv
      · rintro message l₂ ⟨T₂, ram, htree₂, hgrows₂, haccounted₂, -, -,
          ⟨hrv, -⟩ | ⟨-, hrv, -⟩ | ⟨-, -, hnot⟩⟩
        · cases hrv
        · cases hrv
        · refine ⟨T₂, [], [], [], htree₂, haccounted₁.trans (haccounted₂.append_right _ _) hgrows₂,
            .inr ⟨message, rfl, fun _ hnodup => absurd ?_ hnot⟩⟩
          have hrest := (hvacant hnodup).append_right hinstall₁
            (by rw [mappings_map_fst, hlength₁]; rfl)
          exact hrest.append_left
    · cases hrv
      rw [if_pos (by decide)]
      rw [← imageSize, hround] at haccounted₁
      exact ⟨T₁, [], [], [], htree₁, haccounted₁.append_right _ _,
        .inr ⟨_, rfl, fun _ _ => hfails⟩⟩
    · cases hrv
  · rintro message l₁ ⟨T₁, image, htree₁, hgrows₁, haccounted₁, -, -,
      ⟨hrv, -⟩ | ⟨-, hrv, -⟩ | ⟨-, -, hnot⟩⟩
    · cases hrv
    · cases hrv
    · rw [← imageSize, hround] at haccounted₁ hnot
      exact ⟨T₁, [], [], [], htree₁, haccounted₁.append_right _ _,
        .inr ⟨message, rfl, fun _ hnodup => absurd (hvacant hnodup).append_left hnot⟩⟩

/-- The table that `init_hs_pgtable` leaves behind when it returns. -/
theorem ensures_initHsPgtable_mapped {conf : VmConfig} (hroot : IsRoot dynamic conf.vmPgtable)
    (l : Share Uint64) :
    Ensures (kernelLayout dynamic) fails (words conf.vmPgtable 2048) (initHsPgtable conf) l
      fun _ l' => ∃ T image ram devPas,
        TreeInv dynamic 1 conf.vmPgtable (words conf.vmPgtable 2048) T l' ∧
        Mapped dynamic fails conf.imageBase ((imageSize conf).toNat / 4096) 0 l T l' image ∧
        Mapped dynamic fails 0 (ramPages conf) 0 l T l' ram ∧
        DevicesMapped dynamic fails l T l' conf.devs devPas ∧
        installAll (tableMappings conf image ram devPas) (fun _ => none) =
          some (translation T l'.view) := by
  refine (ensures_attempt_initHsPgtable hroot l).of_attempt.mono ?_
  intro _ l' ⟨T, image, ram, devPas, htree, _, hend⟩
  rcases hend with ⟨-, hmapped⟩ | ⟨message, herror, -⟩
  · exact ⟨T, image, ram, devPas, htree, hmapped⟩
  · cases herror

theorem framedMappings_given {devs : List MmioDev} {devPas : List (List Uint64)} {l' : Share Uint64}
    (h : DevicesMapped dynamic fails l T l' devs devPas) (hphys : ∀ dev ∈ devs, dev.physBase ≠ 0) :
    framedMappings devs devPas = devs.flatMap deviceMappings := by
  induction h with
  | nil => rfl
  | cons hdev _ ih =>
      rw [List.forall_mem_cons] at hphys
      rw [framedMappings, ih hphys.2, hdev.given hphys.1]
      rfl

/-- The table when no frame is null and every `kmalloc` has succeeded. -/
theorem ensures_initHsPgtable {conf : VmConfig} (hroot : IsRoot dynamic conf.vmPgtable)
    (himage : conf.imageBase ≠ 0) (hphys : ∀ dev ∈ conf.devs, dev.physBase ≠ 0)
    (l : Share Uint64) :
    Ensures (kernelLayout dynamic) False (words conf.vmPgtable 2048) (initHsPgtable conf) l
      fun _ l' => ∃ T frames, TreeInv dynamic 1 conf.vmPgtable (words conf.vmPgtable 2048) T l' ∧
        Frames dynamic T l' frames ∧ frames.length = ramPages conf ∧
        (∀ page ∈ frames, page ∉ l.blocks) ∧
        installAll (guestMappings conf frames) (fun _ => none) = some (translation T l'.view) := by
  apply (ensures_initHsPgtable_mapped hroot l).mono
  rintro - l' ⟨T, image, ram, devPas, htree, himageMapped, hram, hdevices, hinstall⟩
  obtain ⟨frames, rfl, hlength, hframes, hfresh⟩ := hram.allocated rfl not_false
  refine ⟨T, frames, htree, hframes, hlength, hfresh, ?_⟩
  rw [← hinstall, tableMappings, framedMappings_given hdevices hphys, himageMapped.given himage]
  rfl

end Specification

section Memory

variable {dynamic : DynamicSymbol}

theorem uses_mapDevices (pgtable : Uint64) (i : Nat) (devices : List (Option MmioDev)) :
    (mapDevices pgtable i devices).Uses NoPush := by
  induction devices generalizing i with
  | nil => trivial
  | cons slot rest ih =>
      cases slot with
      | none => trivial
      | some dev => exact (uses_mapPages _ _ _ _ _ _).bind fun _ => Program.uses_ite trivial (ih _)

theorem uses_initHsPgtable (conf : VmConfig) : (initHsPgtable conf).Uses NoPush := by
  refine (uses_memset (fun _ _ => trivial) _ _).bind fun _ => (uses_mapPages _ _ _ _ _ _).bind fun _ => ?_
  refine Program.uses_ite trivial ((uses_mapPages _ _ _ _ _ _).bind fun _ => ?_)
  exact Program.uses_ite trivial (uses_mapDevices _ _ _)

/-- With different pages and enough memory `init_hs_pgtable` returns. -/
theorem initHsPgtable_returns {conf : VmConfig} (hroot : IsRoot dynamic conf.vmPgtable)
    {s : KernelMem} {free : List Uint64} (hfree : FreePages dynamic s free)
    (hnone : none ∈ conf.devices.toList) (hnodup : (guestIndices conf).Nodup)
    (keys : List (Nat × Nat))
    (hkeys : ∀ m ∈ guestIndices conf, ∀ level < 2, (level, m / 512 ^ (level + 1)) ∈ keys)
    (henough : guestPages conf + keys.length < free.length) :
    ∃ s', exec heapHandler (initHsPgtable conf) s = (.ok (), s') := by
  have hhome := homes_of_isRoot (fun _ : Unit => hroot) fun _ _ _ => rfl
  have hsep := separated_of_freePages hfree fun _ : Unit => words conf.vmPgtable 2048
  have hexhausts : ¬ Exhausts (initHsPgtable conf) s := by
    intro hex
    obtain ⟨r, l, ⟨T, -, -, -, -, haccounted, -⟩, hall⟩ := hsep.free_subset_of_exhausts hhome (i := ())
      (ensures_attempt_initHsPgtable hroot _) (uses_initHsPgtable conf) hex
    have hlength := haccounted.length_le rfl hfree.nodup hall keys hkeys
    omega
  obtain ⟨l, free', -, ⟨T, image, ram, devPas, -, -, hend⟩, -⟩ :=
    hsep.exec_attempt hhome (i := ()) (ensures_attempt_initHsPgtable hroot _) hexhausts
  rcases hend with ⟨hok, -⟩ | ⟨message, -, hpanic⟩
  · exact ⟨(exec heapHandler (initHsPgtable conf) s).2, by rw [← hok]⟩
  · exact (hpanic hnone hnodup).elim

end Memory

section Leaves

theorem ofInt_toInt {flags : Uint64} (h : flags.toNat < 2 ^ 31) :
    BitVec.ofInt 64 (toInt flags) = flags := by
  rw [toInt_of_lt h, BitVec.ofInt_natCast, BitVec.ofNat_toNat]
  exact BitVec.setWidth_eq flags

theorem toNat_or_pteV_lt {flags : Uint64} (h : flags.toNat < 1024) :
    (flags ||| pteV).toNat < 1024 := by
  rw [BitVec.toNat_or, pteV_toNat]
  exact Nat.or_lt_two_pow (n := 10) h (by decide)

theorem toNat_leafEntry (pa : Uint64) {flags : Uint64} (h : flags.toNat < 1024) :
    (leafEntry pa (toInt flags)).toNat = pa.toNat / 4096 * 1024 + (flags ||| pteV).toNat := by
  rw [leafEntry, ofInt_toInt (by omega), BitVec.or_assoc,
    toNat_pa2pte_or pa (toNat_or_pteV_lt h)]

/-- The frame that a leaf for an aligned page refers to. -/
theorem pteFrame_leafEntry {pa flags : Uint64} (hflags : flags.toNat < 1024)
    (haligned : pa.toNat % 4096 = 0) (hbound : pa.toNat < 2 ^ 56) :
    pteFrame (leafEntry pa (toInt flags)) = pa := by
  have hlow := toNat_or_pteV_lt hflags
  apply BitVec.eq_of_toNat_eq
  rw [toNat_pteFrame, toNat_leafEntry pa hflags]
  omega

/-- The ten low bits of a leaf. -/
theorem leafEntry_and_flags {flags : Uint64} (pa : Uint64) (hflags : flags.toNat < 1024) :
    leafEntry pa (toInt flags) &&& 0x3ff = flags ||| pteV := by
  have hlow := toNat_or_pteV_lt hflags
  apply BitVec.eq_of_toNat_eq
  rw [BitVec.toNat_and, show (0x3ff : Uint64).toNat = 2 ^ 10 - 1 from rfl,
    Nat.and_two_pow_sub_one_eq_mod, toNat_leafEntry pa hflags]
  omega

theorem length_linear (pa : Uint64) (pages : Nat) (i : Uint64) :
    (linear pa pages i).length = pages := by
  induction pages generalizing i with
  | zero => rfl
  | succ pages ih => simp [linear, ih]

theorem getElem?_linear (pa : Uint64) (pages : Nat) (i : Uint64) (k : Nat) :
    (linear pa pages i)[k]? =
      if k < pages then some (pa + (i + BitVec.ofNat 64 (4096 * k))) else none := by
  induction pages generalizing i k with
  | zero => simp [linear]
  | succ pages ih =>
      cases k with
      | zero => simp [linear]
      | succ k =>
          have hnext : i + pageSize + BitVec.ofNat 64 (4096 * k) =
              i + BitVec.ofNat 64 (4096 * (k + 1)) := by
            rw [BitVec.add_assoc, show pageSize = BitVec.ofNat 64 4096 from rfl,
              ← BitVec.ofNat_add, Nat.mul_succ, Nat.add_comm]
          simp only [linear, List.getElem?_cons_succ, ih, hnext, Nat.add_lt_add_iff_right]

theorem pageIndex_add {va i : Uint64} (h : va.toNat + i.toNat < 2 ^ 41) :
    pageIndex 1 (va + i) = (va.toNat + i.toNat) / 4096 := by
  rw [pageIndex_eq, pageCount_one, BitVec.toNat_add]
  omega

/-- The leaves of a range of pages below `2 ^ 41`. -/
theorem mem_mappings_iff {va : Uint64} (pteFlags : Int) {pas : List Uint64} {i : Uint64}
    (hi : (va.toNat + i.toNat) % 4096 = 0) (hbound : va.toNat + i.toNat + 4096 * pas.length ≤ 2 ^ 41)
    (n : Nat) (leaf : Uint64) :
    (n, leaf) ∈ mappings 1 va pteFlags pas i ↔
      ∃ k pa, pas[k]? = some pa ∧ n = (va.toNat + i.toNat) / 4096 + k ∧
        leaf = leafEntry pa pteFlags := by
  induction pas generalizing i with
  | nil => simp [mappings]
  | cons pa rest ih =>
      rw [List.length_cons] at hbound
      have hnext : (i + pageSize).toNat = i.toNat + 4096 := by
        rw [BitVec.toNat_add, pageSize_toNat]
        omega
      rw [mappings, List.mem_cons, Prod.mk.injEq, pageIndex_add (by omega),
        ih (by omega) (by omega), hnext]
      constructor
      · rintro (⟨rfl, rfl⟩ | ⟨k, pa', hpa, rfl, rfl⟩)
        · exact ⟨0, pa, rfl, rfl, rfl⟩
        · exact ⟨k + 1, pa', hpa, by omega, rfl⟩
      · rintro ⟨k, pa', hpa, rfl, rfl⟩
        cases k with
        | zero =>
            obtain rfl : pa = pa' := by simpa using hpa
            exact .inl ⟨rfl, rfl⟩
        | succ k => exact .inr ⟨k, pa', by simpa using hpa, by omega, rfl⟩

/-- A range that is mapped linearly. -/
theorem mem_linear_mappings_iff {va pa : Uint64} (pteFlags : Int) {pages : Nat}
    (hva : va.toNat % 4096 = 0) (hbound : va.toNat + 4096 * pages ≤ 2 ^ 41) (n : Nat)
    (leaf : Uint64) :
    (n, leaf) ∈ mappings 1 va pteFlags (linear pa pages 0) 0 ↔
      ∃ k < pages, n = va.toNat / 4096 + k ∧
        leaf = leafEntry (pa + BitVec.ofNat 64 (4096 * k)) pteFlags := by
  have hlength := length_linear pa pages 0
  have hzero : (0 : Uint64).toNat = 0 := rfl
  rw [mem_mappings_iff pteFlags (by omega) (by omega), hzero, Nat.add_zero]
  have hstart : ∀ x : Uint64, 0 + x = x := BitVec.zero_add
  simp only [getElem?_linear, hstart]
  constructor
  · rintro ⟨k, pa', hpa, rfl, rfl⟩
    split at hpa
    · rename_i hk
      cases hpa
      exact ⟨k, hk, rfl, rfl⟩
    · cases hpa
  · rintro ⟨k, hk, rfl, rfl⟩
    exact ⟨k, _, if_pos hk, rfl, rfl⟩

end Leaves

end RiscvHypervisor.GuestMemory
