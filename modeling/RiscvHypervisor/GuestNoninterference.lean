import RiscvHypervisor.GuestAccess
import RiscvHypervisor.ShippedConfig
import RiscvHypervisor.Unwinding

/-!
What the machines can do to the memory after the boot, over any sequence of
accesses of their harts to RAM.  The words that a machine writes are those of its
memory and the leaves of its table; the words of different machines, of the upper
tables and of the hypervisor lie apart.
-/

namespace RiscvHypervisor.GuestNoninterference

open RiscvHypervisor.EffectProgram
open RiscvHypervisor.TransitionSystem
open RiscvHypervisor.MachineTypes
open RiscvHypervisor.GuestConfig
open RiscvHypervisor.OwnedMemory
open RiscvHypervisor.KernelMemory
open RiscvHypervisor.PageTable
open RiscvHypervisor.TableTree
open RiscvHypervisor.PageMapping
open RiscvHypervisor.HardwareWalk
open RiscvHypervisor.GuestMemory
open RiscvHypervisor.GuestIsolation
open RiscvHypervisor.InitVmem
open RiscvHypervisor.KernelAddressSpace
open RiscvHypervisor.BootMemory
open RiscvHypervisor.ShippedConfig
open RiscvHypervisor.HsRegisters
open RiscvHypervisor.GuestAccess
open RiscvHypervisor.Unwinding

section Owners

variable {ι : Type} {layout : ImageLayout} {confs : ι → VmConfig} {s : KernelMem}
  {roots : Fin dtbNrCpus → Uint64} {kernelTables : Fin dtbNrCpus → Tables} {tables : ι → Tables}
  {frames : ι → List Uint64} {shares : Fin dtbNrCpus ⊕ ι → Share Uint64} {free : List Uint64}

/-- The word lies in a page that the machine was given. -/
def HeldBy (shares : Fin dtbNrCpus ⊕ ι → Share Uint64) (i : ι) (a : Uint64) : Prop :=
  ∃ page ∈ (shares (.inr i)).blocks, a ∈ words page 512

variable (h : Boot layout confs s roots kernelTables tables frames shares free)
  (hplaced : Placement layout confs)

include h

theorem heldBy_of_leafWords {i : ι} {a : Uint64} (ha : a ∈ leafWords (tables i)) :
    HeldBy shares i a := by
  obtain ⟨key, page, hpage, ha⟩ := ha
  exact ⟨page, (h.guest i).tree.held 0 (by decide) key page hpage, ha⟩

theorem heldBy_of_ramWords {i : ι} {a : Uint64} (ha : a ∈ ramWords (confs i) (frames i)) :
    ImageWord (confs i) a ∨ HeldBy shares i a := by
  rcases ha with himage | ⟨page, hpage, ha⟩
  · exact .inl himage
  · exact .inr ⟨page, (h.guest i).pages.held page hpage, ha⟩

theorem machineWords_cases {i : ι} {a : Uint64}
    (ha : a ∈ machineWords (confs i) (tables i) (frames i)) :
    ImageWord (confs i) a ∨ HeldBy shares i a := by
  rcases ha with ha | ha
  · exact heldBy_of_ramWords h ha
  · exact .inr (heldBy_of_leafWords h ha)

theorem le_of_heldBy {i : ι} {a : Uint64} (ha : HeldBy shares i a) :
    0xffffffe000000000 ≤ a.toNat := by
  obtain ⟨page, hpage, ha⟩ := ha
  exact le_of_mem_words (h.separated.block_valid (.inr i) page hpage) ha

include hplaced

theorem not_imageWord_of_heldBy {i j : ι} {a : Uint64} (ha : HeldBy shares i a) :
    ¬ ImageWord (confs j) a := by
  intro himage
  have hlow := le_of_heldBy h ha
  have hrange := imageWord_range hplaced himage
  have hhigh := layout.dynamic.toNat_le
  omega

theorem not_heldBy_of_heldBy {i j : ι} (hij : i ≠ j) {a : Uint64} (ha : HeldBy shares i a) :
    ¬ HeldBy shares j a := by
  intro hother
  have hown : (shares (.inr i)).Owns (kernelLayout layout.dynamic) (bootHome confs (.inr i)) a :=
    .inr ha
  exact h.separated.not_owns_of_owns hplaced.homes (fun heq => hij (Sum.inr_injective heq)) hown
    (.inr hother)

/-- Different machines have different words. -/
theorem machineWords_apart (i j : ι) (hij : i ≠ j) :
    Disjoint (machineWords (confs i) (tables i) (frames i))
      (machineWords (confs j) (tables j) (frames j)) := by
  rw [Set.disjoint_left]
  intro a ha ha'
  rcases machineWords_cases h ha with himage | hheld
  · rcases machineWords_cases h ha' with himage' | hheld'
    · have happart := hplaced.images_apart i j hij
      have hmemory := dtbMemory_toNat
      have hlow := (hplaced.wellFormed i).image_lower
      have hlow' := (hplaced.wellFormed j).image_lower
      have hupper := (hplaced.wellFormed i).image_upper
      have hupper' := (hplaced.wellFormed j).image_upper
      have hdynamic := toNat_kva2pa layout.dynamic.le_toNat
      have hhigh := layout.dynamic.toNat_le
      rw [BitVec.le_def] at hlow hlow'
      obtain ⟨pa, hpa, hpa', rfl⟩ := himage
      obtain ⟨pb, hpb, hpb', heq⟩ := himage'
      have hnat := congrArg BitVec.toNat heq
      rw [toNat_pa2kva (by omega) (by omega), toNat_pa2kva (by omega) (by omega)] at hnat
      omega
    · exact not_imageWord_of_heldBy h hplaced hheld' himage
  · rcases machineWords_cases h ha' with himage' | hheld'
    · exact not_imageWord_of_heldBy h hplaced hheld himage'
    · exact not_heldBy_of_heldBy h hplaced hij hheld hheld'

/-- The words of a table are not those of a frame. -/
theorem table_notMem_frame {i j : ι} {level key : Nat} {page a : Uint64} (hlevel : level ≤ 2)
    (hpage : tables j level key = some page) (ha : a ∈ words page (tableEntries 1 level))
    {frame : Uint64} (hframe : frame ∈ frames i) : a ∉ words frame 512 := by
  intro hin
  have htree := (h.guest j).tree
  have hheld := (h.guest i).pages.held frame hframe
  have hvalid := (h.guest i).pages.valid frame hframe
  rcases eq_or_ne i j with rfl | hij
  · rcases Nat.lt_or_eq_of_le hlevel with hlt | rfl
    · rw [TreeInv.tableEntries_of_lt hlt] at ha
      have hne : page ≠ frame := by
        rintro rfl
        exact (h.guest i).pages.notTable page hframe level hlt key hpage
      have hdisjoint := (kernelLayout layout.dynamic).disjoint_block page frame
        (htree.valid level hlt key page hpage) hvalid hne
      exact Set.disjoint_left.mp hdisjoint ha hin
    · obtain ⟨-, rfl⟩ := (htree.root_iff key page).mp hpage
      exact Set.disjoint_left.mp (hplaced.homes.disjoint_block (.inr i) frame hvalid) ha hin
  · have hown := htree.owns hlevel hpage ha
    exact h.machines.not_owns_of_owns (homes_of_isRoot hplaced.isRoot hplaced.tables_distinct)
      hij.symm hown (.inr ⟨frame, hheld, hin⟩)

/-- What a program of the boot owns is not in the image of a machine. -/
theorem not_imageWord_of_owns {i : ι} {k : Fin dtbNrCpus ⊕ ι} {a : Uint64}
    (ha : (shares k).Owns (kernelLayout layout.dynamic) (bootHome confs k) a) :
    ¬ ImageWord (confs i) a := by
  intro himage
  have hrange := imageWord_range hplaced himage
  have hhigh := layout.dynamic.toNat_le
  rcases ha with hhome | ⟨page, hpage, ha⟩
  · match k with
    | .inl _ => exact hhome
    | .inr j =>
        obtain ⟨-, -, -, -, -, h₁, h₂, h₃, h₄, h₅, h₆, h₇, h₈, h₉, h₁₀⟩ := placed layout
        have himages : layout.cpuStructs.stop.toNat ≤ layout.vmImages.start.toNat :=
          layout.cpuStructs_vmImages
        have hupper := hplaced.table_upper j
        obtain ⟨n, hn, rfl⟩ := hhome
        rw [toNat_slot (by omega)] at hrange
        omega
  · have hlow := le_of_mem_words (h.separated.block_valid k page hpage) ha
    omega

theorem leafWords_notMem_ramWords {i j : ι} {a : Uint64} (ha : a ∈ leafWords (tables j)) :
    a ∉ ramWords (confs i) (frames i) := by
  rintro (himage | ⟨frame, hframe, hin⟩)
  · exact not_imageWord_of_heldBy h hplaced (heldBy_of_leafWords h ha) himage
  · obtain ⟨key, page, hpage, ha⟩ := ha
    exact table_notMem_frame h hplaced (Nat.zero_le 2) hpage ha hframe hin

/-- No machine can write an entry of an upper table. -/
theorem upper_notMem {i j : ι} {level key : Nat} {page a : Uint64} (hlevel : level < 2)
    (hpage : tables j (level + 1) key = some page)
    (ha : a ∈ words page (tableEntries 1 (level + 1))) :
    a ∉ machineWords (confs i) (tables i) (frames i) := by
  have htree := (h.guest j).tree
  have hown := htree.owns (by omega) hpage ha
  rintro ((himage | ⟨frame, hframe, hin⟩) | hleaf)
  · exact not_imageWord_of_owns h hplaced (k := .inr j) hown himage
  · exact table_notMem_frame h hplaced (by omega) hpage ha hframe hin
  · rcases eq_or_ne i j with rfl | hij
    · obtain ⟨key', page', hpage', hin⟩ := hleaf
      have happart := htree.apart (level + 1) (by omega) 0 (by omega) key key' page page' hpage
        hpage' (by omega)
      exact Set.disjoint_left.mp happart ha hin
    · exact h.machines.not_owns_of_owns (homes_of_isRoot hplaced.isRoot hplaced.tables_distinct)
        hij.symm hown (.inr (heldBy_of_leafWords h hleaf))

/-- The tables of the harts are out of reach. -/
theorem kernel_notMem {i : ι} {hart : Fin dtbNrCpus} {a : Uint64}
    (ha : (shares (.inl hart)).Owns (kernelLayout layout.dynamic) ∅ a) :
    a ∉ machineWords (confs i) (tables i) (frames i) := by
  intro hin
  have hown : (shares (.inl hart)).Owns (kernelLayout layout.dynamic) (bootHome confs (.inl hart)) a :=
    ha
  rcases machineWords_cases h hin with himage | hheld
  · exact not_imageWord_of_owns h hplaced hown himage
  · exact h.separated.not_owns_of_owns hplaced.homes Sum.inl_ne_inr hown (.inr hheld)

/-- The free pages are out of reach. -/
theorem free_notMem {i : ι} {page : Uint64} (hpage : page ∈ free) :
    page ∉ machineWords (confs i) (tables i) (frames i) := by
  intro hin
  have hvalid := h.separated.free_valid page hpage
  have hself := (kernelLayout layout.dynamic).mem_block page hvalid
  rcases machineWords_cases h hin with himage | hheld
  · have hlow := le_of_mem_words hvalid hself
    have hrange := imageWord_range hplaced himage
    have hhigh := layout.dynamic.toNat_le
    omega
  · exact h.separated.not_owns_of_free hplaced.homes hpage hself (.inr i) (.inr hheld)

end Owners

section Steps

variable {ι : Type} {layout : ImageLayout} {confs : ι → VmConfig} {s : KernelMem}
  {roots : Fin dtbNrCpus → Uint64} {kernelTables : Fin dtbNrCpus → Tables} {tables : ι → Tables}
  {frames : ι → List Uint64} {shares : Fin dtbNrCpus ⊕ ι → Share Uint64} {free : List Uint64}

/-- Only words of machines have changed, and in their leaves only the accessed and
dirty bits. -/
structure Intact (confs : ι → VmConfig) (tables : ι → Tables) (frames : ι → List Uint64)
    (m₀ m : Uint64 → Uint64) : Prop where
  outside : ∀ a, (∀ i, a ∉ machineWords (confs i) (tables i) (frames i)) → m a = m₀ a
  leaf : ∀ i, ∀ a ∈ leafWords (tables i), kept (m a) = kept (m₀ a)

/-- The walk marks the leaf. -/
def mark (kind : AccessKind) (a : Uint64) (m : Uint64 → Uint64) : Uint64 → Uint64 :=
  Function.update m a (m a ||| accessBits kind)

/-- What an access does, the same in all memories that are intact: it faults, it leads
out of RAM, or it marks a leaf of the machine and goes to a word of the machine. -/
inductive Does (step : (Uint64 → Uint64) → Option (Answer × (Uint64 → Uint64)))
    (valid : (Uint64 → Uint64) → Prop) (kind : AccessKind) (ram leaves : Set Uint64) : Prop
  | fault (hstep : ∀ m, valid m → step m = some (.fault, m))
  | outside (hstep : ∀ m, valid m → step m = none)
  | word (a w : Uint64) (ha : a ∈ leaves) (hw : w ∈ ram)
      (hstep : ∀ m, valid m → step m = some (accessWord kind w (mark kind a m)))

variable (h : Boot layout confs s roots kernelTables tables frames shares free)
  (hplaced : Placement layout confs) (vm : Fin dtbNrCpus → ι) (csrs : Fin dtbNrCpus → HsCsrs)

include h hplaced

/-- The walk of a machine finds the same leaf as after the boot. -/
theorem leafAddress_of_intact {m : Uint64 → Uint64} (hm : Intact confs tables frames s.mem m)
    (i : ι) (gpa : Uint64) :
    leafAddress layout.dynamic m gpa 2 (kva2pa (confs i).vmPgtable) =
      (tables i 0 (leafKey gpa 1 2 0)).map fun leaf => kpa2pa leaf + vpn gpa 0 * 8 := by
  have htree := (h.guest i).tree
  refine leafAddress_eq (hplaced.isRoot i) htree ?_ gpa (Nat.le_refl 2)
    ((htree.root_iff 0 _).mpr ⟨rfl, rfl⟩)
  intro level hlevel key page hpage idx hidx
  have hword := slot_mem_words (p := page) hidx
  rw [hm.outside _ fun j => upper_notMem h hplaced hlevel hpage hword]
  exact h.machines.agree i _ (htree.owns (by omega) hpage hword)

omit h hplaced in
theorem intact_refl : Intact confs tables frames s.mem s.mem where
  outside _ _ := rfl
  leaf _ _ _ := rfl

/-- The entry of an address after the boot. -/
theorem validEntry_of_leaf {i : ι} {gpa table : Uint64}
    (htable : tables i 0 (leafKey gpa 1 2 0) = some table)
    (hvalid : s.mem (slot table (vpn gpa 0)) &&& pteV ≠ 0) :
    ValidEntry layout.dynamic s.mem (confs i).vmPgtable gpa (s.mem (slot table (vpn gpa 0))) := by
  have hpage := (h.guest i).tree.valid 0 (by decide) _ table htable
  have hidx := vpn_zero_lt gpa
  refine ⟨?_, hvalid⟩
  rw [guestEntry, levelZeroEntry_eq_map,
    leafAddress_of_intact h hplaced intact_refl, htable, Option.map_some,
    Option.map_some, physRead_page s.mem hpage hidx]

/-- The image and the frames of a machine are in RAM. -/
theorem target_of_ram {i : ι} {gpa pte : Uint64}
    (hpte : ((confs i).imageBase.toNat ≤ (pteFrame pte).toNat ∧
        (pteFrame pte).toNat < (confs i).imageBase.toNat + (imageSize (confs i)).toNat) ∨
      ∃ n, IsRamPage (confs i) n ∧ pteFrame pte = kpa2pa (frameOf (confs i) (frames i) n)) :
    (dtbMemory ≤ pteFrame pte + dwordOffset gpa ∧ pteFrame pte + dwordOffset gpa < dtbMemoryEnd) ∧
      kernelWord layout.dynamic (pteFrame pte + dwordOffset gpa) ∈
        ramWords (confs i) (frames i) := by
  obtain ⟨idx, hindex, hoffset, hpa⟩ := toNat_target pte gpa
  have hmemory := dtbMemory_toNat
  have hend : dtbMemoryEnd.toNat = 0x90000000 := rfl
  have hdynamic := toNat_kva2pa layout.dynamic.le_toNat
  have hhigh := layout.dynamic.toNat_le
  rcases hpte with himage | ⟨n, hn, hpage⟩
  · have hlow := (hplaced.wellFormed i).image_lower
    have hupper := (hplaced.wellFormed i).image_upper
    have haligned := MemoryWellFormed.toNat_mod_of_aligned (hplaced.wellFormed i).image_aligned
    have hsize : (imageSize (confs i)).toNat % 4096 = 0 := toNat_pgroundup_mod _
    have hframe := toNat_pteFrame pte
    rw [BitVec.le_def] at hlow
    refine ⟨⟨by rw [BitVec.le_def]; omega, by rw [BitVec.lt_def]; omega⟩,
      .inl ⟨pteFrame pte + dwordOffset gpa, ?_, ?_, ?_⟩⟩
    · omega
    · omega
    · rw [kernelWord, if_pos (by rw [BitVec.lt_def]; omega)]
  · have hmem := (h.guest i).frameOf_mem (hplaced.wellFormed i) hn
    have hvalid := (h.guest i).pages.valid _ hmem
    have hfacts := toNat_kpa2pa_valid hvalid
    rw [← hpage] at hfacts
    refine ⟨⟨by rw [BitVec.le_def]; omega, by rw [BitVec.lt_def]; omega⟩, .inr ⟨_, hmem, ?_⟩⟩
    rw [hpage, hoffset, kernelWord_page hvalid hindex]
    exact slot_mem_words hindex

/-- A valid leaf leads out of RAM, or to a word of the machine. -/
theorem target_cases {i : ι} {gpa pte : Uint64} (hgpa : gpa.toNat < 2 ^ 41)
    (hpte : ValidEntry layout.dynamic s.mem (confs i).vmPgtable gpa pte) :
    ¬ (dtbMemory ≤ pteFrame pte + dwordOffset gpa ∧ pteFrame pte + dwordOffset gpa < dtbMemoryEnd) ∨
      ((dtbMemory ≤ pteFrame pte + dwordOffset gpa ∧
          pteFrame pte + dwordOffset gpa < dtbMemoryEnd) ∧
        kernelWord layout.dynamic (pteFrame pte + dwordOffset gpa) ∈
          ramWords (confs i) (frames i)) := by
  obtain ⟨idx, hindex, -, hpa⟩ := toNat_target pte gpa
  have hmemory := dtbMemory_toNat
  have hend : dtbMemoryEnd.toNat = 0x90000000 := rfl
  have hframe := toNat_pteFrame pte
  rcases h.frame_cases hplaced hgpa hpte with hout | hram
  · left
    rw [BitVec.le_def, BitVec.lt_def]
    omega
  · exact .inr (target_of_ram h hplaced hram)

/-- In an intact memory the flags and the frame of a leaf are those after the boot. -/
theorem accessStep_of_leaf {m : Uint64 → Uint64} (hm : Intact confs tables frames s.mem m)
    {access : Access} {table : Uint64} (hgpa : access.gpa.toNat < 2 ^ 41)
    (htable : tables (vm access.hart) 0 (leafKey access.gpa 1 2 0) = some table) :
    accessStep layout.dynamic (entered confs vm csrs) m access =
      if permits access.kind (s.mem (slot table (vpn access.gpa 0))) then
        physAccess layout.dynamic (mark access.kind (slot table (vpn access.gpa 0)) m) access.kind
          (pteFrame (s.mem (slot table (vpn access.gpa 0))) + dwordOffset access.gpa)
      else
        some (.fault, m) := by
  have hpage := (h.guest (vm access.hart)).tree.valid 0 (by decide) _ table htable
  have hidx := vpn_zero_lt access.gpa
  have hkept := hm.leaf (vm access.hart) _ ⟨_, table, htable, slot_mem_words hidx⟩
  rw [accessStep_entered vm hplaced.isRoot, if_neg (Nat.not_le.mpr hgpa),
    leafAddress_of_intact h hplaced hm, htable, Option.map_some, leafAccess,
    physRead_page m hpage hidx, permits_of_kept hkept, pteFrame_of_kept hkept, physWrite,
    kernelWord_page hpage hidx]
  rfl

theorem accessStep_does (access : Access) :
    Does (fun m => accessStep layout.dynamic (entered confs vm csrs) m access)
      (Intact confs tables frames s.mem) access.kind
      (ramWords (confs (vm access.hart)) (frames (vm access.hart)))
      (leafWords (tables (vm access.hart))) := by
  rcases Nat.lt_or_ge access.gpa.toNat (2 ^ 41) with hgpa | hgpa
  · cases htable : tables (vm access.hart) 0 (leafKey access.gpa 1 2 0) with
    | none =>
        apply Does.fault
        intro m hm
        rw [accessStep_entered vm hplaced.isRoot, if_neg (Nat.not_le.mpr hgpa),
          leafAddress_of_intact h hplaced hm, htable]
        rfl
    | some table =>
        have hstep : ∀ m, Intact confs tables frames s.mem m → _ :=
          fun m hm => accessStep_of_leaf h hplaced vm csrs hm hgpa htable
        cases hpermits : permits access.kind (s.mem (slot table (vpn access.gpa 0))) with
        | false =>
            apply Does.fault
            intro m hm
            rw [hstep m hm, hpermits, if_neg (by decide)]
        | true =>
            have hvalid : s.mem (slot table (vpn access.gpa 0)) &&& pteV ≠ 0 := by
              intro hzero
              simp [permits, hzero] at hpermits
            rcases target_cases h hplaced hgpa (validEntry_of_leaf h hplaced htable hvalid) with
              hout | ⟨⟨hlow, hhigh⟩, hword⟩
            · apply Does.outside
              intro m hm
              rw [hstep m hm, hpermits, if_pos rfl, physAccess, if_neg hout]
            · refine .word _ _ ⟨_, table, htable, slot_mem_words (vpn_zero_lt access.gpa)⟩ hword
                fun m hm => ?_
              rw [hstep m hm, hpermits, if_pos rfl, physAccess_word hlow hhigh rfl]
  · apply Does.fault
    intro m hm
    rw [accessStep_entered vm hplaced.isRoot, if_pos hgpa]

/-- An access to the RAM of the own machine gets an answer. -/
theorem accessStep_ram {m : Uint64 → Uint64} (hm : Intact confs tables frames s.mem m)
    {access : Access} (hram : InRam (confs (vm access.hart)) access.gpa) :
    ∃ value m', accessStep layout.dynamic (entered confs vm csrs) m access =
      some (.word value, m') := by
  have hconf := hplaced.wellFormed (vm access.hart)
  have htable := h.guestTable hplaced (vm access.hart)
  have hgpa : access.gpa.toNat < 2 ^ 41 := Nat.lt_of_lt_of_le hram.2 hconf.memory_end_le
  obtain ⟨pte, hentry, hflags⟩ : ∃ pte, ValidEntry layout.dynamic s.mem
      (confs (vm access.hart)).vmPgtable access.gpa pte ∧ pte &&& 0x3ff = guestFlags ||| pteV := by
    rcases Classical.em (InImage (confs (vm access.hart)) access.gpa) with himage | himage
    · obtain ⟨pte, hentry, -, hflags⟩ := htable.image access.gpa himage
      exact ⟨pte, hentry, hflags⟩
    · obtain ⟨pte, hentry, -, hflags⟩ := htable.ram access.gpa hram himage
      exact ⟨pte, hentry, hflags⟩
  have hread := hentry.1
  rw [guestEntry, levelZeroEntry_eq_map, leafAddress_of_intact h hplaced intact_refl] at hread
  cases hleaf : tables (vm access.hart) 0 (leafKey access.gpa 1 2 0) with
  | none =>
      rw [hleaf] at hread
      cases hread
  | some table =>
      have hpage := (h.guest (vm access.hart)).tree.valid 0 (by decide) _ table hleaf
      rw [hleaf, Option.map_some, Option.map_some, physRead_page s.mem hpage (vpn_zero_lt access.gpa),
        Option.some.injEq] at hread
      have hplace : dtbMemory ≤ pteFrame pte + dwordOffset access.gpa ∧
          pteFrame pte + dwordOffset access.gpa < dtbMemoryEnd :=
        (target_of_ram h hplaced
          ((ram_frame hconf htable hram hentry).imp_right fun hframe => ⟨_, hframe⟩)).1
      rw [accessStep_of_leaf h hplaced vm csrs hm hgpa hleaf, hread,
        if_pos (permits_of_guestFlags hflags access.kind), physAccess_word hplace.1 hplace.2 rfl]
      exact ⟨_, _, rfl⟩

omit h hplaced in
theorem intact_mark {m : Uint64 → Uint64} (hm : Intact confs tables frames s.mem m) {i : ι}
    {a : Uint64} (ha : a ∈ leafWords (tables i)) (kind : AccessKind) :
    Intact confs tables frames s.mem (mark kind a m) where
  outside b hb := by
    have hne : b ≠ a := by
      rintro rfl
      exact hb i (.inr ha)
    rw [mark, Function.update_of_ne hne, hm.outside b hb]
  leaf j b hb := by
    rcases eq_or_ne b a with rfl | hne
    · rw [mark, Function.update_self, kept_or_accessBits, hm.leaf j b hb]
    · rw [mark, Function.update_of_ne hne, hm.leaf j b hb]

omit h hplaced in
theorem accessWord_of_ne {kind : AccessKind} {w b : Uint64} (hne : b ≠ w) (m : Uint64 → Uint64) :
    (accessWord kind w m).2 b = m b := by
  cases kind with
  | fetch => rfl
  | load => rfl
  | store update => exact Function.update_of_ne hne _ _

theorem intact_accessWord {m : Uint64 → Uint64} (hm : Intact confs tables frames s.mem m) {i : ι}
    {w : Uint64} (hw : w ∈ ramWords (confs i) (frames i)) (kind : AccessKind) :
    Intact confs tables frames s.mem (accessWord kind w m).2 where
  outside b hb := by
    have hne : b ≠ w := by
      rintro rfl
      exact hb i (.inl hw)
    rw [accessWord_of_ne hne, hm.outside b hb]
  leaf j b hb := by
    have hne : b ≠ w := by
      rintro rfl
      exact leafWords_notMem_ramWords h hplaced hb hw
    rw [accessWord_of_ne hne, hm.leaf j b hb]

/-- An access keeps the memory intact and writes words of its machine only. -/
theorem intact_step {m m' : Uint64 → Uint64} (hm : Intact confs tables frames s.mem m)
    {access : Access} {answer : Answer}
    (hstep : accessStep layout.dynamic (entered confs vm csrs) m access = some (answer, m')) :
    Intact confs tables frames s.mem m' ∧
      ∀ b ∉ machineWords (confs (vm access.hart)) (tables (vm access.hart))
        (frames (vm access.hart)), m' b = m b := by
  cases accessStep_does h hplaced vm csrs access with
  | fault hdoes =>
      rw [hdoes m hm] at hstep
      cases hstep
      exact ⟨hm, fun _ _ => rfl⟩
  | outside hdoes =>
      rw [hdoes m hm] at hstep
      cases hstep
  | word a w ha hw hdoes =>
      rw [hdoes m hm] at hstep
      obtain ⟨rfl, rfl⟩ := Prod.ext_iff.mp (Option.some.inj hstep)
      refine ⟨intact_accessWord h hplaced (intact_mark hm ha _) hw _, fun b hb => ?_⟩
      have hne : b ≠ w := by
        rintro rfl
        exact hb (.inl hw)
      have hne' : b ≠ a := by
        rintro rfl
        exact hb (.inr ha)
      rw [accessWord_of_ne hne, mark, Function.update_of_ne hne']

omit h hplaced in
theorem sameOn_mark {W : Set Uint64} {m m' : Uint64 → Uint64} (hsame : SameOn W m m') {a : Uint64}
    (ha : a ∈ W) (kind : AccessKind) : SameOn W (mark kind a m) (mark kind a m') := by
  intro b hb
  rcases eq_or_ne b a with rfl | hne
  · rw [mark, mark, Function.update_self, Function.update_self, hsame b ha]
  · rw [mark, mark, Function.update_of_ne hne, Function.update_of_ne hne, hsame b hb]

omit h hplaced in
theorem sameOn_accessWord {W : Set Uint64} {m m' : Uint64 → Uint64} (hsame : SameOn W m m')
    {w : Uint64} (hw : w ∈ W) (kind : AccessKind) :
    (accessWord kind w m).1 = (accessWord kind w m').1 ∧
      SameOn W (accessWord kind w m).2 (accessWord kind w m').2 := by
  refine ⟨congrArg Answer.word (hsame w hw), fun b hb => ?_⟩
  rcases eq_or_ne b w with rfl | hne
  · cases kind with
    | fetch => exact hsame b hb
    | load => exact hsame b hb
    | store update => simp only [accessWord, Function.update_self, hsame b hb]
  · rw [accessWord_of_ne hne, accessWord_of_ne hne, hsame b hb]

/-- What an access answers, and what it leaves in the words of its machine, depends on
these words only. -/
theorem access_reads {m n m' : Uint64 → Uint64} (hm : Intact confs tables frames s.mem m)
    (hn : Intact confs tables frames s.mem n) {access : Access} {answer : Answer}
    (hsame : SameOn (machineWords (confs (vm access.hart)) (tables (vm access.hart))
      (frames (vm access.hart))) m n)
    (hstep : accessStep layout.dynamic (entered confs vm csrs) m access = some (answer, m')) :
    ∃ n', accessStep layout.dynamic (entered confs vm csrs) n access = some (answer, n') ∧
      SameOn (machineWords (confs (vm access.hart)) (tables (vm access.hart))
        (frames (vm access.hart))) m' n' := by
  cases accessStep_does h hplaced vm csrs access with
  | fault hdoes =>
      rw [hdoes m hm] at hstep
      cases hstep
      exact ⟨n, hdoes n hn, hsame⟩
  | outside hdoes =>
      rw [hdoes m hm] at hstep
      cases hstep
  | word a w ha hw hdoes =>
      have hword := sameOn_accessWord (sameOn_mark hsame (.inr ha) access.kind) (.inl hw) access.kind
      rw [hdoes m hm] at hstep
      obtain ⟨rfl, rfl⟩ := Prod.ext_iff.mp (Option.some.inj hstep)
      exact ⟨_, by rw [hdoes n hn, hword.1], hword.2⟩

/-- The machines are domains: each has its words. -/
theorem confined : Confined (accessStep layout.dynamic (entered confs vm csrs))
    (fun access => vm access.hart) (Intact confs tables frames s.mem)
    fun i => SameOn (machineWords (confs i) (tables i) (frames i)) :=
  confined_of_words (fun _ _ _ _ hm hstep => (intact_step h hplaced vm csrs hm hstep).1)
    (fun _ _ _ _ hm hstep => (intact_step h hplaced vm csrs hm hstep).2)
    (machineWords_apart h hplaced)
    fun _ _ _ _ _ hm hn hsame hstep => access_reads h hplaced vm csrs hm hn hsame hstep

/-- Accesses to the RAM of the own machines do not lead out of it. -/
theorem exists_play_of_intact {m : Uint64 → Uint64} (hm : Intact confs tables frames s.mem m)
    {accesses : List Access}
    (hram : ∀ access ∈ accesses, InRam (confs (vm access.hart)) access.gpa) :
    ∃ transcript m', play (accessStep layout.dynamic (entered confs vm csrs)) m accesses =
      some (transcript, m') := by
  induction accesses generalizing m with
  | nil => exact ⟨[], m, rfl⟩
  | cons access accesses ih =>
      rw [List.forall_mem_cons] at hram
      obtain ⟨value, m₁, hstep⟩ := accessStep_ram h hplaced vm csrs hm hram.1
      obtain ⟨rest, m', hrest⟩ := ih (intact_step h hplaced vm csrs hm hstep).1 hram.2
      exact ⟨_, m', play_cons_eq_some.mpr ⟨_, m₁, rest, hstep, hrest, rfl⟩⟩

end Steps

section Runs

variable {ι : Type} [DecidableEq ι] {layout : ImageLayout} {confs : ι → VmConfig} {s : KernelMem}
  {free : List Uint64} {schedule : List (Fin dtbNrCpus ⊕ ι)}
  {c : Pool (heapEffect Uint64) (Option Uint64) KernelMem (Fin dtbNrCpus ⊕ ι)}

/-- After the boot every sequence of accesses to the RAM of the own machines is played. -/
theorem exists_play (hplaced : Placement layout confs) (hfree : FreePages layout.dynamic s free)
    (hrun : run (poolStep heapHandler) (bootPool layout confs s) schedule = some c)
    (hsucceed : AllocationsSucceed (bootPool layout confs s) schedule) (hdone : AllReturned c)
    (vm : Fin dtbNrCpus → ι) (csrs : Fin dtbNrCpus → HsCsrs) {accesses : List Access}
    (hram : ∀ access ∈ accesses, InRam (confs (vm access.hart)) access.gpa) :
    ∃ transcript m, play (accessStep layout.dynamic (entered confs vm csrs)) c.shared.mem accesses =
      some (transcript, m) := by
  obtain ⟨roots, kernelTables, tables, frames, shares, free', hboot, -⟩ :=
    boot_of_run hplaced hfree hrun hsucceed hdone
  exact exists_play_of_intact hboot hplaced vm csrs intact_refl hram

/-- Whatever the harts do in RAM after the boot, each machine gets the answers that it
would get if the others did nothing. -/
theorem accesses_noninterference (hplaced : Placement layout confs)
    (hfree : FreePages layout.dynamic s free)
    (hrun : run (poolStep heapHandler) (bootPool layout confs s) schedule = some c)
    (hsucceed : AllocationsSucceed (bootPool layout confs s) schedule) (hdone : AllReturned c)
    (vm : Fin dtbNrCpus → ι) (csrs : Fin dtbNrCpus → HsCsrs) {accesses : List Access}
    {transcript : List (Access × Answer)} {m : Uint64 → Uint64}
    (hplay : play (accessStep layout.dynamic (entered confs vm csrs)) c.shared.mem accesses =
      some (transcript, m)) (i : ι) :
    ∃ m', play (accessStep layout.dynamic (entered confs vm csrs)) c.shared.mem
        (purge (fun access => vm access.hart) i accesses) =
      some (received (fun access => vm access.hart) i transcript, m') := by
  obtain ⟨roots, kernelTables, tables, frames, shares, free', hboot, -⟩ :=
    boot_of_run hplaced hfree hrun hsucceed hdone
  obtain ⟨m', hpurged, -⟩ := (confined hboot hplaced vm csrs).play_purge intact_refl intact_refl
    (fun _ _ => rfl) hplay (i := i)
  exact ⟨m', hpurged⟩

/-- What is left of the boot in a later memory: the address spaces of the harts, the
image of the hypervisor with its data and stacks, the free pages, and the tables of the
machines up to accessed and dirty bits, so that they still lead to no page of the
hypervisor. -/
structure Unharmed (layout : ImageLayout) (confs : ι → VmConfig)
    (roots : Fin dtbNrCpus → Uint64) (s : KernelMem) (m : Uint64 → Uint64) : Prop where
  parts : ∀ hart, Parts layout (tpOf hart) (physRead layout.dynamic m) (kpa2pa (roots hart))
  protect : ∀ hart,
    Protected layout (tpOf hart) (physRead layout.dynamic m) (kpa2pa (roots hart))
  image : ∀ kva, vasKernel ≤ kva → kva < layout.vmImages.start → m kva = s.mem kva
  free : ∃ free, FreePages layout.dynamic s free ∧
    FreePages layout.dynamic ⟨m, s.freelist⟩ free
  entry : ∀ i gpa, (guestEntry layout.dynamic m (confs i).vmPgtable gpa).map kept =
    (guestEntry layout.dynamic s.mem (confs i).vmPgtable gpa).map kept
  hidden : ∀ i gpa pte, gpa.toNat < 2 ^ 41 →
    ValidEntry layout.dynamic m (confs i).vmPgtable gpa pte →
    ¬ HypervisorPage layout confs s.mem roots (pteFrame pte)

theorem unharmed_of_intact {roots : Fin dtbNrCpus → Uint64}
    {kernelTables : Fin dtbNrCpus → Tables} {tables : ι → Tables} {frames : ι → List Uint64}
    {shares : Fin dtbNrCpus ⊕ ι → Share Uint64}
    (h : Boot layout confs s roots kernelTables tables frames shares free)
    (hplaced : Placement layout confs) {m : Uint64 → Uint64}
    (hm : Intact confs tables frames s.mem m) : Unharmed layout confs roots s m := by
  have hmaps : ∀ hart, MapsRegions layout (tpOf hart) (physRead layout.dynamic m)
      (kpa2pa (roots hart)) := by
    intro hart
    apply mapsRegions_of_built (toNat_tpOf hart) (h.kernel hart)
    intro a ha
    rw [hm.outside a fun i => kernel_notMem h hplaced ha]
    exact h.separated.agree (.inl hart) a ha
  have hentry : ∀ i gpa, (guestEntry layout.dynamic m (confs i).vmPgtable gpa).map kept =
      (guestEntry layout.dynamic s.mem (confs i).vmPgtable gpa).map kept := by
    intro i gpa
    rw [guestEntry, guestEntry, levelZeroEntry_eq_map, levelZeroEntry_eq_map,
      leafAddress_of_intact h hplaced hm, leafAddress_of_intact h hplaced intact_refl]
    cases htable : tables i 0 (leafKey gpa 1 2 0) with
    | none => simp only [Option.map_none]
    | some table =>
        have hpage := (h.guest i).tree.valid 0 (by decide) _ table htable
        have hidx := vpn_zero_lt gpa
        simp only [Option.map_some, physRead_page _ hpage hidx]
        exact congrArg some (hm.leaf i _ ⟨_, table, htable, slot_mem_words hidx⟩)
  refine ⟨fun hart => (hmaps hart).parts (toNat_tpOf hart),
    fun hart => (hmaps hart).protected (toNat_tpOf hart), ?_, ?_, hentry, ?_⟩
  · intro kva hlow hhigh
    apply hm.outside
    intro i hin
    rw [BitVec.lt_def] at hhigh
    rcases machineWords_cases h hin with himage | hheld
    · have hrange := imageWord_range hplaced himage
      omega
    · have hle := le_of_heldBy h hheld
      have himages : layout.vmImages.start.toNat ≤ layout.vmImages.stop.toNat :=
        layout.vmImages.ordered
      have hdynamic : layout.vmImages.stop.toNat ≤ layout.dynamic.addr.toNat :=
        layout.vmImages_dynamic
      have hupper := layout.dynamic.toNat_le
      omega
  · refine ⟨free, ⟨h.separated.linked, h.separated.nodup, h.separated.free_valid⟩, ?_,
      h.separated.nodup, h.separated.free_valid⟩
    exact h.separated.linked.congr fun page hpage =>
      hm.outside page fun i => free_notMem h hplaced hpage
  · intro i gpa pte hgpa hpte
    have hmap := hentry i gpa
    rw [hpte.1, Option.map_some] at hmap
    obtain ⟨pte₀, hpte₀, hkept⟩ := Option.map_eq_some_iff.mp hmap.symm
    have hflag : pte₀ &&& pteV = pte &&& pteV := and_of_kept hkept (by decide)
    have hvalid : pte₀ &&& pteV ≠ 0 := by
      rw [hflag]
      exact hpte.2
    rw [← pteFrame_of_kept hkept]
    exact h.not_hypervisorPage hplaced hgpa ⟨hpte₀, hvalid⟩

/-- Whatever the harts do in RAM after the boot, the hypervisor is unharmed. -/
theorem accesses_leave_hypervisor (hplaced : Placement layout confs)
    (hfree : FreePages layout.dynamic s free)
    (hrun : run (poolStep heapHandler) (bootPool layout confs s) schedule = some c)
    (hsucceed : AllocationsSucceed (bootPool layout confs s) schedule) (hdone : AllReturned c)
    (vm : Fin dtbNrCpus → ι) (csrs : Fin dtbNrCpus → HsCsrs) :
    ∃ roots, (∀ hart, c.threads (.inl hart) = .done (some (roots hart))) ∧
      ∀ accesses transcript m,
        play (accessStep layout.dynamic (entered confs vm csrs)) c.shared.mem accesses =
          some (transcript, m) → Unharmed layout confs roots c.shared m := by
  obtain ⟨roots, kernelTables, tables, frames, shares, free', hboot, hroots⟩ :=
    boot_of_run hplaced hfree hrun hsucceed hdone
  refine ⟨roots, hroots, fun accesses transcript m hplay => unharmed_of_intact hboot hplaced ?_⟩
  exact play_invariant (confined hboot hplaced vm csrs).invariant intact_refl hplay

end Runs

section Sample

/-- Each hart runs the machine that is assigned to it. -/
def shippedVm (hart : Fin dtbNrCpus) : Fin nrVms := if hart = 0 then 0 else 1

/-- The registers before `init_hs`. -/
def sampleCsrs (_ : Fin dtbNrCpus) : HsCsrs := ⟨0, 0, 0, 0, 0, 0, 0, 0, 0, 0, 0, 0, 0⟩

/-- Both harts at work at the same guest address. -/
def sampleAccesses : List Access :=
  [⟨0, 0x80200000, .store fun _ => 5⟩, ⟨1, 0x80200000, .store fun word => word + 1⟩,
    ⟨0, 0x80200000, .load⟩, ⟨1, 0x80200008, .fetch⟩]

theorem sampleAccesses_inRam : ∀ access ∈ sampleAccesses,
    InRam (config shippedConfig (shippedVm access.hart)) access.gpa := by
  simp only [sampleAccesses, List.forall_mem_cons]
  exact ⟨⟨by decide, by decide⟩, ⟨by decide, by decide⟩, ⟨by decide, by decide⟩,
    ⟨by decide, by decide⟩, by simp⟩

abbrev shippedStep :=
  accessStep shippedLayout.dynamic (entered (config shippedConfig) shippedVm sampleCsrs)

theorem accesses_noninterference_shipped :
    ∃ s schedule c transcript m m',
      run (poolStep heapHandler) (bootPool shippedLayout (config shippedConfig) s) schedule =
          some c ∧
        play shippedStep c.shared.mem sampleAccesses = some (transcript, m) ∧
        play shippedStep c.shared.mem
            [⟨0, 0x80200000, .store fun _ => 5⟩, ⟨0, 0x80200000, .load⟩] =
          some (received (fun access => shippedVm access.hart) 0 transcript, m') := by
  obtain ⟨s, free, schedule, c, -, hfree, henough, hrun, hdone⟩ := exists_shipped_run
  have hplaced := placement shippedConfig
  have hsucceed := bootPool_succeeds hplaced hfree (fun i => (config_entry shippedConfig i).covers)
    henough schedule
  obtain ⟨transcript, m, hplay⟩ :=
    exists_play hplaced hfree hrun hsucceed hdone shippedVm sampleCsrs sampleAccesses_inRam
  obtain ⟨m', hpurged⟩ :=
    accesses_noninterference hplaced hfree hrun hsucceed hdone shippedVm sampleCsrs hplay 0
  exact ⟨s, schedule, c, transcript, m, m', hrun, hplay, hpurged⟩

theorem accesses_leave_hypervisor_shipped :
    ∃ s schedule c roots transcript m,
      run (poolStep heapHandler) (bootPool shippedLayout (config shippedConfig) s) schedule =
          some c ∧
        play shippedStep c.shared.mem sampleAccesses = some (transcript, m) ∧
        Unharmed shippedLayout (config shippedConfig) roots c.shared m := by
  obtain ⟨s, free, schedule, c, -, hfree, henough, hrun, hdone⟩ := exists_shipped_run
  have hplaced := placement shippedConfig
  have hsucceed := bootPool_succeeds hplaced hfree (fun i => (config_entry shippedConfig i).covers)
    henough schedule
  obtain ⟨transcript, m, hplay⟩ :=
    exists_play hplaced hfree hrun hsucceed hdone shippedVm sampleCsrs sampleAccesses_inRam
  obtain ⟨roots, -, hunharmed⟩ :=
    accesses_leave_hypervisor hplaced hfree hrun hsucceed hdone shippedVm sampleCsrs
  exact ⟨s, schedule, c, roots, transcript, m, hrun, hplay, hunharmed _ _ _ hplay⟩

end Sample

end RiscvHypervisor.GuestNoninterference
