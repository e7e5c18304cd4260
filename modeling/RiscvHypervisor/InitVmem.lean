import RiscvHypervisor.HardwareWalk

/-!
`init_vmem` of `mem/vmem.c`: the address space of the hypervisor on one hart.
The linker symbols are those of an image whose sections follow one another.
-/

namespace RiscvHypervisor.InitVmem

open RiscvHypervisor.EffectProgram
open RiscvHypervisor.MachineTypes
open RiscvHypervisor.OwnedMemory
open RiscvHypervisor.KernelMemory
open RiscvHypervisor.PageTable
open RiscvHypervisor.TableTree
open RiscvHypervisor.PageMapping
open RiscvHypervisor.HardwareWalk

/-- A section of the kernel image, from its symbol to its end symbol. -/
structure ImageSection where
  start : Uint64
  stop : Uint64
  aligned : start % pageSize = 0
  ordered : start ≤ stop

/-- `sizeof(struct cpu)`: the hart id on a page of its own and two pages of stack. -/
def sizeofCpu : Nat := 4096 + 2 * 4096

/-- The sections of the image as the linker places them; the end of a section need
not be a page boundary. -/
structure ImageLayout where
  text : ImageSection
  rodata : ImageSection
  data : ImageSection
  cpuStructs : ImageSection
  vmImages : ImageSection
  dynamic : DynamicSymbol
  lower : vasKernel ≤ text.start
  text_rodata : text.stop ≤ rodata.start
  rodata_data : rodata.stop ≤ data.start
  data_cpuStructs : data.stop ≤ cpuStructs.start
  cpus : cpuStructs.start.toNat + dtbNrCpus * sizeofCpu ≤ cpuStructs.stop.toNat
  cpuStructs_vmImages : cpuStructs.stop ≤ vmImages.start
  vmImages_dynamic : vmImages.stop ≤ dynamic.addr

/-- `mycpu()`, with `cpus` at the start of `.cpu_structs` and the hart id in `tp`. -/
def mycpu (layout : ImageLayout) (cpuMapped : Int) (tp : Uint64) : Uint64 :=
  if cpuMapped ≠ 0 then
    vasCpuStruct
  else
    layout.cpuStructs.start + tp * BitVec.ofNat 64 sizeofCpu

/-- An `int` as a `uint64` argument. -/
def intArgument (x : Int) : Uint64 := BitVec.ofInt 64 x

/-- The arguments of a `map_pages` call. -/
structure Region where
  va : Uint64
  pa : Uint64
  size : Uint64
  flags : Uint64

def mmioFlags : Uint64 := pteR ||| pteW ||| pteG

/-- The calls whose results are added up in `rv`. -/
def mmioCalls (root : Uint64) : List (KernelM Int) :=
  [mapPage root dtbFlash dtbFlash (toInt mmioFlags) 0,
    mapPage root dtbPlatformBus dtbPlatformBus (toInt mmioFlags) 0,
    mapPage root dtbRtc dtbRtc (toInt mmioFlags) 0,
    mapPage root dtbSerial dtbSerial (toInt mmioFlags) 0,
    mapPages root dtbPci dtbPci dtbPciSize (toInt mmioFlags) 0,
    mapPages root dtbVirtio0 dtbVirtio0 dtbVirtioSize (toInt mmioFlags) 0,
    mapPages root dtbPlic dtbPlic dtbPlicSize (toInt mmioFlags) 0,
    mapPages root dtbClint dtbClint dtbClintSize (toInt mmioFlags) 0]

def sumCalls : Int → List (KernelM Int) → KernelM Int
  | rv, [] => pure rv
  | rv, call :: rest => do
      let value ← call
      sumCalls (rv + value) rest

/-- A section at its own address; the size goes through `unsigned int` and `int`. -/
def sectionRegion (sec : ImageSection) (flags : Uint64) : Region where
  va := sec.start
  pa := kva2pa sec.start
  size := intArgument (toInt (sec.stop - sec.start))
  flags := flags

/-- The `struct cpu` of the hart; `cpu_mapped` is not set before all harts are done. -/
def cpuRegion (layout : ImageLayout) (tp : Uint64) : Region where
  va := vasCpuStruct
  pa := kva2pa (mycpu layout 0 tp)
  size := intArgument sizeofCpu
  flags := pteR ||| pteW

/-- The RAM behind the image at its linear addresses. -/
def ramRegion (dynamic : DynamicSymbol) : Region where
  va := kva2kpa dynamic.addr
  pa := kva2pa dynamic.addr
  size := intArgument (toInt (dtbMemorySize - (kva2pa dynamic.addr - dtbMemory)))
  flags := pteR ||| pteW ||| pteG

/-- The parts of the address space after the devices, with their names in the panics. -/
def imageRegions (layout : ImageLayout) (tp : Uint64) : List (String × Region) :=
  [(".text", sectionRegion layout.text (pteR ||| pteX ||| pteG)),
    (".rodata", sectionRegion layout.rodata (pteR ||| pteG)),
    (".data", sectionRegion layout.data (pteR ||| pteW ||| pteG)),
    ("cpu struct", cpuRegion layout tp),
    ("RAM", ramRegion layout.dynamic)]

def mapFailure (name : String) : String := s!"failed to map {name}"

def mapRegions (root : Uint64) : List (String × Region) → KernelM Unit
  | [] => pure ()
  | (name, region) :: rest => do
      let rv ← mapPages root region.va region.pa region.size (toInt region.flags) 0
      if rv ≠ 0 then
        .panic (mapFailure name)
      else
        mapRegions root rest

def initVmem (layout : ImageLayout) (tp : Uint64) : KernelM Uint64 := do
  let root ← kmalloc
  if root = 0 then
    .panic "couldn't allocate root page table"
  else
    memset root 4096
    let rv ← sumCalls 0 (mmioCalls root)
    if rv < 0 then
      .panic (mapFailure "MMIO")
    else
      mapRegions root (imageRegions layout tp)
      pure root

namespace Region

/-- How many pages `map_pages` counts. -/
def pages (r : Region) : Nat := (pgroundup r.size).toNat / 4096

def indices (r : Region) : List Nat := pageIndices 0 r.va r.pages 0

/-- The leaves of the first `n` pages. -/
def leaves (r : Region) (n : Nat) : List (Nat × Uint64) :=
  mappings 0 r.va (toInt r.flags) (linear r.pa n 0) 0

end Region

/-- The devices, a single page where the call is `map_page`. -/
def mmioRegions : List Region :=
  [⟨dtbFlash, dtbFlash, pageSize, mmioFlags⟩,
    ⟨dtbPlatformBus, dtbPlatformBus, pageSize, mmioFlags⟩,
    ⟨dtbRtc, dtbRtc, pageSize, mmioFlags⟩,
    ⟨dtbSerial, dtbSerial, pageSize, mmioFlags⟩,
    ⟨dtbPci, dtbPci, dtbPciSize, mmioFlags⟩,
    ⟨dtbVirtio0, dtbVirtio0, dtbVirtioSize, mmioFlags⟩,
    ⟨dtbPlic, dtbPlic, dtbPlicSize, mmioFlags⟩,
    ⟨dtbClint, dtbClint, dtbClintSize, mmioFlags⟩]

def kernelRegions (layout : ImageLayout) (tp : Uint64) : List Region :=
  mmioRegions ++ (imageRegions layout tp).map Prod.snd

section Calls

variable {dynamic : DynamicSymbol} {fails : Prop} {root : Uint64} {T : Tables} {l : Share Uint64}

/-- What a call with given frames does: it installs the leaves of its first pages, of
all of them unless memory runs out or a page has a leaf already. -/
structure RegionMapped (fails : Prop) (r : Region) (T : Tables) (l : Share Uint64) (T' : Tables)
    (l' : Share Uint64) (res : Except String Int) : Prop extends Grows T l T' l' where
  accounted : Accounted 0 r.indices l T' l'
  result : ∃ n ≤ r.pages,
    installAll (r.leaves n) (translation T l.view) = some (translation T' l'.view) ∧
      ((res = .ok 0 ∧ n = r.pages) ∨ (fails ∧ res = .ok (-1)) ∨
        ¬ Vacant r.indices (translation T l.view))

/-- The call maps the region in whatever tree it finds. -/
def Performs (dynamic : DynamicSymbol) (fails : Prop) (root : Uint64) (call : KernelM Int)
    (r : Region) : Prop :=
  ∀ {T l}, TreeInv dynamic 0 root ∅ T l →
    Ensures (kernelLayout dynamic) fails ∅ call.attempt l fun res l' =>
      ∃ T', TreeInv dynamic 0 root ∅ T' l' ∧ RegionMapped fails r T l T' l' res

theorem performs_mapPages {r : Region} (hpa : r.pa ≠ 0) :
    Performs dynamic fails root (mapPages root r.va r.pa r.size (toInt r.flags) 0) r := by
  intro T l htree
  apply (ensures_attempt_mapPages htree r.va r.pa r.size (toInt r.flags)).mono
  rintro res l' ⟨T', pas, htree', hmapped⟩
  have hpas := hmapped.mapped.given hpa
  have hinstall := hmapped.install
  have haccounted := hmapped.accounted
  rw [hpas] at hinstall
  rw [if_neg hpa] at haccounted
  refine ⟨T', htree', hmapped.toGrows, haccounted, pas.length, ?_, hinstall, ?_⟩
  · rcases hmapped.result with ⟨-, hlength⟩ | ⟨-, -, hlength⟩ | ⟨-, hlength, -⟩
    · exact Nat.le_of_eq hlength
    · exact Nat.le_of_lt hlength
    · exact Nat.le_of_lt hlength
  · rcases hmapped.result with hok | ⟨hfails, hres, -⟩ | ⟨-, -, hnot⟩
    · exact .inl hok
    · exact .inr (.inl ⟨hfails, hres⟩)
    · exact .inr (.inr hnot)

theorem performs_mapPage (va pa flags : Uint64) :
    Performs dynamic fails root (mapPage root va pa (toInt flags) 0) ⟨va, pa, pageSize, flags⟩ := by
  intro T l htree
  have hpages : Region.pages ⟨va, pa, pageSize, flags⟩ = 1 := by
    have hround : (pgroundup pageSize).toNat = 4096 := by decide
    rw [Region.pages, hround]
  have hzero : ∀ x : Uint64, x + 0 = x := BitVec.add_zero
  have hindices : Region.indices ⟨va, pa, pageSize, flags⟩ = [pageIndex 0 va] := by
    rw [Region.indices, hpages, pageIndices, pageIndices, hzero]
  apply (ensures_attempt_mapPage htree va pa (toInt flags)).mono
  rintro res l' ⟨T', htree', hmapped⟩
  have haccounted := hmapped.accounted
  rw [← hindices] at haccounted
  refine ⟨T', htree', hmapped.toGrows, haccounted, ?_⟩
  rcases hmapped.result with ⟨rfl, hnone, htr⟩ | ⟨hfails, rfl, -, -, htr⟩ | ⟨-, hsome, rfl, rfl⟩
  · refine ⟨1, by rw [hpages], ?_, .inl ⟨rfl, hpages.symm⟩⟩
    rw [htr]
    simp only [Region.leaves, linear, mappings, hzero, installAll, if_pos hnone]
  · refine ⟨0, Nat.zero_le _, ?_, .inr (.inl ⟨hfails, rfl⟩)⟩
    rw [htr]
    rfl
  · refine ⟨0, Nat.zero_le _, rfl, .inr (.inr fun hvacant => hsome (hvacant.2 _ ?_))⟩
    rw [hindices]
    exact List.mem_singleton_self _

theorem performs_mmioCalls :
    List.Forall₂ (Performs dynamic fails root) (mmioCalls root) mmioRegions :=
  .cons (performs_mapPage _ _ _) <| .cons (performs_mapPage _ _ _) <|
    .cons (performs_mapPage _ _ _) <| .cons (performs_mapPage _ _ _) <|
    .cons (performs_mapPages (r := ⟨dtbPci, dtbPci, dtbPciSize, mmioFlags⟩) (by decide)) <|
    .cons (performs_mapPages (r := ⟨dtbVirtio0, dtbVirtio0, dtbVirtioSize, mmioFlags⟩) (by decide)) <|
    .cons (performs_mapPages (r := ⟨dtbPlic, dtbPlic, dtbPlicSize, mmioFlags⟩) (by decide)) <|
    .cons (performs_mapPages (r := ⟨dtbClint, dtbClint, dtbClintSize, mmioFlags⟩) (by decide)) .nil

end Calls

section Building

variable {dynamic : DynamicSymbol} {fails : Prop} {root : Uint64} {l₀ l : Share Uint64}
  {done : List Region} {T : Tables}

/-- The tree after the calls for some regions: its leaves are at their pages. -/
structure Progress (dynamic : DynamicSymbol) (root : Uint64) (l₀ : Share Uint64)
    (done : List Region) (T : Tables) (l : Share Uint64) : Prop where
  tree : TreeInv dynamic 0 root ∅ T l
  accounted : Accounted 1 (done.flatMap Region.indices) l₀ T l
  within : ∀ n, translation T l.view n ≠ none → n ∈ done.flatMap Region.indices

/-- All the leaves of the regions, and no others. -/
def Complete (done : List Region) (T : Tables) (l : Share Uint64) : Prop :=
  installAll (done.flatMap fun r => r.leaves r.pages) (fun _ => none) = some (translation T l.view)

theorem Region.map_fst_leaves (r : Region) (n : Nat) :
    (r.leaves n).map Prod.fst = pageIndices 0 r.va n 0 := by
  have hlength : ∀ pages i, (linear r.pa pages i).length = pages := by
    intro pages
    induction pages with
    | zero => exact fun _ => rfl
    | succ pages ih => exact fun i => congrArg Nat.succ (ih (i + pageSize))
  rw [leaves, mappings_map_fst, hlength]

theorem mem_pageIndices_of_le {va : Uint64} {n m k : Nat} {i : Uint64} (hle : n ≤ m)
    (hk : k ∈ pageIndices 0 va n i) : k ∈ pageIndices 0 va m i := by
  induction n generalizing m i with
  | zero => cases hk
  | succ n ih =>
      obtain ⟨m, rfl⟩ : ∃ m', m = m' + 1 := ⟨m - 1, by omega⟩
      rcases List.mem_cons.mp hk with rfl | hk
      · exact List.mem_cons_self
      · exact List.mem_cons_of_mem _ (ih (by omega) hk)

/-- One call for a region whose pages are not those of the regions before it. -/
theorem ensures_call {call : KernelM Int} {r : Region} (h : Progress dynamic root l₀ done T l)
    (hcall : Performs dynamic fails root call r)
    (hnodup : ((done ++ [r]).flatMap Region.indices).Nodup) :
    Ensures (kernelLayout dynamic) fails ∅ call.attempt l fun res l' =>
      ∃ T', Progress dynamic root l₀ (done ++ [r]) T' l' ∧
        ((res = .ok 0 ∧ (Complete done T l → Complete (done ++ [r]) T' l')) ∨
          (fails ∧ res = .ok (-1))) := by
  rw [List.flatMap_append, List.flatMap_singleton] at hnodup
  obtain ⟨-, hown, hapart⟩ := List.nodup_append.mp hnodup
  have hvacant : Vacant r.indices (translation T l.view) := by
    refine ⟨hown, fun n hn => ?_⟩
    rcases Option.eq_none_or_eq_some (translation T l.view n) with hnone | ⟨leaf, hsome⟩
    · exact hnone
    · exact absurd rfl (hapart n (h.within n (by simp [hsome])) n hn)
  apply (hcall h.tree).mono
  rintro res l' ⟨T', htree', hmapped⟩
  obtain ⟨n, hn, hinstall, hresult⟩ := hmapped.result
  refine ⟨T', ⟨htree', ?_, ?_⟩, ?_⟩
  · rw [List.flatMap_append, List.flatMap_singleton]
    exact h.accounted.trans hmapped.accounted hmapped.toGrows
  · intro m hm
    rw [List.flatMap_append, List.flatMap_singleton, List.mem_append]
    obtain ⟨leaf, hleaf⟩ := Option.ne_none_iff_exists'.mp hm
    rcases (installAll_eq_some hinstall m leaf).mp hleaf with hin | hold
    · right
      have hfst := List.mem_map_of_mem (f := Prod.fst) hin
      rw [r.map_fst_leaves] at hfst
      exact mem_pageIndices_of_le hn hfst
    · exact .inl (h.within m (by simp [hold]))
  · rcases hresult with ⟨hres, rfl⟩ | hfail | hnot
    · refine .inl ⟨hres, fun hcomplete => ?_⟩
      rw [Complete, List.flatMap_append, List.flatMap_singleton, installAll_append, hcomplete]
      exact hinstall
    · exact .inr hfail
    · exact absurd hvacant hnot

/-- The calls go on after a failure, which stays visible in the sum. -/
theorem ensures_sumCalls {calls : List (KernelM Int)} {regions : List Region}
    (hcalls : List.Forall₂ (Performs dynamic fails root) calls regions)
    (h : Progress dynamic root l₀ done T l)
    (hnodup : ((done ++ regions).flatMap Region.indices).Nodup) (rv : Int) :
    Ensures (kernelLayout dynamic) fails ∅ (sumCalls rv calls).attempt l fun res l' =>
      ∃ T' rv', res = .ok rv' ∧ Progress dynamic root l₀ (done ++ regions) T' l' ∧
        ((rv' = rv ∧ (Complete done T l → Complete (done ++ regions) T' l')) ∨
          (fails ∧ rv' < rv)) := by
  induction hcalls generalizing done T l rv with
  | nil =>
      rw [List.append_nil] at hnodup ⊢
      exact ⟨T, rv, rfl, h, .inl ⟨rfl, id⟩⟩
  | @cons call r calls regions hcall _ ih =>
      have hassoc : done ++ r :: regions = done ++ [r] ++ regions := by simp
      rw [hassoc] at hnodup ⊢
      have hfirst := hnodup
      rw [List.flatMap_append] at hfirst
      rw [sumCalls]
      refine (ensures_call h hcall (List.nodup_append.mp hfirst).1).seq_attempt ?_ ?_
      · rintro value l₁ ⟨T₁, hprogress, hvalue⟩
        apply (ih hprogress hnodup (rv + value)).mono
        rintro res l₂ ⟨T₂, rv', rfl, hprogress', hrest⟩
        refine ⟨T₂, rv', rfl, hprogress', ?_⟩
        rcases hvalue with ⟨hok, hcomplete⟩ | ⟨hfails, hfail⟩
        · cases hok
          rw [Int.add_zero] at hrest
          exact hrest.imp_left fun hrest => ⟨hrest.1, fun hdone => hrest.2 (hcomplete hdone)⟩
        · cases hfail
          refine .inr ⟨hfails, ?_⟩
          rcases hrest with ⟨rfl, -⟩ | ⟨-, hlt⟩
          · omega
          · omega
      · rintro message l₁ ⟨T₁, -, ⟨hok, -⟩ | ⟨-, hfail⟩⟩
        · cases hok
        · cases hfail

theorem ensures_mapRegions {regions : List (String × Region)}
    (hpa : ∀ r ∈ regions, r.2.pa ≠ 0) (h : Progress dynamic root l₀ done T l)
    (hnodup : ((done ++ regions.map Prod.snd).flatMap Region.indices).Nodup) :
    Ensures (kernelLayout dynamic) fails ∅ (mapRegions root regions).attempt l fun res l' =>
      ∃ T', Accounted 1 ((done ++ regions.map Prod.snd).flatMap Region.indices) l₀ T' l' ∧
        ((res = .ok () ∧ Progress dynamic root l₀ (done ++ regions.map Prod.snd) T' l' ∧
            (Complete done T l → Complete (done ++ regions.map Prod.snd) T' l')) ∨
          (fails ∧ ∃ name, res = .error (mapFailure name))) := by
  induction regions generalizing done T l with
  | nil =>
      rw [List.map_nil, List.append_nil] at hnodup ⊢
      exact ⟨T, h.accounted, .inl ⟨rfl, h, id⟩⟩
  | cons first rest ih =>
      obtain ⟨name, r⟩ := first
      rw [List.forall_mem_cons] at hpa
      have hassoc : done ++ ((name, r) :: rest).map Prod.snd =
          done ++ [r] ++ rest.map Prod.snd := by simp
      rw [hassoc] at hnodup ⊢
      have hfirst := hnodup
      rw [List.flatMap_append] at hfirst
      rw [mapRegions]
      refine (ensures_call h (performs_mapPages hpa.1) (List.nodup_append.mp hfirst).1).seq_attempt
        ?_ ?_
      · rintro rv l₁ ⟨T₁, hprogress, ⟨hok, hcomplete⟩ | ⟨hfails, hfail⟩⟩
        · cases hok
          rw [if_neg (by decide)]
          apply (ih hpa.2 hprogress hnodup).mono
          rintro res l₂ ⟨T₂, haccounted, hrest⟩
          refine ⟨T₂, haccounted, hrest.imp_left ?_⟩
          rintro ⟨hres, hprogress', hall⟩
          exact ⟨hres, hprogress', fun hdone => hall (hcomplete hdone)⟩
        · cases hfail
          rw [if_pos (by decide)]
          refine ⟨T₁, ?_, .inr ⟨hfails, name, rfl⟩⟩
          rw [List.flatMap_append]
          exact hprogress.accounted.append_right 0 _
      · rintro message l₁ ⟨T₁, -, ⟨hok, -⟩ | ⟨-, hfail⟩⟩
        · cases hok
        · cases hfail

/-- What `init_vmem` returns: the root of a tree with the leaves of all regions. -/
structure Built (layout : ImageLayout) (tp root : Uint64) (T : Tables) (l : Share Uint64) :
    Prop where
  valid : validAddress layout.dynamic root
  tree : TreeInv layout.dynamic 0 root ∅ T l
  complete : Complete (kernelRegions layout tp) T l

theorem mapFailure_ne (name : String) : mapFailure name ≠ "tried to remap page" := by
  intro heq
  have hlist := congrArg String.toList heq
  simp [mapFailure, toString] at hlist

/-- No page has a leaf twice, so the only panics are those about memory. -/
theorem ensures_attempt_initVmem {layout : ImageLayout} {tp : Uint64}
    (hpa : ∀ r ∈ imageRegions layout tp, r.2.pa ≠ 0)
    (hnodup : ((kernelRegions layout tp).flatMap Region.indices).Nodup) (l : Share Uint64) :
    Ensures (kernelLayout layout.dynamic) fails ∅ (initVmem layout tp).attempt l fun res l' =>
      (∃ T, Accounted 1 ((kernelRegions layout tp).flatMap Region.indices) l T l') ∧
        ((∃ root T, res = .ok root ∧ Built layout tp root T l') ∨
          (fails ∧ ∃ message, res = .error message ∧ message ≠ "tried to remap page")) := by
  rw [initVmem, neverPanics_kmalloc.attempt_bind]
  refine (ensures_kmalloc l).seq ?_
  rintro root l₁ (⟨hvalid, hfresh, rfl⟩ | ⟨hfails, rfl, rfl⟩)
  · rw [if_neg (ne_zero_of_validAddress hvalid), (neverPanics_memset _ _).attempt_bind]
    refine (ensures_memset (n := 512) (by decide) fun a ha =>
      .inl (.inr ⟨root, by simp [Share.grant], ha⟩)).seq ?_
    intro _ l₂ hl₂
    obtain rfl := hl₂.trans (l.clear_grant (kernelLayout layout.dynamic) root fun _ => 0)
    have hpage := (validAddress_iff layout.dynamic root).mp hvalid
    have hsize : tableEntries 0 2 = 512 := rfl
    have htree : TreeInv layout.dynamic 0 root ∅ (rootOnly root)
        (l.grant (kernelLayout layout.dynamic) root fun _ => 0) := by
      refine treeInv_rootOnly (by omega) (fun a ha => .inr ⟨root, by simp [Share.grant], ha⟩) ?_ ?_
      · exact ((kernelLayout layout.dynamic).disjoint_scratch root hvalid).mono_right
          words_zero_subset
      · exact fun a ha => if_pos ha
    have hstart : Progress layout.dynamic root l [] (rootOnly root)
        (l.grant (kernelLayout layout.dynamic) root fun _ => 0) := by
      refine ⟨htree, ⟨[root], Nat.le_refl 1, fun page hmem => ?_⟩, fun n hn => ?_⟩
      · rcases List.mem_cons.mp hmem with rfl | hold
        · exact .inr (.inl (List.mem_singleton_self _))
        · exact .inl hold
      · rw [translation_rootOnly] at hn
        exact absurd rfl hn
    have hempty : Complete [] (rootOnly root)
        (l.grant (kernelLayout layout.dynamic) root fun _ => 0) := by
      rw [Complete, translation_rootOnly]
      rfl
    have hmmio := hnodup
    rw [kernelRegions, List.flatMap_append] at hmmio
    refine (ensures_sumCalls performs_mmioCalls hstart (List.nodup_append.mp hmmio).1 0).seq_attempt
      ?_ ?_
    · rintro rv l₃ ⟨T₃, rv', hrv, hprogress, hsum⟩
      cases hrv
      rcases hsum with ⟨rfl, hcomplete⟩ | ⟨hfails, hlt⟩
      · rw [if_neg (by decide)]
        refine (ensures_mapRegions hpa hprogress hnodup).seq_attempt ?_ ?_
        · rintro u l₄ ⟨T₄, haccounted, ⟨-, hprogress', hall⟩ | ⟨-, name, hpanic⟩⟩
          · exact ⟨⟨T₄, haccounted⟩,
              .inl ⟨root, T₄, rfl, hvalid, hprogress'.tree, hall (hcomplete hempty)⟩⟩
          · cases hpanic
        · rintro message l₄ ⟨T₄, haccounted, ⟨hok, -⟩ | ⟨hfails, name, hpanic⟩⟩
          · cases hok
          · cases hpanic
            exact ⟨⟨T₄, haccounted⟩, .inr ⟨hfails, _, rfl, mapFailure_ne name⟩⟩
      · rw [if_pos hlt]
        refine ⟨⟨T₃, ?_⟩, .inr ⟨hfails, _, rfl, mapFailure_ne _⟩⟩
        rw [kernelRegions, List.flatMap_append]
        exact hprogress.accounted.append_right 0 _
    · rintro message l₃ ⟨T₃, rv', hrv, -⟩
      cases hrv
  · rw [if_pos rfl]
    exact ⟨⟨rootOnly 0, Accounted.of_subset (fun _ hpage => hpage) _ _ _⟩,
      .inr ⟨hfails, _, rfl, by decide⟩⟩

end Building

theorem uses_sumCalls {calls : List (KernelM Int)} (hcalls : ∀ call ∈ calls, call.Uses NoPush)
    (rv : Int) : (sumCalls rv calls).Uses NoPush := by
  induction calls generalizing rv with
  | nil => trivial
  | cons call rest ih =>
      rw [List.forall_mem_cons] at hcalls
      exact hcalls.1.bind fun value => ih hcalls.2 (rv + value)

theorem uses_mapRegions (root : Uint64) (regions : List (String × Region)) :
    (mapRegions root regions).Uses NoPush := by
  induction regions with
  | nil => trivial
  | cons first rest ih =>
      exact (uses_mapPages _ _ _ _ _ _).bind fun rv => Program.uses_ite trivial ih

theorem uses_initVmem (layout : ImageLayout) (tp : Uint64) : (initVmem layout tp).Uses NoPush := by
  refine uses_kmalloc.bind fun root => Program.uses_ite trivial ?_
  refine (uses_memset (fun _ _ => trivial) root 4096).bind fun _ => ?_
  refine (uses_sumCalls ?_ 0).bind fun rv => Program.uses_ite trivial ?_
  · simp [mmioCalls, uses_mapPage, uses_mapPages]
  · exact (uses_mapRegions root _).bind fun _ => trivial

end RiscvHypervisor.InitVmem
