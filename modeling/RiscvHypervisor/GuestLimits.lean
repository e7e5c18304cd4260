import RiscvHypervisor.AddressTranslation
import RiscvHypervisor.GuestMemory

/-!
The slots of the device table of a machine that `init_hs_pgtable` and the two
searches of the virtual PLIC read.
-/

namespace RiscvHypervisor.GuestLimits

open RiscvHypervisor.EffectProgram
open RiscvHypervisor.MachineTypes
open RiscvHypervisor.GuestConfig
open RiscvHypervisor.OwnedMemory
open RiscvHypervisor.KernelMemory
open RiscvHypervisor.PageTable
open RiscvHypervisor.GuestMemory
open RiscvHypervisor.AddressTranslation

section Devices

/-- The pointers of `conf->devices` as they lie in memory, with what lies behind
the array. -/
abbrev Slots := Nat → Option MmioDev

abbrev slotEffect : Effect where
  Op := Nat
  Answer _ := Option MmioDev

/-- The tables are only read. -/
def slotHandler : Handler slotEffect Slots := fun i slots => (slots i, slots)

def readSlot (i : Nat) : Program slotEffect (Option MmioDev) := Program.perform (E := slotEffect) i

/-- The loop of `virt_to_phys_irq` and `phys_to_virt_irq`, with the rounds that are
left before `i` is `MAX_DEVS`. -/
def searchSlots (key value : MmioDev → Int) (irq : Int) : Nat → Nat → Program slotEffect Int
  | 0, _ => pure 0
  | left + 1, i => do
      match ← readSlot i with
      | none => pure 0
      | some dev => if irq = key dev then pure (value dev) else searchSlots key value irq left (i + 1)

/-- At most so many rounds of the loop over the devices in `init_hs_pgtable`, from
slot `i` on; without a result the loop goes on. -/
def mapSlots (pgtable : Uint64) :
    Nat → Nat → Program (slotEffect.sum (heapEffect Uint64)) (Option Unit)
  | 0, _ => pure none
  | rounds + 1, i => do
      match ← (readSlot i).onLeft (heapEffect Uint64) with
      | none => pure (some ())
      | some dev =>
          let rv ← (mapPages pgtable dev.virtBase dev.physBase dev.size
            (toInt (dev.perm ||| pteU)) 1).onRight slotEffect
          if rv < 0 then
            .panic s!"Failed to map MMIO device {i + 1}"
          else
            mapSlots pgtable rounds (i + 1)

abbrev bootHandler : Handler (slotEffect.sum (heapEffect Uint64)) (Slots × KernelMem) :=
  sumHandler slotHandler heapHandler

/-- The slots that a run reads, in order. -/
def slotsRead (xs : List ((Slots × KernelMem) × (Nat ⊕ HeapOp Uint64))) : List Nat :=
  xs.filterMap fun x => x.2.getLeft?

/-- The entries are in memory from slot `i` on. -/
def Lie (slots : Slots) : Nat → List (Option MmioDev) → Prop
  | _, [] => True
  | i, slot :: rest => slots i = slot ∧ Lie slots (i + 1) rest

variable {slots : Slots} {i : Nat}

theorem lie_of_forall {devices : List (Option MmioDev)}
    (h : ∀ j (hj : j < devices.length), slots (i + j) = devices[j]) : Lie slots i devices := by
  induction devices generalizing i with
  | nil => trivial
  | cons slot rest ih =>
      refine ⟨h 0 (Nat.succ_pos _), ih fun j hj => ?_⟩
      have hnext := h (j + 1) (Nat.succ_lt_succ hj)
      rwa [← Nat.add_assoc, Nat.add_right_comm] at hnext

theorem Lie.append {devices devices' : List (Option MmioDev)} (h : Lie slots i (devices ++ devices')) :
    Lie slots i devices ∧ Lie slots (i + devices.length) devices' := by
  induction devices generalizing i with
  | nil => exact ⟨trivial, h⟩
  | cons slot rest ih =>
      obtain ⟨hrest, htail⟩ := ih h.2
      rw [Nat.add_assoc, Nat.add_comm 1] at htail
      exact ⟨⟨h.1, hrest⟩, htail⟩

theorem inUse_cases (devices : List (Option MmioDev)) :
    (none ∈ devices ∧ ∃ tail, devices = (inUse devices).map some ++ none :: tail) ∨
      (none ∉ devices ∧ devices = (inUse devices).map some) := by
  induction devices with
  | nil => exact .inr ⟨List.not_mem_nil, rfl⟩
  | cons slot rest ih =>
      cases slot with
      | none => exact .inl ⟨List.mem_cons_self, rest, rfl⟩
      | some dev =>
          rcases ih with ⟨hnone, tail, heq⟩ | ⟨hnone, heq⟩
          · exact .inl ⟨List.mem_cons_of_mem _ hnone, tail, congrArg (some dev :: ·) heq⟩
          · exact .inr ⟨by simpa using hnone, congrArg (some dev :: ·) heq⟩

theorem firstMatch_eq_find (key value : MmioDev → Int) (irq : Int)
    (devices : List (Option MmioDev)) :
    firstMatch key value irq devices =
      ((inUse devices).find? fun dev => irq = key dev).elim 0 value := by
  induction devices with
  | nil => rfl
  | cons slot rest ih =>
      cases slot with
      | none => rfl
      | some dev =>
          rw [firstMatch, inUse, List.find?_cons]
          split
          · rename_i hirq
            simp [hirq]
          · rename_i hirq
            simp [hirq, ih]

/-- The search in memory finds what the search of the table finds. -/
theorem exec_searchSlots (key value : MmioDev → Int) (irq : Int) {devices : List (Option MmioDev)}
    (h : Lie slots i devices) :
    exec slotHandler (searchSlots key value irq devices.length i) slots =
      (.ok (firstMatch key value irq devices), slots) := by
  induction devices generalizing i with
  | nil => rfl
  | cons slot rest ih =>
      obtain ⟨hslot, hrest⟩ := h
      have hread : slotHandler i slots = (slot, slots) := congrArg (·, slots) hslot
      rw [List.length_cons, searchSlots, readSlot, Program.perform_bind, exec_access, hread]
      cases slot with
      | none => rfl
      | some dev =>
          rw [firstMatch]
          simp only
          split
          · rfl
          · exact ih hrest

/-- The loop in memory does what the loop over the table does. -/
theorem exec_mapSlots (pgtable : Uint64) {devices : List (Option MmioDev)}
    (h : Lie slots i devices) (hnone : none ∈ devices) {rounds : Nat}
    (hrounds : devices.length ≤ rounds) (s : KernelMem) :
    exec bootHandler (mapSlots pgtable rounds i) (slots, s) =
      ((exec heapHandler (mapDevices pgtable i devices) s).1.map some, slots,
        (exec heapHandler (mapDevices pgtable i devices) s).2) := by
  induction devices generalizing i rounds s with
  | nil => cases hnone
  | cons slot rest ih =>
      obtain ⟨hslot, hrest⟩ := h
      obtain ⟨rounds, rfl⟩ : ∃ n, rounds = n + 1 := Nat.exists_eq_succ_of_ne_zero fun hzero => by
        simp [hzero] at hrounds
      have hanswer : bootHandler (.inl i) (slots, s) = (slot, slots, s) :=
        congrArg (·, slots, s) hslot
      rw [mapSlots]
      simp only [readSlot, Program.onLeft, Program.perform, Program.access_bind, Program.done_bind,
        exec_access, hanswer]
      cases slot with
      | none => rfl
      | some dev =>
          have hcall := exec_onRight slotHandler heapHandler (mapPages pgtable dev.virtBase
            dev.physBase dev.size (toInt (dev.perm ||| pteU)) 1) slots s
          simp only [mapDevices]
          rcases hmap : exec heapHandler (mapPages pgtable dev.virtBase dev.physBase dev.size
            (toInt (dev.perm ||| pteU)) 1) s with ⟨message | rv, t⟩
          · rw [hmap] at hcall
            rw [exec_bind_error bootHandler hcall, exec_bind_error heapHandler hmap]
            rfl
          · rw [hmap] at hcall
            rw [exec_bind_ok bootHandler hcall, exec_bind_ok heapHandler hmap]
            split
            · rfl
            · exact ih hrest (by simpa using hnone) (Nat.le_of_succ_le_succ hrounds) t

theorem uses_searchSlots (key value : MmioDev → Int) (irq : Int) (left i : Nat) :
    (searchSlots key value irq left i).Uses fun j : Nat => j < i + left := by
  induction left generalizing i with
  | zero => trivial
  | succ left ih =>
      refine ⟨by omega, fun slot => ?_⟩
      cases slot with
      | none => trivial
      | some dev =>
          refine Program.uses_ite (Program.uses_done _ _) ((ih (i + 1)).mono fun j hj => ?_)
          exact Nat.lt_of_lt_of_eq hj (by rw [Nat.add_assoc, Nat.add_comm 1])

theorem slotsRead_onRight {α : Type} (p : KernelM α) (x : Slots × KernelMem) :
    slotsRead (accesses bootHandler (p.onRight slotEffect) x) = [] := by
  rw [slotsRead, List.filterMap_eq_nil_iff]
  intro y hy
  obtain ⟨o, ho⟩ :=
    forall_mem_accesses_of_uses (H := bootHandler) (uses_onRight (E := slotEffect) p) x y hy
  rw [ho]
  rfl

/-- Devices that can be mapped are mapped one after the other, each read once. -/
theorem mapSlots_append {pgtable : Uint64} {devs : List MmioDev} {s s' : KernelMem} (rounds : Nat)
    (hlie : Lie slots i (devs.map some))
    (hmapped : exec heapHandler (mapDevices pgtable i (devs.map some ++ [none])) s = (.ok (), s')) :
    exec bootHandler (mapSlots pgtable (devs.length + rounds) i) (slots, s) =
        exec bootHandler (mapSlots pgtable rounds (i + devs.length)) (slots, s') ∧
      slotsRead (accesses bootHandler (mapSlots pgtable (devs.length + rounds) i) (slots, s)) =
        List.range' i devs.length ++
          slotsRead (accesses bootHandler (mapSlots pgtable rounds (i + devs.length)) (slots, s')) := by
  induction devs generalizing i s with
  | nil =>
      cases hmapped
      rw [List.length_nil, Nat.zero_add]
      exact ⟨rfl, rfl⟩
  | cons dev devs ih =>
      obtain ⟨hslot, hrest⟩ := hlie
      obtain ⟨rv, t, hcall, hloop⟩ := exists_of_exec_bind heapHandler hmapped
      split at hloop
      · cases hloop
      · rename_i hrv
        obtain ⟨hexec, hread⟩ := ih hrest hloop
        have hlength : (dev :: devs).length + rounds = devs.length + rounds + 1 := by
          rw [List.length_cons, Nat.add_right_comm]
        have hindex : i + (dev :: devs).length = i + 1 + devs.length := by
          rw [List.length_cons, Nat.add_assoc, Nat.add_comm 1]
        have hright : exec bootHandler ((mapPages pgtable dev.virtBase dev.physBase dev.size
            (toInt (dev.perm ||| pteU)) 1).onRight slotEffect) (slots, s) = (.ok rv, slots, t) := by
          rw [exec_onRight, hcall]
        have hnone := slotsRead_onRight (mapPages pgtable dev.virtBase dev.physBase dev.size
          (toInt (dev.perm ||| pteU)) 1) (slots, s)
        have hanswer : bootHandler (.inl i) (slots, s) = (some dev, slots, s) :=
          congrArg (·, slots, s) hslot
        rw [hlength, hindex, mapSlots]
        simp only [readSlot, Program.onLeft, Program.perform, Program.access_bind, Program.done_bind,
          exec_access, accesses, hanswer]
        rw [exec_bind_ok bootHandler hright, accesses_bind_ok bootHandler hright, if_neg hrv]
        refine ⟨hexec, ?_⟩
        calc
          _ = i :: (slotsRead (accesses bootHandler ((mapPages pgtable dev.virtBase dev.physBase
                dev.size (toInt (dev.perm ||| pteU)) 1).onRight slotEffect) (slots, s)) ++
              slotsRead (accesses bootHandler (mapSlots pgtable (devs.length + rounds) (i + 1))
                (slots, t))) := congrArg (i :: ·) List.filterMap_append
          _ = _ := by
            rw [hnone, hread, List.length_cons, List.range'_succ]
            rfl

/-- The loop finds what the search of the devices before the first null pointer
finds, and stays in the array. -/
structure Searched (devices : Vector (Option MmioDev) maxDevs) (slots : Slots)
    (key value : MmioDev → Int) (irq : Int) : Prop where
  found : exec slotHandler (searchSlots key value irq maxDevs 0) slots =
    (.ok (((inUse devices.toList).find? fun dev => irq = key dev).elim 0 value), slots)
  inside : ∀ x ∈ accesses slotHandler (searchSlots key value irq maxDevs 0) slots, x.2 < maxDevs

/-- The loop of `init_hs_pgtable` reads the slots up to the first null pointer and
does what the mapping of the devices before it does, and it stays in the array; so
do the two searches. -/
structure SameDevices (pgtable : Uint64) (devices : Vector (Option MmioDev) maxDevs) (slots : Slots)
    (s s' : KernelMem) : Prop where
  mapped : exec bootHandler (mapSlots pgtable (maxDevs + 1) 0) (slots, s) = (.ok (some ()), slots, s')
  reads : slotsRead (accesses bootHandler (mapSlots pgtable (maxDevs + 1) 0) (slots, s)) =
    List.range ((inUse devices.toList).length + 1)
  inside : ∀ i ∈ slotsRead (accesses bootHandler (mapSlots pgtable (maxDevs + 1) 0) (slots, s)),
    i < maxDevs
  virtToPhys : ∀ irq, Searched devices slots MmioDev.virtIrq MmioDev.physIrq irq
  physToVirt : ∀ irq, Searched devices slots MmioDev.physIrq MmioDev.virtIrq irq

variable {pgtable : Uint64} {devices : Vector (Option MmioDev) maxDevs} {s s' : KernelMem}

theorem searched (hlie : Lie slots 0 devices.toList) (key value : MmioDev → Int) (irq : Int) :
    Searched devices slots key value irq where
  found := by
    have hexec := exec_searchSlots key value irq hlie
    rwa [Vector.length_toList, firstMatch_eq_find] at hexec
  inside x hx := by
    have hlt := forall_mem_accesses_of_uses (H := slotHandler)
      (uses_searchSlots key value irq maxDevs 0) slots x hx
    rwa [Nat.zero_add] at hlt

theorem lie_toList (hslots : ∀ i (hi : i < maxDevs), slots i = devices[i]) :
    Lie slots 0 devices.toList := by
  apply lie_of_forall
  intro j hj
  rw [Nat.zero_add, Vector.getElem_toList]
  exact hslots j (by rwa [Vector.length_toList] at hj)

/-- `init_hs_pgtable` up to its loop over the devices. -/
def mapMemory (conf : VmConfig) : KernelM Unit := do
  memset conf.vmPgtable (4096 * 4)
  let imageSize := pgroundup (conf.imageEnd - conf.imageBase)
  let rv ← mapPages conf.vmPgtable conf.memoryBase conf.imageBase imageSize (toInt guestFlags) 1
  if rv < 0 then
    .panic "failed to map VM kernel image"
  else
    let rv ← mapPages conf.vmPgtable (conf.memoryBase + imageSize) 0 (conf.memorySize - imageSize)
      (toInt guestFlags) 1
    if rv < 0 then
      .panic "failed to map VM RAM"
    else
      pure ()

theorem initHsPgtable_eq (conf : VmConfig) : initHsPgtable conf =
    mapMemory conf >>= fun _ => mapDevices conf.vmPgtable 0 conf.devices.toList := by
  rw [initHsPgtable, mapMemory]
  simp only [Program.bind_assoc]
  congr 1
  funext _
  congr 1
  funext rv
  split
  · rfl
  · rw [Program.bind_assoc]
    congr 1
    funext rv
    split
    · rfl
    · rfl

/-- `init_hs_pgtable` with its loop over the slots in memory. -/
def initHsPgtableSlots (conf : VmConfig) :
    Program (slotEffect.sum (heapEffect Uint64)) (Option Unit) := do
  (mapMemory conf).onRight slotEffect
  mapSlots conf.vmPgtable (maxDevs + 1) 0

/-- Where a slot is left empty, the functions over the slots in memory are those over
the table. -/
theorem exec_initHsPgtableSlots {conf : VmConfig}
    (hslots : ∀ i (hi : i < maxDevs), slots i = conf.devices[i])
    (hnone : none ∈ conf.devices.toList) (s : KernelMem) :
    exec bootHandler (initHsPgtableSlots conf) (slots, s) =
      ((exec heapHandler (initHsPgtable conf) s).1.map some, slots,
        (exec heapHandler (initHsPgtable conf) s).2) := by
  have hlength : conf.devices.toList.length ≤ maxDevs + 1 := by
    rw [Vector.length_toList]
    exact Nat.le_succ _
  have hcall := exec_onRight slotHandler heapHandler (mapMemory conf) slots s
  rw [initHsPgtable_eq, initHsPgtableSlots]
  rcases hmap : exec heapHandler (mapMemory conf) s with ⟨message | u, t⟩
  · rw [hmap] at hcall
    rw [exec_bind_error bootHandler hcall, exec_bind_error heapHandler hmap]
    rfl
  · rw [hmap] at hcall
    rw [exec_bind_ok bootHandler hcall, exec_bind_ok heapHandler hmap]
    exact exec_mapSlots conf.vmPgtable (lie_toList hslots) hnone hlength t

theorem exec_virtToPhysIrqSlots (hslots : ∀ i (hi : i < maxDevs), slots i = devices[i])
    (irq : Int) :
    exec slotHandler (searchSlots MmioDev.virtIrq MmioDev.physIrq irq maxDevs 0) slots =
      (.ok (virtToPhysIrq devices irq), slots) := by
  have hexec := exec_searchSlots MmioDev.virtIrq MmioDev.physIrq irq (lie_toList hslots)
  rwa [Vector.length_toList] at hexec

theorem exec_physToVirtIrqSlots (hslots : ∀ i (hi : i < maxDevs), slots i = devices[i])
    (irq : Int) :
    exec slotHandler (searchSlots MmioDev.physIrq MmioDev.virtIrq irq maxDevs 0) slots =
      (.ok (physToVirtIrq devices irq), slots) := by
  have hexec := exec_searchSlots MmioDev.physIrq MmioDev.virtIrq irq (lie_toList hslots)
  rwa [Vector.length_toList] at hexec

/-- A full table has no end for the loop. -/
theorem maxDevs_mem_slotsRead (hslots : ∀ i (hi : i < maxDevs), slots i = devices[i])
    (hmapped : exec heapHandler
      (mapDevices pgtable 0 ((inUse devices.toList).map some ++ [none])) s = (.ok (), s'))
    (hfull : none ∉ devices.toList) :
    maxDevs ∈ slotsRead (accesses bootHandler (mapSlots pgtable (maxDevs + 1) 0) (slots, s)) := by
  rcases inUse_cases devices.toList with ⟨hnone, -⟩ | ⟨-, hsplit⟩
  · exact absurd hnone hfull
  · have hlength : (inUse devices.toList).length = maxDevs := by
      have hlist := congrArg List.length hsplit
      rw [Vector.length_toList, List.length_map] at hlist
      exact hlist.symm
    have hread := (mapSlots_append 1 (hsplit ▸ lie_toList hslots) hmapped).2
    rw [hlength, Nat.zero_add] at hread
    rw [hread]
    exact List.mem_append_right _ List.mem_cons_self

/-- Where the devices in use can be mapped, the loops see the same devices exactly
when a slot of the table is left empty. -/
theorem sameDevices_iff (hslots : ∀ i (hi : i < maxDevs), slots i = devices[i])
    (hmapped : exec heapHandler
      (mapDevices pgtable 0 ((inUse devices.toList).map some ++ [none])) s = (.ok (), s')) :
    SameDevices pgtable devices slots s s' ↔ none ∈ devices.toList := by
  have hlie := lie_toList hslots
  rcases inUse_cases devices.toList with ⟨hnone, tail, hsplit⟩ | ⟨hfull, -⟩
  · refine iff_of_true ?_ hnone
    have hlength : (inUse devices.toList).length + 1 + tail.length = maxDevs := by
      have hlist := congrArg List.length hsplit
      rw [Vector.length_toList, List.length_append, List.length_map, List.length_cons] at hlist
      omega
    have hlie' := hlie
    rw [hsplit] at hlie'
    obtain ⟨hused, hnull, -⟩ := hlie'.append
    rw [List.length_map] at hnull
    have hrounds : maxDevs + 1 = (inUse devices.toList).length + (tail.length + 1 + 1) := by omega
    obtain ⟨hexec, hread⟩ := mapSlots_append (tail.length + 1 + 1) hused hmapped
    have hanswer : bootHandler (.inl (0 + (inUse devices.toList).length)) (slots, s') =
        (none, slots, s') := congrArg (·, slots, s') hnull
    rw [mapSlots] at hexec hread
    simp only [readSlot, Program.onLeft, Program.perform, Program.access_bind, Program.done_bind,
      exec_access, accesses, hanswer] at hexec hread
    rw [← hrounds] at hexec hread
    have hreads : slotsRead (accesses bootHandler (mapSlots pgtable (maxDevs + 1) 0) (slots, s)) =
        List.range ((inUse devices.toList).length + 1) := by
      rw [hread, List.range_succ, List.range_eq_range', Nat.zero_add]
      rfl
    refine ⟨hexec, hreads, fun i hi => ?_, searched hlie _ _, searched hlie _ _⟩
    rw [hreads, List.mem_range] at hi
    omega
  · refine iff_of_false (fun hsame => ?_) hfull
    exact Nat.lt_irrefl _ (hsame.inside _ (maxDevs_mem_slotsRead hslots hmapped hfull))

/-- The virtio devices of the platform, one page each. -/
def virtioDev (n : Nat) : MmioDev where
  physBase := 0x10001000 + BitVec.ofNat 64 (0x1000 * n)
  virtBase := 0x10001000 + BitVec.ofNat 64 (0x1000 * n)
  size := 0x1000
  perm := 6
  physIrq := n + 1
  virtIrq := n + 1

/-- The tables of the devices with the words of a barrier behind them, which read as
one more device. -/
def slotsWith (used : Nat) : Slots := fun i =>
  if i < used then some (virtioDev i) else if i < maxDevs then none else some (virtioDev 0)

def tableWith (used : Nat) : Vector (Option MmioDev) maxDevs := Vector.ofFn fun i => slotsWith used i

theorem slotsWith_eq (used i : Nat) (hi : i < maxDevs) : slotsWith used i = (tableWith used)[i] := by
  simp [tableWith]

theorem sameDevices_two :
    SameDevices sampleRoot (tableWith 2) (slotsWith 2) sampleMem
      (exec heapHandler (mapDevices sampleRoot 0
        ((inUse (tableWith 2).toList).map some ++ [none])) sampleMem).2 := by
  have hok : (exec heapHandler (mapDevices sampleRoot 0
      ((inUse (tableWith 2).toList).map some ++ [none])) sampleMem).1.toOption = some () := by
    decide +kernel
  exact (sameDevices_iff (slotsWith_eq 2) (exec_of_toOption heapHandler hok)).mpr (by decide)

/-- With all slots in use the loop goes on to the words behind the array. -/
theorem sameDevices_fails_full :
    (∀ i (hi : i < maxDevs), slotsWith 10 i = (tableWith 10)[i]) ∧
      maxDevs ∈ slotsRead (accesses bootHandler (mapSlots sampleRoot (maxDevs + 1) 0)
        (slotsWith 10, sampleMem)) ∧
      ∀ s', ¬ SameDevices sampleRoot (tableWith 10) (slotsWith 10) sampleMem s' := by
  have hok : (exec heapHandler (mapDevices sampleRoot 0
      ((inUse (tableWith 10).toList).map some ++ [none])) sampleMem).1.toOption = some () := by
    decide +kernel
  have hread := maxDevs_mem_slotsRead (slotsWith_eq 10) (exec_of_toOption heapHandler hok) (by decide)
  exact ⟨slotsWith_eq 10, hread, fun s' hsame => Nat.lt_irrefl _ (hsame.inside _ hread)⟩

end Devices

end RiscvHypervisor.GuestLimits
