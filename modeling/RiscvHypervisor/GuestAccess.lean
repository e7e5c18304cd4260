import RiscvHypervisor.BootMemory
import RiscvHypervisor.HsRegisters

/-!
The accesses of the harts to RAM while they run their virtual machines: the
second-stage walk from the root in `hgatp`, with the check of its leaf, the accessed
and dirty bits that it sets there, and the access itself.  Devices, which may access
memory themselves, are not modelled: an access that leads out of RAM has no next state.
-/

namespace RiscvHypervisor.GuestAccess

open RiscvHypervisor.EffectProgram
open RiscvHypervisor.MachineTypes
open RiscvHypervisor.GuestConfig
open RiscvHypervisor.OwnedMemory
open RiscvHypervisor.KernelMemory
open RiscvHypervisor.PageTable
open RiscvHypervisor.TableTree
open RiscvHypervisor.PageMapping
open RiscvHypervisor.HardwareWalk
open RiscvHypervisor.GuestMemory
open RiscvHypervisor.GuestIsolation
open RiscvHypervisor.InitVmem
open RiscvHypervisor.KernelWalk
open RiscvHypervisor.KernelAddressSpace
open RiscvHypervisor.BootMemory
open RiscvHypervisor.HsRegisters

/-- What a hart does at an address.  A store, also one of less than eight bytes or an
atomic one, gives the doubleword that contains the address a new value. -/
inductive AccessKind
  | fetch
  | load
  | store (update : Uint64 → Uint64)

/-- An access of a hart at a guest physical address. -/
structure Access where
  hart : Fin dtbNrCpus
  gpa : Uint64
  kind : AccessKind

/-- What an access comes to: a guest page fault, or the doubleword that was found. -/
inductive Answer
  | fault
  | word (value : Uint64)
  deriving DecidableEq

def needed : AccessKind → Uint64
  | .fetch => pteX
  | .load => pteR
  | .store _ => pteW

/-- The leaf allows the access; a page that is writable and not readable is reserved. -/
def permits (kind : AccessKind) (pte : Uint64) : Bool :=
  pte &&& pteV ≠ 0 && pte &&& pteU ≠ 0 && pte &&& needed kind ≠ 0 &&
    !(pte &&& pteR = 0 && pte &&& pteW ≠ 0)

/-- The bits that the walk sets in the leaf. -/
def accessBits : AccessKind → Uint64
  | .store _ => pteA ||| pteD
  | _ => pteA

/-- Where the hypervisor has the doubleword at a physical address. -/
def kernelWord (dynamic : DynamicSymbol) (pa : Uint64) : Uint64 :=
  if pa < kva2pa dynamic.addr then pa2kva pa else pa2kpa pa

def physWrite (dynamic : DynamicSymbol) (mem : Uint64 → Uint64) (pa value : Uint64) :
    Uint64 → Uint64 :=
  Function.update mem (kernelWord dynamic pa) value

/-- The physical address of the level-0 entry that is reached through valid entries. -/
def leafAddress (dynamic : DynamicSymbol) (mem : Uint64 → Uint64) (gpa : Uint64) :
    Nat → Uint64 → Option Uint64
  | 0, table => some (table + vpn gpa 0 * 8)
  | level + 1, table =>
      let pte := physRead dynamic mem (table + vpn gpa (level + 1) * 8)
      if pte &&& pteV = 0 then none else leafAddress dynamic mem gpa level (pteFrame pte)

/-- The offset within its page of the doubleword that contains an address. -/
def dwordOffset (gpa : Uint64) : Uint64 := gpa &&& 0xff8

/-- The access behind the walk, at a physical address. -/
def physAccess (dynamic : DynamicSymbol) (mem : Uint64 → Uint64) (kind : AccessKind)
    (pa : Uint64) : Option (Answer × (Uint64 → Uint64)) :=
  if dtbMemory ≤ pa ∧ pa < dtbMemoryEnd then
    let value := physRead dynamic mem pa
    some (.word value,
      match kind with
      | .store update => physWrite dynamic mem pa (update value)
      | _ => mem)
  else
    none

/-- The access with the place of its leaf. -/
def leafAccess (dynamic : DynamicSymbol) (mem : Uint64 → Uint64) (kind : AccessKind) (gpa : Uint64) :
    Option Uint64 → Option (Answer × (Uint64 → Uint64))
  | none => some (.fault, mem)
  | some leaf =>
      let pte := physRead dynamic mem leaf
      if permits kind pte then
        physAccess dynamic (physWrite dynamic mem leaf (pte ||| accessBits kind)) kind
          (pteFrame pte + dwordOffset gpa)
      else
        some (.fault, mem)

/-- The access of a hart with this `hgatp`; without a mode nothing is translated. -/
def secondStageAccess (dynamic : DynamicSymbol) (hgatp : Uint64) (mem : Uint64 → Uint64)
    (kind : AccessKind) (gpa : Uint64) : Option (Answer × (Uint64 → Uint64)) :=
  if isSv39 hgatp then
    if 2 ^ 41 ≤ gpa.toNat then
      some (.fault, mem)
    else
      leafAccess dynamic mem kind gpa (leafAddress dynamic mem gpa 2 (secondStageRoot hgatp))
  else
    physAccess dynamic mem kind (gpa &&& ~~~7)

def accessStep (dynamic : DynamicSymbol) (csrs : Fin dtbNrCpus → HsCsrs) (mem : Uint64 → Uint64)
    (access : Access) : Option (Answer × (Uint64 → Uint64)) :=
  secondStageAccess dynamic (csrs access.hart).hgatp mem access.kind access.gpa

/-- The registers of the harts when each has entered its machine. -/
def entered {ι : Type} (confs : ι → VmConfig) (vm : Fin dtbNrCpus → ι)
    (csrs : Fin dtbNrCpus → HsCsrs) (hart : Fin dtbNrCpus) : HsCsrs :=
  initHs (confs (vm hart)) (csrs hart)

/-- A hart walks through the table of its machine. -/
theorem accessStep_entered {ι : Type} {dynamic : DynamicSymbol} {confs : ι → VmConfig}
    (vm : Fin dtbNrCpus → ι) (hroot : ∀ i, IsRoot dynamic (confs i).vmPgtable)
    (csrs : Fin dtbNrCpus → HsCsrs) (mem : Uint64 → Uint64) (access : Access) :
    accessStep dynamic (entered confs vm csrs) mem access =
      if 2 ^ 41 ≤ access.gpa.toNat then some (.fault, mem)
      else leafAccess dynamic mem access.kind access.gpa
        (leafAddress dynamic mem access.gpa 2 (kva2pa (confs (vm access.hart)).vmPgtable)) := by
  obtain ⟨hmode, hwalk⟩ := initHs_secondStage (hroot (vm access.hart)) (csrs access.hart)
  rw [accessStep, secondStageAccess, entered, if_pos hmode, hwalk]

theorem physRead_eq (dynamic : DynamicSymbol) (mem : Uint64 → Uint64) (pa : Uint64) :
    physRead dynamic mem pa = mem (kernelWord dynamic pa) := by
  rw [physRead, kernelWord]
  split <;> rfl

theorem levelZeroEntry_eq_map (dynamic : DynamicSymbol) (mem : Uint64 → Uint64) (gpa : Uint64)
    (level : Nat) (table : Uint64) :
    levelZeroEntry dynamic mem gpa level table =
      (leafAddress dynamic mem gpa level table).map (physRead dynamic mem) := by
  induction level generalizing table with
  | zero => rfl
  | succ level ih =>
      simp only [levelZeroEntry, leafAddress]
      split
      · rfl
      · exact ih _

/-- The access at a doubleword of memory. -/
def accessWord (kind : AccessKind) (w : Uint64) (mem : Uint64 → Uint64) :
    Answer × (Uint64 → Uint64) :=
  (.word (mem w),
    match kind with
    | .store update => Function.update mem w (update (mem w))
    | _ => mem)

theorem physAccess_word {dynamic : DynamicSymbol} {pa w : Uint64} (hpa : dtbMemory ≤ pa)
    (hend : pa < dtbMemoryEnd) (hword : kernelWord dynamic pa = w) (kind : AccessKind)
    (mem : Uint64 → Uint64) : physAccess dynamic mem kind pa = some (accessWord kind w mem) := by
  subst hword
  rw [physAccess, if_pos ⟨hpa, hend⟩]
  simp only [physRead_eq, physWrite, accessWord]

theorem kernelWord_page {dynamic : DynamicSymbol} {page i : Uint64}
    (hvalid : validAddress dynamic page) (hi : i.toNat < 512) :
    kernelWord dynamic (kpa2pa page + i * 8) = slot page i := by
  have hread := physRead_page (fun a => a) hvalid hi
  rwa [physRead_eq] at hread

theorem dwordOffset_eq (gpa : Uint64) :
    dwordOffset gpa = (gpa >>> 3 &&& 0x1ff) * 8 ∧ (gpa >>> 3 &&& 0x1ff).toNat < 512 := by
  have hsplit : dwordOffset gpa = (gpa >>> 3 &&& 0x1ff) <<< 3 := by
    have hmask : (0xff8 : Uint64) = (0x1ff : Uint64) <<< 3 := rfl
    apply BitVec.eq_of_getLsbD_eq
    intro i hi
    rw [dwordOffset, hmask]
    simp only [BitVec.getLsbD_and, BitVec.getLsbD_shiftLeft, BitVec.getLsbD_ushiftRight]
    rcases Nat.lt_or_ge i 3 with hlow | hhigh
    · simp [hlow]
    · rw [Nat.add_sub_cancel' hhigh, Bool.and_left_comm]
  have hindex : (gpa >>> 3 &&& 0x1ff).toNat = gpa.toNat / 8 % 512 :=
    toNat_and_mask gpa 3 9 _ rfl
  refine ⟨?_, by omega⟩
  rw [hsplit, BitVec.shiftLeft_eq_mul_twoPow]
  rfl

/-- Where a valid leaf leads. -/
theorem toNat_target (pte gpa : Uint64) : ∃ i : Uint64, i.toNat < 512 ∧ dwordOffset gpa = i * 8 ∧
    (pteFrame pte + dwordOffset gpa).toNat = (pteFrame pte).toNat + i.toNat * 8 := by
  obtain ⟨hoffset, hindex⟩ := dwordOffset_eq gpa
  have hframe := toNat_pteFrame pte
  refine ⟨_, hindex, hoffset, ?_⟩
  rw [BitVec.toNat_add, hoffset, BitVec.toNat_mul, show (8 : Uint64).toNat = 8 from rfl]
  omega

section Bits

/-- Everything in an entry but the accessed and dirty bits. -/
def kept (pte : Uint64) : Uint64 := pte &&& ~~~(pteA ||| pteD)

theorem kept_or_accessBits (pte : Uint64) (kind : AccessKind) :
    kept (pte ||| accessBits kind) = kept pte := by
  have hbits : accessBits kind &&& ~~~(pteA ||| pteD) = 0 := by
    cases kind with
    | fetch => decide
    | load => decide
    | store update => exact BitVec.and_not_self _
  have hzero : ∀ x : Uint64, x ||| 0 = x := fun _ => BitVec.or_zero
  rw [kept, kept, BitVec.and_comm, BitVec.and_or_distrib_left, BitVec.and_comm _ (accessBits kind),
    hbits, hzero, BitVec.and_comm]

/-- The other bits can be read off what is kept. -/
theorem and_of_kept {x y mask : Uint64} (h : kept x = kept y)
    (hmask : ~~~(pteA ||| pteD) &&& mask = mask) : x &&& mask = y &&& mask := by
  calc x &&& mask = x &&& (~~~(pteA ||| pteD) &&& mask) := by rw [hmask]
    _ = kept x &&& mask := (BitVec.and_assoc _ _ _).symm
    _ = kept y &&& mask := by rw [h]
    _ = y &&& (~~~(pteA ||| pteD) &&& mask) := BitVec.and_assoc _ _ _
    _ = y &&& mask := by rw [hmask]

theorem permits_of_kept {x y : Uint64} (h : kept x = kept y) (kind : AccessKind) :
    permits kind x = permits kind y := by
  have hneeded : ~~~(pteA ||| pteD) &&& needed kind = needed kind := by
    cases kind with
    | fetch => decide
    | load => decide
    | store update => exact (by decide : ~~~(pteA ||| pteD) &&& pteW = pteW)
  rw [permits, permits, and_of_kept h (by decide : _ &&& pteV = _),
    and_of_kept h (by decide : _ &&& pteU = _), and_of_kept h hneeded,
    and_of_kept h (by decide : _ &&& pteR = _), and_of_kept h (by decide : _ &&& pteW = _)]

theorem pteFrame_of_kept {x y : Uint64} (h : kept x = kept y) : pteFrame x = pteFrame y := by
  have hmask : ∀ z : Uint64, pteFrame z = pteFrame (z &&& 0x3ffffffffffc00) := by
    intro z
    rw [pteFrame, pteFrame]
    congr 1
    rw [BitVec.ushiftRight_and_distrib, BitVec.and_assoc]
    rfl
  rw [hmask x, hmask y, and_of_kept h (by decide)]

/-- The leaves of the RAM allow all accesses. -/
theorem permits_of_guestFlags {pte : Uint64} (hflags : pte &&& 0x3ff = guestFlags ||| pteV)
    (kind : AccessKind) : permits kind pte := by
  have hbits : ∀ mask : Uint64, 0x3ff &&& mask = mask →
      pte &&& mask = (guestFlags ||| pteV) &&& mask := by
    intro mask hmask
    rw [← hflags, BitVec.and_assoc, hmask]
  have hneeded : pte &&& needed kind ≠ 0 := by
    cases kind with
    | fetch =>
        rw [needed, hbits pteX (by decide)]
        decide
    | load =>
        rw [needed, hbits pteR (by decide)]
        decide
    | store update =>
        rw [needed, hbits pteW (by decide)]
        decide
  rw [permits, hbits pteV (by decide), hbits pteU (by decide), hbits pteR (by decide),
    hbits pteW (by decide), decide_eq_true hneeded]
  decide

end Bits

theorem vpn_zero_lt (gpa : Uint64) : (vpn gpa 0).toNat < 512 := by
  rw [vpn_eq_va2idx gpa (Nat.zero_le 2)]
  exact va2idx_lt gpa (Nat.zero_le 2) 1

/-- The walk ends at the entry of the address in the last-level table of the tree, as
long as the entries of the upper tables are what they were. -/
theorem leafAddress_eq {dynamic : DynamicSymbol} {root : Uint64} {home : Set Uint64} {T : Tables}
    {l : Share Uint64} {mem : Uint64 → Uint64} (hroot : IsRoot dynamic root)
    (h : TreeInv dynamic 1 root home T l)
    (hmem : ∀ level < 2, ∀ key page, T (level + 1) key = some page → ∀ i : Uint64,
      i.toNat < tableEntries 1 (level + 1) → mem (slot page i) = l.view (slot page i))
    (gpa : Uint64) {level key : Nat} {page : Uint64} (hlevel : level ≤ 2)
    (hpage : T level key = some page) :
    leafAddress dynamic mem gpa level (tablePa root level page) =
      (T 0 (leafKey gpa 1 level key)).map fun leaf => kpa2pa leaf + vpn gpa 0 * 8 := by
  induction level generalizing key page with
  | zero =>
      rw [leafAddress, tablePa, if_neg (by omega), leafKey, hpage]
      rfl
  | succ level ih =>
      have hidx := va2idx_lt gpa hlevel 1
      have hentry := h.entry level (by omega) key page hpage _ hidx
      simp only [leafAddress, vpn_eq_va2idx gpa hlevel,
        physRead_table hroot h mem hlevel hpage hidx,
        hmem level (by omega) key page hpage _ hidx, leafKey]
      cases hchild : T level (512 * key + (va2idx gpa (level + 1) 1).toNat) with
      | none =>
          rw [hchild] at hentry
          rw [leafKey_none h gpa (by omega) hchild]
          exact if_pos hentry
      | some child =>
          rw [hchild] at hentry
          have hvalid := h.valid level (by omega) _ child hchild
          have hpa : pteFrame (link child) = tablePa root level child := by
            rw [pteFrame_link hvalid, tablePa, if_neg (by omega)]
          rw [hentry, if_neg (link_and_pteV child), hpa]
          exact ih (by omega) hchild

section Words

variable {ι : Type}

/-- The hypervisor's address of a byte of the image of a machine. -/
def ImageWord (conf : VmConfig) (a : Uint64) : Prop :=
  ∃ pa : Uint64, conf.imageBase.toNat ≤ pa.toNat ∧
    pa.toNat < conf.imageBase.toNat + (imageSize conf).toNat ∧ a = pa2kva pa

/-- The memory of a machine: its image and its frames. -/
def ramWords (conf : VmConfig) (frames : List Uint64) : Set Uint64 :=
  {a | ImageWord conf a ∨ ∃ page ∈ frames, a ∈ words page 512}

/-- The leaves of a machine. -/
def leafWords (T : Tables) : Set Uint64 :=
  {a | ∃ key page, T 0 key = some page ∧ a ∈ words page 512}

def machineWords (conf : VmConfig) (T : Tables) (frames : List Uint64) : Set Uint64 :=
  ramWords conf frames ∪ leafWords T

variable {layout : ImageLayout} {confs : ι → VmConfig} {s : KernelMem}
  {roots : Fin dtbNrCpus → Uint64} {kernelTables : Fin dtbNrCpus → Tables} {tables : ι → Tables}
  {frames : ι → List Uint64} {shares : Fin dtbNrCpus ⊕ ι → Share Uint64} {free : List Uint64}

theorem toNat_pa2kva {pa : Uint64} (hlow : 0x80000000 ≤ pa.toNat) (hhigh : pa.toNat < 0x90000000) :
    (pa2kva pa).toNat = pa.toNat - 0x80000000 + 0xffffffc000000000 := by
  rw [pa2kva, BitVec.toNat_add, BitVec.toNat_sub, dtbMemory_toNat, vasKernel_toNat]
  omega

theorem imageWord_range (hplaced : Placement layout confs) {i : ι} {a : Uint64}
    (ha : ImageWord (confs i) a) :
    layout.vmImages.start.toNat ≤ a.toNat ∧ a.toNat < layout.dynamic.addr.toNat := by
  obtain ⟨-, -, -, -, -, h₁, h₂, h₃, h₄, h₅, h₆, h₇, h₈, h₉, h₁₀⟩ := placed layout
  have himages : layout.cpuStructs.stop.toNat ≤ layout.vmImages.start.toNat :=
    layout.cpuStructs_vmImages
  have hlower : (kva2pa layout.vmImages.start).toNat ≤ (confs i).imageBase.toNat :=
    hplaced.image_lower i
  have hvm := toNat_kva2pa (show 0xffffffc000000000 ≤ layout.vmImages.start.toNat by omega)
  have hupper := (hplaced.wellFormed i).image_upper
  have hdynamic := toNat_kva2pa layout.dynamic.le_toNat
  obtain ⟨pa, hlow, hhigh, rfl⟩ := ha
  rw [toNat_pa2kva (by omega) (by omega)]
  omega

/-- The words of a page lie above the image. -/
theorem le_of_mem_words {dynamic : DynamicSymbol} {page a : Uint64}
    (hvalid : validAddress dynamic page) (ha : a ∈ words page 512) :
    0xffffffe000000000 ≤ a.toNat := by
  have hlow := dynamic.le_toNat
  rw [validAddress_iff] at hvalid
  obtain ⟨i, hi, rfl⟩ := ha
  rw [toNat_slot (by omega)]
  omega

end Words

end RiscvHypervisor.GuestAccess
