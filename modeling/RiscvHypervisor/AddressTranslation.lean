import RiscvHypervisor.HardwareWalk

/-!
`convert_va_to_pa` against the walk of the architecture, for every second-stage
table that `map_page` and `map_pages` can build.
-/

namespace RiscvHypervisor.AddressTranslation

open RiscvHypervisor.EffectProgram
open RiscvHypervisor.MachineTypes
open RiscvHypervisor.OwnedMemory
open RiscvHypervisor.KernelMemory
open RiscvHypervisor.PageTable
open RiscvHypervisor.TableTree
open RiscvHypervisor.PageMapping
open RiscvHypervisor.HardwareWalk

/-- The memory after any calls that returned 0, from a zeroed root on. -/
inductive Built (dynamic : DynamicSymbol) (root : Uint64) : KernelMem → Prop
  | zeroed {s : KernelMem} {free : List Uint64} (hzero : ∀ a ∈ words root 2048, s.mem a = 0)
      (hfree : FreePages dynamic s free) : Built dynamic root s
  | mapPage {s s' : KernelMem} {va pa : Uint64} {pteFlags : Int} (h : Built dynamic root s)
      (hexec : exec heapHandler (mapPage root va pa pteFlags 1) s = (.ok 0, s')) :
      Built dynamic root s'
  | mapPages {s s' : KernelMem} {va pa size : Uint64} {pteFlags : Int} (h : Built dynamic root s)
      (hexec : exec heapHandler (mapPages root va pa size pteFlags 1) s = (.ok 0, s')) :
      Built dynamic root s'

/-- The translation of a guest physical address by the architecture. -/
def guestTranslate (dynamic : DynamicSymbol) (mem : Uint64 → Uint64) (root gpa : Uint64) :
    Option Uint64 :=
  if gpa >>> 41 = 0 then
    match guestEntry dynamic mem root gpa with
    | none => none
    | some pte => if pte &&& pteV = 0 then none else some (pteFrame pte + (gpa &&& 0xfff))
  else
    none

/-- `convert_va_to_pa` returns what the architecture does and panics elsewhere. -/
def Agrees (dynamic : DynamicSymbol) (s : KernelMem) (root gpa : Uint64) : Prop :=
  match guestTranslate dynamic s.mem root gpa with
  | some pa => (exec heapHandler (convertVaToPa root gpa 1) s).1 = .ok pa
  | none => ∃ message, (exec heapHandler (convertVaToPa root gpa 1) s).1 = .error message

section Trees

variable {dynamic : DynamicSymbol} {root : Uint64} {s : KernelMem}

/-- A call that keeps the tree of its share keeps the tree in memory. -/
theorem exists_tree_of_exec (hroot : IsRoot dynamic root) {p : KernelM Int} {s' : KernelMem}
    (hp : ∀ T l, TreeInv dynamic 1 root (words root 2048) T l →
      Ensures (kernelLayout dynamic) True (words root 2048) p l fun _ l' =>
        ∃ T', TreeInv dynamic 1 root (words root 2048) T' l')
    (h : ∃ T l free, Separated (kernelLayout dynamic) (fun _ : Unit => words root 2048) s
      (fun _ => l) free ∧ TreeInv dynamic 1 root (words root 2048) T l)
    {rv : Int} (hexec : exec heapHandler p s = (.ok rv, s')) :
    ∃ T l free, Separated (kernelLayout dynamic) (fun _ : Unit => words root 2048) s'
      (fun _ => l) free ∧ TreeInv dynamic 1 root (words root 2048) T l := by
  obtain ⟨T, l, free, hsep, htree⟩ := h
  have hhome := homes_of_isRoot (fun _ : Unit => hroot) fun _ _ _ => rfl
  obtain ⟨l', free', hsep', ⟨T', htree'⟩, -⟩ :=
    hsep.exec hhome (hp T l htree) (fun _ => trivial) hexec
  refine ⟨T', l', free', ?_, htree'⟩
  have hupdate : Function.update (fun _ : Unit => l) () l' = fun _ => l' := by
    funext u
    simp
  exact hupdate ▸ hsep'

theorem Built.exists_tree (hroot : IsRoot dynamic root) (h : Built dynamic root s) :
    ∃ T l free, Separated (kernelLayout dynamic) (fun _ : Unit => words root 2048) s
      (fun _ => l) free ∧ TreeInv dynamic 1 root (words root 2048) T l := by
  induction h with
  | zeroed hzero hfree =>
      exact ⟨_, _, _, separated_of_freePages hfree _, treeInv_zeroed hroot hzero⟩
  | mapPage _ hexec ih =>
      refine exists_tree_of_exec hroot (fun T l htree => ?_) ih hexec
      apply (ensures_attempt_mapPage htree _ _ _).of_attempt.mono
      rintro rv l' ⟨T', htree', -⟩
      exact ⟨T', htree'⟩
  | mapPages _ hexec ih =>
      refine exists_tree_of_exec hroot (fun T l htree => ?_) ih hexec
      apply (ensures_mapPages htree _ _ _ _).mono
      rintro rv l' ⟨T', htree', -⟩
      exact ⟨T', htree'⟩

variable {home : Set Uint64} {T : Tables} {l : Share Uint64}

/-- `convert_va_to_pa` looks only at whether a level-0 entry is reached. -/
theorem exec_convertVaToPa (hroot : IsRoot dynamic root) (h : TreeInv dynamic 1 root home T l)
    (hmem : ∀ a, l.Owns (kernelLayout dynamic) home a → s.mem a = l.view a) (gpa : Uint64) :
    (exec heapHandler (convertVaToPa root gpa 1) s).1 =
      match guestEntry dynamic s.mem root gpa with
      | none => .error s!"bad walk for va: 0x{gpa.toHex}"
      | some pte => .ok (pte2pa pte ||| getValue gpa 0 12) := by
  have hwalk := exec_walkFrom h hmem gpa (Nat.le_refl 2) ((h.root_iff 0 root).mpr ⟨rfl, rfl⟩)
    (.inl rfl)
  have hlast : levels - 1 = 2 := rfl
  rw [convertVaToPa, walk, if_neg (root_ne_zero h), hlast, exec_bind_ok heapHandler hwalk,
    guestEntry_eq hroot h hmem]
  cases hleaf : T 0 (leafKey gpa 1 2 0) with
  | none => rfl
  | some leaf =>
      have hidx := va2idx_lt gpa (Nat.zero_le 2) 1
      have howns := h.owns (Nat.zero_le 2) hleaf (slot_mem_words hidx)
      rw [Option.elim_some, if_neg (slot_ne_zero h hleaf hidx), exec_load_bind, hmem _ howns]
      rfl

end Trees

theorem toNat_getValue_low (gpa : Uint64) : (getValue gpa 0 12).toNat = gpa.toNat % 2 ^ 12 := by
  have hvalue := toNat_getValue gpa 0 12 (by decide) (by decide)
  rwa [Nat.pow_zero, Nat.div_one] at hvalue

/-- The address that `convert_va_to_pa` computes from an entry. -/
theorem toNat_pte2pa_or_getValue (pte gpa : Uint64) :
    (pte2pa pte ||| getValue gpa 0 12).toNat = (pte2pa pte).toNat + gpa.toNat % 2 ^ 12 := by
  have hor := Nat.two_pow_add_eq_or_of_lt (Nat.mod_lt gpa.toNat (Nat.two_pow_pos 12))
    (pte.toNat / 1024 % 2 ^ 52)
  rw [BitVec.toNat_or, toNat_pte2pa, toNat_getValue_low, Nat.mul_comm, show 4096 = 2 ^ 12 from rfl,
    ← hor]

/-- The two frames differ by what stands in bits 54 to 61 of the entry. -/
theorem pte2pa_or_getValue_eq_iff (pte gpa : Uint64) :
    pte2pa pte ||| getValue gpa 0 12 = pteFrame pte + (gpa &&& 0xfff) ↔
      pte >>> 54 &&& 0xff = 0 := by
  have hlow : (gpa &&& 0xfff).toNat = gpa.toNat % 2 ^ 12 := by
    rw [BitVec.toNat_and, show (0xfff : Uint64).toNat = 2 ^ 12 - 1 from rfl,
      Nat.and_two_pow_sub_one_eq_mod]
  have hhardware : (pteFrame pte + (gpa &&& 0xfff)).toNat =
      pte.toNat / 1024 % 2 ^ 44 * 4096 + gpa.toNat % 2 ^ 12 := by
    rw [BitVec.toNat_add, toNat_pteFrame, hlow]
    omega
  have hupper : (pte >>> 54 &&& 0xff).toNat = pte.toNat / 2 ^ 54 % 2 ^ 8 :=
    toNat_and_mask pte 54 8 _ rfl
  rw [← BitVec.toNat_inj, toNat_pte2pa_or_getValue, toNat_pte2pa, hhardware, ← BitVec.toNat_inj,
    hupper, show (0 : Uint64).toNat = 0 from rfl]
  omega

/-- The software translation agrees with the architecture exactly where the
walk ends above level 0, and where the address is in range and the level-0 entry
is valid with a frame of 44 bits. -/
theorem convertVaToPa_agrees_iff {dynamic : DynamicSymbol} {root : Uint64}
    (hroot : IsRoot dynamic root) {s : KernelMem} (h : Built dynamic root s) (gpa : Uint64) :
    Agrees dynamic s root gpa ↔
      guestEntry dynamic s.mem root gpa = none ∨
        (gpa >>> 41 = 0 ∧ ∃ pte, guestEntry dynamic s.mem root gpa = some pte ∧
          pte &&& pteV ≠ 0 ∧ pte >>> 54 &&& 0xff = 0) := by
  obtain ⟨T, l, free, hsep, htree⟩ := h.exists_tree hroot
  have hexec := exec_convertVaToPa hroot htree (fun a ha => hsep.agree () a ha) gpa
  cases hentry : guestEntry dynamic s.mem root gpa with
  | none =>
      rw [hentry] at hexec
      have hnone : guestTranslate dynamic s.mem root gpa = none := by
        simp only [guestTranslate, hentry]
        split <;> rfl
      simp only [Agrees, hnone, true_or, iff_true]
      exact ⟨_, hexec⟩
  | some pte =>
      rw [hentry] at hexec
      have hok : ¬ ∃ message, (exec heapHandler (convertVaToPa root gpa 1) s).1 =
          .error message := by
        rintro ⟨message, herror⟩
        rw [hexec] at herror
        cases herror
      simp only [Agrees, guestTranslate, hentry, Option.some.injEq, exists_eq_left',
        reduceCtorEq, false_or]
      by_cases hhigh : gpa >>> 41 = 0
      · rcases eq_or_ne (pte &&& pteV) 0 with hvalid | hvalid
        · simp only [if_pos hhigh, if_pos hvalid]
          exact iff_of_false hok fun h => h.2.1 hvalid
        · simp only [if_pos hhigh, if_neg hvalid, hexec, Except.ok.injEq,
            pte2pa_or_getValue_eq_iff]
          exact ⟨fun hframe => ⟨hhigh, hvalid, hframe⟩, fun h => h.2.2⟩
      · simp only [if_neg hhigh]
        exact iff_of_false hok fun h => hhigh h.1

theorem not_agrees_of_toOption {dynamic : DynamicSymbol} {root gpa pa : Uint64} {s : KernelMem}
    (hnone : guestTranslate dynamic s.mem root gpa = none)
    (hok : (exec heapHandler (convertVaToPa root gpa 1) s).1.toOption = some pa) :
    ¬ Agrees dynamic s root gpa := by
  intro hagrees
  simp only [Agrees, hnone] at hagrees
  obtain ⟨message, herror⟩ := hagrees
  rw [herror] at hok
  cases hok

section Sample

/-- A kernel image that ends 16 MiB into RAM. -/
def sampleDynamic : DynamicSymbol where
  addr := 0xffffffc001000000
  aligned := by decide
  lower := by decide
  upper := by decide

def sampleRoot : Uint64 := 0xffffffc000100000

theorem sampleRoot_toNat : sampleRoot.toNat = 0xffffffc000100000 := rfl

theorem sampleRoot_isRoot : IsRoot sampleDynamic sampleRoot := ⟨by decide, by decide, by decide⟩

def samplePage : Uint64 := 0xffffffe001000000

theorem samplePage_toNat : samplePage.toNat = 0xffffffe001000000 := rfl

/-- Two free pages, and nothing else in memory. -/
def sampleMem : KernelMem where
  mem a := if a = samplePage then 0xffffffe001001000 else 0
  freelist := samplePage

/-- The memory after one page has been mapped. -/
def sampleMapped : KernelMem :=
  (exec heapHandler (mapPage sampleRoot 0x80000000 0x88000000 30 1) sampleMem).2

theorem sampleMem_freePages :
    FreePages sampleDynamic sampleMem [samplePage, 0xffffffe001001000] where
  linked := by simp [sampleMem, samplePage]
  nodup := by simp [samplePage]
  valid := List.forall_mem_cons.mpr ⟨by decide, List.forall_mem_cons.mpr ⟨by decide, by simp⟩⟩

theorem sampleMem_zeroed : ∀ a ∈ words sampleRoot 2048, sampleMem.mem a = 0 := by
  rintro a ⟨i, hi, rfl⟩
  have hroot := sampleRoot_toNat
  have hpage := samplePage_toNat
  have hne : slot sampleRoot i ≠ samplePage := by
    intro heq
    have hnat := congrArg BitVec.toNat heq
    rw [toNat_slot (by omega)] at hnat
    omega
  simp only [sampleMem, if_neg hne]

theorem sampleMapped_built : Built sampleDynamic sampleRoot sampleMapped := by
  have hok : (exec heapHandler (mapPage sampleRoot 0x80000000 0x88000000 30 1)
      sampleMem).1.toOption = some 0 := by decide +kernel
  have hexec : exec heapHandler (mapPage sampleRoot 0x80000000 0x88000000 30 1) sampleMem =
      (.ok 0, sampleMapped) := exec_of_toOption heapHandler hok
  exact .mapPage (.zeroed sampleMem_zeroed sampleMem_freePages) hexec

theorem convertVaToPa_agrees_mapped : Agrees sampleDynamic sampleMapped sampleRoot 0x80000123 := by
  have hentry : guestEntry sampleDynamic sampleMapped.mem sampleRoot 0x80000123 =
      some (leafEntry 0x88000000 30) := by decide +kernel
  have hbits : leafEntry 0x88000000 30 >>> 54 &&& 0xff = 0 := by decide +kernel
  have hrange : (0x80000123 : Uint64) >>> 41 = 0 := by decide +kernel
  rw [convertVaToPa_agrees_iff sampleRoot_isRoot sampleMapped_built]
  exact .inr ⟨hrange, _, hentry, leafEntry_and_pteV 0x88000000 30, hbits⟩

/-- The page after the mapped one has an invalid leaf, and is translated to the
null frame; so is an address outside the guest's range. -/
theorem convertVaToPa_accepts_unmapped :
    Built sampleDynamic sampleRoot sampleMapped ∧
      ¬ Agrees sampleDynamic sampleMapped sampleRoot 0x80001123 ∧
      ¬ Agrees sampleDynamic sampleMapped sampleRoot 0x20080000123 ∧
      (exec heapHandler (convertVaToPa sampleRoot 0x80001123 1) sampleMapped).1.toOption =
        some 0x123 ∧
      (exec heapHandler (convertVaToPa sampleRoot 0x20080000123 1) sampleMapped).1.toOption =
        some 0x88000123 := by
  have hleaf : guestTranslate sampleDynamic sampleMapped.mem sampleRoot 0x80001123 = none := by
    decide +kernel
  have hleafOk : (exec heapHandler (convertVaToPa sampleRoot 0x80001123 1)
      sampleMapped).1.toOption = some 0x123 := by decide +kernel
  have hhigh : guestTranslate sampleDynamic sampleMapped.mem sampleRoot 0x20080000123 = none := by
    decide +kernel
  have hhighOk : (exec heapHandler (convertVaToPa sampleRoot 0x20080000123 1)
      sampleMapped).1.toOption = some 0x88000123 := by decide +kernel
  exact ⟨sampleMapped_built, not_agrees_of_toOption hleaf hleafOk,
    not_agrees_of_toOption hhigh hhighOk, hleafOk, hhighOk⟩

end Sample

end RiscvHypervisor.AddressTranslation
