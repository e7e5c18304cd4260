import RiscvHypervisor.MachineTypes
import RiscvHypervisor.OwnedMemory

/-!
The page allocator of `mem/kmem.c` over a memory of 64-bit words, addressed by
the pointers of the hypervisor.  The critical sections of `kmalloc` and `kfree`
are single accesses to the free list.
-/

namespace RiscvHypervisor.KernelMemory

open RiscvHypervisor.EffectProgram
open RiscvHypervisor.MachineTypes
open RiscvHypervisor.OwnedMemory

abbrev KernelM := Program (heapEffect Uint64)

abbrev KernelMem := Heap Uint64

def load (p : Uint64) : KernelM Uint64 := Program.perform (E := heapEffect Uint64) (.load p)

def store (p v : Uint64) : KernelM Unit := Program.perform (E := heapEffect Uint64) (.store p v)

/-- The linker symbol `dynamic`, the page-aligned end of the kernel image. -/
structure DynamicSymbol where
  addr : Uint64
  aligned : addr % pageSize = 0
  lower : vasKernel ≤ addr
  upper : addr ≤ vasKernel + dtbMemorySize

/-- `&p[i]` of an array of 64-bit words. -/
def slot (p i : Uint64) : Uint64 := p + i * 8

def memsetLoop (dst : Uint64) : Nat → Uint64 → KernelM Unit
  | 0, _ => pure ()
  | left + 1, i => do
      store (slot dst i) 0
      memsetLoop dst left (i + 1)

/-- `memset(dst, 0, size)` by words; `dst` and `size` are multiples of the word
size in every call. -/
def memset (dst : Uint64) (size : Nat) : KernelM Unit := memsetLoop dst (size / 8) 0

def validAddress (dynamic : DynamicSymbol) (kpa : Uint64) : Bool :=
  if kpa % pageSize ≠ 0 then
    false
  else if kpa < kva2kpa dynamic.addr ∨ pa2kpa dtbMemoryEnd ≤ kpa then
    false
  else
    true

/-- The null page is cleared too when there is no free page. -/
def kmalloc : KernelM Uint64 := do
  let page ← Program.perform (E := heapEffect Uint64) .pop
  memset page 4096
  pure page

def kfree (dynamic : DynamicSymbol) (kpa : Uint64) : KernelM Unit :=
  if validAddress dynamic kpa then
    Program.perform (E := heapEffect Uint64) (.push kpa)
  else
    .panic "kfree"

section Addresses

@[simp] theorem vasKernel_toNat : vasKernel.toNat = 0xffffffc000000000 := rfl

@[simp] theorem vasRam_toNat : vasRam.toNat = 0xffffffe000000000 := rfl

@[simp] theorem dtbMemory_toNat : dtbMemory.toNat = 0x80000000 := rfl

@[simp] theorem pageSize_toNat : pageSize.toNat = 4096 := rfl

theorem slot_zero (p : Uint64) : slot p 0 = p := by
  simp [slot]

theorem toNat_slot {p i : Uint64} (h : p.toNat + 8 * i.toNat < 2 ^ 64) :
    (slot p i).toNat = p.toNat + 8 * i.toNat := by
  have height : (8 : Uint64).toNat = 8 := rfl
  rw [slot, BitVec.toNat_add, BitVec.toNat_mul, height]
  omega

namespace DynamicSymbol

variable (dynamic : DynamicSymbol)

theorem le_toNat : 0xffffffc000000000 ≤ dynamic.addr.toNat := dynamic.lower

theorem toNat_le : dynamic.addr.toNat ≤ 0xffffffc010000000 := dynamic.upper

theorem toNat_mod : dynamic.addr.toNat % 4096 = 0 := by
  have h := congrArg BitVec.toNat dynamic.aligned
  rwa [BitVec.toNat_umod, pageSize_toNat] at h

theorem toNat_kva2kpa : (kva2kpa dynamic.addr).toNat = dynamic.addr.toNat + 0x2000000000 := by
  have hlow := dynamic.le_toNat
  have hhigh := dynamic.toNat_le
  rw [kva2kpa, BitVec.toNat_add, BitVec.toNat_sub, vasKernel_toNat, vasRam_toNat]
  omega

end DynamicSymbol

/-- A page of the allocator: aligned, from the end of the image to the end of RAM. -/
theorem validAddress_iff (dynamic : DynamicSymbol) (kpa : Uint64) :
    validAddress dynamic kpa ↔ kpa.toNat % 4096 = 0 ∧
      dynamic.addr.toNat + 0x2000000000 ≤ kpa.toNat ∧ kpa.toNat < 0xffffffe010000000 := by
  have hend : (pa2kpa dtbMemoryEnd).toNat = 0xffffffe010000000 := rfl
  have haligned : kpa % pageSize = 0 ↔ kpa.toNat % 4096 = 0 := by
    rw [← BitVec.toNat_inj, BitVec.toNat_umod, pageSize_toNat]
    rfl
  simp only [validAddress, ne_eq, haligned, BitVec.lt_def, BitVec.le_def, dynamic.toNat_kva2kpa,
    hend]
  rcases eq_or_ne (kpa.toNat % 4096) 0 with hmod | hmod
  · simp only [hmod, not_true_eq_false, if_false, true_and]
    split
    · simp
      omega
    · simp
      omega
  · simp [hmod]

/-- The first `n` words of an array. -/
def words (p : Uint64) (n : Nat) : Set Uint64 := {a | ∃ i : Uint64, i.toNat < n ∧ a = slot p i}

theorem slot_mem_words {p i : Uint64} {n : Nat} (h : i.toNat < n) : slot p i ∈ words p n :=
  ⟨i, h, rfl⟩

/-- Arrays of words that lie apart. -/
theorem disjoint_words {p q : Uint64} {n m : Nat} (hp : p.toNat + 8 * n ≤ 2 ^ 64)
    (hq : q.toNat + 8 * m ≤ 2 ^ 64)
    (h : p.toNat + 8 * n ≤ q.toNat ∨ q.toNat + 8 * m ≤ p.toNat) :
    Disjoint (words p n) (words q m) := by
  rw [Set.disjoint_left]
  rintro a ⟨i, hi, rfl⟩ ⟨j, hj, heq⟩
  have hnat := congrArg BitVec.toNat heq
  rw [toNat_slot (by omega), toNat_slot (by omega)] at hnat
  omega

theorem slot_injective {p i j : Uint64} {n : Nat} (hp : p.toNat + 8 * n ≤ 2 ^ 64)
    (hi : i.toNat < n) (hj : j.toNat < n) (h : slot p i = slot p j) : i = j := by
  have hnat := congrArg BitVec.toNat h
  rw [toNat_slot (by omega), toNat_slot (by omega)] at hnat
  exact BitVec.eq_of_toNat_eq (by omega)

theorem ne_zero_of_validAddress {dynamic : DynamicSymbol} {page : Uint64}
    (h : validAddress dynamic page) : page ≠ 0 := by
  rintro rfl
  exact absurd (((validAddress_iff dynamic 0).mp h).2.1) (by simp)

end Addresses

section Rounding

theorem and_not_pageMask (x : Uint64) : x &&& ~~~(pageSize - 1) = (x >>> 12) <<< 12 := by
  have hmask : pageSize - 1 = BitVec.ofNat 64 (2 ^ 12 - 1) := by decide
  apply BitVec.eq_of_getLsbD_eq
  intro i hi
  rw [hmask, BitVec.getLsbD_and, BitVec.getLsbD_not, BitVec.getLsbD_ofNat,
    Nat.testBit_two_pow_sub_one, BitVec.getLsbD_shiftLeft, BitVec.getLsbD_ushiftRight]
  by_cases hlow : i < 12
  · simp [hi, hlow]
  · simp [hi, hlow, Nat.add_sub_cancel' (Nat.le_of_not_lt hlow)]

theorem toNat_pgroundup (a : Uint64) :
    (pgroundup a).toNat = (a.toNat + 4095) % 2 ^ 64 / 4096 * 4096 := by
  have hsub : (a + pageSize - 1).toNat = (a.toNat + 4095) % 2 ^ 64 := by
    rw [BitVec.toNat_sub, BitVec.toNat_add, pageSize_toNat, show (1 : Uint64).toNat = 1 from rfl]
    omega
  rw [pgroundup, and_not_pageMask, BitVec.toNat_shiftLeft, BitVec.toNat_ushiftRight, hsub,
    Nat.shiftLeft_eq, Nat.shiftRight_eq_div_pow]
  omega

theorem toNat_pgroundup_mod (a : Uint64) : (pgroundup a).toNat % 4096 = 0 := by
  rw [toNat_pgroundup]
  omega

theorem pgroundup_pgroundup (a : Uint64) : pgroundup (pgroundup a) = pgroundup a := by
  apply BitVec.eq_of_toNat_eq
  have hmod := toNat_pgroundup_mod a
  have hlt := (pgroundup a).isLt
  rw [toNat_pgroundup (pgroundup a)]
  omega

end Rounding

section Boot

def bootstrapKfree (kpa : Uint64) : KernelM Unit :=
  Program.perform (E := heapEffect Uint64) (.push kpa)

/-- The loop of `init_kmem` from a page on. -/
def initKmemFrom (dynamic : DynamicSymbol) (kpa : Uint64) : KernelM Unit :=
  if validAddress dynamic kpa then do
    bootstrapKfree kpa
    initKmemFrom dynamic (kpa + pageSize)
  else
    pure ()
termination_by 0xffffffe010000000 - kpa.toNat
decreasing_by
  rename_i h
  rw [validAddress_iff] at h
  rw [BitVec.toNat_add, pageSize_toNat]
  omega

def initKmem (dynamic : DynamicSymbol) : KernelM Unit :=
  initKmemFrom dynamic (kva2kpa (pgroundup dynamic.addr))

/-- The loop puts every page from `kpa` on in front of the free list. -/
theorem exec_initKmemFrom {dynamic : DynamicSymbol} {n : Nat} {kpa : Uint64}
    (hlow : (kva2kpa dynamic.addr).toNat ≤ kpa.toNat)
    (hend : kpa.toNat + 4096 * n = 0xffffffe010000000) {s : KernelMem} {free : List Uint64}
    (hlinked : Linked s.mem s.freelist free) (hbelow : ∀ page ∈ free, page.toNat < kpa.toNat) :
    ∃ s' pages, exec heapHandler (initKmemFrom dynamic kpa) s = (.ok (), s') ∧
      Linked s'.mem s'.freelist (pages ++ free) ∧ pages.Nodup ∧ pages.length = n ∧
      ∀ page, page ∈ pages ↔ page.toNat % 4096 = 0 ∧ kpa.toNat ≤ page.toNat ∧
        page.toNat < 0xffffffe010000000 := by
  rw [dynamic.toNat_kva2kpa] at hlow
  induction n generalizing kpa s free with
  | zero =>
      have hstop : ¬ validAddress dynamic kpa := by
        rw [validAddress_iff]
        omega
      refine ⟨s, [], ?_, hlinked, List.nodup_nil, rfl, fun page => ?_⟩
      · rw [initKmemFrom, if_neg hstop]
        rfl
      · simp only [List.not_mem_nil, false_iff]
        omega
  | succ n ih =>
      have hlt := kpa.isLt
      have hvalid : validAddress dynamic kpa := by
        rw [validAddress_iff]
        omega
      have hnext : (kpa + pageSize).toNat = kpa.toNat + 4096 := by
        rw [BitVec.toNat_add, pageSize_toNat]
        omega
      have hpushed : Linked (Function.update s.mem kpa s.freelist) kpa (kpa :: free) := by
        refine ⟨rfl, ne_zero_of_validAddress hvalid, ?_⟩
        rw [Function.update_self]
        refine hlinked.congr fun page hpage => Function.update_of_ne ?_ _ _
        rintro rfl
        exact absurd (hbelow page hpage) (Nat.lt_irrefl _)
      obtain ⟨s', pages, hexec, hlinked', hnodup, hlength, hmem⟩ :=
        ih (show dynamic.addr.toNat + 0x2000000000 ≤ (kpa + pageSize).toNat by omega) (by omega)
          (s := ⟨Function.update s.mem kpa s.freelist, kpa⟩) hpushed (by
            intro page hpage
            rcases List.mem_cons.mp hpage with rfl | hpage
            · omega
            · have := hbelow page hpage
              omega)
      refine ⟨s', pages ++ [kpa], ?_, ?_, ?_, ?_, fun page => ?_⟩
      · rw [initKmemFrom, if_pos hvalid]
        exact hexec
      · rwa [List.append_assoc]
      · refine List.nodup_append.mpr ⟨hnodup, by simp, ?_⟩
        rintro page hpage q hq rfl
        obtain rfl := List.mem_singleton.mp hq
        have := ((hmem page).mp hpage).2.1
        omega
      · rw [List.length_append, hlength]
        rfl
      · rw [List.mem_append, hmem, List.mem_singleton, ← BitVec.toNat_inj]
        have hbase := dynamic.toNat_mod
        omega

/-- After `init_kmem` the free list consists of all pages of the allocator. -/
theorem exec_initKmem (dynamic : DynamicSymbol) (mem : Uint64 → Uint64) :
    ∃ s free, exec heapHandler (initKmem dynamic) ⟨mem, 0⟩ = (.ok (), s) ∧
      Linked s.mem s.freelist free ∧ free.Nodup ∧
      4096 * free.length = 0xffffffc010000000 - dynamic.addr.toNat ∧
      ∀ page, page ∈ free ↔ validAddress dynamic page := by
  have hlow := dynamic.le_toNat
  have hhigh := dynamic.toNat_le
  have hmod := dynamic.toNat_mod
  have hround : pgroundup dynamic.addr = dynamic.addr := by
    apply BitVec.eq_of_toNat_eq
    rw [toNat_pgroundup]
    omega
  have hstart := dynamic.toNat_kva2kpa
  obtain ⟨s, pages, hexec, hlinked, hnodup, hlength, hmem⟩ :=
    exec_initKmemFrom (n := (0xffffffc010000000 - dynamic.addr.toNat) / 4096)
      (Nat.le_refl (kva2kpa dynamic.addr).toNat) (by omega) (s := ⟨mem, 0⟩)
      (show Linked mem 0 [] from rfl) (by simp)
  refine ⟨s, pages, ?_, by simpa using hlinked, hnodup, by omega, fun page => ?_⟩
  · rw [initKmem, hround]
    exact hexec
  · rw [hmem, validAddress_iff, hstart]

end Boot

/-- The word lies in the page at address 0. -/
def nullWord (a : Uint64) : Bool := a < pageSize

/-- What a null pointer to a page points to. -/
def nullPage : Set Uint64 := {a | nullWord a}

theorem mem_nullPage (a : Uint64) : a ∈ nullPage ↔ a.toNat < 4096 := decide_eq_true_iff

theorem words_zero_subset : words 0 512 ⊆ nullPage := by
  rintro a ⟨i, hi, rfl⟩
  have hzero : (0 : Uint64).toNat = 0 := rfl
  rw [mem_nullPage, toNat_slot (by omega)]
  omega

/-- An array of words above the null page. -/
theorem disjoint_nullPage {p : Uint64} {n : Nat} (hlow : 4096 ≤ p.toNat)
    (hhigh : p.toNat + 8 * n ≤ 2 ^ 64) : Disjoint (words p n) nullPage := by
  rw [Set.disjoint_left]
  rintro a ⟨i, hi, rfl⟩ hnull
  rw [mem_nullPage, toNat_slot (by omega)] at hnull
  omega

/-- The pages that `kmalloc` hands out, below which nothing is read through a
null pointer. -/
def kernelLayout (dynamic : DynamicSymbol) : Layout Uint64 where
  Valid p := validAddress dynamic p
  block p := words p 512
  scratch := nullPage
  mem_block p _ := ⟨0, by decide, by simp [slot]⟩
  disjoint_block p q hp hq hne := by
    rw [validAddress_iff] at hp hq
    have hnat := mt BitVec.eq_of_toNat_eq hne
    exact disjoint_words (by omega) (by omega) (by omega)
  not_valid_zero h := by
    have hlow := dynamic.le_toNat
    rw [validAddress_iff] at h
    have hzero : (0 : Uint64).toNat = 0 := rfl
    omega
  disjoint_scratch p hp := by
    have hlow := dynamic.le_toNat
    rw [validAddress_iff] at hp
    exact disjoint_nullPage (by omega) (by omega)

/-- The free list consists of different pages of the allocator. -/
structure FreePages (dynamic : DynamicSymbol) (s : KernelMem) (free : List Uint64) : Prop where
  linked : Linked s.mem s.freelist free
  nodup : free.Nodup
  valid : ∀ page ∈ free, validAddress dynamic page

section Accesses

theorem exec_load_bind {α : Type} (p : Uint64) (f : Uint64 → KernelM α) (s : KernelMem) :
    exec heapHandler (load p >>= f) s = exec heapHandler (f (s.mem p)) s := rfl

theorem exec_kfree {dynamic : DynamicSymbol} {page : Uint64} (h : validAddress dynamic page)
    (s : KernelMem) : exec heapHandler (kfree dynamic page) s =
      (.ok (), { mem := Function.update s.mem page s.freelist, freelist := page }) := by
  rw [kfree, if_pos h]
  rfl

theorem exec_pop_bind {α : Type} (f : Uint64 → KernelM α) (s : KernelMem) :
    exec heapHandler (Program.perform (E := heapEffect Uint64) .pop >>= f) s =
      exec heapHandler (f s.freelist) (heapHandler .pop s).2 := rfl

theorem attempt_load_bind {α : Type} (p : Uint64) (f : Uint64 → KernelM α) :
    (load p >>= f).attempt = load p >>= fun v => (f v).attempt := rfl

theorem attempt_store_bind {α : Type} (p v : Uint64) (f : Unit → KernelM α) :
    (store p v >>= f).attempt = store p v >>= fun u => (f u).attempt := rfl

theorem neverPanics_memset (dst : Uint64) (size : Nat) : (memset dst size).NeverPanics := by
  have hloop : ∀ left i, (memsetLoop dst left i).NeverPanics := by
    intro left
    induction left with
    | zero => exact fun _ => trivial
    | succ left ih => exact fun i _ => ih (i + 1)
  exact hloop _ 0

theorem uses_memset {P : HeapOp Uint64 → Prop} (hP : ∀ p v, P (.store p v)) (dst : Uint64)
    (size : Nat) : (memset dst size).Uses P := by
  have hloop : ∀ left i, (memsetLoop dst left i).Uses P := by
    intro left
    induction left with
    | zero => exact fun _ => trivial
    | succ left ih => exact fun i => ⟨hP _ _, fun _ => ih (i + 1)⟩
  exact hloop _ 0

theorem neverPanics_kmalloc : kmalloc.NeverPanics :=
  fun page => (neverPanics_memset page 4096).bind fun _ => trivial

theorem uses_kmalloc : kmalloc.Uses NoPush :=
  ⟨trivial, fun page => (uses_memset (fun _ _ => trivial) page 4096).bind fun _ => trivial⟩

theorem exec_kmalloc (s : KernelMem) : ∃ s', exec heapHandler kmalloc s = (.ok s.freelist, s') := by
  obtain ⟨u, s', hclear⟩ := (neverPanics_memset s.freelist 4096).exec_ok heapHandler
    (heapHandler (.pop : HeapOp Uint64) s).2
  refine ⟨s', ?_⟩
  rw [kmalloc, exec_pop_bind, exec_bind_ok heapHandler hclear]
  rfl

theorem exhausts_kmalloc_iff (s : KernelMem) : Exhausts kmalloc s ↔ s.freelist = 0 := by
  constructor
  · rintro ⟨x, hx, hpop, hzero⟩
    rcases List.mem_cons.mp hx with rfl | hx
    · exact hzero
    · have hclear : (memset s.freelist 4096 >>= fun _ => (pure s.freelist : KernelM Uint64)).Uses NoPop :=
        (uses_memset (fun _ _ => trivial) s.freelist 4096).bind fun _ => trivial
      exact absurd ⟨x, hx, hpop, hzero⟩ (not_exhausts_of_noPop hclear _)
  · intro hzero
    exact ⟨(s, .pop), List.mem_cons_self, rfl, hzero⟩

end Accesses

section Specifications

variable {dynamic : DynamicSymbol} {fails : Prop} {home : Set Uint64}

theorem ensures_load_bind {α : Type} {p : Uint64} {f : Uint64 → KernelM α} {l : Share Uint64}
    {Q : α → Share Uint64 → Prop} (hp : l.Owns (kernelLayout dynamic) home p)
    (hf : Ensures (kernelLayout dynamic) fails home (f (l.view p)) l Q) :
    Ensures (kernelLayout dynamic) fails home (load p >>= f) l Q :=
  ⟨hp, hf⟩

theorem ensures_store_bind {α : Type} {p v : Uint64} {f : Unit → KernelM α} {l : Share Uint64}
    {Q : α → Share Uint64 → Prop} (hp : l.Owns (kernelLayout dynamic) home p)
    (hf : Ensures (kernelLayout dynamic) fails home (f ()) (l.write p v) Q) :
    Ensures (kernelLayout dynamic) fails home (store p v >>= f) l Q :=
  ⟨.inl hp, hf⟩

theorem ensures_memsetLoop {dst : Uint64} {left : Nat} {i : Uint64} {l : Share Uint64}
    (hi : i.toNat + left ≤ 2048)
    (hown : ∀ j : Uint64, i.toNat ≤ j.toNat → j.toNat < i.toNat + left →
      l.Owns (kernelLayout dynamic) home (slot dst j) ∨ (fails ∧ slot dst j ∈ nullPage)) :
    Ensures (kernelLayout dynamic) fails home (memsetLoop dst left i) l fun _ l' =>
      l' = l.clear {a | ∃ j : Uint64, i.toNat ≤ j.toNat ∧ j.toNat < i.toNat + left ∧
        a = slot dst j} := by
  induction left generalizing i l with
  | zero =>
      have hempty : {a | ∃ j : Uint64, i.toNat ≤ j.toNat ∧ j.toNat < i.toNat + 0 ∧
          a = slot dst j} = ∅ := by
        rw [Set.eq_empty_iff_forall_notMem]
        rintro a ⟨j, hlow, hhigh, -⟩
        omega
      show l = _
      rw [hempty, Share.clear_empty]
  | succ left ih =>
      have hone : (1 : Uint64).toNat = 1 := rfl
      have hnext : (i + 1).toNat = i.toNat + 1 := by
        rw [BitVec.toNat_add, hone]
        omega
      refine ⟨hown i (by omega) (by omega), ?_⟩
      refine (ih (i := i + 1) (l := l.write (slot dst i) 0) (by omega)
        fun j hlow hhigh => hown j (by omega) (by omega)).mono ?_
      rintro - l' rfl
      rw [Share.clear_write]
      congr 1
      ext a
      simp only [Set.mem_insert_iff, Set.mem_ofPred_eq, hnext]
      constructor
      · rintro (rfl | ⟨j, hlow, hhigh, rfl⟩)
        · exact ⟨i, by omega, by omega, rfl⟩
        · exact ⟨j, by omega, by omega, rfl⟩
      · rintro ⟨j, hlow, hhigh, rfl⟩
        rcases eq_or_ne j i with hj | hj
        · exact .inl (by rw [hj])
        · have hne := mt BitVec.eq_of_toNat_eq hj
          exact .inr ⟨j, by omega, by omega, rfl⟩

theorem ensures_memset {dst : Uint64} {n : Nat} {l : Share Uint64} (hn : n ≤ 2048)
    (hown : ∀ a ∈ words dst n, l.Owns (kernelLayout dynamic) home a ∨ (fails ∧ a ∈ nullPage)) :
    Ensures (kernelLayout dynamic) fails home (memset dst (8 * n)) l fun _ l' =>
      l' = l.clear (words dst n) := by
  have hzero : (0 : Uint64).toNat = 0 := rfl
  rw [memset, Nat.mul_div_cancel_left n (by decide)]
  refine (ensures_memsetLoop (by omega) fun j _ hj => hown _ (slot_mem_words (by omega))).mono ?_
  rintro - l' rfl
  simp [words]

/-- A page that nobody has yet, cleared, or the null pointer when the free list
is empty. -/
theorem ensures_kmalloc (l : Share Uint64) :
    Ensures (kernelLayout dynamic) fails home kmalloc l fun page l' =>
      (validAddress dynamic page ∧
          (∀ a ∈ words page 512, ¬ l.Owns (kernelLayout dynamic) home a) ∧
          l' = l.grant (kernelLayout dynamic) page fun _ => 0) ∨
        (fails ∧ page = 0 ∧ l' = l.clear (words 0 512)) := by
  constructor
  · intro page fresh hvalid hnew
    refine (ensures_memset (n := 512) (by decide) fun a ha => .inl (.inr ⟨page, ?_, ha⟩)).seq ?_
    · simp [Share.grant]
    · rintro - l' rfl
      exact .inl ⟨hvalid, hnew, (l.clear_grant (kernelLayout dynamic) page fresh).symm ▸ rfl⟩
  · intro hfails
    refine (ensures_memset (n := 512) (by decide) fun a ha =>
      .inr ⟨hfails, words_zero_subset ha⟩).seq ?_
    rintro - l' rfl
    exact .inr ⟨hfails, rfl, rfl⟩

end Specifications

end RiscvHypervisor.KernelMemory
