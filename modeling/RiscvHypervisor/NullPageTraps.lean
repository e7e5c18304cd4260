import RiscvHypervisor.PageTable
import RiscvHypervisor.UnmappedMemory

/-!
The functions of the kernel on the machine itself, where the page at address 0 is
not mapped (`initVmem_unmapped_null`): `kmalloc` clears what it has got, and with an
empty free list this is the null page.
-/

namespace RiscvHypervisor.NullPageTraps

open RiscvHypervisor.EffectProgram
open RiscvHypervisor.MachineTypes
open RiscvHypervisor.OwnedMemory
open RiscvHypervisor.UnmappedMemory
open RiscvHypervisor.KernelMemory
open RiscvHypervisor.PageTable

/-- The call on the machine.  The result `none` says that an access to the null page
has trapped, from where nothing comes back: the handler panics. -/
def onMachine {α : Type} (p : KernelM α) : KernelM (Option α) := p.trapping (hits nullWord)

section Execution

variable {α β : Type} {p : KernelM α} {s t : KernelMem}

theorem onMachine_bind (p : KernelM α) (f : α → KernelM β) :
    onMachine (p >>= f) = onMachine p >>= fun r =>
      match r with
      | none => .done none
      | some a => onMachine (f a) := Program.trapping_bind _ p f

theorem exec_onMachine_bind {a : α} (h : exec heapHandler (onMachine p) s = (.ok (some a), t))
    (f : α → KernelM β) :
    exec heapHandler (onMachine (p >>= f)) s = exec heapHandler (onMachine (f a)) t := by
  rw [onMachine_bind, exec_bind_ok heapHandler h]

theorem exec_onMachine_trap (h : exec heapHandler (onMachine p) s = (.ok none, t))
    (f : α → KernelM β) : exec heapHandler (onMachine (p >>= f)) s = (.ok none, t) := by
  rw [onMachine_bind, exec_bind_ok heapHandler h]
  rfl

end Execution

theorem returns_memsetLoop {left : Nat} {i : Uint64} (hi : i.toNat + left ≤ 512) :
    (memsetLoop 0 left i).Returns (StoresTo nullWord) () := by
  induction left generalizing i with
  | zero => rfl
  | succ left ih =>
      have hone : (1 : Uint64).toNat = 1 := rfl
      have hnext : (i + 1).toNat = i.toNat + 1 := by
        rw [BitVec.toNat_add, hone]
        omega
      exact ⟨words_zero_subset (slot_mem_words (by omega)), fun _ => ih (by omega)⟩

theorem returns_memset_null : (memset 0 4096).Returns (StoresTo nullWord) () := by
  have hwords : 4096 / 8 = 512 := rfl
  rw [memset, hwords]
  exact returns_memsetLoop (Nat.le_refl 512)

theorem noPop_memset (dst : Uint64) (size : Nat) : (memset dst size).Uses NoPop :=
  uses_memset (fun _ _ => trivial) dst size

theorem noPop_load (p : Uint64) : (load p).Uses NoPop := ⟨trivial, fun _ => trivial⟩

theorem noPop_store (p v : Uint64) : (store p v).Uses NoPop := ⟨trivial, fun _ => trivial⟩

section Walking

/-- A walk that may not allocate does not. -/
theorem noPop_walk (pgtable va : Uint64) (x4 : Int) : (walk pgtable va 0 x4).Uses NoPop := by
  have hfrom : ∀ level kpa, (walkFrom va 0 x4 level kpa).Uses NoPop := by
    intro level
    induction level with
    | zero => exact fun _ => trivial
    | succ level ih =>
        intro kpa
        rw [walkFrom]
        refine (noPop_load _).bind fun entry => Program.uses_ite (ih _) ?_
        rw [if_pos rfl]
        trivial
  exact Program.uses_ite trivial (hfrom _ pgtable)

/-- `alloc` is only compared with zero. -/
theorem walk_of_alloc (pgtable va : Uint64) {alloc : Int} (halloc : alloc ≠ 0) (x4 : Int) :
    walk pgtable va alloc x4 = walk pgtable va 1 x4 := by
  have hfrom : ∀ level kpa, walkFrom va alloc x4 level kpa = walkFrom va 1 x4 level kpa := by
    intro level
    induction level with
    | zero => exact fun _ => rfl
    | succ level ih =>
        intro kpa
        simp only [walkFrom, ih, if_neg halloc, if_neg Int.one_ne_zero]
  rw [walk, walk, hfrom]

theorem exhausts_mapPage_walk_iff (pgtable va pa : Uint64) (pteFlags x4 : Int) (s : KernelMem) :
    Exhausts (mapPage pgtable va pa pteFlags x4) s ↔ Exhausts (walk pgtable va 1 x4) s := by
  rcases hwalk : exec heapHandler (walk pgtable va 1 x4) s with ⟨message | leaf, t⟩
  · exact exhausts_bind_error hwalk
  · refine (exhausts_bind_ok hwalk).trans (or_iff_left (not_exhausts_of_noPop ?_ t))
    refine Program.uses_ite trivial ((noPop_load leaf).bind fun entry => ?_)
    exact Program.uses_ite trivial ((noPop_store leaf _).bind fun _ => trivial)

end Walking

section Quitting

/-- The rest of `kmalloc` after its critical section. -/
def clearPage (page : Uint64) : KernelM Uint64 := do
  memset page 4096
  pure page

/-- It begins with the first word of the page. -/
theorem clearPage_eq (page : Uint64) : clearPage page =
    store page 0 >>= fun _ => memsetLoop page 511 (0 + 1) >>= fun _ => pure page := by
  have hfirst : clearPage page = store (slot page 0) 0 >>= fun _ =>
      memsetLoop page 511 (0 + 1) >>= fun _ => pure page := rfl
  rwa [slot_zero] at hfirst

theorem kmalloc_eq : kmalloc = .access (E := heapEffect Uint64) .pop clearPage := rfl

/-- With an empty free list `kmalloc` traps before it has written anything. -/
theorem exec_onMachine_kmalloc {s : KernelMem} (hempty : s.freelist = 0) :
    exec heapHandler (onMachine kmalloc) s = (.ok none, s) := by
  have hnull : (clearPage 0).trapping (hits nullWord) = .done none := by
    rw [clearPage_eq]
    rfl
  have hpop : heapHandler (.pop : HeapOp Uint64) s = (0, s) := by simp [heapHandler, hempty]
  rw [onMachine, kmalloc_eq]
  change exec heapHandler ((clearPage (heapHandler (.pop : HeapOp Uint64) s).1).trapping _) _ = _
  rw [hpop, hnull]
  rfl

theorem noPop_clearPage (page : Uint64) : (clearPage page).Uses NoPop := by
  rw [clearPage]
  exact (noPop_memset page 4096).bind fun _ => trivial

theorem quits_kmalloc : Quits nullWord 0 kmalloc := by
  have hnull : (clearPage 0).Returns (StoresTo nullWord) 0 := by
    rw [clearPage]
    exact returns_memset_null.bind rfl
  rw [kmalloc_eq, quits_pop]
  exact ⟨hnull, fun page => quits_of_noPop (noPop_clearPage page) 0⟩

theorem quits_walkFrom (va : Uint64) (alloc x4 : Int) (level : Nat) (kpa : Uint64) :
    Quits nullWord 0 (walkFrom va alloc x4 level kpa) := by
  induction level generalizing kpa with
  | zero => trivial
  | succ level ih =>
      rw [walkFrom]
      refine .noPop_bind (noPop_load _) fun entry => quits_ite (ih _) (quits_ite trivial ?_)
      refine quits_kmalloc.bind (if_pos rfl) fun page => quits_ite trivial ?_
      refine .noPop_bind (noPop_memset page 4096) fun _ => ?_
      exact .noPop_bind (noPop_store _ _) fun _ => ih page

theorem quits_walk (pgtable va : Uint64) (alloc x4 : Int) :
    Quits nullWord 0 (walk pgtable va alloc x4) :=
  quits_ite trivial (quits_walkFrom va alloc x4 _ pgtable)

theorem quits_mapPage (pgtable va pa : Uint64) (pteFlags x4 : Int) :
    Quits nullWord (-1) (mapPage pgtable va pa pteFlags x4) := by
  refine (quits_walk pgtable va 1 x4).bind (if_pos rfl) fun leaf => quits_ite trivial ?_
  refine .noPop_bind (noPop_load leaf) fun entry => quits_ite trivial ?_
  exact .noPop_bind (noPop_store leaf _) fun _ => trivial

end Quitting

section Writing

theorem writesAnswers_kmalloc : WritesAnswers kmalloc := by
  rw [kmalloc_eq, writesAnswers_pop]
  exact fun page => ⟨⟨0, _, clearPage_eq page⟩, writesAnswers_of_noPop (noPop_clearPage page)⟩

theorem writesAnswers_walkFrom (va : Uint64) (alloc x4 : Int) (level : Nat) (kpa : Uint64) :
    WritesAnswers (walkFrom va alloc x4 level kpa) := by
  induction level generalizing kpa with
  | zero => trivial
  | succ level ih =>
      rw [walkFrom]
      refine (writesAnswers_of_noPop (noPop_load _)).bind fun entry =>
        writesAnswers_ite (ih _) (writesAnswers_ite trivial ?_)
      refine writesAnswers_kmalloc.bind fun page => writesAnswers_ite trivial ?_
      refine (writesAnswers_of_noPop (noPop_memset page 4096)).bind fun _ => ?_
      exact (writesAnswers_of_noPop (noPop_store _ _)).bind fun _ => ih page

theorem writesAnswers_walk (pgtable va : Uint64) (alloc x4 : Int) :
    WritesAnswers (walk pgtable va alloc x4) :=
  writesAnswers_ite trivial (writesAnswers_walkFrom va alloc x4 _ pgtable)

theorem writesAnswers_mapPage (pgtable va pa : Uint64) (pteFlags x4 : Int) :
    WritesAnswers (mapPage pgtable va pa pteFlags x4) := by
  refine (writesAnswers_walk pgtable va 1 x4).bind fun leaf => writesAnswers_ite trivial ?_
  refine (writesAnswers_of_noPop (noPop_load leaf)).bind fun entry => writesAnswers_ite trivial ?_
  exact (writesAnswers_of_noPop (noPop_store leaf _)).bind fun _ => trivial

theorem writesAnswers_frameFor (pa i : Uint64) : WritesAnswers (frameFor pa i) :=
  writesAnswers_ite (writesAnswers_kmalloc.bind fun _ => trivial) trivial

theorem writesAnswers_mapPagesLoop (pgtable va pa : Uint64) (pteFlags x4 : Int) (pages : Nat)
    (i : Uint64) : WritesAnswers (mapPagesLoop pgtable va pa pteFlags x4 pages i) := by
  induction pages generalizing i with
  | zero => trivial
  | succ pages ih =>
      refine (writesAnswers_frameFor pa i).bind fun tmp => ?_
      exact (writesAnswers_mapPage pgtable _ tmp pteFlags x4).bind fun rv =>
        writesAnswers_ite trivial (ih _)

end Writing

end RiscvHypervisor.NullPageTraps
