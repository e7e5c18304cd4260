import RiscvHypervisor.ShippedConfig
import RiscvHypervisor.SpinlockSections

/-!
The critical sections of `kmalloc` and `kfree`, access by access, under the
spinlock of `kmem`.
-/

namespace RiscvHypervisor.AllocatorSections

open RiscvHypervisor.BootMemory
open RiscvHypervisor.EffectProgram
open RiscvHypervisor.GuestConfig
open RiscvHypervisor.GuestMemory
open RiscvHypervisor.InitVmem
open RiscvHypervisor.KernelMemory
open RiscvHypervisor.LockedSections
open RiscvHypervisor.MachineTypes
open RiscvHypervisor.OwnedMemory
open RiscvHypervisor.ShippedConfig
open RiscvHypervisor.Spinlock
open RiscvHypervisor.SpinlockSections
open RiscvHypervisor.TransitionSystem

/-- The accesses of the sections, to a word of memory or to `kmem.freelist`. -/
inductive KmemOp
  | load (p : Uint64)
  | store (p v : Uint64)
  | loadHead
  | storeHead (page : Uint64)

abbrev kmemEffect : Effect where
  Op := KmemOp
  Answer
    | .load _ => Uint64
    | .store _ _ => Unit
    | .loadHead => Uint64
    | .storeHead _ => Unit

def kmemHandler : Handler kmemEffect KernelMem
  | .load p, s => (s.mem p, s)
  | .store p v, s => ((), { s with mem := Function.update s.mem p v })
  | .loadHead, s => (s.freelist, s)
  | .storeHead page, s => ((), { s with freelist := page })

/-- `kmem.freelist = page->next`. -/
def takeNext (page : Uint64) : Program kmemEffect Uint64 := do
  let next ← Program.perform (E := kmemEffect) (.load page)
  Program.perform (E := kmemEffect) (.storeHead next)
  pure page

/-- The section of `kmalloc`. -/
def popSection : Program kmemEffect Uint64 := do
  let page ← Program.perform (E := kmemEffect) .loadHead
  if page ≠ 0 then
    takeNext page
  else
    pure page

/-- The section of `kfree`. -/
def pushSection (page : Uint64) : Program kmemEffect Unit := do
  let head ← Program.perform (E := kmemEffect) .loadHead
  Program.perform (E := kmemEffect) (.store page head)
  Program.perform (E := kmemEffect) (.storeHead page)

theorem neverPanics_popSection : popSection.NeverPanics := by
  intro page
  exact Program.neverPanics_ite (fun _ _ => trivial) trivial

theorem neverPanics_pushSection (page : Uint64) : (pushSection page).NeverPanics :=
  fun _ _ _ => trivial

/-- All other accesses are plain loads and stores. -/
def kmemSections : Sections (heapEffect Uint64) KernelMem :=
  programSections kmemHandler
    (fun
      | .load _ => none
      | .store _ _ => none
      | .pop => some ⟨popSection, neverPanics_popSection⟩
      | .push page => some ⟨pushSection page, neverPanics_pushSection page⟩)
    heapHandler

/-- A section in progress, the memory, and the memory in which the section is one
access: it has its effect with the load of `page->next` or the store to it. -/
inductive Within : (o : HeapOp Uint64) → Program kmemEffect ((heapEffect Uint64).Answer o) →
    KernelMem → KernelMem → Prop
  | pop {s : KernelMem} : Within .pop popSection s s
  | next {s : KernelMem} : s.freelist ≠ 0 → Within .pop (takeNext s.freelist) s s
  | taken {s : KernelMem} {page next : Uint64} :
      Within .pop (.access (.storeHead next) fun _ => .done page) s { s with freelist := next }
  | popped {s : KernelMem} {page : Uint64} : Within .pop (.done page) s s
  | push {s : KernelMem} {page : Uint64} : Within (.push page) (pushSection page) s s
  | link {s : KernelMem} {page : Uint64} :
      Within (.push page)
        (.access (.store page s.freelist) fun _ => .access (.storeHead page) .done) s s
  | linked {s : KernelMem} {page : Uint64} :
      Within (.push page) (.access (.storeHead page) .done) s { s with freelist := page }
  | pushed {s : KernelMem} {page : Uint64} : Within (.push page) (.done ()) s s

/-- The answer once it is settled: nothing but the store to `kmem.freelist` is left. -/
def settled {A : Type} : Program kmemEffect A → Option A
  | .done a => some a
  | .panic _ => none
  | .access (.load _) _ => none
  | .access (.store _ _) _ => none
  | .access .loadHead _ => none
  | .access (.storeHead _) k =>
      match k () with
      | .done a => some a
      | .panic _ => none
      | .access _ _ => none

def Agree : Option ((o : HeapOp Uint64) × kmemSections.Code o) → KernelMem → KernelMem → Prop
  | none, s, t => s = t
  | some ⟨o, code⟩, s, t => Within o code.1 s t

/-- A step in a section. -/
theorem within_step {o : HeapOp Uint64} {o' : KmemOp}
    {k : kmemEffect.Answer o' → Program kmemEffect ((heapEffect Uint64).Answer o)}
    {s t : KernelMem} (h : Within o (Program.access (E := kmemEffect) o' k) s t) :
    ∃ t', Effects heapHandler o t (settled (Program.access (E := kmemEffect) o' k))
        (settled (k (kmemHandler o' s).1)) t' ∧
      Within o (k (kmemHandler o' s).1) (kmemHandler o' s).2 t' := by
  generalize hcode : Program.access (E := kmemEffect) o' k = code at h
  cases h with
  | @pop s =>
      rw [popSection, Program.perform_bind] at hcode
      cases hcode
      change ∃ t', Effects heapHandler .pop s none
          (settled (if s.freelist ≠ 0 then takeNext s.freelist else .done s.freelist)) t' ∧
        Within .pop (if s.freelist ≠ 0 then takeNext s.freelist else .done s.freelist) s t'
      rcases eq_or_ne s.freelist 0 with hempty | hne
      · have hnow := Effects.now (H := heapHandler) (o := .pop) (t := s)
        rw [heapHandler, if_pos hempty] at hnow
        rw [if_neg (not_not.mpr hempty)]
        exact ⟨s, hnow, .popped⟩
      · rw [if_pos hne]
        exact ⟨s, .before, .next hne⟩
  | @next s hne =>
      rw [takeNext, Program.perform_bind] at hcode
      cases hcode
      have hnow := Effects.now (H := heapHandler) (o := .pop) (t := s)
      rw [heapHandler, if_neg hne] at hnow
      exact ⟨_, hnow, .taken⟩
  | @taken s page next =>
      cases hcode
      have hafter := Effects.after (H := heapHandler) (o := .pop) (t := { s with freelist := next })
        page
      exact ⟨_, hafter, .popped⟩
  | popped => cases hcode
  | @push s page =>
      rw [pushSection, Program.perform_bind] at hcode
      cases hcode
      exact ⟨s, .before, .link⟩
  | @link s page =>
      cases hcode
      exact ⟨_, .now, .linked⟩
  | @linked s page =>
      cases hcode
      have hafter := Effects.after (H := heapHandler) (o := .push page)
        (t := { s with freelist := page }) ()
      exact ⟨_, hafter, .pushed⟩
  | pushed => cases hcode

/-- What the other harts load and store in the meantime. -/
theorem within_direct {o : HeapOp Uint64} {p : Program kmemEffect ((heapEffect Uint64).Answer o)}
    {s t : KernelMem} (h : Within o p s t) (mem : Uint64 → Uint64) :
    Within o p { s with mem := mem } { t with mem := mem } := by
  cases h with
  | pop => exact .pop
  | @next s hne => exact .next (s := { s with mem := mem }) hne
  | @taken s page next => exact .taken (s := { s with mem := mem })
  | popped => exact .popped
  | push => exact .push
  | @link s page => exact .link (s := { s with mem := mem })
  | @linked s page => exact .linked (s := { s with mem := mem })
  | pushed => exact .pushed

theorem within_mem {o : HeapOp Uint64} {p : Program kmemEffect ((heapEffect Uint64).Answer o)}
    {s t : KernelMem} (h : Within o p s t) : s.mem = t.mem := by
  cases h <;> rfl

theorem within_done {o : HeapOp Uint64} {a : (heapEffect Uint64).Answer o} {s t : KernelMem}
    (h : Within o (.done a) s t) : s = t := by
  generalize hcode : Program.done (E := kmemEffect) a = code at h
  cases h with
  | pop => cases hcode
  | next _ => cases hcode
  | taken => cases hcode
  | popped => rfl
  | push => cases hcode
  | link => cases hcode
  | linked => cases hcode
  | pushed => rfl

theorem agree_direct {o : HeapOp Uint64} (hstart : kmemSections.start o = none)
    {at? : Option ((o : HeapOp Uint64) × kmemSections.Code o)} {s t : KernelMem}
    (h : Agree at? s t) : (heapHandler o s).1 = (heapHandler o t).1 ∧
      Agree at? (heapHandler o s).2 (heapHandler o t).2 := by
  cases at? with
  | none =>
      obtain rfl : s = t := h
      exact ⟨rfl, rfl⟩
  | some place =>
      have hwithin : Within place.1 place.2.1 s t := h
      have hmem := within_mem hwithin
      cases o with
      | load p => exact ⟨congrFun hmem p, h⟩
      | store p v =>
          refine ⟨rfl, ?_⟩
          have hnext := within_direct hwithin (Function.update s.mem p v)
          rw [hmem] at hnext
          simpa only [heapHandler, Agree, hmem] using hnext
      | pop => cases hstart
      | push page => cases hstart

/-- The sections of `kmalloc` and `kfree` as single accesses to the free list. -/
def kmemReduction : Reduction kmemSections (fun (_ : Empty) s => s) heapHandler where
  settled _ code := settled code.1
  Agree := Agree
  start := by
    intro o code s t hstart h
    obtain rfl : s = t := h
    cases o with
    | load p => cases hstart
    | store p v => cases hstart
    | pop =>
        cases hstart
        exact ⟨rfl, .pop⟩
    | push page =>
        cases hstart
        exact ⟨rfl, .push⟩
  inside := by
    rintro o ⟨p, hp⟩ code' s s' t hnext h
    cases p with
    | done a => cases hnext
    | panic message => exact hp.elim
    | access o' k =>
        cases hnext
        exact within_step h
  answer := by
    rintro o ⟨p, hp⟩ a s s' t hnext h
    cases p with
    | done b =>
        cases hnext
        exact ⟨t, .after a, within_done h⟩
    | panic message => exact hp.elim
    | access o' k => cases hnext
  direct hstart h := agree_direct hstart h
  disturbed _ h := h

/-- The harts with their programs, an instruction of the lock or an access at a time. -/
abbrev kernelStep {α ι : Type} [DecidableEq ι] :
    SpinMachine kmemSections α ι → (ι × (Reg → Uint64)) ⊕ Empty →
      Option (SpinMachine kmemSections α ι) :=
  spinStep kmemSections fun _ s => s

section Atomicity

variable {α ι : Type} [DecidableEq ι] {programs : ι → KernelM α} {s : KernelMem}
  {c : SpinMachine kmemSections α ι} {m : Machine kmemSections α ι}
  {d : Pool (heapEffect Uint64) α KernelMem ι}

theorem exists_follows (hleads : Leads kernelStep (.initial kmemSections programs s) c) :
    ∃ m d, Mirrors c m ∧ Follows kmemReduction m d ∧
      Leads (poolStep heapHandler) ⟨programs, s⟩ d := by
  have hstart : kmemReduction.Agree none s s := rfl
  exact exists_pool kmemReduction hstart hleads

omit [DecidableEq ι] in
theorem shared_of_free (hmirrors : Mirrors c m) (hfollows : Follows kmemReduction m d)
    (hfree : m.owner = none) : c.shared = d.shared := by
  have hagree : Agree m.position m.shared d.shared := hfollows.agree
  rwa [← hmirrors.shared, Machine.position, hfree] at hagree

omit [DecidableEq ι] in
theorem threads_of_program (hmirrors : Mirrors c m) (hfollows : Follows kmemReduction m d) {i : ι}
    {p : KernelM α} (hphase : c.phases i = .program p) : d.threads i = p := by
  rw [hfollows.threads i, hmirrors.stage_of_program hphase]
  rfl

/-- Every interleaving of the instructions of `acquire` and `release`, of the accesses
in the sections of `kmalloc` and `kfree` and of all other accesses is one in which
taking a page and giving it back are single accesses: the memory is the same at any
time, the free list whenever the lock is free, and so is what is left of each
program. -/
theorem sections_atomic (hleads : Leads kernelStep (.initial kmemSections programs s) c) :
    ∃ d, Leads (poolStep heapHandler) ⟨programs, s⟩ d ∧ c.shared.mem = d.shared.mem ∧
      (c.lock.locked = 0 → c.shared = d.shared) ∧
      ∀ i p, c.phases i = .program p → d.threads i = p := by
  obtain ⟨m, d, hmirrors, hfollows, hpool⟩ := exists_follows hleads
  refine ⟨d, hpool, ?_, fun hfree => ?_, fun i p => threads_of_program hmirrors hfollows⟩
  · have hagree : Agree m.position m.shared d.shared := hfollows.agree
    rw [← hmirrors.shared] at hagree
    generalize m.position = position at hagree
    cases position with
    | none => exact congrArg Heap.mem hagree
    | some place => exact within_mem hagree
  · exact shared_of_free hmirrors hfollows (hmirrors.owner_eq_none hfree)

theorem finishes_kmemSections (o : HeapOp Uint64) (code : kmemSections.Code o) (s : KernelMem) :
    Finishes kmemSections (fun (_ : Empty) s => s) o code s := by
  obtain ⟨p, hp⟩ := code
  exact finishes_programSections (E := heapEffect Uint64) (fun _ s => s) o p hp s

end Atomicity

section Boot

variable {ι : Type} [DecidableEq ι] [Fintype ι] {layout : ImageLayout} {confs : ι → VmConfig}
  {s : KernelMem} {free : List Uint64} {c : SpinMachine kmemSections (Option Uint64) (Fin dtbNrCpus ⊕ ι)}

/-- The boot before its first step. -/
def bootStart (layout : ImageLayout) (confs : ι → VmConfig) (s : KernelMem) :
    SpinMachine kmemSections (Option Uint64) (Fin dtbNrCpus ⊕ ι) :=
  .initial kmemSections (bootPool layout confs s).threads s

def AllDone (c : SpinMachine kmemSections (Option Uint64) (Fin dtbNrCpus ⊕ ι)) : Prop :=
  ∀ i, ∃ result, c.phases i = .program (.done result)

/-- Instruction by instruction, the boot always gets to its end, and there the memory
is divided. -/
theorem boot_divides (h : Placement layout confs) (hfree : FreePages layout.dynamic s free)
    (hnodup : ∀ i, (guestIndices (confs i)).Nodup) {keys : ι → List (Nat × Nat)}
    (hkeys : ∀ i, Covers (keys i) (guestIndices (confs i)))
    (henough : 774 * dtbNrCpus + guestBudget confs keys < free.length)
    (hleads : Leads kernelStep (bootStart layout confs s) c) :
    (∃ c', Leads kernelStep c c' ∧ AllDone c') ∧
      (AllDone c → ∃ roots frame,
        (∀ hart, c.phases (.inl hart) = .program (.done (some (roots hart)))) ∧
          Divided layout confs c.shared roots frame) := by
  constructor
  · obtain ⟨c', hrest, hreturned⟩ := exists_returned kmemReduction
      (fun _ => finishes_kmemSections _ _ _) (show Agree none s s from rfl) hleads
    obtain ⟨m, d, hmirrors, hfollows, schedule, hrun⟩ := exists_follows (hleads.trans hrest)
    refine ⟨c', hrest, fun i => ?_⟩
    rcases hreturned i with hdone | ⟨message, hpanic⟩
    · exact hdone
    · have hthread := threads_of_program hmirrors hfollows hpanic
      exact absurd hthread (bootPool_ne_panic h hfree hnodup hrun
        (bootPool_succeeds h hfree hkeys henough schedule) i message)
  · intro hdone
    obtain ⟨m, d, hmirrors, hfollows, schedule, hrun⟩ := exists_follows hleads
    have hthreads : AllReturned d := fun i => by
      obtain ⟨result, hphase⟩ := hdone i
      exact ⟨result, threads_of_program hmirrors hfollows hphase⟩
    have hunlocked : m.owner = none := by
      refine Option.eq_none_iff_forall_ne_some.mpr fun i howner => ?_
      obtain ⟨result, hphase⟩ := hdone i
      have hlock := (hmirrors.exclusive i).mp howner
      rw [hmirrors.stage_of_program hphase] at hlock
      exact hlock
    obtain ⟨roots, kernelTables, tables, frames, shares, free', hboot, hroots⟩ :=
      boot_of_run h hfree hrun (bootPool_succeeds h hfree hkeys henough schedule) hthreads
    rw [shared_of_free hmirrors hfollows hunlocked]
    refine ⟨roots, _, fun hart => ?_, hboot.divided h⟩
    obtain ⟨result, hphase⟩ := hdone (.inl hart)
    rw [hphase, ← threads_of_program hmirrors hfollows hphase, hroots hart]

end Boot

section Sample

/-- Two free pages. -/
def twoPages : KernelMem := ⟨fun p => if p = 0x1000 then 0x2000 else 0, 0x1000⟩

/-- Each of two harts takes a page. -/
def takers (_ : Fin 2) : KernelM Uint64 := Program.perform (E := heapEffect Uint64) .pop

/-- Both harts find the lock free, and hart 1 swaps too late; it waits until hart 0 has
released the lock. -/
def contendedTake : List ((Fin 2 × (Reg → Uint64)) ⊕ Empty) :=
  let harts : List (Fin 2) :=
    [0, 1, 0, 1, 0, 1, 0, 1, 0, 1, 1] ++ List.replicate 8 0 ++ List.replicate 11 1
  harts.map fun i => .inl (i, fun _ => 0)

theorem sections_atomic_contended : ∃ c d,
    run kernelStep (.initial kmemSections takers twoPages) contendedTake = some c ∧
      Leads (poolStep heapHandler) ⟨takers, twoPages⟩ d ∧ c.shared = d.shared ∧
      d.threads 0 = .done 0x1000 ∧ d.threads 1 = .done 0x2000 := by
  have hrun : run kernelStep (.initial kmemSections takers twoPages) contendedTake = some _ := rfl
  obtain ⟨d, hpool, -, hshared, hthreads⟩ := sections_atomic ⟨_, hrun⟩
  exact ⟨_, d, hrun, hpool, hshared rfl, hthreads 0 _ rfl, hthreads 1 _ rfl⟩

theorem boot_divides_shipped : ∃ s c roots frame,
    Leads kernelStep (bootStart shippedLayout (config shippedConfig) s) c ∧ AllDone c ∧
      Divided shippedLayout (config shippedConfig) c.shared roots frame := by
  obtain ⟨s, free, -, -, -, hfree, henough, -, -⟩ := exists_shipped_run
  have hplaced := placement shippedConfig
  have hnodup : ∀ i, (guestIndices (config shippedConfig i)).Nodup :=
    fun i => (config_entry shippedConfig i).indices_nodup
  have hkeys : ∀ i, Covers vmKeys (guestIndices (config shippedConfig i)) :=
    fun i => (config_entry shippedConfig i).covers
  obtain ⟨⟨c, hleads, hdone⟩, -⟩ := boot_divides hplaced hfree hnodup hkeys henough
    (.refl (bootStart shippedLayout (config shippedConfig) s))
  obtain ⟨roots, frame, -, hdivided⟩ := (boot_divides hplaced hfree hnodup hkeys henough hleads).2
    hdone
  exact ⟨s, c, roots, frame, hleads, hdone, hdivided⟩

end Sample

end RiscvHypervisor.AllocatorSections
