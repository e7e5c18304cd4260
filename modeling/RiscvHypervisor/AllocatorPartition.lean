import RiscvHypervisor.KernelMemory

/-!
The page allocator under any interleaving of `kmalloc`, `kfree` and writes to
pages in use: the free list, which lives inside the free pages, and the pages
that have been taken from it always partition the RAM above the image.
-/

namespace RiscvHypervisor.AllocatorPartition

open RiscvHypervisor.EffectProgram
open RiscvHypervisor.TransitionSystem
open RiscvHypervisor.MachineTypes
open RiscvHypervisor.OwnedMemory
open RiscvHypervisor.KernelMemory

/-- The memory, what is left of each hart's `kmalloc` call, the pages that
`kmalloc` has returned and nobody has freed, and those taken off the free list. -/
structure Allocator (ι : Type) where
  heap : KernelMem
  calls : ι → Option (KernelM Uint64)
  held : List Uint64
  taken : List Uint64

inductive Action (ι : Type)
  | call (i : ι)
  | access (i : ι)
  | ret (i : ι)
  | free (page : Uint64)
  | write (page i v : Uint64)

section Steps

variable {ι : Type} [DecidableEq ι]

/-- One step of some hart.  A `kmalloc` call accesses the memory step by step and
its critical section needs a non-empty list; a page that is held can be written
and freed by anyone. -/
def allocStep (dynamic : DynamicSymbol) (c : Allocator ι) : Action ι → Option (Allocator ι)
  | .call i =>
      if (c.calls i).isSome then none
      else some { c with calls := Function.update c.calls i (some kmalloc) }
  | .access i =>
      match c.calls i with
      | some (.access o k) =>
          let next := some (k (heapHandler o c.heap).1)
          match o with
          | .pop =>
              if c.heap.freelist = 0 then none
              else some
                { heap := (heapHandler o c.heap).2
                  calls := Function.update c.calls i next
                  held := c.held
                  taken := c.heap.freelist :: c.taken }
          | _ =>
              some
                { c with
                  heap := (heapHandler o c.heap).2
                  calls := Function.update c.calls i next }
      | _ => none
  | .ret i =>
      match c.calls i with
      | some (.done page) =>
          some { c with calls := Function.update c.calls i none, held := page :: c.held }
      | _ => none
  | .free page =>
      if page ∈ c.held then
        match exec heapHandler (kfree dynamic page) c.heap with
        | (.ok _, heap) =>
            some { c with heap := heap, held := c.held.erase page, taken := c.taken.erase page }
        | (.error _, _) => none
      else
        none
  | .write page i v =>
      if page ∈ c.held ∧ i.toNat < 512 then
        some { c with heap := { c.heap with mem := Function.update c.heap.mem (slot page i) v } }
      else
        none

/-- The state that `init_kmem` leaves behind, whatever was in memory. -/
def booted (ι : Type) (dynamic : DynamicSymbol) (mem : Uint64 → Uint64) : Allocator ι where
  heap := (exec heapHandler (initKmem dynamic) ⟨mem, 0⟩).2
  calls _ := none
  held := []
  taken := []

/-- The rest of a `kmalloc` call that has the words from `i` on still to clear. -/
def clearing (page : Uint64) (left : Nat) (i : Uint64) : KernelM Uint64 := do
  memsetLoop page left i
  pure page

/-- How far a `kmalloc` call has come, and the page it has taken. -/
inductive InCall (mem : Uint64 → Uint64) : Option (KernelM Uint64) → Option Uint64 → Prop
  | idle : InCall mem none none
  | called : InCall mem (some kmalloc) none
  | clearing {page : Uint64} {left : Nat} {i : Uint64} (hleft : i.toNat + left = 512)
      (hzero : ∀ j : Uint64, j.toNat < i.toNat → mem (slot page j) = 0) :
      InCall mem (some (clearing page left i)) (some page)

omit [DecidableEq ι] in
theorem InCall.congr {mem mem' : Uint64 → Uint64} {call : Option (KernelM Uint64)}
    {busy : Option Uint64} (h : InCall mem call busy)
    (hmem : ∀ page, busy = some page → ∀ j : Uint64, j.toNat < 512 →
      mem' (slot page j) = mem (slot page j)) : InCall mem' call busy := by
  cases h with
  | idle => exact .idle
  | called => exact .called
  | clearing hleft hzero =>
      refine .clearing hleft fun j hj => ?_
      rw [hmem _ rfl j (by omega)]
      exact hzero j hj

/-- The free list is threaded through different pages, every page of the allocator
is free or taken, and a taken page is held or being cleared by one hart. -/
structure PageInv (dynamic : DynamicSymbol) (c : Allocator ι) (free : List Uint64)
    (busy : ι → Option Uint64) : Prop where
  linked : Linked c.heap.mem c.heap.freelist free
  nodup : (free ++ c.taken).Nodup
  mem_iff : ∀ page, page ∈ free ++ c.taken ↔ validAddress dynamic page
  held_taken : ∀ page ∈ c.held, page ∈ c.taken
  held_nodup : c.held.Nodup
  taken_owned : ∀ page ∈ c.taken, page ∈ c.held ∨ ∃ i, busy i = some page
  busy_taken : ∀ i page, busy i = some page → page ∈ c.taken
  busy_not_held : ∀ i page, busy i = some page → page ∉ c.held
  busy_unique : ∀ i j page, busy i = some page → busy j = some page → i = j
  inCall : ∀ i, InCall c.heap.mem (c.calls i) (busy i)

end Steps

section Preservation

variable {ι : Type} [DecidableEq ι] {dynamic : DynamicSymbol} {c d : Allocator ι}
  {free : List Uint64} {busy : ι → Option Uint64}

/-- The words of different pages are different. -/
theorem slot_ne_slot {p q i j : Uint64} (hp : validAddress dynamic p) (hq : validAddress dynamic q)
    (hne : p ≠ q) (hi : i.toNat < 512) (hj : j.toNat < 512) : slot p i ≠ slot q j := by
  intro heq
  have hdisjoint := (kernelLayout dynamic).disjoint_block p q hp hq hne
  exact Set.disjoint_left.mp hdisjoint (slot_mem_words hi) (heq ▸ slot_mem_words hj)

namespace PageInv

omit [DecidableEq ι] in
theorem valid_of_free (h : PageInv dynamic c free busy) {page : Uint64} (hpage : page ∈ free) :
    validAddress dynamic page :=
  (h.mem_iff page).mp (List.mem_append_left _ hpage)

omit [DecidableEq ι] in
theorem valid_of_taken (h : PageInv dynamic c free busy) {page : Uint64} (hpage : page ∈ c.taken) :
    validAddress dynamic page :=
  (h.mem_iff page).mp (List.mem_append_right _ hpage)

omit [DecidableEq ι] in
theorem not_taken_of_free (h : PageInv dynamic c free busy) {page : Uint64} (hpage : page ∈ free) :
    page ∉ c.taken :=
  fun htaken => (List.nodup_append.mp h.nodup).2.2 page hpage page htaken rfl

omit [DecidableEq ι] in
/-- A write to a taken page leaves the free list alone. -/
theorem linked_write (h : PageInv dynamic c free busy) {page i : Uint64} (hpage : page ∈ c.taken)
    (hi : i.toNat < 512) (v : Uint64) :
    Linked (Function.update c.heap.mem (slot page i) v) c.heap.freelist free := by
  refine h.linked.congr fun q hq => Function.update_of_ne ?_ _ _
  have hne : q ≠ page := by
    rintro rfl
    exact h.not_taken_of_free hq hpage
  have hwords := slot_ne_slot (i := 0) (h.valid_of_free hq) (h.valid_of_taken hpage) hne
    (by decide) hi
  rwa [slot_zero] at hwords

omit [DecidableEq ι] in
/-- A write to a page leaves the calls that clear other pages alone. -/
theorem inCall_write (h : PageInv dynamic c free busy) {page i : Uint64} (hpage : page ∈ c.taken)
    (hi : i.toNat < 512) (v : Uint64) {j : ι} (hj : busy j ≠ some page) :
    InCall (Function.update c.heap.mem (slot page i) v) (c.calls j) (busy j) := by
  refine (h.inCall j).congr fun q hq k hk => Function.update_of_ne ?_ _ _
  have hne : q ≠ page := by
    rintro rfl
    exact hj hq
  exact slot_ne_slot (h.valid_of_taken (h.busy_taken j q hq)) (h.valid_of_taken hpage) hne hk hi

theorem call (h : PageInv dynamic c free busy) {i : ι} (hi : c.calls i = none) :
    PageInv dynamic { c with calls := Function.update c.calls i (some kmalloc) } free busy where
  linked := h.linked
  nodup := h.nodup
  mem_iff := h.mem_iff
  held_taken := h.held_taken
  held_nodup := h.held_nodup
  taken_owned := h.taken_owned
  busy_taken := h.busy_taken
  busy_not_held := h.busy_not_held
  busy_unique := h.busy_unique
  inCall j := by
    rcases eq_or_ne j i with rfl | hj
    · have hidle := h.inCall j
      rw [hi] at hidle
      generalize busy j = b at hidle
      cases hidle
      simpa using InCall.called
    · simpa [hj] using h.inCall j

/-- The critical section of `kmalloc` on a non-empty list. -/
theorem pop (h : PageInv dynamic c free busy) {i : ι} (hi : busy i = none)
    (hne : c.heap.freelist ≠ 0) :
    PageInv dynamic
      { heap := { c.heap with freelist := c.heap.mem c.heap.freelist }
        calls := Function.update c.calls i (some (clearing c.heap.freelist 512 0))
        held := c.held
        taken := c.heap.freelist :: c.taken }
      free.tail (Function.update busy i (some c.heap.freelist)) := by
  obtain ⟨page, rest, rfl⟩ : ∃ page rest, free = page :: rest := by
    cases free with
    | nil => exact absurd h.linked hne
    | cons page rest => exact ⟨page, rest, rfl⟩
  obtain ⟨hhead, -, hrest⟩ := h.linked
  have hnew : page ∉ c.taken := h.not_taken_of_free (by simp)
  have hperm : (rest ++ page :: c.taken).Perm (page :: rest ++ c.taken) := List.perm_middle
  have hcases : ∀ j q, Function.update busy i (some page) j = some q →
      (j = i ∧ q = page) ∨ (j ≠ i ∧ busy j = some q) := by
    intro j q hq
    rcases eq_or_ne j i with rfl | hj
    · rw [Function.update_self] at hq
      exact .inl ⟨rfl, (Option.some.inj hq).symm⟩
    · rw [Function.update_of_ne hj] at hq
      exact .inr ⟨hj, hq⟩
  rw [hhead]
  exact
    { linked := hrest
      nodup := hperm.nodup_iff.mpr h.nodup
      mem_iff := fun q => hperm.mem_iff.trans (h.mem_iff q)
      held_taken := fun q hq => List.mem_cons_of_mem page (h.held_taken q hq)
      held_nodup := h.held_nodup
      taken_owned := by
        intro q hq
        rcases List.mem_cons.mp hq with rfl | hq
        · exact .inr ⟨i, Function.update_self i _ busy⟩
        · rcases h.taken_owned q hq with hheld | ⟨j, hj⟩
          · exact .inl hheld
          · refine .inr ⟨j, ?_⟩
            rw [Function.update_of_ne]
            · exact hj
            · rintro rfl
              rw [hi] at hj
              cases hj
      busy_taken := by
        intro j q hq
        rcases hcases j q hq with ⟨-, rfl⟩ | ⟨-, hq⟩
        · simp
        · exact List.mem_cons_of_mem page (h.busy_taken j q hq)
      busy_not_held := by
        intro j q hq
        rcases hcases j q hq with ⟨-, rfl⟩ | ⟨-, hq⟩
        · exact fun hheld => hnew (h.held_taken q hheld)
        · exact h.busy_not_held j q hq
      busy_unique := by
        intro j k q hj hk
        rcases hcases j q hj with ⟨rfl, rfl⟩ | ⟨-, hold⟩
        · rcases hcases k q hk with ⟨rfl, -⟩ | ⟨-, hold⟩
          · rfl
          · exact absurd (h.busy_taken k q hold) hnew
        · rcases hcases k q hk with ⟨rfl, rfl⟩ | ⟨-, hold'⟩
          · exact absurd (h.busy_taken j q hold) hnew
          · exact h.busy_unique j k q hold hold'
      inCall := by
        intro j
        rcases eq_or_ne j i with rfl | hj
        · simp only [Function.update_self]
          exact .clearing rfl fun k hk => absurd hk (by simp)
        · simpa [hj] using h.inCall j }

/-- One word of the page of a `kmalloc` call is cleared. -/
theorem clear (h : PageInv dynamic c free busy) {i : ι} {page : Uint64} (hbusy : busy i = some page)
    {left : Nat} {w : Uint64} (hleft : w.toNat + (left + 1) = 512)
    (hzero : ∀ j : Uint64, j.toNat < w.toNat → c.heap.mem (slot page j) = 0) :
    PageInv dynamic
      { c with
        heap := { c.heap with mem := Function.update c.heap.mem (slot page w) 0 }
        calls := Function.update c.calls i (some (clearing page left (w + 1))) }
      free busy where
  linked := h.linked_write (h.busy_taken i page hbusy) (by omega) 0
  nodup := h.nodup
  mem_iff := h.mem_iff
  held_taken := h.held_taken
  held_nodup := h.held_nodup
  taken_owned := h.taken_owned
  busy_taken := h.busy_taken
  busy_not_held := h.busy_not_held
  busy_unique := h.busy_unique
  inCall j := by
    have htaken := h.busy_taken i page hbusy
    rcases eq_or_ne j i with rfl | hj
    · have hnext : (w + 1).toNat = w.toNat + 1 := by
        rw [BitVec.toNat_add, show (1 : Uint64).toNat = 1 from rfl]
        omega
      rw [hbusy]
      simp only [Function.update_self]
      refine .clearing (by omega) fun k hk => ?_
      rcases eq_or_ne k w with hkw | hkw
      · simp [hkw]
      · have hvalid := (validAddress_iff dynamic page).mp (h.valid_of_taken htaken)
        have hne : slot page k ≠ slot page w :=
          fun heq => hkw (slot_injective (n := 512) (by omega) (by omega) (by omega) heq)
        rw [Function.update_of_ne hne]
        have hdiff := mt BitVec.eq_of_toNat_eq hkw
        exact hzero k (by omega)
    · have hother : busy j ≠ some page := fun hq => hj (h.busy_unique j i page hq hbusy)
      simpa [hj] using h.inCall_write htaken (by omega) 0 hother

/-- `kmalloc` returns. -/
theorem ret (h : PageInv dynamic c free busy) {i : ι} {page : Uint64} (hbusy : busy i = some page) :
    PageInv dynamic { c with calls := Function.update c.calls i none, held := page :: c.held } free
      (Function.update busy i none) := by
  have hcases : ∀ j q, Function.update busy i none j = some q → j ≠ i ∧ busy j = some q := by
    intro j q hq
    rcases eq_or_ne j i with rfl | hj
    · rw [Function.update_self] at hq
      cases hq
    · rw [Function.update_of_ne hj] at hq
      exact ⟨hj, hq⟩
  exact
    { linked := h.linked
      nodup := h.nodup
      mem_iff := h.mem_iff
      held_taken := List.forall_mem_cons.mpr ⟨h.busy_taken i page hbusy, h.held_taken⟩
      held_nodup := List.nodup_cons.mpr ⟨h.busy_not_held i page hbusy, h.held_nodup⟩
      taken_owned := by
        intro q hq
        rcases h.taken_owned q hq with hheld | ⟨j, hj⟩
        · exact .inl (List.mem_cons_of_mem page hheld)
        · rcases eq_or_ne j i with rfl | hne
          · rw [hbusy] at hj
            cases hj
            exact .inl List.mem_cons_self
          · exact .inr ⟨j, by rwa [Function.update_of_ne hne]⟩
      busy_taken := fun j q hq => h.busy_taken j q (hcases j q hq).2
      busy_not_held := by
        intro j q hq hheld
        obtain ⟨hj, hq⟩ := hcases j q hq
        rcases List.mem_cons.mp hheld with rfl | hheld
        · exact hj (h.busy_unique j i q hq hbusy)
        · exact h.busy_not_held j q hq hheld
      busy_unique := fun j k q hj hk => h.busy_unique j k q (hcases j q hj).2 (hcases k q hk).2
      inCall := by
        intro j
        rcases eq_or_ne j i with rfl | hj
        · simpa using InCall.idle
        · simpa [hj] using h.inCall j }

omit [DecidableEq ι] in
theorem push (h : PageInv dynamic c free busy) {page : Uint64} (hpage : page ∈ c.held) :
    PageInv dynamic
      { c with
        heap := { mem := Function.update c.heap.mem page c.heap.freelist, freelist := page }
        held := c.held.erase page
        taken := c.taken.erase page }
      (page :: free) busy := by
  have htaken := h.held_taken page hpage
  have hvalid := h.valid_of_taken htaken
  have hperm : (page :: free ++ c.taken.erase page).Perm (free ++ c.taken) :=
    List.perm_middle.symm.trans ((List.perm_cons_erase htaken).symm.append_left free)
  have hother : ∀ j q, busy j = some q → q ≠ page := by
    rintro j q hq rfl
    exact h.busy_not_held j q hq hpage
  have hmem := h.linked_write htaken (i := 0) (by decide) c.heap.freelist
  rw [slot_zero] at hmem
  exact
    { linked := ⟨rfl, ne_zero_of_validAddress hvalid, by simpa using hmem⟩
      nodup := hperm.nodup_iff.mpr h.nodup
      mem_iff := fun q => hperm.mem_iff.trans (h.mem_iff q)
      held_taken := by
        intro q hq
        obtain ⟨hne, hq⟩ := (List.Nodup.mem_erase_iff h.held_nodup).mp hq
        exact (List.mem_erase_of_ne hne).mpr (h.held_taken q hq)
      held_nodup := h.held_nodup.erase page
      taken_owned := by
        intro q hq
        obtain ⟨hne, hq⟩ := (List.Nodup.mem_erase_iff (List.nodup_append.mp h.nodup).2.1).mp hq
        exact (h.taken_owned q hq).imp_left (List.mem_erase_of_ne hne).mpr
      busy_taken := fun j q hq =>
        (List.mem_erase_of_ne (hother j q hq)).mpr (h.busy_taken j q hq)
      busy_not_held := fun j q hq hheld => h.busy_not_held j q hq (List.mem_of_mem_erase hheld)
      busy_unique := h.busy_unique
      inCall := by
        intro j
        have hcall := h.inCall_write htaken (i := 0) (by decide) c.heap.freelist
          (fun hq => hother j page hq rfl)
        rwa [slot_zero] at hcall }

omit [DecidableEq ι] in
theorem write (h : PageInv dynamic c free busy) {page i : Uint64} (hpage : page ∈ c.held)
    (hi : i.toNat < 512) (v : Uint64) :
    PageInv dynamic
      { c with heap := { c.heap with mem := Function.update c.heap.mem (slot page i) v } }
      free busy where
  linked := h.linked_write (h.held_taken page hpage) hi v
  nodup := h.nodup
  mem_iff := h.mem_iff
  held_taken := h.held_taken
  held_nodup := h.held_nodup
  taken_owned := h.taken_owned
  busy_taken := h.busy_taken
  busy_not_held := h.busy_not_held
  busy_unique := h.busy_unique
  inCall _ := h.inCall_write (h.held_taken page hpage) hi v fun hq => h.busy_not_held _ page hq hpage

end PageInv

/-- One step of any hart. -/
theorem pageInv_step {a : Action ι} (h : PageInv dynamic c free busy)
    (hstep : allocStep dynamic c a = some d) : ∃ free' busy', PageInv dynamic d free' busy' := by
  cases a with
  | call i =>
      rw [allocStep] at hstep
      split at hstep
      · cases hstep
      · rename_i hnone
        cases hstep
        exact ⟨_, _, h.call (Option.not_isSome_iff_eq_none.mp hnone)⟩
  | access i =>
      have hin := h.inCall i
      generalize hb : busy i = b at hin
      generalize hcall : c.calls i = call at hin
      simp only [allocStep, hcall] at hstep
      cases hin with
      | idle => cases hstep
      | called =>
          change (if c.heap.freelist = 0 then none else some _) = some d at hstep
          split at hstep
          · cases hstep
          · rename_i hne
            cases hstep
            have hpop := h.pop hb hne
            simp only [heapHandler, if_neg hne]
            exact ⟨_, _, hpop⟩
      | @clearing page left w hleft hzero =>
          cases left with
          | zero => cases hstep
          | succ left =>
              cases hstep
              exact ⟨_, _, h.clear hb hleft hzero⟩
  | ret i =>
      have hin := h.inCall i
      generalize hb : busy i = b at hin
      generalize hcall : c.calls i = call at hin
      simp only [allocStep, hcall] at hstep
      cases hin with
      | idle => cases hstep
      | called => cases hstep
      | @clearing page left w hleft hzero =>
          cases left with
          | zero =>
              cases hstep
              exact ⟨_, _, h.ret hb⟩
          | succ left => cases hstep
  | free page =>
      rw [allocStep] at hstep
      split at hstep
      · rename_i hpage
        rw [exec_kfree (h.valid_of_taken (h.held_taken page hpage))] at hstep
        cases hstep
        exact ⟨_, _, h.push hpage⟩
      · cases hstep
  | write page i v =>
      rw [allocStep] at hstep
      split at hstep
      · rename_i hpage
        cases hstep
        exact ⟨_, _, h.write hpage.1 hpage.2 v⟩
      · cases hstep

theorem pageInv_booted (ι : Type) (dynamic : DynamicSymbol) (mem : Uint64 → Uint64) :
    ∃ free, PageInv dynamic (booted ι dynamic mem) free fun _ => none := by
  obtain ⟨s, free, hexec, hlinked, hnodup, -, hmem⟩ := exec_initKmem dynamic mem
  refine ⟨free, ?_, ?_, ?_, by simp [booted], List.nodup_nil, by simp [booted], by simp, by simp,
    by simp, fun _ => .idle⟩
  · rwa [booted, hexec]
  · rwa [booted, List.append_nil]
  · intro page
    rw [booted, List.append_nil]
    exact hmem page

theorem pageInv_run {actions : List (Action ι)} (h : PageInv dynamic c free busy)
    (hrun : run (allocStep dynamic) c actions = some d) :
    ∃ free' busy', PageInv dynamic d free' busy' := by
  induction actions generalizing c free busy with
  | nil =>
      cases hrun
      exact ⟨free, busy, h⟩
  | cons a actions ih =>
      simp only [run, Option.bind_eq_some_iff] at hrun
      obtain ⟨e, hstep, hrest⟩ := hrun
      obtain ⟨free', busy', h'⟩ := pageInv_step h hstep
      exact ih h' hrest

end Preservation

section Partition

variable {ι : Type} [DecidableEq ι]

/-- The page is aligned and lies between the image and the end of RAM. -/
def InDynamicRam (dynamic : DynamicSymbol) (page : Uint64) : Prop :=
  page % pageSize = 0 ∧ kva2kpa dynamic.addr ≤ page ∧ page < pa2kpa dtbMemoryEnd

/-- The running `kmalloc` call has the page: it has taken it off the free list and
is clearing it or about to return it. -/
def Has (call : Option (KernelM Uint64)) (page : Uint64) : Prop :=
  ∃ left i, call = some (clearing page left i)

/-- What the allocator promises in a state: a free list without repetition that,
with the pages taken from it, makes up the dynamic RAM; a page that is taken is
held or in the hands of one running `kmalloc` call, and of nobody else; a `kmalloc`
call that returns has a page of zeroes that nobody else has; `kfree` takes back
every page that is held. -/
structure Partitioned (dynamic : DynamicSymbol) (c : Allocator ι) (free : List Uint64) : Prop where
  linked : Linked c.heap.mem c.heap.freelist free
  nodup : free.Nodup
  disjoint : ∀ page ∈ free, page ∉ c.taken
  covers : ∀ page, (page ∈ free ∨ page ∈ c.taken) ↔ InDynamicRam dynamic page
  taken_iff : ∀ page, page ∈ c.taken ↔ page ∈ c.held ∨ ∃ i, Has (c.calls i) page
  held_nodup : c.held.Nodup
  single : ∀ i page, Has (c.calls i) page → page ∉ c.held ∧ ∀ j ≠ i, ¬ Has (c.calls j) page
  returns : ∀ i page, c.calls i = some (.done page) → page ∈ c.taken ∧ page ∉ c.held ∧
    (∀ j ≠ i, c.calls j ≠ some (.done page)) ∧
    ∀ w : Uint64, w.toNat < 512 → c.heap.mem (slot page w) = 0
  frees : ∀ page ∈ c.held, (exec heapHandler (kfree dynamic page) c.heap).1 = .ok ()

theorem inDynamicRam_iff (dynamic : DynamicSymbol) (page : Uint64) :
    InDynamicRam dynamic page ↔ validAddress dynamic page := by
  have hend : (pa2kpa dtbMemoryEnd).toNat = 0xffffffe010000000 := rfl
  rw [InDynamicRam, validAddress_iff, ← BitVec.toNat_inj, BitVec.toNat_umod, pageSize_toNat,
    BitVec.le_def, BitVec.lt_def, dynamic.toNat_kva2kpa, hend]
  rfl

theorem exec_clearing (page : Uint64) (left : Nat) (i : Uint64) (s : KernelMem) :
    (exec heapHandler (clearing page left i) s).1 = .ok page := by
  induction left generalizing i s with
  | zero => rfl
  | succ left ih => exact ih (i + 1) _

/-- What is left of a call says which page it has. -/
theorem InCall.has_iff {mem : Uint64 → Uint64} {call : Option (KernelM Uint64)}
    {busy : Option Uint64} (h : InCall mem call busy) (page : Uint64) :
    Has call page ↔ busy = some page := by
  cases h with
  | idle =>
      refine iff_of_false ?_ (Option.some_ne_none page).symm
      rintro ⟨left, i, hcall⟩
      cases hcall
  | called =>
      refine iff_of_false ?_ (Option.some_ne_none page).symm
      rintro ⟨left, i, hcall⟩
      cases left <;> cases hcall
  | @clearing page' left' i' hleft hzero =>
      constructor
      · rintro ⟨left, i, hcall⟩
        have hresult := exec_clearing page' left' i' ⟨mem, 0⟩
        rw [Option.some.inj hcall, exec_clearing] at hresult
        rw [Except.ok.inj hresult]
      · rintro ⟨⟩
        exact ⟨left', i', rfl⟩

omit [DecidableEq ι] in
theorem PageInv.busy_of_done {dynamic : DynamicSymbol} {c : Allocator ι} {free : List Uint64}
    {busy : ι → Option Uint64} (h : PageInv dynamic c free busy) {i : ι} {page : Uint64}
    (hi : c.calls i = some (.done page)) :
    busy i = some page ∧ ∀ w : Uint64, w.toNat < 512 → c.heap.mem (slot page w) = 0 := by
  have hin := h.inCall i
  generalize busy i = b at hin
  generalize hcall : c.calls i = call at hin
  rw [hi] at hcall
  cases hin with
  | idle => cases hcall
  | called => cases hcall
  | @clearing page' left w hleft hzero =>
      cases left with
      | zero =>
          cases hcall
          exact ⟨rfl, fun k hk => hzero k (by omega)⟩
      | succ left => cases hcall

/-- From `init_kmem` on, under every interleaving of `kmalloc` on a non-empty list,
`kfree` of pages that are held and writes to these, the allocator keeps its
promise. -/
theorem partitioned_of_run {dynamic : DynamicSymbol} {mem : Uint64 → Uint64}
    {actions : List (Action ι)} {c : Allocator ι}
    (hrun : run (allocStep dynamic) (booted ι dynamic mem) actions = some c) :
    ∃ free, Partitioned dynamic c free := by
  obtain ⟨free₀, hboot⟩ := pageInv_booted ι dynamic mem
  obtain ⟨free, busy, h⟩ := pageInv_run hboot hrun
  have hhas : ∀ i page, Has (c.calls i) page ↔ busy i = some page :=
    fun i page => (h.inCall i).has_iff page
  refine ⟨free, h.linked, (List.nodup_append.mp h.nodup).1, fun page => h.not_taken_of_free, ?_, ?_,
    h.held_nodup, ?_, ?_, ?_⟩
  · intro page
    rw [inDynamicRam_iff, ← h.mem_iff, List.mem_append]
  · intro page
    simp only [hhas]
    constructor
    · exact h.taken_owned page
    · rintro (hheld | ⟨i, hbusy⟩)
      · exact h.held_taken page hheld
      · exact h.busy_taken i page hbusy
  · intro i page hi
    have hbusy := (hhas i page).mp hi
    refine ⟨h.busy_not_held i page hbusy, fun j hj hother => ?_⟩
    exact hj (h.busy_unique j i page ((hhas j page).mp hother) hbusy)
  · intro i page hi
    obtain ⟨hbusy, hzero⟩ := h.busy_of_done hi
    refine ⟨h.busy_taken i page hbusy, h.busy_not_held i page hbusy, fun j hj hdone => ?_, hzero⟩
    exact hj (h.busy_unique j i page (h.busy_of_done hdone).1 hbusy)
  · intro page hpage
    rw [exec_kfree (h.valid_of_taken (h.held_taken page hpage))]

end Partition

section Sample

/-- A kernel image that leaves three pages of RAM. -/
def topDynamic : DynamicSymbol where
  addr := 0xffffffc00fffd000
  aligned := by decide
  lower := by decide
  upper := by decide

def lowPage : Uint64 := 0xffffffe00fffd000

def middlePage : Uint64 := 0xffffffe00fffe000

def highPage : Uint64 := 0xffffffe00ffff000

/-- The free list after `init_kmem`. -/
def topMem : Uint64 → Uint64 :=
  Function.update (Function.update (Function.update (fun _ => 0) lowPage 0) middlePage lowPage)
    highPage middlePage

theorem booted_top : booted Bool topDynamic (fun _ => 0) =
    { heap := { mem := topMem, freelist := highPage }
      calls := fun _ => none
      held := []
      taken := [] } := by
  have hfirst : kva2kpa (pgroundup topDynamic.addr) = lowPage := by decide
  have hlow : validAddress topDynamic lowPage := by decide
  have hmiddle : validAddress topDynamic (lowPage + pageSize) := by decide
  have hhigh : validAddress topDynamic (lowPage + pageSize + pageSize) := by decide
  have hstop : ¬ validAddress topDynamic (lowPage + pageSize + pageSize + pageSize) := by decide
  rw [booted, initKmem, hfirst, initKmemFrom, if_pos hlow, initKmemFrom, if_pos hmiddle,
    initKmemFrom, if_pos hhigh, initKmemFrom, if_neg hstop]
  rfl

/-- Two harts allocate at the same time, clearing their pages by turns; one page is
written and given back, and the next call has taken it when the run ends. -/
def topActions : List (Action Bool) :=
  [.call false, .call true, .access false, .access true] ++
    (List.replicate 512 [.access true, .access false]).flatten ++
    [.ret false, .write highPage 3 7, .ret true, .free highPage, .call true, .access true,
      .access true]

theorem partitioned_of_run_top :
    ∃ c, run (allocStep topDynamic) (booted Bool topDynamic fun _ => 0) topActions = some c ∧
      c.held = [middlePage] ∧ c.taken = [highPage, middlePage] ∧
      ∃ free, Partitioned topDynamic c free := by
  have hsome : (run (allocStep topDynamic) (booted Bool topDynamic fun _ => 0) topActions).map
      (fun c => (c.held, c.taken)) = some ([middlePage], [highPage, middlePage]) := by
    rw [booted_top]
    decide +kernel
  obtain ⟨c, hrun, hpages⟩ := Option.map_eq_some_iff.mp hsome
  obtain ⟨hheld, htaken⟩ := Prod.mk.inj hpages
  exact ⟨c, hrun, hheld, htaken, partitioned_of_run hrun⟩

end Sample

end RiscvHypervisor.AllocatorPartition
