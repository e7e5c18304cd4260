import RiscvHypervisor.PageBudget

/-!
What happens when `kmalloc` is called with an empty free list: it clears the null
page, and on the machine this traps.  So neither `kmalloc` nor `walk` nor `map_pages`
comes back to report that memory ran out; but no leaf gets a frame that nobody gave.
-/

namespace RiscvHypervisor.MemoryExhaustion

open RiscvHypervisor.EffectProgram
open RiscvHypervisor.MachineTypes
open RiscvHypervisor.OwnedMemory
open RiscvHypervisor.UnmappedMemory
open RiscvHypervisor.KernelMemory
open RiscvHypervisor.PageTable
open RiscvHypervisor.NullPageTraps
open RiscvHypervisor.TableTree
open RiscvHypervisor.PageMapping
open RiscvHypervisor.AddressTranslation
open RiscvHypervisor.PageUpdate
open RiscvHypervisor.RangeCoverage
open RiscvHypervisor.PageBudget

/-- Out of memory, `kmalloc` returns the null pointer and writes nothing. -/
def KmallocHarmless (s : KernelMem) : Prop :=
  Exhausts (onMachine kmalloc) s → (exec heapHandler (onMachine kmalloc) s).1 = .ok (some 0) ∧
    ∀ x ∈ accesses heapHandler (onMachine kmalloc) s, ∀ p v, x.2 ≠ .store p v

/-- Out of memory, `walk` returns the null pointer. -/
def WalkHarmless (x4 : Int) (root va : Uint64) (alloc : Int) (s : KernelMem) : Prop :=
  Exhausts (onMachine (walk root va alloc x4)) s →
    (exec heapHandler (onMachine (walk root va alloc x4)) s).1 = .ok (some 0)

/-- Every leaf of `s'` is one of `s`, or it has a frame of the caller or one that
`kmalloc` has returned. -/
def FramesGiven (x4 : Int) (root pa : Uint64) (pages : Nat) (pteFlags : Int)
    (answered : Uint64 → Prop) (s s' : KernelMem) : Prop :=
  ∀ va' leaf, (exec heapHandler (findLeaf root va' x4) s').1 = .ok (some leaf) →
    (exec heapHandler (findLeaf root va' x4) s).1 = .ok (some leaf) ∨
    (pa ≠ 0 ∧ ∃ k < pages, leaf = leafEntry (pa + BitVec.ofNat 64 (4096 * k)) pteFlags) ∨
    (pa = 0 ∧ ∃ page ≠ 0, answered page ∧ leaf = leafEntry (kpa2pa page) pteFlags)

/-- No leaf that `map_pages` installs, whether it comes back or not, has a frame that
nobody gave. -/
def LeavesHarmless (x4 : Int) (root va pa size : Uint64) (pteFlags : Int) (s : KernelMem) : Prop :=
  FramesGiven x4 root pa ((pgroundup size).toNat / 4096) pteFlags
    (Answered (onMachine (mapPages root va pa size pteFlags x4)) s) s
    (exec heapHandler (onMachine (mapPages root va pa size pteFlags x4)) s).2

/-- Out of memory, `map_pages` returns -1, and every leaf that it installs has a
frame of the caller or one that `kmalloc` has returned. -/
structure MapPagesHarmless (x4 : Int) (root va pa size : Uint64) (pteFlags : Int)
    (s : KernelMem) : Prop where
  reported : Exhausts (onMachine (mapPages root va pa size pteFlags x4)) s →
    (exec heapHandler (onMachine (mapPages root va pa size pteFlags x4)) s).1 = .ok (some (-1))
  leaves : LeavesHarmless x4 root va pa size pteFlags s

def hasLastTable (x4 : Int) (root : Uint64) (s : KernelMem) (va : Uint64) : Bool :=
  match (exec heapHandler (walk root va 0 x4) s).1 with
  | .ok pte => pte ≠ 0
  | .error _ => false

def hasMiddleTable (x4 : Int) (root : Uint64) (s : KernelMem) (va : Uint64) : Bool :=
  s.mem (slot root (va2idx va 2 x4)) &&& pteV ≠ 0

/-- The tables that the first `k` pages of a range need and that are not there. -/
def missingTables (x4 : Int) (root va : Uint64) (s : KernelMem) (k : Nat) : Nat :=
  (((Finset.range k).filter fun j => hasLastTable x4 root s (pageAt va j) = false).image
      fun j => pageIndex x4 (pageAt va j) / 512).card +
    (((Finset.range k).filter fun j => hasMiddleTable x4 root s (pageAt va j) = false).image
      fun j => pageIndex x4 (pageAt va j) / 512 ^ 2).card

def HasFree (s : KernelMem) (n : Nat) : Prop :=
  ∃ free, Linked s.mem s.freelist free ∧ n ≤ free.length

/-- Wherever the pages before a page are different ones without a leaf, so that the
loop comes to it, there are enough free pages for these and the page: for the
missing tables, and for the frames where the caller gives none. -/
def Suffices (x4 : Int) (root va pa : Uint64) (s : KernelMem) (pages : Nat) : Prop :=
  ∀ k < pages, (∀ j < k, (exec heapHandler (findLeaf root (pageAt va j) x4) s).1 = .ok none) →
    (∀ j < k, ∀ i < j, pageIndex x4 (pageAt va i) ≠ pageIndex x4 (pageAt va j)) →
    HasFree s (framesFor pa (k + 1) + missingTables x4 root va s (k + 1))

section Supplies

variable {dynamic : DynamicSymbol} {x4 : Int} {root : Uint64} {others : List Uint64}
  {s : KernelMem} {home : Set Uint64} {T : Tables} {l l₀ : Share Uint64} {free : List Uint64}

theorem hasLastTable_eq_false_iff (h : Kept dynamic x4 root others s home T l l₀ free)
    (va : Uint64) :
    hasLastTable x4 root s va = false ↔ T 0 (pageIndex x4 va / 512) = none := by
  have hroot := (h.tree.root_iff 0 root).mpr ⟨rfl, rfl⟩
  have hwalk := exec_walkFrom h.tree h.agree va (Nat.le_refl 2) hroot (.inl rfl)
  have hlast : levels - 1 = 2 := rfl
  rw [hasLastTable, walk, if_neg (root_ne_zero h.tree), hlast, hwalk, pageIndex_div]
  cases htable : T 0 (leafKey va x4 2 0) with
  | none => simp
  | some page =>
      have hne := slot_ne_zero h.tree htable (va2idx_lt va (Nat.zero_le 2) x4)
      rw [Option.elim_some]
      exact ⟨fun hfalse => absurd (decide_eq_false_iff_not.mp hfalse) (not_not.mpr hne),
        fun hsome => absurd hsome (Option.some_ne_none page)⟩

theorem hasMiddleTable_eq_false_iff (h : Kept dynamic x4 root others s home T l l₀ free)
    (va : Uint64) :
    hasMiddleTable x4 root s va = false ↔ T 1 (pageIndex x4 va / 512 ^ 2) = none := by
  have hroot := (h.tree.root_iff 0 root).mpr ⟨rfl, rfl⟩
  have hidx := va2idx_lt va (Nat.le_refl 2) x4
  have howns := h.tree.owns (Nat.le_refl 2) hroot (slot_mem_words hidx)
  have hentry := h.tree.entry 1 (by decide) 0 root hroot _ hidx
  have hkey : pageIndex x4 va / 512 ^ 2 = 512 * 0 + (va2idx va 2 x4).toNat := by
    rw [show 512 ^ 2 = 512 * 512 ^ 1 from rfl, ← Nat.div_div_eq_div_mul, pageIndex_div, leafKey]
    exact leafKey_div va _ (by decide) _
  rw [hasMiddleTable, h.agree _ howns, hkey]
  cases htable : T 1 (512 * 0 + (va2idx va 2 x4).toNat) with
  | none =>
      rw [htable] at hentry
      have hinvalid : l.view (slot root (va2idx va 2 x4)) &&& pteV = 0 := hentry
      simp [hinvalid]
  | some page =>
      rw [htable] at hentry
      have hlink : l.view (slot root (va2idx va 2 x4)) = link page := hentry
      rw [hlink]
      exact ⟨fun hfalse => absurd (decide_eq_false_iff_not.mp hfalse) (not_not.mpr (link_and_pteV page)),
        fun hsome => absurd hsome (Option.some_ne_none page)⟩

theorem missingTables_eq (h : Kept dynamic x4 root others s home T l l₀ free) (va : Uint64)
    (k : Nat) :
    missingTables x4 root va s k = missing T (fun j => pageIndex x4 (pageAt va j)) k := by
  rw [missingTables, missing, Finset.filter_image, Finset.filter_image]
  simp only [hasLastTable_eq_false_iff h, hasMiddleTable_eq_false_iff h]

theorem hasFree_iff (h : Kept dynamic x4 root others s home T l l₀ free) (n : Nat) :
    HasFree s n ↔ n ≤ free.length := by
  constructor
  · rintro ⟨free', hlinked, hle⟩
    rwa [hlinked.unique h.separated.linked] at hle
  · exact fun hle => ⟨free, h.separated.linked, hle⟩

/-- `map_pages` runs out of memory exactly when the free pages do not suffice. -/
theorem suffices_iff (h : Kept dynamic x4 root others s home T l l₀ free) (va pa : Uint64)
    (pteFlags : Int) (pages : Nat) :
    Suffices x4 root va pa s pages ↔
      ¬ Exhausts (mapPagesLoop root va pa pteFlags x4 pages 0) s := by
  have hvacant : ∀ va', (exec heapHandler (findLeaf root va' x4) s).1 = .ok none ↔
      translation T l.view (pageIndex x4 va') = none := by
    intro va'
    rw [h.exec_findLeaf, Except.ok.injEq]
  rw [exhausts_mapPagesLoop_iff h]
  simp only [Suffices, hasFree_iff h, missingTables_eq h, hvacant]
  push Not
  rfl

theorem exhausts_walk_iff (h : Kept dynamic x4 root others s home T l l₀ free) (va : Uint64)
    (alloc : Int) :
    Exhausts (walk root va alloc x4) s ↔
      alloc ≠ 0 ∧ ¬ HasFree s (missingTables x4 root va s 1) := by
  have hfirst : pageAt va 0 = va := BitVec.add_zero va
  have hmissing : missingTables x4 root va s 1 = needed T (pageIndex x4 va) := by
    have hzero : missing T (fun j => pageIndex x4 (pageAt va j)) 0 = 0 := by simp [missing]
    rw [missingTables_eq h, missing_succ (reaches_zero T _), hzero, Nat.zero_add, hfirst]
  rw [hmissing, hasFree_iff h, Nat.not_le]
  rcases eq_or_ne alloc 0 with rfl | halloc
  · refine iff_of_false ?_ fun hand => hand.1 rfl
    exact not_exhausts_of_noPop (noPop_walk root va x4) s
  · rw [walk_of_alloc root va halloc x4, ← exhausts_mapPage_iff h va 0 0]
    exact ⟨fun hex => ⟨halloc, (exhausts_mapPage_walk_iff _ _ _ _ _ _).mpr hex⟩,
      fun hand => (exhausts_mapPage_walk_iff _ _ _ _ _ _).mp hand.2⟩

end Supplies

section Machine

variable {dynamic : DynamicSymbol} {x4 : Int} {root : Uint64} {others : List Uint64}
  {s : KernelMem} {home : Set Uint64} {T : Tables} {l l₀ : Share Uint64} {free : List Uint64}

theorem onMachine_cases {α : Type} (h : Kept dynamic x4 root others s home T l l₀ free)
    {p : KernelM α} {Q : α → Share Uint64 → Prop}
    (hp : Ensures (kernelLayout dynamic) False home p l Q) (hwrites : WritesAnswers p) :
    (Exhausts p s ∧ Traps nullWord p s) ∨ (¬ Exhausts p s ∧ Completes nullWord p s) :=
  exec_trapping h.homes (i := true) (fun _ hword => hword) (by decide) h.separated hp hwrites

/-- A call that runs out of memory does not report anything. -/
theorem reports_iff {α : Type} {p : KernelM α}
    (hcases : (Exhausts p s ∧ Traps nullWord p s) ∨ (¬ Exhausts p s ∧ Completes nullWord p s))
    (r : α) :
    (Exhausts (onMachine p) s → (exec heapHandler (onMachine p) s).1 = .ok (some r)) ↔
      ¬ Exhausts p s := by
  rcases hcases with ⟨hex, htraps⟩ | ⟨henough, hcompletes⟩
  · refine iff_of_false (fun hreports => ?_) (not_not.mpr hex)
    have hresult := htraps.result.symm.trans (hreports htraps.exhausts)
    cases hresult
  · exact iff_of_true (fun hex => absurd (hcompletes.exhausts_iff.mp hex) henough) henough

theorem kmalloc_cases (h : Kept dynamic x4 root others s home T l l₀ free) :
    (Exhausts kmalloc s ∧ Traps nullWord kmalloc s) ∨
      (¬ Exhausts kmalloc s ∧ Completes nullWord kmalloc s) :=
  onMachine_cases h (ensures_kmalloc l) writesAnswers_kmalloc

theorem frameFor_cases (h : Kept dynamic x4 root others s home T l l₀ free) (pa i : Uint64) :
    (Exhausts (frameFor pa i) s ∧ Traps nullWord (frameFor pa i) s) ∨
      (¬ Exhausts (frameFor pa i) s ∧ Completes nullWord (frameFor pa i) s) :=
  onMachine_cases h (ensures_frameFor h.tree pa i) (writesAnswers_frameFor pa i)

theorem walk_cases (h : Kept dynamic x4 root others s home T l l₀ free) (va : Uint64) {alloc : Int}
    (halloc : alloc ≠ 0) :
    (Exhausts (walk root va alloc x4) s ∧ Traps nullWord (walk root va alloc x4) s) ∨
      (¬ Exhausts (walk root va alloc x4) s ∧ Completes nullWord (walk root va alloc x4) s) := by
  have hroot := (h.tree.root_iff 0 root).mpr ⟨rfl, rfl⟩
  have hfrom : walk root va alloc x4 = walkFrom va alloc x4 2 root := if_neg (root_ne_zero h.tree)
  have hwalk : Ensures (kernelLayout dynamic) False home (walkFrom va alloc x4 2 root) l _ :=
    ensures_walkFrom halloc va (Nat.le_refl 2) h.tree hroot
  rw [← hfrom] at hwalk
  exact onMachine_cases h hwalk (writesAnswers_walk root va alloc x4)

theorem mapPage_cases (h : Kept dynamic x4 root others s home T l l₀ free) (va pa : Uint64)
    (pteFlags : Int) :
    (Exhausts (mapPage root va pa pteFlags x4) s ∧
        Traps nullWord (mapPage root va pa pteFlags x4) s) ∨
      (¬ Exhausts (mapPage root va pa pteFlags x4) s ∧
        Completes nullWord (mapPage root va pa pteFlags x4) s) :=
  onMachine_cases h (ensures_attempt_mapPage h.tree va pa pteFlags).of_attempt
    (writesAnswers_mapPage root va pa pteFlags x4)

theorem mapPagesLoop_cases (h : Kept dynamic x4 root others s home T l l₀ free) (va pa : Uint64)
    (pteFlags : Int) (pages : Nat) :
    (Exhausts (mapPagesLoop root va pa pteFlags x4 pages 0) s ∧
        Traps nullWord (mapPagesLoop root va pa pteFlags x4 pages 0) s) ∨
      (¬ Exhausts (mapPagesLoop root va pa pteFlags x4 pages 0) s ∧
        Completes nullWord (mapPagesLoop root va pa pteFlags x4 pages 0) s) :=
  onMachine_cases h (ensures_attempt_mapPagesLoop h.tree va pa pteFlags pages 0).of_attempt
    (writesAnswers_mapPagesLoop root va pa pteFlags x4 pages 0)

end Machine

section Leaves

variable {dynamic : DynamicSymbol} {x4 : Int} {root : Uint64} {others : List Uint64}
  {s t : KernelMem} {home : Set Uint64} {T T' : Tables} {l l' l₀ : Share Uint64}
  {free free' : List Uint64} {va pa : Uint64} {pteFlags : Int}

/-- The leaves of a run that does not run out of memory. -/
theorem framesGiven_of_enough (h : Kept dynamic x4 root others s home T l l₀ free) {pages : Nat}
    (henough : ¬ Exhausts (mapPagesLoop root va pa pteFlags x4 pages 0) s) :
    FramesGiven x4 root pa pages pteFlags (Answered (mapPagesLoop root va pa pteFlags x4 pages 0) s)
      s (exec heapHandler (mapPagesLoop root va pa pteFlags x4 pages 0) s).2 := by
  obtain ⟨T', l', free', hkept, ⟨pas, hmapped⟩, hconserved⟩ := h.exec_attempt
    (Q := fun T' r l' => ∃ pas, RangeMapped dynamic False x4 va pa pteFlags pages 0 T l T' l' pas r)
    ((ensures_attempt_mapPagesLoop h.tree va pa pteFlags pages 0).mono
      fun r l' ⟨T', pas, htree, hmapped⟩ => ⟨T', htree, pas, hmapped⟩) henough
  intro va' leaf hleaf
  rw [hkept.exec_findLeaf] at hleaf
  rw [h.exec_findLeaf]
  rcases (installAll_eq_some hmapped.install _ leaf).mp (Except.ok.inj hleaf) with hin | hold
  · right
    rcases ne_or_eq pa 0 with hpa | rfl
    · have hlength : pas.length ≤ pages := by
        rcases hmapped.result with ⟨-, hlength⟩ | ⟨-, -, hlength⟩ | ⟨-, hlength, -⟩ <;> omega
      rw [hmapped.mapped.given hpa, mem_mappings_linear_iff] at hin
      obtain ⟨k, hk, -, rfl⟩ := hin
      refine .inl ⟨hpa, k, by omega, ?_⟩
      congr 2
      exact BitVec.zero_add _
    · obtain ⟨tmp, htmp, rfl⟩ := exists_of_mem_mappings hin
      obtain ⟨frames, rfl, -, hframes, hfresh⟩ := hmapped.mapped.allocated rfl id
      obtain ⟨page, hpage, rfl⟩ := List.mem_map.mp htmp
      exact .inr ⟨rfl, page, ne_zero_of_validAddress (hframes.valid page hpage),
        (hconserved.answered page (hframes.held page hpage)).resolve_left (hfresh page hpage), rfl⟩
  · exact .inl (congrArg Except.ok hold)

/-- The table at the moment of the trap is the one that the call would leave behind. -/
theorem exists_trap {α : Type} {p : KernelM α} {r : α} (htraps : Traps nullWord p s)
    (hquits : Quits nullWord r p)
    (h : Kept dynamic x4 root others (exec heapHandler p s).2 home T l l₀ free) :
    ∃ t, exec heapHandler (onMachine p) s = (.ok none, t) ∧
      Kept dynamic x4 root others t home T l l₀ free := by
  obtain ⟨t, htrap, hhead, hmem⟩ := htraps.agree hquits
  refine ⟨t, htrap, h.homes, h.separated.congr_scratch h.homes (fun a ha => hmem a ?_) hhead, h.tree,
    h.others⟩
  rw [Bool.eq_false_iff]
  exact ha

/-- The round that runs out of memory traps, and there are no more leaves than
after the rounds before it. -/
theorem exists_trap_of_outOfPages {k : Nat}
    (hdone : RoundsDone dynamic x4 root others va pa pteFlags k s home T l l₀ free t T' l' free')
    (hout : OutOfPages dynamic x4 root others va pa pteFlags k home l₀ t T' l' free') (rounds : Nat) :
    ∃ t₂ T₂ l₂ free₂, exec heapHandler (onMachine (mapPagesLoop root va pa pteFlags x4 (rounds + 1)
        (0 + BitVec.ofNat 64 (4096 * k)))) t = (.ok none, t₂) ∧
      Kept dynamic x4 root others t₂ home T₂ l₂ l₀ free₂ ∧
      translation T₂ l₂.view = translation T' l'.view := by
  rw [mapPagesLoop]
  rcases hout.place with hex | ⟨tmp, t₁, l₁, free₁, hframe, hex⟩
  · obtain ⟨rfl, hempty⟩ := exhausts_frameFor_iff.mp hex
    have htrap : exec heapHandler (onMachine (frameFor 0 (0 + BitVec.ofNat 64 (4096 * k)))) t =
        (.ok none, t) := by
      rw [frameFor, if_pos rfl]
      exact exec_onMachine_trap (exec_onMachine_kmalloc hempty) _
    exact ⟨t, T', l', free', exec_onMachine_trap htrap _, hdone.after, rfl⟩
  · have hcompletes := ((frameFor_cases hdone.after pa _).resolve_left fun h => hframe.enough h.1).2
    obtain ⟨T₂, l₂, free₂, hkept, hmapped, -⟩ :=
      exec_mapPage_counted hframe.after (pageAt va k) tmp pteFlags
    have hreport := (quits_mapPage root (pageAt va k) tmp pteFlags x4).exec_eq hex
    have htraps := ((mapPage_cases hframe.after (pageAt va k) tmp pteFlags).resolve_right
      fun h => h.1 hex).2
    obtain ⟨t₂, htrap, hkept₂⟩ := exists_trap htraps (quits_mapPage root _ tmp pteFlags x4) hkept
    refine ⟨t₂, T₂, l₂, free₂, ?_, hkept₂, ?_⟩
    · rw [exec_onMachine_bind (hcompletes.exec_ok hframe.exec_eq), add_offset]
      exact exec_onMachine_trap htrap _
    · rcases hmapped.result with ⟨hr, -⟩ | ⟨-, -, -, -, htr⟩ | ⟨hr, -⟩
      · rw [hreport] at hr
        cases hr
      · exact htr.trans hframe.translation_eq
      · rw [hreport] at hr
        cases hr

/-- The leaves of a run that runs out of memory. -/
theorem framesGiven_of_exhausts (h : Kept dynamic x4 root others s home T l l₀ free) {pages : Nat}
    (hex : Exhausts (mapPagesLoop root va pa pteFlags x4 pages 0) s) :
    FramesGiven x4 root pa pages pteFlags
      (Answered (onMachine (mapPagesLoop root va pa pteFlags x4 pages 0)) s) s
      (exec heapHandler (onMachine (mapPagesLoop root va pa pteFlags x4 pages 0)) s).2 := by
  rcases rounds_cases h va pa pteFlags pages with
    ⟨t, T', l', free', hdone⟩ | ⟨k, hk, t, T', l', free', hdone, hout | hremap⟩
  · exact absurd hex hdone.enough
  · obtain ⟨rounds, rfl⟩ : ∃ rounds, pages = k + (rounds + 1) := ⟨pages - k - 1, by omega⟩
    obtain ⟨t₂, T₂, l₂, free₂, htrap, hkept₂, htr⟩ := exists_trap_of_outOfPages hdone hout rounds
    have hcompletes := ((mapPagesLoop_cases h va pa pteFlags k).resolve_left fun h => hdone.enough h.1).2
    have hfirst := hcompletes.exec_ok hdone.exec_eq
    rw [mapPagesLoop_add]
    rw [exec_onMachine_bind hfirst, if_neg (by decide), htrap]
    intro va' leaf hleaf
    have hgiven := framesGiven_of_enough h hdone.enough va' leaf
    rw [hdone.exec_eq, hdone.after.exec_findLeaf, ← htr] at hgiven
    rw [hkept₂.exec_findLeaf] at hleaf
    rcases hgiven hleaf with hold | ⟨hpa, j, hj, rfl⟩ | ⟨hpa, page, hpage, hanswered, rfl⟩
    · exact .inl hold
    · exact .inr (.inl ⟨hpa, j, by omega, rfl⟩)
    · refine .inr (.inr ⟨hpa, page, hpage, ?_, rfl⟩)
      rw [onMachine_bind]
      exact ((hcompletes.answered_iff page).mpr hanswered).bind hfirst _
  · obtain ⟨rounds, rfl⟩ : ∃ rounds, pages = k + (rounds + 1) := ⟨pages - k - 1, by omega⟩
    exact absurd hex (hremap.enough rounds)

theorem leavesHarmless (h : Kept dynamic x4 root others s home T l l₀ free) (va pa size : Uint64)
    (pteFlags : Int) : LeavesHarmless x4 root va pa size pteFlags s := by
  rcases mapPagesLoop_cases h va pa pteFlags ((pgroundup size).toNat / 4096) with
    ⟨hex, -⟩ | ⟨henough, hcompletes⟩
  · exact framesGiven_of_exhausts h hex
  · intro va' leaf hleaf
    have hgiven := framesGiven_of_enough h henough va' leaf
    rw [onMachine, mapPages, hcompletes.exec_eq] at hleaf
    refine (hgiven hleaf).imp_right (Or.imp_right ?_)
    rintro ⟨hpa, page, hpage, hanswered, rfl⟩
    exact ⟨hpa, page, hpage, (hcompletes.answered_iff page).mpr hanswered, rfl⟩

end Leaves

section Exhaustion

variable {dynamic : DynamicSymbol} {x4 : Int} {root : Uint64} {others : List Uint64}
  {s : KernelMem} {home : Set Uint64} {T : Tables} {l l₀ : Share Uint64} {free : List Uint64}

theorem kmallocHarmless_iff (h : Kept dynamic x4 root others s home T l l₀ free) :
    KmallocHarmless s ↔ s.freelist ≠ 0 := by
  rcases kmalloc_cases h with ⟨hex, htraps⟩ | ⟨henough, hcompletes⟩
  · refine iff_of_false (fun hharmless => ?_) (not_not.mpr ((exhausts_kmalloc_iff s).mp hex))
    have hresult := htraps.result.symm.trans (hharmless htraps.exhausts).1
    cases hresult
  · exact iff_of_true (fun hex => absurd (hcompletes.exhausts_iff.mp hex) henough)
      (mt (exhausts_kmalloc_iff s).mpr henough)

theorem walkHarmless_iff (h : Kept dynamic x4 root others s home T l l₀ free) (va : Uint64)
    (alloc : Int) :
    WalkHarmless x4 root va alloc s ↔ alloc = 0 ∨ HasFree s (missingTables x4 root va s 1) := by
  rcases eq_or_ne alloc 0 with rfl | halloc
  · refine iff_of_true (fun hex => ?_) (.inl rfl)
    exact absurd hex (not_exhausts_of_noPop ((noPop_walk root va x4).trapping _) s)
  · rw [WalkHarmless, reports_iff (walk_cases h va halloc), exhausts_walk_iff h]
    simp [halloc]

theorem mapPagesHarmless_iff (h : Kept dynamic x4 root others s home T l l₀ free)
    (va pa size : Uint64) (pteFlags : Int) :
    MapPagesHarmless x4 root va pa size pteFlags s ↔
      Suffices x4 root va pa s ((pgroundup size).toNat / 4096) := by
  rw [suffices_iff h va pa pteFlags, ← reports_iff (mapPagesLoop_cases h va pa pteFlags _) (-1)]
  exact ⟨fun hharmless => hharmless.reported,
    fun hreported => ⟨hreported, leavesHarmless h va pa size pteFlags⟩⟩

/-- Running out of memory is not reported: `kmalloc`, `walk` and `map_pages` do what
they should exactly where they do not run out of it.  But no leaf has a frame that
nobody gave. -/
theorem exhaustion_harmless_iff (h : TableState dynamic x4 root others s) :
    (KmallocHarmless s ↔ s.freelist ≠ 0) ∧
    (∀ va alloc, WalkHarmless x4 root va alloc s ↔
      alloc = 0 ∨ HasFree s (missingTables x4 root va s 1)) ∧
    (∀ va pa size pteFlags, MapPagesHarmless x4 root va pa size pteFlags s ↔
      Suffices x4 root va pa s ((pgroundup size).toNat / 4096)) ∧
    ∀ va pa size pteFlags, LeavesHarmless x4 root va pa size pteFlags s := by
  obtain ⟨home, T, l, l₀, free, hkept⟩ := h.kept
  exact ⟨kmallocHarmless_iff hkept, walkHarmless_iff hkept, mapPagesHarmless_iff hkept,
    leavesHarmless hkept⟩

end Exhaustion

section Sample

/-- The pages of the sample are used up by the tables of its first page. -/
theorem sampleMapped_freelist : sampleMapped.freelist = 0 := by decide +kernel

theorem not_hasFree_sampleMapped (n : Nat) : ¬ HasFree sampleMapped (n + 1) := by
  rintro ⟨free, hlinked, hle⟩
  have hnone : Linked sampleMapped.mem sampleMapped.freelist [] := sampleMapped_freelist
  rw [hlinked.unique hnone] at hle
  exact absurd hle (Nat.not_succ_le_zero n)

/-- The second page needs no more tables. -/
theorem exhaustion_harmless_mapped :
    WalkHarmless 1 sampleRoot 0x80001000 1 sampleMapped ∧
      MapPagesHarmless 1 sampleRoot 0x80001000 0x89000000 0x1000 30 sampleMapped := by
  obtain ⟨-, hwalk, hmapPages, -⟩ := exhaustion_harmless_iff sampleMapped_state
  have hmissing : missingTables 1 sampleRoot 0x80001000 sampleMapped 1 = 0 := by decide +kernel
  have hfree : HasFree sampleMapped 0 := ⟨[], sampleMapped_freelist, Nat.le_refl 0⟩
  constructor
  · rw [hwalk, hmissing]
    exact .inr hfree
  · rw [hmapPages]
    intro k hk _ _
    obtain rfl : k = 0 := Nat.lt_one_iff.mp hk
    have hneeds : framesFor 0x89000000 (0 + 1) = 0 := rfl
    rwa [hneeds, Nat.zero_add, Nat.zero_add, hmissing]

/-- With no free page left `kmalloc` traps, and so do a walk to a page that needs two
tables and `map_pages` for a frame of the second page. -/
theorem exhaustion_traps :
    TableState sampleDynamic 1 sampleRoot [] sampleMapped ∧
      ¬ KmallocHarmless sampleMapped ∧
      ¬ WalkHarmless 1 sampleRoot 0xc0000000 1 sampleMapped ∧
      ¬ MapPagesHarmless 1 sampleRoot 0x80001000 0 0x1000 30 sampleMapped ∧
      (exec heapHandler (onMachine kmalloc) sampleMapped).1.toOption = some none ∧
      (exec heapHandler (onMachine (walk sampleRoot 0xc0000000 1 1))
        sampleMapped).1.toOption = some none ∧
      (exec heapHandler (onMachine (mapPages sampleRoot 0x80001000 0 0x1000 30 1))
        sampleMapped).1.toOption = some none := by
  obtain ⟨home, T, l, l₀, free, hkept⟩ := sampleMapped_state.kept
  refine ⟨sampleMapped_state, ?_, ?_, ?_, by decide +kernel, by decide +kernel, by decide +kernel⟩
  · rw [kmallocHarmless_iff hkept]
    exact not_not.mpr sampleMapped_freelist
  · have hmissing : missingTables 1 sampleRoot 0xc0000000 sampleMapped 1 = 2 := by decide +kernel
    rw [walkHarmless_iff hkept, hmissing]
    exact not_or.mpr ⟨by decide, not_hasFree_sampleMapped 1⟩
  · have hmissing : missingTables 1 sampleRoot 0x80001000 sampleMapped 1 = 0 := by decide +kernel
    have hneeds : framesFor 0 (0 + 1) = 1 := rfl
    rw [mapPagesHarmless_iff hkept]
    intro hsuffices
    have hfree := hsuffices 0 (by decide) (fun _ hj => absurd hj (Nat.not_lt_zero _))
      fun _ hj => absurd hj (Nat.not_lt_zero _)
    rw [hneeds, Nat.zero_add, hmissing] at hfree
    exact not_hasFree_sampleMapped 0 hfree

end Sample

end RiscvHypervisor.MemoryExhaustion
