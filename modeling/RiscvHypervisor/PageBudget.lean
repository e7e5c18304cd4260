import RiscvHypervisor.NullPageTraps
import RiscvHypervisor.RangeCoverage

/-!
How many pages of the free list `map_page` and the rounds of `map_pages` take: one
for each table on the way to a page that is not there yet and, where `map_pages`
allocates the frames itself, one for each frame.
-/

namespace RiscvHypervisor.PageBudget

open RiscvHypervisor.EffectProgram
open RiscvHypervisor.MachineTypes
open RiscvHypervisor.OwnedMemory
open RiscvHypervisor.KernelMemory
open RiscvHypervisor.PageTable
open RiscvHypervisor.NullPageTraps
open RiscvHypervisor.TableTree
open RiscvHypervisor.PageMapping
open RiscvHypervisor.PageUpdate

section Rounds

/-- The round of `map_pages` for the page at offset `i`, and those after it. -/
theorem exec_mapPagesLoop_succ {x4 : Int} {root va pa tmp i : Uint64} {pteFlags rv : Int}
    {s s₁ s₂ : KernelMem} (pages : Nat) (hframe : exec heapHandler (frameFor pa i) s = (.ok tmp, s₁))
    (hmap : exec heapHandler (mapPage root (va + i) tmp pteFlags x4) s₁ = (.ok rv, s₂)) :
    exec heapHandler (mapPagesLoop root va pa pteFlags x4 (pages + 1) i) s =
        (if rv < 0 then (.ok (-1), s₂) else
          exec heapHandler (mapPagesLoop root va pa pteFlags x4 pages (i + pageSize)) s₂) ∧
      (Exhausts (mapPagesLoop root va pa pteFlags x4 (pages + 1) i) s ↔
        Exhausts (frameFor pa i) s ∨ Exhausts (mapPage root (va + i) tmp pteFlags x4) s₁ ∨
          (0 ≤ rv ∧ Exhausts (mapPagesLoop root va pa pteFlags x4 pages (i + pageSize)) s₂)) := by
  constructor
  · rw [mapPagesLoop, exec_bind_ok heapHandler hframe, exec_bind_ok heapHandler hmap]
    split <;> rfl
  · rw [mapPagesLoop, exhausts_bind_ok hframe, exhausts_bind_ok hmap]
    by_cases hrv : rv < 0
    · rw [if_pos hrv]
      simp [Int.not_le.mpr hrv]
    · rw [if_neg hrv]
      simp [Int.not_lt.mp hrv]

theorem exec_mapPagesLoop_error {x4 : Int} {root va pa tmp i : Uint64} {pteFlags : Int}
    {s s₁ s₂ : KernelMem} {message : String} (pages : Nat)
    (hframe : exec heapHandler (frameFor pa i) s = (.ok tmp, s₁))
    (hmap : exec heapHandler (mapPage root (va + i) tmp pteFlags x4) s₁ = (.error message, s₂)) :
    exec heapHandler (mapPagesLoop root va pa pteFlags x4 (pages + 1) i) s = (.error message, s₂) ∧
      (Exhausts (mapPagesLoop root va pa pteFlags x4 (pages + 1) i) s ↔
        Exhausts (frameFor pa i) s ∨ Exhausts (mapPage root (va + i) tmp pteFlags x4) s₁) := by
  constructor
  · rw [mapPagesLoop, exec_bind_ok heapHandler hframe, exec_bind_error heapHandler hmap]
  · rw [mapPagesLoop, exhausts_bind_ok hframe, exhausts_bind_error hmap]

/-- The first rounds of `map_pages` and then the others. -/
theorem mapPagesLoop_add (root va pa : Uint64) (pteFlags x4 : Int) (k rounds : Nat) (i : Uint64) :
    mapPagesLoop root va pa pteFlags x4 (k + rounds) i = (do
      let rv ← mapPagesLoop root va pa pteFlags x4 k i
      if rv < 0 then
        pure (-1)
      else
        mapPagesLoop root va pa pteFlags x4 rounds (i + BitVec.ofNat 64 (4096 * k))) := by
  induction k generalizing i with
  | zero =>
      have hzero : i + BitVec.ofNat 64 (4096 * 0) = i := BitVec.add_zero i
      rw [hzero, Nat.zero_add]
      rfl
  | succ k ih =>
      have hnext : i + pageSize + BitVec.ofNat 64 (4096 * k) =
          i + BitVec.ofNat 64 (4096 * (k + 1)) := by
        rw [BitVec.add_assoc, show pageSize = BitVec.ofNat 64 4096 from rfl, ← BitVec.ofNat_add,
          Nat.mul_succ, Nat.add_comm]
      rw [Nat.add_right_comm, mapPagesLoop, mapPagesLoop, Program.bind_assoc]
      congr 1
      funext tmp
      rw [Program.bind_assoc]
      congr 1
      funext rv
      split
      · rfl
      · rw [ih, hnext]

theorem exec_mapPagesLoop_add {x4 : Int} {root va pa : Uint64} {pteFlags : Int} {k : Nat}
    (rounds : Nat) {i : Uint64} {s t : KernelMem}
    (h : exec heapHandler (mapPagesLoop root va pa pteFlags x4 k i) s = (.ok 0, t)) :
    exec heapHandler (mapPagesLoop root va pa pteFlags x4 (k + rounds) i) s =
        exec heapHandler (mapPagesLoop root va pa pteFlags x4 rounds
          (i + BitVec.ofNat 64 (4096 * k))) t ∧
      (Exhausts (mapPagesLoop root va pa pteFlags x4 (k + rounds) i) s ↔
        Exhausts (mapPagesLoop root va pa pteFlags x4 k i) s ∨
          Exhausts (mapPagesLoop root va pa pteFlags x4 rounds
            (i + BitVec.ofNat 64 (4096 * k))) t) := by
  rw [mapPagesLoop_add, exec_bind_ok heapHandler h, exhausts_bind_ok h, if_neg (by decide)]
  exact ⟨rfl, .rfl⟩

end Rounds

section Tables

/-- The tables on the way to a page that are not there. -/
def needed (T : Tables) (n : Nat) : Nat :=
  (if T 0 (n / 512) = none then 1 else 0) + (if T 1 (n / 512 ^ 2) = none then 1 else 0)

/-- The tables on the way to a page that have been added. -/
def added (T T' : Tables) (n : Nat) : List Uint64 :=
  (if T 0 (n / 512) = none then (T' 0 (n / 512)).toList else []) ++
    (if T 1 (n / 512 ^ 2) = none then (T' 1 (n / 512 ^ 2)).toList else [])

theorem mem_added_iff (T T' : Tables) (n : Nat) (page : Uint64) :
    page ∈ added T T' n ↔ ∃ level < 2, T level (n / 512 ^ (level + 1)) = none ∧
      T' level (n / 512 ^ (level + 1)) = some page := by
  rw [added, List.mem_append]
  constructor
  · rintro (hpage | hpage)
    · split at hpage
      · rename_i hnone
        exact ⟨0, by decide, hnone, Option.mem_toList.mp hpage⟩
      · cases hpage
    · split at hpage
      · rename_i hnone
        exact ⟨1, by decide, hnone, Option.mem_toList.mp hpage⟩
      · cases hpage
  · rintro ⟨level, hlevel, hnone, hsome⟩
    obtain rfl | rfl : level = 0 ∨ level = 1 := by omega
    · have hlast : T 0 (n / 512) = none := hnone
      left
      rw [if_pos hlast]
      exact Option.mem_toList.mpr hsome
    · have hmiddle : T 1 (n / 512 ^ 2) = none := hnone
      right
      rw [if_pos hmiddle]
      exact Option.mem_toList.mpr hsome

variable {dynamic : DynamicSymbol} {x4 : Int} {root : Uint64} {home : Set Uint64}
  {T T' : Tables} {l l' : Share Uint64} {n : Nat}

theorem table_unique (h : TreeInv dynamic x4 root home T l) {level level' key key' : Nat}
    {page : Uint64} (hlevel : level < 2) (hlevel' : level' < 2) (hpage : T level key = some page)
    (hpage' : T level' key' = some page) : level = level' ∧ key = key' := by
  have hzero : ∀ {n}, n < 2 → (0 : Uint64).toNat < tableEntries x4 n := fun hn => by
    rw [TreeInv.tableEntries_of_lt hn]
    decide
  obtain ⟨hsame, hkey, -⟩ := h.slot_unique (Nat.le_of_lt hlevel) (Nat.le_of_lt hlevel') hpage hpage'
    (hzero hlevel) (hzero hlevel') rfl
  exact ⟨hsame, hkey⟩

theorem nodup_added (h : TreeInv dynamic x4 root home T' l') (T : Tables) (n : Nat) :
    (added T T' n).Nodup := by
  have hone : ∀ (c : Prop) [Decidable c] (o : Option Uint64), (if c then o.toList else []).Nodup := by
    intro c _ o
    split
    · cases o <;> simp
    · exact List.nodup_nil
  rw [added, List.nodup_append]
  refine ⟨hone _ _, hone _ _, ?_⟩
  rintro page hlow page' hhigh rfl
  split at hlow
  · split at hhigh
    · have hsame := table_unique h (by decide) (by decide) (Option.mem_toList.mp hlow)
        (Option.mem_toList.mp hhigh)
      exact absurd hsame.1 (by decide)
    · cases hhigh
  · cases hlow

/-- Above a last-level table there is a table. -/
theorem middle_ne_none (h : TreeInv dynamic x4 root home T l)
    (hlast : T 0 (n / 512) ≠ none) : T 1 (n / 512 ^ 2) ≠ none := by
  intro hnone
  refine hlast ?_
  have hkey : n / 512 = 512 * (n / 512 ^ 2) + n / 512 % 512 := by omega
  rw [hkey]
  exact h.closed _ hnone _ (Nat.mod_lt _ (by decide))

theorem length_added (h : TreeInv dynamic x4 root home T' l') (hlast : T' 0 (n / 512) ≠ none) :
    (added T T' n).length = needed T n := by
  obtain ⟨page, hpage⟩ := Option.ne_none_iff_exists'.mp hlast
  obtain ⟨page', hpage'⟩ := Option.ne_none_iff_exists'.mp (middle_ne_none h hlast)
  rw [added, needed, List.length_append, hpage, hpage']
  split <;> split <;> rfl

theorem length_added_lt (hgrows : Grows T l T' l') (hlast : T' 0 (n / 512) = none) :
    (added T T' n).length < needed T n := by
  have hnone : T 0 (n / 512) = none := by
    rw [Option.eq_none_iff_forall_ne_some]
    intro page hpage
    rw [hgrows.tables 0 _ page hpage] at hlast
    cases hlast
  rw [added, needed, if_pos hnone, if_pos hnone, hlast]
  split
  · cases T' 1 (n / 512 ^ 2) <;> simp
  · simp

end Tables

section Counts

variable {dynamic : DynamicSymbol} {x4 : Int} {root : Uint64} {others : List Uint64}
  {s : KernelMem} {home : Set Uint64} {T : Tables} {l l₀ : Share Uint64} {free : List Uint64}

theorem freelist_eq_zero_iff (h : Kept dynamic x4 root others s home T l l₀ free) :
    s.freelist = 0 ↔ free = [] := by
  constructor
  · intro hzero
    cases free with
    | nil => rfl
    | cons page rest =>
        obtain ⟨hhead, hne, -⟩ := h.separated.linked
        exact absurd (hhead.symm.trans hzero) hne
  · rintro rfl
    exact h.separated.linked

/-- What a call of `map_page` takes from the free list. -/
structure PageCounted (x4 : Int) (va : Uint64) (T : Tables) (free : List Uint64) (T' : Tables)
    (free' : List Uint64) (r : Except String Int) : Prop where
  table : ∀ level < 2, ∀ key,
    T' level key = T level key ∨ key = pageIndex x4 va / 512 ^ (level + 1)
  mapped : r = .ok 0 → T' 0 (pageIndex x4 va / 512) ≠ none ∧
    free.length = free'.length + needed T (pageIndex x4 va)
  short : r = .ok (-1) → free.length < needed T (pageIndex x4 va)

/-- The new blocks of a call of `map_page` are the tables that it added. -/
theorem mem_added_iff_of_mapped {fails : Prop} {va pa : Uint64} {pteFlags : Int} {T' : Tables}
    {l' : Share Uint64} {r : Except String Int} (h : TreeInv dynamic x4 root home T l)
    (h' : TreeInv dynamic x4 root home T' l')
    (hmapped : PageMapped fails x4 va pa pteFlags T l T' l' r) (page : Uint64) :
    page ∈ added T T' (pageIndex x4 va) ↔ page ∈ l'.blocks ∧ page ∉ l.blocks := by
  rw [mem_added_iff]
  constructor
  · rintro ⟨level, hlevel, hnone, hsome⟩
    exact ⟨h'.held level hlevel _ page hsome, hmapped.fresh level hlevel _ page hnone hsome⟩
  · rintro ⟨hheld, hnot⟩
    obtain ⟨extra, hlength, hfrom⟩ := hmapped.accounted
    rw [Nat.le_zero, List.length_eq_zero_iff] at hlength
    subst hlength
    rcases hfrom page hheld with hold | hextra | ⟨m, hm, level, hlevel, hsome⟩
    · exact absurd hold hnot
    · cases hextra
    · rw [List.mem_singleton] at hm
      subst hm
      refine ⟨level, hlevel, ?_, hsome⟩
      rw [Option.eq_none_iff_forall_ne_some]
      intro old hold
      obtain rfl : old = page :=
        Option.some.inj ((hmapped.tables level _ old hold).symm.trans hsome)
      exact hnot (h.held level hlevel _ old hold)

/-- Every table that is not on the way to the page was there before. -/
theorem table_of_mapped {fails : Prop} {va pa : Uint64} {pteFlags : Int} {T' : Tables}
    {l' : Share Uint64} {r : Except String Int} (h : TreeInv dynamic x4 root home T l)
    (h' : TreeInv dynamic x4 root home T' l')
    (hmapped : PageMapped fails x4 va pa pteFlags T l T' l' r) {level : Nat} (hlevel : level < 2)
    (key : Nat) : T' level key = T level key ∨ key = pageIndex x4 va / 512 ^ (level + 1) := by
  cases hold : T level key with
  | some page => exact .inl (hmapped.tables level key page hold)
  | none =>
      cases hnew : T' level key with
      | none => exact .inl rfl
      | some page =>
          have hadded := (mem_added_iff_of_mapped h h' hmapped page).mpr
            ⟨h'.held level hlevel key page hnew, hmapped.fresh level hlevel key page hold hnew⟩
          obtain ⟨level', hlevel', -, hsome⟩ := (mem_added_iff _ _ _ _).mp hadded
          obtain ⟨rfl, rfl⟩ := table_unique h' hlevel hlevel' hnew hsome
          exact .inr rfl

theorem exec_mapPage_counted (h : Kept dynamic x4 root others s home T l l₀ free)
    (va pa : Uint64) (pteFlags : Int) :
    ∃ T' l' free', Kept dynamic x4 root others
        (exec heapHandler (mapPage root va pa pteFlags x4) s).2 home T' l' l₀ free' ∧
      PageMapped (Exhausts (mapPage root va pa pteFlags x4) s) x4 va pa pteFlags T l T' l'
        (exec heapHandler (mapPage root va pa pteFlags x4) s).1 ∧
      PageCounted x4 va T free T' free' (exec heapHandler (mapPage root va pa pteFlags x4) s).1 := by
  obtain ⟨T', l', free', hkept, hmapped, hconserved⟩ := h.exec_attempt
    (ensures_attempt_mapPage h.tree va pa pteFlags) id
  have hsep := hkept.separated
  rw [← pair_update_true l l₀ l'] at hsep
  have hperm := hconserved.free_perm h.separated hsep hmapped.blocks
    (nodup_added hkept.tree T (pageIndex x4 va)) (mem_added_iff_of_mapped h.tree hkept.tree hmapped)
  have hlength := hperm.length_eq
  rw [List.length_append] at hlength
  refine ⟨T', l', free', hkept, hmapped,
    fun level hlevel key => table_of_mapped h.tree hkept.tree hmapped hlevel key, fun hok => ?_,
    fun hfail => ?_⟩
  · rcases hmapped.result with ⟨-, -, htr⟩ | ⟨-, hr, -⟩ | ⟨hr, -⟩
    · have hlast : T' 0 (pageIndex x4 va / 512) ≠ none := by
        intro hnone
        have hleaf := congrFun htr (pageIndex x4 va)
        rw [translation, hnone, Function.update_self] at hleaf
        cases hleaf
      rw [length_added hkept.tree hlast] at hlength
      exact ⟨hlast, hlength⟩
    · rw [hok] at hr
      cases hr
    · rw [hok] at hr
      cases hr
  · rcases hmapped.result with ⟨hr, -⟩ | ⟨hex, -, hnone, -⟩ | ⟨hr, -⟩
    · rw [hfail] at hr
      cases hr
    · have hempty := (freelist_eq_zero_iff hkept).mp
        (freelist_of_exhausts (uses_mapPage root va pa pteFlags x4) hex)
      rw [hempty, List.length_nil, Nat.zero_add] at hlength
      rw [hlength]
      exact length_added_lt hmapped.toGrows hnone
    · rw [hfail] at hr
      cases hr

/-- The tables on the way to a leaf are there. -/
theorem needed_of_translation (h : TreeInv dynamic x4 root home T l) {n : Nat}
    (hsome : translation T l.view n ≠ none) : needed T n = 0 := by
  have hlast : T 0 (n / 512) ≠ none := by
    intro hnone
    refine hsome ?_
    rw [translation, hnone]
    rfl
  rw [needed, if_neg hlast, if_neg (middle_ne_none h hlast)]

/-- `map_page` runs out of memory when there are not enough free pages for the tables. -/
theorem exhausts_mapPage_iff (h : Kept dynamic x4 root others s home T l l₀ free) (va pa : Uint64)
    (pteFlags : Int) :
    Exhausts (mapPage root va pa pteFlags x4) s ↔ free.length < needed T (pageIndex x4 va) := by
  obtain ⟨T', l', free', hkept, hmapped, hcounted⟩ := exec_mapPage_counted h va pa pteFlags
  constructor
  · exact fun hex => hcounted.short ((quits_mapPage root va pa pteFlags x4).exec_eq hex)
  · intro hshort
    rcases hmapped.result with ⟨hr, -⟩ | ⟨hex, -⟩ | ⟨-, hsome, -⟩
    · have hcount := (hcounted.mapped hr).2
      omega
    · exact hex
    · rw [needed_of_translation h.tree hsome] at hshort
      omega

end Counts

section Supplies

/-- The page after the first `k` of a range. -/
def pageAt (va : Uint64) (k : Nat) : Uint64 := va + BitVec.ofNat 64 (4096 * k)

/-- The tables that the first `k` of some pages need and that are not there. -/
def missing (T : Tables) (index : Nat → Nat) (k : Nat) : Nat :=
  (((Finset.range k).image fun j => index j / 512).filter fun key => T 0 key = none).card +
    (((Finset.range k).image fun j => index j / 512 ^ 2).filter fun key => T 1 key = none).card

/-- The tables are those of before and those on the way to the first `k` pages. -/
structure Reaches (T : Tables) (index : Nat → Nat) (k : Nat) (T' : Tables) : Prop where
  last : ∀ key, T' 0 key = none ↔ T 0 key = none ∧ ∀ j < k, key ≠ index j / 512
  middle : ∀ key, T' 1 key = none ↔ T 1 key = none ∧ ∀ j < k, key ≠ index j / 512 ^ 2

theorem card_filter_succ (P : Nat → Prop) [DecidablePred P] (key : Nat → Nat) (k : Nat) :
    (((Finset.range (k + 1)).image key).filter P).card =
      (((Finset.range k).image key).filter P).card +
        if P (key k) ∧ ∀ j < k, key k ≠ key j then 1 else 0 := by
  rw [Finset.range_add_one, Finset.image_insert, Finset.filter_insert]
  by_cases hP : P (key k)
  · rw [if_pos hP]
    by_cases hnew : ∀ j < k, key k ≠ key j
    · rw [if_pos ⟨hP, hnew⟩, Finset.card_insert_of_notMem]
      intro hmem
      obtain ⟨j, hj, heq⟩ := Finset.mem_image.mp (Finset.mem_of_mem_filter _ hmem)
      exact hnew j (Finset.mem_range.mp hj) heq.symm
    · rw [if_neg fun hand => hnew hand.2, Finset.insert_eq_of_mem, Nat.add_zero]
      obtain ⟨j, hj, heq⟩ : ∃ j < k, key k = key j := by simpa using hnew
      exact Finset.mem_filter.mpr
        ⟨Finset.mem_image.mpr ⟨j, Finset.mem_range.mpr hj, heq.symm⟩, hP⟩
  · rw [if_neg hP, if_neg fun hand => hP hand.1, Nat.add_zero]

/-- One page more needs what is not there after the others. -/
theorem missing_succ {T T' : Tables} {index : Nat → Nat} {k : Nat} (h : Reaches T index k T') :
    missing T index (k + 1) = missing T index k + needed T' (index k) := by
  have hlast : (if T 0 (index k / 512) = none ∧ ∀ j < k, index k / 512 ≠ index j / 512 then 1 else 0) =
      if T' 0 (index k / 512) = none then 1 else 0 := if_congr (h.last _).symm rfl rfl
  have hmiddle : (if T 1 (index k / 512 ^ 2) = none ∧ ∀ j < k, index k / 512 ^ 2 ≠ index j / 512 ^ 2
      then 1 else 0) = if T' 1 (index k / 512 ^ 2) = none then 1 else 0 :=
    if_congr (h.middle _).symm rfl rfl
  rw [missing, missing, needed, card_filter_succ (fun key => T 0 key = none) (fun j => index j / 512),
    card_filter_succ (fun key => T 1 key = none) (fun j => index j / 512 ^ 2), hlast, hmiddle]
  omega

variable {dynamic : DynamicSymbol} {x4 : Int} {root : Uint64} {others : List Uint64}
  {s : KernelMem} {home : Set Uint64} {T : Tables} {l l₀ : Share Uint64} {free : List Uint64}

theorem reaches_zero (T : Tables) (index : Nat → Nat) : Reaches T index 0 T where
  last key := by simp
  middle key := by simp

theorem reaches_succ {T' T'' : Tables} {l' : Share Uint64} {index : Nat → Nat} {k : Nat}
    (h : Reaches T index k T') (htree : TreeInv dynamic x4 root home T'' l')
    (hgrows : ∀ level key page, T' level key = some page → T'' level key = some page)
    (htable : ∀ level < 2, ∀ key, T'' level key = T' level key ∨ key = index k / 512 ^ (level + 1))
    (hlast : T'' 0 (index k / 512) ≠ none) : Reaches T index (k + 1) T'' := by
  have hsplit : ∀ level < 2, T'' level (index k / 512 ^ (level + 1)) ≠ none → ∀ key,
      T'' level key = none ↔ T' level key = none ∧ key ≠ index k / 512 ^ (level + 1) := by
    intro level hlevel hsome key
    constructor
    · intro hnone
      refine ⟨?_, ?_⟩
      · rw [Option.eq_none_iff_forall_ne_some]
        intro page hpage
        rw [hgrows level key page hpage] at hnone
        cases hnone
      · rintro rfl
        exact hsome hnone
    · rintro ⟨hnone, hne⟩
      rw [(htable level hlevel key).resolve_right hne, hnone]
  constructor
  · intro key
    rw [hsplit 0 (by decide) hlast key, h.last, Nat.forall_lt_succ_right, and_assoc]
    rfl
  · intro key
    rw [hsplit 1 (by decide) (middle_ne_none htree hlast) key, h.middle, Nat.forall_lt_succ_right,
      and_assoc]

/-- The frames that some pages take from the free list. -/
def framesFor (pa : Uint64) (pages : Nat) : Nat := if pa = 0 then pages else 0

theorem framesFor_add (pa : Uint64) (k k' : Nat) :
    framesFor pa (k + k') = framesFor pa k + framesFor pa k' := by
  rw [framesFor, framesFor, framesFor]
  split <;> rfl

theorem exhausts_frameFor_iff {pa i : Uint64} :
    Exhausts (frameFor pa i) s ↔ pa = 0 ∧ s.freelist = 0 := by
  rcases ne_or_eq pa 0 with hpa | rfl
  · rw [frameFor, if_neg hpa]
    exact iff_of_false (not_exhausts_done _ s) fun hand => hpa hand.1
  · obtain ⟨s₁, hexec⟩ := exec_kmalloc s
    rw [frameFor, if_pos rfl, ← exhausts_kmalloc_iff, eq_self_iff_true, true_and]
    exact (exhausts_bind_ok hexec).trans (or_iff_left (not_exhausts_done _ _))

/-- The frame for the next page, when there is one. -/
structure FrameTaken (dynamic : DynamicSymbol) (x4 : Int) (root : Uint64) (others : List Uint64)
    (pa i : Uint64) (s : KernelMem) (home : Set Uint64) (T : Tables) (l l₀ : Share Uint64)
    (free : List Uint64) (tmp : Uint64) (s₁ : KernelMem) (l₁ : Share Uint64)
    (free₁ : List Uint64) : Prop where
  exec_eq : exec heapHandler (frameFor pa i) s = (.ok tmp, s₁)
  enough : ¬ Exhausts (frameFor pa i) s
  after : Kept dynamic x4 root others s₁ home T l₁ l₀ free₁
  translation_eq : translation T l₁.view = translation T l.view
  taken : free.length = free₁.length + framesFor pa 1

theorem exec_frameFor (h : Kept dynamic x4 root others s home T l l₀ free) (pa i : Uint64) :
    (Exhausts (frameFor pa i) s ∧ free.length < framesFor pa 1) ∨
      ∃ tmp s₁ l₁ free₁,
        FrameTaken dynamic x4 root others pa i s home T l l₀ free tmp s₁ l₁ free₁ := by
  rcases ne_or_eq pa 0 with hpa | rfl
  · have hframe : frameFor pa i = pure (pa + i) := if_neg hpa
    have hgiven : framesFor pa 1 = 0 := if_neg hpa
    refine .inr ⟨pa + i, s, l, free, ?_, fun hex => hpa (exhausts_frameFor_iff.mp hex).1, h, rfl, ?_⟩
    · rw [hframe]
      rfl
    · rw [hgiven, Nat.add_zero]
  · have hone : framesFor 0 1 = 1 := rfl
    rcases eq_or_ne s.freelist 0 with hzero | hne
    · left
      rw [exhausts_frameFor_iff, (freelist_eq_zero_iff h).mp hzero, hone]
      exact ⟨⟨rfl, hzero⟩, Nat.one_pos⟩
    · right
      obtain ⟨s₁, hexec⟩ := exec_kmalloc s
      have hframe : exec heapHandler (frameFor 0 i) s = (.ok (kpa2pa s.freelist), s₁) := by
        rw [frameFor, if_pos rfl]
        exact exec_bind_ok heapHandler hexec
      obtain ⟨l₁, free₁, hsep, hpage, hconserved⟩ := h.separated.exec h.homes (i := true)
        (ensures_kmalloc l) (exhausts_kmalloc_iff s).mp hexec
      have hsep' := hsep
      rw [pair_update_true] at hsep'
      rcases hpage with ⟨hvalid, hfresh, rfl⟩ | ⟨hzero, -⟩
      · have hnot := h.separated.freelist_notMem_blocks hne true
        refine ⟨_, s₁, _, free₁, hframe, ?_, ⟨h.homes, hsep', treeInv_grant h.tree hfresh, h.others⟩,
          translation_of_extends (extends_grant h.tree hfresh), ?_⟩
        · exact fun hex => hne (exhausts_frameFor_iff.mp hex).2
        · have hperm : free.Perm (free₁ ++ [s.freelist]) := by
            refine hconserved.free_perm h.separated hsep
              (fun page hmem => List.mem_cons_of_mem _ hmem) (List.nodup_singleton _) fun page => ?_
            rw [List.mem_singleton]
            constructor
            · rintro rfl
              exact ⟨by simp [Share.grant], hnot⟩
            · rintro ⟨hmem, hold⟩
              exact (List.mem_cons.mp hmem).resolve_right hold
          rw [hperm.length_eq, List.length_append, List.length_singleton, hone]
      · exact absurd hzero hne

/-- The leaves are those of before and those of the first `k` pages. -/
def Fills (tr : Translation) (index : Nat → Nat) (k : Nat) (tr' : Translation) : Prop :=
  ∀ n, tr' n = none ↔ tr n = none ∧ ∀ j < k, n ≠ index j

theorem fills_succ {tr tr' tr'' : Translation} {index : Nat → Nat} {k : Nat} {leaf : Uint64}
    (h : Fills tr index k tr') (htr : tr'' = Function.update tr' (index k) (some leaf)) :
    Fills tr index (k + 1) tr'' := by
  intro n
  rw [htr, Nat.forall_lt_succ_right, ← and_assoc, ← h]
  rcases eq_or_ne n (index k) with rfl | hn
  · simp
  · simp [hn]

/-- The first `k` rounds of `map_pages` went through. -/
structure RoundsDone (dynamic : DynamicSymbol) (x4 : Int) (root : Uint64) (others : List Uint64)
    (va pa : Uint64) (pteFlags : Int) (k : Nat) (s : KernelMem) (home : Set Uint64) (T : Tables)
    (l l₀ : Share Uint64) (free : List Uint64) (t : KernelMem) (T' : Tables) (l' : Share Uint64)
    (free' : List Uint64) : Prop where
  exec_eq : exec heapHandler (mapPagesLoop root va pa pteFlags x4 k 0) s = (.ok 0, t)
  enough : ¬ Exhausts (mapPagesLoop root va pa pteFlags x4 k 0) s
  after : Kept dynamic x4 root others t home T' l' l₀ free'
  vacant : ∀ j < k, translation T l.view (pageIndex x4 (pageAt va j)) = none
  distinct : ∀ j < k, ∀ i < j, pageIndex x4 (pageAt va i) ≠ pageIndex x4 (pageAt va j)
  reaches : Reaches T (fun j => pageIndex x4 (pageAt va j)) k T'
  fills : Fills (translation T l.view) (fun j => pageIndex x4 (pageAt va j)) k
    (translation T' l'.view)
  taken : free.length =
    free'.length + (framesFor pa k + missing T (fun j => pageIndex x4 (pageAt va j)) k)

theorem add_offset (va : Uint64) (k : Nat) :
    va + (0 + BitVec.ofNat 64 (4096 * k)) = pageAt va k := by
  rw [pageAt]
  congr 1
  exact BitVec.zero_add _

variable {va pa : Uint64} {pteFlags : Int} {k : Nat} {t : KernelMem} {T' : Tables}
  {l' : Share Uint64} {free' : List Uint64}

theorem roundsDone_zero (h : Kept dynamic x4 root others s home T l l₀ free) (va pa : Uint64)
    (pteFlags : Int) :
    RoundsDone dynamic x4 root others va pa pteFlags 0 s home T l l₀ free s T l free where
  exec_eq := rfl
  enough := not_exhausts_done 0 s
  after := h
  vacant _ hj := absurd hj (Nat.not_lt_zero _)
  distinct _ hj := absurd hj (Nat.not_lt_zero _)
  reaches := reaches_zero T _
  fills n := by simp
  taken := by simp [missing, framesFor]

/-- The round after the first `k` runs out of memory, at its frame or at a table. -/
structure OutOfPages (dynamic : DynamicSymbol) (x4 : Int) (root : Uint64) (others : List Uint64)
    (va pa : Uint64) (pteFlags : Int) (k : Nat) (home : Set Uint64) (l₀ : Share Uint64)
    (t : KernelMem) (T' : Tables) (l' : Share Uint64) (free' : List Uint64) : Prop where
  short : free'.length < framesFor pa 1 + needed T' (pageIndex x4 (pageAt va k))
  place : Exhausts (frameFor pa (0 + BitVec.ofNat 64 (4096 * k))) t ∨
    ∃ tmp t₁ l₁ free₁, FrameTaken dynamic x4 root others pa (0 + BitVec.ofNat 64 (4096 * k)) t home T'
      l' l₀ free' tmp t₁ l₁ free₁ ∧ Exhausts (mapPage root (pageAt va k) tmp pteFlags x4) t₁

/-- The round after the first `k` comes to a page that has a leaf. -/
structure Remaps (x4 : Int) (root va pa : Uint64) (pteFlags : Int) (k : Nat) (s : KernelMem)
    (T' : Tables) (l' : Share Uint64) (free' : List Uint64) : Prop where
  mapped : translation T' l'.view (pageIndex x4 (pageAt va k)) ≠ none
  afford : framesFor pa 1 + needed T' (pageIndex x4 (pageAt va k)) ≤ free'.length
  enough : ∀ rounds, ¬ Exhausts (mapPagesLoop root va pa pteFlags x4 (k + (rounds + 1)) 0) s
  panics : ∀ rounds, (exec heapHandler
    (mapPagesLoop root va pa pteFlags x4 (k + (rounds + 1)) 0) s).1 = .error "tried to remap page"

/-- One more round: it goes through, it runs out of memory, or it comes to a page
that has a leaf. -/
theorem roundsDone_step
    (h : RoundsDone dynamic x4 root others va pa pteFlags k s home T l l₀ free t T' l' free') :
    (∃ t₂ T₂ l₂ free₂, RoundsDone dynamic x4 root others va pa pteFlags (k + 1) s home T l l₀ free
        t₂ T₂ l₂ free₂) ∨
      OutOfPages dynamic x4 root others va pa pteFlags k home l₀ t T' l' free' ∨
      Remaps x4 root va pa pteFlags k s T' l' free' := by
  rcases exec_frameFor h.after pa (0 + BitVec.ofNat 64 (4096 * k)) with
    ⟨hexhausts, hshort⟩ | ⟨tmp, t₁, l₁, free₁, hframe⟩
  · exact .inr (.inl ⟨by omega, .inl hexhausts⟩)
  · obtain ⟨T₂, l₂, free₂, hkept₂, hmapped, hcounted⟩ :=
      exec_mapPage_counted hframe.after (pageAt va k) tmp pteFlags
    rcases hmap : exec heapHandler (mapPage root (pageAt va k) tmp pteFlags x4) t₁ with ⟨r, t₂⟩
    rw [hmap] at hkept₂ hmapped hcounted
    have hreports : Exhausts (mapPage root (pageAt va k) tmp pteFlags x4) t₁ → r = .ok (-1) := by
      intro hex
      have hreport := (quits_mapPage root (pageAt va k) tmp pteFlags x4).exec_eq hex
      rwa [hmap] at hreport
    have hmap' := hmap
    rw [← add_offset] at hmap' hreports
    have htr := hmapped.result
    rw [hframe.translation_eq] at htr
    have hfree := hframe.taken
    rcases htr with ⟨rfl, hvacant, htr⟩ | ⟨hexhausts, rfl, -⟩ | ⟨rfl, hsome, rfl, rfl⟩
    · obtain ⟨hlast, hcount⟩ := hcounted.mapped rfl
      have htaken := h.taken
      have hsucc := missing_succ h.reaches
      have hframes := framesFor_add pa k 1
      obtain ⟨hround, hroundEx⟩ := exec_mapPagesLoop_succ 0 hframe.exec_eq hmap'
      obtain ⟨hadd, haddEx⟩ := exec_mapPagesLoop_add 1 h.exec_eq
      obtain ⟨hold, hnew⟩ := (h.fills _).mp hvacant
      refine .inl ⟨t₂, T₂, l₂, free₂, hadd.trans hround, ?_, hkept₂,
        Nat.forall_lt_succ_right.mpr ⟨h.vacant, hold⟩,
        Nat.forall_lt_succ_right.mpr ⟨h.distinct, fun j hj => (hnew j hj).symm⟩,
        reaches_succ h.reaches hkept₂.tree hmapped.tables hcounted.table hlast,
        fills_succ h.fills htr, by omega⟩
      rw [haddEx, hroundEx]
      rintro (hex | hex | hex | ⟨-, hex⟩)
      · exact h.enough hex
      · exact hframe.enough hex
      · cases hreports hex
      · exact not_exhausts_done _ _ hex
    · have hshort := hcounted.short rfl
      exact .inr (.inl ⟨by omega, .inr ⟨tmp, t₁, l₁, free₁, hframe, hexhausts⟩⟩)
    · have hneeded := needed_of_translation h.after.tree hsome
      refine .inr (.inr ⟨hsome, by omega, fun rounds => ?_, fun rounds => ?_⟩)
      · rw [(exec_mapPagesLoop_add (rounds + 1) h.exec_eq).2,
          (exec_mapPagesLoop_error rounds hframe.exec_eq hmap').2]
        rintro (hex | hex | hex)
        · exact h.enough hex
        · exact hframe.enough hex
        · cases hreports hex
      · rw [(exec_mapPagesLoop_add (rounds + 1) h.exec_eq).1,
          (exec_mapPagesLoop_error rounds hframe.exec_eq hmap').1]

/-- All rounds go through, or the rounds up to one that does not. -/
theorem rounds_cases (h : Kept dynamic x4 root others s home T l l₀ free) (va pa : Uint64)
    (pteFlags : Int) (pages : Nat) :
    (∃ t T' l' free',
        RoundsDone dynamic x4 root others va pa pteFlags pages s home T l l₀ free t T' l' free') ∨
      ∃ k < pages, ∃ t T' l' free',
        RoundsDone dynamic x4 root others va pa pteFlags k s home T l l₀ free t T' l' free' ∧
          (OutOfPages dynamic x4 root others va pa pteFlags k home l₀ t T' l' free' ∨
            Remaps x4 root va pa pteFlags k s T' l' free') := by
  induction pages with
  | zero => exact .inl ⟨s, T, l, free, roundsDone_zero h va pa pteFlags⟩
  | succ pages ih =>
      rcases ih with ⟨t, T', l', free', hdone⟩ | ⟨k, hk, hstopped⟩
      · rcases roundsDone_step hdone with hnext | hends
        · exact .inl hnext
        · exact .inr ⟨pages, Nat.lt_succ_self _, t, T', l', free', hdone, hends⟩
      · exact .inr ⟨k, Nat.lt_succ_of_lt hk, hstopped⟩

/-- What the rounds up to a page need, with that page. -/
theorem OutOfPages.lt
    (h : OutOfPages dynamic x4 root others va pa pteFlags k home l₀ t T' l' free')
    (hdone : RoundsDone dynamic x4 root others va pa pteFlags k s home T l l₀ free t T' l' free') :
    free.length < framesFor pa (k + 1) + missing T (fun j => pageIndex x4 (pageAt va j)) (k + 1) := by
  have hshort := h.short
  have htaken := hdone.taken
  have hsucc := missing_succ hdone.reaches
  have hframes := framesFor_add pa k 1
  omega

theorem OutOfPages.exhausts
    (h : OutOfPages dynamic x4 root others va pa pteFlags k home l₀ t T' l' free')
    (hdone : RoundsDone dynamic x4 root others va pa pteFlags k s home T l l₀ free t T' l' free')
    (rounds : Nat) : Exhausts (mapPagesLoop root va pa pteFlags x4 (k + (rounds + 1)) 0) s := by
  refine (exec_mapPagesLoop_add (rounds + 1) hdone.exec_eq).2.mpr (.inr ?_)
  rcases h.place with hframe | ⟨tmp, t₁, l₁, free₁, hframe, hexhausts⟩
  · obtain ⟨tmp, t₁, hexec⟩ := (neverPanics_frameFor pa _).exec_ok heapHandler t
    rw [mapPagesLoop]
    exact (exhausts_bind_ok hexec).mpr (.inl hframe)
  · rw [← add_offset] at hexhausts
    rw [mapPagesLoop]
    refine (exhausts_bind_ok hframe.exec_eq).mpr (.inr ?_)
    rcases hmap : exec heapHandler (mapPage root
        (va + (0 + BitVec.ofNat 64 (4096 * k))) tmp pteFlags x4) t₁ with ⟨message | rv, t₂⟩
    · exact (exhausts_bind_error hmap).mpr hexhausts
    · exact (exhausts_bind_ok hmap).mpr (.inl hexhausts)

/-- The page that the rounds came to has a leaf of before or is one of theirs. -/
theorem Remaps.mapped_or (h : Remaps x4 root va pa pteFlags k s T' l' free')
    (hdone : RoundsDone dynamic x4 root others va pa pteFlags k s home T l l₀ free t T' l' free') :
    translation T l.view (pageIndex x4 (pageAt va k)) ≠ none ∨
      ∃ j < k, pageIndex x4 (pageAt va j) = pageIndex x4 (pageAt va k) := by
  have hmapped := h.mapped
  rw [ne_eq, hdone.fills, not_and_or] at hmapped
  refine hmapped.imp_right fun hall => ?_
  push Not at hall
  obtain ⟨j, hj, heq⟩ := hall
  exact ⟨j, hj, heq.symm⟩

/-- `map_pages` runs out of memory at a page when those before it are different ones
without a leaf and the free pages are not enough for these and the page. -/
theorem exhausts_mapPagesLoop_iff (h : Kept dynamic x4 root others s home T l l₀ free)
    (va pa : Uint64) (pteFlags : Int) (pages : Nat) :
    Exhausts (mapPagesLoop root va pa pteFlags x4 pages 0) s ↔
      ∃ k < pages, (∀ j < k, translation T l.view (pageIndex x4 (pageAt va j)) = none) ∧
        (∀ j < k, ∀ i < j, pageIndex x4 (pageAt va i) ≠ pageIndex x4 (pageAt va j)) ∧
        free.length <
          framesFor pa (k + 1) + missing T (fun j => pageIndex x4 (pageAt va j)) (k + 1) := by
  have hsplit : ∀ {k n : Nat}, k < n → ∃ rounds, n = k + (rounds + 1) :=
    fun {k n} hk => ⟨n - k - 1, by omega⟩
  constructor
  · intro hex
    rcases rounds_cases h va pa pteFlags pages with
      ⟨t, T', l', free', hdone⟩ | ⟨k, hk, t, T', l', free', hdone, hout | hremap⟩
    · exact absurd hex hdone.enough
    · exact ⟨k, hk, hdone.vacant, hdone.distinct, hout.lt hdone⟩
    · obtain ⟨rounds, rfl⟩ := hsplit hk
      exact absurd hex (hremap.enough rounds)
  · rintro ⟨k, hk, hvacant, hdistinct, hshort⟩
    rcases rounds_cases h va pa pteFlags (k + 1) with
      ⟨t, T', l', free', hdone⟩ | ⟨j, hj, t, T', l', free', hdone, hout | hremap⟩
    · have htaken := hdone.taken
      omega
    · obtain ⟨rounds, rfl⟩ := hsplit (show j < pages by omega)
      exact hout.exhausts hdone rounds
    · rcases Nat.lt_or_eq_of_le (Nat.lt_succ_iff.mp hj) with hlt | rfl
      · rcases hremap.mapped_or hdone with hsome | ⟨i, hi, heq⟩
        · exact absurd (hvacant j hlt) hsome
        · exact absurd heq (hdistinct j hlt i hi)
      · have hafford := hremap.afford
        have htaken := hdone.taken
        have hsucc := missing_succ hdone.reaches
        have hframes := framesFor_add pa j 1
        omega

end Supplies

end RiscvHypervisor.PageBudget
