import RiscvHypervisor.AddressTranslation

/-!
Page tables as `map_page` and `map_pages` build them, beside other code that
allocates, writes and frees pages, and what one more `map_page` does to the
translation.
-/

namespace RiscvHypervisor.PageUpdate

open RiscvHypervisor.EffectProgram
open RiscvHypervisor.MachineTypes
open RiscvHypervisor.OwnedMemory
open RiscvHypervisor.KernelMemory
open RiscvHypervisor.PageTable
open RiscvHypervisor.TableTree
open RiscvHypervisor.PageMapping
open RiscvHypervisor.HardwareWalk
open RiscvHypervisor.AddressTranslation

/-- A zeroed root: `vm_pgtable` in the kernel image or, where the root has one
page, a page from `kmalloc`. -/
structure EmptyTable (dynamic : DynamicSymbol) (x4 : Int) (root : Uint64) (s : KernelMem)
    (free : List Uint64) : Prop where
  pages : FreePages dynamic s free
  zero : ∀ a ∈ words root (tableEntries x4 2), s.mem a = 0
  place : IsRoot dynamic root ∨ (x4 = 0 ∧ validAddress dynamic root ∧ root ∉ free)

/-- The memory after any calls for the table, whatever they returned, and any use
of the allocator by other code, which has the given pages. -/
inductive TableState (dynamic : DynamicSymbol) (x4 : Int) (root : Uint64) :
    List Uint64 → KernelMem → Prop
  | empty {s : KernelMem} {free : List Uint64} (h : EmptyTable dynamic x4 root s free) :
      TableState dynamic x4 root [] s
  | mapPage {others : List Uint64} {s : KernelMem} (h : TableState dynamic x4 root others s)
      (va pa : Uint64) (pteFlags : Int) :
      TableState dynamic x4 root others (exec heapHandler (mapPage root va pa pteFlags x4) s).2
  | mapPages {others : List Uint64} {s : KernelMem} (h : TableState dynamic x4 root others s)
      (va pa size : Uint64) (pteFlags : Int) :
      TableState dynamic x4 root others
        (exec heapHandler (mapPages root va pa size pteFlags x4) s).2
  | kmalloc {others : List Uint64} {s s' : KernelMem} {page : Uint64}
      (h : TableState dynamic x4 root others s)
      (hexec : exec heapHandler kmalloc s = (.ok page, s')) :
      TableState dynamic x4 root (if page = 0 then others else page :: others) s'
  | kfree {others : List Uint64} {s : KernelMem} {page : Uint64}
      (h : TableState dynamic x4 root others s) (hpage : page ∈ others) :
      TableState dynamic x4 root (others.filter (· ≠ page))
        (exec heapHandler (kfree dynamic page) s).2
  | write {others : List Uint64} {s : KernelMem} {page i : Uint64}
      (h : TableState dynamic x4 root others s) (hpage : page ∈ others) (hi : i.toNat < 512)
      (v : Uint64) :
      TableState dynamic x4 root others { s with mem := Function.update s.mem (slot page i) v }

/-- The valid leaf that `walk` finds for an address. -/
def findLeaf (pgtable va : Uint64) (x4 : Int) : KernelM (Option Uint64) := do
  let pte ← walk pgtable va 0 x4
  if pte = 0 then
    pure none
  else
    let entry ← load pte
    pure (if entry &&& pteV = 0 then none else some entry)

section Shares

/-- What belongs to the table and what to the other code. -/
def pair {α : Type} (table others : α) : Bool → α
  | true => table
  | false => others

theorem pair_update_true {α : Type} (a b a' : α) :
    Function.update (pair a b) true a' = pair a' b := by
  funext i
  cases i <;> simp [pair]

theorem pair_update_false {α : Type} (a b b' : α) :
    Function.update (pair a b) false b' = pair a b' := by
  funext i
  cases i <;> simp [pair]

/-- The tree of the table in memory, apart from the pages of the other code. -/
structure Kept (dynamic : DynamicSymbol) (x4 : Int) (root : Uint64) (others : List Uint64)
    (s : KernelMem) (home : Set Uint64) (T : Tables) (l l₀ : Share Uint64)
    (free : List Uint64) : Prop where
  homes : Homes (kernelLayout dynamic) (pair home ∅)
  separated : Separated (kernelLayout dynamic) (pair home ∅) s (pair l l₀) free
  tree : TreeInv dynamic x4 root home T l
  others : ∀ page ∈ others, page ∈ l₀.blocks

variable {dynamic : DynamicSymbol} {x4 : Int} {root : Uint64} {others : List Uint64}
  {s : KernelMem} {home : Set Uint64} {T : Tables} {l l₀ : Share Uint64} {free : List Uint64}

theorem Kept.agree (h : Kept dynamic x4 root others s home T l l₀ free) (a : Uint64)
    (ha : l.Owns (kernelLayout dynamic) home a) : s.mem a = l.view a :=
  h.separated.agree true a ha

/-- A call for the table, with a panic as a result. -/
theorem Kept.exec_attempt (h : Kept dynamic x4 root others s home T l l₀ free) {α : Type}
    {fails : Prop} {p : KernelM α} {Q : Tables → Except String α → Share Uint64 → Prop}
    (hp : Ensures (kernelLayout dynamic) fails home p.attempt l fun r l' =>
      ∃ T', TreeInv dynamic x4 root home T' l' ∧ Q T' r l') (hfails : Exhausts p s → fails) :
    ∃ T' l' free', Kept dynamic x4 root others (exec heapHandler p s).2 home T' l' l₀ free' ∧
      Q T' (exec heapHandler p s).1 l' ∧ Separated.Conserved p s l free l' free' := by
  obtain ⟨l', free', hsep, ⟨T', htree, hQ⟩, hconserved⟩ :=
    h.separated.exec_attempt h.homes (i := true) hp hfails
  rw [pair_update_true] at hsep
  exact ⟨T', l', free', ⟨h.homes, hsep, htree, h.others⟩, hQ, hconserved⟩

/-- A call of `map_pages`, by what it does to the tree. -/
theorem Kept.exec_mapPages (h : Kept dynamic x4 root others s home T l l₀ free)
    (va pa size : Uint64) (pteFlags : Int) {fails : Prop}
    (hfails : Exhausts (mapPages root va pa size pteFlags x4) s → fails) :
    ∃ T' l' free', Kept dynamic x4 root others
        (exec heapHandler (mapPages root va pa size pteFlags x4) s).2 home T' l' l₀ free' ∧
      (∃ pas, RangeMapped dynamic fails x4 va pa pteFlags ((pgroundup size).toNat / 4096) 0 T l T' l'
        pas (exec heapHandler (mapPages root va pa size pteFlags x4) s).1) ∧
      Separated.Conserved (mapPages root va pa size pteFlags x4) s l free l' free' := by
  refine h.exec_attempt (Q := fun T' r l' => ∃ pas, RangeMapped dynamic fails x4 va pa pteFlags
    ((pgroundup size).toNat / 4096) 0 T l T' l' pas r) ?_ hfails
  apply (ensures_attempt_mapPages h.tree va pa size pteFlags).mono
  rintro r l' ⟨T', pas, htree, hmapped⟩
  exact ⟨T', htree, pas, hmapped⟩

theorem homes_pair_of_isRoot (h : IsRoot dynamic root) {n : Nat} (hn : n ≤ 2048) :
    Homes (kernelLayout dynamic) (pair (words root n) ∅) := by
  have hsub : words root n ⊆ words root 2048 := by
    rintro a ⟨i, hi, rfl⟩
    exact slot_mem_words (by omega)
  have hhome := homes_of_isRoot (fun _ : Unit => h) fun _ _ _ => rfl
  refine ⟨?_, ?_, ?_⟩
  · rintro (_ | _) (_ | _) hne
    · exact absurd rfl hne
    · exact Set.empty_disjoint _
    · exact Set.disjoint_empty _
    · exact absurd rfl hne
  · rintro (_ | _) page hvalid
    · exact Set.empty_disjoint _
    · exact (hhome.disjoint_block () page hvalid).mono_left hsub
  · rintro (_ | _)
    · exact Set.empty_disjoint _
    · exact (hhome.disjoint_scratch ()).mono_left hsub

theorem homes_pair_empty : Homes (kernelLayout dynamic) (pair (∅ : Set Uint64) ∅) := by
  have hempty : ∀ i, pair (∅ : Set Uint64) ∅ i = ∅ := by
    rintro (_ | _) <;> rfl
  refine ⟨fun i j _ => ?_, fun i page _ => ?_, fun i => ?_⟩
  · rw [hempty i]
    exact Set.empty_disjoint _
  · rw [hempty i]
    exact Set.empty_disjoint _
  · rw [hempty i]
    exact Set.empty_disjoint _

theorem tableEntries_le (x4 : Int) (level : Nat) : tableEntries x4 level ≤ 2048 := by
  rw [tableEntries]
  split <;> decide

theorem EmptyTable.kept (h : EmptyTable dynamic x4 root s free) :
    ∃ home l, Kept dynamic x4 root [] s home (rootOnly root) l ⟨s.mem, []⟩ free := by
  rcases h.place with hroot | ⟨rfl, hvalid, hnotFree⟩
  · have hentries := tableEntries_le x4 2
    have hupper := hroot.upper
    have hhigh := dynamic.toNat_le
    have hhome := homes_pair_of_isRoot hroot hentries
    refine ⟨words root (tableEntries x4 2), ⟨s.mem, []⟩, hhome, ?_, ?_, by simp⟩
    · have hshares : pair (⟨s.mem, []⟩ : Share Uint64) ⟨s.mem, []⟩ = fun _ => ⟨s.mem, []⟩ := by
        funext i
        cases i <;> rfl
      rw [hshares]
      exact separated_of_freePages h.pages _
    · refine treeInv_rootOnly (by omega) (fun a ha => .inl ha) ?_ h.zero
      exact (hhome.disjoint_scratch true).mono_right words_zero_subset
  · have hpage := (validAddress_iff dynamic root).mp hvalid
    have hentries : tableEntries 0 2 = 512 := rfl
    refine ⟨∅, ⟨s.mem, [root]⟩, homes_pair_empty, ?_, ?_, by simp⟩
    · exact
        { agree := by
            rintro (_ | _) a - <;> rfl
          linked := h.pages.linked
          nodup := h.pages.nodup
          free_valid := h.pages.valid
          block_valid := by
            rintro (_ | _) page hmem
            · cases hmem
            · exact List.mem_singleton.mp hmem ▸ hvalid
          block_not_free := by
            rintro (_ | _) page hmem
            · cases hmem
            · exact List.mem_singleton.mp hmem ▸ hnotFree
          block_disjoint := by
            rintro (_ | _) (_ | _) hne page hmem
            · cases hmem
            · cases hmem
            · exact List.not_mem_nil
            · exact absurd rfl hne }
    · refine treeInv_rootOnly (by omega) (fun a ha => .inr ⟨root, by simp, ha⟩) ?_ h.zero
      exact ((kernelLayout dynamic).disjoint_scratch root hvalid).mono_right words_zero_subset

/-- The other code takes a page. -/
theorem Kept.kmalloc (h : Kept dynamic x4 root others s home T l l₀ free) {s' : KernelMem}
    {page : Uint64} (hexec : exec heapHandler KernelMemory.kmalloc s = (.ok page, s')) :
    ∃ l₁ free', Kept dynamic x4 root (if page = 0 then others else page :: others) s' home T l l₁
      free' := by
  obtain ⟨l₁, free', hsep, hpage, -⟩ := h.separated.exec h.homes (i := false)
    (ensures_kmalloc l₀) (fun _ => trivial) hexec
  rw [pair_update_false] at hsep
  refine ⟨l₁, free', h.homes, hsep, h.tree, ?_⟩
  rcases hpage with ⟨hvalid, -, rfl⟩ | ⟨-, rfl, rfl⟩
  · rw [if_neg (ne_zero_of_validAddress hvalid), List.forall_mem_cons]
    exact ⟨by simp [Share.grant], fun q hq => List.mem_cons_of_mem page (h.others q hq)⟩
  · rw [if_pos rfl]
    exact h.others

theorem Kept.kfree (h : Kept dynamic x4 root others s home T l l₀ free) {page : Uint64}
    (hpage : page ∈ others) :
    ∃ l₁ free', Kept dynamic x4 root (others.filter (· ≠ page))
      (exec heapHandler (KernelMemory.kfree dynamic page) s).2 home T l l₁ free' := by
  have hheld := h.others page hpage
  have hvalid := h.separated.block_valid false page hheld
  have hsep := h.separated.push h.homes false hheld
  rw [pair_update_false] at hsep
  rw [exec_kfree hvalid]
  refine ⟨_, _, h.homes, hsep, h.tree, fun q hq => ?_⟩
  obtain ⟨hq, hne⟩ := List.mem_filter.mp hq
  exact List.mem_filter.mpr ⟨h.others q hq, hne⟩

theorem Kept.write (h : Kept dynamic x4 root others s home T l l₀ free) {page i : Uint64}
    (hpage : page ∈ others) (hi : i.toNat < 512) (v : Uint64) :
    Kept dynamic x4 root others { s with mem := Function.update s.mem (slot page i) v } home T l
      (l₀.write (slot page i) v) free := by
  have hsep := h.separated.store h.homes false v
    (.inl (.inr ⟨page, h.others page hpage, slot_mem_words hi⟩))
  rw [pair_update_false] at hsep
  exact ⟨h.homes, hsep, h.tree, h.others⟩

theorem TableState.kept (h : TableState dynamic x4 root others s) :
    ∃ home T l l₀ free, Kept dynamic x4 root others s home T l l₀ free := by
  induction h with
  | empty h =>
      obtain ⟨home, l, hkept⟩ := h.kept
      exact ⟨home, _, l, _, _, hkept⟩
  | mapPage _ va pa pteFlags ih =>
      obtain ⟨home, T, l, l₀, free, hkept⟩ := ih
      obtain ⟨T', l', free', hkept', -⟩ := hkept.exec_attempt
        (ensures_attempt_mapPage hkept.tree va pa pteFlags) fun _ => trivial
      exact ⟨home, T', l', l₀, free', hkept'⟩
  | mapPages _ va pa size pteFlags ih =>
      obtain ⟨home, T, l, l₀, free, hkept⟩ := ih
      obtain ⟨T', l', free', hkept', -⟩ := hkept.exec_mapPages va pa size pteFlags fun _ => trivial
      exact ⟨home, T', l', l₀, free', hkept'⟩
  | kmalloc _ hexec ih =>
      obtain ⟨home, T, l, l₀, free, hkept⟩ := ih
      obtain ⟨l₁, free', hkept'⟩ := hkept.kmalloc hexec
      exact ⟨home, T, l, l₁, free', hkept'⟩
  | kfree _ hpage ih =>
      obtain ⟨home, T, l, l₀, free, hkept⟩ := ih
      obtain ⟨l₁, free', hkept'⟩ := hkept.kfree hpage
      exact ⟨home, T, l, l₁, free', hkept'⟩
  | write _ hpage hi v ih =>
      obtain ⟨home, T, l, l₀, free, hkept⟩ := ih
      exact ⟨home, T, l, _, free, hkept.write hpage hi v⟩

end Shares

section Updates

variable {dynamic : DynamicSymbol} {x4 : Int} {root : Uint64} {others : List Uint64}
  {s : KernelMem} {home : Set Uint64} {T : Tables} {l l₀ : Share Uint64} {free : List Uint64}

/-- The walk finds the leaves of the translation that the tree stands for. -/
theorem Kept.exec_findLeaf (h : Kept dynamic x4 root others s home T l l₀ free) (va : Uint64) :
    exec heapHandler (findLeaf root va x4) s =
      (.ok (translation T l.view (pageIndex x4 va)), s) := by
  have hroot := (h.tree.root_iff 0 root).mpr ⟨rfl, rfl⟩
  have hwalk := exec_walkFrom h.tree h.agree va (Nat.le_refl 2) hroot (.inl rfl)
  have hlast : levels - 1 = 2 := rfl
  rw [findLeaf, walk, if_neg (root_ne_zero h.tree), hlast, exec_bind_ok heapHandler hwalk,
    translation_pageIndex]
  cases hleaf : T 0 (leafKey va x4 2 0) with
  | none => rfl
  | some page =>
      have hidx := va2idx_lt va (Nat.zero_le 2) x4
      have howns := h.tree.owns (Nat.zero_le 2) hleaf (slot_mem_words hidx)
      rw [Option.elim_some, if_neg (slot_ne_zero h.tree hleaf hidx), exec_load_bind, h.agree _ howns]
      rfl

/-- Where the page has a leaf, `map_page` panics before it writes anything. -/
theorem Kept.exec_mapPage_of_leaf (h : Kept dynamic x4 root others s home T l l₀ free)
    {va : Uint64} (hleaf : translation T l.view (pageIndex x4 va) ≠ none) (pa : Uint64)
    (pteFlags : Int) :
    exec heapHandler (mapPage root va pa pteFlags x4) s = (.error "tried to remap page", s) := by
  have hroot := (h.tree.root_iff 0 root).mpr ⟨rfl, rfl⟩
  have hlast : levels - 1 = 2 := rfl
  rw [translation_pageIndex] at hleaf
  cases htable : T 0 (leafKey va x4 2 0) with
  | none =>
      rw [htable] at hleaf
      exact absurd rfl hleaf
  | some page =>
      have hidx := va2idx_lt va (Nat.zero_le 2) x4
      have howns := h.tree.owns (Nat.zero_le 2) htable (slot_mem_words hidx)
      have hwalk : exec heapHandler (walkFrom va 1 x4 2 root) s = _ :=
        exec_walkFrom h.tree h.agree va (Nat.le_refl 2) hroot
          (.inr (by rw [htable]; exact Option.some_ne_none page))
      rw [htable, Option.bind_some] at hleaf
      have hvalid : l.view (slot page (va2idx va 0 x4)) &&& pteV ≠ 0 := fun hzero =>
        hleaf (if_pos hzero)
      rw [mapPage, walk, if_neg (root_ne_zero h.tree), hlast, exec_bind_ok heapHandler hwalk, htable,
        Option.elim_some, if_neg (slot_ne_zero h.tree htable hidx), exec_load_bind, h.agree _ howns,
        if_pos hvalid]
      rfl

/-- What a call of `map_page` does to the translation, as seen by `walk`. -/
structure UpdatesOnePage (x4 : Int) (root va pa : Uint64) (pteFlags : Int) (s s' : KernelMem)
    (r : Except String Int) : Prop where
  returns : r = .ok 0 ∨ r = .ok (-1) ∨ r = .error "tried to remap page"
  mapped : r = .ok 0 → ∀ va' : Uint64,
    va'.toNat / 4096 % pageCount x4 = va.toNat / 4096 % pageCount x4 →
      (exec heapHandler (findLeaf root va' x4) s').1 =
        .ok (some (pa2pte pa ||| BitVec.ofInt 64 pteFlags ||| pteV))
  frame : pte2pa (pa2pte pa ||| BitVec.ofInt 64 pteFlags ||| pteV) = pa
  kept : r = .ok 0 → ∀ va' : Uint64,
    va'.toNat / 4096 % pageCount x4 ≠ va.toNat / 4096 % pageCount x4 →
      (exec heapHandler (findLeaf root va' x4) s').1 = (exec heapHandler (findLeaf root va' x4) s).1
  panics : (∃ message, r = .error message) ↔
    ∃ leaf, (exec heapHandler (findLeaf root va x4) s).1 = .ok (some leaf)
  unchanged : (∃ message, r = .error message) → s' = s
  fails : r = .ok (-1) → Exhausts (mapPage root va pa pteFlags x4) s ∧ ∀ va' : Uint64,
    (exec heapHandler (findLeaf root va' x4) s').1 = (exec heapHandler (findLeaf root va' x4) s).1

theorem toNat_flags_lt {pteFlags : Int} (hlow : 0 ≤ pteFlags) (hhigh : pteFlags < 1024) :
    (BitVec.ofInt 64 pteFlags ||| pteV).toNat < 1024 := by
  rw [BitVec.toNat_or, pteV_toNat, BitVec.toNat_ofInt]
  exact Nat.or_lt_two_pow (n := 10) (by omega) (by decide)

/-- The page that a leaf refers to. -/
theorem toNat_pte2pa_leafEntry (pa : Uint64) {pteFlags : Int} (hlow : 0 ≤ pteFlags)
    (hhigh : pteFlags < 1024) :
    (pte2pa (leafEntry pa pteFlags)).toNat = pa.toNat / 4096 * 4096 := by
  have hflags := toNat_flags_lt hlow hhigh
  have hlt := pa.isLt
  rw [leafEntry, BitVec.or_assoc, toNat_pte2pa, toNat_pa2pte_or pa hflags]
  omega

theorem pte2pa_leafEntry {pa : Uint64} (haligned : pa.toNat % 4096 = 0) {pteFlags : Int}
    (hlow : 0 ≤ pteFlags) (hhigh : pteFlags < 1024) :
    pte2pa (pa2pte pa ||| BitVec.ofInt 64 pteFlags ||| pteV) = pa := by
  have hframe := toNat_pte2pa_leafEntry pa hlow hhigh
  exact BitVec.eq_of_toNat_eq (hframe.trans (by omega))

/-- What a call does when the page has no leaf and is given one. -/
theorem updatesOnePage_ok {s' : KernelMem} {tr tr' : Translation}
    (hfind : ∀ va, (exec heapHandler (findLeaf root va x4) s).1 = .ok (tr (pageIndex x4 va)))
    (hfind' : ∀ va, (exec heapHandler (findLeaf root va x4) s').1 = .ok (tr' (pageIndex x4 va)))
    {va pa : Uint64} {pteFlags : Int}
    (hframe : pte2pa (pa2pte pa ||| BitVec.ofInt 64 pteFlags ||| pteV) = pa)
    (hnone : tr (pageIndex x4 va) = none)
    (htr : tr' = Function.update tr (pageIndex x4 va) (some (leafEntry pa pteFlags))) :
    UpdatesOnePage x4 root va pa pteFlags s s' (.ok 0) where
  returns := .inl rfl
  mapped _ va' hindex := by
    rw [← pageIndex_eq, ← pageIndex_eq] at hindex
    rw [hfind', htr, hindex, Function.update_self]
    rfl
  frame := hframe
  kept _ va' hindex := by
    rw [← pageIndex_eq, ← pageIndex_eq] at hindex
    rw [hfind', hfind, htr, Function.update_of_ne hindex]
  panics := by simp [hfind, hnone]
  unchanged := by simp
  fails := by simp

/-- What a call does when it changes no leaf. -/
theorem updatesOnePage_same {s' : KernelMem} {tr : Translation}
    (hfind : ∀ va, (exec heapHandler (findLeaf root va x4) s).1 = .ok (tr (pageIndex x4 va)))
    (hfind' : ∀ va, (exec heapHandler (findLeaf root va x4) s').1 = .ok (tr (pageIndex x4 va)))
    {va pa : Uint64} {pteFlags : Int} {r : Except String Int}
    (hframe : pte2pa (pa2pte pa ||| BitVec.ofInt 64 pteFlags ||| pteV) = pa)
    (hr : (r = .ok (-1) ∧ tr (pageIndex x4 va) = none ∧
        Exhausts (mapPage root va pa pteFlags x4) s) ∨
      (r = .error "tried to remap page" ∧ tr (pageIndex x4 va) ≠ none ∧ s' = s)) :
    UpdatesOnePage x4 root va pa pteFlags s s' r where
  returns := by
    rcases hr with ⟨rfl, -⟩ | ⟨rfl, -⟩
    · exact .inr (.inl rfl)
    · exact .inr (.inr rfl)
  mapped hok := by
    rcases hr with ⟨rfl, -⟩ | ⟨rfl, -⟩ <;> simp at hok
  frame := hframe
  kept _ va' _ := by rw [hfind', hfind]
  panics := by
    rcases hr with ⟨rfl, hnone, -⟩ | ⟨rfl, hsome, -⟩
    · simp [hfind, hnone]
    · obtain ⟨leaf, hleaf⟩ := Option.ne_none_iff_exists'.mp hsome
      simp [hfind, hleaf]
  unchanged := by
    rintro ⟨message, herror⟩
    rcases hr with ⟨rfl, -⟩ | ⟨-, -, hsame⟩
    · cases herror
    · exact hsame
  fails hfail := by
    rcases hr with ⟨-, -, hex⟩ | ⟨rfl, -⟩
    · exact ⟨hex, fun va' => by rw [hfind', hfind]⟩
    · cases hfail

/-- `map_page` changes the translation of one page at most, whatever table it is
given and whatever `kmalloc` answers. -/
theorem mapPage_updates_one_page (h : TableState dynamic x4 root others s) (va : Uint64)
    {pa : Uint64} (haligned : pa.toNat % 4096 = 0) {pteFlags : Int} (hlow : 0 ≤ pteFlags)
    (hhigh : pteFlags < 1024) :
    UpdatesOnePage x4 root va pa pteFlags s
      (exec heapHandler (mapPage root va pa pteFlags x4) s).2
      (exec heapHandler (mapPage root va pa pteFlags x4) s).1 := by
  obtain ⟨home, T, l, l₀, free, hkept⟩ := h.kept
  obtain ⟨T', l', free', hkept', hmapped, -⟩ := hkept.exec_attempt
    (ensures_attempt_mapPage hkept.tree va pa pteFlags) id
  have hframe := pte2pa_leafEntry haligned hlow hhigh
  have hfind : ∀ va', (exec heapHandler (findLeaf root va' x4) s).1 =
      .ok (translation T l.view (pageIndex x4 va')) := fun va' => by rw [hkept.exec_findLeaf]
  have hfind' : ∀ va', (exec heapHandler (findLeaf root va' x4)
      (exec heapHandler (mapPage root va pa pteFlags x4) s).2).1 =
      .ok (translation T' l'.view (pageIndex x4 va')) := fun va' => by rw [hkept'.exec_findLeaf]
  rcases hmapped.result with ⟨hr, hnone, htr⟩ | ⟨hex, hr, -, hnone, htr⟩ | ⟨hr, hsome, -, -⟩
  · rw [hr]
    exact updatesOnePage_ok hfind hfind' hframe hnone htr
  · rw [htr] at hfind'
    exact updatesOnePage_same hfind hfind' hframe (.inl ⟨hr, hnone, hex⟩)
  · have hpanic := hkept.exec_mapPage_of_leaf hsome pa pteFlags
    rw [hpanic]
    exact updatesOnePage_same hfind hfind hframe (.inr ⟨rfl, hsome, rfl⟩)

end Updates

section Sample

theorem sampleMem_empty :
    EmptyTable sampleDynamic 1 sampleRoot sampleMem [samplePage, 0xffffffe001001000] :=
  ⟨sampleMem_freePages, sampleMem_zeroed, .inl sampleRoot_isRoot⟩

theorem sampleMapped_state : TableState sampleDynamic 1 sampleRoot [] sampleMapped :=
  .mapPage (.empty sampleMem_empty) 0x80000000 0x88000000 30

/-- A second page beside the one that is mapped. -/
theorem mapPage_updates_one_page_second :
    (exec heapHandler (findLeaf sampleRoot 0x80001abc 1)
        (exec heapHandler (mapPage sampleRoot 0x80001000 0x89000000 30 1) sampleMapped).2).1 =
      .ok (some (pa2pte 0x89000000 ||| BitVec.ofInt 64 30 ||| pteV)) := by
  have hupdates := mapPage_updates_one_page sampleMapped_state 0x80001000
    (show (0x89000000 : Uint64).toNat % 4096 = 0 by decide) (show (0 : Int) ≤ 30 by decide) (by decide)
  have hok : (exec heapHandler (mapPage sampleRoot 0x80001000 0x89000000 30 1)
      sampleMapped).1.toOption = some 0 := by decide +kernel
  have hexec := exec_of_toOption heapHandler hok
  exact hupdates.mapped (congrArg Prod.fst hexec) 0x80001abc (by decide)

end Sample

end RiscvHypervisor.PageUpdate
