import RiscvHypervisor.TableTree

/-!
What `map_page` and `map_pages` do to the translation that a tree of tables
stands for: each installs leaves at pages that had none.
-/

namespace RiscvHypervisor.PageMapping

open RiscvHypervisor.EffectProgram
open RiscvHypervisor.MachineTypes
open RiscvHypervisor.OwnedMemory
open RiscvHypervisor.KernelMemory
open RiscvHypervisor.PageTable
open RiscvHypervisor.TableTree

section Abstract

/-- The valid leaf of each page index. -/
abbrev Translation := Nat → Option Uint64

/-- Install leaves one after the other, each at a page that has none. -/
def installAll : List (Nat × Uint64) → Translation → Option Translation
  | [], tr => some tr
  | (n, leaf) :: rest, tr =>
      if tr n = none then installAll rest (Function.update tr n (some leaf)) else none

theorem installAll_append (es es' : List (Nat × Uint64)) (tr : Translation) :
    installAll (es ++ es') tr = (installAll es tr).bind (installAll es') := by
  induction es generalizing tr with
  | nil => rfl
  | cons e rest ih =>
      obtain ⟨n, leaf⟩ := e
      simp only [List.cons_append, installAll, ih]
      split <;> rfl

/-- The leaves of the result are those installed and those there before. -/
theorem installAll_eq_some {es : List (Nat × Uint64)} {tr tr' : Translation}
    (h : installAll es tr = some tr') (n : Nat) (leaf : Uint64) :
    tr' n = some leaf ↔ (n, leaf) ∈ es ∨ tr n = some leaf := by
  induction es generalizing tr with
  | nil =>
      cases Option.some.inj h
      simp
  | cons e rest ih =>
      obtain ⟨m, first⟩ := e
      rw [installAll] at h
      split at h
      · rename_i hnone
        rw [ih h, List.mem_cons, Prod.mk.injEq]
        rcases eq_or_ne n m with rfl | hn
        · simp [hnone, or_comm, eq_comm]
        · simp [hn]
      · cases h

/-- The pages are different ones that have no leaf. -/
def Vacant (ns : List Nat) (tr : Translation) : Prop := ns.Nodup ∧ ∀ n ∈ ns, tr n = none

theorem Vacant.append_right {es : List (Nat × Uint64)} {ns ms : List Nat} {tr tr' : Translation}
    (h : Vacant ms tr) (hinstall : installAll es tr = some tr')
    (hms : ms = es.map Prod.fst ++ ns) : Vacant ns tr' := by
  subst hms
  obtain ⟨hnodup, hnone⟩ := h
  refine ⟨(List.nodup_append.mp hnodup).2.1, fun n hn => ?_⟩
  rw [Option.eq_none_iff_forall_not_mem]
  intro leaf hleaf
  rcases (installAll_eq_some hinstall n leaf).mp hleaf with hin | hold
  · exact (List.nodup_append.mp hnodup).2.2 n (List.mem_map.mpr ⟨_, hin, rfl⟩) n hn rfl
  · rw [hnone n (List.mem_append_right _ hn)] at hold
    cases hold

theorem Vacant.append_left {ns ms : List Nat} {tr : Translation} (h : Vacant (ns ++ ms) tr) :
    Vacant ns tr :=
  ⟨(List.nodup_append.mp h.1).1, fun n hn => h.2 n (List.mem_append_left ms hn)⟩

end Abstract

/-- The page number of an address as far as the walk looks at it. -/
def pageIndex (x4 : Int) (va : Uint64) : Nat :=
  512 * leafKey va x4 2 0 + (va2idx va 0 x4).toNat

theorem pageIndex_div (x4 : Int) (va : Uint64) : pageIndex x4 va / 512 = leafKey va x4 2 0 := by
  have hidx := va2idx_lt va (Nat.zero_le 2) x4
  rw [tableEntries, if_neg (by omega)] at hidx
  rw [pageIndex]
  omega

/-- How many pages a walk can tell apart. -/
def pageCount (x4 : Int) : Nat := if x4 = 0 then 2 ^ 27 else 2 ^ 29

theorem pageIndex_eq (x4 : Int) (va : Uint64) :
    pageIndex x4 va = va.toNat / 4096 % pageCount x4 := by
  simp only [pageIndex, leafKey, toNat_va2idx va (Nat.zero_le 2),
    toNat_va2idx va (show 0 + 1 ≤ 2 by decide), toNat_va2idx va (show 1 + 1 ≤ 2 by decide),
    tableEntries, pageCount]
  rcases eq_or_ne x4 0 with hx4 | hx4
  · simp [hx4]
    omega
  · simp [hx4]
    omega

theorem pageCount_one : pageCount 1 = 2 ^ 29 := rfl

/-- The translation that a tree of tables stands for. -/
def translation (T : Tables) (view : Uint64 → Uint64) : Translation := fun n =>
  (T 0 (n / 512)).bind fun page =>
    let entry := view (slot page (BitVec.ofNat 64 (n % 512)))
    if entry &&& pteV = 0 then none else some entry

/-- The translation of an address, by the indices of its walk. -/
theorem translation_pageIndex (T : Tables) (view : Uint64 → Uint64) (x4 : Int) (va : Uint64) :
    translation T view (pageIndex x4 va) =
      (T 0 (leafKey va x4 2 0)).bind fun page =>
        let entry := view (slot page (va2idx va 0 x4))
        if entry &&& pteV = 0 then none else some entry := by
  have hidx := va2idx_lt va (Nat.zero_le 2) x4
  rw [tableEntries, if_neg (by omega)] at hidx
  have hdiv := pageIndex_div x4 va
  have hmod : BitVec.ofNat 64 (pageIndex x4 va % 512) = va2idx va 0 x4 := by
    apply BitVec.eq_of_toNat_eq
    rw [BitVec.toNat_ofNat, pageIndex]
    omega
  simp only [translation, hdiv, hmod]

section Translations

variable {dynamic : DynamicSymbol} {x4 : Int} {root : Uint64} {home : Set Uint64}
  {T T' : Tables} {l l' : Share Uint64}

theorem toNat_ofNat_mod (n : Nat) : (BitVec.ofNat 64 (n % 512)).toNat = n % 512 := by
  rw [BitVec.toNat_ofNat]
  omega

theorem translation_of_extends (h : Extends T l T' l') :
    translation T' l'.view = translation T l.view := by
  funext n
  have hidx : (BitVec.ofNat 64 (n % 512)).toNat < 512 := by
    rw [toNat_ofNat_mod]
    omega
  cases hold : T 0 (n / 512) with
  | none =>
      cases hnew : T' 0 (n / 512) with
      | none => simp [translation, hold, hnew]
      | some page =>
          have hzero := h.empty _ page hold hnew _ hidx
          simp only [translation, hold, hnew, Option.bind_some, Option.bind_none, hzero]
          exact if_pos BitVec.zero_and
  | some page =>
      have hnew := h.tables 0 _ page hold
      simp only [translation, hold, hnew, Option.bind_some, h.leaves _ page hold _ hidx]

variable {key : Nat} {page i : Uint64}

theorem write_leaf (h : TreeInv dynamic x4 root home T l) (hpage : T 0 key = some page)
    (hi : i.toNat < 512) {entry : Uint64} (hvalid : entry &&& pteV ≠ 0) :
    TreeInv dynamic x4 root home T (l.write (slot page i) entry) where
  root_iff := h.root_iff
  root_bound := h.root_bound
  root_owned := h.root_owned
  root_scratch := h.root_scratch
  valid := h.valid
  held := h.held
  closed := h.closed
  entry level hlevel key' page' hpage' j hj := by
    have hne : slot page' j ≠ slot page i := by
      intro heq
      have hsame := h.slot_unique (by omega) (by omega) hpage' hpage hj
        (by rwa [TreeInv.tableEntries_of_lt (by decide)]) heq
      omega
    have hview : (l.write (slot page i) entry).view (slot page' j) = l.view (slot page' j) :=
      Function.update_of_ne hne _ _
    rw [hview]
    exact h.entry level hlevel key' page' hpage' j hj
  apart := h.apart
  leaf key' page' hpage' j hj := by
    rcases eq_or_ne (slot page' j) (slot page i) with heq | heq
    · right
      simpa [Share.write, heq] using hvalid
    · have hview : (l.write (slot page i) entry).view (slot page' j) = l.view (slot page' j) :=
        Function.update_of_ne heq _ _
      rw [hview]
      exact h.leaf key' page' hpage' j hj

/-- Writing a valid leaf changes the translation at one page. -/
theorem translation_write_leaf (h : TreeInv dynamic x4 root home T l)
    (hpage : T 0 key = some page) (hi : i.toNat < 512) {entry : Uint64}
    (hvalid : entry &&& pteV ≠ 0) :
    translation T (l.write (slot page i) entry).view =
      Function.update (translation T l.view) (512 * key + i.toNat) (some entry) := by
  funext n
  rcases eq_or_ne n (512 * key + i.toNat) with rfl | hn
  · have hdiv : (512 * key + i.toNat) / 512 = key := by omega
    have hmod : BitVec.ofNat 64 ((512 * key + i.toNat) % 512) = i := by
      apply BitVec.eq_of_toNat_eq
      rw [toNat_ofNat_mod]
      omega
    simp only [translation, hdiv, hmod, hpage, Option.bind_some, Share.write,
      Function.update_self, if_neg hvalid]
  · rw [Function.update_of_ne hn]
    cases hother : T 0 (n / 512) with
    | none => simp only [translation, hother, Option.bind_none]
    | some page' =>
        have hne : slot page' (BitVec.ofNat 64 (n % 512)) ≠ slot page i := by
          intro heq
          have hsize : tableEntries x4 0 = 512 := TreeInv.tableEntries_of_lt (by decide)
          obtain ⟨-, hkey, rfl⟩ := h.slot_unique (by omega) (by omega) hother hpage
            (by rw [hsize, toNat_ofNat_mod]; omega) (by rwa [hsize]) heq
          rw [toNat_ofNat_mod] at hn
          omega
        simp only [translation, hother, Option.bind_some, Share.write,
          Function.update_of_ne hne]

theorem grant_view_slot (h : TreeInv dynamic x4 root home T l)
    (hfresh : ∀ a ∈ words page 512, ¬ l.Owns (kernelLayout dynamic) home a) {level : Nat}
    (hlevel : level ≤ 2) {table j : Uint64} (htable : T level key = some table)
    (hj : j.toNat < tableEntries x4 level) :
    (l.grant (kernelLayout dynamic) page fun _ => 0).view (slot table j) =
      l.view (slot table j) :=
  if_neg fun hin => hfresh _ hin (h.owns hlevel htable (slot_mem_words hj))

/-- A page that is held for something else leaves the tree as it is. -/
theorem treeInv_grant (h : TreeInv dynamic x4 root home T l)
    (hfresh : ∀ a ∈ words page 512, ¬ l.Owns (kernelLayout dynamic) home a) :
    TreeInv dynamic x4 root home T (l.grant (kernelLayout dynamic) page fun _ => 0) where
  root_iff := h.root_iff
  root_bound := h.root_bound
  root_owned a ha := by
    rcases h.root_owned a ha with hin | ⟨q, hq, hin⟩
    · exact .inl hin
    · exact .inr ⟨q, List.mem_cons_of_mem page hq, hin⟩
  root_scratch := h.root_scratch
  valid := h.valid
  held level hlevel key' table htable :=
    List.mem_cons_of_mem page (h.held level hlevel key' table htable)
  closed := h.closed
  entry level hlevel key' table htable j hj := by
    rw [grant_view_slot h hfresh (by omega) htable hj]
    exact h.entry level hlevel key' table htable j hj
  apart := h.apart
  leaf key' table htable j hj := by
    rw [grant_view_slot h hfresh (by decide) htable
      (by rwa [TreeInv.tableEntries_of_lt (by decide)])]
    exact h.leaf key' table htable j hj

theorem extends_grant (h : TreeInv dynamic x4 root home T l)
    (hfresh : ∀ a ∈ words page 512, ¬ l.Owns (kernelLayout dynamic) home a) :
    Extends T l T (l.grant (kernelLayout dynamic) page fun _ => 0) where
  tables _ _ _ htable := htable
  blocks _ hblock := List.mem_cons_of_mem page hblock
  fresh _ _ _ _ hnone hsome := by simp [hnone] at hsome
  leaves _ _ htable _ hj := grant_view_slot h hfresh (by decide) htable
    (by rwa [TreeInv.tableEntries_of_lt (by decide)])
  empty _ _ hnone hsome := by simp [hnone] at hsome

end Translations

section Mapping

variable {dynamic : DynamicSymbol} {fails : Prop} {x4 : Int} {root : Uint64} {home : Set Uint64}
  {T : Tables} {l : Share Uint64}

theorem zero_mem_scratch : (0 : Uint64) ∈ words 0 512 := ⟨0, by decide, by decide⟩

theorem root_ne_zero (h : TreeInv dynamic x4 root home T l) : root ≠ 0 := by
  rintro rfl
  have hin : (0 : Uint64) ∈ words 0 (tableEntries x4 2) := by
    refine ⟨0, ?_, by decide⟩
    rw [tableEntries]
    split <;> decide
  exact Set.disjoint_left.mp h.root_scratch hin zero_mem_scratch

theorem slot_ne_zero (h : TreeInv dynamic x4 root home T l) {key : Nat} {page i : Uint64}
    (hpage : T 0 key = some page) (hi : i.toNat < tableEntries x4 0) : slot page i ≠ 0 := by
  intro hzero
  exact h.notMem_scratch (by decide) hpage (slot_mem_words hi) (hzero ▸ zero_mem_scratch)

theorem leafEntry_and_pteV (pa : Uint64) (pteFlags : Int) : leafEntry pa pteFlags &&& pteV ≠ 0 := by
  rw [ne_eq, and_pteV_eq_zero_iff, leafEntry, or_pteV_toNat_mod]
  decide

/-- What is held beyond the blocks of before: at most `n` pages, and tables on the
way to the given pages. -/
def Accounted (n : Nat) (indices : List Nat) (l : Share Uint64) (T' : Tables)
    (l' : Share Uint64) : Prop :=
  ∃ extra : List Uint64, extra.length ≤ n ∧ ∀ page ∈ l'.blocks, page ∈ l.blocks ∨ page ∈ extra ∨
    ∃ m ∈ indices, ∃ level < 2, T' level (m / 512 ^ (level + 1)) = some page

theorem Accounted.of_subset {l' : Share Uint64} (h : ∀ page ∈ l'.blocks, page ∈ l.blocks) (n : Nat)
    (indices : List Nat) (T' : Tables) : Accounted n indices l T' l' :=
  ⟨[], Nat.zero_le n, fun page hpage => .inl (h page hpage)⟩

theorem Accounted.trans {n n' : Nat} {ms ms' : List Nat} {T' T'' : Tables} {l' l'' : Share Uint64}
    (h : Accounted n ms l T' l') (h' : Accounted n' ms' l' T'' l'')
    (hgrows : Grows T' l' T'' l'') : Accounted (n + n') (ms ++ ms') l T'' l'' := by
  obtain ⟨extra, hlength, hheld⟩ := h
  obtain ⟨extra', hlength', hheld'⟩ := h'
  refine ⟨extra ++ extra', by rw [List.length_append]; omega, fun page hpage => ?_⟩
  rcases hheld' page hpage with hpage | hpage | ⟨m, hm, level, hlevel, htable⟩
  · rcases hheld page hpage with hpage | hpage | ⟨m, hm, level, hlevel, htable⟩
    · exact .inl hpage
    · exact .inr (.inl (List.mem_append_left _ hpage))
    · exact .inr (.inr ⟨m, List.mem_append_left _ hm, level, hlevel,
        hgrows.tables level _ page htable⟩)
  · exact .inr (.inl (List.mem_append_right _ hpage))
  · exact .inr (.inr ⟨m, List.mem_append_right _ hm, level, hlevel, htable⟩)

theorem Accounted.append_right {n : Nat} {ms : List Nat} {T' : Tables} {l' : Share Uint64}
    (h : Accounted n ms l T' l') (n' : Nat) (ms' : List Nat) :
    Accounted (n + n') (ms ++ ms') l T' l' :=
  h.trans (Accounted.of_subset (fun _ hpage => hpage) n' ms' T') (Extends.refl T' l').toGrows

/-- A list of blocks that are all held is no longer than what was asked for and
the number of tables on the way to the pages. -/
theorem Accounted.length_le {n : Nat} {ms : List Nat} {T' : Tables} {l' : Share Uint64}
    (h : Accounted n ms l T' l') (hl : l.blocks = []) {free : List Uint64} (hnodup : free.Nodup)
    (hfree : ∀ page ∈ free, page ∈ l'.blocks) (keys : List (Nat × Nat))
    (hkeys : ∀ m ∈ ms, ∀ level < 2, (level, m / 512 ^ (level + 1)) ∈ keys) :
    free.length ≤ n + keys.length := by
  obtain ⟨extra, hlength, hheld⟩ := h
  have hsub : free ⊆ extra ++ keys.filterMap fun key => T' key.1 key.2 := by
    intro page hpage
    rcases hheld page (hfree page hpage) with hold | hextra | ⟨m, hm, level, hlevel, htable⟩
    · rw [hl] at hold
      cases hold
    · exact List.mem_append_left _ hextra
    · exact List.mem_append_right _ (List.mem_filterMap.mpr ⟨_, hkeys m hm level hlevel, htable⟩)
  calc free.length ≤ (extra ++ keys.filterMap fun key => T' key.1 key.2).length :=
        (hnodup.subperm hsub).length_le
    _ ≤ n + keys.length := by
        rw [List.length_append]
        exact Nat.add_le_add hlength (List.length_filterMap_le _ _)

/-- The walk to an address adds only tables on its way. -/
theorem accounted_of_walked {va : Uint64} {T' : Tables} {l' : Share Uint64} {pte : Uint64}
    (h : Walked fails va x4 2 0 T l T' l' pte) : Accounted 0 [pageIndex x4 va] l T' l' := by
  refine ⟨[], Nat.le_refl 0, fun page hpage => (h.held page hpage).imp_right ?_⟩
  rintro ⟨level, hlevel, htable⟩
  refine .inr ⟨pageIndex x4 va, by simp, level, hlevel, ?_⟩
  rwa [Nat.pow_succ', ← Nat.div_div_eq_div_mul, pageIndex_div]

/-- What `map_page` does: it installs one leaf at a page that had none, unless it
runs out of memory, and it panics where there is a leaf. -/
structure PageMapped (fails : Prop) (x4 : Int) (va pa : Uint64) (pteFlags : Int) (T : Tables)
    (l : Share Uint64) (T' : Tables) (l' : Share Uint64) (r : Except String Int) : Prop
    extends Grows T l T' l' where
  accounted : Accounted 0 [pageIndex x4 va] l T' l'
  result : (r = .ok 0 ∧ translation T l.view (pageIndex x4 va) = none ∧
      translation T' l'.view = Function.update (translation T l.view) (pageIndex x4 va)
        (some (leafEntry pa pteFlags))) ∨
    (fails ∧ r = .ok (-1) ∧ T' 0 (pageIndex x4 va / 512) = none ∧
      translation T l.view (pageIndex x4 va) = none ∧
      translation T' l'.view = translation T l.view) ∨
    (r = .error "tried to remap page" ∧ translation T l.view (pageIndex x4 va) ≠ none ∧
      T' = T ∧ l' = l)

theorem ensures_attempt_mapPage (h : TreeInv dynamic x4 root home T l) (va pa : Uint64)
    (pteFlags : Int) :
    Ensures (kernelLayout dynamic) fails home (mapPage root va pa pteFlags x4).attempt l
      fun r l' => ∃ T', TreeInv dynamic x4 root home T' l' ∧
        PageMapped fails x4 va pa pteFlags T l T' l' r := by
  have hroot : T 2 0 = some root := (h.root_iff 0 root).mpr ⟨rfl, rfl⟩
  rw [mapPage, walk, if_neg (root_ne_zero h), (neverPanics_walkFrom va 1 x4 _ root).attempt_bind]
  refine (ensures_walkFrom (by decide) va (Nat.le_refl 2) h hroot).seq ?_
  rintro leaf l' ⟨T', htree, hwalk⟩
  have htr := translation_of_extends hwalk.toExtends
  have hindex := translation_pageIndex T l.view x4 va
  have haccounted := accounted_of_walked hwalk
  rcases hwalk.result with ⟨page, hpage, rfl⟩ | ⟨hfails, rfl, hnone⟩
  · have hidx := va2idx_lt va (Nat.zero_le 2) x4
    have hlt : (va2idx va 0 x4).toNat < 512 := by
      rwa [TreeInv.tableEntries_of_lt (by decide)] at hidx
    have howns := htree.owns (Nat.zero_le 2) hpage (slot_mem_words hidx)
    have hindex' := translation_pageIndex T' l'.view x4 va
    rw [hpage, htr] at hindex'
    rw [if_neg (slot_ne_zero htree hpage hidx), attempt_load_bind]
    refine ensures_load_bind howns ?_
    rcases eq_or_ne (l'.view (slot page (va2idx va 0 x4)) &&& pteV) 0 with hinvalid | hinvalid
    · rw [if_neg (not_not.mpr hinvalid), attempt_store_bind]
      refine ensures_store_bind howns ⟨T', write_leaf htree hpage hlt
        (leafEntry_and_pteV pa pteFlags), ⟨hwalk.tables, hwalk.blocks, hwalk.fresh⟩, haccounted,
        .inl ⟨rfl, hindex'.trans (if_pos hinvalid), ?_⟩⟩
      rw [translation_write_leaf htree hpage hlt (leafEntry_and_pteV pa pteFlags), htr]
      rfl
    · have hsome : translation T l.view (pageIndex x4 va) ≠ none := by
        rw [hindex', Option.bind_some, if_neg hinvalid]
        exact Option.some_ne_none _
      obtain ⟨rfl, rfl⟩ := hwalk.unchanged fun hnone => hsome (by rw [hindex, hnone]; rfl)
      rw [if_pos hinvalid]
      exact ⟨T', htree, hwalk.toGrows, haccounted, .inr (.inr ⟨rfl, hsome, rfl, rfl⟩)⟩
  · rw [if_pos rfl]
    rw [← pageIndex_div] at hnone
    have hold : translation T l.view (pageIndex x4 va) = none := by
      rw [← htr, translation, hnone]
      rfl
    exact ⟨T', htree, hwalk.toGrows, haccounted, .inr (.inl ⟨hfails, rfl, hnone, hold, htr⟩)⟩

/-- The leaves for the given frames, at the pages from `va + i` on. -/
def mappings (x4 : Int) (va : Uint64) (pteFlags : Int) : List Uint64 → Uint64 → List (Nat × Uint64)
  | [], _ => []
  | pa :: rest, i =>
      (pageIndex x4 (va + i), leafEntry pa pteFlags) :: mappings x4 va pteFlags rest (i + pageSize)

/-- The pages from `va + i` on. -/
def pageIndices (x4 : Int) (va : Uint64) : Nat → Uint64 → List Nat
  | 0, _ => []
  | pages + 1, i => pageIndex x4 (va + i) :: pageIndices x4 va pages (i + pageSize)

/-- The pages of a range that does not wrap around. -/
theorem pageIndices_eq {x4 : Int} {va : Uint64} {pages : Nat} {i : Uint64}
    (h : pageIndex x4 (va + i) + pages ≤ pageCount x4) :
    pageIndices x4 va pages i = List.range' (pageIndex x4 (va + i)) pages := by
  induction pages generalizing i with
  | zero => rfl
  | succ pages ih =>
      have hnext : (va + (i + pageSize)).toNat = ((va + i).toNat + 4096) % 2 ^ 64 := by
        rw [← BitVec.add_assoc, BitVec.toNat_add, pageSize_toNat]
      cases pages with
      | zero => simp [pageIndices]
      | succ pages =>
          have hindex : pageIndex x4 (va + (i + pageSize)) = pageIndex x4 (va + i) + 1 := by
            rw [pageIndex_eq] at h
            rw [pageIndex_eq, pageIndex_eq, hnext]
            have hlt := (va + i).isLt
            rw [pageCount] at h ⊢
            split at h
            · rename_i hx4
              rw [if_pos hx4]
              omega
            · rename_i hx4
              rw [if_neg hx4]
              omega
          rw [pageIndices, ih (by omega), hindex]
          exact List.range'_succ.symm

theorem mappings_map_fst (x4 : Int) (va : Uint64) (pteFlags : Int) (pas : List Uint64) (i : Uint64) :
    (mappings x4 va pteFlags pas i).map Prod.fst = pageIndices x4 va pas.length i := by
  induction pas generalizing i with
  | nil => rfl
  | cons pa rest ih => simp [mappings, pageIndices, ih]

theorem exists_of_mem_mappings {x4 : Int} {va : Uint64} {pteFlags : Int} {pas : List Uint64}
    {i : Uint64} {n : Nat} {leaf : Uint64} (h : (n, leaf) ∈ mappings x4 va pteFlags pas i) :
    ∃ pa ∈ pas, leaf = leafEntry pa pteFlags := by
  induction pas generalizing i with
  | nil => cases h
  | cons pa rest ih =>
      rcases List.mem_cons.mp h with heq | hrest
      · exact ⟨pa, by simp, (Prod.mk.inj heq).2⟩
      · obtain ⟨pa', hpa', hleaf⟩ := ih hrest
        exact ⟨pa', List.mem_cons_of_mem pa hpa', hleaf⟩

/-- Consecutive frames from `pa + i` on. -/
def linear (pa : Uint64) : Nat → Uint64 → List Uint64
  | 0, _ => []
  | pages + 1, i => (pa + i) :: linear pa pages (i + pageSize)

/-- Pages from the allocator that hold no table. -/
structure Frames (dynamic : DynamicSymbol) (T : Tables) (l : Share Uint64)
    (frames : List Uint64) : Prop where
  nodup : frames.Nodup
  valid : ∀ page ∈ frames, validAddress dynamic page
  held : ∀ page ∈ frames, page ∈ l.blocks
  notTable : ∀ page ∈ frames, NotTable T page

theorem Frames.grows {T' : Tables} {l' : Share Uint64} {frames : List Uint64}
    (h : Frames dynamic T l frames) (hgrows : Grows T l T' l') : Frames dynamic T' l' frames where
  nodup := h.nodup
  valid := h.valid
  held page hpage := hgrows.blocks page (h.held page hpage)
  notTable page hpage := hgrows.notTable (h.held page hpage) (h.notTable page hpage)

/-- What the rounds of `map_pages` have done: the frames are consecutive ones,
or come from `kmalloc`, which may have returned the null pointer. -/
structure Mapped (dynamic : DynamicSymbol) (fails : Prop) (pa : Uint64) (pages : Nat) (i : Uint64)
    (l : Share Uint64) (T' : Tables) (l' : Share Uint64) (pas : List Uint64) : Prop where
  given : pa ≠ 0 → pas = linear pa pages i
  answered : pa = 0 → ∃ answers : List Uint64, pas = answers.map kpa2pa ∧ ∀ page ∈ answers,
    page = 0 ∨ (validAddress dynamic page ∧ page ∉ l.blocks ∧ page ∈ l'.blocks)
  length : pas.length = pages
  allocated : pa = 0 → ¬ fails → ∃ frames, pas = frames.map kpa2pa ∧ frames.length = pages ∧
    Frames dynamic T' l' frames ∧ ∀ page ∈ frames, page ∉ l.blocks

/-- What has been mapped stays so while the tree grows. -/
theorem Mapped.grows {pa i : Uint64} {pages : Nat} {l₀ l' l'' : Share Uint64} {T' T'' : Tables}
    {pas : List Uint64} (h : Mapped dynamic fails pa pages i l T' l' pas)
    (hblocks : ∀ page ∈ l₀.blocks, page ∈ l.blocks) (hgrows : Grows T' l' T'' l'') :
    Mapped dynamic fails pa pages i l₀ T'' l'' pas where
  given := h.given
  answered hzero := by
    obtain ⟨answers, hpas, hanswers⟩ := h.answered hzero
    refine ⟨answers, hpas, fun page hpage => (hanswers page hpage).imp_right ?_⟩
    rintro ⟨hvalid, hnew, hheld⟩
    exact ⟨hvalid, fun hmem => hnew (hblocks page hmem), hgrows.blocks page hheld⟩
  length := h.length
  allocated hzero hno := by
    obtain ⟨frames, hpas, hlength, hframes, hfresh⟩ := h.allocated hzero hno
    exact ⟨frames, hpas, hlength, hframes.grows hgrows,
      fun page hpage hmem => hfresh page hpage (hblocks page hmem)⟩

theorem ensures_frameFor (h : TreeInv dynamic x4 root home T l) (pa i : Uint64) :
    Ensures (kernelLayout dynamic) fails home (frameFor pa i) l fun tmp l' =>
      TreeInv dynamic x4 root home T l' ∧ Extends T l T l' ∧
        Accounted (if pa = 0 then 1 else 0) [] l T l' ∧ (pa ≠ 0 → tmp = pa + i) ∧
        (pa = 0 → ∃ page, tmp = kpa2pa page ∧ ((fails ∧ page = 0) ∨
          (validAddress dynamic page ∧ page ∉ l.blocks ∧ page ∈ l'.blocks))) := by
  rw [frameFor]
  rcases eq_or_ne pa 0 with hpa | hpa
  · rw [if_pos hpa, if_pos hpa]
    refine (ensures_kmalloc l).seq ?_
    rintro page l' (⟨hvalid, hfresh, rfl⟩ | ⟨hfails, rfl, rfl⟩)
    · refine ⟨treeInv_grant h hfresh, extends_grant h hfresh, ⟨[page], Nat.le_refl 1, ?_⟩,
        fun hne => absurd hpa hne, ?_⟩
      · intro q hq
        rcases List.mem_cons.mp hq with rfl | hq
        · exact .inr (.inl (by simp))
        · exact .inl hq
      · intro _
        refine ⟨page, rfl, .inr ⟨hvalid, fun hmem => ?_, by simp [Share.grant]⟩⟩
        have hself := (kernelLayout dynamic).mem_block page hvalid
        exact hfresh page hself (.inr ⟨page, hmem, hself⟩)
    · exact ⟨h.clear_scratch, extends_clear_scratch h, Accounted.of_subset (fun _ hq => hq) _ _ _,
        fun hne => absurd hpa hne, fun _ => ⟨0, rfl, .inl ⟨hfails, rfl⟩⟩⟩
  · rw [if_neg hpa, if_neg hpa]
    exact ⟨h, Extends.refl T l, Accounted.of_subset (fun _ hq => hq) _ _ _, fun _ => rfl,
      fun heq => absurd heq hpa⟩

theorem mapped_nil (pa i : Uint64) (l : Share Uint64) (T' : Tables) (l' : Share Uint64) :
    Mapped dynamic fails pa 0 i l T' l' [] where
  given _ := rfl
  answered _ := ⟨[], rfl, by simp⟩
  length := rfl
  allocated _ _ := ⟨[], rfl, rfl, ⟨List.nodup_nil, by simp, by simp, by simp⟩, by simp⟩

/-- One round of `map_pages` before the others. -/
theorem mapped_cons {pa i tmp : Uint64} {l₁ l₂ l₃ : Share Uint64} {T₂ T₃ : Tables}
    {pas : List Uint64} (h : TreeInv dynamic x4 root home T l) (hext : Extends T l T l₁)
    (hgrows₂ : Grows T l₁ T₂ l₂) (hgrows₃ : Grows T₂ l₂ T₃ l₃) (hgiven : pa ≠ 0 → tmp = pa + i)
    (hallocated : pa = 0 → ∃ page, tmp = kpa2pa page ∧ ((fails ∧ page = 0) ∨
      (validAddress dynamic page ∧ page ∉ l.blocks ∧ page ∈ l₁.blocks)))
    (hmapped : Mapped dynamic fails pa pas.length (i + pageSize) l₂ T₃ l₃ pas) :
    Mapped dynamic fails pa (tmp :: pas).length i l T₃ l₃ (tmp :: pas) where
  given hne := by rw [List.length_cons, linear, hgiven hne, ← hmapped.given hne]
  answered hzero := by
    obtain ⟨page, rfl, hanswer⟩ := hallocated hzero
    obtain ⟨answers, rfl, hanswers⟩ := hmapped.answered hzero
    refine ⟨page :: answers, rfl, List.forall_mem_cons.mpr ⟨?_, fun q hq => ?_⟩⟩
    · rcases hanswer with ⟨-, hnull⟩ | ⟨hvalid, hnew, hheld⟩
      · exact .inl hnull
      · exact .inr ⟨hvalid, hnew, hgrows₃.blocks page (hgrows₂.blocks page hheld)⟩
    · refine (hanswers q hq).imp_right fun ⟨hvalid, hnew, hheld⟩ => ⟨hvalid, fun hmem => ?_, hheld⟩
      exact hnew (hgrows₂.blocks q (hext.blocks q hmem))
  length := rfl
  allocated hzero hno := by
    obtain ⟨page, rfl, hanswer⟩ := hallocated hzero
    obtain ⟨hvalid, hnew, hheld⟩ := hanswer.resolve_left fun hfail => hno hfail.1
    obtain ⟨frames, rfl, hlength, hframes, hfresh⟩ := hmapped.allocated hzero hno
    have hnotTable : NotTable T page :=
      fun level hlevel key hsome => hnew (h.held level hlevel key page hsome)
    have hheld₂ := hgrows₂.blocks page hheld
    refine ⟨page :: frames, rfl, by simp, ⟨?_, ?_, ?_, ?_⟩, ?_⟩
    · exact List.nodup_cons.mpr ⟨fun hmem => hfresh page hmem hheld₂, hframes.nodup⟩
    · exact List.forall_mem_cons.mpr ⟨hvalid, hframes.valid⟩
    · exact List.forall_mem_cons.mpr ⟨hgrows₃.blocks page hheld₂, hframes.held⟩
    · exact List.forall_mem_cons.mpr
        ⟨(hgrows₂.trans hgrows₃).notTable hheld hnotTable, hframes.notTable⟩
    · refine List.forall_mem_cons.mpr ⟨hnew, fun q hq hmem => hfresh q hq ?_⟩
      exact hgrows₂.blocks q (hext.blocks q hmem)

/-- What rounds of `map_pages` do: the first of the pages get their leaves, all of
them unless memory runs out or a page has a leaf already. -/
structure RangeMapped (dynamic : DynamicSymbol) (fails : Prop) (x4 : Int) (va pa : Uint64)
    (pteFlags : Int) (pages : Nat) (i : Uint64) (T : Tables) (l : Share Uint64) (T' : Tables)
    (l' : Share Uint64) (pas : List Uint64) (r : Except String Int) : Prop
    extends Grows T l T' l' where
  accounted : Accounted (if pa = 0 then pages else 0) (pageIndices x4 va pages i) l T' l'
  mapped : Mapped dynamic fails pa pas.length i l T' l' pas
  install : installAll (mappings x4 va pteFlags pas i) (translation T l.view) =
    some (translation T' l'.view)
  result : (r = .ok 0 ∧ pas.length = pages) ∨ (fails ∧ r = .ok (-1) ∧ pas.length < pages) ∨
    (r = .error "tried to remap page" ∧ pas.length < pages ∧
      ¬ Vacant (pageIndices x4 va pages i) (translation T l.view))

theorem ensures_attempt_mapPagesLoop (h : TreeInv dynamic x4 root home T l) (va pa : Uint64)
    (pteFlags : Int) (pages : Nat) (i : Uint64) :
    Ensures (kernelLayout dynamic) fails home (mapPagesLoop root va pa pteFlags x4 pages i).attempt l
      fun r l' => ∃ T' pas, TreeInv dynamic x4 root home T' l' ∧
        RangeMapped dynamic fails x4 va pa pteFlags pages i T l T' l' pas r := by
  induction pages generalizing i T l with
  | zero =>
      exact ⟨T, [], h, (Extends.refl T l).toGrows, Accounted.of_subset (fun _ hq => hq) _ _ _,
        mapped_nil pa i l T l, rfl, .inl ⟨rfl, rfl⟩⟩
  | succ pages ih =>
      rw [mapPagesLoop, (neverPanics_frameFor pa i).attempt_bind]
      refine (ensures_frameFor h pa i).seq ?_
      rintro tmp l₁ ⟨htree₁, hext, haccounted₁, hgiven, hallocated⟩
      have htr₁ := translation_of_extends hext
      have hbudget : (if pa = 0 then 1 else 0) + (0 + if pa = 0 then pages else 0) =
          if pa = 0 then pages + 1 else 0 := by
        split <;> omega
      have hstop : ∀ {T₂ l₂}, Grows T l₁ T₂ l₂ → Accounted 0 [pageIndex x4 (va + i)] l₁ T₂ l₂ →
          Accounted (if pa = 0 then pages + 1 else 0) (pageIndices x4 va (pages + 1) i) l T₂ l₂ := by
        intro T₂ l₂ hgrows₂ haccounted₂
        have htotal := haccounted₁.trans (haccounted₂.append_right (if pa = 0 then pages else 0)
          (pageIndices x4 va pages (i + pageSize))) hgrows₂
        rwa [hbudget] at htotal
      refine (ensures_attempt_mapPage htree₁ (va + i) tmp pteFlags).seq_attempt ?_ ?_
      · rintro rv l₂ ⟨T₂, htree₂, hgrows₂, haccounted₂, ⟨hrv, hvacant, htr⟩ | ⟨hfails, hrv, -, -, htr⟩ |
          ⟨hrv, -⟩⟩
        · cases hrv
          rw [if_neg (by decide)]
          refine (ih htree₂ (i + pageSize)).mono ?_
          rintro r l₃ ⟨T₃, pas, htree₃, hgrows₃, haccounted₃, hmapped, hinstall, hend⟩
          rw [htr₁] at hvacant htr
          have htotal :=
            haccounted₁.trans (haccounted₂.trans haccounted₃ hgrows₃) (hgrows₂.trans hgrows₃)
          rw [hbudget] at htotal
          refine ⟨T₃, tmp :: pas, htree₃, hext.toGrows.trans (hgrows₂.trans hgrows₃), htotal,
            mapped_cons h hext hgrows₂ hgrows₃ hgiven hallocated hmapped, ?_, ?_⟩
          · rw [mappings, installAll, if_pos hvacant, ← htr]
            exact hinstall
          · rcases hend with ⟨rfl, hlength⟩ | ⟨hfails, rfl, hlength⟩ | ⟨rfl, hlength, hnot⟩
            · exact .inl ⟨rfl, by rw [List.length_cons, hlength]⟩
            · exact .inr (.inl ⟨hfails, rfl, by rw [List.length_cons]; omega⟩)
            · refine .inr (.inr ⟨rfl, by rw [List.length_cons]; omega, fun hall => hnot ?_⟩)
              have hone : installAll [(pageIndex x4 (va + i), leafEntry tmp pteFlags)]
                  (translation T l.view) = some (translation T₂ l₂.view) := by
                rw [installAll, if_pos hvacant, ← htr, installAll]
              exact hall.append_right hone rfl
        · cases hrv
          rw [if_pos (by decide)]
          refine ⟨T₂, [], htree₂, hext.toGrows.trans hgrows₂, hstop hgrows₂ haccounted₂,
            mapped_nil pa i l T₂ l₂, ?_, .inr (.inl ⟨hfails, rfl, Nat.succ_pos pages⟩)⟩
          rw [htr, htr₁]
          rfl
        · cases hrv
      · rintro message l₂ ⟨T₂, htree₂, hgrows₂, haccounted₂, ⟨hrv, -⟩ | ⟨-, hrv, -⟩ |
          ⟨hrv, hsome, rfl, rfl⟩⟩
        · cases hrv
        · cases hrv
        · cases hrv
          rw [htr₁] at hsome
          refine ⟨T₂, [], htree₂, hext.toGrows.trans hgrows₂, hstop hgrows₂ haccounted₂,
            mapped_nil pa i l T₂ l₂, ?_, .inr (.inr ⟨rfl, Nat.succ_pos pages, fun hall => ?_⟩)⟩
          · rw [htr₁]
            rfl
          · exact hsome (hall.2 _ (by simp [pageIndices]))

theorem ensures_attempt_mapPages (h : TreeInv dynamic x4 root home T l) (va pa size : Uint64)
    (pteFlags : Int) :
    Ensures (kernelLayout dynamic) fails home (mapPages root va pa size pteFlags x4).attempt l
      fun r l' => ∃ T' pas, TreeInv dynamic x4 root home T' l' ∧
        RangeMapped dynamic fails x4 va pa pteFlags ((pgroundup size).toNat / 4096) 0 T l T' l' pas r :=
  ensures_attempt_mapPagesLoop h va pa pteFlags _ 0

/-- `map_pages` installs one leaf for each page of the rounded size. -/
theorem ensures_mapPages (h : TreeInv dynamic x4 root home T l) (va pa size : Uint64)
    (pteFlags : Int) :
    Ensures (kernelLayout dynamic) fails home (mapPages root va pa size pteFlags x4) l
      fun rv l' => ∃ T', TreeInv dynamic x4 root home T' l' ∧ Grows T l T' l' ∧
        ((rv = 0 ∧ ∃ pas,
            Mapped dynamic fails pa ((pgroundup size).toNat / 4096) 0 l T' l' pas ∧
            installAll (mappings x4 va pteFlags pas 0) (translation T l.view) =
              some (translation T' l'.view)) ∨ (fails ∧ rv = -1)) := by
  refine (ensures_attempt_mapPages h va pa size pteFlags).of_attempt.mono ?_
  rintro rv l' ⟨T', pas, htree, hgrows, -, hmapped, hinstall, ⟨hrv, hlength⟩ | ⟨hfails, hrv, -⟩ |
    ⟨hrv, -⟩⟩
  · cases hrv
    exact ⟨T', htree, hgrows, .inl ⟨rfl, pas, hlength ▸ hmapped, hinstall⟩⟩
  · cases hrv
    exact ⟨T', htree, hgrows, .inr ⟨hfails, rfl⟩⟩
  · cases hrv

end Mapping

end RiscvHypervisor.PageMapping
